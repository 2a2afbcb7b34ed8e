import CodexFold.Contain.Check
import CodexFold.Foundation.Lines

/- What a scan visits.

   `records` cuts a file after every newline, as a definition of its own; a scan
   assembles the same records from fragments of at most one buffer. `comparable`
   leaves out the meta record that the scan skips. The scan is then a loop over the
   comparable records, with one rule (`scanRecords_yields`) for every visitor. -/
namespace CodexFold.Contain
open Foundation List

def records (data : Bytes) : List Bytes := cutAfter Fold.newline data

/-! ## One record -/

variable (first : Bool)

def Reading.of (offset : Nat) (hashed : Bytes) : Reading where
  hashed := hashed
  size := hashed.length
  capture := if first && decide (hashed.length ≤ firstRecordCaptureLimit) then hashed else []
  captureComplete := !first || decide (hashed.length ≤ firstRecordCaptureLimit)
  hasData := !hashed.isEmpty
  offset := offset + hashed.length

theorem newReading_eq (offset : Nat) : newReading offset = Reading.of first offset [] := by
  cases first <;> rfl

theorem take_of (offset : Nat) (hashed fragment : Bytes) :
    (Reading.of first offset hashed).take first fragment = Reading.of first offset (hashed ++ fragment) := by
  unfold Reading.take
  by_cases hf : fragment = []
  · simp [hf]
  · rw [if_neg hf]
    have hdata : (hashed ++ fragment).isEmpty = false := by simp [hf]
    cases first with
    | false => simp [Reading.of, hdata, Nat.add_assoc]
    | true =>
      by_cases hold : hashed.length ≤ firstRecordCaptureLimit
      · by_cases hnew : hashed.length + fragment.length ≤ firstRecordCaptureLimit
        · simp [Reading.of, hold, hnew, hf, Nat.add_assoc]
        · simp [Reading.of, hold, hnew, hf, Nat.add_assoc]
      · have hnew : ¬hashed.length + fragment.length ≤ firstRecordCaptureLimit := by omega
        simp [Reading.of, hold, hnew, hf, Nat.add_assoc]

/-- The inner loop reads the first record of what is left. The induction is on the
    fuel, of which one more than the bytes left is enough. -/
theorem readRecord_yields (disk : Disk) (first : Bool) (offset : Nat) : ∀ (fuel : Nat) (hashed rest : Bytes),
    rest.length < fuel → Fold.newline ∉ hashed → ∃ line eof rest',
      Yields (readRecord first fuel (Reading.of first offset hashed) rest) disk
        (Reading.of first offset (hashed ++ line), eof, rest') ∧
      line ++ rest' = rest ∧ (eof → rest' = []) ∧ (hashed ++ line = [] → rest = []) ∧
      (hashed ++ line ≠ [] → records (hashed ++ rest) = (hashed ++ line) :: records rest')
  | 0, _, _, hfuel, _ => absurd hfuel (Nat.not_lt_zero _)
  | fuel + 1, hashed, rest, hfuel, hout => by
    rcases Fold.readSlice_cases rest with ⟨line, rest', hslice, hline, hsplit⟩ |
      ⟨fragment, rest', hslice, hfragment, hne, hsplit⟩ | ⟨hslice, hrest⟩
    · refine ⟨line ++ [Fold.newline], false, rest', ?_, ?_, nofun,
        fun h => (by simp at h), fun _ => ?_⟩
      · simp only [readRecord, hslice, take_of]
        exact .pure' _ _
      · rw [hsplit, append_assoc, singleton_append]
      · have hboth : Fold.newline ∉ hashed ++ line := by
          rw [mem_append, not_or]
          exact ⟨hout, hline⟩
        rw [hsplit, ← append_assoc, records, cutAfter_line hboth, append_assoc]
        rfl
    · have hless : rest'.length < fuel := by
        have hpos := length_pos_of_ne_nil hne
        have := congrArg length hsplit
        rw [length_append] at this
        omega
      have hboth : Fold.newline ∉ hashed ++ fragment := by
        rw [mem_append, not_or]
        exact ⟨hout, hfragment⟩
      obtain ⟨line, eof, rest'', hyields, hrest, heof, -, hrecords⟩ :=
        readRecord_yields disk first offset fuel (hashed ++ fragment) rest' hless hboth
      refine ⟨fragment ++ line, eof, rest'', ?_, ?_, heof, fun h => (by simp [hne] at h), fun h => ?_⟩
      · simp only [readRecord, hslice, take_of]
        rw [← append_assoc]
        exact .bind' (.point' _ _) hyields
      · rw [append_assoc, hrest, hsplit]
      · rw [← append_assoc] at h ⊢
        rw [hsplit, ← append_assoc]
        exact hrecords h
    · refine ⟨rest, true, [], ?_, append_nil _, fun _ => rfl, fun h => (append_eq_nil_iff.mp h).2,
        fun h => ?_⟩
      · simp only [readRecord, hslice, take_of]
        exact .pure' _ _
      · have hboth : Fold.newline ∉ hashed ++ rest := by
          rw [mem_append, not_or]
          exact ⟨hout, hrest⟩
        rw [records, cutAfter_last hboth h]
        rfl

/-! ## The comparable records -/

section
variable {Digest β : Type} (sha256 : Bytes → Digest) (envelopeType : Bytes → Option String) (ignoreSessionMeta : Bool)

def skips (record : Bytes) : Bool :=
  ignoreSessionMeta && decide (record.length ≤ firstRecordCaptureLimit) && isSessionMeta envelopeType record

variable (data : Bytes)

def skipped : List Bytes :=
  ((records data).take 1).filter (skips envelopeType ignoreSessionMeta)

def comparable : List Bytes :=
  (records data).drop (skipped envelopeType ignoreSessionMeta data).length

theorem skipped_append_comparable :
    skipped envelopeType ignoreSessionMeta data ++ comparable envelopeType ignoreSessionMeta data = records data := by
  unfold comparable skipped
  cases hr : records data with
  | nil => rfl
  | cons r rest => by_cases hs : skips envelopeType ignoreSessionMeta r = true <;> simp [hs]

def recordInfo (before : List Bytes) (r : Bytes) : RecordInfo Digest where
  index := before.length
  start := before.flatten.length
  stop := before.flatten.length + r.length
  fingerprint := ⟨sha256 r, r.length⟩

/-- `I` holds of a visitor that goes on and `Q` of one that has found what it wants. -/
def Visited.Holds (I Q : β → Prop) : Visited β → Prop
  | .next b => I b
  | .found b => Q b

variable {sha256 envelopeType} {disk : Disk} {ignoreSessionMeta : Bool}
  {visit : β → RecordInfo Digest → Prog Disk String (Visited β)} {I : List Bytes → β → Prop} {Q : β → Prop}

/-- The loop over the records, as the loop itself sees them. The induction is on the
    fuel: every round reads at least one byte. -/
theorem scanLoop_yields {all : List Bytes} (hstep : ∀ before r post b, all = before ++ r :: post → I before b → ∃ v,
      Yields (visitRecord sha256 envelopeType ignoreSessionMeta visit b before.length before.flatten.length
        (Reading.of (decide (before.length = 0)) before.flatten.length r)) disk v ∧ v.Holds (I (before ++ [r])) Q) :
    ∀ (fuel : Nat) (before : List Bytes) (rest : Bytes) (b : β), rest.length < fuel →
      all = before ++ records rest → I before b → ∃ b',
      Yields (scanLoop sha256 envelopeType ignoreSessionMeta visit fuel b before.length before.flatten.length
        rest) disk b' ∧ (I all b' ∨ Q b')
  | 0, _, _, _, hfuel, _, _ => absurd hfuel (Nat.not_lt_zero _)
  | fuel + 1, before, rest, b, hfuel, hall, hb => by
    obtain ⟨line, eof, rest', hread, hrest, heof, hempty, hrecords⟩ := readRecord_yields disk
      (decide (before.length = 0)) before.flatten.length (rest.length + 1) [] rest (Nat.lt_succ_self _)
      not_mem_nil
    rw [nil_append] at hread hempty
    rw [nil_append, nil_append] at hrecords
    rw [← newReading_eq] at hread
    unfold scanLoop
    by_cases hline : line = []
    · -- nothing was read: the file has ended
      subst hline
      have hdone : all = before := by
        rw [hall, hempty rfl, records, cutAfter_nil, append_nil]
      refine ⟨b, .bind' (.point' _ _) (.bind' hread (.pure' _ _)), .inl ?_⟩
      rw [hdone]
      exact hb
    · have hcons := hrecords hline
      rw [hcons] at hall
      obtain ⟨v, hv, hholds⟩ := hstep before line (records rest') b hall hb
      have hdata : (!(Reading.of (decide (before.length = 0)) before.flatten.length line).hasData) = false := by
        simp [Reading.of, hline]
      have hall' : all = (before ++ [line]) ++ records rest' := by
        rw [hall, append_assoc, singleton_append]
      cases v with
      | found b' =>
        refine ⟨b', .bind' (.point' _ _) (.bind' hread ?_), .inr hholds⟩
        simp only [hdata, Bool.false_eq_true, if_false]
        exact .bind' hv (.pure' _ _)
      | next b' =>
        cases eof with
        | true =>
          refine ⟨b', .bind' (.point' _ _) (.bind' hread ?_), .inl ?_⟩
          · simp only [hdata, Bool.false_eq_true, if_false]
            exact .bind' hv (.pure' _ _)
          · rw [heof rfl, records, cutAfter_nil, append_nil] at hall'
            rw [hall']
            exact hholds
        | false =>
          have hless : rest'.length < fuel := by
            have hpos := length_pos_of_ne_nil hline
            have := congrArg length hrest
            rw [length_append] at this
            omega
          obtain ⟨b'', hloop, hend⟩ := scanLoop_yields hstep fuel (before ++ [line]) rest' b' hless hall' hholds
          refine ⟨b'', .bind' (.point' _ _) (.bind' hread ?_), hend⟩
          simp only [hdata, Bool.false_eq_true, if_false]
          refine .bind' hv ?_
          simpa [Reading.of] using hloop

theorem openFile_yields {path : String} {data : Bytes} (h : disk.get path = some data) :
    Yields (openFile path) disk data := by
  refine .bind' (.point' _ _) (.bind' (.read' _ _) ?_)
  rw [h]
  exact .pure' _ _

variable {b : β}

theorem visitRecord_first {r : Bytes} :
    visitRecord sha256 envelopeType ignoreSessionMeta visit b 0 ([] : List Bytes).flatten.length
      (Reading.of (decide (0 = 0)) ([] : List Bytes).flatten.length r) =
      if skips envelopeType ignoreSessionMeta r then pure (.next b) else visit b (recordInfo sha256 [] r) := by
  unfold visitRecord skips
  by_cases hshort : r.length ≤ firstRecordCaptureLimit
  · simp [Reading.of, hshort, recordInfo]
  · simp [Reading.of, hshort, recordInfo]

theorem visitRecord_later {before : List Bytes} {r : Bytes} (h : before.length ≠ 0) :
    visitRecord sha256 envelopeType ignoreSessionMeta visit b before.length before.flatten.length
      (Reading.of (decide (before.length = 0)) before.flatten.length r) = visit b (recordInfo sha256 before r) := by
  unfold visitRecord
  simp [h, Reading.of, recordInfo]

theorem scanRecords_yields {path : String} {data : Bytes} (hfile : disk.get path = some data)
    (hstep : ∀ seen r post b, comparable envelopeType ignoreSessionMeta data = seen ++ r :: post → I seen b → ∃ v, Yields (visit b (recordInfo sha256 (skipped envelopeType ignoreSessionMeta data ++ seen) r)) disk v ∧ v.Holds (I (seen ++ [r])) Q)
    (hb : I [] b) : ∃ b', Yields (scanRecords sha256 envelopeType path ignoreSessionMeta visit b) disk b' ∧
      (I (comparable envelopeType ignoreSessionMeta data) b' ∨ Q b') := by
  have hall := skipped_append_comparable envelopeType ignoreSessionMeta data
  -- the invariant over all records forgets the one that is skipped
  have hstep' : ∀ before r post b, records data = before ++ r :: post →
      I (before.drop (skipped envelopeType ignoreSessionMeta data).length) b → ∃ v,
      Yields (visitRecord sha256 envelopeType ignoreSessionMeta visit b before.length before.flatten.length
        (Reading.of (decide (before.length = 0)) before.flatten.length r)) disk v ∧
        v.Holds (I ((before ++ [r]).drop (skipped envelopeType ignoreSessionMeta data).length)) Q := by
    intro before r post b hrecords hI
    cases before with
    | nil =>
      rw [drop_nil] at hI
      have hfirst : skipped envelopeType ignoreSessionMeta data =
          [r].filter (skips envelopeType ignoreSessionMeta) := by
        rw [skipped, hrecords]
        rfl
      by_cases hskip : skips envelopeType ignoreSessionMeta r = true
      · refine ⟨.next b, ?_, ?_⟩
        · rw [show ([] : List Bytes).length = 0 from rfl, visitRecord_first, if_pos hskip]
          exact .pure' _ _
        · rw [hfirst]
          simpa [Visited.Holds, hskip] using hI
      · have hcomp : comparable envelopeType ignoreSessionMeta data = [] ++ r :: post := by
          rw [comparable, hfirst, hrecords]
          simp [hskip]
        obtain ⟨v, hv, hholds⟩ := hstep [] r post b hcomp hI
        rw [hfirst] at hv ⊢
        refine ⟨v, ?_, ?_⟩
        · rw [show ([] : List Bytes).length = 0 from rfl, visitRecord_first, if_neg hskip]
          simpa [hskip] using hv
        · simpa [hskip] using hholds
    | cons first before =>
      have hlen : (skipped envelopeType ignoreSessionMeta data).length ≤ (first :: before).length := by
        have hone : (skipped envelopeType ignoreSessionMeta data).length ≤ 1 :=
          (length_filter_le _ _).trans (length_take_le 1 _)
        exact hone.trans (by simp)
      have hcomp : comparable envelopeType ignoreSessionMeta data =
          (first :: before).drop (skipped envelopeType ignoreSessionMeta data).length ++ r :: post := by
        rw [comparable, hrecords, drop_append_of_le_length hlen]
      have hsplit : skipped envelopeType ignoreSessionMeta data ++
          (first :: before).drop (skipped envelopeType ignoreSessionMeta data).length = first :: before := by
        rw [hcomp, hrecords, ← append_assoc] at hall
        exact append_cancel_right hall
      obtain ⟨v, hv, hholds⟩ := hstep _ r post b hcomp hI
      rw [hsplit] at hv
      refine ⟨v, ?_, ?_⟩
      · rw [visitRecord_later (by simp)]
        exact hv
      · rw [drop_append_of_le_length hlen]
        exact hholds
  obtain ⟨b', hy, hend⟩ := scanLoop_yields hstep' (data.length + 1) [] data b (Nat.lt_succ_self _) rfl
    (by rw [drop_nil]; exact hb)
  exact ⟨b', .bind' (openFile_yields hfile) hy, hend⟩

end

end CodexFold.Contain
