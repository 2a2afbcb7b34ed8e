import CodexFold.Foundation.Content
import CodexFold.Foundation.Faults
import CodexFold.Foundation.Lines
import CodexFold.Foundation.Parsing
import CodexFold.Vfs.State

/- The journal file (`journal.go`).

   A record is one line of JSON. `appendJournal` writes the line at the end of the
   file in one write, syncs and closes; `readJournal` runs a line scanner over the
   file and decodes every token, and any token that does not decode fails the whole
   read.

   `Codec` holds what is needed of `encoding/json`: a marshalled record decodes to
   itself, has no line break in it (control characters are escaped), and no proper
   beginning of it is a JSON text. -/
namespace CodexFold.Vfs.Journal
open Foundation List Option

def newline : UInt8 := 10

def carriageReturn : UInt8 := 13

/-- `json.Marshal` and `json.Unmarshal` of a journal record. -/
structure Codec (Record : Type) where
  marshal : Record → Bytes
  unmarshal : Bytes → Option Record
  unmarshal_marshal : ∀ r, unmarshal (marshal r) = some r
  newline_escaped : ∀ r, newline ∉ marshal r
  return_escaped : ∀ r, carriageReturn ∉ marshal r
  truncated : ∀ r n, n < (marshal r).length → unmarshal ((marshal r).take n) = none

def maxTokenSize : Nat := 2 ^ 20

/-- `dropCR` of `bufio.ScanLines`. -/
def dropCR (token : Bytes) : Bytes :=
  if token.getLast? = some carriageReturn then token.dropLast else token

/-- The token of one line, or `bufio.ErrTooLong`: a line with its newline has to fit
    the buffer, and a last line without one has to leave room to see the end. -/
def scanToken (line : Bytes) : Except String Bytes :=
  if line.getLast? = some newline then
    if line.length ≤ maxTokenSize then .ok (dropCR line.dropLast) else .error "token too long"
  else if line.length < maxTokenSize then .ok (dropCR line)
  else .error "token too long"

section
variable {Record : Type} (codec : Codec Record)
variable {result : List Record}

/-- What `appendJournal` writes for a record. -/
def Codec.line (record : Record) : Bytes := codec.marshal record ++ [newline]

/-- The loop of `readJournal`. -/
def readLines : List Bytes → Except String (List Record)
  | [] => .ok []
  | line :: rest => do
    let token ← (scanToken line).mapError (fun e => "read session journal: " ++ e)
    match codec.unmarshal token with
    | none => .error "decode session journal"
    | some record => do
      let records ← readLines rest
      .ok (record :: records)

def readJournal (file : Option Bytes) : Except String (List Record) :=
  match file with
  | none => .ok []
  | some data => readLines codec (cutAfter newline data)

/-- The write of `appendJournal`; a disk that runs full takes `n` bytes of it. -/
def writeLine (line : Bytes) (short : Option Nat) : Prog (Option Bytes) String Unit :=
  match short with
  | none => effect "write session journal" (fun file => some (file.getD [] ++ line))
  | some n => do
    effect "write session journal" (fun file => some (file.getD [] ++ line.take n))
    throw "write session journal"

def appendJournal (short : Option Nat) (record : Record) : Prog (Option Bytes) String Unit := do
  effect "open session journal" (fun file => some (file.getD []))
  writeLine (codec.line record) short
  point "sync session journal"
  point "close session journal"

def torn (record : Record) (n : Nat) (file : Option Bytes) : Option Bytes :=
  some (file.getD [] ++ (codec.line record).take n)

variable {codec}

/-! ## What a line holds -/

def Codec.Fits (codec : Codec Record) (r : Record) : Prop := (codec.line r).length ≤ maxTokenSize

instance (r : Record) : Decidable (codec.Fits r) := inferInstanceAs (Decidable (_ ≤ _))

theorem dropCR_of_not_mem {token : Bytes} (h : carriageReturn ∉ token) : dropCR token = token := by
  unfold dropCR
  rw [if_neg]
  intro hlast
  exact h (mem_of_getLast? hlast)

theorem readLines_cons {line : Bytes} {rest : List Bytes} : readLines codec (line :: rest) = .ok result ↔ ∃ token r more,
      scanToken line = .ok token ∧ codec.unmarshal token = some r ∧ readLines codec rest = .ok more ∧
        result = r :: more := by
  rw [readLines, bind_eq_ok]
  constructor
  · rintro ⟨token, htoken, h⟩
    cases hscan : scanToken line with
    | error e =>
      rw [hscan] at htoken
      cases htoken
    | ok token' =>
      rw [hscan] at htoken
      cases htoken
      cases hr : codec.unmarshal token with
      | none =>
        rw [hr] at h
        cases h
      | some r =>
        rw [hr] at h
        obtain ⟨more, hmore, h⟩ := of_bind h
        cases h
        exact ⟨token, r, more, rfl, hr, hmore, rfl⟩
  · rintro ⟨token, r, more, hscan, hr, hmore, rfl⟩
    refine ⟨token, by rw [hscan]; rfl, ?_⟩
    rw [hr]
    exact bind_eq_ok.mpr ⟨more, hmore, rfl⟩

theorem scanToken_line (r : Record) (token : Bytes) :
    scanToken (codec.line r) = .ok token ↔ codec.Fits r ∧ token = codec.marshal r := by
  have hlast : (codec.line r).getLast? = some newline := by simp [Codec.line]
  have htoken : dropCR (codec.line r).dropLast = codec.marshal r := by
    rw [Codec.line, dropLast_concat, dropCR_of_not_mem (codec.return_escaped r)]
  rw [scanToken, if_pos hlast, htoken]
  by_cases hfits : (codec.line r).length ≤ maxTokenSize
  · rw [if_pos hfits]
    exact ⟨fun h => ⟨hfits, (Except.ok.inj h).symm⟩, fun h => by rw [h.2]⟩
  · rw [if_neg hfits]
    exact ⟨nofun, fun h => absurd h.1 hfits⟩

theorem readLines_lines {records : List Record} {rest : List Bytes} :
    readLines codec (records.map codec.line ++ rest) = .ok result ↔
      (∀ r ∈ records, codec.Fits r) ∧ ∃ tail, readLines codec rest = .ok tail ∧ result = records ++ tail := by
  induction records generalizing result with
  | nil => simp
  | cons r records ih =>
    rw [map_cons, cons_append, readLines_cons]
    constructor
    · rintro ⟨token, r', more, hscan, hr, hmore, rfl⟩
      obtain ⟨hfits, rfl⟩ := (scanToken_line r token).mp hscan
      rw [codec.unmarshal_marshal] at hr
      cases hr
      obtain ⟨hall, tail, htail, rfl⟩ := ih.mp hmore
      exact ⟨forall_mem_cons.mpr ⟨hfits, hall⟩, tail, htail, rfl⟩
    · rintro ⟨hall, tail, htail, rfl⟩
      obtain ⟨hfits, hall⟩ := forall_mem_cons.mp hall
      exact ⟨_, r, records ++ tail, (scanToken_line r _).mpr ⟨hfits, rfl⟩, codec.unmarshal_marshal r,
        ih.mpr ⟨hall, tail, htail, rfl⟩, rfl⟩

theorem readLines_torn {r : Record} {n : Nat} (hpos : 0 < n) (hn : n < (codec.line r).length)
    (h : readLines codec (cutAfter newline ((codec.line r).take n)) = .ok result) : result = [r] := by
  have hlen : (codec.line r).length = (codec.marshal r).length + 1 := by simp [Codec.line]
  have htake : (codec.line r).take n = (codec.marshal r).take n := by
    rw [Codec.line, take_append_of_le_length (by omega)]
  have hout : ∀ b ∈ (codec.marshal r).take n, b ∈ codec.marshal r := fun b hb => mem_of_mem_take hb
  have hne : (codec.marshal r).take n ≠ [] := by
    intro hnil
    have := congrArg length hnil
    simp only [length_take, length_nil] at this
    omega
  rw [htake, cutAfter_last (fun hb => codec.newline_escaped r (hout _ hb)) hne] at h
  obtain ⟨token, r', more, hscan, hr, hmore, rfl⟩ := readLines_cons.mp h
  cases hmore
  have hlast : ((codec.marshal r).take n).getLast? ≠ some newline :=
    fun hl => codec.newline_escaped r (hout _ (mem_of_getLast? hl))
  have hcr : dropCR ((codec.marshal r).take n) = (codec.marshal r).take n :=
    dropCR_of_not_mem fun hb => codec.return_escaped r (hout _ hb)
  rw [scanToken, if_neg hlast, hcr] at hscan
  split at hscan
  · cases hscan
    by_cases hfull : n < (codec.marshal r).length
    · rw [codec.truncated r n hfull] at hr
      cases hr
    · rw [take_of_length_le (by omega), codec.unmarshal_marshal] at hr
      cases hr
      rfl
  · cases hscan

/-! ## Acknowledged records -/

theorem appendJournal_done (r : Record) (before : Option Bytes) :
    SpecOr (· = before) (appendJournal codec none r) (fun _ file => file = some (before.getD [] ++ codec.line r))
      (fun _ => True) := by
  refine .bind' (M := fun _ file => file = some (before.getD []))
    (.effect' _ _ (fun file h => by rw [h]) (fun _ _ => trivial) (fun _ _ => trivial)) (fun _ => ?_)
  refine .bind' (M := fun _ file => file = some (before.getD [] ++ codec.line r))
    (.effect' _ _ (fun file h => by rw [h]; rfl) (fun _ _ => trivial) (fun _ _ => trivial)) (fun _ => ?_)
  refine .bind' (M := fun _ file => file = some (before.getD [] ++ codec.line r))
    (.point' _ (fun _ h => h) (fun _ _ => trivial) (fun _ _ => trivial)) (fun _ => ?_)
  exact .point' _ (fun _ h => h) (fun _ _ => trivial) fun _ _ => trivial

theorem appendJournal_short (r : Record) (n : Nat) (file : Option Bytes) :
    appendJournal codec (some n) r [] file = (.failed "write session journal", torn codec r n file, []) := rfl

theorem appends_done (codec : Codec Record) (records : List Record) (before : Option Bytes) :
    SpecOr (· = before) (forEach (appendJournal codec none) records) (fun _ file => file.getD [] = before.getD [] ++ (records.map codec.line).flatten)
      (fun _ => True) := by
  induction records generalizing before with
  | nil => exact .pure' _ fun file h => by simp [h]
  | cons r records ih =>
    refine .bind' (appendJournal_done r before) fun _ => ?_
    refine (ih (some (before.getD [] ++ codec.line r))).weaken fun _ file h => ?_
    rw [h, getD_some, map_cons, flatten_cons, append_assoc]

theorem readJournal_eq (file : Option Bytes) :
    readJournal codec file = readLines codec (cutAfter newline (file.getD [])) := by
  cases file with
  | none => rfl
  | some data => rfl

theorem readJournal_lines {file : Option Bytes} {records : List Record} {rest : Bytes}
    (h : file.getD [] = (records.map codec.line).flatten ++ rest) :
    readJournal codec file = .ok result ↔ (∀ r ∈ records, codec.Fits r) ∧
      ∃ tail, readLines codec (cutAfter newline rest) = .ok tail ∧ result = records ++ tail := by
  have hmap : records.map codec.line = (records.map codec.marshal).map (· ++ [newline]) := by
    rw [List.map_map]
    rfl
  have hcut : cutAfter newline ((records.map codec.line).flatten ++ rest) =
      records.map codec.line ++ cutAfter newline rest := by
    rw [hmap]
    refine cutAfter_lines (fun line hline => ?_) rest
    obtain ⟨r, -, rfl⟩ := List.mem_map.mp hline
    exact codec.newline_escaped r
  rw [readJournal_eq, h, hcut, readLines_lines]

theorem torn_unreadable {records : List Record} {r : Record} {n : Nat} {file : Option Bytes}
    (hfile : file.getD [] = (records.map codec.line).flatten) (hpos : 0 < n) (hn : n < (codec.line r).length) :
    readJournal codec (torn codec r n file) ≠ .ok records := by
  intro hread
  have htorn : (torn codec r n file).getD [] = (records.map codec.line).flatten ++ (codec.line r).take n := by
    rw [← hfile]
    rfl
  obtain ⟨-, tail, htail, heq⟩ := (readJournal_lines htorn).mp hread
  have hnil : tail = [] := by simpa using heq
  have := readLines_torn hpos hn htail
  rw [hnil] at this
  cases this

/-- A journal with a torn tail reads as the acknowledged records, and goes on doing so
    behind later appends, exactly if the tail is empty and every line fits the
    scanner. -/
theorem readJournal_torn_iff (codec : Codec Record) (records later : List Record) (r : Record) (n : Nat)
    (fs fs' rest rest' : List Fault) (file file' : Option Bytes) (hn : n < (codec.line r).length)
    (hack : forEach (appendJournal codec none) records fs none = (.done (), file, rest))
    (hlater : forEach (appendJournal codec none) later fs' (torn codec r n file) = (.done (), file', rest')) :
    (readJournal codec (torn codec r n file) = .ok records ∧ readJournal codec file' = .ok (records ++ later)) ↔
      n = 0 ∧ ∀ r' ∈ records ++ later, codec.Fits r' := by
  have hfile := appends_done codec records none fs none rfl
  rw [hack] at hfile
  have hfile' := appends_done codec later (torn codec r n file) fs' _ rfl
  rw [hlater] at hfile'
  have hfile : file.getD [] = (records.map codec.line).flatten := by simpa using show _ = _ from hfile
  have htorn : (torn codec r n file).getD [] = (records.map codec.line).flatten ++ (codec.line r).take n := by
    rw [← hfile]
    rfl
  constructor
  · rintro ⟨hread, hread'⟩
    have hzero : n = 0 := by
      by_contra hne
      exact torn_unreadable hfile (Nat.pos_of_ne_zero hne) hn hread
    refine ⟨hzero, ?_⟩
    have hall : file'.getD [] = ((records ++ later).map codec.line).flatten ++ [] := by
      rw [show file'.getD [] = _ from hfile', htorn, hzero]
      simp
    exact ((readJournal_lines hall).mp hread').1
  · rintro ⟨rfl, hfits⟩
    rw [take_zero] at htorn
    have hall : file'.getD [] = ((records ++ later).map codec.line).flatten ++ [] := by
      rw [show file'.getD [] = _ from hfile', htorn]
      simp
    refine ⟨(readJournal_lines htorn).mpr ⟨fun r' hr' => ?_, [], rfl, by simp⟩,
      (readJournal_lines hall).mpr ⟨hfits, [], rfl, by simp⟩⟩
    exact hfits r' (mem_append_left _ hr')

end

/-! ## The records of one compaction -/

def phaseName : Phase → String
  | .prepared => "prepared"
  | .dataSynced => "data-synced"
  | .afterFilePublish => "after-file-publish"
  | .statePublishing => "state-publishing"
  | .statePublished => "state-published"
  | .complete => "complete"
  | .rolledBack => "rolled-back"

/-- What precedes the phase in the record of a compaction, as `json.Marshal` writes it. -/
def compactHead : Bytes :=
  utf8 "\x7b\"operation_id\":\"compact-00000000000000000001\",\"session_id\":\"s\",\"kind\":\"compact\",\"phase\":\""

def compactFields : Bytes := flatten
  [utf8 ",\"at\":\"2026-07-11T09:30:00Z\",\"temp_path\":\"/s/.state-compact-00000000000000000002.tmp\",\"final_path\":",
   utf8 "\"/s/delta-00000000000000000002.jsonl\",\"candidate\":\x7b\"version\":2,\"session_id\":\"s\",\"generation\":2,",
   utf8 "\"manifest_path\":\"/m/2.json\",\"manifest_sha256\":",
   utf8 "\"ca3d163bab055381827226140568f3bef7eaac187cebd76878e0b63e9e442356\",\"base_bytes\":2,\"base_sha256\":",
   utf8 "\"4355a46b19d348dc2f57c046f8ef63d4538ebb936000f3c9ee954a27460dd865\",",
   utf8 "\"delta_path\":\"/s/delta-00000000000000000002.jsonl\",\"native_snapshot\":",
   utf8 "\x7b\"path\":\"\",\"bytes\":0,\"sha256\":\"\"\x7d\x7d,\"native\":\x7b\"path\":\"/s/delta-00000000000000000001.jsonl\",",
   utf8 "\"bytes\":2,\"sha256\":\"4355a46b19d348dc2f57c046f8ef63d4538ebb936000f3c9ee954a27460dd865\"\x7d\x7d"]

def compactText (phase : Phase) : Bytes := compactHead ++ (utf8 (phaseName phase) ++ 34 :: compactFields)

def phases : List Phase :=
  [.prepared, .dataSynced, .afterFilePublish, .statePublishing, .statePublished, .complete, .rolledBack]

theorem mem_phases (phase : Phase) : phase ∈ phases := by
  cases phase <;> decide

theorem compactFields_printable : (compactHead ++ compactFields).all (32 ≤ ·) := by
  decide +kernel

theorem length_compactFields : compactFields.length < 1000 := by
  decide +kernel

theorem phaseName_printable : phases.all fun p => (utf8 (phaseName p)).all fun b => 32 ≤ b && b != 34 := by
  decide +kernel

theorem phaseName_injective {p q : Phase} (h : phaseName p = phaseName q) : p = q := by
  cases p <;> cases q <;> first | rfl | simp [phaseName] at h

theorem compactText_printable (phase : Phase) : ∀ b ∈ compactText phase, 32 ≤ b := by
  have hname := all_eq_true.mp (all_eq_true.mp phaseName_printable phase (mem_phases phase))
  have hfields := all_eq_true.mp compactFields_printable
  intro b hb
  simp only [compactText, mem_append, mem_cons, Bool.and_eq_true, decide_eq_true_eq] at hb hfields hname
  rcases hb with hb | hb | rfl | hb
  · exact hfields b (.inl hb)
  · exact (hname b hb).1
  · decide
  · exact hfields b (.inr hb)

theorem compactText_prefixFree {p q : Phase} (h : compactText p <+: compactText q) : p = q := by
  have hquote : ∀ {r : Phase} {b}, b ∈ utf8 (phaseName r) → (b != 34) = true := fun hb =>
    (Bool.and_eq_true_iff.mp (all_eq_true.mp (all_eq_true.mp phaseName_printable _ (mem_phases _)) _ hb)).2
  obtain ⟨more, hmore⟩ := (prefix_append_right_inj compactHead).mp h
  have hname := congrArg (takeWhile (· != 34)) hmore
  rw [append_assoc, cons_append, takeWhile_append_of_pos fun _ => hquote,
    takeWhile_append_of_pos fun _ => hquote] at hname
  exact phaseName_injective (utf8_injective (by simpa using hname))

def compactions : Codec Phase where
  marshal phase := compactText phase
  unmarshal data := phases.find? fun phase => compactText phase == data
  unmarshal_marshal phase := by
    cases hfound : phases.find? fun q => compactText q == compactText phase with
    | none => simpa using find?_eq_none.mp hfound phase (mem_phases phase)
    | some q =>
      have htext : compactText q = compactText phase := by simpa using find?_some hfound
      have hprefix : compactText q <+: compactText phase := by rw [htext]
      rw [compactText_prefixFree hprefix]
  newline_escaped phase hb := by simpa [newline] using compactText_printable phase _ hb
  return_escaped phase hb := by simpa [carriageReturn] using compactText_printable phase _ hb
  truncated phase n hn := by
    refine find?_eq_none.mpr fun q hq htext => ?_
    have htext : compactText q = (compactText phase).take n := by simpa using htext
    -- a beginning of the record that is the text of a record is all of it
    have hsame := compactText_prefixFree (htext ▸ take_prefix n (compactText phase))
    subst hsame
    have := congrArg length htext
    rw [length_take] at this
    omega

def appended (records : List Phase) (file : Option Bytes) : Outcome String Unit × Option Bytes × List Fault :=
  forEach (appendJournal compactions none) records [] file

def stoppedCompaction : Option Bytes := (appended [.prepared, .statePublishing] none).2.1

theorem compactions_fits (phase : Phase) : compactions.Fits phase := by
  have hname : ∀ p ∈ phases, (utf8 (phaseName p)).length < 1000 := by decide +kernel
  have hshort := hname phase (mem_phases phase)
  have hfields := length_compactFields
  have hhead : compactHead.length < 1000 := by decide +kernel
  show (compactText phase ++ [newline]).length ≤ maxTokenSize
  simp only [compactText, length_append, length_cons, length_nil, maxTokenSize]
  omega

/-- Nothing of a third record is in the file, and two more come after the restart. -/
theorem readJournal_torn_iff_untouched :
    readJournal compactions (torn compactions .statePublished 0 stoppedCompaction) = .ok [.prepared, .statePublishing] ∧
      readJournal compactions
        (appended [.statePublished, .complete] (torn compactions .statePublished 0 stoppedCompaction)).2.1 =
          .ok [.prepared, .statePublishing, .statePublished, .complete] :=
  (readJournal_torn_iff compactions [.prepared, .statePublishing] [.statePublished, .complete] .statePublished 0 [] [] [] []
    _ _ (by simp [Codec.line]) rfl rfl).mpr ⟨rfl, fun phase _ => compactions_fits phase⟩

/-- The first byte of a further record is enough: the write fails, and nothing can be read
    any more. -/
theorem torn_tail_refused :
    (appended [.prepared, .statePublishing] none).1 = .done () ∧
      appendJournal compactions (some 1) .statePublished [] stoppedCompaction =
        (.failed "write session journal", torn compactions .statePublished 1 stoppedCompaction, []) ∧
      readJournal compactions (torn compactions .statePublished 1 stoppedCompaction) ≠ .ok [.prepared, .statePublishing] := by
  have hfile : stoppedCompaction.getD [] = ([.prepared, .statePublishing].map compactions.line).flatten := by
    have hdone := appends_done compactions [.prepared, .statePublishing] none [] none rfl
    exact hdone
  refine ⟨rfl, appendJournal_short .., torn_unreadable hfile Nat.one_pos ?_⟩
  simp only [Codec.line, compactions, compactText, length_append, length_cons]
  omega

end CodexFold.Vfs.Journal
