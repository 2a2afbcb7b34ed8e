import CodexFold.Foundation.Traces
import CodexFold.Mount.Transactions

/- The bytes a `Stage` has acknowledged.

   An acknowledged byte is in the file or in a pending segment until a call drops the
   pending segments: a `Stage` that contradicts them, the file or the limit, or a
   `CommitAvailable` whose tail is not valid JSONL. A strict `Commit` after such a call
   finds nothing pending, only syncs the file and returns nil, so the calls of a run keep
   what they acknowledge exactly if none of them drops anything. -/
namespace CodexFold.Mount
open Foundation List

variable {o : Nat}

def Appending.file (a : Appending) : Bytes :=
  match a.disk.files.get a.state.path with
  | some object => a.disk.contents object
  | none => []

/-- The file of the append state is there and the state is what the calls on it make it. -/
structure Usable (a : Appending) (o : Nat) : Prop where
  file : a.disk.files.get a.state.path = some o
  ready : Ready a.state (a.disk.contents o)

variable {a : Appending}

theorem Usable.file_eq (h : Usable a o) : a.file = a.disk.contents o := by
  unfold Appending.file
  rw [h.file]

/-! ## The calls without a fault -/

/-- `Stage` looks at what it was sent. -/
def Considered (data : Bytes) (offset : Int) : Prop :=
  0 ≤ offset ∧ data ≠ [] ∧ offset.toNat + data.length ≤ maxInt64

def Appending.cleared (a : Appending) : Appending := { a with state := a.state.clearPendingLocked }

variable {d : Disk}

theorem openPath_runs {path : Path} (hfile : d.files.get path = some o) : Runs (openPath path) d o d := by
  refine .bind' (.point' _ d) (.bind' (.read' _ d) ?_)
  exact .ofExcept' d (Disk.lookup_eq_ok.mpr hfile)

theorem openPath_concludes (d : Disk) (path : Path) : Concludes (openPath path) d (fun o t => t = d ∧ d.files.get path = some o)
    fun _ t => t = d ∧ d.files.get path = none := by
  refine .point' (.read' ?_)
  unfold Disk.lookup
  cases hget : d.files.get path with
  | none => exact .throw' ⟨rfl, rfl⟩
  | some o => exact .pure' ⟨rfl, rfl⟩

theorem readCommitted_runs {s : NativeAppendState} {data : Bytes} {offset : Nat} (hfile : d.files.get s.path = some o) :
    Runs (readCommitted s data offset) d (readZeroed (d.contents o) offset (s.overlap data offset)) d := by
  unfold readCommitted
  by_cases hlt : offset < s.baseSize
  · rw [if_pos hlt]
    exact .bind' (openPath_runs hfile) (.bind' (.point' _ d) (.bind' (.point' _ d) (.bind' (.read' _ d) (.pure' _ d))))
  · rw [if_neg hlt]
    have hnone : s.overlap data offset = 0 := by
      unfold NativeAppendState.overlap
      omega
    have hread : readZeroed (d.contents o) offset 0 = [] := by
      unfold readZeroed
      rw [resize_of_le (Nat.zero_le _), take_zero]
    rw [hnone, hread]
    exact .pure' _ d

theorem stage_concludes (h : Usable a o) (data : Bytes) (offset : Int) :
    Concludes (stage data offset) a
      (fun _ a' => (data = [] ∧ a' = a) ∨ (Considered data offset ∧ Fits a.state a.file data offset.toNat ∧
        ∃ s, a' = { a with state := s } ∧ StagedOn a.state s a.file data offset.toNat))
      (fun _ a' => (¬Considered data offset ∧ a' = a) ∨
        (Considered data offset ∧ ¬Fits a.state a.file data offset.toNat ∧ a' = a.cleared)) := by
  refine .ensure' (fun hoffset => ?_) fun hoffset => .inl ⟨fun hc => ?_, rfl⟩
  swap
  · exact absurd hc.1 (of_decide_eq_false hoffset)
  cases data with
  | nil => exact .pure' (.inl ⟨rfl, rfl⟩)
  | cons b rest =>
    refine .ensure' (fun hrange => ?_) fun hrange => .inl ⟨fun hc => ?_, rfl⟩
    swap
    · exact absurd hc.2.2 (of_decide_eq_false hrange)
    have hconsidered : Considered (b :: rest) offset :=
      ⟨of_decide_eq_true hoffset, cons_ne_nil b rest, of_decide_eq_true hrange⟩
    refine .read' (.after (.onPart' (readCommitted_runs h.file)) ?_)
    rw [h.file_eq]
    rcases stageLocked_spec h.ready (cons_ne_nil b rest) offset.toNat with ⟨s, hok, hfits, hstaged⟩ | ⟨e, herr, hfits⟩
    · rw [hok]
      exact .modify' (.pure' (.inr ⟨hconsidered, hfits, s, rfl, hstaged⟩))
    · rw [herr]
      exact .modify' (.throw' (.inr ⟨hconsidered, hfits, rfl⟩))

theorem commitNativeAppend_runs {path : Path} (tail : Bytes) (hfile : d.files.get path = some o) :
    ∃ d', Runs (commitNativeAppend path (d.contents o).length tail) d () d' ∧
      d'.durable = (d.durable.unjournaled path).appended o tail := by
  have hcompletes := commitNativeAppend_completes tail hfile
  obtain ⟨_, d', hrun⟩ := hcompletes.returns d rfl
  have hspec := hcompletes.spec [] d rfl
  rw [hrun.eq] at hspec
  exact ⟨d', hrun, hspec⟩

def Pending (s : NativeAppendState) (tail : Bytes) : Prop :=
  s.segments ≠ [] ∧ s.assembleLocked = .ok tail ∧ tail.getLast? = some newline

structure Committed (a a' : Appending) (o : Nat) (tail : Bytes) : Prop where
  usable : Usable a' o
  path : a'.state.path = a.state.path
  idle : a'.state.segments = []
  file : a'.file = a.file ++ tail

section
variable {a : Appending} {o : Nat} (h : Usable a o) (jsonValid : Bytes → Bool) (strict : Bool)

def CommitReturned (a : Appending) (o : Nat) (jsonValid : Bytes → Bool) (strict : Bool) (a' : Appending) : Prop :=
  ((a.state.segments = [] ∨ strict = false) ∧ a' = a ∧ ∀ tail, ¬Pending a.state tail) ∨
    ∃ tail, Pending a.state tail ∧ completeJSONL jsonValid tail = true ∧ Committed a a' o tail

def CommitFailed (a : Appending) (jsonValid : Bytes → Bool) (strict : Bool) (a' : Appending) : Prop :=
  a' = a.cleared ∧ ((strict = true ∧ ∀ tail, ¬Pending a.state tail) ∨ ∃ tail, Pending a.state tail ∧ completeJSONL jsonValid tail = false)

theorem leave_concludes (hnone : ∀ tail, ¬Pending a.state tail) (e : String) :
    Concludes (if (!strict) then pure () else do clearPending; throw e : AppendProg Unit) a
      (fun _ => CommitReturned a o jsonValid strict) (fun _ => CommitFailed a jsonValid strict) := by
  cases strict with
  | false => exact .pure' (.inl ⟨.inr rfl, rfl, hnone⟩)
  | true => exact .modify' (.throw' ⟨rfl, .inl ⟨rfl, hnone⟩⟩)

include h in
theorem commitTail_concludes {tail : Bytes} (hpending : a.state.segments ≠ []) (htail : a.state.assembleLocked = .ok tail) :
    Concludes (commitTail jsonValid strict a.state tail) a
      (fun _ => CommitReturned a o jsonValid strict) (fun _ => CommitFailed a jsonValid strict) := by
  unfold commitTail
  by_cases hline : tail.getLast? = some newline
  swap
  · rw [if_pos (bne_iff_ne.mpr hline)]
    refine leave_concludes jsonValid strict ?_ _
    rintro other ⟨-, hok, hlast⟩
    rw [htail] at hok
    cases hok
    exact hline hlast
  have hpending : Pending a.state tail := ⟨hpending, htail, hline⟩
  rw [if_neg (by simp [hline])]
  by_cases hcomplete : completeJSONL jsonValid tail = true
  swap
  · rw [Bool.not_eq_true] at hcomplete
    rw [if_pos (by rw [hcomplete]; simp)]
    exact .modify' (.throw' ⟨rfl, .inr ⟨tail, hpending, hcomplete⟩⟩)
  rw [if_neg (by simp [hcomplete, utf8Valid_of_complete hcomplete])]
  obtain ⟨d, hrun, hd⟩ := commitNativeAppend_runs tail h.file
  rw [h.ready.size] at hrun
  refine .after (.onFailure' (.onPart' hrun)) (.modify' (.of_runs rfl ?_))
  -- the state counts the tail as committed and has nothing pending
  have hcontents : d.contents o = a.disk.contents o ++ tail := by
    rw [Disk.durable_contents hd]
    exact Disk.setContents_self ..
  have hfile : d.files.get a.state.path = some o := by
    rw [Disk.durable_files hd]
    exact h.file
  have husable : Usable ⟨(a.state.resized (a.state.baseSize + tail.length)).clearPendingLocked, d⟩ o := by
    refine ⟨hfile, Ready.of_idle ?_ rfl rfl⟩
    show (d.contents o).length = a.state.baseSize + tail.length
    rw [hcontents, length_append, h.ready.size]
  refine .inr ⟨tail, hpending, hcomplete, husable, rfl, rfl, ?_⟩
  rw [h.file_eq]
  exact husable.file_eq.trans hcontents

include h in
theorem commit_runs_idle (hidle : a.state.segments = []) : Runs (commit jsonValid strict) a () a := by
  refine .bind' (.read' _ a) ?_
  rw [if_pos (List.isEmpty_iff.mpr hidle)]
  have hsync : Runs (syncNativePath a.state.path) a.disk () a.disk :=
    .bind' (openPath_runs h.file) (.bind' (.point' _ _) (.point' _ _))
  exact .onPart' hsync

include h in
theorem commit_concludes : Concludes (commit jsonValid strict) a
    (fun _ => CommitReturned a o jsonValid strict) (fun _ => CommitFailed a jsonValid strict) := by
  by_cases hidle : a.state.segments = []
  · exact .of_runs (commit_runs_idle h jsonValid strict hidle) (.inl ⟨.inl hidle, rfl, fun tail hp => hp.1 hidle⟩)
  refine .read' ?_
  rw [if_neg (mt List.isEmpty_iff.mp hidle)]
  rcases assembleLocked_spec h.ready with ⟨hgap, -⟩ | ⟨tail, htail, -⟩
  · rw [hgap]
    simp only [beq_self_eq_true, Bool.and_true]
    refine leave_concludes jsonValid strict ?_ _
    rintro tail ⟨-, hok, -⟩
    rw [hgap] at hok
    cases hok
  · rw [htail]
    exact commitTail_concludes h jsonValid strict hidle htail

end

/-! ## Runs of calls -/

inductive Call where
  | stage (data : Bytes) (offset : Int)
  | commitAvailable
  | commit

/-- An append state with what its calls have acknowledged since the last strict `Commit`. -/
structure Tracked where
  appending : Appending
  acknowledged : List Segment

variable (jsonValid : Bytes → Bool)

def Call.run : Call → AppendProg Unit
  | .stage data offset => do
    let _ ← Mount.stage data offset
    pure ()
  | .commitAvailable => Mount.commit jsonValid false
  | .commit => Mount.commit jsonValid true

def Call.acknowledged (returned : Bool) (before : List Segment) : Call → List Segment
  | .stage data offset => if returned then ⟨offset.toNat, data⟩ :: before else before
  | .commitAvailable => before
  | .commit => []

def Tracked.call (t : Tracked) (c : Call) : Option Tracked :=
  let (outcome, after, _) := c.run jsonValid [] t.appending
  some ⟨after, c.acknowledged outcome.returned t.acknowledged⟩

/-- If a strict `Commit` returns nil now, what was acknowledged is in the file. -/
def Tracked.Flushes (t : Tracked) : Prop :=
  ∀ a rest, commit jsonValid true [] t.appending = (.done (), a, rest) →
    ∀ p b, Staged t.acknowledged p b → a.file[p]? = some b

/-- Some byte is pending and the call drops it: a `Stage` that contradicts the file or
    what is pending or exceeds the limit, a `CommitAvailable` of a finished tail that is
    not valid JSONL. -/
def Drops (a : Appending) (c : Call) : Prop :=
  (∃ p b, Staged a.state.segments p b) ∧
    match c with
    | .stage data offset => Considered data offset ∧ ¬Fits a.state a.file data offset.toNat
    | .commitAvailable => ∃ tail, Pending a.state tail ∧ completeJSONL jsonValid tail = false
    | .commit => False

structure Kept (o : Nat) (t : Tracked) : Prop where
  usable : Usable t.appending o
  held : ∀ p b, Staged t.acknowledged p b → t.appending.file[p]? = some b ∨ Staged t.appending.state.segments p b
  owed : ∀ p b, Staged t.appending.state.segments p b → Staged t.acknowledged p b

theorem Usable.cleared (h : Usable a o) : Usable a.cleared o :=
  ⟨h.file, Ready.of_idle h.ready.size rfl rfl⟩

theorem Committed.holds {a' : Appending} {tail : Bytes} (h : Committed a a' o tail) (ha : Usable a o)
    (hp : Pending a.state tail) {p : Nat} {b : UInt8} (hb : a.file[p]? = some b ∨ Staged a.state.segments p b) :
    a'.file[p]? = some b := by
  rw [h.file]
  rcases hb with hb | hb
  · rw [getElem?_append_left (List.getElem?_eq_some_iff.mp hb).1]
    exact hb
  · rcases assembleLocked_spec ha.ready with ⟨hgap, -⟩ | ⟨tail', htail, hassembled⟩
    · rw [hp.2.1] at hgap
      cases hgap
    rw [hp.2.1] at htail
    cases htail
    obtain ⟨hle, hget⟩ := hassembled.staged p b hb
    rw [← ha.ready.size, ← ha.file_eq] at hle hget
    rw [getElem?_append_right hle]
    exact hget

section
variable {jsonValid : Bytes → Bool} {o : Nat} {t : Tracked}

section

variable (h : Kept o t)
include h

theorem Kept.flushes : t.Flushes jsonValid := by
  intro a rest hrun p b hb
  rcases (commit_concludes h.usable jsonValid true).returned hrun with ⟨hidle | hstrict, rfl, -⟩ | ⟨tail, hp, -, hc⟩
  · rcases h.held p b hb with hb | hb
    · exact hb
    · rw [hidle] at hb
      exact absurd hb not_staged_nil
  · cases hstrict
  · exact hc.holds h.usable hp (h.held p b hb)

theorem Kept.cleared (hnone : ∀ p b, ¬Staged t.appending.state.segments p b) :
    Kept o ⟨t.appending.cleared, t.acknowledged⟩ := by
  refine ⟨h.usable.cleared, fun p b hb => ?_, fun p b hb => absurd hb not_staged_nil⟩
  exact (h.held p b hb).elim .inl fun hb => absurd hb (hnone p b)

theorem Kept.staged {data : Bytes} {offset : Nat} {s : NativeAppendState}
    (hfits : Fits t.appending.state t.appending.file data offset)
    (hs : StagedOn t.appending.state s t.appending.file data offset) :
    Kept o ⟨{ t.appending with state := s }, ⟨offset, data⟩ :: t.acknowledged⟩ := by
  have husable : Usable { t.appending with state := s } o := by
    refine ⟨?_, h.usable.file_eq ▸ hs.ready⟩
    rw [hs.path]
    exact h.usable.file
  have hfile : Appending.file { t.appending with state := s } = t.appending.file :=
    husable.file_eq.trans h.usable.file_eq.symm
  refine ⟨husable, fun p b hb => ?_, fun p b hb => ?_⟩
  · rw [hfile]
    show _ ∨ Staged s.segments p b
    rw [hs.segments]
    rcases staged_cons.mp hb with hb | hb
    · by_cases hp : t.appending.state.baseSize ≤ p
      · exact .inr (.inr ⟨hp, hb⟩)
      · -- the file has a byte there, and the data agrees with it
        have hlt : p < t.appending.file.length := by
          rw [h.usable.file_eq, h.usable.ready.size]
          omega
        have hheld : (Extent.mk 0 t.appending.file).Holds p t.appending.file[p] :=
          ⟨Nat.zero_le p, getElem?_eq_getElem hlt⟩
        rw [← hfits.committed p _ b hheld hb]
        exact .inl (getElem?_eq_getElem hlt)
    · exact (h.held p b hb).imp id Or.inl
  · rcases (hs.segments p b).mp hb with hb | ⟨-, hb⟩
    · exact staged_cons.mpr (.inr (h.owed p b hb))
    · exact staged_cons.mpr (.inl hb)

theorem Kept.committed {a : Appending} {tail : Bytes} (hp : Pending t.appending.state tail)
    (hc : Committed t.appending a o tail) : Kept o ⟨a, t.acknowledged⟩ := by
  refine ⟨hc.usable, fun p b hb => .inl (hc.holds h.usable hp (h.held p b hb)), fun p b hb => ?_⟩
  rw [show (Tracked.mk a t.acknowledged).appending.state.segments = [] from hc.idle] at hb
  exact absurd hb not_staged_nil

variable {c : Call}

omit h in
theorem call_cases {t' : Tracked} {Q : Unit → Appending → Prop} {E : String → Appending → Prop}
    (hc : Concludes (c.run jsonValid) t.appending Q E) (hcall : t.call jsonValid c = some t') :
    (∃ a, t' = ⟨a, c.acknowledged true t.acknowledged⟩ ∧ Q () a) ∨
      ∃ e a, t' = ⟨a, c.acknowledged false t.acknowledged⟩ ∧ E e a := by
  unfold Tracked.call at hcall
  rcases hc with ⟨_, a, hrun, hq⟩ | ⟨e, a, hrun, he⟩
  · rw [hrun] at hcall
    exact .inl ⟨a, (Option.some.inj hcall).symm, hq⟩
  · rw [hrun] at hcall
    exact .inr ⟨e, a, (Option.some.inj hcall).symm, he⟩

omit h in
theorem stage_call_concludes (h : Usable t.appending o) (data : Bytes) (offset : Int) :
    Concludes ((Call.stage data offset).run jsonValid) t.appending
      (fun _ a' => (data = [] ∧ a' = t.appending) ∨
        (Considered data offset ∧ Fits t.appending.state t.appending.file data offset.toNat ∧
          ∃ s, a' = { t.appending with state := s } ∧ StagedOn t.appending.state s t.appending.file data offset.toNat))
      (fun _ a' => (¬Considered data offset ∧ a' = t.appending) ∨
        (Considered data offset ∧ ¬Fits t.appending.state t.appending.file data offset.toNat ∧
          a' = t.appending.cleared)) :=
  .bind' (stage_concludes h data offset) (fun _ _ hq => .pure' hq) fun _ _ he => he

/-- The step lemma. -/
theorem Kept.call {t' : Tracked} (hdrops : ¬Drops jsonValid t.appending c) (hcall : t.call jsonValid c = some t') :
    Kept o t' := by
  cases c with
  | stage data offset =>
    rcases call_cases (stage_call_concludes h.usable data offset) hcall with ⟨a, rfl, hq⟩ | ⟨e, a, rfl, he⟩
    · rcases hq with ⟨rfl, rfl⟩ | ⟨-, hfits, s, rfl, hs⟩
      · refine ⟨h.usable, fun p b hb => ?_, fun p b hb => staged_cons.mpr (.inr (h.owed p b hb))⟩
        exact h.held p b ((staged_cons.mp hb).resolve_left (Extent.not_holds_nil _ p b))
      · exact h.staged hfits hs
    · rcases he with ⟨-, rfl⟩ | ⟨hconsidered, hfits, rfl⟩
      · exact h
      · exact h.cleared fun p b hb => hdrops ⟨⟨p, b, hb⟩, hconsidered, hfits⟩
  | commitAvailable =>
    rcases call_cases (c := .commitAvailable) (commit_concludes h.usable jsonValid false) hcall with
      ⟨a, rfl, hq⟩ | ⟨e, a, rfl, he⟩
    · rcases hq with ⟨-, rfl, -⟩ | ⟨tail, hp, -, hc⟩
      · exact h
      · exact h.committed hp hc
    · obtain ⟨rfl, ⟨hstrict, -⟩ | ⟨tail, hp, hincomplete⟩⟩ := he
      · cases hstrict
      · exact h.cleared fun p b hb => hdrops ⟨⟨p, b, hb⟩, tail, hp, hincomplete⟩
  | commit =>
    -- nothing counts as acknowledged any more and nothing is pending
    have hdone : ∀ a : Appending, Usable a o → a.state.segments = [] → Kept o ⟨a, []⟩ := by
      intro a ha hidle
      refine ⟨ha, fun p b hb => absurd hb not_staged_nil, fun p b hb => ?_⟩
      rw [show (Tracked.mk a []).appending.state.segments = [] from hidle] at hb
      exact absurd hb not_staged_nil
    rcases call_cases (c := .commit) (commit_concludes h.usable jsonValid true) hcall with
      ⟨a, rfl, hq⟩ | ⟨e, a, rfl, he⟩
    · rcases hq with ⟨hidle | hstrict, rfl, -⟩ | ⟨tail, -, -, hc⟩
      · exact hdone _ h.usable hidle
      · cases hstrict
      · exact hdone a hc.usable hc.idle
    · obtain ⟨rfl, -⟩ := he
      exact hdone _ h.usable.cleared rfl

theorem Kept.not_flushes_of_cleared {p : Nat} {b : UInt8} (hb : Staged t.appending.state.segments p b) :
    ¬(Tracked.mk t.appending.cleared t.acknowledged).Flushes jsonValid := by
  intro hflushes
  have hrun := commit_runs_idle h.usable.cleared jsonValid true rfl
  have hget := hflushes _ _ hrun p b (h.owed p b hb)
  have hlt := (List.getElem?_eq_some_iff.mp hget).1
  rw [h.usable.cleared.file_eq, h.usable.cleared.ready.size] at hlt
  exact absurd hlt (Nat.not_lt.mpr (h.usable.ready.behind hb))

theorem Kept.drops (hdrops : Drops jsonValid t.appending c) :
    ∃ t', t.call jsonValid c = some t' ∧ ¬t'.Flushes jsonValid := by
  obtain ⟨⟨p, b, hb⟩, hcall⟩ := hdrops
  obtain ⟨t', ht'⟩ : ∃ t', t.call jsonValid c = some t' := ⟨_, rfl⟩
  refine ⟨t', ht', ?_⟩
  cases c with
  | stage data offset =>
    obtain ⟨hconsidered, hfits⟩ := hcall
    rcases call_cases (stage_call_concludes h.usable data offset) ht' with
      ⟨a, rfl, ⟨rfl, -⟩ | ⟨-, hfits', -⟩⟩ | ⟨e, a, rfl, ⟨hnot, -⟩ | ⟨-, -, rfl⟩⟩
    · exact absurd rfl hconsidered.2.1
    · exact absurd hfits' hfits
    · exact absurd hconsidered hnot
    · exact h.not_flushes_of_cleared hb
  | commitAvailable =>
    obtain ⟨tail, hp, hincomplete⟩ := hcall
    rcases call_cases (c := .commitAvailable) (commit_concludes h.usable jsonValid false) ht' with
      ⟨a, rfl, ⟨-, -, hnone⟩ | ⟨tail', hp', hcomplete, -⟩⟩ | ⟨e, a, rfl, rfl, -⟩
    · exact absurd hp (hnone tail)
    · have hsame : tail' = tail := Except.ok.inj (hp'.2.1.symm.trans hp.2.1)
      rw [hsame, hincomplete] at hcomplete
      cases hcomplete
    · exact h.not_flushes_of_cleared hb
  | commit => exact hcall.elim

end

end

/-- Whenever a strict `Commit` returns nil, what `Stage` acknowledged since the last one is
    in the file: this holds at every point of a run of calls if and only if no call of the
    run drops a pending byte. -/
theorem acknowledged_flushed_iff (jsonValid : Bytes → Bool) {a : Appending} {o : Nat} (h : Usable a o)
    (hidle : a.state.segments = []) (calls : List Call) :
    (∀ done t, done <+: calls → runFrom (Tracked.call jsonValid) ⟨a, []⟩ done = some t → t.Flushes jsonValid) ↔
      Along (Tracked.call jsonValid) (fun t c => ¬Drops jsonValid t.appending c) ⟨a, []⟩ calls := by
  refine Along.iff_throughout (I := Kept o) (fun t ht => ht.flushes) (fun t c t' ht hc hcall => ht.call hc hcall)
    (fun t c ht hc => ht.drops (not_not.mp hc)) calls ⟨h, fun p b hb => absurd hb not_staged_nil, fun p b hb => ?_⟩
  rw [show (Tracked.mk a []).appending.state.segments = [] from hidle] at hb
  exact absurd hb not_staged_nil

def digits (line : Bytes) : Bool := line.all fun b => 48 ≤ b && b ≤ 57

def Appending.sample : Appending := ⟨⟨NativeAppendState.sample.path, 1, 1, []⟩, Disk.sample⟩

theorem usable_sample : Usable Appending.sample 0 := ⟨rfl, Ready.of_idle rfl rfl rfl⟩

theorem acknowledged_flushed_iff_sample : (∀ done t, done <+: [.stage [50, 10] 1, .commitAvailable, .stage [51, 10] 3] →
        runFrom (Tracked.call digits) ⟨Appending.sample, []⟩ done = some t → t.Flushes digits) ↔
      Along (Tracked.call digits) (fun t c => ¬Drops digits t.appending c) ⟨Appending.sample, []⟩
        [.stage [50, 10] 1, .commitAvailable, .stage [51, 10] 3] :=
  acknowledged_flushed_iff digits usable_sample rfl _

/-- A second `Stage` that contradicts the first one fails and drops it. -/
def contradicted : Option Tracked :=
  runFrom (Tracked.call digits) ⟨Appending.sample, []⟩ [.stage [50, 10] 1, .stage [51] 1]

/-- The strict `Commit` after it returns nil and the acknowledged record is not there. -/
theorem commit_nil_without_acknowledged : ∃ t a rest, contradicted = some t ∧
    commit digits true [] t.appending = (.done (), a, rest) ∧ Staged t.acknowledged 1 50 ∧ a.file = [49] :=
  ⟨_, _, _, rfl, rfl, ⟨⟨1, [50, 10]⟩, .head _, by decide, rfl⟩, rfl⟩

end CodexFold.Mount
