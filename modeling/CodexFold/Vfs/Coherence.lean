import CodexFold.Vfs.Frames
import CodexFold.Vfs.Operations

/- The manifest of an opened session.

   `openSession` builds its view from the requested manifest, compares the
   persisted state with that manifest, and only then replays the journal. Replay
   keeps the manifest, with one exception: in a pinned directory it may adopt a
   checkpoint that an interrupted compaction wrote, and the state it adopts names
   the compacted manifest. The view is not built again.

   The condition is therefore about the checkpoints that descend from the
   catalog's, final or temporary: none of those whose files are all in place may
   name another manifest. -/
namespace CodexFold.Vfs
open Foundation List

variable {options : SessionOptions} {d₀ : Directory}
variable {leaseHeld : Bool}

def Directory.published (d : Directory) : Option SessionState :=
  match d.catalog with
  | some l => some l.checkpoint.state
  | none => d.primary

def SameManifest (s t : SessionState) : Prop :=
  s.manifestPath = t.manifestPath ∧ s.manifestSHA256 = t.manifestSHA256 ∧ s.baseBytes = t.baseBytes

instance (s t : SessionState) : Decidable (SameManifest s t) := inferInstanceAs (Decidable (_ ∧ _))

def Follows (start : Option Lineage) (l : Lineage) : Prop := ∀ h, start = some h → h.chain <:+ l.previous

/-- Without a pin, or while no descendant of the catalog's checkpoint whose files
    are in place names another manifest, replay cannot change the manifest. -/
def KeepsManifest (d : Directory) : Prop :=
  d.pin = none ∨ ∀ l, l ∈ d.checkpoints ∨ l ∈ d.checkpointTemporaries → Follows d.catalog l →
    Recorded d l.checkpoint → ∀ s, d.published = some s → SameManifest l.checkpoint.state s

/-- The manifest behind a session's view is the one its state names. -/
def Session.Coherent (session : Session) : Prop :=
  session.view.path = session.state.manifestPath ∧
    session.view.manifest = session.state.manifestSHA256 ∧ session.view.size = session.state.baseBytes

instance (session : Session) : Decidable session.Coherent := inferInstanceAs (Decidable (_ ∧ _))

/-! ## The invariant of a replay -/

structure Evidence (X : SessionState → Prop) (start : Option Lineage) (d : Directory) : Prop where
  present : d.catalog = none → start = none
  after : ∀ l, d.catalog = some l → ∀ h, start = some h → h.chain <:+ l.chain
  names : ∀ l, l ∈ d.checkpoints ∨ l ∈ d.checkpointTemporaries → Follows start l →
    Recorded d l.checkpoint → X l.checkpoint.state

/-- Every state that replay can end with satisfies `X`. -/
structure Bound (X : SessionState → Prop) (start : Option Lineage) (d : Directory) : Prop where
  primary : ∀ s, d.primary = some s → X s
  catalog : ∀ l, d.catalog = some l → X l.checkpoint.state
  evidence : d.pin.isSome = true → Evidence X start d

structure Shrinks (d d' : Directory) : Prop where
  primary : d'.primary = d.primary
  catalog : d'.catalog = d.catalog
  pin : d'.pin = d.pin
  manifests : d'.manifests = d.manifests
  checkpoints : ∀ l, l ∈ d'.checkpoints → l ∈ d.checkpoints
  temporaries : ∀ l, l ∈ d'.checkpointTemporaries → l ∈ d.checkpointTemporaries
  files : ∀ path contents, d'.files.get path = some contents → d.files.get path = some contents

variable {d : Directory}

theorem Recorded.of_shrinks {d' : Directory} {c : Checkpoint} (hs : Shrinks d d') (h : Recorded d' c) : Recorded d c :=
  ⟨by rw [← hs.manifests]; exact h.1, fun e he => hs.files _ _ (h.2 e he)⟩

section
variable {X : SessionState → Prop} {start : Option Lineage}
variable {d : Directory} {s : SessionState} {l : Lineage} {record : JournalRecord}
variable {candidate state : SessionState}

theorem Bound.shrink {d' : Directory} (h : Bound X start d) (hs : Shrinks d d') : Bound X start d' where
  primary s := by rw [hs.primary]; exact h.primary s
  catalog l := by rw [hs.catalog]; exact h.catalog l
  evidence hp := by
    have he := h.evidence (by rw [← hs.pin]; exact hp)
    refine ⟨by rw [hs.catalog]; exact he.present, by rw [hs.catalog]; exact he.after, ?_⟩
    intro l hl hf hr
    exact he.names l (hl.imp (hs.checkpoints l) (hs.temporaries l)) hf (hr.of_shrinks hs)

theorem shrinks_removeFile (d : Directory) (path : DataFile) : Shrinks d (d.removeFile path) :=
  ⟨rfl, rfl, rfl, rfl, fun _ h => h, fun _ h => h, fun _ _ h => get_of_erase h⟩

theorem shrinks_dropCheckpoint (d : Directory) (l : Lineage) : Shrinks d (d.dropCheckpoint l) :=
  ⟨rfl, rfl, rfl, rfl, fun _ h => (mem_filter.mp h).1, fun _ h => h, fun _ _ h => h⟩

theorem shrinks_quarantine (d : Directory) (l : Lineage) :
    Shrinks d { d.dropCheckpoint l with orphans := l :: d.orphans } :=
  { shrinks_dropCheckpoint d l with }

theorem shrinks_eraseTemporary (d : Directory) (l : Lineage) :
    Shrinks d { d with checkpointTemporaries := d.checkpointTemporaries.erase l } :=
  ⟨rfl, rfl, rfl, rfl, fun _ h => h, fun _ h => mem_of_mem_erase h, fun _ _ h => h⟩

theorem shrinks_journal (d : Directory) (records : List JournalRecord) :
    Shrinks d { d with journal := records } :=
  ⟨rfl, rfl, rfl, rfl, fun _ h => h, fun _ h => h, fun _ _ h => h⟩

section

variable (h : Bound X start d)
include h

theorem Bound.setPrimary (hs : X s) : Bound X start { d with primary := some s } where
  primary t ht := by cases ht; exact hs
  catalog := h.catalog
  evidence hp := ⟨(h.evidence hp).present, (h.evidence hp).after, (h.evidence hp).names⟩

section

variable (hl : X l.checkpoint.state)
include hl

theorem Bound.add {checkpoints temporaries : List Lineage}
    (hmem : ∀ k, k ∈ checkpoints ∨ k ∈ temporaries → k = l ∨ k ∈ d.checkpoints ∨ k ∈ d.checkpointTemporaries) :
    Bound X start { d with checkpoints, checkpointTemporaries := temporaries } where
  primary := h.primary
  catalog := h.catalog
  evidence hp := by
    refine ⟨(h.evidence hp).present, (h.evidence hp).after, fun k hk hf hr => ?_⟩
    rcases hmem k hk with rfl | hk
    · exact hl
    · exact (h.evidence hp).names k hk hf hr

theorem Bound.addCheckpoint : Bound X start { d with checkpoints := l :: d.checkpoints } :=
  h.add hl fun k hk => by simpa [or_assoc] using hk

theorem Bound.setCatalog (hafter : d.pin.isSome → ∀ k, start = some k → k.chain <:+ l.chain) :
    Bound X start { d with catalog := some l } where
  primary := h.primary
  catalog k hk := by cases hk; exact hl
  evidence hp := by
    refine ⟨nofun, ?_, (h.evidence hp).names⟩
    intro k hk
    cases hk
    exact hafter hp

end

end

/-! ## Programs that keep it -/

section

variable (hl : X l.checkpoint.state)
include hl

theorem writeImmutable_bound {J : Directory → Prop}
    (hJ : ∀ d ls ts, J d → J { d with checkpoints := ls, checkpointTemporaries := ts }) :
    Keeps (fun d => Bound X start d ∧ J d) (writeImmutableStateCheckpoint l) := by
  refine writeImmutableStateCheckpoint_keeps (fun d h => ⟨h.1.add hl fun k hk => ?_, hJ d _ _ h.2⟩)
    (fun d h => ⟨h.1.shrink (shrinks_eraseTemporary d l), hJ d _ _ h.2⟩)
    (fun d h => ⟨h.1.addCheckpoint hl, hJ d _ _ h.2⟩)
  rw [mem_cons, or_left_comm] at hk
  exact hk

theorem writeCatalog_unpinned : Keeps (fun d => Bound X start d ∧ d.pin = none) (writeStateCatalog l) := by
  refine writeStateCatalog_keeps fun d h => ⟨h.1.setCatalog hl (fun hp => ?_), h.2⟩
  rw [h.2] at hp
  cases hp

omit hl in
theorem reconcile_bound : Keeps (Bound X start) reconcileStateCheckpointHistory :=
  reconcileStateCheckpointHistory_keeps fun d l h => h.shrink (shrinks_quarantine d l)

theorem writeCatalog_bound {c : Option Lineage} (hc : ∀ head, c = some head → l.previous = head.chain) :
    LeadsTo (fun d => Bound X start d ∧ d.catalog = c) (writeStateCatalog l) (Bound X start) := by
  refine SpecOr.point' (fun _ h => h.1) (fun _ => ?_)
  refine Spec.bind' (SpecOr.effect' (fun _ h => h.1) (fun d h => ?_)) (fun _ => Keeps.point' _)
  refine h.1.setCatalog hl (fun hp k hk => ?_)
  cases c with
  | none =>
    rw [(h.1.evidence hp).present h.2] at hk
    cases hk
  | some head =>
    have hsuffix := (h.1.evidence hp).after head h.2 k hk
    rw [← hc head rfl] at hsuffix
    exact hsuffix.trans (suffix_cons _ _)

end

theorem commitState_bound (hs : X s) : Keeps (Bound X start) (commitPublishedSessionState none s) :=
  writeSessionState_keeps fun _ h => h.setPrimary hs

theorem publishCheckpoint_bound {previous : List Checkpoint} {n : Nat}
    {c : Option Lineage} (hs : X s) (hc : ∀ head, c = some head → previous = head.chain) :
    LeadsTo (fun d => Bound X start d ∧ d.catalog = c) (publishCheckpoint none s previous n) (Bound X start) := by
  refine .after (fun _ h => h.1) (.read' _) fun d => ?_
  refine Spec.checked (fun _ _ h => h.1) fun checkpoint hbuild => ?_
  have hx : X checkpoint.state := by
    rw [(buildStateCheckpoint_ok hbuild).1]
    exact hs
  refine SpecOr.after (fun _ h => h.1) (Keeps.ensure' _ _) fun _ => ?_
  refine .after (fun _ h => h.1) (writeImmutable_bound hx fun _ _ _ h => h) fun _ => ?_
  exact .bind' (writeCatalog_bound hx hc) fun _ => commitState_bound hs

theorem publishSessionState_bound (hs : X s) : Keeps (Bound X start) (publishSessionState none s) := by
  refine Keeps.bind' (Keeps.point' _) fun _ => Spec.bind' (currentCheckpoint_keeps reconcile_bound) fun current => ?_
  cases current with
  | none => exact publishCheckpoint_bound hs nofun
  | some head =>
    refine SpecOr.after (fun _ h => h.1) (Keeps.ensure' _ _) fun _ => ?_
    refine .after (fun _ h => h.1) (.ensure' _ _) fun _ => ?_
    refine .after (fun _ h => h.1) (.read' _) fun d => ?_
    refine .ite' (fun _ => (commitState_bound hs).pre (fun _ h => h.1)) fun _ => ?_
    exact publishCheckpoint_bound hs fun k hk => Option.some.inj hk ▸ rfl

theorem refreshSessionStateCheckpoint_bound : Keeps (Bound X start) (refreshSessionStateCheckpoint s) := by
  refine .bind' (.point' _) (fun _ => .at' fun d h => .readAt ?_)
  have he : ∀ t, t = d → Bound X start t := held h
  refine SpecOr.after he (Keeps.ensure' _ _) fun _ => SpecOr.checked he fun head hload => ?_
  refine .after he (.ensure' _ _) fun _ => .checked he fun _ _ => .checked he fun c hc => ?_
  have hcat : d.catalog = some head := (loadCatalogStateCheckpoint_ok.mp hload).1
  have hx : X c.state := by
    rw [(buildRefreshedStateCheckpoint_ok hc).1]
    exact h.catalog head hcat
  refine .ite' (fun _ => .pure' _ he) (fun _ => .ite' (fun _ => ?_) (fun hpin => ?_))
  · refine .pre (P := fun t => Bound X start t ∧ t.catalog = some head) ?_ fun t ht => ht ▸ ⟨h, hcat⟩
    refine SpecOr.after (fun _ h => h.1) (writeImmutable_bound hx fun _ _ _ h => h) fun _ => ?_
    exact .bind' (writeCatalog_bound hx fun k hk => Option.some.inj hk ▸ rfl) fun _ => reconcile_bound
  · refine .pre (P := fun t => Bound X start t ∧ t.pin = none) ?_ fun t ht => ht ▸ ⟨h, by simpa using hpin⟩
    refine SpecOr.after (fun _ h => h.1) (writeImmutable_bound hx fun _ _ _ h => h) fun _ => ?_
    refine .after (fun _ h => h.1) (writeCatalog_unpinned hx) fun _ => .pre ?_ fun _ h => h.1
    refine .bind' (removeSupersededCheckpoint_keeps ?_) fun _ => reconcile_bound
    exact fun d h => h.shrink (shrinks_dropCheckpoint d head)

/-! ## Adoption -/

theorem adopt_bound {head candidate : Lineage} (hx : X candidate.checkpoint.state)
    (hprev : candidate.previous = head.chain) :
    LeadsTo (fun d => Bound X start d ∧ d.catalog = some head) (adoptInterruptedStateCheckpoint head candidate) (Bound X start) := by
  refine Spec.after ?_ (fun _ _ h => h.1) (fun _ h => h.1) fun _ => ?_
  · refine Keeps.bind' (Keeps.point' _) fun _ => Keeps.bind' (Keeps.read' _) (fun _ => ?_)
    refine .ite' (.pure' _) (.bind' (.effect' _ _ ?_) (fun _ => .point' _))
    exact fun _ h => ⟨h.1.addCheckpoint hx, h.2⟩
  refine .bind' (writeCatalog_bound hx fun k hk => Option.some.inj hk ▸ hprev) fun _ => ?_
  refine Keeps.bind' (Keeps.ite' (Keeps.pure' _) (commitState_bound hx)) fun _ => ?_
  refine .bind' (.read' _) fun _ => .bind' (.ofExcept' _) (fun _ => ?_)
  refine .bind' (.ensure' _ _) fun _ => ?_
  exact cleanupStateCheckpointTemporaries_keeps fun d l h => h.shrink (shrinks_eraseTemporary d l)

theorem keepCurrent_bound {head : Lineage} : Keeps (Bound X start) (keepCurrentStateCheckpoint d head) :=
  .bind' (.ensure' _ _) (fun _ =>
    cleanupStateCheckpointTemporaries_keeps (fun d l h => h.shrink (shrinks_eraseTemporary d l)))

theorem Bound.interrupted {head candidate : Lineage} (h : Bound X start d)
    (hpin : d.pin.isSome) (hcat : d.catalog = some head) (hmem : candidate ∈ interruptedStateCheckpoints d head)
    (hstrays : (strays d head).all (isDirectStateCheckpointChild head)) (hrec : Recorded d candidate.checkpoint) :
    X candidate.checkpoint.state ∧ candidate.previous = head.chain := by
  have hin : candidate ∈ d.checkpoints ∨ candidate ∈ d.checkpointTemporaries := by
    rcases mem_append.mp (mem_eraseDups.mp hmem) with hm | hm
    · exact .inr (mem_filter.mp hm).1
    · exact .inl (mem_strays.mp hm).1
  have hchild : isDirectStateCheckpointChild head candidate := by
    rcases mem_append.mp (mem_eraseDups.mp hmem) with hm | hm
    · have := (mem_filter.mp hm).2
      simp only [Bool.and_eq_true] at this
      exact this.2
    · exact all_eq_true.mp hstrays candidate hm
  have hprev : candidate.previous = head.chain := by
    simp only [isDirectStateCheckpointChild, Bool.and_eq_true, decide_eq_true_eq] at hchild
    exact hchild.1.2
  refine ⟨(h.evidence hpin).names candidate hin (fun k hk => ?_) hrec, hprev⟩
  rw [hprev]
  exact (h.evidence hpin).after head hcat k hk

theorem recoverPinned_bound : Keeps (Bound X start) recoverPinnedStateCheckpointPublication := by
  refine .at' fun d h => .readAt ?_
  have he : ∀ t, t = d → Bound X start t := held h
  simp only [id]
  cases hpin : d.pin with
  | none => exact .pure' _ he
  | some pinned =>
    refine SpecOr.checked he fun head hload => SpecOr.after he (Keeps.ensure' _ _) fun _ => ?_
    have hcat : d.catalog = some head := (loadStateCheckpointChain_ok.mp hload).1.1
    refine .after he (.ensure' _ _) fun _ => ?_
    refine .bind' (M := fun _ t => t = d ∧ (strays d head).all (isDirectStateCheckpointChild head) = true)
      (.ensure' _ _ (fun hall t ht => ⟨ht, hall⟩) he) (fun _ => .given fun hall => ?_)
    split
    · exact keepCurrent_bound.pre he
    · rename_i candidate hone
      refine SpecOr.checked he fun allowed _ => ?_
      refine .ite' (fun hverified => ?_) (fun _ => .ite' (fun _ => ?_) (fun _ => ?_))
      · -- only here does the catalog leave its own line of states
        have hmem : candidate ∈ interruptedStateCheckpoints d head := by
          rw [hone]
          exact mem_singleton_self _
        obtain ⟨hx, hprev⟩ := h.interrupted (by rw [hpin]; rfl) hcat hmem hall
          (verifyStateCheckpointArtifactsAllowed_recorded hverified)
        exact (adopt_bound hx hprev).pre fun t ht => ht ▸ ⟨h, hcat⟩
      · exact .throw' _ he
      · exact keepCurrent_bound.pre he
    · exact .throw' _ he

theorem restoreState_bound (h : Bound X start d) :
    SpecOr (· = d) (do
        let head ← ofExcept (loadStateCheckpointChain d true)
        ofExcept (verifyStateCheckpointArtifactsForChain d head)
        writeSessionState head.checkpoint.state
        pure head.checkpoint.state)
      (fun s t => Bound X start t ∧ X s) (Bound X start) := by
  have he : ∀ t, t = d → Bound X start t := held h
  refine .checked he fun head hload => .checked he fun _ _ => .pre ?_ he
  have hx := h.catalog head (loadStateCheckpointChain_ok.mp hload).1.1
  exact .bind' (writeSessionState_keeps (fun _ h => h.setPrimary hx)) (fun _ => .pure' _ (fun _ h => ⟨h, hx⟩))

theorem loadSessionStateWithWriterLease_bound :
    SpecOr (Bound X start) loadSessionStateWithWriterLease (fun s d => Bound X start d ∧ X s) (Bound X start) := by
  refine .at' fun d h => .readAt ?_
  have he : ∀ t, t = d → Bound X start t := held h
  simp only [id]
  split
  · exact .throw' _ he
  · rename_i state _ hp
    exact .pure' _ (fun t ht => ⟨he t ht, h.primary state hp⟩)
  · refine SpecOr.checked he fun current _ => Spec.ite' (fun _ => ?_) (fun _ => restoreState_bound h)
    refine .bind' (recoverPinned_bound.pre he) (fun _ => .at' fun d' hrecovered => .readAt ?_)
    have hr : ∀ t, t = d' → Bound X start t := held hrecovered
    refine SpecOr.checked hr fun head hload => SpecOr.after hr (Keeps.ensure' _ _) fun _ => ?_
    refine SpecOr.checked hr fun _ _ => Spec.pure' _ fun t ht => ⟨hr t ht, hrecovered.catalog head ?_⟩
    exact (loadStateCheckpointChain_ok.mp hload).1.1

/-! ## Replay -/

theorem bound_removeFile (d : Directory) (path : DataFile) (h : Bound X start d) : Bound X start (d.removeFile path) :=
  h.shrink (shrinks_removeFile d path)

theorem resolveRecord_bound {phase : Phase} : Keeps (Bound X start) (resolveRecord record phase) :=
  appendJournal_keeps fun d h => h.shrink (shrinks_journal d _)

theorem recoverCompactPublication_bound : Keeps (Bound X start) (recoverCompactPublication record candidate state) := by
  refine .bind' (.ite' ?_ ?_) fun published => .ite' ?_ ?_
  · refine .bind' (.ofExcept' _) fun _ => .bind' (.read' _) (fun pin => ?_)
    cases pin with
    | none => exact .pure' _
    | some _ =>
      refine .bind' (cleanupCompactArtifacts_keeps bound_removeFile) fun _ => ?_
      exact .bind' (loadSessionStateWithWriterLease_bound.weaken (fun _ _ h => h.1)) fun _ => .ofExcept' _
  · exact .bind' (.ensure' _ _) fun _ => .pure' _
  · exact .bind' resolveRecord_bound fun _ => cleanupCompactArtifacts_keeps bound_removeFile
  · exact .bind' (cleanupCompactArtifacts_keeps bound_removeFile) fun _ => resolveRecord_bound

theorem validateCOWPublishedRecord_candidate
    {current : SessionState} (h : validateCOWPublishedRecord d record candidate current = .ok ()) :
    candidate = current ∨ candidate = current.withBacking (.backing candidate.generation) := by
  obtain ⟨_, -, h⟩ := of_bind h
  obtain ⟨_, -, h⟩ := of_bind h
  obtain ⟨_, -, h⟩ := of_bind h
  obtain ⟨_, -, h⟩ := of_bind h
  obtain ⟨_, hsame, h⟩ := of_bind h
  obtain ⟨_, hnext, -⟩ := of_bind h
  simp only [require_eq_ok, Bool.or_eq_true, decide_eq_true_eq] at hsame hnext
  rcases hnext with hg | hn
  · rcases hsame with hne | he
    · exact absurd hg hne
    · exact .inl he.symm
  · exact .inr hn.symm

theorem publishCOWCandidate_bound (hc : X candidate) : Keeps (Bound X start) (publishCOWCandidate candidate state) := by
  refine .ite' (.bind' ?_ (fun _ => .ite' (.pure' _) (publishSessionState_bound hc))) (.pure' _)
  refine .bind' (.read' _) fun d => ?_
  cases d.pin with
  | none => exact .pure' _
  | some _ =>
    refine .bind' (.ofExcept' _) fun evidence => .ite' ?_ (.pure' _)
    exact .bind' (loadSessionStateWithWriterLease_bound.weaken (fun _ _ h => h.1)) fun _ => .ofExcept' _

theorem loadJournalReplayState_bound (h : Bound X start d) (hs : loadJournalReplayState d = .ok state) : X state := by
  rcases loadJournalReplayState_ok hs with ⟨l, hl, -, rfl⟩ | ⟨-, hp⟩
  · exact h.catalog l hl
  · exact h.primary state hp

theorem refreshRecovered_bound {persisted : SessionState} (hx : X persisted) :
    SpecOr (Bound X start) (refreshRecovered persisted) (fun s d => Bound X start d ∧ X s) (Bound X start) := by
  refine .after (fun _ h => h) (.attempt' refreshSessionStateCheckpoint_bound) (fun refreshed => ?_)
  cases refreshed with
  | ok _ => exact .pure' _ fun _ h => ⟨h, hx⟩
  | error _ =>
    refine .bind' loadSessionStateWithWriterLease_bound fun recovered => .given (fun hr => ?_)
    refine SpecOr.after (fun _ h => h) refreshSessionStateCheckpoint_bound fun _ => ?_
    exact .pure' _ fun _ h => ⟨h, hr⟩

variable (hback : ∀ (s : SessionState) (path : DataFile), X s → X (s.withBacking path))
include hback

theorem recoverRecord_bound : Keeps (Bound X start) (recoverRecord record) := by
  have hpublished : Keeps (Bound X start) (recoverPublished record) := by
    refine .bind' (.ofExcept' _) (fun candidate => .at' fun d h => .readAt ?_)
    have he : ∀ t, t = d → Bound X start t := held h
    refine SpecOr.checked he fun state hload => Spec.pre ?_ he
    have hx := loadJournalReplayState_bound h hload
    cases record.kind with
    | compact => exact recoverCompactPublication_bound
    | copyOnWrite =>
      refine Keeps.bind' (Keeps.read' _) (fun d => Spec.checked (fun _ _ h => h) fun _ hok => ?_)
      have hc : X candidate := by
        rcases validateCOWPublishedRecord_candidate hok with rfl | he
        · exact hx
        · rw [he]
          exact hback _ _ hx
      exact .bind' (publishCOWCandidate_bound hc) (fun _ => resolveRecord_bound)
  have hterminal : Keeps (Bound X start) (recoverTerminal record) := recoverTerminal_keeps bound_removeFile
  have hprepared : Keeps (Bound X start) (recoverPrepared record) :=
    recoverPrepared_keeps bound_removeFile fun d _ h => h.shrink (shrinks_journal d _)
  unfold recoverRecord
  cases record.phase with
  | complete | rolledBack => exact hterminal
  | afterFilePublish | statePublishing | statePublished => exact hpublished
  | prepared | dataSynced => exact hprepared

theorem recover_bound : SpecOr (Bound X start) recover (fun s d => Bound X start d ∧ X s) (Bound X start) := by
  refine .point' (fun _ h => h) fun _ => ?_
  refine .after (fun _ h => h) (.read' _) fun journal => ?_
  refine .after (fun _ h => h) (.forEach' (fun _ => recoverRecord_bound hback))
    (fun _ => .at' fun d h => .readAt (.checked (fun _ => held h) fun persisted hload => ?_))
  exact (refreshRecovered_bound (loadJournalReplayState_bound h hload)).pre (held h)

end

/-! ## Opening -/

def SessionOptions.Names (options : SessionOptions) (s : SessionState) : Prop :=
  s.manifestPath = options.manifestPath ∧ s.manifestSHA256 = options.manifest ∧
    s.baseBytes = options.manifest.source.length

variable {s : SessionState}

theorem SessionOptions.names_of_matches (h : options.matches s) : options.Names s := by
  simp only [SessionOptions.matches, Bool.and_eq_true, decide_eq_true_eq] at h
  exact ⟨h.1.1.1.1, h.1.1.1.2, h.1.1.2⟩

theorem SessionOptions.Names.of_same {t : SessionState} (h : options.Names t) (he : SameManifest s t) :
    options.Names s :=
  ⟨he.1.trans h.1, he.2.1.trans h.2.1, he.2.2.trans h.2.2⟩

theorem bound_of_published (hk : KeepsManifest d) (hp : d.published = some s) (hs : options.Names s) :
    Bound options.Names d.catalog { d with primary := some s } where
  primary t ht := by cases ht; exact hs
  catalog l hl := by
    have : d.published = some l.checkpoint.state := by
      simp only at hl
      simp only [Directory.published, hl]
    rw [hp] at this
    cases this
    exact hs
  evidence hpin := by
    refine ⟨fun hn => hn, fun l hl h hh => ?_, fun l hl hf hr => ?_⟩
    · simp only at hl
      rw [hl] at hh
      cases hh
      exact suffix_rfl
    · rcases hk with hnone | hall
      · simp only [hnone] at hpin
        cases hpin
      · exact hs.of_same (hall l hl hf hr s hp)

theorem eq_setPrimary (h : d.primary = some s) : d = { d with primary := some s } := by
  cases d
  simp only at h
  rw [h]

theorem loadSessionState_bound (hk : KeepsManifest d₀) : Ensures (· = d₀) (loadSessionState leaseHeld)
      (fun s d => options.Names s → Bound options.Names d₀.catalog d) := by
  have hbound : ∀ {s d}, d₀.published = some s → d₀.primary = some s → d = d₀ → options.Names s →
      Bound options.Names d₀.catalog d := by
    rintro s _ hpub hp rfl hs
    have hb := bound_of_published hk hpub hs
    rwa [← eq_setPrimary hp] at hb
  refine .readAt ?_
  simp only [id]
  split
  · exact Ensures.throw'
  · rename_i state hc hp
    exact .pure' _ fun d h => hbound (by simp only [Directory.published, hc, hp]) hp h
  · refine Ensures.checked fun current hload => ?_
    have hcat : d₀.catalog = some current := (loadCatalogStateCheckpoint_ok.mp hload).1
    have hpub : d₀.published = some current.checkpoint.state := by simp only [Directory.published, hcat]
    refine .ite' (fun hp => .pure' _ fun d h => hbound hpub hp h) fun _ => ?_
    refine Ensures.ensure' fun _ => Ensures.point' (Spec.readAt ?_)
    refine Ensures.checked fun head hload' => Ensures.checked fun _ _ => ?_
    obtain rfl : head = current := Option.some.inj ((loadStateCheckpointChain_ok.mp hload').1.1.symm.trans hcat)
    refine .bind' (M := fun _ d => d = { d₀ with primary := some head.checkpoint.state })
      (Ensures.replace fun d h => by rw [h]) fun _ => Spec.pure' _ fun d h hs => ?_
    rw [h]
    exact bound_of_published hk hpub hs

theorem publishInitialSession_bound (hc : d₀.catalog = none) :
    Ensures (· = d₀) (publishInitialSession options) (fun _ d => Bound options.Names d₀.catalog d) := by
  have hnames : options.Names options.initialState := ⟨rfl, rfl, rfl⟩
  refine Spec.readAt (Ensures.ensure' fun _ => Ensures.ensure' fun ha => ?_)
  have htemps : d₀.checkpointTemporaries = [] := by
    simp only [Directory.absent, Bool.and_eq_true, List.isEmpty_iff, id] at ha
    exact ha.1.1.1.2
  refine Spec.bind' (Spec.effect' _ _ (fun d h => ?_) (fun _ _ => trivial) (fun _ _ => trivial))
    (fun _ => Ensures.point' (Spec.pure' _ (fun _ h => h)))
  refine ⟨fun s hs => ?_, fun l hl => ?_, fun _ => ⟨nofun, fun l _ k hk => ?_, fun l hl _ _ => ?_⟩⟩
  · cases hs
    exact hnames
  · cases hl
    exact hnames
  · rw [hc] at hk
    cases hk
  · rcases hl with hl | hl
    · rw [mem_singleton.mp hl]
      exact hnames
    · rw [h] at hl
      simp only [Directory.setFile, htemps] at hl
      cases hl

theorem admitState_ensures {I : Directory → Prop}
    {M : SessionState → Directory → Prop} (hload : Ensures (· = d₀) (loadOrPublishInitial options) M)
    (hmatch : ∀ state d, M state d → options.Names state → I d) (hnow : options.deferRecovery = false) :
    Ensures (· = d₀) (admitState options) (fun _ => I) := by
  have hpublished : Ensures (· = d₀) (publishedState options) M := by
    unfold publishedState
    rw [hnow]
    exact .bind' hload fun _ => Ensures.point' (.pure' _ fun _ h => h)
  refine Spec.readAt (Ensures.checked fun _ _ => Ensures.ensure' fun _ => Spec.bind' hpublished fun state => ?_)
  refine Ensures.ensure' fun hm => Spec.pre (P := I) ?_ fun d h => ?_
  · refine Ensures.after (Keeps.read' _) fun _ => Ensures.ensure' fun _ => ?_
    exact Ensures.ensure' fun _ => .pure' _ fun _ h => h
  · exact hmatch state d h (SessionOptions.names_of_matches hm)

theorem admitState_names : Ensures (fun _ => True) (admitState options) (fun s _ => options.Names s) := by
  have hany : ∀ {α : Type} (x : Prog Directory String α), Keeps (fun _ => True) x := fun _ => .of_forall fun _ => trivial
  refine .after (hany _) fun _ => .after (hany _) fun _ => .after (hany _) fun _ => .after (hany _) fun state => ?_
  refine Ensures.ensure' fun hm => .after (hany _) fun _ => .after (hany _) fun _ => .after (hany _) fun _ => ?_
  exact .pure' _ fun _ _ => SessionOptions.names_of_matches hm

theorem admitState_bound (hnow : options.deferRecovery = false) (hk : KeepsManifest d₀) :
    Ensures (· = d₀) (admitState options) (fun _ d => Bound options.Names d₀.catalog d) := by
  refine admitState_ensures (.readAt (.ite' (fun hnone => ?_) (fun _ => loadSessionState_bound hk))) (fun _ _ h => h) hnow
  simp only [Bool.and_eq_true, Option.isNone_iff_eq_none, id] at hnone
  exact (publishInitialSession_bound hnone.2).weaken (fun _ _ h _ => h)

variable {X : SessionState → Prop}

theorem loadSessionState_state {start : Option Lineage} :
    Ensures (Bound X start) (loadSessionState leaseHeld) (fun s _ => X s) := by
  refine .at' fun d h => .readAt ?_
  split
  · exact Ensures.throw'
  · rename_i state _ hp
    exact .pure' _ fun _ _ => h.primary state hp
  · refine Ensures.checked fun head hload => Spec.ite' (fun _ => Spec.pure' _ fun _ _ => ?_) fun _ => ?_
    · exact h.catalog head (loadCatalogStateCheckpoint_ok.mp hload).1
    · refine Ensures.ensure' fun _ => Ensures.point' (Spec.readAt ?_)
      exact (restoreState_bound h).mono (fun _ _ h => h.2) fun _ _ => trivial

theorem reloadState_bound {start : Option Lineage} {recovered : SessionState} (hr : X recovered) :
    Ensures (Bound X start) (reloadState leaseHeld recovered) (fun s _ => X s) := by
  refine .bind' (M := fun r _ => ∀ s, r = .ok s → X s) (.attempt' ?_) (fun reloaded => ?_)
  · exact loadSessionState_state.post (fun _ _ h s hs => by cases hs; exact h) (fun _ _ _ s hs => by cases hs)
      (fun _ h => h)
  · cases reloaded with
    | ok s => exact .pure' _ fun _ h => h s rfl
    | error _ => exact .pure' _ fun _ _ => hr

theorem openSession_ensures {reserveWriter : Bool} {w₀ : World} {I J : Directory → Prop} {Y : Session → Prop}
    (hnow : options.deferRecovery = false)
    (hstate : Ensures (· = w₀.dir) (admitState options) fun _ => I)
    (hrecover : Ensures I recover fun s d => J d ∧ X s)
    (hreload : ∀ s, X s → Ensures J (reloadState reserveWriter s) fun s _ => X s)
    (hopen : ∀ session : Session, session.view = ⟨options.manifestPath, options.manifest⟩ → X session.state → Y session) :
    Ensures (· = w₀) (openSession options reserveWriter) fun _ w => ∃ session, w.session = some session ∧ Y session := by
  have hopened : ∀ admitted, Ensures I (openedState options reserveWriter admitted) fun s _ => X s := by
    intro admitted
    unfold openedState
    rw [hnow]
    exact .bind' hrecover fun recovered => .given fun hr => hreload recovered hr
  refine Ensures.ensure' fun _ => .bind' (M := fun _ w => I w.dir) (.onPart' (held hstate)) fun admitted => ?_
  refine .bind' (M := fun s _ => X s) (.onPart' fun w hw => (hopened admitted).pre fun d hd => by rw [hd]; exact hw)
    fun state => ?_
  exact .modify' _ fun w hs => ⟨_, rfl, hopen _ rfl hs⟩

theorem coherent_of_names {session : Session} (hview : session.view = ⟨options.manifestPath, options.manifest⟩)
    (h : options.Names session.state) : session.Coherent := by
  unfold Session.Coherent
  rw [hview]
  exact ⟨h.1.symm, h.2.1.symm, h.2.2.symm⟩

theorem openSession_deferred {reserveWriter : Bool} (hdefer : options.deferRecovery) :
    Ensures (fun _ => True) (openSession options reserveWriter)
      (fun _ w => ∃ session, w.session = some session ∧ session.Coherent) := by
  refine Ensures.ensure' fun _ => .bind' (M := fun s _ => options.Names s) (.onPart' fun _ _ => ?_) fun admitted => ?_
  · exact admitState_names.pre fun _ _ => trivial
  · unfold openedState
    rw [if_pos hdefer]
    refine .bind' (M := fun s _ => options.Names s) (.onPart' fun _ hs => .pure' _ fun _ _ => hs) fun state => ?_
    exact .modify' _ fun w hs => ⟨_, rfl, coherent_of_names rfl hs⟩

theorem openSession_bound {reserveWriter : Bool} {w₀ : World} (hnow : options.deferRecovery = false)
    (hk : KeepsManifest w₀.dir) :
    Ensures (· = w₀) (openSession options reserveWriter)
      (fun _ w => ∃ session, w.session = some session ∧ session.Coherent) := by
  have hback : ∀ (s : SessionState) (path : DataFile), options.Names s → options.Names (s.withBacking path) :=
    fun _ _ h => h
  exact openSession_ensures hnow (admitState_bound hnow hk) (.of_spec (recover_bound hback))
    (fun s hs => reloadState_bound hs) fun session => coherent_of_names

end CodexFold.Vfs
