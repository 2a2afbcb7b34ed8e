import CodexFold.Vfs.Coherence

/- A linked checkpoint of another manifest.

   In a pinned directory a linked checkpoint outside the catalog's lineage blocks
   every strict load, and nothing may quarantine it before it was decided on. So a
   session that opens at all has adopted it, and then serves a view of one manifest
   under a state that names another: the condition of the previous module cannot be
   dropped. -/
namespace CodexFold.Vfs
open Foundation List Option

variable {options : SessionOptions}

structure Waiting (X : SessionState → Prop) (l : Lineage) (d : Directory) : Prop where
  pinned : d.pin.isSome = true
  current : ∃ head, d.catalog = some head ∧ d.primary = some head.checkpoint.state ∧
    X head.checkpoint.state ∧ l ∉ head.ancestry
  linked : l ∈ d.checkpoints
  other : ¬X l.checkpoint.state

def Adopted (X : SessionState → Prop) (l : Lineage) (d : Directory) : Prop :=
  Bound (fun s => ¬X s) (some l) d

section
variable {X : SessionState → Prop} {l : Lineage}
variable {record : JournalRecord}

theorem waiting_removeFile (d : Directory) (path : DataFile) (h : Waiting X l d) : Waiting X l (d.removeFile path) :=
  { h with }

theorem resolveRecord_waiting {phase : Phase} : Keeps (Waiting X l) (resolveRecord record phase) :=
  appendJournal_keeps fun _ h => { h with }

variable {d : Directory}

theorem Waiting.not_strict (h : Waiting X l d) (k : Lineage) : loadStateCheckpointChain d true ≠ .ok k := by
  intro hok
  obtain ⟨⟨hcat, -⟩, -, hstrays⟩ := loadStateCheckpointChain_ok.mp hok
  obtain ⟨head, hhead, -, -, hout⟩ := h.current
  rw [hcat] at hhead
  cases hhead
  have hmem : l ∈ strays d k := mem_strays.mpr ⟨h.linked, hout⟩
  rw [hstrays rfl] at hmem
  cases hmem

theorem eraseTemporaries_spec {J : Directory → Prop} {message : String}
    (hJ : ∀ d ts, J d → J { d with checkpointTemporaries := ts }) : ∀ ts : List Lineage,
    Ensures (fun d => J d ∧ d.checkpointTemporaries = ts)
      (forEach (fun k => effect message (fun d : Directory =>
        { d with checkpointTemporaries := d.checkpointTemporaries.erase k })) ts)
      (fun _ d => J d ∧ d.checkpointTemporaries = [])
  | [] => .pure' _ fun _ h => h
  | k :: rest => by
    refine .bind' (.effect' _ _ (fun d h => ⟨hJ d _ h.1, ?_⟩) (fun _ _ => trivial) (fun _ _ => trivial))
      (fun _ => eraseTemporaries_spec hJ rest)
    simp [h.2]

theorem cleanupTemporaries_spec {J : Directory → Prop}
    (hJ : ∀ d ts, J d → J { d with checkpointTemporaries := ts }) :
    Ensures J cleanupStateCheckpointTemporaries (fun _ d => J d ∧ d.checkpointTemporaries = []) := by
  refine .at' fun d h => .readAt (.ite' (fun he => .pure' _ fun t ht => ht ▸ ⟨h, List.isEmpty_iff.mp he⟩) fun _ => ?_)
  exact .bind' ((eraseTemporaries_spec hJ d.checkpointTemporaries).pre fun t ht => by rw [ht]; exact ⟨h, rfl⟩)
    fun _ => .point' _ (fun _ h => h) (fun _ _ => trivial) (fun _ _ => trivial)

theorem adopt_waiting {head : Lineage} (hne : l.checkpoint.state ≠ head.checkpoint.state)
    (hother : ¬X l.checkpoint.state) :
    Ensures (fun d : Directory => l ∈ d.checkpoints) (adoptInterruptedStateCheckpoint head l) (fun _ => Adopted X l) := by
  refine .after ?_ (fun _ => ?_)
  · refine .bind' (.point' _) (fun _ => .bind' (.read' _) (fun _ => ?_))
    refine .ite' (.pure' _) (.bind' (.effect' _ _ ?_) (fun _ => .point' _))
    exact fun _ _ => (.head _)
  refine .bind' (M := fun _ d => d.catalog = some l) ?_ (fun _ => ?_)
  · exact Ensures.replace fun _ _ => rfl
  refine .bind' (M := fun _ d => d.catalog = some l ∧ d.primary = some l.checkpoint.state) ?_ (fun _ => ?_)
  · unfold publishAdoptedState
    rw [if_neg hne]
    exact Ensures.replace fun _ h => ⟨h, rfl⟩
  refine Spec.at' fun d h => Spec.readAt (Ensures.checked fun k hload => Ensures.after (Keeps.ensure' _ _) fun _ => ?_)
  obtain ⟨⟨hk, -⟩, -, hstrict⟩ := loadStateCheckpointChain_ok.mp hload
  obtain rfl : l = k := some.inj (h.1.symm.trans hk)
  refine .pre (P := fun t => (t.catalog = some l ∧ t.primary = some l.checkpoint.state) ∧ strays t l = []) ?_
    fun t ht => ht ▸ ⟨h, hstrict rfl⟩
  refine (cleanupTemporaries_spec (fun _ _ h => h)).weaken fun _ d h => ?_
  obtain ⟨⟨⟨hcat, hprimary⟩, hstrays⟩, htemps⟩ := h
  refine ⟨fun s hs => ?_, fun k hk => ?_, fun _ => ⟨fun hn => ?_, fun k hk j hj => ?_, fun k hk hf _ => ?_⟩⟩
  · rw [hprimary] at hs
    cases hs
    exact hother
  · rw [hcat] at hk
    cases hk
    exact hother
  · rw [hcat] at hn
    cases hn
  · rw [hcat] at hk
    cases hk
    cases hj
    exact suffix_rfl
  · rcases hk with hk | hk
    · -- a strict chain has no file beyond its head
      have hin : k ∈ l.ancestry := by
        by_contra hout
        have : k ∈ strays d l := mem_strays.mpr ⟨hk, hout⟩
        rw [hstrays] at this
        cases this
      have h1 := (Lineage.mem_ancestry.mp hin).length_le
      have h2 := (hf l rfl).length_le
      simp only [Lineage.chain, length_cons] at h1 h2
      omega
    · rw [htemps] at hk
      cases hk

theorem Waiting.stray {head : Lineage} (h : Waiting X l d) (hcat : d.catalog = some head) :
    l ∈ strays d head ∧ X head.checkpoint.state := by
  obtain ⟨k, hk, -, hx, hout⟩ := h.current
  obtain rfl : k = head := some.inj (hk.symm.trans hcat)
  exact ⟨mem_strays.mpr ⟨h.linked, hout⟩, hx⟩

theorem Waiting.pin_ne_none (h : Waiting X l d) : d.pin ≠ none :=
  isSome_iff_ne_none.mp h.pinned

theorem recoverPinned_waiting : Ensures (Waiting X l) recoverPinnedStateCheckpointPublication (fun _ => Adopted X l) := by
  refine .at' fun d h => .readAt ?_
  simp only [id]
  cases hpin : d.pin with
  | none => exact absurd hpin h.pin_ne_none
  | some pinned =>
    refine Ensures.checked fun head hload => Ensures.ensure' fun _ => Ensures.ensure' fun _ => Ensures.ensure' fun _ => ?_
    obtain ⟨hstray, hx⟩ := h.stray (loadStateCheckpointChain_ok.mp hload).1.1
    have hmem : l ∈ interruptedStateCheckpoints d head :=
      mem_eraseDups.mpr (mem_append_right _ hstray)
    split
    · rename_i hnil
      rw [hnil] at hmem
      cases hmem
    · rename_i candidate hone
      rw [hone] at hmem
      cases mem_singleton.mp hmem
      refine Ensures.checked fun allowed _ => Spec.ite' (fun _ => ?_) (fun _ => Spec.ite' (fun _ => Ensures.throw')
        (absurd hstray))
      have hadopt := adopt_waiting (fun he => h.other (he.symm ▸ hx)) h.other
      exact hadopt.pre (held h.linked)
    · exact .throw'

theorem loadWithLease_waiting :
    Ensures (Waiting X l) loadSessionStateWithWriterLease (fun s d => Adopted X l d ∧ ¬X s) := by
  refine .at' fun d h => .readAt ?_
  simp only [id]
  split
  · exact Ensures.throw'
  · rename_i state hcat _
    obtain ⟨head, hhead, -⟩ := h.current
    rw [hcat] at hhead
    cases hhead
  · refine Ensures.checked fun current _ => Spec.ite' (fun _ => ?_) fun _ => ?_
    · refine .bind' (recoverPinned_waiting.pre (held h)) fun _ => .at' fun d' h' => .readAt ?_
      refine Ensures.checked fun head hload => Ensures.ensure' fun _ => Ensures.checked fun _ _ => ?_
      exact .pure' _ fun t ht => ⟨ht ▸ h', h'.catalog head (loadStateCheckpointChain_ok.mp hload).1.1⟩
    · exact Ensures.checked fun head hload => absurd hload (h.not_strict head)

theorem recoverPinnedCompact_waiting {candidate state : SessionState} :
    Ensures (Waiting X l) (recoverPinnedCompactPublication record candidate state) (fun _ => Adopted X l) := by
  refine .checked fun _ _ => .at' fun d h => .readAt ?_
  cases hpin : d.pin with
  | none => exact absurd hpin h.pin_ne_none
  | some _ =>
    refine .pre ?_ (held h)
    refine Ensures.after (cleanupCompactArtifacts_keeps waiting_removeFile) fun _ => ?_
    refine .bind' loadWithLease_waiting fun _ => ?_
    exact .ofExcept' _ (fun _ _ _ h => h.1) fun _ _ _ _ => trivial

theorem recoverPinnedCOW_waiting {candidate state : SessionState} (hc : X candidate) (hs : X state) :
    Ensures (Waiting X l) (recoverPinnedCOWPublication candidate state) (fun _ _ => False) := by
  refine .at' fun d h => .readAt ?_
  simp only [id]
  cases hpin : d.pin with
  | none => exact absurd hpin h.pin_ne_none
  | some _ =>
    refine Ensures.checked fun evidence hok => ?_
    obtain ⟨head, hload, hev⟩ := of_bind hok
    have hstray := (h.stray (loadStateCheckpointChain_ok.mp hload).1.1).1
    obtain rfl : evidence = true := by
      rw [← Except.ok.inj hev, isEmpty_eq_false_iff.mpr (ne_nil_of_mem hstray)]
      simp
    refine .bind' (loadWithLease_waiting.pre (held h)) fun recovered => .given (fun hr => ?_)
    refine .ofExcept' _ (fun b hok _ _ => ?_) fun _ _ _ _ => trivial
    unfold adoptionOutcome at hok
    split at hok
    · rename_i heq
      exact hr (heq ▸ hc)
    · split at hok
      · rename_i heq
        exact hr (heq ▸ hs)
      · cases hok

theorem refreshRecovered_waiting {persisted : SessionState} :
    Ensures (Waiting X l) (refreshRecovered persisted) (fun s d => Adopted X l d ∧ ¬X s) := by
  have hrefresh : Spec (Waiting X l) (refreshSessionStateCheckpoint persisted) (fun _ _ => False)
      (fun _ => Waiting X l) (fun _ => True) := by
    refine .after (.point' _) (fun _ _ h => h) (fun _ _ => trivial) (fun _ => .at' fun d h => ?_)
    have he : ∀ (_ : String) t, t = d → Waiting X l t := fun _ => held h
    refine .readAt (.after (.ensure' _ _) he (fun _ _ => trivial) fun _ => ?_)
    refine .checked he fun head _ => .after (.ensure' _ _) he (fun _ _ => trivial) fun _ => ?_
    refine .checked he fun _ hok => ?_
    unfold checkPinnedLineage at hok
    split at hok
    · rename_i hnone
      exact absurd hnone h.pin_ne_none
    · obtain ⟨k, hk, -⟩ := of_bind hok
      exact absurd hk (h.not_strict k)
  refine .bind' (M := fun r d => Waiting X l d ∧ ∃ e, r = .error e)
    (.attempt' (hrefresh.post (fun _ _ h => h.elim) (fun e _ h => ⟨h, e, rfl⟩) (fun _ h => h)))
    (fun refreshed => .given (fun ⟨e, he⟩ => ?_))
  subst he
  refine .bind' loadWithLease_waiting fun recovered => .given (fun hr => ?_)
  exact Ensures.after refreshSessionStateCheckpoint_bound fun _ => Spec.pure' _ fun _ h => ⟨h, hr⟩

variable (hback : ∀ (s : SessionState) (path : DataFile), X s ↔ X (s.withBacking path))
include hback

theorem recoverPublished_waiting :
    Ensures (Waiting X l) (recoverPublished record) (fun _ d => Waiting X l d ∨ Adopted X l d) := by
  refine Ensures.checked fun candidate _ => Spec.at' fun d h => Spec.readAt (Ensures.checked fun state hload => ?_)
  obtain ⟨head, hcat, -, hx, -⟩ := h.current
  have hs : X state := by
    rcases loadJournalReplayState_ok hload with ⟨k, hk, -, rfl⟩ | ⟨hn, -⟩
    · exact some.inj (hcat.symm.trans hk) ▸ hx
    · exact absurd (hcat.symm.trans hn) (by simp)
  refine .pre ?_ (held h)
  cases record.kind with
  | compact =>
    refine .bind' (M := fun _ d => Waiting X l d ∨ Adopted X l d) (.ite' (fun _ => ?_) (fun _ => ?_))
      (fun published => ?_)
    · exact recoverPinnedCompact_waiting.weaken fun _ _ => .inr
    · exact Ensures.ensure' fun _ => Spec.pure' _ fun _ => .inl
    · have hremove : ∀ d path, Waiting X l d ∨ Adopted X l d →
          Waiting X l (d.removeFile path) ∨ Adopted X l (d.removeFile path) := fun d path h =>
        h.imp (waiting_removeFile d path) (bound_removeFile d path)
      have hresolve : ∀ phase, Keeps (fun d => Waiting X l d ∨ Adopted X l d) (resolveRecord record phase) :=
        fun phase => appendJournal_keeps (fun d h =>
          h.imp (fun h => { h with }) (fun h => h.shrink (shrinks_journal d _)))
      refine Ensures.of_spec (Keeps.ite' ?_ ?_)
      · exact Keeps.bind' (hresolve _) fun _ => cleanupCompactArtifacts_keeps hremove
      · exact .bind' (cleanupCompactArtifacts_keeps hremove) fun _ => hresolve _
  | copyOnWrite =>
    refine Ensures.after (Keeps.read' _) fun d => Ensures.checked fun _ hok => ?_
    have hc : X candidate := by
      rcases validateCOWPublishedRecord_candidate hok with rfl | he
      · exact hs
      · rw [he]
        exact (hback _ _).mp hs
    refine .bind' (M := fun _ => Waiting X l) (.ite' (fun _ => ?_) (fun _ => .pure' _ fun _ h => h)) fun _ => ?_
    · exact .bind' (recoverPinnedCOW_waiting hc hs) fun _ _ _ h => h.elim
    · exact resolveRecord_waiting.mono (fun _ _ => .inl) fun _ _ => trivial

theorem recoverRecord_waiting :
    Ensures (Waiting X l) (recoverRecord record) (fun _ d => Waiting X l d ∨ Adopted X l d) := by
  have hkeep : ∀ {x : Prog Directory String Unit}, Keeps (Waiting X l) x →
      Ensures (Waiting X l) x (fun _ d => Waiting X l d ∨ Adopted X l d) :=
    fun h => h.mono (fun _ _ => .inl) (fun _ _ => trivial)
  have hterminal : Keeps (Waiting X l) (recoverTerminal record) := recoverTerminal_keeps waiting_removeFile
  have hprepared : Keeps (Waiting X l) (recoverPrepared record) :=
    recoverPrepared_keeps waiting_removeFile fun _ _ h => { h with }
  unfold recoverRecord
  cases record.phase with
  | complete | rolledBack => exact hkeep hterminal
  | afterFilePublish | statePublishing | statePublished => exact recoverPublished_waiting hback
  | prepared | dataSynced => exact hkeep hprepared

theorem recover_waiting : Ensures (Waiting X l) recover (fun s d => Adopted X l d ∧ ¬X s) := by
  have hnot : ∀ (s : SessionState) (path : DataFile), ¬X s → ¬X (s.withBacking path) :=
    fun s path h hb => h ((hback s path).mpr hb)
  refine .point' (.after (.read' _) fun journal => ?_)
  refine .bind' (M := fun _ d => Waiting X l d ∨ Adopted X l d)
    ((Spec.forEach' (fun record _ fs d hd => ?_)).pre (fun _ => .inl)) (fun _ => ?_)
  · rcases hd with hd | hd
    · exact recoverRecord_waiting hback fs d hd
    · exact ((recoverRecord_bound hnot).mono (fun _ _ => .inr) (fun _ _ => trivial)) fs d hd
  refine Spec.at' fun d h => Spec.readAt (Ensures.checked fun persisted hload => ?_)
  rcases h with h | h
  · exact refreshRecovered_waiting.pre (held h)
  · exact .of_spec ((refreshRecovered_bound (loadJournalReplayState_bound h hload)).pre (held h))

end

theorem admitState_waiting {l head : Lineage} {d₀ : Directory}
    (hpin : d₀.pin.isSome) (hcat : d₀.catalog = some head) (hl : l ∈ d₀.checkpoints)
    (hout : l ∉ head.ancestry) (hother : ¬SameManifest l.checkpoint.state head.checkpoint.state)
    (hnow : options.deferRecovery = false) : Ensures (· = d₀) (admitState options) (fun _ => Waiting options.Names l) := by
  refine admitState_ensures
    (M := fun s d => d = d₀ ∧ d₀.primary = some head.checkpoint.state ∧ s = head.checkpoint.state) ?_ ?_ hnow
  · refine .readAt (.ite' (fun hnone => ?_) (fun _ => .readAt ?_))
    · simp only [id, hcat] at hnone
      simp at hnone
    simp only [id, hcat]
    refine Ensures.checked fun k hload => ?_
    obtain rfl : k = head := some.inj ((loadCatalogStateCheckpoint_ok.mp hload).1.symm.trans hcat)
    refine .ite' (fun hp => .pure' _ (fun d h => ⟨h, hp, rfl⟩)) fun _ => ?_
    -- completing the publication of the catalog's state would need a strict load
    refine Ensures.ensure' fun _ => Ensures.point' (Spec.readAt (Ensures.checked fun j hok => ?_))
    obtain ⟨⟨hj, -⟩, -, hstrays⟩ := loadStateCheckpointChain_ok.mp hok
    obtain rfl : k = j := some.inj (hcat.symm.trans hj)
    have hmem : l ∈ strays d₀ k := mem_strays.mpr ⟨hl, hout⟩
    rw [show strays d₀ k = [] from hstrays rfl] at hmem
    cases hmem
  · rintro state _ ⟨rfl, hprimary, rfl⟩ hnames
    refine ⟨hpin, ⟨head, hcat, hprimary, hnames, hout⟩, hl, fun hn => hother ?_⟩
    exact ⟨hn.1.trans hnames.1.symm, hn.2.1.trans hnames.2.1.symm, hn.2.2.trans hnames.2.2.symm⟩

theorem openSession_waiting {reserveWriter : Bool} {l head : Lineage} {w₀ : World}
    (hpin : w₀.dir.pin.isSome) (hcat : w₀.dir.catalog = some head) (hl : l ∈ w₀.dir.checkpoints)
    (hout : l ∉ head.ancestry) (hother : ¬SameManifest l.checkpoint.state head.checkpoint.state)
    (hnow : options.deferRecovery = false) : Ensures (· = w₀) (openSession options reserveWriter)
      (fun _ w => ∃ session, w.session = some session ∧ ¬session.Coherent) := by
  have hback : ∀ (s : SessionState) (path : DataFile), options.Names s ↔ options.Names (s.withBacking path) :=
    fun _ _ => Iff.rfl
  refine openSession_ensures hnow (admitState_waiting hpin hcat hl hout hother hnow) (recover_waiting hback)
    (fun s hs => reloadState_bound hs) fun session hview hs hc => hs ?_
  unfold Session.Coherent at hc
  rw [hview] at hc
  exact ⟨hc.1.symm, hc.2.1.symm, hc.2.2.symm⟩

/-- Whether the checkpoint files alone decide what a replay could adopt: the
    catalog exists, and every temporary is linked already or names the published manifest. -/
def Directory.LinkedOnly (d : Directory) : Prop :=
  d.catalog.isSome = true ∧
    ∀ l ∈ d.checkpointTemporaries, l ∈ d.checkpoints ∨ ∀ s, d.published = some s → SameManifest l.checkpoint.state s

theorem exists_waiting_of_not_keepsManifest {d : Directory} (hl : d.LinkedOnly) (hk : ¬KeepsManifest d) :
    ∃ head l, d.pin.isSome ∧ d.catalog = some head ∧ l ∈ d.checkpoints ∧ l ∉ head.ancestry ∧
      ¬SameManifest l.checkpoint.state head.checkpoint.state := by
  obtain ⟨hcat, htemps⟩ := hl
  obtain ⟨head, hhead⟩ := isSome_iff_exists.mp hcat
  have hpub : d.published = some head.checkpoint.state := by
    simp only [Directory.published, hhead]
  simp only [KeepsManifest, not_or, not_forall] at hk
  obtain ⟨hpin, l, hmem, hfollows, -, s, hs, hother⟩ := hk
  rw [hpub] at hs
  cases hs
  refine ⟨head, l, isSome_iff_ne_none.mpr hpin, hhead, ?_, fun hanc => ?_, hother⟩
  · rcases hmem with hmem | hmem
    · exact hmem
    · exact (htemps l hmem).resolve_right fun hsame => hother (hsame _ hpub)
  · -- an ancestor of the catalog's checkpoint is no longer than it, a follower is longer
    have hshort := (Lineage.mem_ancestry.mp hanc).length_le
    have hlong := (hfollows head hhead).length_le
    simp only [Lineage.chain, length_cons] at hshort hlong
    omega

theorem openSession_session {reserveWriter : Bool} :
    Ensures (fun _ => True) (openSession options reserveWriter) (fun _ w => ∃ session, w.session = some session) := by
  have hany : ∀ {α : Type} (x : Prog World String α), Keeps (fun _ => True) x :=
    fun _ => .of_forall fun _ => trivial
  refine .after (hany _) fun _ => .after (hany _) fun _ => .after (hany _) fun state => ?_
  exact .modify' _ fun _ _ => ⟨_, rfl⟩

def pinnedSample : World :=
  let w := World.sample.after sync []
  { w with dir := { w.dir with pin := w.dir.catalog } }

def pinnedCopy : World := pinnedSample.after (writeAt [9] 0) (faultAt 20 .crash)

def pinnedCompaction : World :=
  (pinnedSample.after close []).after (compact (fun contents _ => .ok ⟨1, contents⟩)) (faultAt 20 .crash)

end CodexFold.Vfs
