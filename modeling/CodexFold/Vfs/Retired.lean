import CodexFold.Foundation.Traces
import CodexFold.Vfs.NativeRetirement
import CodexFold.Vfs.Operations

/- Retirement of the native snapshot under crashes.

   While the persisted state names the snapshot, its directory is untouched. Once a
   state without it is persisted, the directory goes through the phases of `Phase`, and
   it leaves the first one only if it holds exactly what the proof says. So a directory
   that differs from the proof is never moved, and one that agrees is deleted by the
   next run that is not interrupted. -/
namespace CodexFold.Vfs.NativeRetirement
open Foundation Option

variable {p : Proof} {folder rest : Folder}

/-! ## The inspection -/

def Agrees (p : Proof) (folder : Folder) (e : Entry) : Prop :=
  folder.get e = none ∨ folder.get e = (p.contents e).map some

/-- The directory holds what the proof says, and nothing else. -/
def Intact (p : Proof) (folder : Folder) : Prop := ∀ e, folder.get e = (p.contents e).map some

variable {e : Entry}

theorem Agrees.present (h : Agrees p folder e) (hp : (folder.get e).isSome) :
    folder.get e = (p.contents e).map some := by
  rcases h with h | h
  · simp [h] at hp
  · exact h

theorem recognize_eq_ok : recognize p e = .ok () ↔ (p.contents e).isSome := by
  cases e <;> simp [recognize, Proof.contents]

theorem inspectEntry_eq_ok {message : String} {present : Bool} :
    inspectEntry folder p e message = .ok present ↔ Agrees p folder e ∧ present = (folder.get e).isSome := by
  unfold inspectEntry captureNativeRetirementFile Agrees
  match folder.get e with
  | none => simp [eq_comm]
  | some none => cases p.contents e <;> simp [bind, Except.bind]
  | some (some contents) =>
    cases p.contents e with
    | none => simp [bind, Except.bind, require]
    | some bytes =>
      by_cases hb : bytes = contents
      · simp [bind, Except.bind, require, hb, eq_comm]
      · simp [bind, Except.bind, require, hb, Ne.symm hb]

theorem inspect_eq_ok {requireAll : Bool} {found : Bool × Bool} :
    inspectNativeRetirementDirectory folder p requireAll = .ok found ↔
      (∀ e, Agrees p folder e) ∧ (requireAll → Intact p folder) ∧
        found = ((folder.get .snapshot).isSome, (folder.get .sidecar).isSome) := by
  unfold inspectNativeRetirementDirectory
  simp only [bind_eq_ok, forM_eq_ok, recognize_eq_ok, require_eq_ok, inspectEntry_eq_ok]
  constructor
  · rintro ⟨_, hnames, _, hsnapshot, _, hsidecar, _, ⟨hs, rfl⟩, _, ⟨hc, rfl⟩, hfound⟩
    have hagrees : ∀ e, Agrees p folder e := by
      intro e
      cases e with
      | snapshot => exact hs
      | sidecar => exact hc
      | other name =>
        cases hget : folder.get (.other name) with
        | none => exact .inl hget
        | some v => exact absurd (hnames _ (folder.mem_names.mpr ⟨v, hget⟩)) (by simp [Proof.contents])
    refine ⟨hagrees, fun hall e => ?_, (Except.ok.inj hfound).symm⟩
    subst hall
    cases e with
    | snapshot => exact hs.present (by simpa using hsnapshot)
    | sidecar =>
      cases hp : p.sidecar with
      | none => rcases hc with hc | hc <;> simpa [Proof.contents, hp] using hc
      | some bytes => exact hc.present (by simpa [hp] using hsidecar)
    | other name => exact (hagrees (.other name)).elim (fun h => by simp [h, Proof.contents]) id
  · rintro ⟨hagrees, hintact, rfl⟩
    refine ⟨(), fun e he => ?_, (), ?_, (), ?_, _, ⟨hagrees _, rfl⟩, _, ⟨hagrees _, rfl⟩, rfl⟩
    · obtain ⟨v, hv⟩ := folder.mem_names.mp he
      have hsome := (hagrees e).present (by simp [hv])
      rw [hv] at hsome
      cases hc : p.contents e with
      | none => simp [hc] at hsome
      | some _ => rfl
    · cases requireAll with
      | false => rfl
      | true => simp [hintact rfl .snapshot, Proof.contents]
    · cases requireAll with
      | false => rfl
      | true => cases hp : p.sidecar <;> simp [hintact rfl .sidecar, Proof.contents, hp]

/-! ## The phases -/

structure Marked (p : Proof) (rest : Folder) (s : Snapshots) : Prop where
  source : s.source = none
  marker : p ∈ s.markers
  staging : s.staging.get p = some rest
  agrees : ∀ e, Agrees p rest e

inductive Phase (p : Proof) (folder : Folder) (s : Snapshots) : Prop where
  | source (hsource : s.source = some folder) (hmarker : p ∉ s.markers) (hstaging : s.staging.get p = none)
  | staged (hsource : s.source = none) (hmarker : p ∉ s.markers) (hstaging : s.staging.get p = some folder)
      (hintact : Intact p folder)
  | marked (rest : Folder) (hmarked : Marked p rest s) (hintact : Intact p folder)
  | done (hsource : s.source = none) (hmarker : p ∈ s.markers) (hstaging : s.staging.get p = none)
      (hintact : Intact p folder)

def Gone (p : Proof) (s : Snapshots) : Prop := s.source = none ∧ s.staging.get p = none

section
variable {α : Type} {Q : α → Snapshots → Prop} {E : String → Snapshots → Prop} {C : Snapshots → Prop}

theorem staged_completes {s : Snapshots} {k : Folder → Prog Snapshots String α} (hs : s.staging.get p = some folder)
    (h : Completes (· = s) (k folder) Q E C) : Completes (· = s) (staged p >>= k) Q E C := by
  refine .bind' (M := fun found t => t = s ∧ found = folder) ?_ fun found => .given fun hf => hf ▸ h
  refine .readAt ?_
  rw [hs]
  exact .pure' folder fun t ht => ⟨ht, rfl⟩

end

section
variable (hintact : Intact p folder)
include hintact

theorem removeStaged_completes {e : Entry} {present : Bool} (hpresent : present = (rest.get e).isSome) :
    CompletesOr (Marked p rest) (removeStaged p e present)
      (fun _ s => ∃ rest', Marked p rest' s ∧ ∀ k, rest'.get k = if k = e then none else rest.get k) (Phase p folder) := by
  unfold removeStaged
  refine .ite' (fun hp => .at' fun s h => ?_) fun hp => .pure' () fun s h => ?_
  · have hphase := Phase.marked rest h hintact
    -- the file was recognized, so it is a regular file
    have hget := (h.agrees e).present (by rw [← hpresent]; exact hp)
    obtain ⟨bytes, hbytes⟩ : ∃ bytes, rest.get e = some (some bytes) := by
      cases hc : p.contents e with
      | none => simp [hget, hc, hpresent] at hp
      | some bytes => exact ⟨bytes, by simp [hget, hc]⟩
    refine staged_completes h.staging (.checked (a := bytes) (by simp [captureNativeRetirementFile, hbytes]) ?_)
    refine .effectAt hphase hphase ?_
    have hmarked : Marked p (rest.erase e) { s with staging := s.staging.set p (rest.erase e) } := by
      refine ⟨h.source, h.marker, get_set_self .., fun k => ?_⟩
      unfold Agrees
      rw [get_erase]
      split
      · exact .inl rfl
      · exact h.agrees k
    have hafter := Phase.marked _ hmarked hintact
    refine .effect' _ id ?_ ?_ ?_ <;> rintro t rfl
    · exact ⟨_, hmarked, fun k => get_erase ..⟩
    · exact hafter
    · exact hafter
  · refine ⟨rest, h, fun k => ?_⟩
    split
    · next hk => rw [hk]; simpa [hpresent] using hp
    · rfl

theorem deleteStagedNativeRetirement_completes :
    CompletesOr (Marked p rest) (deleteStagedNativeRetirement p)
      (fun _ s => Phase p folder s ∧ Gone p s) (Phase p folder) := by
  refine .at' fun s h => staged_completes h.staging ?_
  refine .checked (inspect_eq_ok.mpr ⟨h.agrees, nofun, rfl⟩) ?_
  have hsnapshot : (rest.get .snapshot).isSome = (rest.get .snapshot).isSome := rfl
  refine .bind' ((removeStaged_completes hintact hsnapshot).pre (held h)) fun _ => ?_
  refine .at' fun s₁ ⟨rest₁, h₁, hget₁⟩ => ?_
  have hsidecar : (rest.get .sidecar).isSome = (rest₁.get .sidecar).isSome := by simp [hget₁]
  refine .bind' ((removeStaged_completes hintact hsidecar).pre (held h₁)) fun _ => ?_
  refine .at' fun s₂ ⟨rest₂, h₂, hget₂⟩ => staged_completes h₂.staging ?_
  -- neither file is left, and the proof names no other
  have hempty : rest₂.names.isEmpty := by
    rw [List.isEmpty_iff, List.eq_nil_iff_forall_not_mem]
    intro e he
    obtain ⟨v, hv⟩ := rest₂.mem_names.mp he
    cases e with
    | snapshot => simp [hget₂, hget₁] at hv
    | sidecar => simp [hget₂] at hv
    | other name => rcases h₂.agrees (.other name) with ha | ha <;> simp [hv, Proof.contents] at ha
  have hphase := Phase.marked _ h₂ hintact
  refine .ensure' hempty (.effectAt hphase hphase ?_)
  have hdone : Phase p folder { s₂ with staging := s₂.staging.erase p } :=
    Phase.done h₂.source h₂.marker (get_erase_self ..) hintact
  refine .effect' _ id ?_ ?_ ?_ <;> rintro t rfl
  · exact ⟨hdone, h₂.source, get_erase_self ..⟩
  · exact hdone
  · exact hdone

theorem publishDeletion_completes {s : Snapshots} (hsource : s.source = none) (hmarker : p ∉ s.markers)
    (hstaging : s.staging.get p = some folder) :
    CompletesOr (· = s) (publishDeletion p) (fun _ t => Phase p folder t ∧ Gone p t) (Phase p folder) := by
  have hphase := Phase.staged hsource hmarker hstaging hintact
  have hagrees : ∀ e, Agrees p folder e := fun e => .inr (hintact e)
  refine staged_completes hstaging (.checked (inspect_eq_ok.mpr ⟨hagrees, fun _ => hintact, rfl⟩) ?_)
  refine .point' (held hphase) (held hphase) (.effectAt hphase hphase ?_)
  have hmarked : Marked p folder { s with markers := p :: s.markers } :=
    ⟨hsource, .head _, hstaging, hagrees⟩
  have hafter := Phase.marked _ hmarked hintact
  refine .point' (held hafter) (held hafter) ?_
  exact (deleteStagedNativeRetirement_completes hintact).pre (held hmarked)

theorem stage_completes {s : Snapshots} (hsource : s.source = some folder) (hmarker : p ∉ s.markers)
    (hstaging : s.staging.get p = none) :
    CompletesOr (· = s) (stage p folder)
      (fun _ t => t = { s with source := none, staging := s.staging.set p folder }) (Phase p folder) := by
  have hphase := Phase.source hsource hmarker hstaging
  refine .checked (inspect_eq_ok.mpr ⟨fun e => .inr (hintact e), fun _ => hintact, rfl⟩) ?_
  refine .point' (held hphase) (held hphase) (.effectAt hphase hphase ?_)
  have hafter : Phase p folder { s with source := none, staging := s.staging.set p folder } :=
    Phase.staged rfl hmarker (get_set_self ..) hintact
  exact .effect' _ id (fun t ht => ht) (held hafter) (held hafter)

theorem completeNativeSnapshotRetirement_completes (hvalid : p.stateGeneration ≠ 0) :
    CompletesOr (Phase p folder) (completeNativeSnapshotRetirement p)
      (fun _ s => Phase p folder s ∧ Gone p s) (Phase p folder) := by
  refine .at' fun s h => .checked (a := ()) (by simp [validateNativeRetirementProof, hvalid]) ?_
  refine .readAt ?_
  simp only [id]
  cases h with
  | source hsource hmarker hstaging =>
    simp only [hmarker, if_false, hstaging, hsource]
    refine .bind' (stage_completes hintact hsource hmarker hstaging) fun _ => ?_
    exact publishDeletion_completes hintact rfl hmarker (get_set_self ..)
  | staged hsource hmarker hstaging _ =>
    simp only [hmarker, if_false, hstaging]
    exact publishDeletion_completes hintact hsource hmarker hstaging
  | marked rest hmarked _ =>
    simp only [hmarked.marker, if_true, hmarked.staging, isSome_some]
    exact (deleteStagedNativeRetirement_completes hintact).pre (held hmarked)
  | done hsource hmarker hstaging _ =>
    simp only [hmarker, if_true, hstaging, isSome_none, Bool.false_eq_true, if_false]
    exact .pure' () fun t ht => ht ▸ ⟨.done hsource hmarker hstaging hintact, hsource, hstaging⟩

end

theorem completeNativeSnapshotRetirement_keeps : Keeps (Phase p folder) (completeNativeSnapshotRetirement p) := by
  by_cases hvalid : p.stateGeneration = 0
  · refine .checked (fun _ _ h => h) fun _ hok => ?_
    simp [validateNativeRetirementProof, hvalid] at hok
  by_cases hintact : Intact p folder
  · exact (completeNativeSnapshotRetirement_completes hintact hvalid).spec.weaken fun _ _ h => h.1
  refine .at' fun s h => ?_
  have he : ∀ t, t = s → Phase p folder t := held h
  refine SpecOr.checked he fun _ _ => Spec.readAt ?_
  simp only [id]
  cases h with
  | source hsource hmarker hstaging =>
    simp only [hmarker, if_false, hstaging, hsource]
    refine Spec.bind' (M := fun _ _ => False) (SpecOr.checked he fun _ hok => ?_) nofun
    exact absurd ((inspect_eq_ok.mp hok).2.1 rfl) hintact
  | staged _ _ _ h | marked _ _ h | done _ _ _ h => exact absurd h hintact

/-! ## The session state -/

section
variable {old next : SessionState}

def Ahead (next : SessionState) (d : Directory) : Prop := ∃ head, d.catalog = some head ∧ head.checkpoint.state = next

inductive Between (old next : SessionState) (d : Directory) : Prop where
  | behind (hprimary : d.primary = some old)
      (hcatalog : ∀ head, d.catalog = some head → head.checkpoint.state = old ∨ head.checkpoint.state = next)
  | advanced (hprimary : d.primary = some next) (hahead : Ahead next d)

theorem Between.aside {d d' : Directory} (h : Between old next d) (hp : d'.primary = d.primary)
    (hc : d'.catalog = d.catalog) : Between old next d' := by
  cases h with
  | behind hprimary hcatalog => exact .behind (hp ▸ hprimary) (hc ▸ hcatalog)
  | advanced hprimary hahead => exact .advanced (hp ▸ hprimary) (by unfold Ahead; rw [hc]; exact hahead)

theorem Between.catalog {d : Directory} (h : Between old next d) {head : Lineage} (hc : d.catalog = some head) :
    head.checkpoint.state = old ∨ head.checkpoint.state = next := by
  cases h with
  | behind _ hcatalog => exact hcatalog head hc
  | advanced _ hahead =>
    obtain ⟨k, hk, hstate⟩ := hahead
    exact .inr (some.inj (hk.symm.trans hc) ▸ hstate)

theorem reconcile_between : Keeps (Between old next) reconcileStateCheckpointHistory :=
  reconcileStateCheckpointHistory_keeps fun _ _ h => h.aside rfl rfl

theorem writeStateCatalog_ahead {l : Lineage} (hl : l.checkpoint.state = next) :
    SpecOr (Between old next) (writeStateCatalog l) (fun _ d => Between old next d ∧ Ahead next d) (Between old next) := by
  refine .point' (fun _ h => h) fun _ => ?_
  refine .bind' (.effect' _ _ (fun d h => ?_) (fun _ h => h) fun _ h => h)
    fun _ => .point' _ (fun _ h => h) (fun _ h => h.1) fun _ h => h.1
  refine ⟨?_, l, rfl, hl⟩
  cases h with
  | behind hprimary _ => exact .behind hprimary fun head hhead => .inr (by cases hhead; exact hl)
  | advanced hprimary _ => exact .advanced hprimary ⟨l, rfl, hl⟩

theorem writeSessionState_advances : SpecOr (fun d => Between old next d ∧ Ahead next d) (writeSessionState next)
      (fun _ d => d.primary = some next ∧ Ahead next d) (Between old next) := by
  refine .point' (fun _ h => h.1) fun _ => ?_
  refine .bind' (M := fun _ d => d.primary = some next ∧ Ahead next d) ?_ fun _ => ?_
  · exact .effect' _ _ (fun d h => ⟨rfl, h.2⟩) (fun _ h => h.1) fun _ h => h.1
  · exact .point' _ (fun _ h => h) (fun _ h => .advanced h.1 h.2) fun _ h => .advanced h.1 h.2

theorem publishCheckpoint_advances {previous : List Checkpoint} {n : Nat} :
    SpecOr (Between old next) (publishCheckpoint none next previous n) (fun _ d => d.primary = some next ∧ Ahead next d) (Between old next) := by
  refine .after (fun _ h => h) (.read' _) fun d => ?_
  refine Spec.checked (fun _ _ h => h) fun checkpoint hbuild => ?_
  refine SpecOr.after (fun _ h => h) (Keeps.ensure' _ _) fun _ => ?_
  refine .after (fun _ h => h) (writeImmutableStateCheckpoint_keeps ?_ ?_ ?_) fun _ => ?_
  · exact fun d h => h.aside rfl rfl
  · exact fun d h => h.aside rfl rfl
  · exact fun d h => h.aside rfl rfl
  · exact .bind' (writeStateCatalog_ahead (buildStateCheckpoint_ok hbuild).1) fun _ => writeSessionState_advances

theorem publishSessionState_advances :
    SpecOr (Between old next) (publishSessionState none next) (fun _ d => d.primary = some next ∧ Ahead next d) (Between old next) := by
  refine .point' (fun _ h => h) fun _ => ?_
  refine .bind' (currentCheckpoint_keeps reconcile_between) fun current => ?_
  cases current with
  | none => exact publishCheckpoint_advances.pre fun _ h => h.1
  | some head =>
    refine SpecOr.after (fun _ h => h.1) (Keeps.ensure' _ _) fun _ => ?_
    refine .after (fun _ h => h.1) (.ensure' _ _) fun _ => ?_
    refine .after (fun _ h => h.1) (.read' _) fun d => ?_
    refine .ite' (fun hsame => ?_) fun _ => publishCheckpoint_advances.pre fun _ h => h.1
    exact writeSessionState_advances.pre fun _ h => ⟨h.1, head, h.2, hsame.1⟩

theorem loadSessionState_between : Keeps (Between old next) (loadSessionState false) := by
  refine .at' fun d h => .readAt ?_
  have he : ∀ t, t = d → Between old next t := held h
  simp only [id]
  split
  case h_1 => exact .throw' _ he
  case h_2 => exact .pure' _ he
  case h_3 =>
    refine SpecOr.checked he fun head _ => Spec.ite' (fun _ => Spec.pure' _ he) fun _ => ?_
    refine .pre ?_ (held h)
    refine Keeps.bind' (Keeps.ensure' _ _) fun _ => Keeps.bind' (Keeps.point' _) fun _ => Spec.at' fun d h => ?_
    have he : ∀ t, t = d → Between old next t := held h
    refine Spec.readAt (SpecOr.checked he fun head hload => SpecOr.checked he fun _ _ => ?_)
    have hcatalog := (loadStateCheckpointChain_ok.mp hload).1.1
    -- `state.json` becomes what the catalog names
    refine .pre (P := fun t => Between old next t ∧ t.catalog = some head) ?_ fun t ht => ht ▸ ⟨h, hcatalog⟩
    refine SpecOr.after (fun _ h => h.1) (writeSessionState_keeps fun t ht => ⟨?_, ht.2⟩)
      fun _ => Spec.pure' _ fun _ h => h.1
    rcases ht.1.catalog ht.2 with hstate | hstate
    · exact .behind (by rw [hstate]) fun k hk => ht.1.catalog hk
    · exact .advanced (by rw [hstate]) ⟨head, ht.2, hstate⟩

end

/-! ## The store -/

def Unused (p : Proof) (s : Snapshots) : Prop := p ∉ s.markers ∧ s.staging.get p = none

def Event.Fresh (s : Store) : Event → Prop
  | .retire visible retiredAt _ => ∀ p : Proof, p.visible = visible → p.retiredAt = retiredAt → Unused p s.snapshots
  | .load _ | .complete _ => True

/-- A session whose state names its snapshot, with the snapshot's directory. -/
structure Ready (state : SessionState) (folder : Folder) (s : Store) : Prop where
  primary : s.session.primary = some state
  named : state.nativeSnapshot.isSome
  catalog : ∀ head, s.session.catalog = some head → head.checkpoint.state = state
  source : s.snapshots.source = some folder

structure Binds (state : SessionState) (folder : Folder) (p : Proof) : Prop where
  generation : p.stateGeneration = state.generation
  valid : p.stateGeneration ≠ 0
  snapshot : state.nativeSnapshot = some p.snapshot
  sidecar : folder.get .sidecar = p.sidecar.map some

/-- The invariant: nothing is moved before the state has advanced, and no catalog names
    the advanced state before its proof is written. -/
inductive Sound (state : SessionState) (folder : Folder) (s : Store) : Prop where
  | waiting (hprimary : s.session.primary = some state)
      (hcatalog : ∀ head, s.session.catalog = some head → head.checkpoint.state = state ∨
        head.checkpoint.state = retired state ∧ ∃ p, s.proof = some p ∧ Binds state folder p ∧ Unused p s.snapshots)
      (hsource : s.snapshots.source = some folder)
  | advanced (p : Proof) (hproof : s.proof = some p) (hbinds : Binds state folder p)
      (hbetween : Between (retired state) (retired state) s.session) (hphase : Phase p folder s.snapshots)

section
variable {state : SessionState}
variable {s : Store}

structure Proved (state : SessionState) (folder : Folder) (p : Proof) (s : Store) : Prop where
  proof : s.proof = some p
  binds : Binds state folder p
  between : Between state (retired state) s.session
  source : s.snapshots.source = some folder
  unused : Unused p s.snapshots

section

variable (h : Proved state folder p s)
include h

theorem Proved.phase : Phase p folder s.snapshots :=
  .source h.source h.unused.1 h.unused.2

theorem Proved.sound : Sound state folder s := by
  cases h.between with
  | behind hprimary hcatalog =>
    refine .waiting hprimary (fun head hhead => ?_) h.source
    exact (hcatalog head hhead).imp id fun hstate => ⟨hstate, p, h.proof, h.binds, h.unused⟩
  | advanced hprimary hahead => exact .advanced p h.proof h.binds (.advanced hprimary hahead) h.phase

theorem Proved.session {d : Directory} (hd : Between state (retired state) d) :
    Proved state folder p { s with session := d } :=
  ⟨h.proof, h.binds, hd, h.source, h.unused⟩

end

theorem primary_between {d : Directory} (h : Between state state d) : d.primary = some state := by
  cases h with
  | behind hprimary _ | advanced hprimary _ => exact hprimary

theorem captureSidecar_ok {s : Snapshots} {sidecar : Option Bytes} (hsource : s.source = some folder)
    (h : captureNativeRetirementSidecar s.source = .ok sidecar) : folder.get .sidecar = sidecar.map some := by
  unfold captureNativeRetirementSidecar at h
  rw [hsource, bind_some] at h
  match hget : folder.get .sidecar with
  | none => simp only [hget, Except.ok.injEq] at h; simp [← h]
  | some none => simp [hget] at h
  | some (some contents) => simp only [hget, Except.ok.injEq] at h; simp [← h]

theorem retireNativeSnapshot_sound {visible : Bytes} {retiredAt : Nat} (h : Sound state folder s)
    (hbetween : Between state (retired state) s.session)
    (hsource : s.snapshots.source = some folder)
    (hfresh : ∀ p : Proof, p.visible = visible → p.retiredAt = retiredAt → Unused p s.snapshots) :
    LeadsTo (· = s) (retireNativeSnapshot state visible retiredAt) (Sound state folder) := by
  have he : ∀ t, t = s → Sound state folder t := held h
  refine SpecOr.checked he fun snapshot hsnapshot => SpecOr.after he (Keeps.ensure' _ _) fun _ => ?_
  refine Spec.readAt (SpecOr.checked he fun sidecar hsidecar => SpecOr.checked he fun _ hvalid => ?_)
  have hbinds : Binds state folder ⟨state.generation, retiredAt, snapshot, sidecar, visible⟩ := by
    refine ⟨rfl, by simpa [validateNativeRetirementProof] using hvalid, ?_, captureSidecar_ok hsource hsidecar⟩
    cases hn : state.nativeSnapshot with
    | none => simp [hn] at hsnapshot
    | some n => simpa [hn] using hsnapshot
  refine SpecOr.point' he fun _ => ?_
  refine .bind' (M := fun _ => Proved state folder ⟨state.generation, retiredAt, snapshot, sidecar, visible⟩)
    (SpecOr.effect' he (fun t ht => ?_)) fun _ => ?_
  · rw [ht]
    exact ⟨rfl, hbinds, hbetween, hsource, hfresh _ rfl rfl⟩
  refine SpecOr.point' (fun _ ht => ht.sound) fun _ => ?_
  refine Spec.bind' (M := fun _ t => Proved state folder ⟨state.generation, retiredAt, snapshot, sidecar, visible⟩ t ∧
    t.session.primary = some (retired state) ∧ Ahead (retired state) t.session) (Spec.onPart' fun t ht => ?_) fun _ => ?_
  · have hbefore : Between state (retired state) t.directory := ht.between.aside rfl rfl
    refine (publishSessionState_advances.pre (held hbefore)).post ?_ ?_ ?_
    · exact fun _ d hd => ⟨ht.session (.advanced hd.1 hd.2), hd⟩
    · exact fun _ d hd => (ht.session hd).sound
    · exact fun d hd => (ht.session hd).sound
  refine .bind' (.onPart' fun t ht => ?_) fun _ => .pure' _ fun _ h => h
  -- the state has advanced, so the directory may go
  have hsound : ∀ u, Phase _ folder u → Sound state folder { t with snapshots := u } :=
    fun u hu => .advanced _ ht.1.proof ht.1.binds (.advanced ht.2.1 ht.2.2) hu
  refine (completeNativeSnapshotRetirement_keeps.pre (held ht.1.phase)).post ?_ ?_ ?_
  · exact fun _ => hsound
  · exact fun _ => hsound
  · exact hsound

theorem load_sound {faults : List Fault} {I : Directory → Prop} (hkeeps : Keeps I (loadSessionState false))
    (hbefore : I s.directory) (hafter : ∀ d, I d → Sound state folder { s with session := d }) :
    Sound state folder
      (onPart Store.directory (fun s d => { s with session := d }) (loadSessionState false) faults s).2.1 := by
  have hspec : LeadsTo (· = s.directory) (loadSessionState false) I :=
    hkeeps.pre (held hbefore)
  refine Spec.state (P := fun t => t = s) (Spec.onPart' fun t ht => ?_) faults rfl
  rw [ht]
  exact hspec.mono (fun _ => hafter) hafter

theorem step_sound (hnamed : state.nativeSnapshot.isSome) {s' : Store} {event : Event} (h : Sound state folder s)
    (hfresh : event.Fresh s) (hstep : step s event = some s') : Sound state folder s' := by
  cases event with
  | retire visible retiredAt faults =>
    cases hs : h with
    | waiting hprimary hcatalog hsource =>
      have hbetween : Between state (retired state) s.session :=
        .behind hprimary fun head hhead => (hcatalog head hhead).imp id And.left
      simp only [step, hprimary, map_some, some.injEq] at hstep
      rw [← hstep]
      exact Spec.state (retireNativeSnapshot_sound h hbetween hsource hfresh) faults rfl
    | advanced p _ _ hbetween _ =>
      -- the state names no snapshot any more
      simp only [step, primary_between hbetween, map_some, some.injEq] at hstep
      rw [← hstep]
      exact h
  | load faults =>
    rw [← some.inj hstep]
    cases hs : h with
    | waiting hprimary hcatalog hsource =>
      by_cases hproof : ∃ p, s.proof = some p ∧ Binds state folder p ∧ Unused p s.snapshots
      · obtain ⟨p, hp, hbinds, hunused⟩ := hproof
        have hproved : Proved state folder p s :=
          ⟨hp, hbinds, .behind hprimary fun head hhead => (hcatalog head hhead).imp id And.left, hsource, hunused⟩
        exact load_sound loadSessionState_between (hproved.between.aside rfl rfl) fun d hd => (hproved.session hd).sound
      · -- without such a proof the catalog names the same state as `state.json`
        have hbetween : Between state state s.session :=
          .behind hprimary fun head hhead => (hcatalog head hhead).imp id fun hahead => absurd hahead.2 hproof
        refine load_sound loadSessionState_between (hbetween.aside rfl rfl) fun d hd => ?_
        exact .waiting (primary_between hd) (fun head hhead => .inl ((hd.catalog hhead).elim id id)) hsource
    | advanced p hproof hbinds hbetween hphase =>
      refine load_sound loadSessionState_between (hbetween.aside rfl rfl) fun d hd => ?_
      exact .advanced p hproof hbinds hd hphase
  | complete faults =>
    cases hs : h with
    | waiting hprimary _ _ =>
      have hsome : s.nativeSnapshot.isSome := by simpa [Store.nativeSnapshot, hprimary] using hnamed
      have hne : s.nativeSnapshot ≠ none := fun hn => by simp [hn] at hsome
      simp [step, hne] at hstep
    | advanced p hproof hbinds hbetween hphase =>
      have hnone : s.nativeSnapshot = none := by simp [Store.nativeSnapshot, primary_between hbetween, retired]
      simp only [step, hnone, if_true, hproof, map_some, some.injEq] at hstep
      rw [← hstep]
      have hsound : ∀ u, Phase p folder u → Sound state folder { s with snapshots := u } :=
        fun u hu => .advanced p hproof hbinds hbetween hu
      refine Spec.state (P := fun t => t = s) (Spec.onPart' fun t ht => ?_) faults rfl
      rw [ht]
      exact (completeNativeSnapshotRetirement_keeps.pre (held hphase)).mono (fun _ => hsound) hsound

theorem Ready.sound (h : Ready state folder s) : Sound state folder s :=
  .waiting h.primary (fun head hhead => .inl (h.catalog head hhead)) h.source

end

/-- The bytes of the snapshot's directory are where they were, or staged. -/
def Store.Keeps (s : Store) (e : Entry) (contents : Option Bytes) : Prop :=
  (∃ folder, s.snapshots.source = some folder ∧ folder.get e = some contents) ∨
    ∃ q folder, s.snapshots.staging.get q = some folder ∧ folder.get e = some contents

/-- The directory holds the snapshot, at most a sidecar beside it, and nothing else. -/
def Tidy (state : SessionState) (folder : Folder) : Prop :=
  folder.get .snapshot = state.nativeSnapshot.map some ∧ ∀ name, folder.get (.other name) = none

theorem Binds.intact {state : SessionState} (h : Binds state folder p) (htidy : Tidy state folder) : Intact p folder := by
  intro e
  cases e with
  | snapshot => rw [htidy.1, h.snapshot]; rfl
  | sidecar => exact h.sidecar
  | other name => exact htidy.2 name

/-- In every state that calls and crashes lead to, a snapshot that the persisted state
    names is in place; what is deleted is what the persisted proof says and is no longer
    named; and if the directory held nothing besides, a completion that nothing
    interrupts deletes it. -/
theorem native_retirement_crash_safe {state : SessionState} {s₀ s : Store} {events : List Event}
    (hready : Ready state folder s₀) (hfresh : Along step Event.Fresh s₀ events)
    (hrun : runFrom step s₀ events = some s) :
    (s.nativeSnapshot.isSome → s.snapshots.source = some folder) ∧
    (∀ e contents, folder.get e = some contents → ¬s.Keeps e contents →
      s.nativeSnapshot = none ∧ ∃ p, s.proof = some p ∧ p.contents e = contents) ∧
    (s.nativeSnapshot = none → Tidy state folder → ∃ p t, s.proof = some p ∧
      Runs (completeNativeSnapshotRetirement p) s.snapshots () t ∧ t.source = none ∧ t.staging.get p = none) := by
  have hsound : Sound state folder s :=
    Along.invariant (fun _ _ _ h hfresh hstep => step_sound hready.named h hfresh hstep) events hready.sound hfresh hrun
  cases hsound with
  | waiting hprimary _ hsource =>
    have hnamed : s.nativeSnapshot = state.nativeSnapshot := by simp [Store.nativeSnapshot, hprimary]
    refine ⟨fun _ => hsource, fun e contents hget hgone => absurd (.inl ⟨folder, hsource, hget⟩) hgone, fun hnone => ?_⟩
    have := hready.named
    simp [← hnamed, hnone] at this
  | advanced p hproof hbinds hbetween hphase =>
    have hnone : s.nativeSnapshot = none := by simp [Store.nativeSnapshot, primary_between hbetween, retired]
    have hcontents : Intact p folder → ∀ e contents, folder.get e = some contents → p.contents e = contents := by
      intro hintact e contents hget
      rw [hintact e] at hget
      cases hc : p.contents e with
      | none => simp [hc] at hget
      | some bytes => simpa [hc] using hget
    refine ⟨fun hsome => (by simp [hnone] at hsome), fun e contents hget hgone => ⟨hnone, p, hproof, ?_⟩, fun _ htidy => ?_⟩
    · cases hphase with
      | source hsource _ _ => exact absurd (.inl ⟨folder, hsource, hget⟩) hgone
      | staged _ _ _ hintact | marked _ _ hintact | done _ _ _ hintact => exact hcontents hintact e contents hget
    · have hcompletes := completeNativeSnapshotRetirement_completes (hbinds.intact htidy) hbinds.valid
      obtain ⟨_, t, hruns⟩ := hcompletes.returns s.snapshots hphase
      have hpost := hcompletes.spec [] s.snapshots hphase
      rw [hruns.eq] at hpost
      exact ⟨p, t, hproof, hruns, hpost.2⟩

def storeWith (folder : Folder) : Store :=
  ⟨World.sample.dir, none, ⟨some folder, .empty, [⟨1, 0, [1, 2], some [7], [1, 2]⟩]⟩⟩

def sampleFolder : Folder := (Files.empty.set .sidecar (some [7])).set .snapshot (some [1, 2])

def interrupted : List Event := [.retire [1, 2, 3] 1 (faultAt 19 .crash), .complete (faultAt 4 .crash)]

theorem storeWith_ready (folder : Folder) : Ready SessionOptions.sample.initialState folder (storeWith folder) where
  primary := by
    have hprimary : World.sample.dir.primary = some SessionOptions.sample.initialState := by decide +kernel
    exact hprimary
  named := by decide +kernel
  catalog head hhead := by
    have hstate : ∀ k ∈ World.sample.dir.catalog, k.checkpoint.state = SessionOptions.sample.initialState := by decide +kernel
    exact hstate head hhead
  source := rfl

theorem sampleFolder_tidy : Tidy SessionOptions.sample.initialState sampleFolder :=
  ⟨by decide +kernel, fun name => by simp [sampleFolder]⟩

theorem interrupted_fresh : Along step Event.Fresh (storeWith sampleFolder) interrupted := by
  refine ⟨fun p _ htime => ⟨fun hmem => ?_, rfl⟩, fun _ _ => ⟨trivial, fun _ _ => trivial⟩⟩
  rw [List.mem_singleton.mp hmem] at htime
  exact absurd htime (by decide)

theorem interrupted_retirement_completes :
    ∃ s p t, runFrom step (storeWith sampleFolder) interrupted = some s ∧ s.snapshots.source.isNone ∧
      s.snapshots.staging.names = [p] ∧ s.proof = some p ∧
      Runs (completeNativeSnapshotRetirement p) s.snapshots () t ∧ t.source = none ∧ t.staging.get p = none := by
  obtain ⟨s, hrun, hnone, hsource, hstaging⟩ : ∃ s, runFrom step (storeWith sampleFolder) interrupted = some s ∧
      s.nativeSnapshot = none ∧ s.snapshots.source.isNone ∧ s.snapshots.staging.names = s.proof.toList :=
    ⟨(runFrom step (storeWith sampleFolder) interrupted).get (by decide +kernel), (some_get _).symm,
      by decide +kernel, by decide +kernel, by decide +kernel⟩
  obtain ⟨p, t, hproof, hruns, hgone⟩ :=
    (native_retirement_crash_safe (storeWith_ready sampleFolder) interrupted_fresh hrun).2.2 hnone sampleFolder_tidy
  exact ⟨s, p, t, hrun, hsource, by rw [hstaging, hproof]; rfl, hproof, hruns, hgone⟩

def foreignFolder : Folder := sampleFolder.set (.other ".DS_Store") (some [])

/-- A directory with anything besides stays in place: the state advances, and a completion
    refuses the directory and changes nothing. -/
theorem foreign_file_stops_retirement :
    ∃ s p, runFrom step (storeWith foreignFolder) [.retire [1, 2, 3] 1 []] = some s ∧ s.nativeSnapshot = none ∧
      s.proof = some p ∧
      completeNativeSnapshotRetirement p [] s.snapshots =
        (.failed "unrecognized native retirement content: .DS_Store", s.snapshots, []) ∧
      s.snapshots.source.isSome := by
  refine ⟨(runFrom step (storeWith foreignFolder) [.retire [1, 2, 3] 1 []]).get (by decide +kernel),
    ⟨1, 1, [1, 2], some [7], [1, 2, 3]⟩, (some_get _).symm, by decide +kernel, by decide +kernel, ?_, by decide +kernel⟩
  rfl

end CodexFold.Vfs.NativeRetirement
