import CodexFold.Vfs.Recover

/- What the checks on checkpoints establish, and the arithmetic of lineages.

   A checkpoint file is known by the list of checkpoints from it back to the first
   one, so its ancestors are the nonempty ends of that list. -/
namespace CodexFold.Vfs
open Foundation List

variable {c : Checkpoint} {d : Directory}
variable {state : SessionState}

namespace Lineage

theorem chain_injective {l k : Lineage} (h : l.chain = k.chain) : l = k := by
  obtain ⟨c, p⟩ := l
  obtain ⟨c', p'⟩ := k
  simp only [chain, cons.injEq] at h
  rw [h.1, h.2]

theorem mem_ancestryFrom (l : Lineage) : ∀ (c : Checkpoint) (p : List Checkpoint),
    l ∈ ancestryFrom c p ↔ l.chain <:+ c :: p
  | c, [] => by
    constructor
    · intro h
      rw [mem_singleton.mp h]
      exact suffix_rfl
    · intro h
      rcases suffix_cons_iff.mp h with h | h
      · exact mem_singleton.mpr (chain_injective h)
      · exact absurd (suffix_nil.mp h) (cons_ne_nil _ _)
  | c, q :: rest => by
    show l ∈ (⟨c, q :: rest⟩ : Lineage) :: ancestryFrom q rest ↔ _
    rw [mem_cons, mem_ancestryFrom l q rest]
    constructor
    · rintro (rfl | h)
      · exact suffix_rfl
      · exact h.trans (suffix_cons c _)
    · intro h
      rcases suffix_cons_iff.mp h with h | h
      · exact .inl (chain_injective h)
      · exact .inr h

theorem mem_ancestry {l k : Lineage} : l ∈ k.ancestry ↔ l.chain <:+ k.chain :=
  mem_ancestryFrom l k.checkpoint k.previous

theorem self_mem_ancestry (l : Lineage) : l ∈ l.ancestry := mem_ancestry.mpr suffix_rfl

theorem mem_ancestry_iff {l k : Lineage} : l ∈ k.ancestry ↔ l = k ∨ l.chain <:+ k.previous := by
  rw [mem_ancestry, show k.chain = k.checkpoint :: k.previous from rfl, suffix_cons_iff]
  constructor
  · rintro (h | h)
    · exact .inl (chain_injective h)
    · exact .inr h
  · rintro (rfl | h)
    · exact .inl rfl
    · exact .inr h

theorem not_chain_suffix_previous (l : Lineage) : ¬l.chain <:+ l.previous := by
  intro h
  have := h.length_le
  simp only [chain, length_cons] at this
  omega

end Lineage

/-! ## Links -/

variable {K : List Lineage}

theorem linked_of_mem {K' : List Lineage} : ∀ {c : Checkpoint} {p : List Checkpoint},
    (∀ l : Lineage, l.chain <:+ p → l ∈ K → l ∈ K') → linked K c p → linked K' c p
  | _, [], _, _ => rfl
  | c, q :: rest, hmem, h => by
    simp only [linked, Bool.and_eq_true, decide_eq_true_eq] at h ⊢
    obtain ⟨⟨⟨hq, hs⟩, hg⟩, hl⟩ := h
    refine ⟨⟨⟨hmem ⟨q, rest⟩ suffix_rfl hq, hs⟩, hg⟩, ?_⟩
    exact linked_of_mem (fun l hl' => hmem l (hl'.trans (suffix_cons q rest))) hl

theorem linked_mem : ∀ {c : Checkpoint} {p : List Checkpoint},
    linked K c p → ∀ l : Lineage, l.chain <:+ p → l ∈ K
  | _, [], _, l, hl => absurd (suffix_nil.mp hl) (cons_ne_nil _ _)
  | c, q :: rest, h, l, hl => by
    simp only [linked, Bool.and_eq_true, decide_eq_true_eq] at h
    rcases suffix_cons_iff.mp hl with he | he
    · rw [Lineage.chain_injective (k := ⟨q, rest⟩) he]
      exact h.1.1.1
    · exact linked_mem h.2 l he

variable {l : Lineage}

theorem linked_next (hmem : l ∈ K) (hl : linked K l.checkpoint l.previous)
    (hs : l.checkpoint.sequence < c.sequence) (hg : l.checkpoint.state.generation ≤ c.state.generation) :
    linked K c l.chain = true := by
  simp only [Lineage.chain, linked, Bool.and_eq_true, decide_eq_true_eq]
  exact ⟨⟨⟨hmem, hs⟩, hg⟩, hl⟩

theorem linked_replace {c' : Checkpoint} {p : List Checkpoint} (h : linked K c p) (hs : c.sequence ≤ c'.sequence)
    (hg : c'.state = c.state) : linked K c' p = true := by
  cases p with
  | nil => rfl
  | cons q rest =>
    simp only [linked, Bool.and_eq_true, decide_eq_true_eq] at h ⊢
    obtain ⟨⟨⟨hq, hseq⟩, hgen⟩, hl⟩ := h
    exact ⟨⟨⟨hq, by omega⟩, by rw [hg]; exact hgen⟩, hl⟩

/-! ## What a passed check says -/

theorem loadCatalogStateCheckpoint_ok :
    loadCatalogStateCheckpoint d = .ok l ↔ d.catalog = some l ∧ l ∈ d.checkpoints := by
  unfold loadCatalogStateCheckpoint
  cases hc : d.catalog with
  | none => simp
  | some k =>
    by_cases hk : k ∈ d.checkpoints
    · simp only [hk, if_true, Except.ok.injEq, Option.some.injEq]
      constructor
      · rintro rfl
        exact ⟨rfl, hk⟩
      · exact And.left
    · simp only [hk, if_false, reduceCtorEq, Option.some.injEq, false_iff, not_and]
      rintro rfl
      exact hk

theorem loadStateCheckpointChain_ok {strict : Bool} : loadStateCheckpointChain d strict = .ok l ↔
      (d.catalog = some l ∧ l ∈ d.checkpoints) ∧ linked d.checkpoints l.checkpoint l.previous ∧
        (strict → strays d l = []) := by
  unfold loadStateCheckpointChain
  simp only [bind_eq_ok, loadCatalogStateCheckpoint_ok, require_eq_ok]
  constructor
  · rintro ⟨k, hk, _, hl, _, hs, he⟩
    cases he
    refine ⟨hk, hl, fun ht => ?_⟩
    simpa [ht] using hs
  · rintro ⟨hk, hl, hs⟩
    refine ⟨l, hk, (), hl, (), ?_, rfl⟩
    cases strict with
    | false => rfl
    | true => simp [hs rfl]

theorem mem_strays {h : Lineage} : l ∈ strays d h ↔ l ∈ d.checkpoints ∧ l ∉ h.ancestry := by
  simp [strays]

theorem captureManifestIdentity_ok {path : ManifestPath} {n : Nat} {b : Bytes}
    {m : Manifest} : captureManifestIdentity d path n b = .ok m ↔
      d.manifests.get path = some m ∧ m.source.length = n ∧ m.source = b := by
  unfold captureManifestIdentity
  cases hm : d.manifests.get path with
  | none => simp
  | some k =>
    show (if k.source.length = n ∧ k.source = b then _ else _) = _ ↔ _
    by_cases hk : k.source.length = n ∧ k.source = b
    · rw [if_pos hk]
      constructor
      · intro h
        cases h
        exact ⟨rfl, hk⟩
      · rintro ⟨h, -⟩
        rw [Option.some.inj h]
    · rw [if_neg hk]
      constructor
      · intro h
        cases h
      · rintro ⟨h, hrest⟩
        rw [Option.some.inj h] at hk
        exact absurd hrest hk

theorem captureRegularFileIdentity_ok {path : DataFile} {b : Bytes} :
    captureRegularFileIdentity d path = .ok b ↔ d.files.get path = some b := by
  unfold captureRegularFileIdentity
  cases d.files.get path <;> simp

theorem buildStateCheckpoint_ok {n : Nat} (h : buildStateCheckpoint d state n = .ok c) :
    c.state = state ∧ c.sequence = n ∧ d.files.get state.deltaPath = some c.delta ∧
      captureBacking d state.backingPath = .ok c.backing := by
  obtain ⟨m, _, h⟩ := of_bind h
  obtain ⟨_, _, h⟩ := of_bind h
  obtain ⟨delta, hd, h⟩ := of_bind h
  obtain ⟨backing, hb, h⟩ := of_bind h
  obtain ⟨_, _, h⟩ := of_bind h
  cases h
  exact ⟨rfl, rfl, captureRegularFileIdentity_ok.mp hd, hb⟩

theorem buildRefreshedStateCheckpoint_ok {current : Checkpoint} (h : buildRefreshedStateCheckpoint d current = .ok c) :
    c.state = current.state ∧ c.sequence = current.sequence + 1 := by
  unfold buildRefreshedStateCheckpoint at h
  cases hb : current.state.backingPath with
  | none | some path =>
    rw [hb] at h
    obtain ⟨_, _, h⟩ := of_bind h
    cases h
    exact ⟨rfl, rfl⟩

theorem loadJournalReplayState_ok (h : loadJournalReplayState d = .ok state) :
    (∃ l, d.catalog = some l ∧ l ∈ d.checkpoints ∧ l.checkpoint.state = state) ∨
      (d.catalog = none ∧ d.primary = some state) := by
  unfold loadJournalReplayState at h
  cases hc : d.catalog with
  | none =>
    cases hp : d.primary with
    | none => simp [hc, hp] at h
    | some s =>
      simp only [hc, hp, Except.ok.injEq] at h
      exact .inr ⟨rfl, by rw [h]⟩
  | some k =>
    simp only [hc] at h
    cases hl : loadCatalogStateCheckpoint d with
    | error e => simp [hl, Except.map] at h
    | ok l =>
      obtain ⟨hcat, hmem⟩ := loadCatalogStateCheckpoint_ok.mp hl
      simp only [hl, Except.map, Except.ok.injEq] at h
      exact .inl ⟨l, by rw [← hc]; exact hcat, hmem, h⟩

/-- The data files of a checkpoint and its manifest are as it records them. -/
def Recorded (d : Directory) (c : Checkpoint) : Prop :=
  d.manifests.get c.state.manifestPath = some c.state.manifestSHA256 ∧
    ∀ e ∈ c.data, d.files.get e.1 = some e.2

theorem checkManifest_ok :
    checkManifest d state = .ok () ↔ d.manifests.get state.manifestPath = some state.manifestSHA256 ∧
      state.manifestSHA256.source.length = state.baseBytes ∧ state.manifestSHA256.source = state.baseSHA256 := by
  unfold checkManifest
  cases hm : captureManifestIdentity d state.manifestPath state.baseBytes state.baseSHA256 with
  | error e =>
    simp only [reduceCtorEq, false_iff]
    intro h
    rw [captureManifestIdentity_ok.mpr h] at hm
    cases hm
  | ok m =>
    obtain ⟨hget, hlen, hsrc⟩ := captureManifestIdentity_ok.mp hm
    simp only [require_eq_ok, decide_eq_true_eq]
    constructor
    · rintro rfl
      exact ⟨hget, hlen, hsrc⟩
    · rintro ⟨h, -, -⟩
      rw [hget] at h
      exact Option.some.inj h

theorem verifyStateCheckpointArtifactsAllowed_recorded
    {allowed : List DataFile} (h : verifyStateCheckpointArtifactsAllowed d c allowed = .ok ()) : Recorded d c := by
  obtain ⟨_, hm, h⟩ := of_bind h
  obtain ⟨_, hd, h⟩ := of_bind h
  refine ⟨(checkManifest_ok.mp hm).1, ?_⟩
  intro e he
  have := all_eq_true.mp (require_eq_ok.mp hd) e he
  simpa using this

end CodexFold.Vfs
