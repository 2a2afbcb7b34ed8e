import CodexFold.Fold.Interrupted
import CodexFold.Pack.Reclaim

/- What can be read from a store: which objects are available, and when a manifest
   that verifies with one reader verifies with another. The verification functions
   of this package all come down to these facts. -/
namespace CodexFold.Pack
open Foundation Fold

section
variable {Digest : Type} [DecidableEq Digest] {content : Content Digest}
variable {ref : ObjectRef Digest} {data : Bytes} {reader : ObjectReader Digest}

def ValidPacked (content : Content Digest) (packed : Files Digest Bytes) : Prop :=
  ∀ digest data, packed.get digest = some data → content.sha256 data = digest

/-- The generation named by `CURRENT`. -/
def PackStore.currentGeneration (s : PackStore Digest) : Option (Generation Digest) :=
  s.current.bind s.generations.get

/-- The object is loose or in the generation named by `CURRENT`. -/
def Available (s : PackStore Digest) (digest : Digest) : Prop :=
  (s.files.objects.get digest).isSome = true ∨
    ∃ generation, s.currentGeneration = some generation ∧ (generation.packed.get digest).isSome = true

/-! ## One object -/

theorem packedReader_open {packed : Files Digest Bytes} : (packedReader packed).openObject ref = .ok data ↔
      packed.get ref.sha256 = some data ∧ data.length = ref.rawBytes := by
  unfold packedReader
  cases h : packed.get ref.sha256 with
  | none => simp [h]
  | some found =>
    by_cases hl : found.length = ref.rawBytes
    · simp only [h, hl, ne_eq, not_true_eq_false, if_false, Except.ok.injEq, Option.some.injEq]
      exact ⟨fun e => ⟨e, e ▸ hl⟩, fun e => e.1⟩
    · simp only [h, hl, ne_eq, not_false_eq_true, if_true, Option.some.injEq]
      refine ⟨fun e => by simp at e, ?_⟩
      rintro ⟨rfl, e⟩
      exact absurd e hl

theorem packedReader_names {packed : Files Digest Bytes} (hv : ValidPacked content packed)
    (h : (packedReader packed).openObject ref = .ok data) : ref.Names content data := by
  obtain ⟨hget, hl⟩ := packedReader_open.mp h
  exact ⟨(hv _ _ hget).symm, hl.symm⟩

theorem surviving_open {s : PackStore Digest} (hl : ValidObjects content s.files.objects)
    (hp : ∀ generation, s.currentGeneration = some generation → ValidPacked content generation.packed)
    (hn : ref.Names content data) (ha : Available s ref.sha256) :
    (survivingObjectReader content s).openObject ref = .ok data := by
  have hloose := looseReader_valid hl ref data hn.1 hn.2
  unfold survivingObjectReader
  cases hc : s.current.bind s.generations.get with
  | none =>
    rcases ha with ha | ⟨generation, hg, _⟩
    · exact hloose ha
    · rw [PackStore.currentGeneration, hc] at hg
      cases hg
  | some generation =>
    show (if (looseReader content s.files.objects).hasObject ref then _ else _) = _
    by_cases hh : (looseReader content s.files.objects).hasObject ref = true
    · rw [if_pos hh]; exact hloose hh
    · rw [if_neg hh]
      rcases ha with ha | ⟨generation', hg, hsome⟩
      · exact absurd ha hh
      · rw [PackStore.currentGeneration, hc] at hg
        cases hg
        obtain ⟨found, hfound⟩ := Option.isSome_iff_exists.mp hsome
        have hsame : found = data := content.sha256_injective (((hp _ hc) _ _ hfound).trans hn.1)
        rw [hsame] at hfound
        exact packedReader_open.mpr ⟨hfound, hn.2.symm⟩

theorem available_of_open {s : PackStore Digest}
    (hp : ∀ generation, s.currentGeneration = some generation → ValidPacked content generation.packed)
    (h : (survivingObjectReader content s).openObject ref = .ok data) :
    ref.Names content data ∧ Available s ref.sha256 := by
  unfold survivingObjectReader at h
  cases hc : s.current.bind s.generations.get with
  | none =>
    rw [hc] at h
    obtain ⟨hn, hs⟩ := readObject_names h
    exact ⟨hn, .inl hs⟩
  | some generation =>
    rw [hc] at h
    simp only [fallbackObjectReader] at h
    split at h
    · obtain ⟨hn, hs⟩ := readObject_names h
      exact ⟨hn, .inl hs⟩
    · obtain ⟨hget, _⟩ := packedReader_open.mp h
      exact ⟨packedReader_names (hp _ hc) h, .inr ⟨generation, hc, by rw [hget]; rfl⟩⟩

/-! ## A manifest -/

omit [DecidableEq Digest] in
theorem readParts_transfer {reader' : ObjectReader Digest} : ∀ {parts : List (Fold.Part Digest)} {data : Bytes},
    (∀ part ∈ parts, ∀ bytes, reader.openObject part.object = .ok bytes → reader'.openObject part.object = .ok bytes) →
    readParts reader parts = .ok data → readParts reader' parts = .ok data
  | [], _, _, h => h
  | part :: rest, data, ht, h => by
    unfold readParts at h ⊢
    cases ho : reader.openObject part.object with
    | error e => simp [ho] at h
    | ok bytes =>
      simp only [ho] at h
      cases hr : readParts reader rest with
      | error e => simp [hr] at h
      | ok tail =>
        have ho' := ht part (.head _) bytes ho
        have hr' := readParts_transfer (fun p hp => ht p (.tail _ hp)) hr
        simp only [hr] at h
        simp only [ho', hr', h]

theorem verifyStoredManifest_transfer {reader' : ObjectReader Digest} {manifest : Manifest Digest}
    (ht : ∀ part ∈ manifest.parts, ∀ bytes, reader.openObject part.object = .ok bytes →
      reader'.openObject part.object = .ok bytes) (h : verifyStoredManifest content reader manifest = .ok ()) :
    verifyStoredManifest content reader' manifest = .ok () := by
  unfold verifyStoredManifest at h ⊢
  cases hr : readParts reader manifest.parts with
  | error e => simp [hr] at h
  | ok data => rw [readParts_transfer ht hr]; simpa [hr] using h

theorem verifyManifest_ok {manifest : Manifest Digest} : verifyManifest content reader manifest = .ok () ↔
      validateManifest manifest = .ok () ∧ verifyStoredManifest content reader manifest = .ok () := by
  unfold verifyManifest
  cases h : validateManifest manifest <;> simp

theorem verifyManifests_ok {manifests : List (String × Manifest Digest)} :
    verifyManifests content reader manifests = .ok () ↔ ∀ m ∈ manifests, verifyManifest content reader m.2 = .ok () := by
  induction manifests with
  | nil => simp [verifyManifests]
  | cons m rest ih =>
    obtain ⟨path, manifest⟩ := m
    unfold verifyManifests
    cases h : verifyManifest content reader manifest with
    | error e => simp [h]
    | ok u => simp [h, ih]

theorem verifyObjects_ok {objects : List (Digest × Bytes)} :
    verifyObjects content objects = .ok () ↔ ∀ o ∈ objects, content.sha256 o.2 = o.1 := by
  induction objects with
  | nil => simp [verifyObjects]
  | cons o rest ih =>
    obtain ⟨digest, data⟩ := o
    unfold verifyObjects
    by_cases h : content.sha256 data = digest
    · simp [h, ih]
    · simp [h]

theorem verifyGeneration_ok {generation : Generation Digest} :
    verifyGeneration content generation = .ok () ↔ ValidPacked content generation.packed := by
  unfold verifyGeneration ValidPacked
  rw [verifyObjects_ok]
  constructor
  · intro h digest data hget
    exact h (digest, data) (generation.packed.get_eq_some_iff.mp hget)
  · rintro h ⟨digest, data⟩ hm
    exact h digest data (generation.packed.get_eq_some_iff.mpr hm)

end

end CodexFold.Pack
