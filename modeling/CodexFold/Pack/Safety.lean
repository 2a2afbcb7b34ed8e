import CodexFold.Pack.Readers

/- Store safety: every committed manifest can be reconstructed from the loose
   objects and the generation named by `CURRENT`.

   Fold, Build, RetireLoose, the fold GC and the removal of generations run in any
   order, each able to stop after any file effect. All of them look at the store
   as it is under the objects lock, with one exception: the existing reader of a
   Fold is a resolver that was opened at some earlier time. A Fold that reuses an
   object from a generation that is no longer current can commit a manifest whose
   object is nowhere else (`stale_reader_loses_manifest`). As long as each object
   a Fold could take from its reader is still available, the store stays safe
   (`store_safety`). -/
namespace CodexFold.Pack
open Foundation Fold Option

section
variable {Digest : Type} [DecidableEq Digest] {content : Content Digest}
variable {s s' : PackStore Digest} {name : Nat}

structure Safe (content : Content Digest) (s : PackStore Digest) : Prop where
  loose : ValidObjects content s.files.objects
  packed : ∀ name generation, s.generations.get name = some generation →
    ValidPacked content generation.packed
  resolvers : ∀ resolver ∈ s.resolvers, ValidPacked content resolver.packed
  named : ∀ path manifest, s.files.manifests.get path = some manifest → manifestName path = true
  manifests : ∀ path manifest, s.files.manifests.get path = some manifest →
    verifyStoredManifest content (survivingObjectReader content s) manifest = .ok ()

theorem Safe.listed (h : Safe content s) {path : String} {manifest : Manifest Digest}
    (hm : s.files.manifests.get path = some manifest) : s.files.listed.get path = some manifest :=
  Store.listed_get.mpr ⟨h.named path manifest hm, hm⟩

theorem Safe.current (h : Safe content s) (generation : Generation Digest)
    (hc : s.currentGeneration = some generation) : ValidPacked content generation.packed := by
  obtain ⟨name, _, hget⟩ := bind_eq_some_iff.mp hc
  exact h.packed name generation hget

theorem surviving_verifies (hl : ValidObjects content s.files.objects)
    (hp : ∀ generation, s.currentGeneration = some generation → ValidPacked content generation.packed)
    {reader : ObjectReader Digest} {manifest : Manifest Digest}
    (h : verifyStoredManifest content reader manifest = .ok ())
    (hr : ∀ part ∈ manifest.parts, ∀ bytes, reader.openObject part.object = .ok bytes →
      part.object.Names content bytes ∧ Available s part.object.sha256) :
    verifyStoredManifest content (survivingObjectReader content s) manifest = .ok () :=
  verifyStoredManifest_transfer (fun part hpart bytes ho =>
    surviving_open hl hp (hr part hpart bytes ho).1 (hr part hpart bytes ho).2) h

theorem Safe.step (h : Safe content s) (loose : ValidObjects content s'.files.objects)
    (packed : ∀ name generation, s'.generations.get name = some generation →
      ValidPacked content generation.packed) (resolvers : s'.resolvers = s.resolvers)
    (manifests : ∀ path manifest, s'.files.manifests.get path = some manifest →
      s.files.manifests.get path = some manifest ∧
        ∀ part ∈ manifest.parts, Available s part.object.sha256 → Available s' part.object.sha256) : Safe content s' := by
  have hcurrent : ∀ generation, s'.currentGeneration = some generation →
      ValidPacked content generation.packed := by
    intro generation hc
    obtain ⟨name, _, hget⟩ := bind_eq_some_iff.mp hc
    exact packed name generation hget
  refine ⟨loose, packed, by rw [resolvers]; exact h.resolvers,
    fun path manifest hm => h.named path manifest (manifests path manifest hm).1, fun path manifest hm => ?_⟩
  obtain ⟨hold, hav⟩ := manifests path manifest hm
  refine surviving_verifies loose hcurrent (h.manifests path manifest hold) fun part hpart bytes ho => ?_
  obtain ⟨hn, ha⟩ := available_of_open h.current ho
  exact ⟨hn, hav part hpart ha⟩

structure SameContents (s s' : PackStore Digest) : Prop where
  files : s'.files = s.files
  current : s'.current = s.current
  resolvers : s'.resolvers = s.resolvers
  packed : ∀ name, (s'.generations.get name).map Generation.packed =
    (s.generations.get name).map Generation.packed

omit [DecidableEq Digest] in
theorem SameContents.generation (h : SameContents s s')
    {generation : Generation Digest} (hget : s.generations.get name = some generation) :
    ∃ generation', s'.generations.get name = some generation' ∧ generation'.packed = generation.packed := by
  have hmap := h.packed name
  rw [hget] at hmap
  exact map_eq_some_iff.mp hmap

omit [DecidableEq Digest] in
theorem SameContents.symm (h : SameContents s s') : SameContents s' s :=
  ⟨h.files.symm, h.current.symm, h.resolvers.symm, fun name => (h.packed name).symm⟩

theorem Safe.same (h : Safe content s) (hs : SameContents s s') : Safe content s' := by
  refine h.step (by rw [hs.files]; exact h.loose) ?_ hs.resolvers
    fun path manifest hm => ⟨by rwa [hs.files] at hm, ?_⟩
  · intro name generation hget
    obtain ⟨generation', hget', he⟩ := hs.symm.generation hget
    rw [← he]
    exact h.packed name generation' hget'
  · rintro part - (ha | ⟨generation, hcur, hsome⟩)
    · exact .inl (by rw [hs.files]; exact ha)
    · -- the current generation keeps its objects
      obtain ⟨name, hname, hget⟩ := bind_eq_some_iff.mp hcur
      obtain ⟨generation', hget', he⟩ := hs.generation hget
      refine .inr ⟨generation', ?_, by rw [he]; exact hsome⟩
      exact bind_eq_some_iff.mpr ⟨name, by rw [hs.current]; exact hname, hget'⟩

omit [DecidableEq Digest] in
theorem updateGeneration_same (s : PackStore Digest) (name : Nat) {f : Generation Digest → Generation Digest}
    (hf : ∀ g, (f g).packed = g.packed) : SameContents s (s.updateGeneration name f) := by
  unfold PackStore.updateGeneration
  cases hget : s.generations.get name with
  | none => exact ⟨rfl, rfl, rfl, fun _ => rfl⟩
  | some generation =>
    refine ⟨rfl, rfl, rfl, fun name' => ?_⟩
    by_cases hn : name' = name
    · subst hn
      simp [hget, hf]
    · simp [hn]

/-! ## Publication -/

def Promotable (content : Content Digest) (name : Nat) (s : PackStore Digest) : Prop :=
  ∃ generation, s.generations.get name = some generation ∧
    ∀ path manifest, s.files.listed.get path = some manifest →
      verifyStoredManifest content (packedReader generation.packed) manifest = .ok ()

theorem Safe.publish (h : Safe content s)
    (hp : Promotable content name s) : Safe content { s with current := some name } := by
  obtain ⟨generation, hget, hver⟩ := hp
  have hcur : ({ s with current := some name } : PackStore Digest).currentGeneration = some generation := hget
  refine { h with manifests := fun path manifest hm => ?_ }
  refine surviving_verifies (s := { s with current := some name }) h.loose ?_ (hver path manifest (h.listed hm))
    fun part hpart bytes ho => ?_
  · intro generation' hc
    rw [hcur] at hc
    cases hc
    exact h.packed name generation hget
  · have hget' := (packedReader_open.mp ho).1
    exact ⟨packedReader_names (h.packed name generation hget) ho, .inr ⟨generation, hcur, by rw [hget']; rfl⟩⟩

def Ready (content : Content Digest) (name : Nat) (s : PackStore Digest) : Prop :=
  Safe content s ∧ Promotable content name s

theorem Ready.same (h : Ready content name s) (hs : SameContents s s') : Ready content name s' := by
  refine ⟨h.1.same hs, ?_⟩
  obtain ⟨generation, hget, hver⟩ := h.2
  obtain ⟨generation', hget', he⟩ := hs.generation hget
  refine ⟨generation', hget', fun path manifest hm => ?_⟩
  rw [he]
  exact hver path manifest (by rwa [hs.files] at hm)

variable {I : PackStore Digest → Prop}

omit [DecidableEq Digest] in
theorem replaceAtomically_keeps (message : String) {f : PackStore Digest → PackStore Digest} (hf : ∀ s, I s → I (f s)) :
    Keeps I (replaceAtomically message f) :=
  .bind' (.point' _) fun _ => .bind' (.effect' _ _ hf) fun _ => .point' _

section Metadata
variable {I : PackStore Digest → Prop} (hI : ∀ s s', I s → SameContents s s' → I s')
include hI

omit [DecidableEq Digest] in
theorem publishPublicationHead_keeps (marker : PublishedGeneration Digest) : Keeps I (publishPublicationHead marker) := by
  refine .bind' (.read' _) fun found => ?_
  cases found with
  | none => exact .throw' _
  | some onDisk => exact replaceAtomically_keeps _ fun s h => hI s _ h ⟨rfl, rfl, rfl, fun _ => rfl⟩

omit [DecidableEq Digest] in
theorem markGenerationPublished_keeps (random generation sequence : Nat) (previous : Option Nat) :
    Keeps I (markGenerationPublished random generation sequence previous) := by
  refine .bind' (.ensure' _ _) fun _ => .bind' ?_ fun identity => ?_
  · unfold loadOrCreatePackStoreIdentity
    refine .bind' (.read' _) fun found => ?_
    cases found with
    | some identity => exact .pure' _
    | none =>
      refine .bind' ?_ fun _ => .pure' _
      exact replaceAtomically_keeps _ fun s h => hI s _ h ⟨rfl, rfl, rfl, fun _ => rfl⟩
  · refine .bind' (.read' _) fun found => ?_
    cases found with
    | none => exact .throw' _
    | some recovery =>
      refine .bind' ?_ fun _ => .pure' _
      exact replaceAtomically_keeps _ fun s h => hI s _ h (updateGeneration_same s _ fun _ => rfl)

theorem legacyRecovery_keeps (generation : Nat) : Keeps I (legacyRecovery content generation) := by
  have hwrite : ∀ directory, Keeps I (writeLegacyGenerationRecoveryArchive content generation directory) := by
    intro directory
    refine .bind' (.read' _) fun _ => .bind' (.ofExcept' _) fun _ => ?_
    exact replaceAtomically_keeps _ fun s h => hI s _ h (updateGeneration_same s _ fun _ => rfl)
  refine .bind' (.read' _) fun found => ?_
  cases found with
  | none => exact .throw' _
  | some directory =>
    refine .bind' (.ofExcept' _) fun _ => ?_
    split
    · exact .ite' (hwrite _) (.throw' _)
    · split
      · exact .pure' _
      · exact .ite' (hwrite _) (.throw' _)

theorem legacyMarker_keeps (random generation : Nat) : Keeps I (legacyMarker random generation) := by
  refine .bind' (.read' _) fun found => ?_
  cases found with
  | none => exact .throw' _
  | some directory =>
    refine .ite' ?_ (.ofExcept' _)
    refine .bind' (.read' _) fun _ => .bind' (.ensure' _ _) fun _ => ?_
    exact markGenerationPublished_keeps hI _ _ _ _

end Metadata

theorem publishCurrent_safe (name : Nat) : LeadsTo (Ready content name) (publishCurrent name) (Safe content) := by
  refine SpecOr.point' (fun _ h => h.1) fun _ => ?_
  refine .bind' (M := fun _ => Safe content) (SpecOr.effect' (fun _ h => h.1) (fun _ h => h.1.publish h.2)) fun _ => ?_
  exact Keeps.point' _

/-! ## Promotion and recovery -/

theorem verifyLive_ok {manifests : Files String (Manifest Digest)} {recovery : Recovery Digest}
    {reader : ObjectReader Digest} (h : verifyRecoveryAndLiveManifests content manifests recovery reader = .ok ()) :
    ∀ path manifest, manifests.get path = some manifest → verifyStoredManifest content reader manifest = .ok () := by
  intro path manifest hm
  unfold verifyRecoveryAndLiveManifests at h
  split at h
  · cases h
  · have hall := verifyManifests_ok.mp h (path, manifest) (manifests.get_eq_some_iff.mp hm)
    exact (verifyManifest_ok.mp hall).2

theorem checkPromotion_ok (h : checkPromotion content name s = .ok ()) : Promotable content name s := by
  unfold checkPromotion at h
  cases hget : s.generations.get name with
  | none => simp [hget] at h
  | some directory =>
    simp only [hget] at h
    obtain ⟨_, _, h⟩ := of_bind h
    obtain ⟨recovery, _, h⟩ := of_bind h
    obtain ⟨_, _, h⟩ := of_bind h
    exact ⟨directory, hget, verifyLive_ok h⟩

theorem promote_safe (marker : PublishedGeneration Digest) (updateHead : Bool) :
    Keeps (Safe content) (promotePublishedGenerationLocked content marker updateHead) := by
  unfold promotePublishedGenerationLocked
  refine Spec.at' fun s h => Spec.readAt (SpecOr.checked (held h) fun _ hchecked => ?_)
  refine Spec.pre (P := Ready content marker.generation) ?_ fun t ht => ht ▸ ⟨h, checkPromotion_ok hchecked⟩
  have hpublish : LeadsTo (Ready content marker.generation)
      (publishCurrent marker.generation >>= fun _ => pure marker.generation) (Safe content) :=
    Spec.bind' (publishCurrent_safe _) fun _ => Keeps.pure' _
  refine .ite' (fun _ => ?_) fun _ => hpublish
  exact SpecOr.after (fun _ h => h.1) (publishPublicationHead_keeps (fun _ _ h hs => Ready.same h hs) marker) fun _ => hpublish

theorem recover_keeps (hp : ∀ marker updateHead, Keeps I (promotePublishedGenerationLocked content marker updateHead)) :
    Keeps I (recoverCurrentGenerationLocked content) := by
  refine .bind' (.read' _) fun _ => .bind' (.ofExcept' _) fun _ => ?_
  refine .bind' (.read' _) fun _ => .bind' (.ofExcept' _) fun successor => ?_
  cases successor with
  | some marker => exact hp marker true
  | none => exact hp _ false

theorem recover_safe : Keeps (Safe content) (recoverCurrentGenerationLocked content) :=
  recover_keeps promote_safe

theorem currentOrRecovered_keeps (hrecover : Keeps I (recoverCurrentGenerationLocked content)) (lockFree : Bool) :
    Keeps I (currentOrRecoveredGeneration content lockFree) := by
  refine .bind' (.read' _) fun current => .bind' (.read' _) fun head => ?_
  cases current with
  | none => exact .ite' (.throw' _) hrecover
  | some generation =>
    cases head with
    | error _ => exact .pure' _
    | ok found =>
      refine .ite' (.pure' _) (.ite' (.pure' _) (.ite' (.pure' _) hrecover))

def Holds (s : PackStore Digest) (resolver : Resolver Digest) : Prop :=
  ∃ generation, s.generations.get resolver.generation = some generation ∧ generation.packed = resolver.packed

omit [DecidableEq Digest] in
theorem openGeneration_spec (name : Nat) :
    SpecOr I (openGeneration name) (fun resolver s => I s ∧ Holds s resolver) I := by
  unfold openGeneration
  refine .at' fun s h => .readAt ?_
  cases hfound : s.generations.get name with
  | none => exact .throw' _ (held h)
  | some directory => exact .pure' _ fun t ht => ht ▸ ⟨h, directory, hfound, rfl⟩

omit [DecidableEq Digest] in
theorem openPrevious_keeps (previous : Option Nat) : Keeps I (openPrevious previous) := by
  cases previous with
  | none => exact .pure' _
  | some generation =>
    refine .bind' ?_ fun _ => .pure' _
    exact (openGeneration_spec generation).weaken fun _ _ h => h.1

theorem openStore_spec (lockFree : Bool) :
    SpecOr (Safe content) (openStore content lockFree) (fun resolver s => Safe content s ∧ Holds s resolver) (Safe content) :=
  .bind' (currentOrRecovered_keeps recover_safe lockFree) openGeneration_spec

end

end CodexFold.Pack
