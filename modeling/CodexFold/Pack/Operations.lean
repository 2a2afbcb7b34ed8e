import CodexFold.Pack.Safety

/- Each operation on the store keeps it safe, and so does every run of them.

   Build publishes a generation only after it has reconstructed every live manifest
   from it; RetireLoose removes only loose objects that the current generation
   holds; the GC removes only objects without a reference; a generation that is
   removed is not the current one. A Fold keeps the store safe if the objects it
   can take from its existing reader are available. -/
namespace CodexFold.Pack
open Foundation Fold List Option

section
variable {Digest : Type} [DecidableEq Digest] {content : Content Digest}
variable {s : PackStore Digest}

/-! ## Build -/

theorem recoveredBase_keeps (I : PackStore Digest → Prop) (message : String) (recovered : Nat) :
    Keeps I (recoveredBase message recovered) := by
  refine .bind' (.read' _) fun _ => .bind' (.ofExcept' _) fun _ => ?_
  exact .bind' (.ensure' _ _) fun _ => .pure' _

theorem currentPublicationForBuild_keeps {I : PackStore Digest → Prop} (hI : ∀ s s', I s → SameContents s s' → I s')
    (hp : ∀ marker updateHead, Keeps I (promotePublishedGenerationLocked content marker updateHead))
    (random : Nat) : Keeps I (currentPublicationForBuild content random) := by
  have hmigrate : ∀ generation, Keeps I (migrateLegacyCurrentPublication content random generation) := by
    intro generation
    refine .bind' (legacyRecovery_keeps hI _) fun _ => .bind' (legacyMarker_keeps hI _ _) fun marker => ?_
    refine .bind' (.read' _) fun _ => .bind' (.ofExcept' _) fun tip => ?_
    refine .ite' (.bind' (hp tip true) fun _ => .pure' _) ?_
    exact .bind' (publishPublicationHead_keeps hI marker) fun _ => .pure' _
  refine .bind' (.read' _) fun current => .bind' (.read' _) fun present => ?_
  refine .ite' ?_ ?_
  · cases current with
    | none => exact .pure' _
    | some generation => exact .bind' (hmigrate _) fun _ => .pure' _
  · refine .bind' (.read' _) fun _ => .bind' (.ofExcept' _) fun _ => ?_
    refine .bind' (.read' _) fun pending => .ite' ?_ (.ite' (.throw' _) ?_)
    · refine .bind' (.ofExcept' _) fun successor => ?_
      cases successor with
      | none => exact .pure' _
      | some next => exact .bind' (hp next true) fun _ => recoveredBase_keeps _ _ _
    · exact .bind' (recover_keeps hp) fun _ => recoveredBase_keeps _ _ _

theorem currentPublicationForBuild_safe (random : Nat) :
    Keeps (Safe content) (currentPublicationForBuild content random) :=
  currentPublicationForBuild_keeps (fun _ _ h hs => h.same hs) promote_safe random

def Complete (content : Content Digest) (files : Store Digest) (candidate : Generation Digest) : Prop :=
  ValidPacked content candidate.packed ∧
    ∀ path manifest, files.listed.get path = some manifest →
      verifyStoredManifest content (packedReader candidate.packed) manifest = .ok ()

theorem buildCandidate_complete {files : Store Digest} {previous : Option (Files Digest Bytes)}
    {candidate : Generation Digest} (h : buildCandidate content files previous = .ok candidate) :
    Complete content files candidate := by
  obtain ⟨_, _, h⟩ := of_bind h
  obtain ⟨packed, _, h⟩ := of_bind h
  obtain ⟨_, _, h⟩ := of_bind h
  obtain ⟨_, hvalid, h⟩ := of_bind h
  obtain ⟨_, _, h⟩ := of_bind h
  obtain ⟨_, hlive, h⟩ := of_bind h
  cases h
  exact ⟨verifyGeneration_ok.mp hvalid, verifyLive_ok hlive⟩

variable {name : Nat}

theorem Safe.addGeneration (h : Safe content s) (hfree : s.generations.get name = none) {candidate : Generation Digest}
    (hc : Complete content s.files candidate) :
    Ready content name { s with generations := s.generations.set name candidate } := by
  refine ⟨h.step h.loose ?_ rfl fun path manifest hm => ⟨hm, ?_⟩, candidate, by simp, hc.2⟩
  · intro name' generation hget
    simp only [get_set] at hget
    split at hget
    · cases hget
      exact hc.1
    · exact h.packed name' generation hget
  · rintro part - (ha | ⟨generation, hcur, hsome⟩)
    · exact .inl ha
    · refine .inr ⟨generation, ?_, hsome⟩
      obtain ⟨current, hname, hget⟩ := bind_eq_some_iff.mp hcur
      have hne : current ≠ name := by
        rintro rfl
        rw [hfree] at hget
        cases hget
      refine bind_eq_some_iff.mpr ⟨current, hname, ?_⟩
      simpa [hne] using hget

theorem publishGeneration_safe (options : BuildOptions) (previousGeneration : Option Nat)
    (previousSequence : Nat) (candidate : Generation Digest) :
    LeadsTo (fun s => Safe content s ∧ Complete content s.files candidate)
      (publishGeneration options previousGeneration previousSequence candidate) (Safe content) := by
  have hI : ∀ s s' : PackStore Digest, Ready content options.suffix s → SameContents s s' →
      Ready content options.suffix s' := fun _ _ h hs => h.same hs
  have he : ∀ (s : PackStore Digest), Ready content options.suffix s → Safe content s :=
    fun _ h => h.1
  refine .at' fun s ⟨h, hc⟩ => .readAt (.ensured (held h) fun hfree => ?_)
  have hfree : s.generations.get options.suffix = none := by simpa using hfree
  refine Spec.bind' (M := fun _ => Ready content options.suffix)
    (SpecOr.effect' (held h) fun t ht => ht ▸ h.addGeneration hfree hc) fun _ => ?_
  refine SpecOr.point' he fun _ => SpecOr.point' he fun _ => ?_
  refine SpecOr.after he (Keeps.ensure' _ _) fun _ => ?_
  refine SpecOr.after he (markGenerationPublished_keeps hI _ _ _ _) fun marker => ?_
  refine SpecOr.after he (publishPublicationHead_keeps hI marker) fun _ => ?_
  exact SpecOr.point' he fun _ => publishCurrent_safe _

theorem build_safe (options : BuildOptions) : Keeps (Safe content) (build content options) := by
  unfold build
  refine Keeps.bind' (Keeps.point' _) fun _ => Keeps.bind' (currentPublicationForBuild_safe _) fun base => ?_
  refine .bind' (.point' _) fun _ => .bind' (openPrevious_keeps _) fun previous => ?_
  refine .bind' (.point' _) fun _ => .bind' (.point' _) fun _ => Spec.at' fun s h => Spec.readAt ?_
  refine SpecOr.checked (held h) fun candidate hcandidate => SpecOr.after (held h) (Keeps.ofExcept' _) fun _ => ?_
  refine SpecOr.point' (held h) fun _ => ?_
  refine Spec.bind' ((publishGeneration_safe options _ _ candidate).pre fun t ht => ?_) fun _ => Keeps.pure' _
  exact ht ▸ ⟨h, buildCandidate_complete hcandidate⟩

/-! ## Removing loose objects -/

theorem Safe.eraseLoose (h : Safe content s) {digest : Digest}
    (hd : (∀ path manifest, s.files.manifests.get path = some manifest →
        ∀ part ∈ manifest.parts, part.object.sha256 ≠ digest) ∨
      ∃ generation, s.currentGeneration = some generation ∧ (generation.packed.get digest).isSome) :
    Safe content { s with files := { s.files with objects := s.files.objects.erase digest } } := by
  refine h.step ?_ h.packed rfl fun path manifest hm => ⟨hm, fun part hpart ha => ?_⟩
  · intro digest' stored hget
    exact h.loose digest' stored (get_of_erase hget)
  · by_cases he : part.object.sha256 = digest
    · rcases hd with hd | ⟨generation, hcur, hsome⟩
      · exact absurd he (hd path manifest hm part hpart)
      · exact .inr ⟨generation, hcur, by rw [he]; exact hsome⟩
    · rcases ha with ha | ha
      · exact .inl (by simpa [he] using ha)
      · exact .inr ha

theorem retireObject_safe (resolver : Resolver Digest) (digest : Digest) :
    Keeps (fun s => Safe content s ∧ Holds s resolver) (retireObject content resolver digest) := by
  unfold retireObject
  cases hpacked : resolver.packed.get digest with
  | none => exact Keeps.pure' _
  | some data =>
    refine Keeps.bind' (Keeps.read' _) fun _ => Keeps.bind' (Keeps.ofExcept' _) fun _ => ?_
    refine Keeps.bind' (Keeps.point' _) fun _ => Keeps.bind' (Keeps.ofExcept' _) fun _ => ?_
    refine Spec.at' fun s h => Spec.readAt (Spec.ensured (held h) fun hcurrent => ?_)
    refine SpecOr.effect' (fun t ht => ht ▸ h) fun t ht => ?_
    subst ht
    obtain ⟨h, generation, hget, he⟩ := h
    refine ⟨h.eraseLoose (.inr ⟨generation, ?_, by rw [he, hpacked]; rfl⟩), generation, hget, he⟩
    rw [PackStore.currentGeneration, of_decide_eq_true hcurrent]
    exact hget

theorem retireLoose_safe : Keeps (Safe content) (retireLoose content) := by
  unfold retireLoose
  refine Keeps.bind' (Keeps.point' _) fun _ => Keeps.bind' (Keeps.point' _) fun _ => ?_
  refine Spec.bind' (openStore_spec false) fun resolver => ?_
  refine .post (Q := fun _ s => Safe content s ∧ Holds s resolver) (E := fun _ s => Safe content s ∧ Holds s resolver)
    (C := fun s => Safe content s ∧ Holds s resolver) ?_ (fun _ _ h => h.1) (fun _ _ h => h.1) (fun _ h => h.1)
  refine Keeps.bind' (Keeps.read' _) fun _ => Keeps.bind' (Keeps.ofExcept' _) fun _ => ?_
  refine .bind' (.read' _) fun candidates => ?_
  exact .bind' (.forEach' (retireObject_safe resolver)) fun _ => .point' _

omit [DecidableEq Digest] in
theorem referencedManifestObjects_ok : ∀ {manifests : List (String × Manifest Digest)} {referenced : List Digest},
    referencedManifestObjects manifests = .ok referenced →
    ∀ m ∈ manifests, ∀ part ∈ m.2.parts, part.object.sha256 ∈ referenced
  | [], _, _ => by simp
  | (path, manifest) :: rest, referenced, h => by
    unfold referencedManifestObjects at h
    split at h
    · cases h
    · split at h
      · cases h
      · next others hrest =>
        cases h
        intro m hm part hpart
        rcases mem_cons.mp hm with rfl | hm
        · exact mem_append_left _ (List.mem_map.mpr ⟨part, hpart, rfl⟩)
        · exact mem_append_right _ (referencedManifestObjects_ok hrest m hm part hpart)

theorem collectObject_safe (referenced : List Digest) (digest : Digest) :
    Keeps (Safe content) (collectObject content referenced digest) := by
  refine Keeps.ite' (Keeps.pure' _) ?_
  refine .bind' (.read' _) fun _ => .bind' (.ofExcept' _) fun _ => ?_
  refine .bind' (.point' _) fun _ => Spec.at' fun s h => Spec.readAt ?_
  refine SpecOr.checked (held h) fun now hnow => Spec.ite' (fun _ => .pure' _ (held h)) fun hnot => ?_
  refine SpecOr.effect' (held h) fun t ht => ht ▸ h.eraseLoose (.inl ?_)
  intro path manifest hm part hpart he
  rw [← he] at hnot
  exact hnot (referencedManifestObjects_ok hnow (path, manifest) (s.files.listed.get_eq_some_iff.mp (h.listed hm)) part hpart)

theorem gc_safe : Keeps (Safe content) (gc content) := by
  refine .bind' (.read' _) fun _ => .bind' (.ofExcept' _) fun _ => ?_
  refine .bind' (.point' _) fun _ => .bind' (.point' _) fun _ => ?_
  refine .bind' (.read' _) fun _ => .bind' (.ofExcept' _) fun referenced => ?_
  exact .bind' (.read' _) fun _ => .forEach' (collectObject_safe referenced)

/-! ## Removing a generation -/

theorem authorizeRemoval_ok {generation : Generation Digest} (h : authorizeRemoval content name generation s = .ok ()) :
    s.current ≠ some name := by
  unfold authorizeRemoval at h
  split at h
  · cases h
  · cases h
  · next current _ hc _ =>
    obtain ⟨hne, h⟩ := of_guard h
    rw [hc]
    exact fun he => hne (some.inj he).symm

theorem Safe.otherGeneration (h : Safe content s) (hn : s.current ≠ some name)
    {generations : Files Nat (Generation Digest)}
    (hother : ∀ name', name' ≠ name → generations.get name' = s.generations.get name')
    (hvalid : ∀ generation, generations.get name = some generation → ValidPacked content generation.packed) :
    Safe content { s with generations } := by
  refine h.step h.loose ?_ rfl fun path manifest hm => ⟨hm, ?_⟩
  · intro name' generation hget
    by_cases hne : name' = name
    · subst hne
      exact hvalid generation hget
    · exact h.packed name' generation (by rw [← hother name' hne]; exact hget)
  · rintro part - (ha | ⟨generation, hcur, hsome⟩)
    · exact .inl ha
    · obtain ⟨current, hname, hget⟩ := bind_eq_some_iff.mp hcur
      have hne : current ≠ name := by
        rintro rfl
        exact hn hname
      exact .inr ⟨generation, bind_eq_some_iff.mpr ⟨current, hname, by rw [hother current hne]; exact hget⟩,
        hsome⟩

theorem removeGeneration_safe (name : Nat) : Keeps (Safe content) (removeGeneration content name) := by
  unfold removeGeneration
  refine Spec.at' fun s h => Spec.readAt ?_
  have he : ∀ t, t = s → Safe content t := held h
  cases hfound : s.generations.get name with
  | none => exact Spec.pure' _ he
  | some generation =>
    refine Spec.ite' (fun _ => Spec.pure' _ he) fun _ => SpecOr.point' he fun _ => SpecOr.point' he fun _ => ?_
    refine Spec.readAt (SpecOr.checked he fun _ hauthorized => ?_)
    -- from the authorization on, the generation is known not to be current
    refine Spec.pre (P := fun t => (Safe content t ∧ ValidPacked content generation.packed) ∧ t.current ≠ some name) ?_
      fun t ht => ht ▸ ⟨⟨h, h.packed name generation hfound⟩, authorizeRemoval_ok hauthorized⟩
    refine SpecOr.after (fun _ h => h.1.1) (Keeps.effect' _ _ fun s h => ⟨⟨h.1.1.otherGeneration h.2 ?_ ?_, h.1.2⟩, h.2⟩) fun _ => ?_
    · intro name' hne
      simp [hne]
    · intro generation' hget
      simp at hget
    refine SpecOr.after (fun _ h => h.1.1) (Spec.attempt' (Keeps.point' _)) fun staged => ?_
    cases staged with
    | ok _ => exact SpecOr.final' (fun _ h => h.1.1) fun _ h => h.1.1
    | error e =>
      refine Spec.bind' (SpecOr.effect' (fun _ h => h.1.1) ?_) fun _ => Keeps.throw' _
      intro s h
      refine h.1.1.otherGeneration h.2 ?_ ?_
      · intro name' hne
        simp [hne]
      · intro generation' hget
        rw [get_set_self] at hget
        cases hget
        exact h.1.2

end

end CodexFold.Pack
