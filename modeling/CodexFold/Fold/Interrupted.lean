import CodexFold.Fold.Pieces

/- What a Fold leaves behind, wherever it stops.

   Until its manifest is committed a Fold only adds loose objects, each of them
   valid. The manifest it commits has just been read back, part by part, through
   the loose store and the existing reader. So in every state a Fold can leave,
   a manifest is either one that was there before or one that verifies
   (`fold_leaves`). -/
namespace CodexFold.Fold
open Foundation List

section
variable {Digest : Type} [DecidableEq Digest] {content : Content Digest} {decoder : JsonRaw.Decoder}
  {options : FoldOptions Digest} {base : Store Digest}

/-! ## What was read back -/

theorem readObject_names {objects : Files Digest Bytes} {ref : ObjectRef Digest} {data : Bytes}
    (h : readObject content objects ref = .ok data) :
    ref.Names content data ∧ (objects.get ref.sha256).isSome = true := by
  unfold readObject at h
  cases hget : objects.get ref.sha256 with
  | none => simp [hget] at h
  | some stored =>
    simp only [hget] at h
    cases hd : content.decompress stored with
    | none => simp [hd] at h
    | some raw =>
      simp only [hd, checkObject] at h
      obtain ⟨hl, h⟩ := of_guard h
      obtain ⟨hs, h⟩ := of_guard h
      cases h
      exact ⟨⟨(not_not.mp hs).symm, (not_not.mp hl).symm⟩, rfl⟩

omit [DecidableEq Digest] in
theorem readParts_piece {reader : ObjectReader Digest} : ∀ {parts : List (Part Digest)} {data : Bytes},
    readParts reader parts = .ok data → ∀ part ∈ parts, ∀ bytes,
      reader.openObject part.object = .ok bytes → bytes <:+: data
  | [], _, _, part, hpart => by cases hpart
  | first :: rest, data, h, part, hpart => by
    intro bytes ho
    unfold readParts at h
    split at h
    · cases h
    · next head hhead =>
      split at h
      · cases h
      · next tail htail =>
        cases h
        rcases mem_cons.mp hpart with rfl | hpart
        · rw [hhead] at ho
          cases ho
          exact (prefix_append _ _).isInfix
        · exact (readParts_piece htail part hpart bytes ho).trans (suffix_append _ _).isInfix

theorem verifySourceDigest_ok {data : Bytes} {source : ManifestSource Digest} :
    verifySourceDigest content data source = .ok () ↔
      data.length = source.bytes ∧ content.sha256 data = source.sha256 := by
  unfold verifySourceDigest
  split
  · next h => simp [h]
  · next h =>
    split
    · next h' => simp [h']
    · next h' => simp [not_not.mp h, not_not.mp h']

theorem verifyStoredManifest_ok {reader : ObjectReader Digest} {manifest : Manifest Digest} :
    verifyStoredManifest content reader manifest = .ok () ↔
      ∃ data, readParts reader manifest.parts = .ok data ∧ data.length = manifest.source.bytes ∧
        content.sha256 data = manifest.source.sha256 := by
  unfold verifyStoredManifest
  cases h : readParts reader manifest.parts with
  | error e => simp
  | ok data => simp [verifySourceDigest_ok]

/-! ## What a Fold adds -/

structure ObjectsAdded (content : Content Digest) (base s : Store Digest) : Prop where
  valid : ValidObjects content s.objects
  objects : ∀ digest, (base.objects.get digest).isSome = true → (s.objects.get digest).isSome = true
  manifests : s.manifests = base.manifests
  rollouts : s.rollouts = base.rollouts

/-- What a Fold has checked of the manifest it commits: it is valid, its parts can be
    read back, and it records the rollout `source`. -/
structure Checked (content : Content Digest) (objects : Files Digest Bytes)
    (existing : Option (ObjectReader Digest)) (source : Option Bytes) (manifest : Manifest Digest) : Prop where
  valid : validateManifest manifest = .ok ()
  verifies : verifyStoredManifest content (objectReader content objects existing) manifest = .ok ()
  records : ∃ data, source = some data ∧ verifySourceDigest content data manifest.source = .ok ()

/-- As `ObjectsAdded`, but for the manifest `target` that a Fold of `source` has checked. -/
structure FoldLeft (content : Content Digest) (existing : Option (ObjectReader Digest))
    (target : String) (source : Option Bytes) (base s : Store Digest) : Prop where
  valid : ValidObjects content s.objects
  objects : ∀ digest, (base.objects.get digest).isSome = true → (s.objects.get digest).isSome = true
  manifests : ∀ path manifest, s.manifests.get path = some manifest →
    base.manifests.get path = some manifest ∨ path = target ∧ Checked content s.objects existing source manifest

section

variable {s : Store Digest} (h : ObjectsAdded content base s)
include h

theorem ObjectsAdded.left (existing : Option (ObjectReader Digest)) (target : String) (source : Option Bytes) :
    FoldLeft content existing target source base s :=
  ⟨h.valid, h.objects, fun _ _ hm => .inl (by rw [h.manifests] at hm; exact hm)⟩

theorem ObjectsAdded.set (data : Bytes) :
    ObjectsAdded content base
      { s with objects := s.objects.set (content.sha256 data) (content.compress data) } := by
  refine ⟨h.valid.set_compress data, fun digest hd => ?_, h.manifests, h.rollouts⟩
  simp only [get_set]
  split
  · rfl
  · exact h.objects digest hd

end

theorem putFile_keeps (store : ObjectStore Digest) (data : Bytes) (apply : Bool) :
    Keeps (ObjectsAdded content base) (putFile content store data apply) := by
  unfold putFile
  refine .bind' (.read' _) fun objects => ?_
  cases objects.get (content.sha256 data) with
  | some stored =>
    dsimp only
    split
    · exact .throw' _
    · exact .pure' _
  | none =>
    refine .ite' ?_ (.pure' _)
    refine .bind' (.point' _) fun _ => .bind' (.point' _) fun _ => ?_
    refine .bind' (.point' _) fun _ => ?_
    exact .bind' (.effect' _ _ fun _ h => h.set data) fun _ => .pure' _

theorem put_keeps (store : ObjectStore Digest) (data : Bytes) (apply : Bool) :
    Keeps (ObjectsAdded content base) (put content store data apply) := by
  unfold put
  split
  · exact .ite' (.pure' _) (putFile_keeps _ _ _)
  · exact putFile_keeps _ _ _

theorem appendPart_keeps (kind : PartKind) (path : String) (p : Progress Digest) (data : Bytes) :
    Keeps (ObjectsAdded content base) (appendPart content options kind path p data) := by
  refine .ite' (.pure' _) (.ite' (.pure' _) ?_)
  exact .bind' (put_keeps _ _ _) fun _ => .pure' _

theorem objectsAdded_invariant :
    PartInvariant content options (fun _ _ => ObjectsAdded content base) (ObjectsAdded content base) where
  append _ _ p _ data := appendPart_keeps _ _ p data
  plan p _ data := put_keeps p.store data false
  other _ _ _ _ _ _ h := h
  left _ _ _ h := h

theorem segment_keeps (fuel : Nat) (a : Assembly Digest) (rest : Bytes) :
    Keeps (ObjectsAdded content base) (segment content decoder options fuel a rest) :=
  (segment_spec objectsAdded_invariant fuel ⟨a.chunker, [], a.line, a.oversized⟩ a.progress rest).post
    (fun _ _ ⟨_, h⟩ => h) (fun _ _ h => h) fun _ h => h

theorem FoldLeft.same {existing : Option (ObjectReader Digest)} {target : String} {source : Option Bytes} {s s' : Store Digest}
    (h : FoldLeft content existing target source base s) (ho : s'.objects = s.objects)
    (hm : s'.manifests = s.manifests) : FoldLeft content existing target source base s' :=
  ⟨by rw [ho]; exact h.valid, by rw [ho]; exact h.objects, by rw [ho, hm]; exact h.manifests⟩

omit [DecidableEq Digest] in
theorem syncPending_keeps (I : Store Digest → Prop) (store : ObjectStore Digest) : Keeps I (syncPending store) := by
  refine .ite' (.pure' _) ?_
  refine .bind' (.forEach' fun _ => .point' _) fun _ => ?_
  exact .bind' (.forEach' fun _ => .point' _) fun _ => .point' _

theorem commitManifest_leaves (path : String) (manifest : Manifest Digest) (store : ObjectStore Digest)
    {source : Option Bytes} (hs : ∃ data, source = some data ∧ verifySourceDigest content data manifest.source = .ok ()) :
    Keeps (FoldLeft content options.existingReader path source base) (commitManifest content options path manifest store) := by
  refine Spec.at' fun s h => Spec.readAt ?_
  have hstart : ∀ t, t = s → FoldLeft content options.existingReader path source base t := held h
  refine SpecOr.checked hstart fun _ hstored => SpecOr.after hstart (syncPending_keeps _ store) fun _ => ?_
  refine SpecOr.checked hstart fun _ hvalid => ?_
  refine Spec.pre (P := fun t => FoldLeft content options.existingReader path source base t ∧
    Checked content t.objects options.existingReader source manifest) ?_ fun t ht => ht ▸ ⟨h, hvalid, hstored, hs⟩
  have he : ∀ t, (FoldLeft content options.existingReader path source base t ∧
      Checked content t.objects options.existingReader source manifest) →
      FoldLeft content options.existingReader path source base t := fun _ h => h.1
  refine SpecOr.after he (Keeps.read' _) fun present => SpecOr.after he (Keeps.ensure' _ _) fun _ => ?_
  refine SpecOr.after he (Keeps.effect' _ _ fun _ h => ⟨h.1.same rfl rfl, h.2⟩) fun _ => ?_
  refine SpecOr.point' he fun _ => SpecOr.point' he fun _ => ?_
  refine Spec.bind' (SpecOr.effect' (fun _ h => h.1) ?_) fun _ => Keeps.point' _
  rintro s ⟨h, hm⟩
  refine ⟨h.valid, h.objects, fun path' manifest' hget => ?_⟩
  simp only [get_set] at hget
  split at hget
  · cases hget
    exact .inr ⟨by assumption, hm⟩
  · exact h.manifests path' manifest' hget

theorem verifyCurrentSource_spec (path : String) (source : ManifestSource Digest) :
    SpecOr (ObjectsAdded content base) (verifyCurrentSource content path source) (fun _ s => ObjectsAdded content base s ∧
        ∃ data, base.rollouts.get path = some data ∧ verifySourceDigest content data source = .ok ()) (ObjectsAdded content base) := by
  unfold verifyCurrentSource
  refine .at' fun s h => .readAt ?_
  rw [← h.rollouts]
  cases hfound : s.rollouts.get path with
  | none => exact .throw' _ (held h)
  | some data => exact .ofExcept' _ (fun _ hr t ht => ht ▸ ⟨h, data, rfl, hr⟩) fun _ _ t ht => ht ▸ h

theorem completeFold_leaves (session : Session) (path : String) (p : Progress Digest) :
    LeadsTo (ObjectsAdded content base) (completeFold content options session path p)
      (FoldLeft content options.existingReader path (base.rollouts.get session.rolloutPath) base) := by
  have he : ∀ (s : Store Digest), ObjectsAdded content base s →
      FoldLeft content options.existingReader path (base.rollouts.get session.rolloutPath) base s :=
    fun _ h => h.left _ _ _
  refine .after he (.ensure' _ _) fun _ => .point' he fun _ => ?_
  refine .bind' ((verifyCurrentSource_spec _ _).mono (fun _ _ h => h) he) fun _ => ?_
  intro fs s hs
  -- from here on the checked rollout is a fact, and the state only has to be `FoldLeft`
  suffices hrest : Keeps (FoldLeft content options.existingReader path
      (base.rollouts.get session.rolloutPath) base) _ from hrest fs s (hs.1.left _ _ _)
  refine .ite' (.pure' _) (.bind' (commitManifest_leaves path _ _ hs.2) fun _ => ?_)
  exact .ite' (.bind' (.effect' _ _ fun _ h => h.same rfl rfl) fun _ => .pure' _) (.pure' _)

theorem fold_leaves (hv : ValidObjects content base.objects) (session : Session) (given : FoldOptions Digest) :
    LeadsTo (· = base) (fold content decoder session given)
      (FoldLeft content given.existingReader (given.manifestPath session) (base.rollouts.get session.rolloutPath) base) := by
  have hbase : ∀ s, s = base → ObjectsAdded content base s := by
    rintro _ rfl
    exact ⟨hv, fun _ h => h, rfl, rfl⟩
  refine .pre ?_ hbase
  have he : ∀ (s : Store Digest), ObjectsAdded content base s →
      FoldLeft content given.existingReader (given.manifestPath session) (base.rollouts.get session.rolloutPath) base s :=
    fun _ h => h.left _ _ _
  refine SpecOr.after he (Keeps.read' _) fun checked => SpecOr.after he (Keeps.ofExcept' _) fun _ => ?_
  refine .after he (.read' _) fun rollout => ?_
  cases rollout with
  | none => exact .throw' _ fun _ h => h.left _ _ _
  | some source =>
    refine .point' he fun _ => .point' he fun _ => ?_
    refine .after he (.ofExcept' _) fun chunker => .after he (segment_keeps _ _ _) fun p => ?_
    exact completeFold_leaves session _ p

end

end CodexFold.Fold
