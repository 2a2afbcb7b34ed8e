import CodexFold.Fold.RoundTrip
import CodexFold.Pack.Operations

/- Runs of the store: the operations in any order, each stopping anywhere.

   A process may open a resolver at any time and keep it; the existing reader of a
   later Fold is one of those. Without a condition on it the promise of the store
   can be broken: `stale_reader_loses_manifest` packs an object, retires its loose
   copy, builds a generation without it, and then folds with the old resolver. -/
namespace CodexFold.Pack
open Foundation Fold List Option JsonRaw

section
variable {Digest : Type} [DecidableEq Digest]
variable {s : PackStore Digest}

inductive StoreOp (Digest : Type) where
  | writeRollout (path : String) (data : Bytes)
  | openResolver (lockFree : Bool)
  | fold (session : Session) (given : FoldOptions Digest) (reader : Option Nat)
  | build (options : BuildOptions)
  | retireLoose
  | gc
  | removeGeneration (name : Nat)

def chosenResolver (s : PackStore Digest) (reader : Option Nat) : Option (Resolver Digest) :=
  reader.bind (fun i => s.resolvers[i]?)

def foldStep (content : Content Digest) (decoder : Decoder) (session : Session)
    (given : FoldOptions Digest) (reader : Option Nat) : Prog (PackStore Digest) String Unit := do
  let resolver ← read (fun s => chosenResolver s reader)
  let existingReader := resolver.map (fun r => packedReader r.packed)
  let _ ← onFiles (Fold.fold content decoder session { given with apply := true, existingReader })
  pure ()

def StoreOp.run (content : Content Digest) (decoder : Decoder) :
    StoreOp Digest → Prog (PackStore Digest) String Unit
  | .writeRollout path data =>
    effect "write rollout"
      (fun s => { s with files := { s.files with rollouts := s.files.rollouts.set path data } })
  | .openResolver lockFree => do
    let resolver ← openStore content lockFree
    modify (fun s => { s with resolvers := s.resolvers ++ [resolver] })
  | .fold session given reader => foldStep content decoder session given reader
  | .build options => do
    let _ ← Pack.build content options
    pure ()
  | .retireLoose => Pack.retireLoose content
  | .gc => Pack.gc content
  | .removeGeneration name => Pack.removeGeneration content name

def emptyStore : PackStore Digest where
  files := ⟨.empty, false, .empty, .empty⟩
  generations := .empty
  head := none
  current := none
  storeID := none
  resolvers := []

inductive Reachable (content : Content Digest) (decoder : Decoder)
    (allowed : StoreOp Digest → PackStore Digest → Prop) : PackStore Digest → Prop
  | empty : Reachable content decoder allowed emptyStore
  | step {s : PackStore Digest} (op : StoreOp Digest) (fs : List Fault) :
      Reachable content decoder allowed s → allowed op s →
      Reachable content decoder allowed (op.run content decoder fs s).2.1

def StoreOp.ReaderCurrent : StoreOp Digest → PackStore Digest → Prop
  | .fold session given reader, s => (∀ path, given.manifestPathOverride = some path → manifestName path = true) ∧
    ∀ resolver, chosenResolver s reader = some resolver →
      ∀ source, s.files.rollouts.get session.rolloutPath = some source →
        ∀ entry ∈ resolver.packed.entries, entry.2 <:+: source → Available s entry.1
  | _, _ => True

variable {content : Content Digest} {decoder : Decoder}

/-! ## A Fold with a reader -/

omit [DecidableEq Digest] in
theorem manifestPath_named (session : Session) {given : FoldOptions Digest}
    (h : ∀ path, given.manifestPathOverride = some path → manifestName path = true) :
    manifestName (given.manifestPath session) = true := by
  unfold FoldOptions.manifestPath
  cases hover : given.manifestPathOverride with
  | none => simp [manifestName, Fold.manifestPath]
  | some path => exact h path hover

section

variable (h : Safe content s)
include h

theorem Safe.folded {resolver : Option (Resolver Digest)} {target : String} {source : Option Bytes} {files : Store Digest}
    (hleft : FoldLeft content (resolver.map (fun r => packedReader r.packed)) target source s.files files)
    (htarget : manifestName target = true)
    (hvalid : ∀ r, resolver = some r → ValidPacked content r.packed)
    (huse : ∀ r, resolver = some r → ∀ data, source = some data → ∀ entry ∈ r.packed.entries, entry.2 <:+: data → Available s entry.1) :
    Safe content { s with files } := by
  have hgrow : ∀ digest, Available s digest → Available { s with files } digest := by
    rintro digest (ha | ha)
    · exact .inl (hleft.objects digest ha)
    · exact .inr ha
  refine ⟨hleft.valid, h.packed, h.resolvers, fun path manifest hm => ?_, fun path manifest hm => ?_⟩
  · rcases hleft.manifests path manifest hm with hold | ⟨rfl, -⟩
    · exact h.named path manifest hold
    · exact htarget
  rcases hleft.manifests path manifest hm with hold | ⟨-, _, hver, data, hsource, hdigest⟩
  · refine surviving_verifies (s := { s with files }) hleft.valid h.current (h.manifests path manifest hold) ?_
    intro part _ bytes ho
    obtain ⟨hn, ha⟩ := available_of_open h.current ho
    exact ⟨hn, hgrow _ ha⟩
  · refine surviving_verifies (s := { s with files }) hleft.valid h.current hver fun part hpart bytes ho => ?_
    -- the parts read back are pieces of the rollout
    obtain ⟨whole, hread, _, hsha⟩ := verifyStoredManifest_ok.mp hver
    have hwhole : whole = data :=
      content.sha256_injective (hsha.trans (verifySourceDigest_ok.mp hdigest).2.symm)
    have hpiece : bytes <:+: data := hwhole ▸ readParts_piece hread part hpart bytes ho
    cases resolver with
    | none =>
      obtain ⟨hn, hs⟩ := readObject_names ho
      exact ⟨hn, .inl hs⟩
    | some r =>
      simp only [map_some, objectReader, fallbackObjectReader] at ho
      split at ho
      · obtain ⟨hn, hs⟩ := readObject_names ho
        exact ⟨hn, .inl hs⟩
      · obtain ⟨hget, _⟩ := packedReader_open.mp ho
        refine ⟨packedReader_names (hvalid r rfl) ho, hgrow _ ?_⟩
        exact huse r rfl data hsource _ (r.packed.get_eq_some_iff.mp hget) hpiece

theorem foldStep_safe (session : Session) (given : FoldOptions Digest) (reader : Option Nat)
    (huse : (StoreOp.fold session given reader).ReaderCurrent s) :
    LeadsTo (· = s) (foldStep content decoder session given reader) (Safe content) := by
  unfold foldStep
  have hvalid : ∀ r, chosenResolver s reader = some r → ValidPacked content r.packed := by
    intro r hr
    obtain ⟨i, _, hi⟩ := bind_eq_some_iff.mp hr
    exact h.resolvers r (mem_of_getElem? hi)
  refine .readAt (.bind' (.onPart' ?_) fun _ => Keeps.pure' ())
  rintro u rfl
  have htarget := manifestPath_named session huse.1
  exact (fold_leaves h.loose session _).mono (fun _ _ hl => h.folded hl htarget hvalid huse.2) fun _ hl =>
    h.folded hl htarget hvalid huse.2

/-! ## Every run -/

theorem StoreOp.run_safe (op : StoreOp Digest) (hop : op.ReaderCurrent s) (fs : List Fault) :
    Safe content (op.run content decoder fs s).2.1 := by
  cases op with
  | writeRollout path data =>
    refine Spec.state (Keeps.effect' _ _ fun t ht => ?_) fs h
    exact { ht with }
  | openResolver lockFree =>
    refine Spec.state (Spec.bind' (openStore_spec lockFree) fun resolver => ?_) fs h
    refine Spec.modify' _ ?_
    rintro t ⟨ht, generation, hget, he⟩
    refine ⟨ht.loose, ht.packed, fun r hr => ?_, ht.named, ht.manifests⟩
    rcases mem_append.mp hr with hr | hr
    · exact ht.resolvers r hr
    · rw [mem_singleton.mp hr, ← he]
      exact ht.packed _ generation hget
  | fold session given reader =>
    show Safe content (foldStep content decoder session given reader fs s).2.1
    have hspec : Post _ _ _ (foldStep content decoder session given reader fs s) :=
      foldStep_safe h session given reader hop fs s rfl
    match hr : foldStep content decoder session given reader fs s with
    | (.done _, _, _) | (.failed _, _, _) | (.crashed, _, _) => rw [hr] at hspec; exact hspec
  | build options => exact Spec.state (Keeps.bind' (build_safe options) fun _ => Keeps.pure' _) fs h
  | retireLoose => exact Spec.state retireLoose_safe fs h
  | gc => exact Spec.state gc_safe fs h
  | removeGeneration name => exact Spec.state (removeGeneration_safe name) fs h

end

theorem emptyStore_safe : Safe content (emptyStore : PackStore Digest) :=
  ⟨fun _ _ h => by simp [emptyStore] at h, fun _ _ h => by simp [emptyStore] at h,
    fun _ h => by simp [emptyStore] at h, fun _ _ h => by simp [emptyStore] at h, fun _ _ h => by simp [emptyStore] at h⟩

theorem Reachable.safe (h : Reachable content decoder StoreOp.ReaderCurrent s) : Safe content s := by
  induction h with
  | empty => exact emptyStore_safe
  | step op fs _ hop ih => exact op.run_safe ih hop fs

/-- Store safety: in every store that Folds, Builds, loose retirements, GCs and
    generation removals can leave, each stopping anywhere, every committed manifest
    is reconstructed to its recorded bytes and SHA-256 from the loose objects and the
    generation named by `CURRENT`, provided that no Fold was given a name for its manifest
    that the walks skip, nor a reader that offered it an object no longer available. -/
theorem store_safety (content : Content Digest) (decoder : Decoder) (s : PackStore Digest)
    (h : Reachable content decoder StoreOp.ReaderCurrent s) (path : String) (manifest : Manifest Digest)
    (hm : s.files.manifests.get path = some manifest) :
    ∃ data, readParts (survivingObjectReader content s) manifest.parts = .ok data ∧
      data.length = manifest.source.bytes ∧ content.sha256 data = manifest.source.sha256 :=
  verifyStoredManifest_ok.mp (h.safe.manifests path manifest hm)

end

/-! ## Runs without a fault -/

def runAll : List (StoreOp Bytes) → PackStore Bytes → PackStore Bytes
  | [], s => s
  | op :: rest, s => runAll rest (op.run .plain blankDecoder [] s).2.1

theorem runAll_reachable {allowed : StoreOp Bytes → PackStore Bytes → Prop} :
    ∀ (ops : List (StoreOp Bytes)) (s : PackStore Bytes), (∀ op ∈ ops, ∀ t, allowed op t) →
      Reachable .plain blankDecoder allowed s → Reachable .plain blankDecoder allowed (runAll ops s)
  | [], _, _, h => h
  | op :: rest, s, hops, h =>
    runAll_reachable rest _ (fun o ho => hops o (.tail _ ho))
      (.step op [] h (hops op (.head _) s))

def sessionCalled (id : String) : Session := ⟨id, "", "", id, true⟩

def packedRun : List (StoreOp Bytes) :=
  [.writeRollout "a" [65], .fold (sessionCalled "a") applyOptions none, .build ⟨1, 7, .small⟩, .openResolver true,
    .retireLoose, .writeRollout "b" [65]]

def reusingFold : StoreOp Bytes := .fold (sessionCalled "b") applyOptions (some 0)

theorem store_safety_reused_object :
    (((reusingFold.run .plain blankDecoder [] (runAll packedRun emptyStore)).2.1.files.manifests.get
        "b.json").map (fun m => m.source) = some ⟨1, [65]⟩) ∧
    ∀ path manifest,
      (reusingFold.run .plain blankDecoder [] (runAll packedRun emptyStore)).2.1.files.manifests.get
        path = some manifest →
      ∃ data, readParts (survivingObjectReader .plain
          (reusingFold.run .plain blankDecoder [] (runAll packedRun emptyStore)).2.1)
          manifest.parts = .ok data ∧
        data.length = manifest.source.bytes ∧ Content.plain.sha256 data = manifest.source.sha256 := by
  refine ⟨by decide +kernel, fun path manifest hm => store_safety .plain blankDecoder _
    (.step reusingFold [] (runAll_reachable packedRun emptyStore ?_ .empty) ?_) path manifest hm⟩
  · intro op hop t
    simp only [packedRun, mem_cons, not_mem_nil, or_false] at hop
    rcases hop with rfl | rfl | rfl | rfl | rfl | rfl <;> first | trivial | exact ⟨nofun, nofun⟩
  · -- the resolver's generation is still the current one
    have hoffer : ((runAll packedRun emptyStore).resolvers.all fun r => r.packed.entries.all fun e =>
        (((runAll packedRun emptyStore).currentGeneration.bind (fun g => g.packed.get e.1)).isSome)) = true := by
      decide +kernel
    refine ⟨nofun, fun resolver hr source _ entry hentry _ => ?_⟩
    have hmem : resolver ∈ (runAll packedRun emptyStore).resolvers := mem_of_getElem? hr
    have hsome := List.all_eq_true.mp (List.all_eq_true.mp hoffer resolver hmem) entry hentry
    obtain ⟨data, hdata⟩ := isSome_iff_exists.mp hsome
    obtain ⟨generation, hcur, hget⟩ := bind_eq_some_iff.mp hdata
    exact .inr ⟨generation, hcur, by rw [hget]; rfl⟩

/-! ## A stale reader -/

/-- After `a` was packed and retired it is folded again with other bytes and packed
    again: the new generation has no use for the first object. The fold of `b`, with
    the bytes `a` had at first, takes that object from the old resolver. -/
def staleReaderRun : List (StoreOp Bytes) :=
  packedRun ++ [.writeRollout "a" [66],
    .fold (sessionCalled "a") { applyOptions with overwrite := true } none, .build ⟨2, 7, .small⟩, reusingFold]

theorem stale_reader_loses_manifest :
    ∃ s : PackStore Bytes, Reachable .plain blankDecoder (fun _ _ => True) s ∧
      ∃ manifest, s.files.manifests.get "b.json" = some manifest ∧
        ∀ data, readParts (survivingObjectReader .plain s) manifest.parts ≠ .ok data := by
  refine ⟨runAll staleReaderRun emptyStore, runAll_reachable _ _ (fun _ _ _ => trivial) .empty, ?_⟩
  have hlost : (((runAll staleReaderRun emptyStore).files.manifests.get "b.json").map fun m =>
      (readParts (survivingObjectReader .plain (runAll staleReaderRun emptyStore)) m.parts).isOk) =
        some false := by decide +kernel
  obtain ⟨manifest, hget, hread⟩ := map_eq_some_iff.mp hlost
  refine ⟨manifest, hget, fun data hdata => ?_⟩
  rw [hdata] at hread
  cases hread

end CodexFold.Pack
