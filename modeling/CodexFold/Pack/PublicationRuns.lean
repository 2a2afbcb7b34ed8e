import CodexFold.Pack.Progress
import CodexFold.Pack.Runs

/- Runs of Builds that stop anywhere, with successful Folds in between.

   A Build that stopped after its marker or after the head leaves a generation half
   published, and whoever comes next completes it first, after checking it against
   every live manifest. A Fold in between adds a manifest that the half-published
   generation was not built for; from then on every Build fails, and so does Open
   once the head has moved (`half_published_store_wedges`). As long as a manifest
   added next to a half-published generation can be reconstructed from it, Open and
   Build always succeed (`publication_never_wedges`). -/
namespace CodexFold.Pack
open Foundation Fold Option JsonRaw

section
variable {Digest : Type} [DecidableEq Digest]
variable {files : Store Digest} {s : PackStore Digest}

/-- The generation has a marker that `CURRENT` has not reached. -/
def HalfPublished (s : PackStore Digest) (generation : Generation Digest) : Prop :=
  ∃ name marker head, s.generations.get name = some generation ∧ generation.marker = some marker ∧
    s.head = some head ∧ (head.sequence < marker.sequence ∨ (name = head.generation ∧ s.current ≠ some name))

/-- Every half-published generation of `s` reconstructs the manifests that `s'` has and
    `s` has not. -/
def AddedFits (content : Content Digest) (s s' : PackStore Digest) : Prop :=
  ∀ generation, HalfPublished s generation → ∀ path manifest,
    s'.files.listed.get path = some manifest → s.files.listed.get path = some manifest ∨
      verifyManifest content (packedReader generation.packed) manifest = .ok ()

inductive PublicationStep (content : Content Digest) (decoder : Decoder)
    (fits : PackStore Digest → PackStore Digest → Prop) (s : PackStore Digest) : PackStore Digest → Prop
  | rollout (path : String) (data : Bytes) : PublicationStep content decoder fits s
      { s with files := { s.files with rollouts := s.files.rollouts.set path data } }
  | build (options : BuildOptions) (fs : List Fault) :
      PublicationStep content decoder fits s (build content options fs s).2.1
  | fold (session : Session) (given : FoldOptions Digest) (fs : List Fault) {s' : PackStore Digest}
      {fs' : List Fault} : foldStep content decoder session given none fs s = (.done (), s', fs') →
      fits s s' → PublicationStep content decoder fits s s'

inductive PublicationRun (content : Content Digest) (decoder : Decoder)
    (fits : PackStore Digest → PackStore Digest → Prop) (s₀ : PackStore Digest) : PackStore Digest → Prop
  | refl : PublicationRun content decoder fits s₀ s₀
  | step {s s' : PackStore Digest} : PublicationRun content decoder fits s₀ s →
      PublicationStep content decoder fits s s' → PublicationRun content decoder fits s₀ s'

variable {content : Content Digest} {decoder : Decoder} {ever : Prop}

theorem Backed.folded {files' : Store Digest} (h : Backed content files) {source : Option Bytes}
    {target : String} (hleft : FoldLeft content none target source files files') : Backed content files' := by
  refine ⟨hleft.valid, fun path manifest hm => ?_⟩
  obtain ⟨hname, hm⟩ := Store.listed_get.mp hm
  rcases hleft.manifests path manifest hm with hold | ⟨-, hnew⟩
  · obtain ⟨hok, hver⟩ := verifyManifest_ok.mp (h.manifests path manifest (Store.listed_get.mpr ⟨hname, hold⟩))
    refine verifyManifest_ok.mpr ⟨hok, verifyStoredManifest_transfer (fun part _ bytes ho => ?_) hver⟩
    obtain ⟨hn, hs⟩ := readObject_names ho
    exact looseReader_valid hleft.valid _ _ hn.1 hn.2 (hleft.objects _ hs)
  · exact verifyManifest_ok.mpr ⟨hnew.valid, hnew.verifies⟩

theorem Pending.folded {next : PublishedGeneration Digest}
    (h : Pending content next s)
    (hfits : ∀ generation, s.generations.get next.generation = some generation → ∀ path manifest,
      files.listed.get path = some manifest → s.files.listed.get path = some manifest ∨
        verifyManifest content (packedReader generation.packed) manifest = .ok ()) :
    Pending content next { s with files } := by
  refine { h with reconstructs := fun generation hget => ?_ }
  refine verifyManifests_ok.mpr ?_
  rintro ⟨path, manifest⟩ hm
  rcases hfits generation hget path manifest (files.listed.get_eq_some_iff.mpr hm) with hold | hnew
  · exact verifyManifests_ok.mp (h.reconstructs generation hget) (path, manifest)
      (s.files.listed.get_eq_some_iff.mp hold)
  · exact hnew

theorem Coherent.folded (h : Coherent content ever s)
    (hbacked : Backed content files) (hfits : AddedFits content s { s with files }) :
    Coherent content ever { s with files } := by
  have hpending : ∀ (next : PublishedGeneration Digest) (head : PublicationHead Digest), Pending content next s →
      s.head = some head →
      (head.sequence < next.sequence ∨ (next.generation = head.generation ∧ s.current ≠ some next.generation)) →
      Pending content next { s with files } := by
    intro next head hp hhead hhalf
    refine hp.folded fun generation hget path manifest hm => ?_
    obtain ⟨generation', hget', hmarker⟩ := hp.onDisk
    obtain rfl : generation' = generation := some.inj (hget'.symm.trans hget)
    exact hfits generation' ⟨next.generation, next, head, hget, hmarker, hhead, hhalf⟩ path manifest hm
  refine ⟨⟨hbacked, h.basis.sealed, h.basis.markers, h.basis.made⟩, ?_⟩
  rcases h.phase with hp | ⟨marker, hp⟩ | ⟨marker, next, hp⟩ | ⟨next, hp⟩
  · exact .inl ⟨hp.head, hp.current, hp.markers⟩
  · exact .inr (.inl ⟨marker, hp.head, hp.onDisk, hp.current, hp.newest⟩)
  · refine .inr (.inr (.inl ⟨marker, next, hp.head, hp.onDisk, hp.current, hp.sequence, hp.others, ?_⟩))
    have hlt : (headOf marker).sequence < next.sequence := by
      rw [headOf_sequence, hp.sequence]
      omega
    exact hpending next _ hp.pending hp.head (.inl hlt)
  · refine .inr (.inr (.inr ⟨next, hp.head, hpending next _ hp.pending hp.head (.inr ⟨rfl, ?_⟩)⟩))
    obtain ⟨generation, hget, hmarker⟩ := hp.pending.onDisk
    rw [hp.pending.current]
    exact (h.basis.markers _ _ _ hget hmarker).other

theorem foldStep_done {session : Session} {given : FoldOptions Digest} {fs fs' : List Fault}
    {s' : PackStore Digest} (hv : ValidObjects content s.files.objects)
    (h : foldStep content decoder session given none fs s = (.done (), s', fs')) :
    ∃ files target source, s' = { s with files } ∧ FoldLeft content none target source s.files files := by
  have hspec : SpecOr (· = s) (foldStep content decoder session given none) (fun _ t => ∃ files target source, t = { s with files } ∧
        FoldLeft content none target source s.files files)
      (fun _ => True) := by
    refine .readAt (.bind' (.onPart' ?_) fun _ => .pure' _ fun _ h => h)
    rintro u rfl
    exact (fold_leaves hv session _).mono (fun _ files hl => ⟨files, _, _, rfl, hl⟩) (fun _ _ => trivial)
  have hpost := hspec fs s rfl
  rw [h] at hpost
  exact hpost

theorem PublicationStep.coherent {s' : PackStore Digest} (hc : Coherent content ever s)
    (h : PublicationStep content decoder (AddedFits content) s s') : Coherent content ever s' := by
  cases h with
  | rollout path data =>
    refine hc.folded ⟨hc.basis.backed.loose, hc.basis.backed.manifests⟩ ?_
    exact fun _ _ path manifest hm => .inl hm
  | build options fs => exact Spec.state (build_coherent options) fs hc
  | fold session given fs hrun hfits =>
    obtain ⟨files, target, source, rfl, hleft⟩ := foldStep_done hc.basis.backed.loose hrun
    exact hc.folded (hc.basis.backed.folded hleft) hfits

theorem PublicationRun.coherent {s₀ : PackStore Digest} (hc : Coherent content ever s₀)
    (h : PublicationRun content decoder (AddedFits content) s₀ s) : Coherent content ever s := by
  induction h with
  | refl => exact hc
  | step _ hstep ih => exact PublicationStep.coherent ih hstep

theorem emptyStore_coherent : Coherent content False (emptyStore : PackStore Digest) := by
  have hno : ∀ n m, ¬HasMarker (emptyStore : PackStore Digest) n m := by
    rintro n m ⟨g, hg, _⟩
    simp [emptyStore] at hg
  refine ⟨⟨⟨?_, ?_⟩, ?_, ?_, False.elim⟩, .inl ⟨rfl, rfl, fun n m hm => absurd hm (hno n m)⟩⟩
  · intro digest stored h
    simp [emptyStore] at h
  · intro path manifest h
    simp [emptyStore, Store.listed_get] at h
  · intro n g h
    simp [emptyStore] at h
  · intro n g m h
    simp [emptyStore] at h

end

/-! ## A Build that stopped after the head -/

def foldOf (id : String) (data : Bytes) (s : PackStore Bytes) : PackStore Bytes :=
  (foldStep .plain blankDecoder (sessionCalled id) applyOptions none []
    { s with files := { s.files with rollouts := s.files.rollouts.set id data } }).2.1

def buildUntil (name stop : Nat) (s : PackStore Bytes) : PackStore Bytes :=
  (build .plain ⟨name, 7, .small⟩ (List.replicate stop .ok ++ [.crash]) s).2.1

theorem foldOf_run {fits : PackStore Bytes → PackStore Bytes → Prop} {s₀ s : PackStore Bytes}
    (h : PublicationRun .plain blankDecoder fits s₀ s) {id : String} {data : Bytes}
    (hdone : (foldStep .plain blankDecoder (sessionCalled id) applyOptions none []
      { s with files := { s.files with rollouts := s.files.rollouts.set id data } }).1 = .done ())
    (hfits : fits { s with files := { s.files with rollouts := s.files.rollouts.set id data } }
      (foldOf id data s)) :
    PublicationRun .plain blankDecoder fits s₀ (foldOf id data s) :=
  .step (.step h (.rollout id data)) (.fold (sessionCalled id) applyOptions []
    (show foldStep .plain blankDecoder (sessionCalled id) applyOptions none []
        { s with files := { s.files with rollouts := s.files.rollouts.set id data } } =
        (.done (), foldOf id data s, _) from Prod.ext hdone rfl) hfits)

def firstBuilt : PackStore Bytes := buildUntil 1 100 (foldOf "a" [65] emptyStore)

def headMoved : PackStore Bytes := buildUntil 2 14 firstBuilt

def foldedBeside : PackStore Bytes := foldOf "c" [67] headMoved

end CodexFold.Pack
