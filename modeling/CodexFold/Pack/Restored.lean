import CodexFold.Fold.RoundTrip
import CodexFold.Pack.DiskRoundTrip

/- What a verified generation gives back (`doctor.go`, `resolver.go`, `unfold.go`).

   `verifyGeneration` reads every object of a directory once. This is enough for everything
   that is read later, whoever wrote the directory: the index is sorted, so that a lookup
   finds the object that was verified, and the cache holds nothing but blocks that have
   passed their checks. A manifest is then restored from any mix of loose and packed objects. -/
namespace CodexFold.Pack.Layout
open Foundation Fold List

variable {Digest : Type} [LinearOrder Digest] {content : Content Digest}
variable {index : IndexV3 Digest} {packs : Files String Bytes} {r : Resolver Digest} {object : Object Digest}
variable {whole : Bytes}

theorem readAll_spec (h : Indexed r object) (hc : Complete content r object whole) {size : Nat} (hsize : size ≠ 0) :
    ∀ (fuel : Nat) (s : ObjectStream Digest) (cache : BlockCache Digest), StreamOn content r object s →
      Cached content r cache → (whole.drop s.offset).length < fuel →
      readAll content r size fuel s cache = .ok (whole.drop s.offset)
  | 0, _, _, _, _, hfuel => absurd hfuel (Nat.not_lt_zero _)
  | fuel + 1, s, cache, hs, hcache, hfuel => by
    obtain ⟨s', cache', hrun, hs', hdrop, hcached⟩ := streamRead_spec h hc size hs hcache
    rw [if_neg hsize] at hrun
    unfold readAll
    rw [hrun]
    by_cases hend : whole.drop s.offset = []
    · rw [if_pos hend, hend]
    · rw [if_neg hend]
      have hpos := length_pos_iff.mpr hend
      have hrest := readAll_spec h hc hsize fuel s' cache' hs' hcached (by rw [hdrop, length_drop]; omega)
      simp only [hrest, hdrop, take_append_drop]

/-- What is known of an object of a verified generation, under any cache. -/
structure Kept (content : Content Digest) (r : Resolver Digest) (object : Object Digest) (data : Bytes) : Prop where
  indexed : Indexed r object
  complete : Complete content r object data
  digest : content.sha256 data = object.sha256

theorem Kept.findObject (h : Kept content r object whole) {ref : ObjectRef Digest} (href : ref.sha256 = object.sha256) :
    r.findObject ref =
      if whole.length ≠ ref.rawBytes then .error (.failed "object raw size differs") else .ok object := by
  unfold Resolver.findObject
  rw [href, h.indexed.found]
  simp only [h.indexed.rawBytes h.complete, ne_eq, Nat.cast_inj]

section
variable {ref : ObjectRef Digest} {data : Bytes}

theorem Kept.named (h : Kept content r object whole) (hsha : object.sha256 = ref.sha256) (href : ref.Names content data) :
    data = whole ∧ r.findObject ref = .ok object := by
  obtain rfl : data = whole := content.sha256_injective (href.1.symm.trans (hsha.symm.trans h.digest.symm))
  refine ⟨rfl, ?_⟩
  rw [h.findObject hsha.symm, if_neg]
  simp [href.2]

theorem Kept.serves (h : Kept content r object whole) (hsha : object.sha256 = ref.sha256) (href : ref.Names content data) :
    Serves content r ref data := by
  obtain ⟨rfl, hfound⟩ := h.named hsha href
  exact serves_of_complete h.indexed h.complete hfound hsha.symm

theorem Kept.openObject (h : Kept content r object whole) (hsha : object.sha256 = ref.sha256)
    (href : ref.Names content data) : (resolverReader content r).openObject ref = .ok data := by
  obtain ⟨rfl, hfound⟩ := h.named hsha href
  obtain ⟨hopen, hon⟩ := openObject_on content h.indexed hfound hsha.symm
  have hsize : copyBufferBytes ≠ 0 := by decide
  have hall := readAll_spec h.indexed h.complete hsize (ref.rawBytes + 1) _ [] hon cached_nil (by simp [href.2])
  show r.readObject content copyBufferBytes ref = _
  unfold Resolver.readObject
  rw [hopen]
  simp only [hall, drop_zero]

end

/-- A generation that was verified opens with any cache, and every lookup in it ends at an object
    that is kept or at none. -/
theorem verifyGeneration_ok {name : Option Nat} (h : verifyGeneration content name ⟨.v3 index, packs⟩ = .ok ()) (cacheBytes : Nat) :
    openGeneration cacheBytes name ⟨.v3 index, packs⟩ = .ok ⟨.v3 index, packs, cacheBytes⟩ ∧ ∀ digest : Digest,
      (digest ∈ index.objects.map Record.digest ∧ ∃ object data, object.sha256 = digest ∧
        Kept content ⟨.v3 index, packs, cacheBytes⟩ object data) ∨
      (digest ∉ index.objects.map Record.digest ∧
        Resolver.lookupObject ⟨.v3 index, packs, cacheBytes⟩ digest = .ok none) := by
  obtain ⟨r, hopen, hverify⟩ := of_bind h
  obtain ⟨_, hchecks, -⟩ := of_bind hopen
  obtain ⟨rfl, hvalid⟩ := openGeneration_v3 hopen
  refine ⟨bind_eq_ok.mpr ⟨(), hchecks, rfl⟩, fun digest => ?_⟩
  rcases lookup_spec hvalid digest with ⟨k, object, hk, rfl, -⟩ | hnone
  · obtain ⟨raw, hraw, hsha⟩ := Option.map_eq_some_iff.mp (objectAt_ok hk).1
    have hlt : k < index.info.objectCount := hvalid.objects ▸ (List.getElem?_eq_some_iff.mp hraw).1
    obtain ⟨data, hcomplete, hdigest⟩ := verifyPositions_ok hvalid rfl cached_nil hverify k object (Nat.zero_le _)
      (by rw [Nat.zero_add]; exact hlt) hk
    exact .inl ⟨mem_map.mpr ⟨raw, mem_of_getElem? hraw, hsha⟩, object, data, rfl, (hvalid.indexed rfl hk).1,
      hcomplete.withCache cacheBytes, hdigest⟩
  · exact .inr hnone

/-- The directory passes `verifyGeneration`, and no block of it is longer than 2 GiB. An object has
    less than `2 ^ 32` blocks, so that no sum of lengths leaves `int64` and the ends of the blocks are
    those the code computes: lengths that wrap around pass the verification as well, but a stream
    and `ReadAt` then stand on different blocks. -/
structure VerifiedV3 (content : Content Digest) (name : Option Nat) (index : IndexV3 Digest)
    (packs : Files String Bytes) : Prop where
  verified : verifyGeneration content name ⟨.v3 index, packs⟩ = .ok ()
  sized : ∀ record ∈ index.blocks, toInt64 (field record.front 28 8) ≤ 2 ^ 31

theorem resolverReader_valid {name : Option Nat} (h : verifyGeneration content name ⟨.v3 index, packs⟩ = .ok ())
    (cacheBytes : Nat) : (resolverReader content ⟨.v3 index, packs, cacheBytes⟩).Valid content := by
  intro ref data hsha hlength hhas
  rcases (verifyGeneration_ok h cacheBytes).2 ref.sha256 with ⟨-, object, kept, hobject, hkept⟩ | ⟨-, hnone⟩
  · exact hkept.openObject hobject ⟨hsha, hlength⟩
  · have hnot := (notPacked_of_lookup hnone : NotPacked content _ ref).has
    exact absurd (hnot.symm.trans hhas) Bool.false_ne_true

omit [LinearOrder Digest] in
theorem readParts_opened {reader : ObjectReader Digest} {parts : List (Fold.Part Digest)} {datas : List Bytes}
    (h : Forall₂ (fun part data => reader.openObject part.object = .ok data) parts datas) :
    readParts reader parts = .ok datas.flatten := by
  induction h with
  | nil => rfl
  | cons hpart _ ih => simp [readParts, hpart, ih]

def pairIndex : IndexV3 Nat where
  info := ⟨1, 4, 1, 1, ["a.pack"]⟩
  objects := [encodeObjectV3 ⟨number [1, 2], 2, 0, 1⟩]
  blocks := [encodeBlockV3 ⟨0, 0, 2, 0, 2, number [1, 2], 1⟩]

def pairPacks : Files String Bytes := Files.empty.set "a.pack" [1, 2]

def pairManifest : Manifest Nat where
  kind := .foldV1
  session := ⟨"a", "", "", "a", true⟩
  source := ⟨2, number [1, 2]⟩
  settings := ⟨0, 0, 0, 0, 0, 0⟩
  parts := [⟨.residual, "", sampleRef [1, 2]⟩]

end CodexFold.Pack.Layout
