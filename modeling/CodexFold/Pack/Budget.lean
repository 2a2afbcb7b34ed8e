import CodexFold.Pack.DiskRoundTrip

/- The number of blocks a build is charged for (`internal/pack/incremental_budget.go`).

   `estimateGenerationMetadata` counts the full blocks of the raw bytes and one partial block
   an object. An object that is taken over keeps the blocks it has, though, and those may have
   been cut smaller. -/
namespace CodexFold.Pack.Layout
open Foundation Fold List

section
variable {Digest : Type} [LinearOrder Digest]

/-- The blocks `estimateGenerationMetadata` charges for. -/
def estimatedBlocks (blockBytes : Int) (references : List (Digest × Nat)) : Nat :=
  (references.map Prod.snd).sum / blockBytes.toNat + references.length

def blocksOf (options : BuildOptions) (objects : Files Digest Bytes) (previous : Option (Nat × Resolver Digest))
    (row : Digest × Nat) : Nat :=
  match reusable options objects previous ⟨row.1, row.2, 0⟩ with
  | .ok (some (_, _, object)) => object.blocks.length
  | _ => (row.2 + options.blockBytes.toNat - 1) / options.blockBytes.toNat

def Directory.blockRecords (directory : Directory Digest) : Nat :=
  match directory.index with
  | .v3 index => index.blocks.length
  | .legacy _ => 0

variable {content : Content Digest} {reuseKey : String → String} {options : BuildOptions}
  {previous : Option (Nat × Resolver Digest)} {objects : Files Digest Bytes} {size : Nat}

theorem splitBlocks_count (hsize : 0 < size) (fuel : Nat) (data : Bytes) (h : data.length < fuel) :
    (splitBlocks size fuel data).flatten = data ∧ (splitBlocks size fuel data).length = (data.length + size - 1) / size := by
  induction fuel generalizing data with
  | zero => omega
  | succ fuel ih =>
    rw [splitBlocks]
    by_cases hdata : data = []
    · rw [if_pos hdata, hdata]
      exact ⟨rfl, (Nat.div_eq_of_lt (by simp; omega)).symm⟩
    · have hpos := length_pos_of_ne_nil hdata
      obtain ⟨hflatten, hcount⟩ := ih (data.drop size) (by rw [length_drop]; omega)
      rw [if_neg hdata, flatten_cons, hflatten, take_append_drop, length_cons, hcount, length_drop]
      refine ⟨rfl, ?_⟩
      rw [show data.length + size - 1 = data.length - 1 + size by omega, Nat.add_div_right _ hsize]
      by_cases hle : size ≤ data.length
      · rw [show data.length - size + size - 1 = data.length - 1 by omega]
      · rw [Nat.div_eq_of_lt (by omega), Nat.div_eq_of_lt (by omega)]

theorem encodeObject_blocks (hsize : 0 < options.blockBytes) {row : Digest × Nat} {d d' : Draft Digest}
    (h : encodeObject content reuseKey options objects previous ⟨row.1, row.2, 0⟩ d = .ok d') :
    d'.blocks.length = d.blocks.length + blocksOf options objects previous row := by
  obtain ⟨reused, hreused, h⟩ := of_bind h
  rw [blocksOf, hreused]
  cases reused with
  | some found =>
    obtain ⟨next, hnext, h⟩ := of_bind h
    cases h
    exact (reuseBlocks_records hnext).2
  | none =>
    obtain ⟨data, _, h⟩ := of_bind h
    obtain ⟨⟨next, rawOffset, count⟩, hnext, h⟩ := of_bind h
    obtain ⟨hverified, h⟩ := of_guard h
    cases h
    obtain ⟨-, hblocks, htotal⟩ := encodeBlocks_records hnext
    obtain ⟨hflatten, hcount⟩ := splitBlocks_count (Int.pos_iff_toNat_pos.mp hsize) _ data (Nat.lt_succ_self _)
    -- what was read has the length of the reference
    have hlength : rawOffset = row.2 := not_not.mp (not_or.mp hverified).1
    rw [hflatten, Nat.zero_add, hlength] at htotal
    rw [hcount, ← htotal] at hblocks
    exact hblocks

theorem encodeObjects_blocks (hsize : 0 < options.blockBytes) : ∀ {rows : List (Digest × Nat)} {d d' : Draft Digest},
    encodeObjects content reuseKey options objects previous rows d = .ok d' →
    d'.blocks.length = d.blocks.length + (rows.map (blocksOf options objects previous)).sum
  | [], d, d', h => by
    cases h
    rfl
  | row :: rest, d, d', h => by
    obtain ⟨next, hnext, hrest⟩ := of_bind h
    rw [encodeObjects_blocks hsize hrest, encodeObject_blocks hsize hnext, map_cons, sum_cons, Nat.add_assoc]

theorem withDefaults_blockBytes (requested : BuildOptions) : 0 < requested.withDefaults.blockBytes := by
  unfold BuildOptions.withDefaults defaultBlockBytes
  dsimp only
  split <;> omega

structure CutAt (blockBytes : Int) (object : Object Digest) : Prop where
  covered : Contiguous 0 object.blocks object.rawBytes
  full : ∀ block ∈ object.blocks.dropLast, blockBytes ≤ block.rawBytes

omit [LinearOrder Digest] in
theorem Contiguous.full_le {blockBytes : Int} : ∀ {blocks : List (Block Digest)} {offset total : Int},
    Contiguous offset blocks total → (∀ block ∈ blocks.dropLast, blockBytes ≤ block.rawBytes) →
    offset + (blocks.length - 1 : Nat) * blockBytes ≤ total
  | [], _, _, h, _ => by simpa using h.le
  | [_], _, _, h, _ => by simpa using h.le
  | first :: second :: rest, offset, total, h, hfull => by
    have hrest := Contiguous.full_le h.2.2 fun block hb => hfull block (.tail _ hb)
    have hfirst := hfull first (.head _)
    rw [show (first :: second :: rest).length - 1 = ((second :: rest).length - 1) + 1 by simp]
    push_cast
    rw [add_mul]
    omega

omit [LinearOrder Digest] in
theorem CutAt.length_le {object : Object Digest} {bytes : Nat} (h : CutAt (size : Int) object) (hsize : 0 < size)
    (hraw : object.rawBytes = bytes) : object.blocks.length ≤ bytes / size + 1 := by
  have hle := h.covered.full_le h.full
  rw [hraw, zero_add] at hle
  have hdiv := (Nat.le_div_iff_mul_le hsize).mpr (by exact_mod_cast hle)
  omega

/-- The objects of the previous generation are cut at least as large as the build cuts. -/
def PreviousCutAt (blockBytes : Int) (previous : Option (Nat × Resolver Digest)) : Prop :=
  ∀ generation r, previous = some (generation, r) →
    ∀ digest object, r.lookupObject digest = .ok (some object) → CutAt blockBytes object

theorem reusable_some {ref : ObjectRef Digest} {generation : Nat} {r : Resolver Digest} {object : Object Digest}
    (h : reusable options objects previous ref = .ok (some (generation, r, object))) :
    previous = some (generation, r) ∧ r.lookupObject ref.sha256 = .ok (some object) ∧ object.rawBytes = ref.rawBytes := by
  unfold reusable at h
  split at h
  · next hprevious _ =>
    split at h
    · cases h
    · cases h
    · next hlookup =>
      split at h
      · next hfits =>
        cases h
        exact ⟨rfl, hlookup, hfits.1⟩
      · cases h
  · cases h

theorem blocksOf_le (hsize : 0 < options.blockBytes) (hcut : PreviousCutAt options.blockBytes previous) (row : Digest × Nat) :
    blocksOf options objects previous row ≤ row.2 / options.blockBytes.toNat + 1 := by
  have hpos : 0 < options.blockBytes.toNat := Int.pos_iff_toNat_pos.mp hsize
  unfold blocksOf
  split
  · next generation r object hreused =>
    obtain ⟨hprevious, hlookup, hraw⟩ := reusable_some hreused
    have hobject := hcut generation r hprevious _ object hlookup
    rw [← Int.toNat_of_nonneg hsize.le] at hobject
    exact hobject.length_le hpos hraw
  · rw [← Nat.add_div_right _ hpos]
    exact Nat.div_le_div_right (by omega)

omit [LinearOrder Digest] in
theorem sum_blocks_le (rows : List (Digest × Nat)) {blocks : Digest × Nat → Nat} (h : ∀ row, blocks row ≤ row.2 / size + 1) :
    (rows.map blocks).sum ≤ (rows.map Prod.snd).sum / size + rows.length := by
  induction rows with
  | nil => simp
  | cons row rest ih =>
    have hrow := h row
    have hdiv : row.2 / size + (rest.map Prod.snd).sum / size ≤ (row.2 + (rest.map Prod.snd).sum) / size :=
      Nat.div_add_div_le_add_div
    simp only [map_cons, sum_cons, length_cons]
    omega

theorem lookup_objectAt {index : IndexV3 Digest} {digest : Digest} {object : Object Digest}
    (h : index.lookup digest = .ok (some object)) : ∃ k, index.objectAt k = .ok object := by
  obtain ⟨position, _, h⟩ := of_bind h
  split at h
  · cases h
  · obtain ⟨record, hrecord, h⟩ := of_bind h
    split at h
    · cases h
    · obtain ⟨found, hfound, h⟩ := of_bind h
      cases h
      exact ⟨position, bind_eq_ok.mpr ⟨record, hrecord, hfound⟩⟩

end

def packedIndex : IndexV3 Nat :=
  match (packedStore.directories.get 1).map Directory.index with
  | some (.v3 index) => index
  | _ => ⟨⟨0, 0, 0, 0, []⟩, [], []⟩

def packedResolver : Resolver Nat :=
  ⟨.v3 packedIndex, ((packedStore.directories.get 1).map Directory.packs).getD .empty, 0⟩

theorem packedResolver_cut : PreviousCutAt 4 (some (1, packedResolver)) := by
  intro generation r hr digest object hlookup
  cases hr
  have hindex : packedResolver.lookupObject digest = packedIndex.lookup digest := lookupObject_v3 rfl digest
  obtain ⟨k, hk⟩ := lookup_objectAt (hindex ▸ hlookup)
  have hall : ∀ k < 2, ((packedIndex.objectAt k).toOption.all fun object =>
      object.blocks.dropLast.all fun block => decide (4 ≤ block.rawBytes)) = true := by decide +kernel
  have hcount : packedIndex.info.objectCount = 2 := by decide +kernel
  obtain ⟨-, -, hlt, hcovered⟩ := objectAt_ok hk
  refine ⟨hcovered, fun block hb => ?_⟩
  have := hall k (hcount ▸ hlt)
  rw [hk] at this
  exact of_decide_eq_true (List.all_eq_true.mp this block hb)

def packedReferences : List (Nat × Nat) := [(number [7, 7, 7, 7], 4), (number [1, 2, 3, 4, 5, 6, 7, 8], 8)]

end CodexFold.Pack.Layout
