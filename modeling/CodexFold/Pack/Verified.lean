import CodexFold.Pack.Reading

/- What a successful open and a successful `verifyGeneration` say about the objects
   of an index: the records are strictly sorted, so a lookup finds exactly them, and
   every object can be fetched and has the digest it is stored under. -/
namespace CodexFold.Pack.Layout
open Foundation Fold List Option

section
variable {Digest : Type}
variable {index : IndexV3 Digest}

/-! ## Records -/

theorem expandBlocks_contiguous : ∀ {count position : Nat} {offset total : Int}
    {blocks : List (Block Digest)}, index.expandBlocks count position offset = .ok (blocks, total) →
    Contiguous offset blocks total
  | 0, _, _, _, _, h => by
    obtain ⟨rfl, rfl⟩ : [] = _ ∧ _ = _ := by simpa [IndexV3.expandBlocks] using h
    rfl
  | count + 1, position, offset, total, blocks, h => by
    obtain ⟨block, _, h⟩ := of_bind h
    split at h
    · cases h
    · obtain ⟨hvalid, h⟩ := of_guard h
      obtain ⟨-, h⟩ := of_guard h
      obtain ⟨⟨rest, total'⟩, hrest, h⟩ := of_bind h
      obtain ⟨rfl, rfl⟩ : _ = blocks ∧ total' = total := by simpa using h
      simp only [not_or, not_not] at hvalid
      obtain ⟨_, _, hpos, hoff⟩ := hvalid
      exact ⟨hoff, by dsimp only; omega, expandBlocks_contiguous hrest⟩

theorem readObjectRecord_digest {k : Nat} {record : ObjectV3Record Digest} (h : index.readObjectRecord k = .ok record) :
    ∃ raw, index.objects[k]? = some raw ∧ record.digest = raw.digest := by
  obtain ⟨-, h⟩ := of_guard h
  split at h
  · cases h
  · next raw hraw =>
    cases h
    exact ⟨raw, hraw, rfl⟩

theorem objectAt_ok {position : Nat} {object : Object Digest} (h : index.objectAt position = .ok object) :
    (index.objects[position]?).map Record.digest = some object.sha256 ∧ 0 ≤ object.rawBytes ∧
      position < index.info.objectCount ∧ Contiguous 0 object.blocks object.rawBytes := by
  obtain ⟨record, hrecord, h⟩ := of_bind h
  obtain ⟨hin, hrecord⟩ := of_guard hrecord
  split at hrecord
  · cases hrecord
  · next raw hraw =>
    cases hrecord
    obtain ⟨hvalid, h⟩ := of_guard h
    obtain ⟨⟨blocks, total⟩, hblocks, h⟩ := of_bind h
    obtain ⟨htotal, h⟩ := of_guard h
    cases h
    have hc := expandBlocks_contiguous hblocks
    rw [not_not.mp htotal] at hc
    exact ⟨by simp [hraw], by dsimp only at hvalid ⊢; omega, by omega, hc⟩

end

section
variable {Digest : Type} [LinearOrder Digest]
variable {index : IndexV3 Digest} {r : Resolver Digest}
variable {packs : Files String Bytes}

/-- What `validateResolverBounds` established, with the sizes checked before. -/
structure Validated (index : IndexV3 Digest) : Prop where
  objects : index.objects.length = index.info.objectCount
  expands : ∀ k, k < index.info.objectCount → ∃ object, index.objectAt k = .ok object
  sorted : (index.objects.map Record.digest).Pairwise (· < ·)

theorem validateBounds_ok : ∀ {count position : Nat} {previous : Option Digest},
      validateBounds index packs count position previous = .ok () → index.objects.length = position + count →
      (∀ k, position ≤ k → k < position + count → ∃ object, index.objectAt k = .ok object) ∧
        (previous.toList ++ (index.objects.drop position).map Record.digest).IsChain (· < ·)
  | 0, position, previous, _, hlen => by
    refine ⟨fun k h1 h2 => absurd h1 (by omega), ?_⟩
    rw [drop_eq_nil_of_le (by omega)]
    cases previous <;> simp
  | count + 1, position, previous, h, hlen => by
    obtain ⟨record, hrecord, h⟩ := of_bind h
    obtain ⟨hsorted, h⟩ := of_guard h
    obtain ⟨object, hobject, h⟩ := of_bind h
    obtain ⟨_, _, h⟩ := of_bind h
    obtain ⟨hrest, hchain⟩ := validateBounds_ok h (by omega)
    obtain ⟨raw, hraw, hdigest⟩ := readObjectRecord_digest hrecord
    obtain ⟨hlt, hget⟩ := List.getElem?_eq_some_iff.mp hraw
    constructor
    · intro k h1 h2
      rcases Nat.lt_or_eq_of_le h1 with hk | rfl
      · exact hrest k hk (by omega)
      · exact ⟨object, hobject⟩
    · rw [drop_eq_getElem_cons hlt, map_cons, hget, ← hdigest]
      cases previous with
      | none => simpa using hchain
      | some digest =>
        have hless : digest < record.digest := by simpa using hsorted
        simpa using List.IsChain.cons_cons hless hchain

section

variable (h : Validated index)
include h

theorem Validated.record {k : Nat} (hk : k < index.info.objectCount) :
    ∃ record raw, index.readObjectRecord k = .ok record ∧
      index.objects[k]? = some raw ∧ record.digest = raw.digest := by
  obtain ⟨object, hobject⟩ := h.expands k hk
  obtain ⟨record, hr, _⟩ := of_bind hobject
  obtain ⟨raw, hraw, hd⟩ := readObjectRecord_digest hr
  exact ⟨record, raw, hr, hraw, hd⟩

theorem Validated.increasing {i j : Nat} {a b : Record Digest} (hij : i < j) (ha : index.objects[i]? = some a)
    (hb : index.objects[j]? = some b) : a.digest < b.digest := by
  obtain ⟨hi, rfl⟩ := List.getElem?_eq_some_iff.mp ha
  obtain ⟨hj, rfl⟩ := List.getElem?_eq_some_iff.mp hb
  have hsorted := pairwise_iff_getElem.mp h.sorted i j (by simpa using hi) (by simpa using hj) hij
  simpa using hsorted

theorem Validated.search (digest : Digest) :
    ∃ position, Foundation.search (index.digestBelow digest) index.info.objectCount = .ok position ∧
      position ≤ index.info.objectCount ∧ (∀ k raw, k < position → index.objects[k]? = some raw → raw.digest < digest) ∧
      (∀ k raw, position ≤ k → index.objects[k]? = some raw → digest ≤ raw.digest) := by
  have hread : ∀ k, k < index.info.objectCount → index.digestBelow digest k =
      .ok ((index.objects[k]?).any (fun raw => decide (raw.digest < digest))) := by
    intro k hk
    obtain ⟨record, raw, hr, hraw, hd⟩ := h.record hk
    simp [IndexV3.digestBelow, hr, hraw, hd, bind, Except.bind]
  have hdesc : Descending (fun k => (index.objects[k]?).any (fun raw => decide (raw.digest < digest)))
      index.info.objectCount := by
    intro i j hij hj htrue
    rcases Nat.lt_or_eq_of_le hij with hlt | rfl
    · obtain ⟨_, a, _, ha, _⟩ := h.record (Nat.lt_trans hlt hj)
      obtain ⟨_, b, _, hb, _⟩ := h.record hj
      have hab := h.increasing hlt ha hb
      simp only [ha, hb, any_some, decide_eq_true_eq] at htrue ⊢
      exact lt_trans hab htrue
    · exact htrue
  obtain ⟨position, hsearch, hb⟩ := search_boundary hread hdesc
  refine ⟨position, hsearch, hb.le, ?_, ?_⟩
  · intro k raw hk hraw
    simpa [hraw] using hb.before k hk
  · intro k raw hk hraw
    have hlt : k < index.info.objectCount := by
      rw [← h.objects]
      exact (List.getElem?_eq_some_iff.mp hraw).1
    simpa [hraw] using hb.after k hk hlt

theorem lookup_spec (digest : Digest) :
    (∃ k object, index.objectAt k = .ok object ∧ object.sha256 = digest ∧ index.lookup digest = .ok (some object)) ∨
    (digest ∉ index.objects.map Record.digest ∧ index.lookup digest = .ok none) := by
  obtain ⟨position, hsearch, hle, hbefore, hafter⟩ := h.search digest
  have hlookup : index.lookup digest = (if index.info.objectCount ≤ position then .ok none
      else do
        let record ← index.readObjectRecord position
        if record.digest ≠ digest then .ok none
        else do
          let object ← index.expandObject record
          .ok (some object)) := by
    unfold IndexV3.lookup
    rw [hsearch]
    rfl
  rw [hlookup]
  -- every record with this digest stands at the boundary
  have hat : ∀ k raw, index.objects[k]? = some raw → raw.digest = digest → k = position := by
    intro k raw hraw hd
    rcases Nat.lt_trichotomy k position with hlt | heq | hgt
    · exact absurd hd (ne_of_lt (hbefore k raw hlt hraw))
    · exact heq
    · have hk := (List.getElem?_eq_some_iff.mp hraw).1
      have hp : index.objects[position]? = some index.objects[position] := getElem?_eq_getElem (by omega)
      have hless := h.increasing hgt hp hraw
      exact absurd (hafter position _ (Nat.le_refl _) hp) (not_le_of_gt (hd ▸ hless))
  by_cases hend : index.info.objectCount ≤ position
  · refine .inr ⟨fun hmem => ?_, by rw [if_pos hend]⟩
    obtain ⟨raw, hraw, hd⟩ := List.mem_map.mp hmem
    obtain ⟨k, hk, hget⟩ := getElem_of_mem hraw
    have hkp := hat k raw (by rw [getElem?_eq_getElem hk, hget]) hd
    have := h.objects
    omega
  · rw [if_neg hend]
    obtain ⟨record, raw, hr, hraw, hrd⟩ := h.record (Nat.lt_of_not_le hend)
    obtain ⟨object, hobject⟩ := h.expands position (Nat.lt_of_not_le hend)
    have hexpand : index.expandObject record = .ok object := by
      simpa [IndexV3.objectAt, hr, bind, Except.bind] using hobject
    by_cases hd : record.digest = digest
    · refine .inl ⟨position, object, hobject, ?_, by simp [hr, hd, hexpand, bind, Except.bind]⟩
      have hsha := (objectAt_ok hobject).1
      rw [hraw] at hsha
      have heq : raw.digest = object.sha256 := by simpa using hsha
      rw [← heq, ← hrd, hd]
    · refine .inr ⟨fun hmem => ?_, by simp [hr, hd, bind, Except.bind]⟩
      obtain ⟨raw', hraw', hd'⟩ := List.mem_map.mp hmem
      obtain ⟨k, hk, hget⟩ := getElem_of_mem hraw'
      have hget' : index.objects[k]? = some raw' := by rw [getElem?_eq_getElem hk, hget]
      have hkp := hat k raw' hget' hd'
      rw [hkp, hraw] at hget'
      obtain rfl : raw = raw' := by simpa using hget'
      exact hd (hrd.trans hd')

end

/-! ## Opening -/

theorem lookupObject_v3 (hr : r.index = .v3 index) (digest : Digest) : r.lookupObject digest = index.lookup digest := by
  unfold Resolver.lookupObject
  rw [hr]

omit [LinearOrder Digest] in
theorem objectAt_v3 (hr : r.index = .v3 index) (position : Nat) : r.objectAt position = index.objectAt position := by
  unfold Resolver.objectAt
  rw [hr]

theorem openGeneration_v3 {cacheBytes : Nat} {name : Option Nat}
    (h : openGeneration cacheBytes name ⟨.v3 index, packs⟩ = .ok r) :
    r = ⟨.v3 index, packs, cacheBytes⟩ ∧ Validated index := by
  obtain ⟨_, hchecks, h⟩ := of_bind h
  obtain ⟨_, _, hchecks⟩ := of_bind hchecks
  obtain ⟨_, hsizes, hchecks⟩ := of_bind hchecks
  obtain ⟨_, _, hbounds⟩ := of_bind hchecks
  have hlen : index.objects.length = index.info.objectCount := by
    obtain ⟨hne, hsizes⟩ := of_guard hsizes
    exact not_not.mp hne
  obtain ⟨hexpands, hchain⟩ := validateBounds_ok hbounds (by omega)
  refine ⟨(Except.ok.inj h).symm, hlen, fun k hk => hexpands k (Nat.zero_le _) (by omega), ?_⟩
  simpa using isChain_iff_pairwise.mp hchain

theorem openGeneration_again {cacheBytes cacheBytes' : Nat}
    (h : openGeneration cacheBytes none ⟨.v3 index, packs⟩ = .ok r) :
    openGeneration cacheBytes' (some index.info.generation) ⟨.v3 index, packs⟩ = .ok ⟨.v3 index, packs, cacheBytes'⟩ := by
  obtain ⟨_, hchecks, _⟩ := of_bind h
  obtain ⟨_, hmeta, hrest⟩ := of_bind hchecks
  have hmeta' : validateIndexV3Meta index.info (some index.info.generation) = .ok () := by
    unfold validateIndexV3Meta at hmeta ⊢
    simpa using hmeta
  exact bind_eq_ok.mpr ⟨(), bind_eq_ok.mpr ⟨(), hmeta', hrest⟩, rfl⟩

theorem Validated.indexed (h : Validated index)
    (hr : r.index = .v3 index) {k : Nat} {object : Object Digest} (hk : index.objectAt k = .ok object) :
    Indexed r object ∧ r.findObject ⟨object.sha256, object.rawBytes.toNat, 0⟩ = .ok object := by
  obtain ⟨hdigest, hnonneg, hcount, hcont⟩ := objectAt_ok hk
  have hfound : r.lookupObject object.sha256 = .ok (some object) := by
    rw [lookupObject_v3 hr]
    rcases lookup_spec h object.sha256 with ⟨k', object', hk', hd, hl⟩ | ⟨hnot, _⟩
    · -- two records with one digest are one record
      have hdigest' := (objectAt_ok hk').1
      obtain ⟨raw, hraw, hrd⟩ := map_eq_some_iff.mp hdigest
      obtain ⟨raw', hraw', hrd'⟩ := map_eq_some_iff.mp hdigest'
      have hsame : k' = k := by
        rcases Nat.lt_trichotomy k' k with hlt | heq | hgt
        · exact absurd (h.increasing hlt hraw' hraw) (by rw [hrd, hrd', hd]; exact lt_irrefl _)
        · exact heq
        · exact absurd (h.increasing hgt hraw hraw') (by rw [hrd, hrd', hd]; exact lt_irrefl _)
      rw [hsame, hk] at hk'
      rw [Except.ok.inj hk'] at hl ⊢
      exact hl
    · obtain ⟨raw, hraw, hrd⟩ := map_eq_some_iff.mp hdigest
      exact absurd (List.mem_map.mpr ⟨raw, mem_of_getElem? hraw, hrd⟩) hnot
  refine ⟨⟨hfound, hcont⟩, ?_⟩
  unfold Resolver.findObject
  rw [hfound]
  simp [Int.toNat_of_nonneg hnonneg]

/-! ## Verification -/

variable {content : Content Digest}

theorem verifyPositions_ok (h : Validated index)
    (hr : r.index = .v3 index) : ∀ {count position : Nat} {cache : BlockCache Digest},
    Cached content r cache → verifyPositions content r count position cache = .ok () →
    ∀ k object, position ≤ k → k < position + count → index.objectAt k = .ok object →
      ∃ data, Complete content r object data ∧ content.sha256 data = object.sha256
  | 0, position, _, _, _, k, _, h1, h2, _ => absurd h1 (by omega)
  | count + 1, position, cache, hc, hv, k, object, h1, h2, hk => by
    obtain ⟨first, hfirst, hv⟩ := of_bind hv
    rw [objectAt_v3 hr] at hfirst
    obtain ⟨hidx, hfind⟩ := h.indexed hr hfirst
    have hkeeps := (verifyLoop_fetched hidx hfind (first.rawBytes.toNat + 1) [] cache ⟨_, rfl⟩ hc).2
    have hcomplete : ∀ data, (verifyLoop content r ⟨first.sha256, first.rawBytes.toNat, 0⟩
        (first.rawBytes.toNat + 1) [] cache).1 = .ok data → (data.length : Int) = first.rawBytes →
        Complete content r first data := fun data hd hl => verifyLoop_complete hidx hfind hc hd hl
    generalize verifyLoop content r ⟨first.sha256, first.rawBytes.toNat, 0⟩
      (first.rawBytes.toNat + 1) [] cache = result at hv hkeeps hcomplete
    obtain ⟨outcome, cache'⟩ := result
    cases outcome with
    | error e => cases hv
    | ok data =>
      obtain ⟨hok, hv⟩ := of_guard hv
      obtain ⟨hl, hs⟩ := not_or.mp hok
      rcases Nat.lt_or_eq_of_le h1 with hlt | rfl
      · exact verifyPositions_ok h hr hkeeps hv k object hlt (by omega) hk
      · rw [hfirst] at hk
        cases hk
        exact ⟨data, hcomplete data rfl (not_not.mp hl), not_not.mp hs⟩

end

end CodexFold.Pack.Layout
