import CodexFold.Pack.Resolver

/- What a resolver returns for an object whose blocks are contiguous.

   Both readers are compared with the blocks that can be fetched one after the
   other from the first on (`leading`). If those are all the blocks of the object
   then `ReadAt` returns every slice of their concatenation and a stream returns it
   piece by piece; if not, `ReadAt` still returns nothing but slices of what could
   be fetched, which is why a verification that read the whole object has seen
   every block. -/
namespace CodexFold.Pack.Layout
open Foundation Fold List

section
variable {Digest : Type}

/-! ## Contiguous blocks -/

def Contiguous : Int → List (Block Digest) → Int → Prop
  | offset, [], total => offset = total
  | offset, block :: rest, total =>
    block.rawOffset = offset ∧ 0 < block.rawBytes ∧ Contiguous (offset + block.rawBytes) rest total

theorem Contiguous.le : ∀ {blocks : List (Block Digest)} {offset total : Int},
    Contiguous offset blocks total → offset ≤ total
  | [], _, _, h => Int.le_of_eq h
  | _ :: _, _, _, ⟨_, hpos, hrest⟩ => by
    have := hrest.le
    omega

theorem Contiguous.get : ∀ {blocks : List (Block Digest)} {offset total : Int},
    Contiguous offset blocks total → ∀ {i : Nat} {block : Block Digest}, blocks[i]? = some block →
    offset ≤ block.rawOffset ∧ 0 < block.rawBytes
  | [], _, _, _, i, block, hi => by simp at hi
  | first :: rest, offset, total, ⟨hoff, hpos, hrest⟩, i, block, hi => by
    cases i with
    | zero =>
      obtain rfl : first = block := by simpa using hi
      exact ⟨Int.le_of_eq hoff.symm, hpos⟩
    | succ i =>
      have := hrest.get (by simpa using hi)
      omega

theorem Contiguous.ordered : ∀ {blocks : List (Block Digest)} {offset total : Int},
    Contiguous offset blocks total → ∀ {i j : Nat} {a b : Block Digest}, i < j → blocks[i]? = some a →
    blocks[j]? = some b → a.rawOffset + a.rawBytes ≤ b.rawOffset
  | [], _, _, _, i, j, a, b, _, ha, _ => by simp at ha
  | first :: rest, offset, total, ⟨hoff, hpos, hrest⟩, i, j, a, b, hij, ha, hb => by
    obtain ⟨j, rfl⟩ : ∃ k, j = k + 1 := ⟨j - 1, by omega⟩
    have hb' : rest[j]? = some b := by simpa using hb
    cases i with
    | zero =>
      obtain rfl : first = a := by simpa using ha
      have := (hrest.get hb').1
      omega
    | succ i => exact hrest.ordered (Nat.lt_of_succ_lt_succ hij) (by simpa using ha) hb'

theorem Contiguous.blockIndexAt {blocks : List (Block Digest)} {total : Int} (h : Contiguous 0 blocks total)
    (offset : Nat) {i : Nat} {block : Block Digest} (hi : blocks[i]? = some block)
    (hs : block.rawOffset ≤ offset) (he : (offset : Int) < block.rawOffset + block.rawBytes) :
    blockIndexAt blocks offset = i := by
  have hlen : i < blocks.length := (List.getElem?_eq_some_iff.mp hi).1
  have hget : ∀ k, k < blocks.length → ∃ b, blocks[k]? = some b := fun k hk =>
    ⟨_, getElem?_eq_getElem hk⟩
  have hdesc : Descending (fun i => !endsAfter blocks offset i) blocks.length := by
    intro j k hjk hk htrue
    obtain ⟨a, ha⟩ := hget j (by omega)
    obtain ⟨b, hb⟩ := hget k hk
    rcases Nat.lt_or_eq_of_le hjk with hlt | rfl
    · have hord := h.ordered hlt ha hb
      have hpos := (h.get hb).2
      simp only [endsAfter, ha, hb, Bool.not_eq_true', decide_eq_false_iff_not] at htrue ⊢
      omega
    · exact htrue
  have hb := sortSearch_boundary hdesc
  show sortSearch blocks.length (endsAfter blocks offset) = i
  rcases Nat.lt_trichotomy (sortSearch blocks.length (endsAfter blocks offset)) i with hlt | heq | hgt
  · -- a block before `i` ends before the offset
    obtain ⟨a, ha⟩ := hget _ (Nat.lt_trans hlt hlen)
    have hord := h.ordered hlt ha hi
    have hfound := hb.after _ (Nat.le_refl _) (Nat.lt_trans hlt hlen)
    simp only [endsAfter, ha, Bool.not_eq_false', decide_eq_true_eq] at hfound
    omega
  · exact heq
  · have hnot := hb.before i hgt
    simp only [endsAfter, hi, Bool.not_eq_true', decide_eq_false_iff_not] at hnot
    omega

end

section
variable {Digest : Type} [LinearOrder Digest] (content : Content Digest)
variable {block : Block Digest} {data : Bytes} {cache : BlockCache Digest} {object : Object Digest}
  {ref : ObjectRef Digest}
variable {entry : (Digest × Nat) × Bytes}

/-! ## The blocks that can be fetched -/

def leading (r : Resolver Digest) : List (Block Digest) → List Bytes
  | [] => []
  | block :: rest =>
    match r.fetchBlock content block with
    | .ok data => data :: leading r rest
    | .error _ => []

variable {content} {r : Resolver Digest}

theorem fetchBlock_length (h : r.fetchBlock content block = .ok data) : (data.length : Int) = block.rawBytes := by
  unfold Resolver.fetchBlock at h
  split at h
  · cases h
  · dsimp only at h
    obtain ⟨-, h⟩ := of_guard h
    split at h
    · cases h
    · obtain ⟨hl, h⟩ := of_guard h
      obtain ⟨-, h⟩ := of_guard h
      cases h
      exact not_not.mp hl

theorem leading_get : ∀ {blocks : List (Block Digest)} {offset total : Int}, Contiguous offset blocks total →
    ∀ {i : Nat} (hi : i < (leading content r blocks).length), ∃ block, blocks[i]? = some block ∧
      r.fetchBlock content block = .ok (leading content r blocks)[i] ∧
      block.rawOffset = offset + start (leading content r blocks) i ∧
      block.rawBytes = (leading content r blocks)[i].length
  | [], _, _, _, i, hi => by simp [leading] at hi
  | first :: rest, offset, total, ⟨hoff, hpos, hrest⟩, i, hi => by
    cases hf : r.fetchBlock content first with
    | error e => simp [leading, hf] at hi
    | ok data =>
      have hl := fetchBlock_length hf
      have heq : leading content r (first :: rest) = data :: leading content r rest := by simp [leading, hf]
      simp only [heq] at hi ⊢
      cases i with
      | zero => exact ⟨first, rfl, hf, by simp [hoff], hl.symm⟩
      | succ i =>
        obtain ⟨block, hb, hfetch, hplace, hbytes⟩ := leading_get hrest (by simpa using hi)
        refine ⟨block, by simpa using hb, by simpa using hfetch, ?_, by simpa using hbytes⟩
        have hstart : start (data :: leading content r rest) (i + 1) =
            data.length + start (leading content r rest) i := by simp [start]
        rw [hplace, hstart]
        push_cast
        omega

variable (content r) in
theorem leading_end : ∀ {blocks : List (Block Digest)} {offset total : Int}, Contiguous offset blocks total →
    (total = offset + (leading content r blocks).flatten.length ∧ (leading content r blocks).length = blocks.length) ∨
    ∃ block e, blocks[(leading content r blocks).length]? = some block ∧ r.fetchBlock content block = .error e ∧
      block.rawOffset = offset + (leading content r blocks).flatten.length ∧
      offset + (leading content r blocks).flatten.length < total
  | [], offset, total, h => .inl ⟨by simp [leading, show offset = total from h], rfl⟩
  | first :: rest, offset, total, ⟨hoff, hpos, hrest⟩ => by
    cases hf : r.fetchBlock content first with
    | error e =>
      have := hrest.le
      exact .inr ⟨first, e, by simp [leading, hf], hf, by simp [leading, hf, hoff], by simp [leading, hf]; omega⟩
    | ok data =>
      have hl := fetchBlock_length hf
      have heq : leading content r (first :: rest) = data :: leading content r rest := by simp [leading, hf]
      rw [heq]
      simp only [flatten_cons, length_append, length_cons]
      rcases leading_end hrest with ⟨htotal, hlen⟩ | ⟨block, e, hb, hfail, hplace, hlt⟩
      · exact .inl ⟨by push_cast; omega, by omega⟩
      · exact .inr ⟨block, e, by simpa using hb, hfail, by push_cast; omega, by push_cast; omega⟩

/-! ## The cache -/

theorem find_mem {κ ν : Type} [DecidableEq κ] {k : κ} {v : ν} : ∀ {l : List (κ × ν)},
    Files.find k l = some v → (k, v) ∈ l
  | [], h => by simp [Files.find] at h
  | (k', v') :: rest, h => by
    unfold Files.find at h
    split at h
    · next hk =>
      obtain rfl : v' = v := by simpa using h
      exact hk ▸ (.head _)
    · exact .tail _ (find_mem h)

theorem mem_moveToFront {key : Digest × Nat} (h : entry ∈ BlockCache.moveToFront key cache) : entry ∈ cache := by
  rcases mem_append.mp h with h | h
  · exact (mem_filter.mp h).1
  · exact (mem_filter.mp h).1

omit [LinearOrder Digest] in
theorem mem_evict {budget : Nat} : ∀ {fuel : Nat} {cache : BlockCache Digest},
    entry ∈ BlockCache.evict budget fuel cache → entry ∈ cache
  | 0, _, h => h
  | fuel + 1, cache, h => by
    unfold BlockCache.evict at h
    split at h
    · exact h
    · exact (dropLast_sublist _).subset (mem_evict h)

theorem mem_put {budget : Nat} {key : Digest × Nat} (h : entry ∈ BlockCache.put budget key data cache) :
    entry = (key, data) ∨ entry ∈ cache := by
  unfold BlockCache.put at h
  split at h
  · exact .inr h
  · split at h
    · exact .inr (mem_moveToFront h)
    · exact mem_cons.mp (mem_evict h)

def Cached (content : Content Digest) (r : Resolver Digest) (cache : BlockCache Digest) : Prop :=
  ∀ digest i data, ((digest, i), data) ∈ cache → ∃ object block,
    r.lookupObject digest = .ok (some object) ∧ object.blocks[i]? = some block ∧
    r.fetchBlock content block = .ok data

theorem cached_nil : Cached content r [] := by
  intro digest i data h
  cases h

theorem readBlock_spec (hc : Cached content r cache) {digest : Digest}
    (hobject : r.lookupObject digest = .ok (some object)) {i : Nat} (hi : object.blocks[i]? = some block) :
    (r.readBlock content cache digest i block).1 = r.fetchBlock content block ∧
      Cached content r (r.readBlock content cache digest i block).2 := by
  unfold Resolver.readBlock
  cases hf : Files.find (digest, i) cache with
  | some data =>
    obtain ⟨object', block', ho', hi', hfetch⟩ := hc digest i data (find_mem hf)
    obtain rfl : object = object' := by simpa [hobject] using ho'
    obtain rfl : block = block' := by simpa [hi] using hi'
    exact ⟨hfetch.symm, fun d j x hx => hc d j x (mem_moveToFront hx)⟩
  | none =>
    cases hfetch : r.fetchBlock content block with
    | error e => exact ⟨rfl, hc⟩
    | ok data =>
      refine ⟨rfl, fun d j x hx => ?_⟩
      rcases mem_put hx with heq | hx
      · obtain ⟨⟨rfl, rfl⟩, rfl⟩ : (d = digest ∧ j = i) ∧ x = data := by simpa using heq
        exact ⟨object, block, hobject, hi, hfetch⟩
      · exact hc d j x hx

/-! ## `ReadAt` -/

structure Indexed (r : Resolver Digest) (object : Object Digest) : Prop where
  found : r.lookupObject object.sha256 = .ok (some object)
  contiguous : Contiguous 0 object.blocks object.rawBytes

structure Complete (content : Content Digest) (r : Resolver Digest) (object : Object Digest) (data : Bytes) :
    Prop where
  all : (leading content r object.blocks).length = object.blocks.length
  whole : (leading content r object.blocks).flatten = data

section

variable (h : Indexed r object)
include h

theorem Indexed.rawBytes (hc : Complete content r object data) : object.rawBytes = data.length := by
  rcases leading_end content r h.contiguous with ⟨htotal, _⟩ | ⟨block, e, hb, _⟩
  · rw [htotal, hc.whole, Int.zero_add]
  · rw [hc.all] at hb
    simp at hb

theorem readAtLoop_spec : ∀ (fuel want offset : Nat) (cache : BlockCache Digest), want ≤ fuel →
      offset ≤ (leading content r object.blocks).flatten.length → Cached content r cache →
      (r.readAtLoop content object fuel want offset cache).1.1 =
          ((leading content r object.blocks).flatten.drop offset).take want ∧
        ((leading content r object.blocks).length = object.blocks.length →
          (r.readAtLoop content object fuel want offset cache).1.2 = none) ∧
        Cached content r (r.readAtLoop content object fuel want offset cache).2 := by
  intro fuel
  induction fuel with
  | zero =>
    intro want offset cache hw ho hc
    obtain rfl : want = 0 := by omega
    exact ⟨by simp [Resolver.readAtLoop], fun _ => rfl, hc⟩
  | succ fuel ih =>
    intro want offset cache hw ho hc
    have hend := leading_end content r h.contiguous
    unfold Resolver.readAtLoop
    by_cases hdone : want = 0 ∨ object.rawBytes ≤ offset
    · rw [if_pos hdone]
      refine ⟨?_, fun _ => rfl, hc⟩
      rcases hdone with rfl | hraw
      · simp
      · have hle : (leading content r object.blocks).flatten.length ≤ offset := by
          rcases hend with ⟨htotal, _⟩ | ⟨_, _, _, _, _, hlt⟩ <;> omega
        simp [drop_eq_nil_of_le hle]
    · rw [if_neg hdone]
      obtain ⟨hwant, hraw⟩ := not_or.mp hdone
      rcases Nat.lt_or_eq_of_le ho with hin | hout
      · -- the offset lies in a block that can be fetched: copy from it and go on
        obtain ⟨i, hi, hs, he⟩ := exists_piece _ hin
        obtain ⟨block, hb, hfetch, hplace, hbytes⟩ := leading_get h.contiguous hi
        have hsucc := start_succ _ hi
        have hindex := h.contiguous.blockIndexAt offset hb (by omega) (by omega)
        obtain ⟨hread, hcached⟩ := readBlock_spec hc h.found hb
        obtain ⟨hcopy, hlen⟩ := copy_piece _ want hi hs he
        have hinside : ((offset : Int) - block.rawOffset).toNat =
            offset - start (leading content r object.blocks) i := by omega
        rw [hfetch] at hread
        simp only [hindex, hb]
        generalize r.readBlock content cache object.sha256 i block = result at hread hcached
        obtain ⟨outcome, cache'⟩ := result
        subst hread
        dsimp only
        rw [hinside]
        generalize hcopied : ((leading content r object.blocks)[i].drop
          (offset - start (leading content r object.blocks) i)).take want = copied at hcopy hlen ⊢
        have hle := start_le (leading content r object.blocks) (i + 1)
        obtain ⟨hrest, herr, hcached'⟩ := ih (want - copied.length) (offset + copied.length) cache'
          (by omega) (by omega) hcached
        refine ⟨?_, herr, hcached'⟩
        rw [take_drop_step hcopy (by omega), ← hrest]
      · -- everything that can be fetched was returned and the next block fails
        rcases hend with ⟨htotal, _⟩ | ⟨block, e, hb, hfail, hplace, hlt⟩
        · omega
        · have hpos := (h.contiguous.get hb).2
          have hindex := h.contiguous.blockIndexAt offset hb (by omega) (by omega)
          obtain ⟨hread, hcached⟩ := readBlock_spec hc h.found hb
          rw [hfail] at hread
          simp only [hindex, hb]
          generalize r.readBlock content cache object.sha256 _ block = result at hread hcached
          obtain ⟨outcome, cache'⟩ := result
          subst hread
          refine ⟨by simp [hout], fun hall => ?_, hcached⟩
          rw [hall] at hb
          simp at hb

theorem readAt_fetched (hf : r.findObject ref = .ok object) (size offset : Nat)
    (ho : offset ≤ (leading content r object.blocks).flatten.length) (hcache : Cached content r cache) :
    (r.readAt content ref size offset cache).1.1 <+: (leading content r object.blocks).flatten.drop offset ∧
      Cached content r (r.readAt content ref size offset cache).2 := by
  unfold Resolver.readAt
  rw [if_neg (by omega)]
  split
  · exact ⟨⟨_, rfl⟩, hcache⟩
  · rw [hf]
    dsimp only
    split
    · exact ⟨⟨_, rfl⟩, hcache⟩
    · obtain ⟨hbytes, _, hcached⟩ := readAtLoop_spec h size size offset cache (Nat.le_refl _) ho hcache
      rw [Int.toNat_natCast]
      generalize r.readAtLoop content object size size offset cache = result at hbytes hcached
      obtain ⟨⟨written, err⟩, cache'⟩ := result
      subst hbytes
      cases err with
      | none | some e => exact ⟨⟨_, take_append_drop _ _⟩, hcached⟩

end

/-- What `ReadAt` has to return for an object that is `data`. -/
def sliceAt (data : Bytes) (size : Nat) (offset : Int) : Bytes × Option ReadError :=
  if offset < 0 then ([], some (.failed "negative object read offset"))
  else
    let written := (data.drop offset.toNat).take size
    (written, if written.length < size then some .eof else none)

theorem readAt_spec (h : Indexed r object) (hc : Complete content r object data) (hf : r.findObject ref = .ok object)
    (size : Nat) (offset : Int) (hcache : Cached content r cache) :
    (r.readAt content ref size offset cache).1 = sliceAt data size offset ∧
      Cached content r (r.readAt content ref size offset cache).2 := by
  have hraw := h.rawBytes hc
  unfold Resolver.readAt sliceAt
  by_cases hneg : offset < 0
  · rw [if_pos hneg, if_pos hneg]
    exact ⟨rfl, hcache⟩
  · rw [if_neg hneg, if_neg hneg]
    by_cases hsize : size = 0
    · subst hsize
      rw [if_pos rfl]
      exact ⟨by simp, hcache⟩
    · rw [if_neg hsize, hf]
      dsimp only
      by_cases hend : object.rawBytes ≤ offset
      · rw [if_pos hend, drop_eq_nil_of_le (by omega)]
        exact ⟨by simp; omega, hcache⟩
      · rw [if_neg hend]
        have hin : offset.toNat ≤ (leading content r object.blocks).flatten.length := by
          rw [hc.whole]
          omega
        obtain ⟨hbytes, herr, hcached⟩ :=
          readAtLoop_spec h size size offset.toNat cache (Nat.le_refl _) hin hcache
        have herr := herr hc.all
        rw [hc.whole] at hbytes
        generalize r.readAtLoop content object size size offset.toNat cache = result at hbytes herr hcached
        obtain ⟨⟨written, err⟩, cache'⟩ := result
        subst herr hbytes
        exact ⟨rfl, hcached⟩

/-! ## Streams -/

structure StreamOn (content : Content Digest) (r : Resolver Digest) (object : Object Digest)
    (s : ObjectStream Digest) : Prop where
  object_eq : s.object = object
  digest_eq : s.ref.sha256 = object.sha256
  inside : s.offset ≤ (leading content r object.blocks).flatten.length
  from_start : start (leading content r object.blocks) s.blockIndex ≤ s.offset
  before_end : s.blockIndex < (leading content r object.blocks).length →
    s.offset < start (leading content r object.blocks) (s.blockIndex + 1)
  held : ∀ data, s.blockData = some data → (leading content r object.blocks)[s.blockIndex]? = some data

variable {s : ObjectStream Digest}

theorem streamBlock_spec (h : Indexed r object) (hs : StreamOn content r object s) (hcache : Cached content r cache)
    (hi : s.blockIndex < (leading content r object.blocks).length) (hb : object.blocks[s.blockIndex]? = some block)
    (hfetch : r.fetchBlock content block = .ok (leading content r object.blocks)[s.blockIndex]) :
    (r.streamBlock content s block cache).1 = .ok (leading content r object.blocks)[s.blockIndex] ∧
      Cached content r (r.streamBlock content s block cache).2 := by
  unfold Resolver.streamBlock
  cases hd : s.blockData with
  | some data =>
    have hheld := hs.held data hd
    rw [getElem?_eq_getElem hi] at hheld
    exact ⟨by simp only [Option.some.injEq] at hheld; rw [hheld], hcache⟩
  | none =>
    rw [hs.digest_eq]
    obtain ⟨hread, hcached⟩ := readBlock_spec hcache h.found hb
    exact ⟨hread.trans hfetch, hcached⟩

omit [LinearOrder Digest] in
theorem ObjectStream.advance_offset (s : ObjectStream Digest) (block : Block Digest) (data : Bytes)
    (copied : Nat) : (s.advance block data copied).offset = s.offset + copied := by
  unfold ObjectStream.advance
  split <;> rfl

theorem StreamOn.advance (hs : StreamOn content r object s) (h : Indexed r object)
    (hi : s.blockIndex < (leading content r object.blocks).length)
    (hplace : block.rawOffset = 0 + start (leading content r object.blocks) s.blockIndex)
    (hbytes : block.rawBytes = (leading content r object.blocks)[s.blockIndex].length) {copied : Nat}
    (hle : s.offset + copied ≤ start (leading content r object.blocks) (s.blockIndex + 1)) :
    StreamOn content r object (s.advance block (leading content r object.blocks)[s.blockIndex] copied) := by
  have hsucc := start_succ _ hi
  have htop := start_le (leading content r object.blocks) (s.blockIndex + 1)
  have hfrom := hs.from_start
  unfold ObjectStream.advance
  split
  · next heq =>
    refine ⟨hs.object_eq, hs.digest_eq, by dsimp only; omega, by dsimp only; omega, ?_, nofun⟩
    -- the next block is not empty
    intro hi'
    dsimp only at hi' ⊢
    obtain ⟨block', hb', _, _, hbytes'⟩ := leading_get h.contiguous hi'
    have hpos := (h.contiguous.get hb').2
    have hsucc' := start_succ _ hi'
    omega
  · next hne =>
    refine ⟨hs.object_eq, hs.digest_eq, by dsimp only; omega, by dsimp only; omega, ?_, ?_⟩
    · intro _
      dsimp only
      omega
    · intro data hd
      obtain rfl : (leading content r object.blocks)[s.blockIndex] = data := by simpa using hd
      exact getElem?_eq_getElem hi

variable {whole : Bytes}

theorem streamLoop_spec (h : Indexed r object) (hc : Complete content r object whole) :
    ∀ (fuel want : Nat) (s : ObjectStream Digest) (cache : BlockCache Digest), want ≤ fuel →
      StreamOn content r object s → Cached content r cache → ∃ s' cache', r.streamLoop content fuel want s cache =
          (((whole.drop s.offset).take want, none), s', cache') ∧
        StreamOn content r object s' ∧ s'.offset = s.offset + ((whole.drop s.offset).take want).length ∧
        Cached content r cache' := by
  have hraw := h.rawBytes hc
  intro fuel
  induction fuel with
  | zero =>
    intro want s cache hw hs hcache
    obtain rfl : want = 0 := by omega
    exact ⟨s, cache, by simp [Resolver.streamLoop], hs, by simp, hcache⟩
  | succ fuel ih =>
    intro want s cache hw hs hcache
    unfold Resolver.streamLoop
    rw [hs.object_eq]
    by_cases hdone : want = 0 ∨ object.rawBytes ≤ s.offset
    · rw [if_pos hdone]
      have hnil : (whole.drop s.offset).take want = [] := by
        rcases hdone with rfl | hend
        · simp
        · simp [drop_eq_nil_of_le (show whole.length ≤ s.offset by omega)]
      rw [hnil]
      exact ⟨s, cache, rfl, hs, by simp, hcache⟩
    · rw [if_neg hdone]
      obtain ⟨hwant, hend⟩ := not_or.mp hdone
      have hwhole := hc.whole
      have hi : s.blockIndex < (leading content r object.blocks).length := by
        by_contra hge
        have htake : (leading content r object.blocks).take s.blockIndex = leading content r object.blocks :=
          take_of_length_le (by omega)
        have hfrom := hs.from_start
        rw [start, htake, hwhole] at hfrom
        omega
      obtain ⟨block, hb, hfetch, hplace, hbytes⟩ := leading_get h.contiguous hi
      have hbefore := hs.before_end hi
      have hsucc := start_succ _ hi
      have hfrom := hs.from_start
      obtain ⟨hcopy, hlen⟩ := copy_piece _ want hi hfrom hbefore
      obtain ⟨hread, hcached⟩ := streamBlock_spec h hs hcache hi hb hfetch
      have hinside : ((s.offset : Int) - block.rawOffset).toNat =
          s.offset - start (leading content r object.blocks) s.blockIndex := by omega
      simp only [hb]
      generalize r.streamBlock content s block cache = result at hread hcached
      obtain ⟨outcome, cache'⟩ := result
      subst hread
      dsimp only
      rw [if_neg (by omega), hinside]
      generalize hcopied : ((leading content r object.blocks)[s.blockIndex].drop
        (s.offset - start (leading content r object.blocks) s.blockIndex)).take want = copied at hcopy hlen ⊢
      rw [hwhole] at hcopy
      have hnext := hs.advance h hi hplace hbytes (show s.offset + copied.length ≤ _ by omega)
      obtain ⟨s', cache'', hrun, hs', hoff', hcached'⟩ := ih (want - copied.length) _ cache' (by omega) hnext hcached
      rw [ObjectStream.advance_offset] at hrun hoff'
      refine ⟨s', cache'', ?_, hs', ?_, hcached'⟩
      · rw [hrun, take_drop_step hcopy (by omega)]
      · rw [hoff', take_drop_step hcopy (by omega), length_append]
        omega

def piecesOf (data : Bytes) : List Nat → List (Bytes × Option ReadError)
  | [] => []
  | size :: sizes =>
    (if size = 0 then ([], none) else if data = [] then ([], some .eof) else (data.take size, none)) ::
      piecesOf (data.drop size) sizes

theorem streamRead_spec (h : Indexed r object) (hc : Complete content r object whole) (size : Nat)
    (hs : StreamOn content r object s) (hcache : Cached content r cache) :
    ∃ s' cache', r.streamRead content size s cache =
        ((if size = 0 then ([], none) else if whole.drop s.offset = [] then ([], some .eof)
          else ((whole.drop s.offset).take size, none)), s', cache') ∧
      StreamOn content r object s' ∧ whole.drop s'.offset = (whole.drop s.offset).drop size ∧
      Cached content r cache' := by
  have hraw := h.rawBytes hc
  unfold Resolver.streamRead
  by_cases hsize : size = 0
  · subst hsize
    exact ⟨s, cache, by simp, hs, by simp, hcache⟩
  · rw [if_neg hsize, hs.object_eq, if_neg hsize]
    by_cases hend : object.rawBytes ≤ s.offset
    · have hnil : whole.drop s.offset = [] := drop_eq_nil_of_le (by omega)
      rw [if_pos hend, if_pos hnil]
      exact ⟨s, cache, rfl, hs, by simp [hnil], hcache⟩
    · have hne : whole.drop s.offset ≠ [] := by
        intro hnil
        have := drop_eq_nil_iff.mp hnil
        omega
      rw [if_neg hend, if_neg hne]
      obtain ⟨s', cache', hrun, hs', hoff, hcached⟩ :=
        streamLoop_spec h hc size size s cache (Nat.le_refl _) hs hcache
      refine ⟨s', cache', hrun, hs', ?_, hcached⟩
      rw [hoff, length_take, length_drop, drop_drop]
      rcases Nat.le_total size (whole.length - s.offset) with hle | hle
      · rw [Nat.min_eq_left hle]
      · rw [Nat.min_eq_right hle, drop_eq_nil_of_le (by omega), drop_eq_nil_of_le (by omega)]

theorem streamReads_spec (h : Indexed r object) (hc : Complete content r object whole) :
    ∀ (calls : List (Nat × BlockCache Digest))
    {s : ObjectStream Digest}, StreamOn content r object s → (∀ call ∈ calls, Cached content r call.2) →
    (r.streamReads content calls s).map Prod.fst = piecesOf (whole.drop s.offset) (calls.map Prod.fst) ∧
      ∀ left ∈ r.streamReads content calls s, Cached content r left.2
  | [], _, _, _ => ⟨rfl, nofun⟩
  | (size, cache) :: calls, s, hs, hcalls => by
    obtain ⟨s', cache', hrun, hs', hdrop, hcached⟩ :=
      streamRead_spec h hc size hs (hcalls (size, cache) (.head _))
    obtain ⟨hrest, hleft⟩ :=
      streamReads_spec h hc calls hs' (fun call hm => hcalls call (.tail _ hm))
    simp only [Resolver.streamReads, hrun]
    refine ⟨by rw [map_cons, hrest, hdrop]; rfl, fun left hm => ?_⟩
    rcases mem_cons.mp hm with rfl | hm
    · exact hcached
    · exact hleft left hm

variable (content) in
theorem openObject_on (h : Indexed r object) (hf : r.findObject ref = .ok object) (hd : ref.sha256 = object.sha256) :
    r.openObject ref = .ok ⟨ref, 0, object, 0, none⟩ ∧ StreamOn content r object ⟨ref, 0, object, 0, none⟩ := by
  refine ⟨by unfold Resolver.openObject; rw [hf], rfl, hd, Nat.zero_le _, Nat.zero_le _, ?_, ?_⟩
  · intro (hi : 0 < (leading content r object.blocks).length)
    obtain ⟨block, hb, _, _, hbytes⟩ := leading_get h.contiguous hi
    have hpos := (h.contiguous.get hb).2
    have hsucc := start_succ _ hi
    show 0 < start (leading content r object.blocks) (0 + 1)
    omega
  · intro data hdata
    cases hdata

/-! ## Verification -/

theorem verifyLoop_fetched (h : Indexed r object)
    (hf : r.findObject ref = .ok object) : ∀ (fuel : Nat) (acc : Bytes) (cache : BlockCache Digest),
    acc <+: (leading content r object.blocks).flatten → Cached content r cache →
    (∀ data, (verifyLoop content r ref fuel acc cache).1 = .ok data →
        data <+: (leading content r object.blocks).flatten) ∧
      Cached content r (verifyLoop content r ref fuel acc cache).2 := by
  intro fuel
  induction fuel with
  | zero =>
    intro acc cache hacc hc
    refine ⟨fun data hd => ?_, hc⟩
    obtain rfl : acc = data := by simpa [verifyLoop] using hd
    exact hacc
  | succ fuel ih =>
    intro acc cache hacc hc
    have hkeep : ∀ data, (Except.ok acc : Except String Bytes) = .ok data →
        data <+: (leading content r object.blocks).flatten := fun data hd => by
      obtain rfl : acc = data := by simpa using hd
      exact hacc
    unfold verifyLoop
    split
    · exact ⟨hkeep, hc⟩
    · next hmore =>
      -- one `ReadAt` from the end of what was accumulated
      have hstep := readAt_fetched h hf verifyBufferBytes acc.length hacc.length_le hc
      generalize r.readAt content ref verifyBufferBytes acc.length cache = result at hstep
      obtain ⟨⟨data, err⟩, cache'⟩ := result
      obtain ⟨hdata, hcached⟩ := hstep
      have hboth : acc ++ data <+: (leading content r object.blocks).flatten := by
        obtain ⟨tail, htail⟩ := hacc
        rw [← htail, drop_left] at hdata
        rw [← htail]
        exact (prefix_append_right_inj acc).mpr hdata
      match err with
      | some (.failed e) => exact ⟨nofun, hcached⟩
      | some .eof | none =>
        dsimp only
        split
        · exact ⟨hkeep, hcached⟩
        · exact ih _ _ hboth hcached

theorem verifyLoop_complete (h : Indexed r object)
    (hf : r.findObject ref = .ok object) {fuel : Nat} (hc : Cached content r cache)
    (hd : (verifyLoop content r ref fuel [] cache).1 = .ok data)
    (hl : (data.length : Int) = object.rawBytes) : Complete content r object data := by
  have hpre := (verifyLoop_fetched h hf fuel [] cache ⟨_, rfl⟩ hc).1 data hd
  have hlen := hpre.length_le
  rcases leading_end content r h.contiguous with ⟨htotal, hall⟩ | ⟨_, _, _, _, _, hlt⟩
  · exact ⟨hall, (hpre.eq_of_length (by omega)).symm⟩
  · omega

end

end CodexFold.Pack.Layout
