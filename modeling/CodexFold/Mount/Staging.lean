import CodexFold.Mount.Append

/- What the staged segments hold.

   Staging keeps the segments sorted and apart; it succeeds exactly on data that no
   pending or committed byte contradicts and that stays within the limit, and then the
   segments hold what they held and the new bytes. An assembled tail has, at every
   position, the byte some segment holds there. -/
namespace CodexFold.Mount
open Foundation List

variable {s : NativeAppendState} {file data : Bytes} {base : Nat}
variable {segment : Segment} {cells : List (Option UInt8)}

/-! ## Normalized segments -/

def Sorted (l : List Segment) : Prop := l.Pairwise fun a b => a.offset ≤ b.offset

structure Normalized (segments normalized : List Segment) : Prop where
  staged : ∀ p b, Staged normalized p b ↔ Staged segments p b
  spread : Spread normalized
  starts : ∀ e ∈ normalized, ∃ a ∈ segments, a.offset = e.offset
  ends : ∀ e ∈ normalized, ∃ a ∈ segments, a.finish = e.finish

variable {last : Segment}

variable {rest : List Segment}

theorem Sorted.extend (h : Sorted (last :: segment :: rest)) : Sorted (last.extend segment :: rest) := by
  obtain ⟨hlast, hrest⟩ := pairwise_cons.mp h
  refine pairwise_cons.mpr ⟨fun a ha => ?_, (pairwise_cons.mp hrest).2⟩
  exact hlast a (.tail _ ha)

theorem Normalized.extend {normalized : List Segment} (h : Normalized (last.extend segment :: rest) normalized)
    (hle : last.offset ≤ segment.offset) (hmeet : segment.offset ≤ last.finish) (hagree : last.Agree segment) :
    Normalized (last :: segment :: rest) normalized where
  staged p b := (h.staged p b).trans (staged_extend hle hmeet hagree p b)
  spread := h.spread
  starts e he := by
    obtain ⟨a, ha, hstart⟩ := h.starts e he
    rcases mem_cons.mp ha with rfl | ha
    · exact ⟨last, .head _, hstart⟩
    · exact ⟨a, mem_cons_of_mem _ (.tail _ ha), hstart⟩
  ends e he := by
    obtain ⟨a, ha, hend⟩ := h.ends e he
    rcases mem_cons.mp ha with rfl | ha
    · -- the joint end is the end of one of the two
      rw [Extent.finish_extend hmeet] at hend
      rcases le_total last.finish segment.finish with hmax | hmax
      · exact ⟨segment, by simp, by omega⟩
      · exact ⟨last, by simp, by omega⟩
    · exact ⟨a, mem_cons_of_mem _ (.tail _ ha), hend⟩

theorem Normalized.cons {normalized : List Segment} (h : Normalized (segment :: rest) normalized)
    (hsorted : Sorted (segment :: rest)) (hgap : last.finish < segment.offset) :
    Normalized (last :: segment :: rest) (last :: normalized) where
  staged p b := by rw [staged_cons, staged_cons, h.staged p b]
  spread := by
    refine pairwise_cons.mpr ⟨fun e he => ?_, h.spread⟩
    obtain ⟨a, ha, hstart⟩ := h.starts e he
    rcases mem_cons.mp ha with rfl | ha
    · omega
    · have := (pairwise_cons.mp hsorted).1 a ha
      omega
  starts e he := by
    rcases mem_cons.mp he with rfl | he
    · exact ⟨e, .head _, rfl⟩
    · obtain ⟨a, ha, hstart⟩ := h.starts e he
      exact ⟨a, mem_cons_of_mem _ ha, hstart⟩
  ends e he := by
    rcases mem_cons.mp he with rfl | he
    · exact ⟨e, .head _, rfl⟩
    · obtain ⟨a, ha, hend⟩ := h.ends e he
      exact ⟨a, mem_cons_of_mem _ ha, hend⟩

theorem normalizeFrom_spec : ∀ (rest : List Segment) (last : Segment), Sorted (last :: rest) →
    (∃ normalized, normalizeFrom last rest = .ok normalized ∧ Consistent (last :: rest) ∧
      Normalized (last :: rest) normalized) ∨
    (normalizeFrom last rest = .error errConflictingOverlap ∧ ¬Consistent (last :: rest))
  | [], last, _ => by
    refine .inl ⟨[last], rfl, ?_, ⟨fun _ _ => Iff.rfl, ?_, fun e he => ⟨e, he, rfl⟩, fun e he => ⟨e, he, rfl⟩⟩⟩
    · exact Spread.consistent (pairwise_singleton _ _)
    · exact pairwise_singleton _ _
  | segment :: rest, last, hsorted => by
    obtain ⟨hlast, hrest⟩ := pairwise_cons.mp hsorted
    have hle : last.offset ≤ segment.offset := hlast segment (.head _)
    unfold normalizeFrom
    by_cases hgap : last.finish < segment.offset
    · -- the segment starts a new one
      simp only [hgap, if_true]
      rcases normalizeFrom_spec rest segment hrest with ⟨normalized, hok, hcons, hnorm⟩ | ⟨herr, hcons⟩
      · refine .inl ⟨last :: normalized, by rw [hok]; rfl, ?_, hnorm.cons hrest hgap⟩
        refine Consistent.cons hcons fun a ha => ?_
        rcases mem_cons.mp ha with rfl | ha
        · exact le_of_lt hgap
        · exact le_trans (le_of_lt hgap) ((pairwise_cons.mp hrest).1 a ha)
      · exact .inr ⟨by rw [herr]; rfl, fun h => hcons h.tail⟩
    · -- the segment goes on the last one, if their common bytes are the same
      have hmeet : segment.offset ≤ last.finish := Nat.not_lt.mp hgap
      simp only [hgap, if_false]
      by_cases hagree : last.Agree segment
      · simp only [(Extent.agree_iff_take hle).mp hagree, if_true]
        have hiff := staged_extend (l := rest) hle hmeet hagree
        rcases normalizeFrom_spec rest (last.extend segment) hsorted.extend with
          ⟨normalized, hok, hcons, hnorm⟩ | ⟨herr, hcons⟩
        · exact .inl ⟨normalized, hok, hcons.of_iff fun p b => (hiff p b).symm, hnorm.extend hle hmeet hagree⟩
        · exact .inr ⟨herr, fun h => hcons (h.of_iff hiff)⟩
      · have hneq := mt (Extent.agree_iff_take hle).mpr hagree
        rw [if_neg hneq]
        exact .inr ⟨rfl, fun h => hagree h.agree⟩

theorem stageSegmentLocked_spec (segments : List Segment) (offset : Nat) (data : Bytes) :
    (∃ staged, stageSegmentLocked segments offset data = .ok staged ∧
      Consistent (segments ++ [Extent.mk offset data]) ∧ Normalized (segments ++ [Extent.mk offset data]) staged) ∨
    (stageSegmentLocked segments offset data = .error errConflictingOverlap ∧
      ¬Consistent (segments ++ [Extent.mk offset data])) := by
  have hperm := perm_insertionSort (fun a b : Segment => a.offset ≤ b.offset) (segments ++ [Extent.mk offset data])
  have hsorted : Sorted ((segments ++ [Extent.mk offset data]).insertionSort fun a b => a.offset ≤ b.offset) :=
    pairwise_insertionSort _ _
  unfold stageSegmentLocked
  cases hcase : (segments ++ [Extent.mk offset data]).insertionSort (fun a b => a.offset ≤ b.offset) with
  | nil =>
    rw [hcase] at hperm
    have := hperm.length_eq
    simp at this
  | cons first rest =>
    rw [hcase] at hperm hsorted
    have hiff := staged_perm hperm
    rcases normalizeFrom_spec rest first hsorted with ⟨staged, hok, hcons, hnorm⟩ | ⟨herr, hcons⟩
    · refine .inl ⟨staged, hok, hcons.of_iff fun p b => (hiff p b).symm, ?_⟩
      exact ⟨fun p b => (hnorm.staged p b).trans (hiff p b), hnorm.spread,
        fun e he => (hnorm.starts e he).imp fun a ha => ⟨hperm.mem_iff.mp ha.1, ha.2⟩,
        fun e he => (hnorm.ends e he).imp fun a ha => ⟨hperm.mem_iff.mp ha.1, ha.2⟩⟩
    · exact .inr ⟨herr, fun h => hcons (h.of_iff hiff)⟩

/-! ## Stage -/

/-- An append state whose file holds `file`: the segments lie behind the file, apart from
    each other, and end where the state says, within the limit. -/
structure Ready (s : NativeAppendState) (file : Bytes) : Prop where
  size : file.length = s.baseSize
  spread : Spread s.segments
  inside : ∀ e ∈ s.segments, s.baseSize ≤ e.offset ∧ e.finish ≤ s.visibleEnd
  ordered : s.baseSize ≤ s.visibleEnd
  limited : s.visibleEnd - s.baseSize ≤ maxNativeAppendPendingBytes
  idle : s.segments = [] → s.visibleEnd = s.baseSize

variable {b : UInt8}

theorem Ready.behind (h : Ready s file) {p : Nat} (hp : Staged s.segments p b) : s.baseSize ≤ p := by
  obtain ⟨e, he, hb⟩ := hp
  exact le_trans (h.inside e he).1 hb.1

theorem Ready.of_idle (hsize : file.length = s.baseSize)
    (hsegments : s.segments = []) (hend : s.visibleEnd = s.baseSize) : Ready s file where
  size := hsize
  spread := by rw [hsegments]; exact Pairwise.nil
  inside e he := by rw [hsegments] at he; cases he
  ordered := le_of_eq hend.symm
  limited := by rw [hend, Nat.sub_self]; exact Nat.zero_le _
  idle _ := hend

/-- `data` at `offset` contradicts neither the file nor what is pending, and stays within
    the limit. -/
structure Fits (s : NativeAppendState) (file data : Bytes) (offset : Nat) : Prop where
  committed : (Extent.mk 0 file).Agree (Extent.mk offset data)
  pending : ∀ p x y, Staged s.segments p x → (Extent.mk offset data).Holds p y → x = y
  room : offset + data.length ≤ s.baseSize ∨ offset + data.length - s.baseSize ≤ maxNativeAppendPendingBytes

/-- What a successful `Stage` makes of the state. -/
structure StagedOn (s s' : NativeAppendState) (file data : Bytes) (offset : Nat) : Prop where
  ready : Ready s' file
  path : s'.path = s.path
  base : s'.baseSize = s.baseSize
  segments : ∀ p b, Staged s'.segments p b ↔
    Staged s.segments p b ∨ (s.baseSize ≤ p ∧ (Extent.mk offset data).Holds p b)
  finish : s'.visibleEnd = max s.visibleEnd (offset + data.length)

variable {offset : Nat}

theorem committed_iff (hsize : file.length = s.baseSize) :
    (readZeroed file offset (s.overlap data offset) == data.take (s.overlap data offset)) ↔
      (Extent.mk 0 file).Agree (Extent.mk offset data) := by
  have hread : readZeroed file offset (s.overlap data offset) = (file.drop offset).take (s.overlap data offset) := by
    unfold readZeroed NativeAppendState.overlap
    apply resize_of_le
    rw [length_drop, hsize]
    omega
  rw [Extent.agree_iff_take (Nat.zero_le _), beq_iff_eq, hread]
  simp only [NativeAppendState.overlap, Extent.finish, Nat.sub_zero, Nat.zero_add, hsize, Nat.min_comm]

theorem offset_add_overlap (hrest : data.drop (s.overlap data offset) ≠ []) :
    offset + s.overlap data offset = max offset s.baseSize ∧ s.baseSize < offset + data.length ∧
      s.overlap data offset < data.length := by
  have hlen : s.overlap data offset < data.length := by
    rw [ne_eq, drop_eq_nil_iff] at hrest
    omega
  unfold NativeAppendState.overlap at hlen ⊢
  omega

theorem Ready.staged {segments : List Segment} (h : Ready s file) (hrest : data.drop (s.overlap data offset) ≠ [])
    (hroom : offset + data.length - s.baseSize ≤ maxNativeAppendPendingBytes)
    (hnorm : Normalized (s.segments ++ [Extent.mk (offset + s.overlap data offset) (data.drop (s.overlap data offset))]) segments) :
    StagedOn s { s with segments := segments, visibleEnd := max s.visibleEnd (offset + data.length) } file data offset := by
  obtain ⟨hstart, hend, hle⟩ := offset_add_overlap hrest
  have hfinish : (Extent.mk (offset + s.overlap data offset) (data.drop (s.overlap data offset))).finish =
      offset + data.length := by
    simp only [Extent.finish, length_drop]
    omega
  have hlimited := h.limited
  refine ⟨⟨h.size, hnorm.spread, fun e he => ⟨?_, ?_⟩, ?_, ?_, fun hnil => ?_⟩, rfl, rfl, fun p b => ?_, rfl⟩
  · obtain ⟨a, ha, hoffset⟩ := hnorm.starts e he
    rcases mem_append.mp ha with ha | ha
    · exact le_trans (h.inside a ha).1 (le_of_eq hoffset)
    · rw [mem_singleton.mp ha] at hoffset
      simp only at hoffset ⊢
      omega
  · obtain ⟨a, ha, hfin⟩ := hnorm.ends e he
    rcases mem_append.mp ha with ha | ha
    · have := (h.inside a ha).2
      simp only
      omega
    · rw [mem_singleton.mp ha, hfinish] at hfin
      simp only
      omega
  · simp only
    omega
  · simp only
    omega
  · -- the new segment has a byte, so the segments are not empty
    have hnil : segments = [] := hnil
    obtain ⟨b, hb⟩ : ∃ b, (Extent.mk (offset + s.overlap data offset) (data.drop (s.overlap data offset))).Holds
        (offset + s.overlap data offset) b :=
      Extent.exists_holds (le_refl _) (by rw [hfinish]; omega)
    have hstaged := (hnorm.staged _ b).mpr (staged_append.mpr (.inr (staged_singleton.mpr hb)))
    rw [hnil] at hstaged
    exact absurd hstaged not_staged_nil
  · rw [hnorm.staged, staged_append, staged_singleton, Extent.holds_drop]
    constructor
    · rintro (hp | ⟨hp, hb⟩)
      · exact .inl hp
      · exact .inr ⟨by omega, hb⟩
    · rintro (hp | ⟨hp, hb⟩)
      · exact .inl hp
      · refine .inr ⟨?_, hb⟩
        have := hb.1
        simp only at this
        omega

theorem stageLocked_spec (hready : Ready s file) (hdata : data ≠ []) (offset : Nat) :
    (∃ s', s.stageLocked (readZeroed file offset (s.overlap data offset)) data offset = .ok s' ∧
      Fits s file data offset ∧ StagedOn s s' file data offset) ∨
    (∃ e, s.stageLocked (readZeroed file offset (s.overlap data offset)) data offset = .error e ∧
      ¬Fits s file data offset) := by
  have hpos := length_pos_iff.mpr hdata
  unfold NativeAppendState.stageLocked
  by_cases hcommitted : (Extent.mk 0 file).Agree (Extent.mk offset data)
  swap
  · have hneq := mt (committed_iff hready.size).mp hcommitted
    rw [Bool.not_eq_true] at hneq
    rw [hneq]
    exact .inr ⟨_, rfl, fun h => hcommitted h.committed⟩
  rw [(committed_iff hready.size).mpr hcommitted]
  by_cases hrest : data.drop (s.overlap data offset) = []
  · -- everything sent is committed already
    have hend : offset + data.length ≤ s.baseSize := by
      rw [drop_eq_nil_iff] at hrest
      unfold NativeAppendState.overlap at hrest
      omega
    have hnone : ∀ p b, s.baseSize ≤ p → ¬(Extent.mk offset data).Holds p b := by
      intro p b hp hb
      have hlt := hb.lt_finish
      simp only [Extent.finish] at hlt
      omega
    rw [hrest]
    refine .inl ⟨s, rfl, ⟨hcommitted, fun p x y hx hy => ?_, .inl hend⟩, ⟨hready, rfl, rfl, fun p b => ?_, ?_⟩⟩
    · exact absurd hy (hnone p y (hready.behind hx))
    · exact ⟨.inl, fun h => h.elim id fun h => absurd h.2 (hnone p b h.1)⟩
    · exact (Nat.max_eq_left (le_trans hend hready.ordered)).symm
  · obtain ⟨hstart, hend, -⟩ := offset_add_overlap hrest
    have hne : (data.drop (s.overlap data offset)).isEmpty = false := by
      rw [← Bool.not_eq_true, List.isEmpty_iff]
      exact hrest
    rw [hne]
    by_cases hroom : offset + data.length - s.baseSize ≤ maxNativeAppendPendingBytes
    swap
    · refine .inr ⟨"native append transaction exceeds the pending byte limit", ?_, fun h => ?_⟩
      · simp [require, hroom]
        rfl
      · exact h.room.elim (fun h => by omega) hroom
    rw [show decide (offset + data.length - s.baseSize ≤ maxNativeAppendPendingBytes) = true from decide_eq_true hroom]
    -- what is pending lies behind the file, so only the new segment can contradict it
    have hpending : Consistent
        (s.segments ++ [Extent.mk (offset + s.overlap data offset) (data.drop (s.overlap data offset))]) ↔
        ∀ p x y, Staged s.segments p x → (Extent.mk offset data).Holds p y → x = y := by
      rw [consistent_concat hready.spread.consistent]
      refine forall_congr' fun p => forall_congr' fun x => forall_congr' fun y => ⟨fun h hx hy => ?_, fun h hx hy => ?_⟩
      · refine h hx ((Extent.holds_drop offset _ data p y).mpr ⟨?_, hy⟩)
        have := hready.behind hx
        have := hy.1
        simp only at this
        omega
      · exact h hx ((Extent.holds_drop offset _ data p y).mp hy).2
    rcases stageSegmentLocked_spec s.segments (offset + s.overlap data offset) (data.drop (s.overlap data offset)) with
      ⟨segments, hok, hcons, hnorm⟩ | ⟨herr, hcons⟩
    · refine .inl ⟨_, ?_, ⟨hcommitted, hpending.mp hcons, .inr hroom⟩, hready.staged hrest hroom hnorm⟩
      simp only [hok]
      rfl
    · refine .inr ⟨errConflictingOverlap, ?_, fun h => hcons (hpending.mpr h.pending)⟩
      simp only [herr]
      rfl

/-! ## What is shown -/

def NativeAppendState.leading (s : NativeAppendState) : Bytes :=
  match s.segments with
  | [] => []
  | segment :: _ => if s.baseSize < segment.offset then [] else segment.data

theorem getElem?_readStart {limit i : Nat} (hi : i < limit) (hfile : offset + i < file.length) :
    (readZeroed (readZeroed file offset (min limit (file.length - offset))) 0 limit)[i]? = file[offset + i]? := by
  unfold readZeroed
  rw [drop_zero, getElem?_resize_of_lt (by rw [length_resize]; omega) hi,
    getElem?_resize_of_lt (by rw [length_drop]; omega) (by omega), getElem?_drop]

section
variable (hspread : Spread s.segments) (hbehind : ∀ e ∈ s.segments, s.baseSize ≤ e.offset)
include hspread hbehind

theorem leading_cases : (s.leading = [] ∧ s.contiguousEndLocked = s.baseSize ∧ ∀ e ∈ s.segments, s.baseSize < e.offset) ∨
    ∃ rest, s.segments = ⟨s.baseSize, s.leading⟩ :: rest ∧ s.contiguousEndLocked = s.baseSize + s.leading.length ∧
      ∀ e ∈ rest, s.baseSize + s.leading.length < e.offset := by
  unfold NativeAppendState.leading NativeAppendState.contiguousEndLocked
  cases hs : s.segments with
  | nil => exact .inl ⟨rfl, rfl, nofun⟩
  | cons first rest =>
    rw [hs] at hspread hbehind
    have hfirst := (pairwise_cons.mp hspread).1
    by_cases hgap : s.baseSize < first.offset
    · refine .inl ⟨if_pos hgap, if_pos hgap, fun e he => ?_⟩
      rcases mem_cons.mp he with rfl | he
      · exact hgap
      · exact lt_trans (lt_of_lt_of_le hgap (Nat.le_add_right ..)) (hfirst e he)
    · obtain ⟨offset, data⟩ := first
      obtain rfl : s.baseSize = offset := le_antisymm (hbehind _ mem_cons_self) (Nat.not_lt.mp hgap)
      simp only [lt_irrefl, if_false]
      refine .inr ⟨rest, rfl, ?_, hfirst⟩
      have hmax : max s.baseSize (Extent.mk s.baseSize data).finish = s.baseSize + data.length :=
        Nat.max_eq_right (Nat.le_add_right ..)
      rw [NativeAppendState.contiguousFrom, if_neg hgap, hmax]
      cases rest with
      | nil => rfl
      | cons next rest => exact if_pos (hfirst next mem_cons_self)

theorem contiguousEnd_eq : s.contiguousEndLocked = s.baseSize + s.leading.length := by
  rcases leading_cases hspread hbehind with ⟨hnil, hend, -⟩ | ⟨rest, -, hend, -⟩
  · rw [hnil, hend]
    rfl
  · exact hend

theorem leading_staged {p : Nat} {b : UInt8} (hle : s.baseSize ≤ p) (hlt : p ≤ s.baseSize + s.leading.length) :
    s.leading[p - s.baseSize]? = some b ↔ Staged s.segments p b := by
  rcases leading_cases hspread hbehind with ⟨hnil, -, hrest⟩ | ⟨rest, hs, -, hrest⟩
  · rw [hnil] at hlt ⊢
    refine ⟨nofun, fun ⟨e, he, hb⟩ => ?_⟩
    exact absurd (lt_of_lt_of_le (hrest e he) hb.1) (Nat.not_lt.mpr hlt)
  · rw [hs, staged_cons]
    refine ⟨fun hb => .inl ⟨hle, hb⟩, fun hb => hb.elim (fun hb => hb.2) fun ⟨e, he, hb⟩ => ?_⟩
    exact absurd (lt_of_lt_of_le (hrest e he) hb.1) (Nat.not_lt.mpr hlt)

omit hspread hbehind in
theorem foldl_of_fixed {α β : Type} {f : α → β → α} {x : α} : ∀ {l : List β}, (∀ e ∈ l, f x e = x) → l.foldl f x = x
  | [], _ => rfl
  | e :: l, h => by
    rw [foldl_cons, h e mem_cons_self]
    exact foldl_of_fixed fun e he => h e (mem_cons_of_mem _ he)

theorem readAt_eq (hsize : file.length = s.baseSize) (offset size : Nat) :
    s.readAt file offset size = ((file ++ s.leading).drop offset).take size := by
  have hend := contiguousEnd_eq hspread hbehind
  unfold NativeAppendState.readAt
  rw [hend, ← hsize]
  dsimp only
  generalize hlimit : min size (file.length + s.leading.length - offset) = limit
  generalize hstart : readZeroed (readZeroed file offset (min limit (file.length - offset))) 0 limit = start
  have hlen : start.length = limit := by
    rw [← hstart]
    exact length_resize ..
  -- the segments behind the first one add nothing
  have hbeyond : ∀ e : Segment, offset + limit ≤ max offset e.offset → ∀ x : Bytes, overlay 0 x (max offset e.offset - offset)
      ((e.data.drop (max offset e.offset - e.offset)).take (min (offset + limit) e.finish - max offset e.offset)) = x := by
    intro e he x
    rw [Nat.sub_eq_zero_of_le (le_trans (min_le_left ..) he), take_zero, overlay_nil]
  rw [(?_ : s.segments.foldl _ start = overlay 0 start (max offset file.length - offset)
    ((s.leading.drop (max offset file.length - file.length)).take
      (min (offset + limit) (file.length + s.leading.length) - max offset file.length)))]
  swap
  · rcases leading_cases hspread hbehind with ⟨hnil, -, hrest⟩ | ⟨rest, hs, -, hrest⟩
    · rw [hnil, length_nil] at hlimit
      rw [hnil, drop_nil, take_nil, overlay_nil]
      exact foldl_of_fixed fun e he => hbeyond e (by have := hrest e he; omega) start
    · rw [hs, foldl_cons, foldl_of_fixed fun e he => hbeyond e (by have := hrest e he; omega) _, hsize]
      rfl
  generalize hfirst : max offset file.length = first
  generalize hlast : min (offset + limit) (file.length + s.leading.length) = last
  have hpart : ((s.leading.drop (first - file.length)).take (last - first)).length = last - first := by
    rw [length_take, length_drop]
    omega
  have htotal : (((file ++ s.leading).drop offset).take size).length = limit := by
    rw [length_take, length_drop, length_append, hlimit]
  -- position by position: the committed bytes, then those of the segment
  refine ext_getElem? fun i => ?_
  by_cases hi : i < limit
  · rw [getElem?_take_of_lt (by omega), getElem?_drop]
    by_cases hfile : offset + i < file.length
    · rw [getElem?_overlay_of_not_mem _ _ _ _ (hlen ▸ hi) (.inl (by omega)), ← hstart, getElem?_readStart hi hfile,
        getElem?_append_left hfile]
    · rw [getElem?_overlay_of_le (by omega) (by omega), getElem?_take_of_lt (by omega),
        getElem?_drop, getElem?_append_right (by omega)]
      congr 1
      omega
  · rw [getElem?_eq_none (l := ((file ++ s.leading).drop offset).take size) (by omega)]
    apply getElem?_eq_none
    by_cases hempty : (s.leading.drop (first - file.length)).take (last - first) = []
    · rw [hempty, overlay_nil, hlen]
      omega
    · have hpos := length_pos_iff.mpr hempty
      rw [length_overlay _ _ _ hempty]
      omega

end

/-! ## The assembled tail -/

def Covered (base : Nat) (cells : List (Option UInt8)) (p : Nat) (b : UInt8) : Prop :=
  base ≤ p ∧ cells[p - base]? = some (some b)

theorem covered_set {p q : Nat} {c : UInt8} (hp : base ≤ p) (hlt : p - base < cells.length)
    (hsame : ∀ x, Covered base cells p x → x = b) :
    Covered base (cells.set (p - base) (some b)) q c ↔ (q = p ∧ c = b) ∨ Covered base cells q c := by
  by_cases hq : q = p
  · subst hq
    unfold Covered
    rw [getElem?_set_self hlt]
    constructor
    · rintro ⟨-, h⟩
      exact .inl ⟨rfl, (Option.some.inj (Option.some.inj h)).symm⟩
    · rintro (⟨-, rfl⟩ | ⟨-, h⟩)
      · exact ⟨hp, rfl⟩
      · rw [hsame c ⟨hp, h⟩]
        exact ⟨hp, rfl⟩
  · unfold Covered
    constructor
    · rintro ⟨hle, h⟩
      rw [getElem?_set_ne (by omega)] at h
      exact .inr ⟨hle, h⟩
    · rintro (⟨h, -⟩ | ⟨hle, h⟩)
      · exact absurd h hq
      · refine ⟨hle, ?_⟩
        rw [getElem?_set_ne (by omega)]
        exact h

theorem cover_eq_ok {p : Nat} (hp : base ≤ p) (hsame : ∀ x, Covered base cells p x → x = b) :
    NativeAppendState.cover cells b (p - base) = .ok (cells.set (p - base) (some b)) := by
  unfold NativeAppendState.cover
  split
  · rename_i other hother
    rw [if_pos (hsame other ⟨hp, hother⟩)]
  · rfl

theorem coverData_spec : ∀ (data : Bytes) (offset : Nat) (cells : List (Option UInt8)), base ≤ offset →
    offset - base + data.length ≤ cells.length →
    (∀ p x y, Covered base cells p x → (Extent.mk offset data).Holds p y → x = y) →
    ∃ cells', (data.zipIdx (offset - base)).foldlM (fun cells e => NativeAppendState.cover cells e.1 e.2) cells =
        .ok cells' ∧ cells'.length = cells.length ∧
      ∀ p b, Covered base cells' p b ↔ Covered base cells p b ∨ (Extent.mk offset data).Holds p b
  | [], offset, cells, _, _, _ =>
    ⟨cells, rfl, rfl, fun p b => ⟨.inl, fun h => h.elim id fun h => absurd h (Extent.not_holds_nil offset p b)⟩⟩
  | b :: data, offset, cells, hle, hlen, hagree => by
    rw [length_cons] at hlen
    have hsame : ∀ x, Covered base cells offset x → x = b := fun x hx =>
      hagree offset x b hx ((Extent.holds_cons offset b data offset b).mpr (.inl ⟨rfl, rfl⟩))
    have hset : ∀ q c, Covered base (cells.set (offset - base) (some b)) q c ↔
        (q = offset ∧ c = b) ∨ Covered base cells q c :=
      fun q c => covered_set hle (by omega) hsame
    have hle' : base ≤ offset + 1 := Nat.le_succ_of_le hle
    obtain ⟨cells', hok, hlen', hiff⟩ := coverData_spec data (offset + 1) (cells.set (offset - base) (some b)) hle'
      (by rw [length_set]; omega) (by
        intro p x y hx hy
        rcases (hset p x).mp hx with ⟨rfl, rfl⟩ | hx
        · exact absurd hy.1 (Nat.not_succ_le_self _)
        · exact hagree p x y hx ((Extent.holds_cons offset b data p y).mpr (.inr hy)))
    refine ⟨cells', ?_, by rw [hlen', length_set], fun p c => ?_⟩
    · rw [zipIdx_cons, foldlM_cons, cover_eq_ok hle hsame]
      rw [show offset - base + 1 = offset + 1 - base by omega]
      exact hok
    · rw [hiff, hset, Extent.holds_cons, or_assoc, or_left_comm]

theorem coverSegments_spec : ∀ (segments : List Segment) (cells : List (Option UInt8)),
    (∀ e ∈ segments, base ≤ e.offset ∧ e.finish - base ≤ cells.length) → Consistent segments →
    (∀ p x y, Covered base cells p x → Staged segments p y → x = y) →
    ∃ cells', segments.foldlM (NativeAppendState.coverSegment base) cells = .ok cells' ∧ cells'.length = cells.length ∧
      ∀ p b, Covered base cells' p b ↔ Covered base cells p b ∨ Staged segments p b
  | [], cells, _, _, _ => ⟨cells, rfl, rfl, fun _ _ => ⟨.inl, fun h => h.elim id fun h => absurd h not_staged_nil⟩⟩
  | e :: rest, cells, hin, hcons, hagree => by
    obtain ⟨hle, hfin⟩ := hin e (.head _)
    have hlen : e.offset - base + e.data.length ≤ cells.length := by
      unfold Extent.finish at hfin
      omega
    obtain ⟨cells₁, hok₁, hlen₁, hiff₁⟩ := coverData_spec e.data e.offset cells hle hlen
      fun p x y hx hy => hagree p x y hx (staged_cons.mpr (.inl hy))
    obtain ⟨cells₂, hok₂, hlen₂, hiff₂⟩ := coverSegments_spec rest cells₁
      (fun a ha => by rw [hlen₁]; exact hin a (.tail _ ha)) hcons.tail (by
        intro p x y hx hy
        rcases (hiff₁ p x).mp hx with hx | hx
        · exact hagree p x y hx (staged_cons.mpr (.inr hy))
        · exact hcons p x y (staged_cons.mpr (.inl hx)) (staged_cons.mpr (.inr hy)))
    refine ⟨cells₂, ?_, hlen₂.trans hlen₁, fun p b => ?_⟩
    · have hfirst : NativeAppendState.coverSegment base cells e = .ok cells₁ := by
        unfold NativeAppendState.coverSegment
        rw [show (decide (base ≤ e.offset) && decide (e.offset - base + e.data.length ≤ cells.length)) = true by
          simp [hle, hlen]]
        exact hok₁
      rw [foldlM_cons, hfirst]
      exact hok₂
    · rw [hiff₂, hiff₁, staged_cons, or_assoc]

structure Assembled (s : NativeAppendState) (tail : Bytes) : Prop where
  length : tail.length = s.visibleEnd - s.baseSize
  staged : ∀ p b, Staged s.segments p b → s.baseSize ≤ p ∧ tail[p - s.baseSize]? = some b

theorem getElem?_filterMap_id (h : cells.all Option.isSome) (i : Nat) :
    (cells.filterMap id)[i]? = cells[i]?.join ∧ (cells.filterMap id).length = cells.length := by
  induction cells generalizing i with
  | nil => exact ⟨rfl, rfl⟩
  | cons c rest ih =>
    rw [all_cons, Bool.and_eq_true] at h
    obtain ⟨v, rfl⟩ := Option.isSome_iff_exists.mp h.1
    obtain ⟨-, hlen⟩ := ih h.2 0
    refine ⟨?_, congrArg Nat.succ hlen⟩
    cases i with
    | zero => rfl
    | succ i => exact (ih h.2 i).1

theorem assembleLocked_spec (h : Ready s file) :
    (s.assembleLocked = .error errNativeAppendGap ∧ ∃ p, s.baseSize ≤ p ∧ p < s.visibleEnd ∧ ∀ b, ¬Staged s.segments p b) ∨
      ∃ tail, s.assembleLocked = .ok tail ∧ Assembled s tail := by
  have hperm := perm_insertionSort (fun a b : Segment => a.offset ≤ b.offset) s.segments
  have hnone : ∀ p b, ¬Covered s.baseSize (replicate (s.visibleEnd - s.baseSize) none) p b := by
    rintro p b ⟨-, hget⟩
    rw [getElem?_replicate] at hget
    split at hget <;> cases hget
  obtain ⟨cells, hok, hlen, hiff⟩ := coverSegments_spec
    (s.segments.insertionSort fun a b => a.offset ≤ b.offset) (replicate (s.visibleEnd - s.baseSize) none)
    (fun e he => by
      have := h.inside e (hperm.mem_iff.mp he)
      rw [length_replicate]
      omega)
    (h.spread.consistent.of_iff (staged_perm hperm)) fun p x y hx _ => absurd hx (hnone p x)
  rw [length_replicate] at hlen
  unfold NativeAppendState.assembleLocked
  rw [show (decide (s.baseSize ≤ s.visibleEnd) && decide (s.visibleEnd - s.baseSize ≤ maxNativeAppendPendingBytes)) =
    true by simp [h.ordered, h.limited]]
  simp only [require, if_true, hok, bind, Except.bind]
  by_cases hall : cells.all Option.isSome = true
  · refine .inr ⟨cells.filterMap id, by rw [if_pos hall], ?_, fun p b hp => ?_⟩
    · rw [(getElem?_filterMap_id hall 0).2, hlen]
    · obtain ⟨hle, hget⟩ := (hiff p b).mpr (.inr ((staged_perm hperm p b).mpr hp))
      refine ⟨hle, ?_⟩
      rw [(getElem?_filterMap_id hall _).1, hget]
      rfl
  · -- a cell that is not covered is a position where nothing is staged
    refine .inl ⟨by rw [if_neg hall], ?_⟩
    rw [all_eq_true] at hall
    push Not at hall
    obtain ⟨cell, hcell, hempty⟩ := hall
    obtain ⟨i, hi, rfl⟩ := getElem_of_mem hcell
    refine ⟨s.baseSize + i, Nat.le_add_right .., by omega, fun b hb => hempty ?_⟩
    obtain ⟨-, hget⟩ := (hiff _ b).mpr (.inr ((staged_perm hperm _ b).mpr hb))
    rw [Nat.add_sub_cancel_left, getElem?_eq_getElem hi] at hget
    rw [Option.some.inj hget]
    rfl

theorem assembleLocked_leading (h : Ready s file) (hend : s.visibleEnd ≤ s.baseSize + s.leading.length) :
    s.assembleLocked = .ok s.leading := by
  have hstaged : ∀ {p b}, s.baseSize ≤ p → s.leading[p - s.baseSize]? = some b → Staged s.segments p b := by
    intro p b hle hb
    have hlt := (List.getElem?_eq_some_iff.mp hb).1
    exact (leading_staged h.spread (fun e he => (h.inside e he).1) hle (by omega)).mp hb
  rcases assembleLocked_spec h with ⟨-, p, hle, hlt, hnone⟩ | ⟨tail, htail, hassembled⟩
  · have hin : p - s.baseSize < s.leading.length := by omega
    exact absurd (hstaged hle (getElem?_eq_getElem hin)) (hnone _)
  · rw [htail]
    congr 1
    have hlen := hassembled.length
    refine ext_getElem? fun i => ?_
    cases hb : s.leading[i]? with
    | none =>
      rw [List.getElem?_eq_none_iff] at hb ⊢
      omega
    | some b =>
      have hget := (hassembled.staged (s.baseSize + i) b (hstaged (Nat.le_add_right ..) (by rwa [Nat.add_sub_cancel_left]))).2
      rwa [Nat.add_sub_cancel_left] at hget

theorem foldlM_length {α : Type} {f : List (Option UInt8) → α → Except String (List (Option UInt8))}
    (hf : ∀ cells a cells', f cells a = .ok cells' → cells'.length = cells.length) :
    ∀ (l : List α) {cells cells' : List (Option UInt8)}, l.foldlM f cells = .ok cells' → cells'.length = cells.length
  | [], _, _, h => by cases h; rfl
  | a :: l, cells, cells', h => by
    obtain ⟨next, hfirst, hrest⟩ := of_bind h
    rw [foldlM_length hf l hrest, hf cells a next hfirst]

theorem length_le_of_assembleLocked {tail : Bytes} (h : s.assembleLocked = .ok tail) :
    tail.length ≤ maxNativeAppendPendingBytes := by
  obtain ⟨_, hrange, h⟩ := of_bind h
  obtain ⟨cells, hcells, h⟩ := of_bind h
  obtain ⟨_, -, h⟩ := of_bind h
  have hcover : ∀ (cells : List (Option UInt8)) (e : UInt8 × Nat) (cells' : List (Option UInt8)),
      NativeAppendState.cover cells e.1 e.2 = .ok cells' → cells'.length = cells.length := by
    intro cells e cells' h
    unfold NativeAppendState.cover at h
    split at h
    · split at h
      · cases h
        exact length_set
      · cases h
    · cases h
      exact length_set
  have hlen := foldlM_length (fun cells e cells' h => by
    obtain ⟨_, -, h⟩ := of_bind h
    exact foldlM_length hcover _ h) _ hcells
  have hrange := require_eq_ok.mp hrange
  simp only [Bool.and_eq_true, decide_eq_true_eq] at hrange
  cases h
  calc (cells.filterMap id).length ≤ cells.length := length_filterMap_le _ _
    _ = s.visibleEnd - s.baseSize := by rw [hlen, length_replicate]
    _ ≤ maxNativeAppendPendingBytes := hrange.2

/-! ## Complete records -/

section
variable {jsonValid : Bytes → Bool} {data more : Bytes}

section

variable (h : completeJSONL jsonValid data = true)
include h

theorem complete_ne_nil : data ≠ [] := by
  simp only [completeJSONL, Bool.and_eq_true, Bool.not_eq_true', isEmpty_eq_false_iff] at h
  exact h.1.1.1

theorem complete_getLast : data.getLast? = some newline := by
  simp only [completeJSONL, Bool.and_eq_true, beq_iff_eq] at h
  exact h.1.1.2

theorem utf8Valid_of_complete : utf8Valid data = true := by
  simp only [completeJSONL, Bool.and_eq_true] at h
  exact h.1.2

omit h in
theorem utf8Valid_append (h : utf8Valid data) : utf8Valid (data ++ more) = utf8Valid more := by
  fun_induction utf8Valid data with
  | case1 => rfl
  | case2 a rest ha ih =>
    rw [cons_append, utf8Valid.eq_def]
    simp only [ha, if_true, ih h]
  | case3 | case5 | case7 => cases h
  | case4 a ha b rest h2 ih =>
    simp only [Bool.and_eq_true] at h
    rw [cons_append, cons_append, utf8Valid.eq_def]
    simp only [ha, if_false, h2, if_true, h.1, ih h.2, Bool.true_and]
  | case6 a ha b h2 c rest h3 ih =>
    simp only [Bool.and_eq_true] at h
    rw [cons_append, cons_append, cons_append, utf8Valid.eq_def]
    simp only [ha, if_false, h2, Bool.false_eq_true, h3, if_true, h.1, ih h.2, Bool.true_and]
  | case8 a ha b h2 c h3 d rest ih =>
    rw [Bool.and_eq_true] at h
    rw [cons_append, cons_append, cons_append, cons_append, utf8Valid.eq_def]
    simp only [ha, if_false, h2, Bool.false_eq_true, h3, h.1, ih h.2, Bool.true_and]

theorem complete_append (hmore : completeJSONL jsonValid more) : completeJSONL jsonValid (data ++ more) = true := by
  have hcut : cutAfter newline (data ++ more) = cutAfter newline data ++ cutAfter newline more :=
    cutAfter_append (.inr (complete_getLast h)) more
  have hlast : (data ++ more).getLast? = some newline := by
    rw [getLast?_append_of_ne_nil _ (complete_ne_nil hmore)]
    exact complete_getLast hmore
  have hutf8 : utf8Valid (data ++ more) = true :=
    (utf8Valid_append (utf8Valid_of_complete h)).trans (utf8Valid_of_complete hmore)
  simp only [completeJSONL, Bool.and_eq_true] at h hmore ⊢
  refine ⟨⟨⟨?_, ?_⟩, hutf8⟩, ?_⟩
  · simpa using fun hdata => absurd hdata (by simpa using h.1.1.1)
  · rw [hlast]
    rfl
  · rw [hcut, all_append, h.2, hmore.2]
    rfl

end

end

end CodexFold.Mount
