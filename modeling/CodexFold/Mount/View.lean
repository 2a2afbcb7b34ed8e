import CodexFold.Mount.Acknowledged

/- What staged appends show.

   The pending segments, the end of what is visible, a read and the assembled tail are
   computed apart from each other. All of them describe one partial function on the
   positions behind the file, the bytes that `Stage` calls have sent: calls that contradict
   each other do not both return, so the calls determine it in any order. -/
namespace CodexFold.Mount
open Foundation List

variable {a b : Appending} {o : Nat} {calls : List Segment} {call : Segment}

/-- `Stage` calls that have returned, one after the other. -/
inductive Stages (a : Appending) : List Segment → Appending → Prop
  | nil : Stages a [] a
  | concat {calls : List Segment} {call : Segment} {n : Nat} {b c : Appending} : Stages a calls b →
    Runs (stage call.data call.offset) b n c → Stages a (calls ++ [call]) c

/-- `view` is the file, extended by what the calls have sent up to the first offset that none
    of them covers. -/
structure Extends (file : Bytes) (calls : List Segment) (view : Bytes) : Prop where
  committed : file <+: view
  staged : ∀ p x, file.length ≤ p → p < view.length → (view[p]? = some x ↔ Staged calls p x)
  uncovered : ∀ x, ¬Staged calls view.length x

theorem Extends.length_le {file view view' : Bytes} (h : Extends file calls view) (h' : Extends file calls view') :
    view.length ≤ view'.length := by
  by_contra hlt
  have hlt := Nat.not_le.mp hlt
  exact h'.uncovered _ ((h.staged _ _ h'.committed.length_le hlt).mp (getElem?_eq_getElem hlt))

theorem Extends.unique {file view view' : Bytes} (h : Extends file calls view) (h' : Extends file calls view') :
    view = view' := by
  have hlength := le_antisymm (h.length_le h') (h'.length_le h)
  refine ext_getElem hlength fun p hp hp' => ?_
  rcases lt_or_ge p file.length with hfile | hfile
  · rw [← h.committed.getElem hfile, ← h'.committed.getElem hfile]
  · exact Option.some.inj ((getElem?_eq_getElem hp).symm.trans
      ((h.staged p _ hfile hp).mpr ((h'.staged p _ hfile hp').mp (getElem?_eq_getElem hp'))))

/-- The state after the calls: they agree with the file, and the segments hold what they have
    sent behind it. -/
structure After (a : Appending) (o : Nat) (calls : List Segment) (b : Appending) : Prop where
  usable : Usable b o
  disk : b.disk = a.disk
  path : b.state.path = a.state.path
  base : b.state.baseSize = a.state.baseSize
  agrees : ∀ p x, p < a.state.baseSize → Staged calls p x → a.file[p]? = some x
  staged : ∀ p x, Staged b.state.segments p x ↔ a.state.baseSize ≤ p ∧ Staged calls p x
  ends : b.state.baseSize < b.state.visibleEnd → ∃ x, Staged b.state.segments (b.state.visibleEnd - 1) x

section
variable (h : After a o calls b)
include h

theorem After.file : b.file = a.file := by
  unfold Appending.file
  rw [h.disk, h.path]

theorem After.length_file : a.file.length = a.state.baseSize := by
  rw [← h.file, ← h.base, h.usable.file_eq, h.usable.ready.size]

theorem After.behind : ∀ e ∈ b.state.segments, b.state.baseSize ≤ e.offset :=
  fun e he => (h.usable.ready.inside e he).1

theorem After.congr {calls' : List Segment} (hsame : ∀ p x, Staged calls' p x ↔ Staged calls p x) : After a o calls' b :=
  { h with
    agrees := fun p x hp hx => h.agrees p x hp ((hsame p x).mp hx)
    staged := fun p x => by rw [h.staged, hsame] }

theorem After.consistent : Consistent calls := by
  intro p x y hx hy
  rcases lt_or_ge p a.state.baseSize with hp | hp
  · exact Option.some.inj ((h.agrees p x hp hx).symm.trans (h.agrees p y hp hy))
  · exact h.usable.ready.spread.consistent p x y ((h.staged p x).mpr ⟨hp, hx⟩) ((h.staged p y).mpr ⟨hp, hy⟩)

/-- The step lemma. -/
theorem After.step {n : Nat} {c : Appending} (hrun : Runs (stage call.data call.offset) b n c) :
    After a o (calls ++ [call]) c := by
  obtain ⟨offset, data⟩ := call
  have hiff : ∀ p x, Staged (calls ++ [⟨offset, data⟩]) p x ↔ Staged calls p x ∨ (Extent.mk offset data).Holds p x :=
    fun p x => by rw [staged_append, staged_singleton]
  rcases (stage_concludes h.usable data offset).returned hrun with ⟨rfl, rfl⟩ | ⟨⟨-, hdata, -⟩, hfits, s, rfl, hs⟩
  · have hnone := Extent.not_holds_nil (β := UInt8) offset
    exact h.congr fun p x => (hiff p x).trans (or_iff_left (hnone p x))
  refine ⟨⟨hs.path ▸ h.usable.file, h.usable.file_eq ▸ hs.ready⟩, h.disk, hs.path.trans h.path, hs.base.trans h.base,
    fun p x hp hx => ?_, fun p x => ?_, fun hlt => ?_⟩
  · rcases (hiff p x).mp hx with hx | hx
    · exact h.agrees p x hp hx
    · obtain ⟨z, hz⟩ : ∃ z, (Extent.mk 0 b.file).Holds p z := Extent.exists_holds (Nat.zero_le _) (by
        rw [Extent.finish, Nat.zero_add, h.file, h.length_file]
        exact hp)
      rw [← hfits.committed p z x hz hx, ← h.file]
      exact hz.2
  · rw [hs.segments, h.staged, hiff, h.base, and_or_left]
    rfl
  · -- the last pending byte was there before, or is the last one sent
    have hpos := length_pos_iff.mpr hdata
    have hordered := h.usable.ready.ordered
    have hfinish : s.visibleEnd = max b.state.visibleEnd (offset + data.length) := hs.finish
    have hbase : b.state.baseSize < s.visibleEnd := hs.base ▸ hlt
    show ∃ x, Staged s.segments (s.visibleEnd - 1) x
    simp only [hs.segments]
    rcases le_total (offset + data.length) b.state.visibleEnd with hle | hle
    · rw [Nat.max_eq_left hle] at hfinish
      rw [hfinish] at hbase ⊢
      exact (h.ends hbase).imp fun x => .inl
    · rw [Nat.max_eq_right hle] at hfinish
      have hlast : s.visibleEnd - 1 < (Extent.mk offset data).finish := by
        rw [hfinish]
        exact Nat.sub_lt (Nat.add_pos_right _ hpos) Nat.one_pos
      obtain ⟨x, hx⟩ := Extent.exists_holds (e := ⟨offset, data⟩) (p := s.visibleEnd - 1) (by simp only; omega) hlast
      exact ⟨x, .inr ⟨by omega, hx⟩⟩

end

/-- The run lemma. -/
theorem Stages.after (h : Usable a o) (hidle : a.state.segments = []) (hs : Stages a calls b) : After a o calls b := by
  induction hs with
  | nil =>
    refine ⟨h, rfl, rfl, rfl, fun p x _ hx => absurd hx not_staged_nil, fun p x => ?_, fun hlt => ?_⟩
    · simp [hidle, not_staged_nil]
    · exact absurd (h.ready.idle hidle) (ne_of_gt hlt)
  | concat _ hrun ih => exact ih.step hrun

/-! ## The view -/

def Appending.view (a : Appending) : Bytes := a.file ++ a.state.leading

section
variable (h : After a o calls b)
include h

theorem After.extends : Extends a.file calls b.view := by
  have hstaged : ∀ p x, a.file.length ≤ p → p ≤ b.view.length → (b.view[p]? = some x ↔ Staged calls p x) := by
    intro p x hle hlt
    rw [Appending.view, length_append, h.file, h.length_file, ← h.base] at hlt
    rw [h.length_file, ← h.base] at hle
    rw [Appending.view, h.file, getElem?_append_right (by rw [h.length_file, ← h.base]; exact hle), h.length_file, ← h.base,
      leading_staged h.usable.ready.spread h.behind hle hlt, h.staged]
    exact and_iff_right (h.base ▸ hle)
  have hfile : a.file <+: b.view := h.file ▸ prefix_append ..
  refine ⟨hfile, fun p x hle hlt => hstaged p x hle (le_of_lt hlt), fun x hx => ?_⟩
  rw [← hstaged _ x hfile.length_le (le_refl _), getElem?_eq_none (le_refl _)] at hx
  cases hx

theorem After.assembles (hfull : ∀ p x, Staged calls p x → p < b.view.length) :
    b.state.assembleLocked = .ok b.state.leading := by
  have hlength : b.view.length = b.state.baseSize + b.state.leading.length := by
    rw [Appending.view, length_append, h.file, h.length_file, h.base]
  refine assembleLocked_leading h.usable.ready ?_
  by_contra hlt
  obtain ⟨x, hx⟩ := h.ends (by omega)
  have := hfull _ x ((h.staged _ x).mp hx).2
  omega

theorem After.commits (jsonValid : Bytes → Bool) (strict : Bool) (hfull : ∀ p x, Staged calls p x → p < b.view.length) :
    (completeJSONL jsonValid (b.view.drop a.file.length) → ∃ c, Runs (commit jsonValid strict) b () c) ∧
      ∀ c, Runs (commit jsonValid strict) b () c → strict ∨ completeJSONL jsonValid (b.view.drop a.file.length) → c.file = b.view := by
  have hok := h.assembles hfull
  rw [show b.view.drop a.file.length = b.state.leading by rw [Appending.view, h.file, drop_left]]
  have hpending : completeJSONL jsonValid b.state.leading → Pending b.state b.state.leading := fun hc =>
    ⟨fun hnil => complete_ne_nil hc (by rw [NativeAppendState.leading, hnil]), hok, complete_getLast hc⟩
  have htail : ∀ tail, Pending b.state tail → tail = b.state.leading := fun tail hp =>
    Except.ok.inj (hp.2.1.symm.trans hok)
  have hconcludes := commit_concludes h.usable jsonValid strict
  refine ⟨fun hcomplete => ?_, fun c hrun hor => ?_⟩
  · rcases hconcludes with ⟨_, c, hrun, -⟩ | ⟨_, c, -, -, ⟨-, hnone⟩ | ⟨tail, hp, hbad⟩⟩
    · exact ⟨c, hrun⟩
    · exact absurd (hpending hcomplete) (hnone _)
    · rw [htail tail hp, hcomplete] at hbad
      cases hbad
  · rcases hconcludes.returned hrun with ⟨hidle | hlax, rfl, hnone⟩ | ⟨tail, hp, -, hc⟩
    · rw [Appending.view, NativeAppendState.leading, hidle]
      exact (append_nil _).symm
    · rw [hlax] at hor
      exact absurd (hpending (hor.resolve_left nofun)) (hnone _)
    · rw [hc.file, htail tail hp]
      rfl

end

/-- Staged appends form one view: no two calls that have returned disagree, and in whatever
    order they have returned the pending segments are sorted and apart, size and reads show
    the file, extended by what the calls have sent up to the first offset that none covers,
    and if none is uncovered a commit appends what lies beyond the file. -/
theorem staged_appends_one_view (jsonValid : Bytes → Bool) (h : Usable a o) (hidle : a.state.segments = [])
    (hs : Stages a calls b) :
    Consistent calls ∧ ∃ view, Extends a.file calls view ∧ ∀ calls' c, calls.Perm calls' → Stages a calls' c →
      Spread c.state.segments ∧ c.state.contiguousEndLocked = view.length ∧
      (∀ offset size, c.state.readAt a.file offset size = (view.drop offset).take size) ∧
      ((∀ p x, Staged calls p x → p < view.length) → ∀ strict,
        (completeJSONL jsonValid (view.drop a.file.length) → ∃ d, Runs (commit jsonValid strict) c () d) ∧
        ∀ d, Runs (commit jsonValid strict) c () d → strict ∨ completeJSONL jsonValid (view.drop a.file.length) →
          d.file = view) := by
  have hafter := hs.after h hidle
  refine ⟨hafter.consistent, b.view, hafter.extends, fun calls' c hperm hc => ?_⟩
  have hc := (hc.after h hidle).congr (staged_perm hperm)
  rw [hafter.extends.unique hc.extends]
  have hready := hc.usable.ready
  have hsize : c.file.length = c.state.baseSize := by rw [hc.file, hc.length_file, hc.base]
  refine ⟨hready.spread, ?_, fun offset size => ?_, fun hfull strict => hc.commits jsonValid strict hfull⟩
  · rw [contiguousEnd_eq hready.spread hc.behind, Appending.view, length_append, hsize]
  · rw [← hc.file]
    exact readAt_eq hready.spread hc.behind hsize offset size

/-- The second byte behind the sample file is sent first. -/
theorem staged_appends_one_view_gap : ∃ b, Stages Appending.sample [⟨2, [10]⟩, ⟨1, [50]⟩] b ∧ Spread b.state.segments := by
  have hfirst := @Stages.concat Appending.sample [] ⟨2, [10]⟩ 1 _ _ .nil rfl
  have hs := @Stages.concat Appending.sample _ ⟨1, [50]⟩ 1 _ _ hfirst rfl
  obtain ⟨-, view, -, hview⟩ := staged_appends_one_view digits usable_sample rfl hs
  exact ⟨_, hs, (hview _ _ (.refl _) hs).1⟩

end CodexFold.Mount
