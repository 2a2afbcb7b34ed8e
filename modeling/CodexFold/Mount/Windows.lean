import CodexFold.Foundation.Completion
import CodexFold.Foundation.Traces
import CodexFold.Mount.Server
import CodexFold.Mount.Staging

/- Windows over snapshots that may be stale.

   A client that sees only an earlier state of the file sends what it has seen followed by
   new records. The server takes the new records apart from the others if the client has
   seen the file as it is, or as it was when the last window of the first kind came. A
   window over an older state overwrites what it has not seen, and one over a state in
   between has some records appended twice. -/
namespace CodexFold.Mount
open Foundation List

/-! ## The comparison -/

theorem commonPrefixBytes_append (common left right : Bytes) :
    commonPrefixBytes (common ++ left) (common ++ right) = common.length + commonPrefixBytes left right := by
  induction common with
  | nil => simp
  | cons b common ih =>
    rw [cons_append, cons_append, commonPrefixBytes, if_pos rfl, ih, length_cons]
    omega

theorem commonPrefixBytes_nil (right : Bytes) : commonPrefixBytes [] right = 0 := by
  cases right with
  | nil => rfl
  | cons b right => rfl

theorem prefix_of_commonPrefixBytes : ∀ (left right : Bytes),
    (commonPrefixBytes left right = left.length → left <+: right) ∧
      (commonPrefixBytes left right = right.length → right <+: left)
  | [], right => ⟨fun _ => nil_prefix, fun h => by
      rw [length_eq_zero_iff.mp h.symm]⟩
  | a :: left, [] => ⟨fun h => by simp [commonPrefixBytes] at h, fun _ => nil_prefix⟩
  | a :: left, b :: right => by
    have ih := prefix_of_commonPrefixBytes left right
    unfold commonPrefixBytes
    by_cases hab : a = b
    · rw [if_pos hab, hab]
      refine ⟨fun h => ?_, fun h => ?_⟩
      · exact cons_prefix_cons.mpr ⟨rfl, ih.1 (by simpa using h)⟩
      · exact cons_prefix_cons.mpr ⟨rfl, ih.2 (by simpa using h)⟩
    · rw [if_neg hab]
      exact ⟨fun h => by simp at h, fun h => by simp at h⟩

theorem not_prefix_of_lines {one other : Bytes} (hone : one ≠ []) (hline : one.getLast? = some newline)
    (hnew : ∀ line ∈ cutAfter newline one, line ∉ cutAfter newline other) : ¬one <+: other := by
  rintro ⟨rest, rfl⟩
  rw [cutAfter_append (.inr hline)] at hnew
  obtain ⟨line, more, hcut⟩ := exists_cons_of_ne_nil (cutAfter_ne_nil hone : cutAfter newline one ≠ [])
  have hmem : line ∈ cutAfter newline one := by
    rw [hcut]
    exact .head _
  exact hnew line hmem (mem_append_left _ hmem)

section
variable {jsonValid : Bytes → Bool} {floor : Int} {records : Bytes}

theorem snapshotDecision_current {file : Bytes} {offset : Nat} (hoffset : offset ≤ file.length)
    (hrecords : completeJSONL jsonValid records) : snapshotDecision jsonValid floor (file.drop offset ++ records)
      ((file.drop offset).take (min (file.drop offset ++ records).length (file.length - offset))) offset file.length =
        .appendCurrent (file.length - offset) := by
  have hcurrent : (file.drop offset).take (min (file.drop offset ++ records).length (file.length - offset)) =
      file.drop offset := by
    apply take_of_length_le
    rw [length_append, length_drop]
    omega
  have hcommon : commonPrefixBytes (file.drop offset) (file.drop offset ++ records) = file.length - offset := by
    have h := commonPrefixBytes_append (file.drop offset) [] records
    rw [append_nil, commonPrefixBytes_nil, length_drop] at h
    exact h
  have hpos : 0 < records.length := length_pos_iff.mpr (complete_ne_nil hrecords)
  have hdrop : (file.drop offset ++ records).drop (file.length - offset) = records := by
    rw [← length_drop, drop_left]
  unfold snapshotDecision
  rw [hcurrent, hcommon]
  dsimp only
  rw [if_neg (by rw [length_append, length_drop]; omega), if_pos]
  exact ⟨length_drop.symm, by omega, by rw [hdrop]; exact hrecords⟩

theorem snapshotDecision_stale {before after : Bytes} {offset : Nat} (hoffset : offset ≤ before.length)
    (hfloor : floor = before.length) (hrecords : completeJSONL jsonValid records) (hafter : after ≠ [])
    (hline : after.getLast? = some newline) (hnew : ∀ line ∈ cutAfter newline records, line ∉ cutAfter newline after) :
    snapshotDecision jsonValid floor (before.drop offset ++ records) (((before ++ after).drop offset).take
      (min (before.drop offset ++ records).length ((before ++ after).length - offset))) offset (before ++ after).length =
        .appendStale (before.length - offset) := by
  have hlength : (before.drop offset).length = before.length - offset := length_drop
  -- what is read of the file is what the client has seen and the beginning of what came since
  have hcurrent : ((before ++ after).drop offset).take
      (min (before.drop offset ++ records).length ((before ++ after).length - offset)) =
        before.drop offset ++ after.take (min records.length after.length) := by
    rw [drop_append_of_le_length hoffset, take_append, take_of_length_le]
    · congr 2
      simp only [length_append, hlength]
      omega
    · simp only [length_append, hlength]
      omega
  have hcommon : commonPrefixBytes (before.drop offset ++ after.take (min records.length after.length))
      (before.drop offset ++ records) = before.length - offset +
        commonPrefixBytes (after.take (min records.length after.length)) records := by
    rw [commonPrefixBytes_append, hlength]
  obtain ⟨hleft, hright⟩ := prefix_of_commonPrefixBytes (after.take (min records.length after.length)) records
  unfold snapshotDecision
  rw [hcurrent, hcommon]
  dsimp only
  rw [if_neg, if_neg, if_pos, hfloor, if_pos]
  · congr 1
    omega
  · have hindex : ((before.length : Int) - offset).toNat = (before.drop offset).length := by omega
    rw [hindex]
    refine ⟨?_, ?_, ?_⟩
    · rw [length_append]
      exact Nat.le_add_right ..
    · rw [take_left, take_left]
    · rw [drop_left]
      exact hrecords
  · rw [hfloor, length_append, hlength]
    omega
  · -- what came since would begin the new records
    rintro ⟨hall, hend, -⟩
    rw [length_append, hlength] at hall
    rw [length_append] at hend
    have hwhole : after.take (min records.length after.length) = after := by
      apply take_of_length_le
      rw [length_take] at hall
      omega
    have hprefix := hleft (by omega)
    rw [hwhole] at hprefix
    exact not_prefix_of_lines hafter hline (fun line hline hmem => hnew line hmem hline) hprefix
  · -- the new records would begin what came since
    rw [length_append, hlength]
    intro hall
    have hprefix := (hright (by omega)).trans ( take_prefix _ _)
    exact not_prefix_of_lines (complete_ne_nil hrecords) (complete_getLast hrecords) hnew hprefix

end

/-! ## The server over a file that can be appended to -/

section
variable {σ : Type} {c : Core σ} {jsonValid : Bytes → Bool} {id : Nat} {I : σ → Bytes → Prop} {Room : σ → Bytes → Prop}
variable {s : Serving σ} {file : Bytes} {offset : Nat}

/-- What the server relies on: the core handle shows a file and appends to it what there is
    room for, or refuses. -/
structure Appendable (c : Core σ) (id : Nat) (I : σ → Bytes → Prop) (Room : σ → Bytes → Prop) : Prop where
  getattr : ∀ s file, I s file → Runs (c.getattr id) s file.length s
  read : ∀ s file offset length, I s file → offset + length ≤ file.length → Concludes (c.read id offset length) s
    (fun b t => t = s ∧ b = (file.drop offset).take length) fun _ t => t = s
  write : ∀ s file data, I s file → data ≠ [] → Room s data → Concludes (c.write id data file.length) s
    (fun _ t => I t (file ++ data)) fun _ t => I t file

structure Snapshotting (id : Nat) (I : σ → Bytes → Prop) (s : Serving σ) (file : Bytes) : Prop where
  snapshotWrite : s.handle.snapshotWrite = true
  coreHandle : s.handle.coreHandle = id
  shows : I s.core file

section

variable (h : Appendable c id I Room)
include h

theorem readOverlap_concludes (hs : I s.core file) {length : Nat} (hle : offset + length ≤ file.length) :
    Concludes (readOverlap c id offset length) s
      (fun b t => t = s ∧ b = (file.drop offset).take length) fun _ t => t = s := by
  unfold readOverlap
  by_cases hpos : 0 < length
  · rw [if_pos hpos]
    refine .onPart' ((h.read s.core file offset length hs hle).mono (fun b t ht => ⟨?_, ht.2⟩) fun _ t ht => ?_)
    · rw [ht.1]
    · rw [ht]
  · rw [if_neg hpos]
    refine .pure' ⟨rfl, ?_⟩
    rw [show length = 0 by omega, take_zero]

theorem writeSnapshot_concludes {data records : Bytes} {k : Nat} (hs : Snapshotting id I s file)
    (hoffset : offset ≤ file.length) (hdata : data.drop k = records) (hne : records ≠ []) (hroom : Room s.core records)
    {floor : Int}
    (hdecision : (snapshotDecision jsonValid s.handle.snapshotFloor data ((file.drop offset).take (min data.length (file.length - offset))) offset file.length = .appendCurrent k ∧ floor = file.length) ∨ (snapshotDecision jsonValid s.handle.snapshotFloor data ((file.drop offset).take (min data.length (file.length - offset))) offset file.length = .appendStale k ∧ floor = s.handle.snapshotFloor)) :
    Concludes (writeSnapshot c jsonValid data offset file.length) s
      (fun _ t => Snapshotting id I t (file ++ records) ∧ t.handle.snapshotFloor = floor)
      (fun _ t => Snapshotting id I t file ∧ t.handle.snapshotFloor = s.handle.snapshotFloor) := by
  have hwrite : Concludes (onCore (c.write id records file.length)) s
      (fun _ t => t.handle = s.handle ∧ I t.core (file ++ records)) (fun _ t => t.handle = s.handle ∧ I t.core file) :=
    .onPart' ((h.write s.core file records hs.shows hne hroom).mono (fun _ _ ht => ⟨rfl, ht⟩) fun _ _ ht => ⟨rfl, ht⟩)
  have hfailed : ∀ (_ : String) t, t.handle = s.handle ∧ I t.core file →
      Snapshotting id I t file ∧ t.handle.snapshotFloor = s.handle.snapshotFloor := by
    intro _ t ht
    exact ⟨⟨by rw [ht.1]; exact hs.snapshotWrite, by rw [ht.1]; exact hs.coreHandle, ht.2⟩, by rw [ht.1]⟩
  have hread := readOverlap_concludes h hs.shows (show offset + min data.length (file.length - offset) ≤ file.length by omega)
  rw [← hs.coreHandle] at hread
  refine .read' (.bind' hread ?_ fun _ t ht => ?_)
  swap
  · rw [ht]
    exact ⟨hs, rfl⟩
  rintro current t ⟨rfl, rfl⟩
  rcases hdecision with ⟨hdecision, rfl⟩ | ⟨hdecision, rfl⟩
  · rw [hdecision]
    dsimp only
    rw [hdata, hs.coreHandle]
    refine .bind' hwrite (fun _ t ht => .modify' (.pure' ?_)) hfailed
    exact ⟨⟨by rw [ht.1]; exact hs.snapshotWrite, by rw [ht.1]; exact hs.coreHandle, ht.2⟩, rfl⟩
  · rw [hdecision]
    dsimp only
    rw [hdata, hs.coreHandle]
    refine .bind' hwrite (fun _ t ht => .pure' ?_) hfailed
    exact ⟨⟨by rw [ht.1]; exact hs.snapshotWrite, by rw [ht.1]; exact hs.coreHandle, ht.2⟩, by rw [ht.1]⟩

theorem writeHandle_concludes {data : Bytes} (hs : Snapshotting id I s file) (hoffset : offset ≤ file.length)
    (hne : data ≠ []) {Q : Nat × Bool → Serving σ → Prop} {E : String → Serving σ → Prop}
    (hx : Concludes (writeSnapshot c jsonValid data offset file.length) s Q E) :
    Concludes (writeHandle c jsonValid data offset) s Q E := by
  refine .read' ?_
  rw [hs.snapshotWrite, hs.coreHandle, isEmpty_eq_false_iff.mpr hne]
  rw [if_neg (by decide)]
  have hgetattr := h.getattr s.core file hs.shows
  refine .after (.onPart' hgetattr) ?_
  rw [if_neg (by simp [hoffset]), Int.toNat_natCast]
  exact hx

end

theorem writeHandle_end {data : Bytes} {size : Nat} (hsnapshot : s.handle.snapshotWrite)
    (hgetattr : Runs (c.getattr s.handle.coreHandle) s.core size s.core) (hcomplete : completeJSONL jsonValid data)
    {Q : Nat → σ → Prop} {E : String → σ → Prop} (hwrite : Concludes (c.write s.handle.coreHandle data size) s.core Q E) :
    Concludes (writeHandle c jsonValid data size) s
      (fun r t => r = (data.length, true) ∧ t.handle.coreHandle = s.handle.coreHandle ∧ t.handle.snapshotWrite ∧
        ∃ n, Q n t.core) (fun e t => t.handle = s.handle ∧ E e t.core) := by
  have hne := complete_ne_nil hcomplete
  have hdecision : snapshotDecision jsonValid s.handle.snapshotFloor data [] size size = .appendCurrent 0 := by
    have hpos : 0 ≠ data.length := (length_pos_iff.mpr hne).ne
    simp [snapshotDecision, commonPrefixBytes_nil, hpos, hcomplete]
  have hcore : Concludes (onCore (c.write s.handle.coreHandle data size)) s
      (fun n t => t.handle = s.handle ∧ Q n t.core) (fun e t => t.handle = s.handle ∧ E e t.core) :=
    .onPart' (hwrite.mono (fun _ _ hq => ⟨rfl, hq⟩) fun _ _ he => ⟨rfl, he⟩)
  have hoverlap : Runs (readOverlap c s.handle.coreHandle size (min data.length (size - size))) s [] s := by
    rw [Nat.sub_self, Nat.min_zero]
    exact .pure' [] s
  refine .read' ?_
  rw [hsnapshot, isEmpty_eq_false_iff.mpr hne, if_neg (by decide)]
  refine .after (.onPart' hgetattr) ?_
  rw [if_neg (by simp), Int.toNat_natCast]
  refine .read' (.after hoverlap ?_)
  rw [hdecision]
  refine .bind' hcore (fun n t ht => .modify' (.pure' ⟨rfl, ?_, ?_, n, ht.2⟩)) fun _ _ h => h
  · show t.handle.coreHandle = s.handle.coreHandle
    rw [ht.1]
  · show t.handle.snapshotWrite = true
    rw [ht.1, hsnapshot]

theorem writeHandle_present {data : Bytes} (hsnapshot : s.handle.snapshotWrite)
    (hgetattr : Runs (c.getattr s.handle.coreHandle) s.core file.length s.core)
    (hread : Concludes (c.read s.handle.coreHandle offset data.length) s.core
      (fun b t => t = s.core ∧ b = (file.drop offset).take data.length) fun _ t => t = s.core)
    (hne : data ≠ []) (hpresent : (file.drop offset).take data.length = data) :
    Concludes (writeHandle c jsonValid data offset) s (fun _ t => t = s) fun _ t => t = s := by
  have hpos := length_pos_iff.mpr hne
  have hlength : data.length ≤ file.length - offset := by
    have h := congrArg length hpresent
    rw [length_take, length_drop] at h
    omega
  have hdecision : snapshotDecision jsonValid s.handle.snapshotFloor data data offset file.length = .present := by
    have hcommon : commonPrefixBytes data data = data.length := by
      have h := commonPrefixBytes_append data [] []
      rwa [append_nil, commonPrefixBytes_nil] at h
    unfold snapshotDecision
    rw [hcommon]
    exact if_pos rfl
  have hoverlap : Concludes (readOverlap c s.handle.coreHandle offset (min data.length (file.length - offset))) s
      (fun b t => t = s ∧ b = data) fun _ t => t = s := by
    rw [Nat.min_eq_left hlength]
    unfold readOverlap
    rw [if_pos hpos]
    refine .onPart' (hread.mono (fun b t ht => ⟨?_, ht.2.trans hpresent⟩) fun _ t ht => ?_)
    · rw [ht.1]
    · rw [ht]
  refine .read' ?_
  rw [hsnapshot, isEmpty_eq_false_iff.mpr hne, if_neg (by decide)]
  refine .after (.onPart' hgetattr) ?_
  rw [if_neg (by simp; omega), Int.toNat_natCast]
  refine .read' (.bind' hoverlap ?_ fun _ _ h => h)
  rintro _ _ ⟨rfl, rfl⟩
  rw [hdecision]
  exact .pure' rfl

/-! ## Runs of windows -/

structure Window where
  view : Bytes
  offset : Nat
  records : Bytes

def Window.data (w : Window) : Bytes := w.view.drop w.offset ++ w.records

structure Windowed (σ : Type) where
  serving : Serving σ
  acknowledged : Bytes
  views : List Bytes

def Windowed.step (c : Core σ) (jsonValid : Bytes → Bool) (look : σ → Bytes) (l : Windowed σ) (w : Window) :
    Option (Windowed σ) :=
  match writeHandle c jsonValid w.data w.offset [] l.serving with
  | (.done _, s, _) => some ⟨s, l.acknowledged ++ w.records, l.views ++ [look s.core]⟩
  | (.failed _, s, _) => some ⟨s, l.acknowledged, l.views ++ [look s.core]⟩
  | (.crashed, _, _) => none

/-- A write of a client: what it sends was visible once, and its records are complete and
    different from those before. -/
structure Window.Sent (jsonValid : Bytes → Bool) (l : Windowed σ) (w : Window) : Prop where
  seen : w.view ∈ l.views
  within : w.offset ≤ w.view.length
  complete : completeJSONL jsonValid w.records = true
  new : ∀ line ∈ cutAfter newline w.records, line ∉ cutAfter newline l.acknowledged

/-- The client has seen the file as it is, or as it was when the last window over the
    current file came, and there is room for the records. -/
structure Window.Timely (look : σ → Bytes) (Room : σ → Bytes → Prop) (l : Windowed σ) (w : Window) : Prop where
  view : w.view = look l.serving.core ∨ (w.view.length : Int) = l.serving.handle.snapshotFloor
  room : Room l.serving.core w.records

instance (jsonValid : Bytes → Bool) (l : Windowed σ) (w : Window) : Decidable (w.Sent jsonValid l) :=
  decidable_of_iff (w.view ∈ l.views ∧ w.offset ≤ w.view.length ∧ completeJSONL jsonValid w.records = true ∧
      ∀ line ∈ cutAfter newline w.records, line ∉ cutAfter newline l.acknowledged)
    ⟨fun h => ⟨h.1, h.2.1, h.2.2.1, h.2.2.2⟩, fun h => ⟨h.seen, h.within, h.complete, h.new⟩⟩

instance (look : σ → Bytes) (Room : σ → Bytes → Prop) [∀ s data, Decidable (Room s data)] (l : Windowed σ) (w : Window) :
    Decidable (w.Timely look Room l) :=
  decidable_of_iff ((w.view = look l.serving.core ∨ (w.view.length : Int) = l.serving.handle.snapshotFloor) ∧
    Room l.serving.core w.records) ⟨fun h => ⟨h.1, h.2⟩, fun h => ⟨h.view, h.room⟩⟩

structure Whole (id : Nat) (I : σ → Bytes → Prop) (initial : Bytes) (l : Windowed σ) : Prop where
  snapshotting : Snapshotting id I l.serving (initial ++ l.acknowledged)
  lines : l.acknowledged = [] ∨ l.acknowledged.getLast? = some newline
  floor : l.serving.handle.snapshotFloor = -1 ∨ ∃ before after, l.acknowledged = before ++ after ∧ after ≠ [] ∧
    (before = [] ∨ before.getLast? = some newline) ∧ l.serving.handle.snapshotFloor = (initial ++ before).length
  views : ∀ view ∈ l.views, view <+: initial ++ l.acknowledged

theorem getLast?_append_records {acknowledged records : Bytes} (hline : records.getLast? = some newline) :
    (acknowledged ++ records).getLast? = some newline := by
  rw [getLast?_append, hline]
  rfl

section
variable (h : Appendable c id I Room) {look : σ → Bytes} (hlook : ∀ s file, I s file → look s = file) {initial : Bytes}
  {l : Windowed σ} {w : Window} (hl : Whole id I initial l) (hsent : w.Sent jsonValid l) (htimely : w.Timely look Room l)
include h hlook hl hsent htimely

theorem Whole.writes : Concludes (writeHandle c jsonValid w.data w.offset) l.serving
    (fun _ t => Snapshotting id I t (initial ++ l.acknowledged ++ w.records) ∧
      (t.handle.snapshotFloor = (initial ++ l.acknowledged).length ∨
        t.handle.snapshotFloor = l.serving.handle.snapshotFloor ∧ l.serving.handle.snapshotFloor ≠ -1))
    (fun _ t => Snapshotting id I t (initial ++ l.acknowledged) ∧
      t.handle.snapshotFloor = l.serving.handle.snapshotFloor) := by
  have hne := complete_ne_nil hsent.complete
  obtain ⟨rest, hrest⟩ := hl.views w.view hsent.seen
  have hdata : w.data ≠ [] := append_ne_nil_of_right_ne_nil _ hne
  have hwithin := hsent.within
  by_cases hview : w.view = initial ++ l.acknowledged
  · rw [hview] at hwithin
    have hrecords : w.data.drop ((initial ++ l.acknowledged).length - w.offset) = w.records := by
      rw [Window.data, hview, ← length_drop, drop_left]
    refine writeHandle_concludes h hl.snapshotting hwithin hdata ((writeSnapshot_concludes h hl.snapshotting hwithin hrecords
      hne htimely.room (.inl ⟨?_, rfl⟩)).mono (fun _ t ht => ⟨ht.1, .inl ht.2⟩) fun _ t ht => ht)
    rw [Window.data, hview]
    exact snapshotDecision_current hwithin hsent.complete
  · have hlength := htimely.view.resolve_left fun h => hview (h.trans (hlook _ _ hl.snapshotting.shows))
    rcases hl.floor with hnone | ⟨before, after, hack, hafter, hbefore, hfloor⟩
    · omega
    have hbefore' : w.view = initial ++ before := by
      rw [hack, ← append_assoc] at hrest
      exact (append_inj hrest (by exact_mod_cast hlength.trans hfloor)).1
    have hafterline : after.getLast? = some newline := by
      rcases hl.lines with hnil | hlast
      · rw [hack] at hnil
        exact absurd (append_eq_nil_iff.mp hnil).2 hafter
      · rw [hack, getLast?_append_of_ne_nil _ hafter] at hlast
        exact hlast
    have hfile : initial ++ l.acknowledged = w.view ++ after := by rw [hack, hbefore', append_assoc]
    have hsnapshot := hl.snapshotting
    rw [hfile] at hsnapshot ⊢
    have hwithin' : w.offset ≤ (w.view ++ after).length := by
      rw [length_append]
      omega
    have hrecords : w.data.drop (w.view.length - w.offset) = w.records := by
      rw [Window.data, ← length_drop, drop_left]
    refine writeHandle_concludes h hsnapshot hwithin' hdata ((writeSnapshot_concludes h hsnapshot hwithin' hrecords
      hne htimely.room (.inr ⟨?_, rfl⟩)).mono (fun _ t ht => ⟨ht.1, .inr ⟨ht.2, by omega⟩⟩) fun _ t ht => ht)
    refine snapshotDecision_stale hwithin hlength.symm hsent.complete hafter hafterline fun line hline hmem => ?_
    refine hsent.new line hline ?_
    rw [hack, cutAfter_append hbefore]
    exact mem_append_right _ hmem

/-- The step lemma: the records of a timely window are appended, or the write is refused. -/
theorem Whole.step : ∃ l', l.step c jsonValid look w = some l' ∧ Whole id I initial l' := by
  have hne := complete_ne_nil hsent.complete
  have hline := complete_getLast hsent.complete
  have hviews : ∀ {acknowledged : Bytes} {s : Serving σ}, Snapshotting id I s (initial ++ acknowledged) →
      (initial ++ l.acknowledged) <+: (initial ++ acknowledged) → ∀ view ∈ l.views ++ [look s.core],
        view <+: initial ++ acknowledged := by
    intro acknowledged s hs hle view hview
    rcases mem_append.mp hview with hview | hview
    · exact (hl.views view hview).trans hle
    · rw [mem_singleton.mp hview, hlook _ _ hs.shows]
  unfold Windowed.step
  rcases hl.writes h hlook hsent htimely with ⟨_, t, hrun, ht, hfloor⟩ | ⟨_, t, hrun, ht, hfloor⟩
  · rw [hrun.eq]
    rw [append_assoc] at ht
    refine ⟨_, rfl, ht, .inr (getLast?_append_records hline), .inr ?_, hviews ht ?_⟩
    · rcases hfloor with hfloor | ⟨hfloor, hsome⟩
      · exact ⟨l.acknowledged, w.records, rfl, hne, hl.lines, hfloor⟩
      · obtain ⟨before, after, hack, hafter, hbefore, hold⟩ := hl.floor.resolve_left hsome
        refine ⟨before, after ++ w.records, ?_, append_ne_nil_of_right_ne_nil _ hne, hbefore, hfloor.trans hold⟩
        show l.acknowledged ++ w.records = _
        rw [hack, append_assoc]
    · rw [← append_assoc]
      exact prefix_append _ _
  · rw [hrun]
    exact ⟨_, rfl, ht, hl.lines, hfloor ▸ hl.floor, hviews ht (prefix_refl _)⟩

end

def Windowed.opened (core : σ) (id : Nat) (initial : Bytes) : Windowed σ := ⟨⟨core, addHandle id⟩, [], [initial]⟩

/-- The run lemma. -/
theorem Whole.run (h : Appendable c id I Room) {look : σ → Bytes} (hlook : ∀ s file, I s file → look s = file) {core : σ}
    {initial : Bytes} (hcore : I core initial) (windows : List Window)
    (hwindows : Along (Windowed.step c jsonValid look) (fun l w => w.Sent jsonValid l ∧ w.Timely look Room l)
      (Windowed.opened core id initial) windows) :
    ∃ l, runFrom (Windowed.step c jsonValid look) (Windowed.opened core id initial) windows = some l ∧ Whole id I initial l := by
  refine Along.reaches (fun l w hl hw => hl.step h hlook hw.1 hw.2) windows ⟨⟨rfl, rfl, ?_⟩, .inl rfl, .inl rfl, ?_⟩ hwindows
  · show I core (initial ++ [])
    rw [append_nil]
    exact hcore
  · intro view hview
    rw [mem_singleton.mp hview]
    exact prefix_append _ _

end

end CodexFold.Mount
