import CodexFold.Foundation.Positions
import CodexFold.Mount.Acknowledged
import CodexFold.Mount.Native

/- What the methods of an append state do to the disk under every schedule.

   Only a commit, a truncation and a positional write change the file. The commit is
   followed through its phases; of the other two it is said how far they get when a fault
   stops them at a given effect. -/
namespace CodexFold.Mount
open Foundation List Option Function

/-! ## Operations on the disk -/

section
variable {i : Nat} {d : Disk} (path : Path)

theorem openPath_counted : Counted i (· = d) (openPath path)
    (fun j object t => j = i + 1 ∧ t = d ∧ d.files.get path = some object)
    (· = d ∧ d.files.get path = none) (fun n t => n = i ∧ t = d) := by
  refine .point' (fun _ h => ⟨rfl, h⟩) (.readAt ?_)
  unfold Disk.lookup
  cases hfound : d.files.get path with
  | some object => exact .pure' object fun t ht => ⟨rfl, ht, rfl⟩
  | none => exact .throw' enoent fun _ h => ⟨h, rfl⟩

theorem syncNativePath_counted : Counted i (· = d) (syncNativePath path)
    (fun j _ t => j = i + 3 ∧ t = d) (· = d ∧ d.files.get path = none) (fun n t => (i ≤ n ∧ n ≤ i + 2) ∧ t = d) := by
  refine .step ((openPath_counted path).post (fun _ _ _ h => h) (fun _ h => h) fun n t h => ⟨by omega, h.2⟩)
    fun object => .pre ?_ fun t h => h.1
  refine .point' (fun t h => ⟨by omega, h⟩) ?_
  exact .effect' _ id (fun t h => ⟨rfl, h⟩) fun t h => ⟨by omega, h⟩

theorem truncatePath_counted (size : Nat) : Counted i (· = d) (truncatePath path size)
    (fun j _ t => j = i + 2 ∧ ∃ o, d.files.get path = some o ∧ t = d.setContents o (resize 0 (d.contents o) size))
    (· = d) (fun n t => n ≤ i + 1 ∧ t = d) := by
  refine .step ((openPath_counted path).post (fun _ _ _ h => h) (fun _ h => h.1) fun n t h => ⟨by omega, h.2⟩)
    fun object => .given fun hfile => ?_
  refine .effect' _ _ (fun t ht => ⟨rfl, object, hfile, ?_⟩) fun t h => ⟨by omega, h⟩
  rw [ht]

end

theorem writeFileAt_counted {R : Disk → Prop} : ∀ (data : Bytes) (i : Nat) (d : Disk) (o offset : Nat),
    Counted i (· = d) (writeFileAt o offset data)
      (fun j _ t => j = i + data.length ∧ t = d.setContents o (overlay 0 (d.contents o) offset data)) R
      (fun n t => i ≤ n ∧ n < i + data.length ∧
        t = d.setContents o (overlay 0 (d.contents o) offset (data.take (n - i))))
  | [], i, d, o, offset => by
    refine .pure' () fun t ht => ⟨rfl, ?_⟩
    rw [overlay_nil, Disk.setContents_contents]
    exact ht
  | b :: data, i, d, o, offset => by
    have hrest := writeFileAt_counted (R := R) data (i + 1) (d.setContents o (put 0 (d.contents o) offset b)) o (offset + 1)
    simp only [Disk.setContents_self, Disk.setContents_setContents, ← overlay_cons] at hrest
    refine .step (.effect' _ _ (fun t ht => ⟨rfl, ?_⟩) fun t ht => ⟨le_refl i, ?_, ?_⟩) fun _ =>
      hrest.post (fun j _ t h => ⟨?_, h.2⟩) (fun _ h => h) fun n t h => ?_
    · rw [ht]
    · rw [length_cons]
      omega
    · rw [Nat.sub_self, take_zero, overlay_nil, Disk.setContents_contents]
      exact ht
    · rw [h.1, length_cons]
      omega
    · obtain ⟨hle, hlt, rfl⟩ := h
      refine ⟨by omega, by rw [length_cons]; omega, ?_⟩
      rw [show n - i = n - (i + 1) + 1 by omega, take_succ_cons]

theorem rename_cases {d d' : Disk} {old new : Path} (h : d.rename old new = .ok d') :
    (∃ o, d.files.get old = some o ∧ d' = { d with files := (d.files.erase old).set new o }) ∨
      (d.files.get old = none ∧ old ∈ d.directories ∧ new ∉ d.directories ∧ ¬old <+: new ∧ d.files.get new = none ∧
        d' = { d with
          files := d.files.rekey (Disk.moved old new)
          directories := d.directories.map (Disk.moved old new) }) := by
  unfold Disk.rename at h
  cases hold : d.files.get old with
  | some o =>
    rw [hold] at h
    dsimp only at h
    obtain ⟨-, h⟩ := of_guard h
    obtain ⟨-, h⟩ := of_guard h
    cases h
    exact .inl ⟨o, rfl, rfl⟩
  | none =>
    rw [hold] at h
    dsimp only at h
    split at h
    · cases h
    split at h
    · cases h
    split at h
    · cases h
    obtain ⟨-, h⟩ := of_guard h
    rename_i hdirs hnew hprefix htarget
    cases h
    refine .inr ⟨rfl, ?_, ?_, ?_, ?_, rfl⟩
    · simp only [Bool.or_eq_true, not_or, Bool.not_eq_true', Bool.not_eq_false, contains_iff_mem] at hdirs
      exact hdirs.1
    · simpa using hnew
    · simpa using hprefix
    · simpa using htarget

theorem remove_cases {d d' : Disk} {path : Path} (h : d.remove path = .ok d') :
    (∃ o, d.files.get path = some o ∧ d' = { d with files := d.files.erase path }) ∨
      (d.files.get path = none ∧ d' = { d with directories := d.directories.filter (· != path) }) := by
  unfold Disk.remove at h
  cases hfile : d.files.get path with
  | some o =>
    rw [hfile] at h
    cases h
    exact .inl ⟨o, rfl, rfl⟩
  | none =>
    rw [hfile] at h
    dsimp only at h
    obtain ⟨-, h⟩ := of_guard h
    obtain ⟨-, h⟩ := of_guard h
    cases h
    exact .inr ⟨rfl, rfl⟩

theorem openNativeBacking_cases {d d' : Disk} {path : Path} {create excl : Bool} {o : Nat}
    (h : d.openNativeBacking path create excl = .ok (o, d')) :
    (d.files.get path = some o ∧ d' = d) ∨ (d.files.get path = none ∧ create ∧ o = d.fresh ∧
      d' = { d.setContents d.fresh [] with files := d.files.set path d.fresh, fresh := d.fresh + 1 }) := by
  unfold Disk.openNativeBacking at h
  cases hfile : d.files.get path with
  | some object =>
    rw [hfile] at h
    dsimp only at h
    obtain ⟨-, h⟩ := of_guard h
    cases h
    exact .inl ⟨rfl, rfl⟩
  | none =>
    rw [hfile] at h
    dsimp only at h
    obtain ⟨-, h⟩ := of_guard h
    split at h
    · rename_i hcreate
      cases h
      exact .inr ⟨rfl, (Bool.and_eq_true_iff.mp hcreate).1, rfl, rfl⟩
    · cases h

/-! ## Methods of an append state -/

section
variable {i : Nat} {a : Appending}

theorem truncate_counted (size : Int) : Counted i (· = a) (truncate size)
    (fun j _ t => j = i + 5 ∧ 0 ≤ size ∧ a.state.segments = [] ∧ ∃ o, a.disk.files.get a.state.path = some o ∧
      t = ⟨a.state.resized size.toNat, a.disk.setContents o (resize 0 (a.disk.contents o) size.toNat)⟩) (· = a)
    (fun n t => t.state = a.state ∧ (t.disk = a.disk ∨ ((i + 2 ≤ n ∧ n ≤ i + 4) ∧
      0 ≤ size ∧ a.state.segments = [] ∧ ∃ o, a.disk.files.get a.state.path = some o ∧
      t.disk = a.disk.setContents o (resize 0 (a.disk.contents o) size.toNat)))) := by
  refine .ensure' (fun hsize => .readAt ?_) fun _ t h => h
  refine .ensure' (fun hidle => ?_) fun _ t h => h
  have hsize : 0 ≤ size := of_decide_eq_true hsize
  have hidle : a.state.segments = [] := List.isEmpty_iff.mp hidle
  have hcut := truncatePath_counted (i := i) (d := a.disk) a.state.path size.toNat
  refine .step (j := i + 2) (M := fun _ t => ∃ o, a.disk.files.get a.state.path = some o ∧
    t = { a with disk := a.disk.setContents o (resize 0 (a.disk.contents o) size.toNat) }) ?_ fun _ => ?_
  · refine .onPart' (hcut.post (fun j _ d h => ?_) (fun d h => ?_) fun n d h => ?_)
    · obtain ⟨hj, o, hfile, rfl⟩ := h
      exact ⟨hj, o, hfile, rfl⟩
    · rw [h]
    · exact ⟨rfl, .inl h.2⟩
  · refine .at' fun t ⟨o, hfile, ht⟩ => ?_
    subst ht
    refine .step (j := i + 5) (M := fun _ t =>
      t = { a with disk := a.disk.setContents o (resize 0 (a.disk.contents o) size.toNat) })
      (.onPart' ((syncNativePath_counted a.state.path).post (fun j _ d h => ⟨by omega, ?_⟩) (fun d h => ?_)
        fun n d h => ?_)) fun _ => ?_
    · rw [h.2]
    · rw [Disk.setContents_files, hfile] at h
      exact absurd h.2 (by simp)
    · exact ⟨rfl, .inr ⟨by omega, hsize, hidle, o, hfile, h.2⟩⟩
    · exact .modify' _ fun t ht => ⟨rfl, hsize, hidle, o, hfile, by rw [ht]⟩

theorem writeAt_counted (object : Nat) (writable : Bool) (data : Bytes) (offset : Int) :
    Counted i (· = a) (writeAt object writable data offset)
      (fun j _ t => j = i + data.length + 1 ∧ (0 ≤ offset ∧ a.state.segments = [] ∧ (writable || data.isEmpty)) ∧
        t.disk = a.disk.setContents object (overlay 0 (a.disk.contents object) offset.toNat data) ∧
        t.state = a.state.resized (overlay 0 (a.disk.contents object) offset.toNat data).length) (· = a)
      (fun n t => ((i ≤ n ∧ n ≤ i + data.length) ∧ 0 ≤ offset ∧ a.state.segments = [] ∧
          (writable || data.isEmpty)) ∧ t.state = a.state ∧
        t.disk = a.disk.setContents object (overlay 0 (a.disk.contents object) offset.toNat (data.take (n - i)))) := by
  refine .ensure' (fun hoffset => .readAt ?_) fun _ t h => h
  refine .ensure' (fun hidle => ?_) fun _ t h => h
  refine .ensure' (fun hwritable => ?_) fun _ t h => h
  have hoffset : 0 ≤ offset := of_decide_eq_true hoffset
  have hidle : a.state.segments = [] := List.isEmpty_iff.mp hidle
  refine .step (M := fun _ t =>
    t = { a with disk := a.disk.setContents object (overlay 0 (a.disk.contents object) offset.toNat data) })
    (.onPart' ((writeFileAt_counted (R := fun _ => False) data i a.disk object offset.toNat).post
      (fun j _ d h => ⟨h.1, by rw [h.2]⟩) nofun fun n d h => ?_)) fun _ => ?_
  · exact ⟨⟨by omega, hoffset, hidle, hwritable⟩, rfl, h.2.2⟩
  refine .step (M := fun _ t =>
    t = { a with disk := a.disk.setContents object (overlay 0 (a.disk.contents object) offset.toNat data) })
    (.at' fun t ht => .onPart' (.effect' _ id (fun d hd => ⟨rfl, ?_⟩) fun d hd => ?_)) fun _ => ?_
  · rw [show id d = d from rfl, hd, ht]
  · rw [hd, ht]
    refine ⟨⟨by omega, hoffset, hidle, hwritable⟩, rfl, ?_⟩
    rw [Nat.add_sub_cancel_left, take_length]
  refine .at' fun t ht => .readAt ?_
  rw [ht, Disk.setContents_self]
  refine .step (M := fun _ t => t.disk = a.disk.setContents object
    (overlay 0 (a.disk.contents object) offset.toNat data) ∧
    t.state = a.state.resized (overlay 0 (a.disk.contents object) offset.toNat data).length)
    (.modify' _ fun u hu => ⟨rfl, by rw [hu], by rw [hu]⟩) fun _ => ?_
  exact .pure' _ fun u hu => ⟨rfl, ⟨hoffset, hidle, hwritable⟩, hu⟩

theorem stageLocked_path {s t : NativeAppendState} {committed data : Bytes} {offset : Nat}
    (h : s.stageLocked committed data offset = .ok t) : t.path = s.path := by
  obtain ⟨_, -, h⟩ := of_bind h
  split at h
  · cases h
    rfl
  · obtain ⟨_, -, h⟩ := of_bind h
    obtain ⟨_, -, h⟩ := of_bind h
    cases h
    rfl

def Untouched (a t : Appending) : Prop := t.disk = a.disk ∧ t.state.path = a.state.path

theorem onDisk_untouched {α : Type} {x : DiskProg α} {b : Appending} (hb : Untouched a b)
    (hx : Keeps (· = b.disk) x) : SpecOr (· = b) (onDisk x) (fun _ t => t = b) (Untouched a) := by
  refine .onPart' fun t ht => ?_
  subst ht
  refine hx.mono (fun _ d hd => by rw [hd]) fun d hd => ?_
  rw [hd]
  exact hb

theorem openPath_keeps {P : Disk → Prop} (path : Path) : Keeps P (openPath path) :=
  (openPath_spec path (fun _ _ h => h) fun _ h => h).weaken fun _ _ h => h.1

theorem readCommitted_keeps {P : Disk → Prop} (s : NativeAppendState) (data : Bytes) (offset : Nat) :
    Keeps P (readCommitted s data offset) := by
  refine .ite' ?_ (.pure' _)
  refine .bind' (openPath_keeps s.path) fun object => ?_
  exact .bind' (.point' _) fun _ => .bind' (.point' _) fun _ => .bind' (.read' _) fun _ =>
    .pure' _

theorem stage_untouched (data : Bytes) (offset : Int) : LeadsTo (· = a) (stage data offset) (Untouched a) := by
  have hself : ∀ t, t = a → Untouched a t := fun t ht => ht ▸ ⟨rfl, rfl⟩
  refine .ensured hself fun _ => ?_
  refine .ite' (fun _ => .pure' _ hself) fun _ => ?_
  refine .ensured hself fun _ => .readAt ?_
  refine .bind' (onDisk_untouched ⟨rfl, rfl⟩ (readCommitted_keeps _ _ _)) fun committed => ?_
  cases hstage : a.state.stageLocked committed data offset.toNat with
  | ok staged =>
    refine .bind' (.modify' _ fun t ht => ?_) fun _ => .pure' _ fun _ h => h
    rw [ht]
    exact ⟨rfl, stageLocked_path hstage⟩
  | error e =>
    refine .bind' (.modify' _ fun t ht => ?_) fun _ => .throw' _ fun _ h => h
    rw [ht]
    exact ⟨rfl, rfl⟩

theorem refreshIfIdle_counted : Counted i (· = a) refreshIfIdle
    (fun j _ t => (a.state.segments = [] → j = i + 1) ∧ Untouched a t ∧ t.state.segments = a.state.segments)
    (· = a) (fun _ t => t = a) := by
  refine .readAt ?_
  by_cases hidle : a.state.segments = []
  · rw [if_neg (by simp [hidle])]
    refine .step (M := fun object t => t = a) (.onPart' ((openPath_counted a.state.path).post
      (fun j _ d h => ⟨h.1, by rw [h.2.1]⟩) (fun d h => by rw [h.1]) fun n d h => by rw [h.2])) fun object => ?_
    refine .readAt (.modify' _ fun t ht => ⟨fun _ => rfl, ?_⟩)
    rw [ht]
    exact ⟨⟨rfl, rfl⟩, rfl⟩
  · rw [if_pos (by simp [hidle])]
    exact .pure' () fun t ht => ⟨fun h => absurd h hidle, by rw [ht]; exact ⟨rfl, rfl⟩, by rw [ht]⟩

end

theorem change_counted {i : Nat} {d : Disk} (f : Disk → Except String Disk) : Counted i (· = d) (change f)
    (fun j _ t => j = i + 1 ∧ f d = .ok t) (· = d) (fun n t => n = i ∧ t = d) := by
  refine .readAt (.checked (fun _ h => h) fun d' hd' => ?_)
  exact .effect' _ _ (fun t ht => ⟨rfl, hd'⟩) fun t ht => ⟨rfl, ht⟩

/-! ## The commit -/

structure Written where
  object : Nat
  offset : Nat
  data : Bytes

def Appending.committing (a : Appending) : Option Written :=
  if a.state.segments.isEmpty then none
  else
    match a.state.assembleLocked with
    | .error _ => none
    | .ok tail =>
      if tail.getLast? = some newline then
        (a.disk.files.get a.state.path).map fun object => ⟨object, a.state.baseSize, tail⟩
      else none

structure Commits (jsonValid : Bytes → Bool) (a : Appending) (o : Nat) (tail : Bytes) : Prop where
  file : a.disk.files.get a.state.path = some o
  committing : a.committing = some ⟨o, (a.disk.contents o).length, tail⟩
  complete : completeJSONL jsonValid tail = true

structure CommitDone (jsonValid : Bytes → Bool) (a t : Appending) : Prop where
  path : t.state.path = a.state.path
  segments : t.state.segments = [] ∨ t.state = a.state
  disk : (a.committing = none ∧ t.disk.durable = a.disk.durable) ∨
    ∃ o tail, Commits jsonValid a o tail ∧ t.disk.durable = (a.disk.durable.unjournaled a.state.path).appended o tail

structure CommitStopped (jsonValid : Bytes → Bool) (a t : Appending) : Prop where
  path : t.state.path = a.state.path
  segments : t.state.segments = [] ∨ t.state = a.state
  disk : t.disk.durable = a.disk.durable ∨ ∃ o tail, Commits jsonValid a o tail ∧ During a.disk a.state.path o tail t.disk

section
variable {a : Appending} {jsonValid : Bytes → Bool} {strict : Bool} {t : Appending}

theorem CommitStopped.of_eq (h : t = a) : CommitStopped jsonValid a t := by
  rw [h]
  exact ⟨rfl, .inr rfl, .inl rfl⟩

theorem CommitDone.stopped (h : CommitDone jsonValid a t) : CommitStopped jsonValid a t := by
  refine ⟨h.path, h.segments, h.disk.imp And.right ?_⟩
  rintro ⟨o, tail, hcommits, hdisk⟩
  exact ⟨o, tail, hcommits, .after tail (.inr rfl) hdisk⟩

theorem CommitStopped.cleared (h : CommitStopped jsonValid a t) : CommitStopped jsonValid a t.cleared :=
  ⟨h.path, .inl rfl, h.disk⟩

theorem drop_spec (e : String) : SpecOr (CommitStopped jsonValid a) (do clearPending; throw e : AppendProg Unit)
    (fun _ => CommitDone jsonValid a) (CommitStopped jsonValid a) :=
  .bind' (.modify' _ fun t ht => (ht.cleared : CommitStopped jsonValid a t.cleared)) fun _ => .throw' e fun _ h => h

theorem leave_spec {c : Bool} (hnone : a.committing = none) (e : String) :
    SpecOr (· = a) (if c then pure () else do clearPending; throw e : AppendProg Unit)
      (fun _ => CommitDone jsonValid a) (CommitStopped jsonValid a) := by
  refine .ite' (fun _ => .pure' () fun t ht => ?_) fun _ =>
    (drop_spec e).pre fun t ht => CommitStopped.of_eq ht
  rw [ht]
  exact ⟨rfl, .inr rfl, .inl ⟨hnone, rfl⟩⟩

theorem commitNativeAppend_refused {d : Disk} {path : Path} {size : Nat} (tail : Bytes)
    (h : ∀ o, d.files.get path = some o → (d.contents o).length ≠ size) :
    SpecOr (· = d) (commitNativeAppend path size tail) (fun _ _ => False) (· = d) := by
  refine .bind' (openPath_spec path (fun _ _ h => h) fun _ h => h) fun object => ?_
  refine .at' fun t ht => .readAt ?_
  obtain ⟨rfl, hfile⟩ := ht
  rw [beq_eq_false_iff_ne.mpr (h object hfile)]
  exact .bind' (M := fun _ _ => False) (.throw' _ fun _ h => h) nofun

theorem commitNativeAppend_spec (d : Disk) (path : Path) (size : Nat) (tail : Bytes) :
    SpecOr (· = d) (commitNativeAppend path size tail) (fun _ t => ∃ o, (d.files.get path = some o ∧ (d.contents o).length = size) ∧ t.durable = (d.durable.unjournaled path).appended o tail)
      (fun t => t.durable = d.durable ∨ ∃ o, (d.files.get path = some o ∧ (d.contents o).length = size) ∧ During d path o tail t) := by
  by_cases h : ∃ o, d.files.get path = some o ∧ (d.contents o).length = size
  · obtain ⟨o, hfile, rfl⟩ := h
    exact (commitNativeAppend_completes tail hfile).spec.mono (fun _ t ht => ⟨o, ⟨hfile, rfl⟩, ht⟩) fun t ht => .inr ⟨o, ⟨hfile, rfl⟩, ht⟩
  · refine (commitNativeAppend_refused tail fun o hfile hsize => h ⟨o, hfile, hsize⟩).mono nofun fun t ht => .inl ?_
    rw [ht]

theorem committing_of_tail {tail : Bytes} {o : Nat} (hpending : a.state.segments ≠ [])
    (htail : a.state.assembleLocked = .ok tail) (hline : tail.getLast? = some newline)
    (hcomplete : completeJSONL jsonValid tail)
    (hfile : a.disk.files.get a.state.path = some o ∧ (a.disk.contents o).length = a.state.baseSize) :
    Commits jsonValid a o tail := by
  refine ⟨hfile.1, ?_, hcomplete⟩
  unfold Appending.committing
  rw [if_neg (mt List.isEmpty_iff.mp hpending), htail, hfile.1]
  simp only [hline, if_true, map_some, hfile.2]

theorem commitTail_spec {tail : Bytes} (hpending : a.state.segments ≠ []) (htail : a.state.assembleLocked = .ok tail) :
    SpecOr (· = a) (commitTail jsonValid strict a.state tail) (fun _ => CommitDone jsonValid a)
      (CommitStopped jsonValid a) := by
  refine .ite' (fun hline => leave_spec ?_ _) fun hline => ?_
  · unfold Appending.committing
    rw [if_neg (mt List.isEmpty_iff.mp hpending), htail]
    simp only [if_neg (bne_iff_ne.mp hline)]
  have hline : tail.getLast? = some newline := by simpa using hline
  refine .ite' (fun _ => (drop_spec _).pre fun t ht => CommitStopped.of_eq ht) fun hvalid => ?_
  have hcomplete : completeJSONL jsonValid tail := by
    simp only [Bool.or_eq_true, not_or, Bool.not_eq_true', Bool.not_eq_false] at hvalid
    exact hvalid.2
  have hcommit := commitNativeAppend_spec a.disk a.state.path a.state.baseSize tail
  refine .bind' (M := fun _ t => t.state = a.state ∧ ∃ o, Commits jsonValid a o tail ∧
    t.disk.durable = (a.disk.durable.unjournaled a.state.path).appended o tail) ?_ fun _ => ?_
  · refine .onFailure' (F := fun _ => CommitStopped jsonValid a) (.onPart' fun t ht => ?_) fun _ =>
      .modify' _ fun t ht => ht.cleared
    subst ht
    refine hcommit.mono (fun _ d hd => ?_) fun d hd => ⟨rfl, .inr rfl, ?_⟩
    · obtain ⟨o, hfile, hdisk⟩ := hd
      exact ⟨rfl, o, committing_of_tail hpending htail hline hcomplete hfile, hdisk⟩
    · exact hd.imp id fun ⟨o, hfile, hduring⟩ => ⟨o, tail, committing_of_tail hpending htail hline hcomplete hfile, hduring⟩
  · refine .bind' (M := fun _ t => t.state.path = a.state.path ∧ ∃ o, Commits jsonValid a o tail ∧
      t.disk.durable = (a.disk.durable.unjournaled a.state.path).appended o tail)
      (.modify' _ fun t ht => ⟨congrArg NativeAppendState.path ht.1, ht.2⟩) fun _ => .modify' _ fun t ht => ?_
    obtain ⟨hpath, o, hcommits, hdisk⟩ := ht
    exact ⟨hpath, .inl rfl, .inr ⟨o, tail, hcommits, hdisk⟩⟩

theorem commit_spec : SpecOr (· = a) (commit jsonValid strict) (fun _ => CommitDone jsonValid a) (CommitStopped jsonValid a) := by
  refine .readAt ?_
  by_cases hidle : a.state.segments = []
  · rw [if_pos (List.isEmpty_iff.mpr hidle)]
    have hnone : a.committing = none := by
      unfold Appending.committing
      rw [if_pos (List.isEmpty_iff.mpr hidle)]
    have hsync : Keeps (· = a) (onDisk (syncNativePath a.state.path)) := by
      refine .onPart' fun t ht => ?_
      subst ht
      exact (syncNativePath_spec t.state.path).mono (fun _ d hd => by rw [hd]) fun d hd => by rw [hd]
    refine hsync.mono (fun _ t ht => ?_) fun t ht => CommitStopped.of_eq ht
    rw [ht]
    exact ⟨rfl, .inr rfl, .inl ⟨hnone, rfl⟩⟩
  · rw [if_neg (mt List.isEmpty_iff.mp hidle)]
    cases htail : a.state.assembleLocked with
    | error e =>
      have hnone : a.committing = none := by
        unfold Appending.committing
        rw [if_neg (mt List.isEmpty_iff.mp hidle), htail]
      exact leave_spec hnone e
    | ok tail => exact commitTail_spec hidle htail

end

/-! ## Handles and append states of the mount -/

section
variable {i : Nat} {m : Native}

theorem handle_some {α : Type} {id : Nat} {h : Handle} (hget : m.handles.get id = some h) (k : Handle → NativeProg α)
    (fs : List Fault) : (handle id >>= k) fs m = k h fs m := by
  unfold handle
  simp only [Prog.bind_apply, Prog.read_apply, hget, Prog.pure_apply]

theorem handle_none {α : Type} {id : Nat} (hget : m.handles.get id = none) (k : Handle → NativeProg α)
    (fs : List Fault) : (handle id >>= k) fs m = (.failed "bad file descriptor", m, fs) := by
  unfold handle
  simp only [Prog.bind_apply, Prog.read_apply, hget, Prog.throw_apply]

theorem handle_spec (id : Nat) : SpecOr (· = m) (handle id) (fun h t => t = m ∧ m.handles.get id = some h)
      (· = m) := by
  refine .readAt ?_
  cases hfound : m.handles.get id with
  | some h => exact .pure' h fun t ht => ⟨ht, rfl⟩
  | none => exact .throw' _ fun _ h => h

inductive Loaded (m : Native) (path : Path) (state : Nat) (t : Native) : Prop where
  | known (s : NativeAppendState) (hknown : m.nativeAppends.get path = some state)
      (hpath : s.path = (m.states state).path) (hsegments : s.segments = (m.states state).segments)
      (ht : t = m.putState state ⟨s, m.disk⟩)
  | created (object size : Nat) (hunknown : m.nativeAppends.get path = none) (hfile : m.disk.files.get path = some object)
      (hstate : state = m.nextState) (ht : t = { m with
        states := update m.states m.nextState ⟨path, size, size, []⟩
        nativeAppends := m.nativeAppends.set path m.nextState
        nextState := m.nextState + 1 })

theorem loadNativeAppendState_counted (path : Path) : Counted i (· = m) (loadNativeAppendState path)
    (fun j state t => ((t.states state).segments = [] → j = i + 1) ∧ Loaded m path state t) (· = m)
    (fun _ t => t = m) := by
  have hput : ∀ k : Nat, m.putState k (m.getState k) = m := fun k => by
    unfold Native.putState Native.getState
    rw [update_eq_self]
  refine .readAt ?_
  cases hknown : m.nativeAppends.get path with
  | some k =>
    refine .bind' (.onPart' ((refreshIfIdle_counted).post (fun j _ a h => ?_) (fun a h => ?_)
        fun n a h => ?_)) fun j _ => .pure' k fun t ht => ht
    · obtain ⟨hj, ⟨hdisk, hpath⟩, hsegments⟩ := h
      refine ⟨fun hidle => hj ?_, .known a.state hknown hpath hsegments ?_⟩
      · rw [← hsegments]
        simpa [Native.putState] using hidle
      · rw [← show a.disk = m.disk from hdisk]
    · rw [h, hput]
    · rw [h, hput]
  | none =>
    refine .step (M := fun object t => t = m ∧ m.disk.files.get path = some object)
      (.onPart' ((openPath_counted path).post (fun j object d h => ⟨h.1, ?_, h.2.2⟩) (fun d h => ?_)
        fun n d h => ?_)) fun object => .given fun hfile => ?_
    · rw [h.2.1]
    · rw [h.1]
    · rw [h.2]
    refine .readAt (.readAt ?_)
    refine .step (.modify' _ fun t ht => ⟨rfl, ?_⟩) fun _ => .pure' _ fun t ht => ⟨fun _ => rfl, ht⟩
    rw [ht]
    exact .created object _ hknown hfile rfl rfl

theorem openBacking_counted (path : Path) (flags : OpenFlags) : Counted i (· = m) (openBacking path flags)
    (fun j object t => j = i + 1 ∧ ∃ d, m.disk.openNativeBacking path flags.create flags.excl = .ok (object, d) ∧
      t = { m with disk := d })
    (· = m) (fun n t => n = i ∧ t = m) := by
  refine .readAt (.checked (fun _ h => h) fun opened hopened => ?_)
  obtain ⟨object, d⟩ := opened
  refine .step (M := fun _ t => t = { m with disk := d })
    (.effect' _ _ (fun t ht => ⟨rfl, by rw [ht]⟩) fun t ht => ⟨rfl, ht⟩) fun _ => ?_
  exact .pure' object fun t ht => ⟨rfl, d, hopened, ht⟩

def StagedDone (jsonValid : Bytes → Bool) (m : Native) (h : Handle) (t : Native) : Prop :=
  (h.append = false ∧ t = m) ∨
    (h.append = true ∧ ∃ a, CommitDone jsonValid (m.getState h.state) a ∧ t = m.putState h.state a)

def StagedStopped (jsonValid : Bytes → Bool) (m : Native) (h : Handle) (t : Native) : Prop :=
  h.append = true ∧ ∃ a, CommitStopped jsonValid (m.getState h.state) a ∧ t = m.putState h.state a

theorem commitStaged_spec {jsonValid : Bytes → Bool} (h : Handle) (strict : Bool) :
    SpecOr (· = m) (commitStaged jsonValid h strict) (fun _ => StagedDone jsonValid m h)
      (StagedStopped jsonValid m h) := by
  refine .ite' (fun happend => ?_) fun happend => .pure' () fun t ht => .inl ⟨by simpa using happend, ht⟩
  · refine .onPart' fun t ht => ?_
    subst ht
    exact commit_spec.mono (fun _ a ha => .inr ⟨happend, a, ha, rfl⟩) fun a ha => ⟨happend, a, ha, rfl⟩

def Native.backing (m : Native) (path : Path) : Path :=
  match m.nativeAppends.get path with
  | some k => (m.states k).path
  | none => path

def Native.relocated (m : Native) (old new : Path) (d : Disk) : Native :=
  Native.renamed old new (m.nativeAppends.get old)
    (match m.nativeAppends.get old with
      | some k => m.putState k ⟨{ m.states k with path := new }, d⟩
      | none => { m with disk := d })

theorem renameNative_counted (old new : Path) : Counted i (· = m) (renameNative old new)
    (fun j _ t => j = i + 1 ∧ ∃ d, m.disk.rename (m.backing old) new = .ok d ∧ t = m.relocated old new d)
    (· = m) (fun n t => n = i ∧ t = m) := by
  refine .readAt ?_
  cases hknown : m.nativeAppends.get old with
  | some k =>
    have hput : m.putState k (m.getState k) = m := by
      unfold Native.putState Native.getState
      rw [update_eq_self]
    have hrelocate : Counted i (· = m.getState k) (relocate new)
        (fun j _ a => j = i + 1 ∧ ∃ d, m.disk.rename (m.states k).path new = .ok d ∧
          a = ⟨{ m.states k with path := new }, d⟩) (· = m.getState k) (fun n a => n = i ∧ a = m.getState k) := by
      refine .readAt ?_
      refine .step (M := fun _ a => ∃ d, m.disk.rename (m.states k).path new = .ok d ∧
        a = ⟨m.states k, d⟩) (.onPart' ((change_counted _).post (fun j _ d h => ⟨h.1, d, h.2, rfl⟩)
          (fun d h => by rw [h]) fun n d h => ⟨h.1, by rw [h.2]⟩)) fun _ => ?_
      refine .modify' _ fun a ha => ⟨rfl, ?_⟩
      obtain ⟨d, hd, rfl⟩ := ha
      exact ⟨d, hd, rfl⟩
    refine .step (M := fun _ t => ∃ d, m.disk.rename (m.states k).path new = .ok d ∧
      t = m.putState k ⟨{ m.states k with path := new }, d⟩) (.onPart' (hrelocate.post (fun j _ a h => ?_)
        (fun a h => ?_) fun n a h => ⟨h.1, ?_⟩)) fun _ => .modify' _ fun t ht => ⟨rfl, ?_⟩
    · obtain ⟨hj, d, hd, rfl⟩ := h
      exact ⟨hj, d, hd, rfl⟩
    · rw [h, hput]
    · rw [h.2, hput]
    · obtain ⟨d, hd, rfl⟩ := ht
      unfold Native.backing Native.relocated
      rw [hknown]
      exact ⟨d, hd, rfl⟩
  | none =>
    refine .step (M := fun _ t => ∃ d, m.disk.rename old new = .ok d ∧ t = { m with disk := d })
      (.onPart' ((change_counted _).post (fun j _ d h => ⟨h.1, d, h.2, rfl⟩) (fun d h => by rw [h])
        fun n d h => ⟨h.1, by rw [h.2]⟩)) fun _ => .modify' _ fun t ht => ⟨rfl, ?_⟩
    obtain ⟨d, hd, rfl⟩ := ht
    unfold Native.backing Native.relocated
    rw [hknown]
    exact ⟨d, hd, rfl⟩

theorem importNativeRename_refused {old new : Path} (fs : List Fault)
    (h : ((m.disk.files.get old).isNone || m.nativePathBusyLocked new)) :
    ∃ e, importNativeRename old new fs m = (.failed e, m, fs) := by
  unfold importNativeRename
  cases hsource : m.disk.files.get old with
  | none => exact ⟨enoent, by simp [Prog.bind_apply, ensure, hsource]⟩
  | some o =>
    rw [hsource] at h
    exact ⟨"device or resource busy", by simp [Prog.bind_apply, ensure, hsource, show m.nativePathBusyLocked new = true from h]⟩

theorem importNativeRename_eq {old new : Path} (fs : List Fault)
    (h : ((m.disk.files.get old).isNone || m.nativePathBusyLocked new) = false) :
    importNativeRename old new fs m = renameNative old new fs m := by
  obtain ⟨hsource, hbusy⟩ := Bool.or_eq_false_iff.mp h
  have hsource : (m.disk.files.get old).isSome := by
    rw [isNone_eq_false_iff] at hsource
    exact hsource
  unfold importNativeRename
  simp [Prog.bind_apply, ensure, hsource, hbusy]

end

end CodexFold.Mount
