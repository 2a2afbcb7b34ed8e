import CodexFold.Foundation.Completion
import CodexFold.Foundation.Crashes
import CodexFold.Mount.Staging

/- The append journal: what a commit leaves when it is cut short, and what recovery makes
   of it.

   A commit goes through the phases of `During`: nothing durable has changed, or the
   journal names the tail and the file holds some part of it from its start, or the
   journal is gone and the file holds all of the tail or none. Recovery takes every one
   of these to the file with or without the tail, and so does any sequence of recoveries
   that were cut short themselves. -/
namespace CodexFold.Mount
open Foundation List Function

variable {o : Nat} {record : Journal} {j : Disk}

namespace Disk

def durable (d : Disk) : Disk := { d with temporaries := [], nextTemporary := 0 }

def appended (d : Disk) (object : Nat) (bytes : Bytes) : Disk := d.setContents object (d.contents object ++ bytes)

def journaled (d : Disk) (record : Journal) : Disk :=
  { d with journals := d.journals.set record.targetPath record }

def unjournaled (d : Disk) (path : Path) : Disk := { d with journals := d.journals.erase path }

section

variable (d : Disk)
include d

variable (o : Nat)

@[simp] theorem setContents_files (b : Bytes) : (d.setContents o b).files = d.files := rfl

@[simp] theorem setContents_self (b : Bytes) : (d.setContents o b).contents o = b :=
  update_self ..

theorem setContents_of_ne {o q : Nat} (h : q ≠ o) (b : Bytes) : (d.setContents o b).contents q = d.contents q :=
  update_of_ne h ..

theorem setContents_setContents (b c : Bytes) : (d.setContents o b).setContents o c = d.setContents o c := by
  unfold setContents
  rw [update_idem]

theorem setContents_contents : d.setContents o (d.contents o) = d := by
  unfold setContents
  rw [update_eq_self]

theorem appended_nil : d.appended o [] = d := by
  unfold appended
  rw [append_nil, setContents_contents]

theorem setContents_durable (b : Bytes) : (d.setContents o b).durable = d.durable.setContents o b :=
  rfl

end

section

variable {j t : Disk} (h : t.durable = j)
include h

theorem durable_files : t.files = j.files := by
  rw [← h]
  rfl

theorem durable_contents : t.contents = j.contents := by
  rw [← h]
  rfl

theorem durable_journals : t.journals = j.journals := by
  rw [← h]
  rfl

theorem durable_fresh : t.fresh = j.fresh := by
  rw [← h]
  rfl

end

theorem lookup_eq_ok {d : Disk} {path : Path} {o : Nat} : d.lookup path = .ok o ↔ d.files.get path = some o := by
  unfold lookup
  cases d.files.get path <;> simp

end Disk

/-! ## One operation on the disk -/

section
variable {P : Disk → Prop} {E : String → Disk → Prop} {C : Disk → Prop}

theorem openPath_completes {path : Path} {o : Nat} (hfile : ∀ d, P d → d.files.get path = some o)
    (he : ∀ e d, P d → E e d) (hc : ∀ d, P d → C d) :
    Completes P (openPath path) (fun object d => P d ∧ object = o) E C := by
  refine .point' (he _) hc ?_
  refine .at' fun d hd => .readAt ?_
  rw [Disk.lookup_eq_ok.mpr (hfile d hd)]
  exact .pure' o fun t ht => ⟨ht ▸ hd, rfl⟩

theorem openPath_spec (path : Path) (he : ∀ e d, P d → E e d) (hc : ∀ d, P d → C d) :
    Spec P (openPath path) (fun object d => P d ∧ d.files.get path = some object) E C := by
  refine .after (.point' _) he hc fun _ => ?_
  refine .at' fun d hd => .readAt ?_
  refine .ofExcept' _ (fun o ho t ht => ?_) fun e _ t ht => ht ▸ he e d hd
  exact ⟨ht ▸ hd, ht ▸ Disk.lookup_eq_ok.mp ho⟩

theorem syncNativePath_spec (path : Path) : Keeps P (syncNativePath path) := by
  refine Spec.bind' (openPath_spec path (fun _ _ h => h) fun _ h => h) fun object => Spec.pre ?_ fun d hd => hd.1
  exact Keeps.bind' (Keeps.point' _) fun _ => Keeps.point' _

end

variable {d : Disk} {path : Path}

theorem truncatePath_completes (size : Nat) (hfile : d.files.get path = some o) :
    CompletesOr (· = d) (truncatePath path size) (fun _ t => t = d.setContents o (resize 0 (d.contents o) size))
      (· = d) := by
  refine .bind' (openPath_completes (held hfile) (fun _ _ h => h) fun _ h => h) fun object =>
    .given fun hobject => ?_
  subst hobject
  exact .effect' _ _ (fun t ht => by rw [ht]) (fun _ h => h) fun _ h => h

theorem writeFileAt_completes (d : Disk) (o offset : Nat) (data : Bytes) :
    CompletesOr (· = d) (writeFileAt o offset data) (fun _ t => t = d.setContents o (overlay 0 (d.contents o) offset data))
      (fun t => ∃ k, t = d.setContents o (overlay 0 (d.contents o) offset (data.take k))) := by
  -- the bytes not yet written are those from the `k`-th on
  have hloop := Completes.forEach'
    (f := fun e : UInt8 × Nat => (effect "write" fun d : Disk => d.setContents o (put 0 (d.contents o) e.2 e.1)))
    (E := fun (_ : String) t => ∃ k, t = d.setContents o (overlay 0 (d.contents o) offset (data.take k)))
    (C := fun t => ∃ k, t = d.setContents o (overlay 0 (d.contents o) offset (data.take k)))
    (I := fun rest t => ∃ k, rest = (data.zipIdx offset).drop k ∧
      t = d.setContents o (overlay 0 (d.contents o) offset (data.take k))) ?_ (data.zipIdx offset)
  · refine (hloop.pre fun t ht => ⟨0, rfl, ?_⟩).weaken fun _ t ht => ?_
    · rw [take_zero, overlay_nil, Disk.setContents_contents]
      exact ht
    · obtain ⟨k, hk, rfl⟩ := ht
      have hlen : data.length ≤ k := by
        have := drop_eq_nil_iff.mp hk.symm
        rwa [length_zipIdx] at this
      rw [take_of_length_le hlen]
  · intro e rest
    refine .effect' _ _ ?_ ?_ ?_
    · rintro t ⟨k, hk, rfl⟩
      have hlt : k < data.length := by
        by_contra hge
        rw [drop_eq_nil_of_le (by rw [length_zipIdx]; omega)] at hk
        cases hk
      have hkz : k < (data.zipIdx offset).length := by rwa [length_zipIdx]
      rw [drop_eq_getElem_cons hkz, getElem_zipIdx] at hk
      cases hk
      refine ⟨k + 1, rfl, ?_⟩
      rw [Disk.setContents_self, Disk.setContents_setContents, take_succ_eq_append_getElem hlt, overlay_concat,
        length_take, Nat.min_eq_left (le_of_lt hlt)]
    · rintro t ⟨k, -, ht⟩
      exact ⟨k, ht⟩
    · rintro t ⟨k, -, ht⟩
      exact ⟨k, ht⟩

/-! ## The phases of a commit -/

inductive During (d : Disk) (path : Path) (o : Nat) (tail : Bytes) (t : Disk) : Prop where
  /-- Nothing durable has changed. -/
  | before (h : t.durable = d.durable)
  /-- The journal is there; part of the tail is. -/
  | writing (k : Nat) (h : t.durable = (d.durable.journaled
      ⟨path, (d.contents o).length, (d.contents o).length + tail.length, tail⟩).appended o (tail.take k))
  /-- The journal is gone, and the tail is there or is not. -/
  | after (bytes : Bytes) (hbytes : bytes = [] ∨ bytes = tail)
      (h : t.durable = (d.durable.unjournaled path).appended o bytes)

theorem writeNativeAppendJournal_completes (d : Disk) (record : Journal) :
    CompletesOr (fun t => t.durable = d.durable) (writeNativeAppendJournal record) (fun _ t => t.durable = d.durable.journaled record)
      (fun t => t.durable = d.durable ∨ t.durable = d.durable.journaled record) := by
  refine .point' (fun _ => .inl) (fun _ => .inl) ?_
  refine .at' fun t ht => .readAt ?_
  refine .bind' (M := fun _ u => u.durable = d.durable)
    (.effect' _ _ (fun u hu => by rw [hu]; exact ht) (fun u hu => .inl (by rw [hu]; exact ht))
      (fun u hu => .inl (by rw [hu]; exact ht))) fun _ => ?_
  refine .deferring' ?_ (fun _ => ?_) fun e => ?_
  · refine .point' (fun _ => .inl) (fun _ => .inl) ?_
    refine .point' (fun _ => .inl) (fun _ => .inl) ?_
    refine .point' (fun _ => .inl) (fun _ => .inl) ?_
    refine .point' (fun _ => .inl) (fun _ => .inl) ?_
    refine .bind' (M := fun _ u => u.durable = d.durable.journaled record)
      (.effect' _ _ (fun u hu => ?_) (fun _ => .inl) fun _ => .inl) fun _ => ?_
    · rw [← hu]
      rfl
    · exact .effect' _ id (fun _ h => h) (fun _ => .inr) fun _ => .inr
  · exact .effect' _ _ (fun _ h => h) (fun _ h => h) fun _ => .inr
  · exact .effect' _ _ (fun _ h => h) (fun _ h => h) fun _ h => h

theorem removeNativeAppendJournal_completes (j : Disk) (path : Path) :
    CompletesOr (fun t => t.durable = j) (removeNativeAppendJournal path) (fun _ t => t.durable = j.unjournaled path)
      (fun t => t.durable = j ∨ t.durable = j.unjournaled path) := by
  refine .bind' (M := fun _ t => t.durable = j.unjournaled path)
    (.effect' _ _ (fun t ht => by rw [← ht]; rfl) (fun _ => .inl) fun _ => .inl) fun _ => ?_
  exact .effect' _ id (fun _ h => h) (fun _ => .inr) fun _ => .inr

section
variable {j : Disk} {path : Path} {o : Nat} {tail : Bytes}

theorem hashNativeAppendTail_completes {P : Disk → Prop} {E : String → Disk → Prop} {C : Disk → Prop} {c : Bytes}
    {offset size : Nat} (hfile : ∀ d, P d → d.files.get path = some o) (hcontent : ∀ d, P d → d.contents o = c)
    (hsize : offset + size ≤ c.length) (he : ∀ e d, P d → E e d) (hc : ∀ d, P d → C d) :
    Completes P (hashNativeAppendTail path offset size) (fun tail d => P d ∧ tail = (c.drop offset).take size) E C := by
  refine .bind' (openPath_completes hfile he hc) fun object => .given fun hobject => ?_
  subst hobject
  refine .point' (he _) hc ?_
  refine .at' fun d hd => .readAt ?_
  refine .ensure' ?_ (.pure' _ fun t ht => ⟨ht ▸ hd, ?_⟩)
  · rw [hcontent d hd]
    exact decide_eq_true hsize
  · rw [hcontent d hd]

def Partly (j : Disk) (o : Nat) (tail : Bytes) (t : Disk) : Prop := ∃ k, t.durable = j.appended o (tail.take k)

theorem partly_of_eq {t : Disk} (h : t.durable = j) : Partly j o tail t :=
  ⟨0, by rw [take_zero, Disk.appended_nil]; exact h⟩

theorem partly_of_all {t : Disk} (h : t.durable = j.appended o tail) : Partly j o tail t :=
  ⟨tail.length, by rw [take_length]; exact h⟩

theorem writeTail_completes (hfile : j.files.get path = some o) :
    CompletesOr (fun t => t.durable = j) (writeTail path (j.contents o).length tail)
      (fun _ t => t.durable = j.appended o tail) (Partly j o tail) := by
  have hget : ∀ t : Disk, t.durable = j → t.files.get path = some o := fun t ht => by rw [← ht] at hfile; exact hfile
  refine .bind' (openPath_completes hget (fun _ _ => partly_of_eq) fun _ => partly_of_eq) fun object =>
    .given fun hobject => ?_
  subst hobject
  -- the tail is written behind the file, byte by byte
  have hwrite : CompletesOr (fun t => t.durable = j) (writeFileAt object (j.contents object).length tail)
      (fun _ t => t.durable = j.appended object tail) (Partly j object tail) := by
    refine .at' fun t ht => ?_
    have hput : ∀ bytes, (t.setContents object (overlay 0 (t.contents object) (j.contents object).length bytes)).durable =
        j.appended object bytes := by
      intro bytes
      rw [← ht, Disk.setContents_durable, show t.durable.contents = t.contents from rfl, overlay_length]
      rfl
    refine (writeFileAt_completes t object (j.contents object).length tail).post (fun _ u hu => ?_) (fun _ u hu => ?_)
      fun u hu => ?_
    · rw [hu, hput]
    · obtain ⟨k, rfl⟩ := hu
      exact ⟨k, hput _⟩
    · obtain ⟨k, rfl⟩ := hu
      exact ⟨k, hput _⟩
  refine .bind' hwrite fun _ => ?_
  refine .point' (fun _ => partly_of_all) (fun _ => partly_of_all) ?_
  refine .point' (fun _ => partly_of_all) (fun _ => partly_of_all) ?_
  have hread : CompletesOr (fun t => t.durable = j.appended object tail) (hashNativeAppendTail path (j.contents object).length tail.length)
      (fun read t => t.durable = j.appended object tail ∧ read = tail) (Partly j object tail) := by
    refine (hashNativeAppendTail_completes (o := object) (c := j.contents object ++ tail) (fun t ht => ?_) (fun t ht => ?_) ?_
      (fun _ _ => partly_of_all) fun _ => partly_of_all).weaken (fun read t h => ⟨h.1, ?_⟩)
    · rw [Disk.durable_files ht]
      exact hfile
    · rw [Disk.durable_contents ht]
      exact Disk.setContents_self ..
    · rw [length_append]
    · rw [h.2, drop_left, take_length]
  refine .bind' hread fun read => .given fun hread => ?_
  rw [hread, beq_self_eq_true]
  exact .pure' () fun _ h => h

theorem rollback_spec (hfile : j.files.get path = some o) (e : String) :
    SpecOr (Partly j o tail) (rollback path (j.contents o).length e) (fun _ _ => False)
      (fun t => Partly j o tail t ∨ t.durable = j.unjournaled path) := by
  have hget : ∀ t, Partly j o tail t → t.files.get path = some o := by
    rintro t ⟨k, ht⟩
    rw [Disk.durable_files ht]
    exact hfile
  -- the file is cut back to what it was
  have hcut : SpecOr (Partly j o tail) (truncatePath path (j.contents o).length) (fun _ t => t.durable = j) (Partly j o tail) := by
    refine .at' fun t ht => (truncatePath_completes (j.contents o).length (hget t ht)).spec.mono (fun _ u hu => ?_) (held ht)
    obtain ⟨k, hk⟩ := ht
    have hcontents : t.contents o = j.contents o ++ tail.take k := by
      rw [Disk.durable_contents hk]
      exact Disk.setContents_self ..
    rw [hu, Disk.setContents_durable, hk, hcontents, resize_of_le (by rw [length_append]; omega), take_left]
    unfold Disk.appended
    rw [Disk.setContents_setContents, Disk.setContents_contents]
  refine Spec.attempted (hcut.post (fun _ _ h => h) (fun _ _ h => h) fun _ => .inl) (fun _ => ?_) fun _ => ?_
  · refine Spec.attempted ((syncNativePath_spec path).post (fun _ _ h => h) (fun _ _ h => h) fun _ h => .inl (partly_of_eq h))
      (fun _ => ?_) fun _ => ?_
    · have hremove := (removeNativeAppendJournal_completes j path).spec
      refine .bind' (.attempt' (hremove.post (fun _ _ => .inr) (fun _ _ h => h.imp_left partly_of_eq) fun _ h =>
          h.imp_left partly_of_eq)) fun _ => .throw' e fun _ h => h
    · exact .throw' e fun _ h => .inl (partly_of_eq h)
  -- the file could not be cut: the sync does not matter
  · refine Spec.attempted ((syncNativePath_spec path).post (fun _ _ h => h) (fun _ _ h => h) fun _ => .inl) (fun _ => ?_)
      fun _ => ?_
    · exact .throw' e fun _ => .inl
    · exact .throw' e fun _ => .inl

end

theorem commitNativeAppend_completes (tail : Bytes) (hfile : d.files.get path = some o) :
    CompletesOr (· = d) (commitNativeAppend path (d.contents o).length tail)
      (fun _ t => t.durable = (d.durable.unjournaled path).appended o tail) (During d path o tail) := by
  have hbefore : ∀ t, t = d → During d path o tail t := fun t ht => .before (ht ▸ rfl)
  have hjfile : (d.durable.journaled ⟨path, (d.contents o).length, (d.contents o).length + tail.length, tail⟩).files.get
      path = some o := hfile
  have hundo : (d.durable.journaled ⟨path, (d.contents o).length, (d.contents o).length + tail.length, tail⟩).unjournaled
      path = d.durable.unjournaled path := by
    unfold Disk.unjournaled Disk.journaled
    simp only [Files.erase_set]
  refine .bind' (openPath_completes (held hfile) (fun _ => hbefore) hbefore) fun object =>
    .given fun hobject => ?_
  subst hobject
  refine .readAt (.ensure' (beq_self_eq_true _) ?_)
  have hstart : ∀ t, t = d → t.durable = d.durable := fun t ht => ht ▸ rfl
  have hjournal := (writeNativeAppendJournal_completes d
    ⟨path, (d.contents object).length, (d.contents object).length + tail.length, tail⟩).pre hstart
  have hpartly : ∀ t, Partly (d.durable.journaled
      ⟨path, (d.contents object).length, (d.contents object).length + tail.length, tail⟩) object tail t →
      During d path object tail t := fun t ⟨k, hk⟩ => .writing k hk
  refine .bind' (hjournal.post (fun _ _ h => h) (fun _ t h => ?_) fun t h => ?_) fun _ => ?_
  · exact h.elim .before fun h => hpartly t (partly_of_eq h)
  · exact h.elim .before fun h => hpartly t (partly_of_eq h)
  -- once the journal is there, the tail is written or cut off again
  have hcut : ∀ t, t.durable = d.durable.unjournaled path → During d path object tail t := fun t ht =>
    .after [] (.inl rfl) (by rw [Disk.appended_nil]; exact ht)
  refine .attempt' ((writeTail_completes hjfile).post (fun _ _ h => h) (fun _ _ h => h) hpartly) (fun _ => ?_)
    fun e => ?_
  · refine (removeNativeAppendJournal_completes _ path).post (fun _ t h => ?_) (fun _ t h => ?_) fun t h => ?_
    · rw [h, ← hundo]
      rfl
    all_goals
      refine h.elim (fun h => hpartly t (partly_of_all h)) fun h => .after tail (.inr rfl) ?_
      rw [h, ← hundo]
      rfl
  · refine (rollback_spec hjfile e).mono nofun fun t h => ?_
    exact h.elim (hpartly t) fun h => hcut t (h.trans hundo)

/-! ## Recovery -/

section
variable {P C : Disk → Prop} {path : Path} {o : Nat}

section

variable (hfile : ∀ d, P d → d.files.get path = some o)
include hfile

theorem openPath_survives (hc : ∀ d, P d → C d) : Survives P (openPath path) (fun object d => P d ∧ object = o) C := by
  refine .point' hc (.at' fun d hd => .readAt ?_)
  rw [Disk.lookup_eq_ok.mpr (hfile d hd)]
  exact .pure' o fun t ht => ⟨ht ▸ hd, rfl⟩

theorem syncNativePath_survives (hc : ∀ d, P d → C d) : Survives P (syncNativePath path) (fun _ => P) C := by
  refine .bind' (openPath_survives hfile hc) fun object => .given fun _ => ?_
  exact .point' hc (.effect' _ id (fun _ hd => hd) hc)

end

theorem truncatePath_survives {d : Disk} (size : Nat) (hfile : d.files.get path = some o) (hc : C d) :
    Survives (· = d) (truncatePath path size)
      (fun _ t => t = d.setContents o (resize 0 (d.contents o) size)) C := by
  have hcrash : ∀ t, t = d → C t := held hc
  refine .bind' (openPath_survives (held hfile) hcrash) fun object => .given fun hobject => ?_
  subst hobject
  exact .effect' _ _ (fun t ht => by rw [ht]) hcrash

theorem hashNativeAppendTail_survives {d : Disk} {offset size : Nat} (hfile : d.files.get path = some o)
    (hsize : offset + size ≤ (d.contents o).length) (hc : C d) :
    Survives (· = d) (hashNativeAppendTail path offset size)
      (fun tail t => t = d ∧ tail = ((d.contents o).drop offset).take size) C := by
  have hcrash : ∀ t, t = d → C t := held hc
  refine .bind' (openPath_survives (held hfile) hcrash) fun object => .given fun hobject => ?_
  subst hobject
  refine .point' hcrash (.readAt (.ensure' (decide_eq_true hsize) ?_))
  exact .pure' _ fun t ht => ⟨ht, rfl⟩

end

namespace Journal

def committedIn (record : Journal) (content : Bytes) : Bool :=
  content.length = record.finalSize &&
    (content.drop record.baseSize).take (record.finalSize - record.baseSize) == record.tail

def settle (record : Journal) (content : Bytes) : Bytes :=
  if record.committedIn content then content else resize 0 content record.baseSize

theorem settle_settle (record : Journal) (content : Bytes) :
    record.settle (record.settle content) = record.settle content := by
  unfold settle
  by_cases h : record.committedIn content = true
  · simp only [h, if_true]
  · rw [if_neg h]
    by_cases h' : record.committedIn (resize 0 content record.baseSize) = true
    · rw [if_pos h']
    · rw [if_neg h', resize_of_le (by rw [length_resize]), take_of_length_le (by rw [length_resize])]

theorem length_settle {record : Journal} {content : Bytes} (h : record.baseSize ≤ content.length) :
    record.baseSize ≤ (record.settle content).length := by
  unfold settle
  split
  · exact h
  · rw [length_resize]

end Journal

theorem tailCommitted_survives {C : Disk → Prop} (hfile : d.files.get record.targetPath = some o)
    (hsizes : record.baseSize ≤ record.finalSize) (hc : C d) :
    Survives (· = d) (tailCommitted record (d.contents o).length)
      (fun committed t => t = d ∧ committed = record.committedIn (d.contents o)) C := by
  unfold tailCommitted Journal.committedIn
  by_cases hsize : (d.contents o).length = record.finalSize
  · rw [if_pos hsize]
    refine .attempt' (hashNativeAppendTail_survives hfile (by omega) hc) fun tail =>
      .pure' _ fun t ht => ⟨ht.1, ?_⟩
    rw [ht.2, decide_eq_true hsize, Bool.true_and]
  · rw [if_neg hsize]
    exact .pure' _ fun t ht => ⟨ht, by simp [hsize]⟩

theorem recoverJournal_survives (hvalid : validateNativeAppendJournal record = .ok ())
    (hfile : d.files.get record.targetPath = some o) (hbase : record.baseSize ≤ (d.contents o).length) :
    Survives (· = d) (recoverJournal record)
      (fun _ t => t = (d.setContents o (record.settle (d.contents o))).unjournaled record.targetPath)
      (fun t => t = d ∨ t = d.setContents o (record.settle (d.contents o))) := by
  have hstart : ∀ t, t = d → t = d ∨ t = d.setContents o (record.settle (d.contents o)) := fun _ => .inl
  have hsizes : record.baseSize ≤ record.finalSize := by
    obtain ⟨_, hmetadata, -⟩ := of_bind hvalid
    have := require_eq_ok.mp hmetadata
    simp only [Bool.and_eq_true, decide_eq_true_eq] at this
    exact this.1
  refine .point' hstart (.checked hvalid ?_)
  refine .bind' (openPath_survives (held hfile) hstart) fun object => .given fun hobject => ?_
  subst hobject
  refine .readAt ?_
  refine .bind' (tailCommitted_survives hfile hsizes (.inl rfl)) fun committed =>
    .given fun hcommitted => ?_
  -- the file is left as it is or cut back; then the journal goes
  refine .bind' ?_ fun _ =>
    .effect' _ _ (fun t ht => by rw [ht]; rfl) fun _ => .inr
  unfold Journal.settle cutBack
  rw [← hcommitted]
  cases committed with
  | true =>
    refine .pure' () fun t ht => ?_
    rw [if_pos rfl, Disk.setContents_contents]
    exact ht
  | false =>
    refine .ensure' (decide_eq_true hbase) ?_
    refine .bind' (truncatePath_survives record.baseSize hfile (.inl rfl)) fun _ => ?_
    exact syncNativePath_survives (fun t ht => by rw [ht]; exact hfile) fun _ => .inr

theorem removeTemporaries_survives (j : Disk) (temporaries : List Nat) :
    Survives (fun t => t.durable = j) (removeTemporaries temporaries) (fun _ t => t.durable = j)
      (fun t => t.durable = j) :=
  .forEach' (f := fun n => effect "remove" fun d : Disk => { d with temporaries := d.temporaries.erase n })
    (I := fun _ t => t.durable = j) (fun _ _ => .effect' _ _ (fun _ ht => ht) fun _ ht => ht) temporaries

theorem recover_survives_nil (hentries : j.journals.entries = []) :
    Survives (fun t => t.durable = j) recoverNativeAppendTransactions (fun _ t => t.durable = j) (fun t => t.durable = j) := by
  refine .point' (fun _ h => h) (.at' fun t ht => .readAt ?_)
  have hstart : ∀ u, u = t → u.durable = j := held ht
  refine .bind' ((removeTemporaries_survives j t.temporaries).pre hstart) fun _ => ?_
  refine .at' fun u hu => .readAt ?_
  rw [Disk.durable_journals hu, hentries]
  refine .bind' (M := fun _ v => v = u) (.pure' () fun _ h => h) fun _ => ?_
  exact .effect' _ id (held hu) (held hu)

def Disk.settled (j : Disk) (o : Nat) (record : Journal) : Disk := j.setContents o (record.settle (j.contents o))

structure Carries (j : Disk) (o : Nat) (record : Journal) : Prop where
  entries : j.journals.entries = [(record.targetPath, record)]
  valid : validateNativeAppendJournal record = .ok ()
  file : j.files.get record.targetPath = some o
  grown : record.baseSize ≤ (j.contents o).length

theorem Carries.settled (h : Carries j o record) : Carries (j.settled o record) o record where
  entries := h.entries
  valid := h.valid
  file := h.file
  grown := by
    unfold Disk.settled
    rw [Disk.setContents_self]
    exact Journal.length_settle h.grown

theorem Disk.settled_settled (j : Disk) (o : Nat) (record : Journal) :
    (j.settled o record).settled o record = j.settled o record := by
  unfold Disk.settled
  rw [setContents_self, setContents_setContents, Journal.settle_settle]

theorem Carries.unjournaled (h : Carries j o record) : (j.unjournaled record.targetPath).journals.entries = [] := by
  simp [Disk.unjournaled, Files.erase, h.entries]

theorem recover_survives (h : Carries j o record) : Survives (fun t => t.durable = j) recoverNativeAppendTransactions
      (fun _ t => t.durable = (j.settled o record).unjournaled record.targetPath)
      (fun t => t.durable = j ∨ t.durable = j.settled o record ∨
        t.durable = (j.settled o record).unjournaled record.targetPath) := by
  refine .point' (fun _ => .inl) (.at' fun t ht => .readAt ?_)
  have hstart : ∀ u, u = t → u.durable = j := held ht
  refine .bind' (((removeTemporaries_survives j t.temporaries).pre hstart).post (fun _ _ h => h)
    fun _ => .inl) fun _ => ?_
  refine .at' fun u hu => .readAt ?_
  rw [Disk.durable_journals hu, h.entries]
  have hcontents := Disk.durable_contents hu
  have hsettled : (u.setContents o (record.settle (u.contents o))).durable = j.settled o record := by
    rw [Disk.setContents_durable, hu, hcontents]
    rfl
  have hrecover : Survives (· = u) (recoverJournal record)
      (fun _ v => v.durable = (j.settled o record).unjournaled record.targetPath)
      (fun v => v.durable = j ∨ v.durable = j.settled o record ∨
        v.durable = (j.settled o record).unjournaled record.targetPath) := by
    refine (recoverJournal_survives (o := o) h.valid ?_ ?_).post (fun _ v hv => ?_) fun v hv => ?_
    · rw [Disk.durable_files hu]
      exact h.file
    · rw [hcontents]
      exact h.grown
    · rw [hv, ← hsettled]
      rfl
    · exact hv.elim (fun hv => .inl (hv ▸ hu)) fun hv => .inr (.inl (by rw [hv]; exact hsettled))
  refine .bind' (M := fun _ v => v.durable = (j.settled o record).unjournaled record.targetPath)
    (.bind' hrecover fun _ => .pure' () fun _ hv => hv) fun _ => ?_
  exact .effect' _ id (fun _ hv => hv) fun _ hv => .inr (.inr hv)

/-! ## Crash atomicity -/

inductive Interrupted (t : Disk) : Disk → Prop where
  | none : Interrupted t t
  | again {u v : Disk} {fs rest : List Fault} (h : Interrupted t u) (hfs : Fault.fail ∉ fs)
      (hcrash : recoverNativeAppendTransactions fs u = (.crashed, v, rest)) : Interrupted t v

variable {t u : Disk}

theorem Carries.interrupted (h : Carries j o record) (ht : t.durable = j) (hu : Interrupted t u) :
    u.durable = j ∨ u.durable = j.settled o record ∨ u.durable = (j.settled o record).unjournaled record.targetPath := by
  induction hu with
  | none => exact .inl ht
  | @again u v fs rest _ hfs hcrash ih =>
    rcases ih with hu | hu | hu
    · have hs := recover_survives h fs u hfs hu
      rw [hcrash] at hs
      exact hs.1
    · have hs := recover_survives h.settled fs u hfs hu
      rw [hcrash, Disk.settled_settled] at hs
      exact .inr (hs.1.elim .inl id)
    · have hs := recover_survives_nil (h.settled.unjournaled) fs u hfs hu
      rw [hcrash] at hs
      exact .inr (.inr hs.1)

theorem Carries.recovers (h : Carries j o record) (ht : t.durable = j) (hu : Interrupted t u) :
    ∃ v, Runs recoverNativeAppendTransactions u () v ∧
      v.durable = (j.settled o record).unjournaled record.targetPath := by
  rcases h.interrupted ht hu with hu | hu | hu
  · obtain ⟨_, v, hr, hv⟩ := (recover_survives h).runs hu
    exact ⟨v, hr, hv⟩
  · obtain ⟨_, v, hr, hv⟩ := (recover_survives h.settled).runs hu
    rw [Disk.settled_settled] at hv
    exact ⟨v, hr, hv⟩
  · obtain ⟨_, v, hr, hv⟩ := (recover_survives_nil h.settled.unjournaled).runs hu
    exact ⟨v, hr, hv⟩

theorem interrupted_nil (hentries : j.journals.entries = []) (ht : t.durable = j) (hu : Interrupted t u) :
    u.durable = j := by
  induction hu with
  | none => exact ht
  | @again u v fs rest _ hfs hcrash ih =>
    have hs := recover_survives_nil hentries fs u hfs ih
    rw [hcrash] at hs
    exact hs.1

theorem settle_append_take (path : Path) (content tail : Bytes) (k : Nat) :
    (Journal.mk path content.length (content.length + tail.length) tail).settle (content ++ tail.take k) = content ∨
      (Journal.mk path content.length (content.length + tail.length) tail).settle (content ++ tail.take k) =
        content ++ tail := by
  unfold Journal.settle
  split
  · rename_i h
    right
    simp only [Journal.committedIn, Bool.and_eq_true, decide_eq_true_eq, length_append] at h
    have htake : tail.take k = tail := by
      apply take_of_length_le
      have := h.1
      rw [length_take] at this
      omega
    rw [htake]
  · left
    rw [resize_of_le (by rw [length_append]; exact Nat.le_add_right ..), take_left]

theorem carries_writing {tail : Bytes} (hpath : nativeTransactionPath path) (hfile : d.files.get path = some o)
    (hjournals : d.journals.entries = []) (htail : tail.length ≤ maxNativeAppendPendingBytes) (k : Nat) :
    Carries ((d.durable.journaled
      ⟨path, (d.contents o).length, (d.contents o).length + tail.length, tail⟩).appended o (tail.take k)) o
      ⟨path, (d.contents o).length, (d.contents o).length + tail.length, tail⟩ where
  entries := by
    show (d.journals.set path _).entries = _
    simp [Files.set, Files.erase, hjournals]
  valid := by
    unfold validateNativeAppendJournal
    have hrange : (d.contents o).length ≤ (d.contents o).length + tail.length ∧
        (d.contents o).length + tail.length - (d.contents o).length ≤ maxNativeAppendPendingBytes := by omega
    simp only [hrange, decide_true, Bool.and_self, hpath]
    rfl
  file := hfile
  grown := by
    rw [Disk.appended, Disk.setContents_self, length_append]
    exact Nat.le_add_right ..

/-- Recovery from `t`, interrupted or not, brings the file to what it was in `d` or to all of
    the tail behind it, and the latter once the commit has returned. -/
def Settles (d : Disk) (o : Nat) (tail : Bytes) (r : Outcome String Unit) (t : Disk) : Prop :=
  ∃ file, (file = d.contents o ∨ file = d.contents o ++ tail) ∧ (r = .done () → file = d.contents o ++ tail) ∧
    ∀ u, Interrupted t u → ∃ v, Runs recoverNativeAppendTransactions u () v ∧
      v.journals.entries = [] ∧ v.files = d.files ∧ v.contents = update d.contents o file

theorem commitNativeAppend_settles {s : NativeAppendState} {d t : Disk} {o : Nat} {tail : Bytes}
    {fs rest : List Fault} {r : Outcome String Unit} (hpath : nativeTransactionPath s.path = true)
    (hfile : d.files.get s.path = some o) (hsize : (d.contents o).length = s.baseSize)
    (hjournals : d.journals.entries = []) (htail : s.assembleLocked = .ok tail)
    (hrun : commitNativeAppend s.path s.baseSize tail fs d = (r, t, rest)) : Settles d o tail r t := by
  have hspec := (commitNativeAppend_completes tail hfile).spec fs d rfl
  rw [hsize, hrun] at hspec
  have herased : (d.journals.erase s.path).entries = [] := by simp [Files.erase, hjournals]
  -- a disk without a journal stays as it is
  have hquiet : ∀ q file, t.durable = q → q.journals.entries = [] → q.files = d.files →
      q.contents = update d.contents o file → ∀ u, Interrupted t u →
      ∃ v, Runs recoverNativeAppendTransactions u () v ∧ v.journals.entries = [] ∧ v.files = d.files ∧
        v.contents = update d.contents o file := by
    intro q file ht hentries hfiles hcontents u hu
    obtain ⟨_, v, hr, hv⟩ := (recover_survives_nil hentries).runs (interrupted_nil hentries ht hu)
    refine ⟨v, hr, ?_, (Disk.durable_files hv).trans hfiles, (Disk.durable_contents hv).trans hcontents⟩
    rw [Disk.durable_journals hv, hentries]
  have hduring : During d s.path o tail t → ∃ file, (file = d.contents o ∨ file = d.contents o ++ tail) ∧
      ∀ u, Interrupted t u → ∃ v, Runs recoverNativeAppendTransactions u () v ∧
        v.journals.entries = [] ∧ v.files = d.files ∧ v.contents = update d.contents o file := by
    intro h
    cases h with
    | before ht =>
      exact ⟨d.contents o, .inl rfl, hquiet _ _ ht hjournals rfl (update_eq_self ..).symm⟩
    | after bytes hbytes ht =>
      refine ⟨d.contents o ++ bytes, ?_, hquiet _ _ ht herased rfl rfl⟩
      rcases hbytes with rfl | rfl
      · exact .inl (append_nil _)
      · exact .inr rfl
    | writing k ht =>
      -- the journal is carried out on the part of the tail that is there
      have hcarries := carries_writing hpath hfile hjournals (length_le_of_assembleLocked htail) k
      refine ⟨_, settle_append_take s.path (d.contents o) tail k, fun u hu => ?_⟩
      obtain ⟨v, hr, hv⟩ := hcarries.recovers ht hu
      refine ⟨v, hr, ?_, ?_, ?_⟩
      · rw [Disk.durable_journals hv]
        exact hcarries.settled.unjournaled
      · rw [Disk.durable_files hv]
        rfl
      · rw [Disk.durable_contents hv]
        show (Disk.setContents _ _ _).contents = _
        unfold Disk.appended
        rw [Disk.setContents_self, Disk.setContents_setContents]
        rfl
  cases r with
  | done u =>
    exact ⟨d.contents o ++ tail, .inr rfl, fun _ => rfl, hquiet _ _ hspec herased rfl rfl⟩
  | failed e | crashed =>
    obtain ⟨file, hfile, h⟩ := hduring hspec
    exact ⟨file, hfile, by simp, h⟩

theorem recover_refuses {t v : Disk} (record : Journal) (hpath : nativeTransactionPath record.targetPath = false)
    (hentries : t.journals.entries.map Prod.snd = [record]) : ¬ Runs recoverNativeAppendTransactions t () v := by
  intro hruns
  have hspec : Ensures (fun d : Disk => d.journals.entries.map Prod.snd = [record]) recoverNativeAppendTransactions
      (fun _ _ => False) := by
    refine .point' (.after (.read' _) fun temporaries => .after (.forEach' fun t => .effect' _ _ fun _ h => h) fun _ => ?_)
    refine .bind' (M := fun records _ => records = [record]) (.read' _ fun _ h => h) fun records => ?_
    refine .at' fun d hrecords => ?_
    subst hrecords
    refine .bind' (M := fun _ _ => False) (.bind' (M := fun _ _ => False) ?_ fun _ => ?_) fun _ => ?_
    · refine Ensures.point' (Ensures.checked fun u hvalid => ?_)
      obtain ⟨-, -, hcanonical⟩ := of_bind hvalid
      rw [hpath] at hcanonical
      cases hcanonical
    · exact fun _ _ h => h.elim
    · exact fun _ _ h => h.elim
  have hfalse := hspec [] t hentries
  rw [hruns.eq] at hfalse
  exact hfalse

theorem commit_cut_off {path : Path} {d : Disk} {o : Nat} (tail : Bytes) (hfile : d.files.get path = some o) :
    commitNativeAppend path (d.contents o).length tail (replicate 8 .ok ++ [.crash]) d =
      (.crashed, { d with
        temporaries := (d.nextTemporary :: d.temporaries).erase d.nextTemporary
        nextTemporary := d.nextTemporary + 1
        journals := d.journals.set path ⟨path, (d.contents o).length, (d.contents o).length + tail.length, tail⟩ }, []) := by
  have hlookup : d.lookup path = .ok o := Disk.lookup_eq_ok.mpr hfile
  simp [commitNativeAppend, openPath, writeNativeAppendJournal, Prog.bind_apply, deferring, attempt, point, effect,
    replicate, hlookup, ofExcept, ensure]

def Disk.sample : Disk where
  files := Files.empty.set [sessions, ['a', '.', 'j', 's', 'o', 'n', 'l']] 0
  contents := fun _ => [49]
  directories := [[], [sessions]]
  fresh := 1
  journals := .empty
  temporaries := []
  nextTemporary := 0

def NativeAppendState.sample : NativeAppendState :=
  ⟨[sessions, ['a', '.', 'j', 's', 'o', 'n', 'l']], 1, 3, [⟨1, [50, 10]⟩]⟩

theorem Disk.sample_file {path : Path} {o : Nat} (h : Disk.sample.files.get path = some o) :
    path = NativeAppendState.sample.path ∧ o = 0 := by
  have hentry := Disk.sample.files.get_eq_some_iff.mp h
  rw [show Disk.sample.files.entries = [(NativeAppendState.sample.path, 0)] from rfl, mem_singleton] at hentry
  exact Prod.mk.inj hentry

def tornCommit : Outcome String Unit × Disk × List Fault :=
  commitNativeAppend NativeAppendState.sample.path 1 [50, 10] (replicate 12 .ok ++ [.crash]) Disk.sample

def NativeAppendState.aside : NativeAppendState := { sample with path := [sessions, ['a', '.', 'b', 'a', 'k']] }

def Disk.aside : Disk := { sample with files := Files.empty.set NativeAppendState.aside.path 0 }

end CodexFold.Mount
