import CodexFold.Mount.Effects

/- The bytes that native writes have been reported to have committed.

   A byte is promised when a commit or a positional write returns nil, and until a later
   write or truncation that returns nil takes it back. A journal whose removal failed stays
   behind and recovery cuts the file at its path back to the journal's base, so what is
   promised has to stay in front of it (`Safe`). Commits see to that themselves: they have
   the journal at the end of the file. Positional writes and renames do not look at the
   journals. -/
namespace CodexFold.Mount
open Foundation List Option

abbrev Promises : Type := Nat → Nat → Option UInt8

def Promises.add (promised : Promises) (w : Written) : Promises := fun o p =>
  if o = w.object ∧ w.offset ≤ p ∧ p < w.offset + w.data.length then w.data[p - w.offset]? else promised o p

def Promises.cut (promised : Promises) (object size : Nat) : Promises := fun o p =>
  if o = object ∧ size ≤ p then none else promised o p

/-! ## Disks -/

/-- What is true of every native tree: an object has one name and a number, and a journal
    is filed under its target. -/
structure Disk.Sound (d : Disk) : Prop where
  numbered : ∀ path o, d.files.get path = some o → o < d.fresh
  distinct : ∀ p q o, d.files.get p = some o → d.files.get q = some o → p = q
  keyed : ∀ path record, d.journals.get path = some record → record.targetPath = path

def Disk.Spares (d : Disk) (promised : Promises) : Prop :=
  ∀ path record o, d.journals.get path = some record → d.files.get record.targetPath = some o →
    ∀ p b, promised o p = some b → p < record.baseSize

structure Safe (d : Disk) (promised : Promises) : Prop where
  held : ∀ o p b, promised o p = some b → (d.contents o)[p]? = some b
  spared : d.Spares promised
  numbered : ∀ o p b, promised o p = some b → o < d.fresh

section
variable {d t : Disk} {promised : Promises}
variable {o : Nat} {path : Path}

section

variable (h : d.Sound)
include h

theorem Disk.Sound.of_eq (hfiles : t.files = d.files) (hjournals : t.journals = d.journals) (hfresh : t.fresh = d.fresh) :
    t.Sound := by
  refine ⟨fun path o => ?_, fun p q o => ?_, fun path record => ?_⟩
  · rw [hfiles, hfresh]
    exact h.numbered path o
  · rw [hfiles]
    exact h.distinct p q o
  · rw [hjournals]
    exact h.keyed path record

theorem Disk.Sound.of_durable (ht : t.durable = d) : t.Sound :=
  h.of_eq (Disk.durable_files ht) (Disk.durable_journals ht) (Disk.durable_fresh ht)

theorem Disk.Sound.durable : d.durable.Sound := h.of_eq rfl rfl rfl

theorem Disk.Sound.setContents (o : Nat) (c : Bytes) : (d.setContents o c).Sound := h.of_eq rfl rfl rfl

theorem Disk.Sound.journaled (record : Journal) : (d.journaled record).Sound := by
  refine ⟨h.numbered, h.distinct, fun path found hget => ?_⟩
  rw [Disk.journaled, get_set] at hget
  split at hget
  · rename_i hpath
    rw [hpath, ← some.inj hget]
  · exact h.keyed path found hget

theorem Disk.Sound.unjournaled (path : Path) : (d.unjournaled path).Sound := by
  refine ⟨h.numbered, h.distinct, fun other record hget => ?_⟩
  exact h.keyed other record (get_of_erase hget)

end

section

variable (h : Safe d promised)
include h

theorem Safe.of_durable (ht : t.durable = d) : Safe t promised := by
  refine ⟨fun o p b hb => ?_, fun path record o => ?_, fun o p b hb => ?_⟩
  · rw [Disk.durable_contents ht]
    exact h.held o p b hb
  · rw [Disk.durable_journals ht, Disk.durable_files ht]
    exact h.spared path record o
  · rw [Disk.durable_fresh ht]
    exact h.numbered o p b hb

theorem Safe.durable : Safe d.durable promised := ⟨h.held, h.spared, h.numbered⟩

theorem Safe.update {promised' : Promises} {bytes : Bytes} (hother : ∀ q, q ≠ o → promised' q = promised q)
    (hheld : ∀ p b, promised' o p = some b → bytes[p]? = some b)
    (hspared : ∀ path record, d.journals.get path = some record → d.files.get record.targetPath = some o → ∀ p b, promised' o p = some b → p < record.baseSize)
    (hnumbered : ∀ p b, promised' o p = some b → o < d.fresh) : Safe (d.setContents o bytes) promised' := by
  refine ⟨fun q p b hb => ?_, fun path record q hrecord hfile p b hb => ?_, fun q p b hb => ?_⟩
  · by_cases hq : q = o
    · subst hq
      rw [Disk.setContents_self]
      exact hheld p b hb
    · rw [hother q hq] at hb
      rw [Disk.setContents_of_ne d hq]
      exact h.held q p b hb
  · by_cases hq : q = o
    · subst hq
      exact hspared path record hrecord hfile p b hb
    · rw [hother q hq] at hb
      exact h.spared path record q hrecord hfile p b hb
  · by_cases hq : q = o
    · subst hq
      exact hnumbered p b hb
    · rw [hother q hq] at hb
      exact h.numbered q p b hb

theorem Safe.appended (o : Nat) (bytes : Bytes) : Safe (d.appended o bytes) promised := by
  refine h.update (fun _ _ => rfl) (fun p b hb => ?_) (fun path record hrecord hfile => h.spared path record o hrecord hfile)
    (h.numbered o)
  have hget := h.held o p b hb
  rw [getElem?_append_left (List.getElem?_eq_some_iff.mp hget).1]
  exact hget

theorem Safe.unjournaled (path : Path) : Safe (d.unjournaled path) promised := by
  refine ⟨h.held, fun other record o hrecord => ?_, h.numbered⟩
  exact h.spared other record o (get_of_erase hrecord)

theorem Safe.journaled {record : Journal} (hfile : d.files.get record.targetPath = some o)
    (hbase : record.baseSize = (d.contents o).length) : Safe (d.journaled record) promised := by
  refine ⟨h.held, fun path other q hother hq p b hb => ?_, h.numbered⟩
  rw [Disk.journaled, get_set] at hother
  split at hother
  · cases hother
    rw [show (d.journaled record).files = d.files from rfl, hfile] at hq
    cases hq
    rw [hbase]
    exact (List.getElem?_eq_some_iff.mp (h.held o p b hb)).1
  · exact h.spared path other q hother hq p b hb

variable {tail : Bytes}

theorem Safe.during (hfile : d.files.get path = some o) (ht : During d path o tail t) : Safe t promised := by
  cases ht with
  | before ht => exact h.durable.of_durable ht
  | writing k ht =>
    have hjournal : Safe (d.durable.journaled ⟨path, (d.contents o).length, (d.contents o).length + tail.length, tail⟩)
        promised := h.durable.journaled hfile rfl
    exact (hjournal.appended o _).of_durable ht
  | after bytes _ ht => exact ((h.durable.unjournaled path).appended o bytes).of_durable ht

omit h in
theorem Disk.Sound.during (h : d.Sound) (ht : During d path o tail t) : t.Sound := by
  cases ht with
  | before ht => exact h.durable.of_durable ht
  | writing k ht => exact ((h.durable.journaled _).setContents o _).of_durable ht
  | after bytes _ ht => exact ((h.durable.unjournaled path).setContents o _).of_durable ht

omit h in
theorem Promises.add_eq_some {w : Written} {p : Nat} {b : UInt8} (h : promised.add w w.object p = some b) :
    (w.offset ≤ p ∧ w.data[p - w.offset]? = some b) ∨
      ((p < w.offset ∨ w.offset + w.data.length ≤ p) ∧ promised w.object p = some b) := by
  unfold Promises.add at h
  by_cases hin : w.offset ≤ p ∧ p < w.offset + w.data.length
  · rw [if_pos ⟨rfl, hin⟩] at h
    exact .inl ⟨hin.1, h⟩
  · rw [if_neg fun hc => hin hc.2] at h
    exact .inr ⟨by omega, h⟩

omit h in
theorem Promises.add_of_ne {w : Written} (h : o ≠ w.object) : promised.add w o = promised o := by
  funext p
  exact if_neg fun hc => h hc.1

theorem Safe.committed (hsound : d.Sound) (hfile : d.files.get path = some o)
    (ht : t.durable = (d.durable.unjournaled path).appended o tail) :
    Safe t (promised.add ⟨o, (d.contents o).length, tail⟩) := by
  have hsafe := h.durable.unjournaled path
  refine Safe.of_durable (hsafe.update (fun q hq => Promises.add_of_ne hq) (fun p b hb => ?_)
    (fun other record hrecord hother => ?_) fun _ _ _ => hsound.numbered path o hfile) ht
  · rcases Promises.add_eq_some hb with ⟨hle, hget⟩ | ⟨-, hold⟩
    · exact (getElem?_append_right hle).trans hget
    · have hget := hsafe.held o p b hold
      rw [getElem?_append_left (List.getElem?_eq_some_iff.mp hget).1]
      exact hget
  · -- the object has no other name, and the journal of this one is gone
    have hkeyed := (hsound.durable.unjournaled path).keyed other record hrecord
    have hpath : record.targetPath = path := hsound.distinct _ _ o hother hfile
    rw [← hkeyed, hpath, Disk.unjournaled, get_erase_self] at hrecord
    cases hrecord

theorem Safe.written {offset : Nat} {data : Bytes} (ho : o < d.fresh)
    (hjournals : data ≠ [] → ∀ path record, d.journals.get path = some record → d.files.get record.targetPath = some o → offset + data.length ≤ record.baseSize) :
    Safe (d.setContents o (overlay 0 (d.contents o) offset data)) (promised.add ⟨o, offset, data⟩) := by
  refine h.update (fun q hq => Promises.add_of_ne hq) (fun p b hb => ?_) (fun path record hrecord hfile p b hb => ?_)
    fun _ _ _ => ho
  · rcases Promises.add_eq_some hb with ⟨hle, hget⟩ | ⟨hout, hold⟩
    · exact (getElem?_overlay_of_le hle (List.getElem?_eq_some_iff.mp hget).1).trans hget
    · have hget := h.held o p b hold
      exact (getElem?_overlay_of_not_mem data _ offset p (List.getElem?_eq_some_iff.mp hget).1 hout).trans hget
  · rcases Promises.add_eq_some hb with ⟨hle, hget⟩ | ⟨-, hold⟩
    · have hlt : p - offset < data.length := (List.getElem?_eq_some_iff.mp hget).1
      have := hjournals (ne_nil_of_length_pos (by omega)) path record hrecord hfile
      omega
    · exact h.spared path record o hrecord hfile p b hold

theorem Safe.overlaid {offset : Nat} {data : Bytes}
    (hdata : ∀ i b, i < data.length → promised o (offset + i) = some b → data[i]? = some b) :
    Safe (d.setContents o (overlay 0 (d.contents o) offset data)) promised := by
  refine h.update (fun _ _ => rfl) (fun p b hb => ?_) (fun path record hrecord hfile =>
    h.spared path record o hrecord hfile) (h.numbered o)
  by_cases hin : offset ≤ p ∧ p < offset + data.length
  · have hlt : p - offset < data.length := by omega
    refine (getElem?_overlay_of_le hin.1 hlt).trans (hdata (p - offset) b hlt ?_)
    rw [Nat.add_sub_cancel' hin.1]
    exact hb
  · have hget := h.held o p b hb
    exact (getElem?_overlay_of_not_mem data _ offset p (List.getElem?_eq_some_iff.mp hget).1 (by omega)).trans hget

theorem Safe.resized {size : Nat} (hsize : ∀ p b, promised o p = some b → p < size) :
    Safe (d.setContents o (resize 0 (d.contents o) size)) promised := by
  refine h.update (fun _ _ => rfl) (fun p b hb => ?_) (fun path record hrecord hfile =>
    h.spared path record o hrecord hfile) (h.numbered o)
  have hget := h.held o p b hb
  exact (getElem?_resize_of_lt (List.getElem?_eq_some_iff.mp hget).1 (hsize p b hb)).trans hget

theorem Safe.mono {promised' : Promises} (hsub : ∀ o p b, promised' o p = some b → promised o p = some b) :
    Safe d promised' :=
  ⟨fun o p b hb => h.held o p b (hsub o p b hb),
    fun path record o hrecord hfile p b hb => h.spared path record o hrecord hfile p b (hsub o p b hb),
    fun o p b hb => h.numbered o p b (hsub o p b hb)⟩

omit h in
theorem Promises.cut_eq_some {object size p : Nat} {b : UInt8} (h : promised.cut object size o p = some b) :
    promised o p = some b ∧ (o = object → p < size) := by
  unfold Promises.cut at h
  by_cases hc : o = object ∧ size ≤ p
  · rw [if_pos hc] at h
    cases h
  · rw [if_neg hc] at h
    exact ⟨h, fun ho => by omega⟩

theorem Safe.moved (hcontents : t.contents = d.contents) (hfresh : t.fresh = d.fresh) (hspared : t.Spares promised) :
    Safe t promised := by
  refine ⟨fun o p b hb => ?_, hspared, fun o p b hb => ?_⟩
  · rw [hcontents]
    exact h.held o p b hb
  · rw [hfresh]
    exact h.numbered o p b hb

end

theorem Disk.Sound.rename (h : d.Sound) {old new : Path} (ht : d.rename old new = .ok t) : t.Sound := by
  rcases rename_cases ht with ⟨o, hold, rfl⟩ | ⟨-, -, -, -, -, rfl⟩
  · -- under the new name lies what lay under the old one
    have hback : ∀ p q, ((d.files.erase old).set new o).get p = some q →
        (p = new ∧ q = o) ∨ (p ≠ new ∧ p ≠ old ∧ d.files.get p = some q) := by
      intro p q hget
      rw [get_set, get_erase] at hget
      split at hget
      · exact .inl ⟨‹_›, (some.inj hget).symm⟩
      · split at hget
        · cases hget
        · exact .inr ⟨‹_›, ‹_›, hget⟩
    refine ⟨fun p q hget => ?_, fun p q object hp hq => ?_, h.keyed⟩
    · rcases hback p q hget with ⟨-, rfl⟩ | ⟨-, -, hget⟩
      · exact h.numbered old q hold
      · exact h.numbered p q hget
    · rcases hback p object hp with ⟨hpnew, ho⟩ | ⟨-, hpold, hp'⟩
      · subst ho
        rcases hback q object hq with ⟨hqnew, -⟩ | ⟨-, hqold, hq'⟩
        · rw [hpnew, hqnew]
        · exact absurd (h.distinct q old _ hq' hold) hqold
      · rcases hback q object hq with ⟨-, ho⟩ | ⟨-, -, hq'⟩
        · subst ho
          exact absurd (h.distinct p old _ hp' hold) hpold
        · exact h.distinct p q object hp' hq'
  · refine ⟨fun p q hget => ?_, fun p q object hp hq => ?_, h.keyed⟩
    · obtain ⟨p', -, hget⟩ := exists_of_get_rekey hget
      exact h.numbered p' q hget
    · obtain ⟨p', rfl, hp'⟩ := exists_of_get_rekey hp
      obtain ⟨q', rfl, hq'⟩ := exists_of_get_rekey hq
      rw [h.distinct p' q' object hp' hq']

theorem rename_frame {old new : Path} (ht : d.rename old new = .ok t) :
    t.contents = d.contents ∧ t.fresh = d.fresh ∧ t.journals = d.journals := by
  rcases rename_cases ht with ⟨o, -, rfl⟩ | ⟨-, -, -, -, -, rfl⟩
  · exact ⟨rfl, rfl, rfl⟩
  · exact ⟨rfl, rfl, rfl⟩

def Disk.apart (path old new : Path) : Bool := !(old.isPrefixOf path) && !(new.isPrefixOf path)

theorem Disk.apart_iff {path old new : Path} : Disk.apart path old new ↔ ¬old <+: path ∧ ¬new <+: path := by
  simp [Disk.apart, ← isPrefixOf_iff_prefix]

section
variable {old new : Path} {o : Nat}

theorem moved_back {p q : Path} (hnew : ¬new <+: q) (hq : Disk.moved old new p = q) : p = q := by
  unfold Disk.moved at hq
  split at hq
  · exact absurd ⟨_, hq⟩ hnew
  · exact hq

theorem rename_back {q : Path} (ht : d.rename old new = .ok t) (hnew : ¬new <+: q) (hget : t.files.get q = some o) :
    d.files.get q = some o := by
  rcases rename_cases ht with ⟨_, -, rfl⟩ | ⟨-, -, -, -, -, rfl⟩
  · have hget : ((d.files.erase old).set new _).get q = some o := hget
    have hne : q ≠ new := fun heq => hnew (heq ▸ List.prefix_refl q)
    rw [get_set_ne _ _ hne] at hget
    exact get_of_erase hget
  · obtain ⟨p, hp, hfile⟩ := exists_of_get_rekey hget
    exact moved_back hnew hp ▸ hfile

theorem rename_apart {p : Path} (ht : d.rename old new = .ok t) (hapart : Disk.apart p old new) :
    t.files.get p = d.files.get p := by
  obtain ⟨hold, hnew⟩ := Disk.apart_iff.mp hapart
  refine Option.ext fun o => ⟨rename_back ht hnew, fun hfile => ?_⟩
  rcases rename_cases ht with ⟨_, -, rfl⟩ | ⟨-, -, -, -, -, rfl⟩
  · have hne : ∀ {q : Path}, ¬q <+: p → p ≠ q := fun hq heq => hq (heq ▸ List.prefix_refl p)
    exact (get_set_ne _ _ (hne hnew)).trans ((get_erase_ne _ (hne hold)).trans hfile)
  · have hstays : Disk.moved old new p = p := if_neg (by simpa using hold)
    have hmoved := get_rekey hfile fun q hq => moved_back hnew (hq.trans hstays)
    rwa [hstays] at hmoved

end

theorem Disk.Sound.fewer (h : d.Sound) (hfiles : ∀ p o, t.files.get p = some o → d.files.get p = some o)
    (hjournals : t.journals = d.journals) (hfresh : t.fresh = d.fresh) : t.Sound := by
  refine ⟨fun p o hp => ?_, fun p q o hp hq => h.distinct p q o (hfiles p o hp) (hfiles q o hq), ?_⟩
  · rw [hfresh]
    exact h.numbered p o (hfiles p o hp)
  · rw [hjournals]
    exact h.keyed

theorem remove_frame (ht : d.remove path = .ok t) :
    (∀ p o, t.files.get p = some o → d.files.get p = some o) ∧ t.contents = d.contents ∧ t.fresh = d.fresh ∧
      t.journals = d.journals := by
  rcases remove_cases ht with ⟨o, -, rfl⟩ | ⟨-, rfl⟩
  · refine ⟨fun p q hget => ?_, rfl, rfl, rfl⟩
    exact get_of_erase hget
  · exact ⟨fun p q hget => hget, rfl, rfl, rfl⟩

theorem Disk.Sound.created (h : d.Sound) (path : Path) (c : Nat → Bytes) :
    { d with contents := c, files := d.files.set path d.fresh, fresh := d.fresh + 1 : Disk }.Sound := by
  have hback : ∀ p o, (d.files.set path d.fresh).get p = some o →
      (p = path ∧ o = d.fresh) ∨ (d.files.get p = some o ∧ o < d.fresh) := by
    intro p o hget
    rw [get_set] at hget
    split at hget
    · exact .inl ⟨‹_›, (some.inj hget).symm⟩
    · exact .inr ⟨hget, h.numbered p o hget⟩
  refine ⟨fun p o hget => ?_, fun p q o hp hq => ?_, h.keyed⟩
  · rcases hback p o hget with ⟨-, rfl⟩ | ⟨-, hlt⟩
    · exact Nat.lt_succ_self _
    · exact Nat.lt_succ_of_lt hlt
  · rcases hback p o hp with ⟨hppath, ho⟩ | ⟨hp', hlt⟩
    · rcases hback q o hq with ⟨hqpath, -⟩ | ⟨-, hlt⟩
      · rw [hppath, hqpath]
      · exact absurd hlt (Nat.not_lt.mpr (le_of_eq ho.symm))
    · rcases hback q o hq with ⟨-, ho⟩ | ⟨hq', -⟩
      · exact absurd hlt (Nat.not_lt.mpr (le_of_eq ho.symm))
      · exact h.distinct p q o hp' hq'

theorem Safe.created (h : Safe d promised) (path : Path) :
    Safe { d.setContents d.fresh [] with files := d.files.set path d.fresh, fresh := d.fresh + 1 } promised := by
  have hold : ∀ o p b, promised o p = some b → o ≠ d.fresh := fun o p b hb => ne_of_lt (h.numbered o p b hb)
  refine ⟨fun o p b hb => ?_, fun other record o hrecord hfile p b hb => ?_, fun o p b hb => ?_⟩
  · show ((d.setContents d.fresh []).contents o)[p]? = some b
    rw [Disk.setContents_of_ne d (hold o p b hb)]
    exact h.held o p b hb
  · rw [get_set] at hfile
    split at hfile
    · exact absurd (some.inj hfile).symm (hold o p b hb)
    · exact h.spared other record o hrecord hfile p b hb
  · exact Nat.lt_succ_of_lt (h.numbered o p b hb)

end

/-! ## Recovery -/

structure Unharmed (files : Files Path Nat) (promised : Promises) (t : Disk) : Prop where
  sound : t.Sound
  safe : Safe t promised
  files : t.files = files

section
variable {files : Files Path Nat} {promised : Promises}

theorem Unharmed.of_eq {d t : Disk} (h : Unharmed files promised d) (ht : t.durable = d.durable) :
    Unharmed files promised t :=
  ⟨h.sound.durable.of_durable ht, h.safe.durable.of_durable ht, (Disk.durable_files ht).trans h.files⟩

theorem recoverJournal_unharmed {record : Journal}
    (hrecord : ∀ o, files.get record.targetPath = some o → ∀ p b, promised o p = some b → p < record.baseSize) :
    Keeps (Unharmed files promised) (recoverJournal record) := by
  refine .bind' (.point' _) fun _ => .bind' (.ofExcept' _) fun _ => ?_
  refine .bind' (openPath_keeps _) fun object => .bind' (.read' _) fun size => ?_
  have htail : Keeps (Unharmed files promised) (tailCommitted record size) := by
    refine .ite' (.bind' (.attempt' ?_) fun digest => ?_) (.pure' _)
    · refine .bind' (openPath_keeps _) fun object => .bind' (.point' _) fun _ => ?_
      exact .bind' (.read' _) fun _ => .bind' (.ensure' _ _) fun _ => .pure' _
    · cases digest with
      | ok tail | error e => exact .pure' _
  have hcut : Keeps (Unharmed files promised) (truncatePath record.targetPath record.baseSize) := by
    refine Spec.bind' (openPath_spec _ (fun _ _ h => h) fun _ h => h) fun o => ?_
    refine .effect' _ _ (fun t ht => ?_) (fun _ h => h.1) fun _ h => h.1
    obtain ⟨ht, hfile⟩ := ht
    refine ⟨ht.sound.setContents o _, ht.safe.resized (hrecord o ?_), ht.files⟩
    rw [← ht.files]
    exact hfile
  refine .bind' htail fun committed => .bind' (.ite' (.pure' _) ?_) fun _ => ?_
  · exact .bind' (.ensure' _ _) fun _ => .bind' hcut fun _ => syncNativePath_spec _
  · exact .effect' _ _ fun t ht => ⟨ht.sound.unjournaled _, ht.safe.unjournaled _, ht.files⟩

theorem recover_unharmed : Keeps (Unharmed files promised) recoverNativeAppendTransactions := by
  refine .bind' (.point' _) fun _ => .bind' (.read' _) fun temporaries => ?_
  refine .bind' (.forEach' fun n => .effect' _ _ fun t ht => ht.of_eq rfl) fun _ => ?_
  refine .at' fun t ht => .readAt (.pre ?_ (held ht))
  refine Spec.bind' (Spec.forEach' fun record hmem => recoverJournal_unharmed fun o hfile => ?_) fun _ => Keeps.point' _
  obtain ⟨⟨path, found⟩, hentry, rfl⟩ := List.mem_map.mp hmem
  rw [← ht.files] at hfile
  exact ht.safe.spared path found o (t.journals.get_eq_some_iff.mpr hentry) hfile

end

/-! ## Requests -/

structure Good (promised : Promises) (m : Native) : Prop where
  sound : m.disk.Sound
  safe : Safe m.disk promised
  opened : ∀ id h, m.handles.get id = some h → h.object < m.disk.fresh

namespace Native

def idle (m : Native) (path : Path) : Bool :=
  match m.nativeAppends.get path with
  | some i => (m.states i).segments.isEmpty
  | none => true

def committing (m : Native) (id : Nat) : Option Written :=
  match m.handles.get id with
  | some h => if h.append then (m.getState h.state).committing else none
  | none => none

end Native

variable (m : Native)

def Request.writes : Request → Option Written
  | .write id data offset =>
    match m.handles.get id with
    | some h => if h.append then none else some ⟨h.object, offset.toNat, data⟩
    | none => none
  | .flush id => m.committing id
  | .fsync id => m.committing id
  | .useRandomWrites id => m.committing id
  | .release id => m.committing id
  | _ => none

def Request.cuts : Request → Option (Nat × Nat)
  | .truncate id size =>
    match m.handles.get id with
    | some h =>
      if (m.states h.state).segments.isEmpty && 0 ≤ size then
        (m.disk.files.get (m.states h.state).path).map (·, size.toNat)
      else none
    | none => none
  | .truncatePath path size =>
    if m.idle path && 0 ≤ size then (m.disk.files.get (m.backing path)).map (·, size.toNat) else none
  | .opens path flags =>
    if flags.writable && flags.trunc && m.idle path then (m.disk.files.get (m.backing path)).map (·, 0) else none
  | _ => none

variable (promised : Promises)

def Promises.after : Option Written → Option (Nat × Nat) → Promises
  | some w, _ => promised.add w
  | none, some (o, size) => promised.cut o size
  | none, none => promised

def Request.promises (r : Request) : Promises :=
  promised.after (r.writes m) (r.cuts m)

def Request.renames : Request → Option Disk
  | .rename managedTarget old new =>
    if renameAllowed old new && old != new &&
        !(managedTarget && ((m.disk.files.get old).isNone || m.nativePathBusyLocked new)) then
      (m.disk.rename (m.backing old) new).toOption
    else none
  | _ => none

def Request.cutAt : Request → Nat
  | .truncate _ _ => 2
  | .truncatePath _ _ => 3
  | _ => 4

/-- A positional write through the handle: if a fault stops it, the bytes before the fault
    change nothing promised; if none does, it ends before the base of every journal left
    behind for the file. -/
def WriteHarmless (h : Handle) (data : Bytes) (offset : Nat) (fs : List Fault) : Prop :=
  (∀ n, Hits fs n → n ≤ data.length → ∀ i b, i < n → promised h.object (offset + i) = some b → data[i]? = some b) ∧
    (Clear fs (data.length + 1) → data ≠ [] → ∀ path record, m.disk.journals.get path = some record →
      m.disk.files.get record.targetPath = some h.object → offset + data.length ≤ record.baseSize)

/-- The request is no danger to promised bytes: a positional write is harmless, a
    truncation of promised bytes is not stopped by a fault once it has cut the file, and a
    rename brings no promised byte behind the base of a journal left behind. -/
structure Harmless (m : Native) (promised : Promises) (r : Request) (fs : List Fault) : Prop where
  writes : ∀ id data offset h, r = .write id data offset → m.handles.get id = some h → h.append = false →
    h.writable = true → (m.states h.state).segments = [] → 0 ≤ offset →
    WriteHarmless m promised h data offset.toNat fs
  cuts : ∀ n o size, Hits fs n → r.cutAt ≤ n → n ≤ r.cutAt + 2 → r.cuts m = some (o, size) →
    ∀ p b, promised o p = some b → p < size
  renames : ∀ d, r.renames m = some d → ¬Hits fs 0 → d.Spares promised

section
variable {promised : Promises} {m t : Native} {jsonValid : Bytes → Bool}
variable {path : Path} {fs : List Fault} {state : Nat}

theorem Good.of_disk (h : Good promised m) (hdisk : t.disk = m.disk)
    (hhandles : ∀ id o, t.handles.get id = some o → o.object < m.disk.fresh) : Good promised t := by
  refine ⟨?_, ?_, fun id o ho => ?_⟩
  · rw [hdisk]
    exact h.sound
  · rw [hdisk]
    exact h.safe
  · rw [hdisk]
    exact hhandles id o ho

theorem Good.same (h : Good promised m) (hdisk : t.disk = m.disk) (hhandles : t.handles = m.handles) : Good promised t := by
  refine h.of_disk hdisk fun id x hx => ?_
  rw [hhandles] at hx
  exact h.opened id x hx

theorem Good.of_durable (h : Good promised m) {i : Nat} {a : Appending} (hdisk : a.disk.durable = m.disk.durable) :
    Good promised (m.putState i a) := by
  refine ⟨h.sound.durable.of_durable hdisk, h.safe.durable.of_durable hdisk, fun id x hx => ?_⟩
  exact Nat.lt_of_lt_of_eq (h.opened id x hx) (Disk.durable_fresh hdisk).symm

theorem Good.done (h : Good promised m) {i : Nat} {a : Appending} (ha : CommitDone jsonValid (m.getState i) a) :
    Good (promised.after (m.getState i).committing none) (m.putState i a) := by
  rcases ha.disk with ⟨hnone, hdisk⟩ | ⟨o, tail, ⟨hfile, hcommits, -⟩, hdisk⟩
  · rw [hnone]
    exact h.of_durable hdisk
  · rw [hcommits]
    refine ⟨?_, h.safe.committed h.sound hfile hdisk, fun id x hx => ?_⟩
    · exact ((h.sound.durable.unjournaled _).setContents o _).of_durable hdisk
    · exact Nat.lt_of_lt_of_eq (h.opened id x hx) (Disk.durable_fresh hdisk).symm

theorem During.fresh_eq {d u : Disk} {o : Nat} {tail : Bytes} (h : During d path o tail u) : u.fresh = d.fresh := by
  cases h with
  | before h | writing k h | after bytes _ h => exact (Disk.durable_fresh h).trans rfl

theorem Good.stopped (h : Good promised m) {i : Nat} {a : Appending} (ha : CommitStopped jsonValid (m.getState i) a) :
    Good promised (m.putState i a) := by
  rcases ha.disk with hdisk | ⟨o, tail, ⟨hfile, -, -⟩, hduring⟩
  · exact h.of_durable hdisk
  · refine ⟨h.sound.during hduring, h.safe.during hfile hduring, fun id x hx => ?_⟩
    exact Nat.lt_of_lt_of_eq (h.opened id x hx) hduring.fresh_eq.symm

section

variable (hm : Good promised m)
include hm

theorem commitStaged_good (h : Handle) (strict : Bool) : SpecOr (· = m) (commitStaged jsonValid h strict)
      (fun _ t => t.handles = m.handles ∧ Good promised t ∧
        Good (promised.after (if h.append then (m.getState h.state).committing else none) none) t) (Good promised) := by
  refine (commitStaged_spec h strict).mono (fun _ t ht => ?_) fun t ht => ?_
  · rcases ht with ⟨happend, rfl⟩ | ⟨happend, a, ha, rfl⟩
    · rw [happend]
      exact ⟨rfl, hm, hm⟩
    · rw [happend]
      exact ⟨rfl, hm.stopped ha.stopped, hm.done ha⟩
  · obtain ⟨-, a, ha, rfl⟩ := ht
    exact hm.stopped ha

section

variable (id : Nat)
include id

theorem Good.setHandle {h : Handle} (hobject : h.object < m.disk.fresh) :
    Good promised { m with handles := m.handles.set id h } := by
  refine ⟨hm.sound, hm.safe, fun other x hx => ?_⟩
  rw [get_set] at hx
  split at hx
  · rw [← some.inj hx]
    exact hobject
  · exact hm.opened other x hx

theorem Good.eraseHandle : Good promised { m with handles := m.handles.erase id } := by
  refine ⟨hm.sound, hm.safe, fun other x hx => ?_⟩
  exact hm.opened other x (get_of_erase hx)

theorem handle_good {α : Type} {k : Handle → NativeProg α} {Q : α → Native → Prop}
    (hk : ∀ h, m.handles.get id = some h → SpecOr (· = m) (k h) Q (Good promised)) :
    SpecOr (· = m) (do let h ← handle id; k h) Q (Good promised) := by
  refine .bind' ((handle_spec id).mono (fun _ _ h => h) (held hm)) fun h => ?_
  exact .given (hk h)

omit id in
omit hm in
theorem committing_of_handle {id : Nat} {h : Handle} (hget : m.handles.get id = some h) :
    m.committing id = if h.append then (m.getState h.state).committing else none := by
  unfold Native.committing
  rw [hget]

theorem flush_good : SpecOr (· = m) (flush jsonValid id)
    (fun _ => Good (promised.after (m.committing id) none)) (Good promised) := by
  refine handle_good hm id fun h hget => .readAt ?_
  refine (commitStaged_good hm h _).weaken fun _ t ht => ?_
  rw [← committing_of_handle hget] at ht
  exact ht.2.2

theorem fsync_good : SpecOr (· = m) (fsync jsonValid id)
    (fun _ => Good (promised.after (m.committing id) none)) (Good promised) := by
  refine handle_good hm id fun h hget => ?_
  rw [committing_of_handle hget]
  refine .ite' (fun happend => ?_) fun happend => ?_
  · have hcommit : SpecOr (· = m) (commitStaged jsonValid h false) _ (Good promised) :=
      commitStaged_good hm h false
    unfold commitStaged at hcommit
    rw [if_pos happend] at hcommit
    exact hcommit.weaken (fun _ _ h => h.2.2)
  · rw [if_neg happend]
    exact .point' _ (held hm) (held hm) (held hm)

theorem useRandomWrites_good : SpecOr (· = m) (useRandomWrites jsonValid id)
    (fun _ => Good (promised.after (m.committing id) none)) (Good promised) := by
  refine handle_good hm id fun h hget => ?_
  rw [committing_of_handle hget]
  refine .bind' (commitStaged_good hm h true) fun _ => .modify' _ fun t ht => ?_
  obtain ⟨hhandles, -, hgood⟩ := ht
  refine hgood.setHandle id ?_
  rw [← hhandles] at hget
  exact hgood.opened id h hget

theorem release_good : SpecOr (· = m) (release jsonValid id)
    (fun _ => Good (promised.after (m.committing id) none)) (Good promised) := by
  refine handle_good hm id fun h hget => .readAt ?_
  rw [committing_of_handle hget]
  refine .modifyAt ?_
  refine .bind' (M := fun r t => Good promised t ∧ ∀ u, r = .ok u →
    Good (promised.after (if h.append then (m.getState h.state).committing else none) none) t)
    (.attempt' ((commitStaged_good (hm.eraseHandle id) h _).post (fun _ t ht => ⟨ht.2.1, fun _ _ => ht.2.2⟩)
      (fun _ t ht => ⟨ht, nofun⟩) fun _ h => h)) fun r => ?_
  refine SpecOr.point' (fun _ h => h.1) fun _ => ?_
  exact .ofExcept' r (fun u hu t ht => ht.2 u hu) fun _ _ t ht => ht.1

theorem handle_outcome {α : Type} {k : Handle → NativeProg α} {Q : α → Native → Prop} (fs : List Fault)
    (hk : ∀ h, m.handles.get id = some h → Post Q (fun _ => Good promised) (Good promised) (k h fs m)) :
    Post Q (fun _ => Good promised) (Good promised) ((handle id >>= k) fs m) := by
  cases hget : m.handles.get id with
  | some h =>
    rw [handle_some hget]
    exact hk h hget
  | none =>
    rw [handle_none hget]
    exact hm

theorem write_good (data : Bytes) (offset : Int) (hharmless : Harmless m promised (.write id data offset) fs) :
    Post (fun _ => Good ((Request.write id data offset).promises m promised)) (fun _ => Good promised) (Good promised)
      (write id data offset fs m) := by
  refine handle_outcome hm id fs fun h hget => ?_
  have hpromises : (Request.write id data offset).promises m promised =
      promised.after (if h.append then none else some ⟨h.object, offset.toNat, data⟩) none := by
    unfold Request.promises Request.writes
    simp only [hget]
    rfl
  rw [hpromises]
  cases happend : h.append with
  | true =>
    have hput : ∀ a, Untouched (m.getState h.state) a → Good promised (m.putState h.state a) := fun a ha =>
      hm.same ha.1 rfl
    have hstage : LeadsTo (· = m) (onState h.state (stage data offset)) (Good promised) := by
      refine Spec.onPart' fun t ht => ?_
      subst ht
      exact (stage_untouched data offset).mono (fun _ => hput) hput
    exact hstage fs m rfl
  | false =>
    -- the bytes written are followed by the new promise; a fault leaves the bytes before it
    have hobject := hm.opened id h hget
    have hput : ∀ (P : Promises) (a : Appending) (c : Bytes), a.disk = m.disk.setContents h.object c →
        Safe (m.disk.setContents h.object c) P → Good P (m.putState h.state a) := by
      intro P a c hdisk hsafe
      refine ⟨?_, ?_, fun other x hx => ?_⟩
      · show a.disk.Sound
        rw [hdisk]
        exact hm.sound.setContents _ _
      · show Safe a.disk P
        rw [hdisk]
        exact hsafe
      · show x.object < a.disk.fresh
        rw [hdisk]
        exact hm.opened other x hx
    refine Spec.postOnPart ((writeAt_counted h.object h.writable data offset).outcome (fun j _ a hclear ha => ?_)
      (fun _ a ha => ?_) fun n a hn ha => ?_)
    · obtain ⟨rfl, ⟨hoffset, hidle, hwritable⟩, hdisk, -⟩ := ha
      refine hput _ a _ hdisk (hm.safe.written hobject fun hdata path record hrecord hfile => ?_)
      have hwritable : h.writable := by simpa [hdata] using hwritable
      have hclear : Clear fs (data.length + 1) := by simpa using hclear
      exact (hharmless.writes id data offset h rfl hget happend hwritable hidle hoffset).2 hclear hdata path record hrecord
        hfile
    · rw [ha]
      exact hm.same rfl rfl
    · obtain ⟨⟨⟨-, hle⟩, hoffset, hidle, hwritable⟩, -, hdisk⟩ := ha
      have hsafe : Safe (m.disk.setContents h.object
          (overlay 0 (m.disk.contents h.object) offset.toNat (data.take (n - 0)))) promised := by
        refine hm.safe.overlaid fun k b hk hb => ?_
        rw [length_take, Nat.sub_zero] at hk
        have hwritable : h.writable := by
          have hdata : data ≠ [] := ne_nil_of_length_pos (by omega)
          simpa [hdata] using hwritable
        rw [Nat.sub_zero, getElem?_take_of_lt (by omega)]
        exact (hharmless.writes id data offset h rfl hget happend hwritable hidle hoffset).1 n hn (by omega) k b (by omega) hb
      exact ⟨fun _ => hput promised a _ hdisk hsafe, hput promised a _ hdisk hsafe⟩

end

theorem Good.truncated {promised' : Promises} {o size : Nat}
    (hsub : ∀ q p b, promised' q p = some b → promised q p = some b) (hsize : ∀ p b, promised' o p = some b → p < size)
    (hdisk : t.disk = m.disk.setContents o (resize 0 (m.disk.contents o) size)) (hhandles : t.handles = m.handles) :
    Good promised' t := by
  refine ⟨?_, ?_, fun id x hx => ?_⟩
  · rw [hdisk]
    exact hm.sound.setContents _ _
  · rw [hdisk]
    exact (hm.safe.mono hsub).resized hsize
  · rw [hdisk]
    rw [hhandles] at hx
    exact hm.opened id x hx

omit hm in
theorem truncateState_counted {i : Nat} (k : Nat) (size : Int) : Counted i (· = m) (onState k (truncate size))
    (fun _ _ t => (0 ≤ size ∧ (m.states k).segments = []) ∧ t.handles = m.handles ∧
      ∃ o, m.disk.files.get (m.states k).path = some o ∧
        t.disk = m.disk.setContents o (resize 0 (m.disk.contents o) size.toNat))
    (fun t => t.handles = m.handles ∧ t.disk = m.disk)
    (fun n t => t.handles = m.handles ∧ (t.disk = m.disk ∨ ((i + 2 ≤ n ∧ n ≤ i + 4) ∧
      (0 ≤ size ∧ (m.states k).segments = []) ∧ ∃ o, m.disk.files.get (m.states k).path = some o ∧
        t.disk = m.disk.setContents o (resize 0 (m.disk.contents o) size.toNat)))) := by
  refine .onPart' ((truncate_counted size).post (fun j _ a h => ?_) (fun a h => ?_) fun n a h => ⟨rfl, ?_⟩)
  · obtain ⟨-, hsize, hidle, o, hfile, rfl⟩ := h
    exact ⟨⟨hsize, hidle⟩, rfl, o, hfile, rfl⟩
  · rw [h]
    exact ⟨rfl, rfl⟩
  · refine h.2.imp id fun ⟨hn, hsize, hidle, o, hfile, hdisk⟩ => ⟨hn, ⟨hsize, hidle⟩, o, hfile, hdisk⟩

theorem truncateHandle_good (id : Nat) (size : Int) (hharmless : Harmless m promised (.truncate id size) fs) :
    Post (fun _ => Good ((Request.truncate id size).promises m promised)) (fun _ => Good promised) (Good promised)
      (truncateHandle id size fs m) := by
  refine handle_outcome hm id fs fun h hget => ?_
  have hcuts : ∀ o, 0 ≤ size → (m.states h.state).segments = [] → m.disk.files.get (m.states h.state).path = some o →
      (Request.truncate id size).cuts m = some (o, size.toNat) := by
    intro o hsize hidle hfile
    unfold Request.cuts
    simp [hget, hidle, hsize, hfile]
  refine (truncateState_counted h.state size).outcome (fun j _ t _ ht => ?_) (fun _ t ht => ?_) fun n t hn ht => ?_
  · obtain ⟨⟨hsize, hidle⟩, hhandles, o, hfile, hdisk⟩ := ht
    unfold Request.promises
    rw [hcuts o hsize hidle hfile]
    exact hm.truncated (fun q p b hb => (Promises.cut_eq_some hb).1) (fun p b hb => (Promises.cut_eq_some hb).2 rfl)
      hdisk hhandles
  · exact hm.same ht.2 ht.1
  · refine Counted.alike ?_
    obtain ⟨hhandles, hdisk | ⟨hwindow, ⟨hsize, hidle⟩, o, hfile, hdisk⟩⟩ := ht
    · exact hm.same hdisk hhandles
    · refine hm.truncated (fun _ _ _ hb => hb) (fun p b hb => ?_) hdisk hhandles
      exact hharmless.cuts n o _ hn (by simp [Request.cutAt]; omega) (by simp [Request.cutAt]; omega)
        (hcuts o hsize hidle hfile) p b hb

end

section

variable (h : Loaded m path state t)
include h

theorem Loaded.same : t.disk = m.disk ∧ t.handles = m.handles := by
  cases h with
  | known s _ _ _ ht | created object size _ _ _ ht => rw [ht]; exact ⟨rfl, rfl⟩

theorem Loaded.path_eq : (t.states state).path = m.backing path := by
  unfold Native.backing
  cases h with
  | known s hknown hpath _ ht => rw [ht, hknown]; simp [Native.putState, hpath]
  | created object size hunknown _ hstate ht => rw [ht, hunknown, hstate]; simp

theorem Loaded.idle_eq (hidle : (t.states state).segments = []) : m.idle path = true := by
  unfold Native.idle
  cases h with
  | known s hknown _ hsegments ht =>
    rw [hknown]
    rw [ht] at hidle
    simpa [Native.putState, hsegments] using hidle
  | created object size hunknown _ _ _ => rw [hunknown]

end

/-- What a fault in the truncation of a loaded append state leaves, where `i` effects were
    performed before it was loaded. -/
def CutShort (promised : Promises) (m : Native) (path : Path) (size : Int) (i n : Nat) (t : Native) : Prop :=
  Good promised t ∨ ((i + 3 ≤ n ∧ n ≤ i + 5) ∧ t.handles = m.handles ∧ (0 ≤ size ∧ m.idle path = true) ∧
    ∃ o, m.disk.files.get (m.backing path) = some o ∧
      t.disk = m.disk.setContents o (resize 0 (m.disk.contents o) size.toNat))

section

variable (hm : Good promised m)
include hm

theorem load_counted {i : Nat} (path : Path) (size : Int) : Counted i (· = m) (loadNativeAppendState path)
      (fun j state t => ((t.states state).segments = [] → j = i + 1) ∧ Loaded m path state t)
      (Good promised) (CutShort promised m path size i) :=
  (loadNativeAppendState_counted path).post (fun _ _ _ h => h) (held hm) fun _ _ h => .inl (h ▸ hm)

theorem loadedTruncate_counted {promised' : Promises} {i j : Nat} {size : Int}
    (hj : (t.states state).segments = [] → j = i + 1) (hloaded : Loaded m path state t)
    (hsub : ∀ q p b, promised' q p = some b → promised q p = some b)
    (hsize : ∀ o p b, m.idle path → 0 ≤ size → m.disk.files.get (m.backing path) = some o → promised' o p = some b → p < size.toNat) :
    Counted j (· = t) (onState state (truncate size))
      (fun _ _ u => Good promised' u ∧ u.disk.fresh = m.disk.fresh) (Good promised) (CutShort promised m path size i) := by
  have hbacking := hloaded.path_eq
  obtain ⟨hdisk, hhandles⟩ := hloaded.same
  refine (truncateState_counted state size).post (fun _ _ u hu => ?_) (fun u hu => ?_) fun n u hu => ?_
  · obtain ⟨⟨hpos, hidle⟩, huhandles, o, hfile, hudisk⟩ := hu
    rw [hbacking, hdisk] at hfile
    rw [hdisk] at hudisk
    refine ⟨hm.truncated hsub (fun p b hb => hsize o p b (hloaded.idle_eq hidle) hpos hfile hb) hudisk
      (huhandles.trans hhandles), ?_⟩
    rw [hudisk]
    rfl
  · exact hm.same (hu.2.trans hdisk) (hu.1.trans hhandles)
  · obtain ⟨huhandles, hudisk | ⟨hwindow, ⟨hpos, hidle⟩, o, hfile, hudisk⟩⟩ := hu
    · exact .inl (hm.same (hudisk.trans hdisk) (huhandles.trans hhandles))
    · have := hj hidle
      rw [hbacking, hdisk] at hfile
      rw [hdisk] at hudisk
      exact .inr ⟨by omega, huhandles.trans hhandles, ⟨hpos, hloaded.idle_eq hidle⟩, o, hfile, hudisk⟩

omit hm in
theorem Promises.after_cuts {c : Option (Nat × Nat)} {o p : Nat} {b : UInt8} (h : promised.after none c o p = some b) :
    promised o p = some b := by
  cases c with
  | none => exact h
  | some c => exact (Promises.cut_eq_some h).1

theorem truncateNative_good (path : Path) (size : Int) (hharmless : Harmless m promised (.truncatePath path size) fs) :
    Post (fun _ => Good ((Request.truncatePath path size).promises m promised)) (fun _ => Good promised) (Good promised)
      (truncateNative path size fs m) := by
  have hcuts : ∀ o, m.idle path = true → 0 ≤ size → m.disk.files.get (m.backing path) = some o →
      (Request.truncatePath path size).cuts m = some (o, size.toNat) := by
    intro o hidle hsize hfile
    unfold Request.cuts
    simp [hidle, hsize, hfile]
  have hpromises : (Request.truncatePath path size).promises m promised =
      promised.after none ((Request.truncatePath path size).cuts m) := rfl
  have hrun : Counted 0 (· = m) (truncateNative path size)
      (fun _ _ => Good ((Request.truncatePath path size).promises m promised)) (Good promised)
      (CutShort promised m path size 0) := by
    refine .bind' (load_counted hm path size) fun j state => .at' fun t ht => ?_
    refine (loadedTruncate_counted hm ht.1 ht.2 (fun q p b hb => ?_) fun o p b hidle hsize hfile hb => ?_).post
      (fun _ _ _ h => h.1) (fun _ h => h) fun _ _ h => h
    · exact Promises.after_cuts hb
    · rw [hpromises, hcuts o hidle hsize hfile] at hb
      exact (Promises.cut_eq_some hb).2 rfl
  refine hrun.outcome (fun _ _ _ _ ht => ht) (fun _ _ ht => ht) fun n t hn ht => ?_
  · refine Counted.alike ?_
    rcases ht with ht | ⟨hwindow, hhandles, ⟨hsize, hidle⟩, o, hfile, hdisk⟩
    · exact ht
    · refine hm.truncated (fun _ _ _ hb => hb) (fun p b hb => ?_) hdisk hhandles
      exact hharmless.cuts n o _ hn (by simp [Request.cutAt]; omega) (by simp [Request.cutAt]; omega)
        (hcuts o hidle hsize hfile) p b hb

theorem Good.openedBacking {create excl : Bool} {object : Nat} {d : Disk}
    (hopen : m.disk.openNativeBacking path create excl = .ok (object, d)) :
    Good promised { m with disk := d } ∧ object < d.fresh ∧
      ∀ q o, d.files.get q = some o → m.disk.files.get q = some o ∨ ∀ p, promised o p = none := by
  rcases openNativeBacking_cases hopen with ⟨hfile, rfl⟩ | ⟨-, -, rfl, rfl⟩
  · exact ⟨hm, hm.sound.numbered path object hfile, fun q o hq => .inl hq⟩
  · refine ⟨⟨hm.sound.created path _, hm.safe.created path, fun id x hx => ?_⟩, Nat.lt_succ_self _, fun q o hq => ?_⟩
    · exact Nat.lt_succ_of_lt (hm.opened id x hx)
    · rw [get_set] at hq
      split at hq
      · refine .inr fun p => ?_
        cases hb : promised o p with
        | none => rfl
        | some b =>
          have hlt := hm.safe.numbered o p b hb
          rw [← some.inj hq] at hlt
          exact absurd hlt (lt_irrefl _)
      · exact .inl hq

omit hm in
theorem opens_cuts {flags : OpenFlags} {o : Nat} (hflags : flags.writable && flags.trunc)
    (hidle : m.idle path) (hfile : m.disk.files.get (m.backing path) = some o) :
    (Request.opens path flags).cuts m = some (o, 0) := by
  unfold Request.cuts
  simp only [hflags, hidle, hfile, Bool.and_self, if_true, map_some]

theorem openNative_good (path : Path) (flags : OpenFlags) (hharmless : Harmless m promised (.opens path flags) fs) :
    Post (fun _ => Good ((Request.opens path flags).promises m promised)) (fun _ => Good promised) (Good promised)
      (openNative path flags fs m) := by
  have hpromises : (Request.opens path flags).promises m promised =
      promised.after none ((Request.opens path flags).cuts m) := rfl
  -- `d` is the disk with the file open
  have hrun : Counted 0 (· = m) (openNative path flags)
      (fun _ _ => Good ((Request.opens path flags).promises m promised)) (Good promised)
      (fun n t => Good promised t ∨ ∃ d object, (m.disk.openNativeBacking path flags.create flags.excl = .ok (object, d) ∧
        (flags.writable && flags.trunc) = true) ∧ CutShort promised { m with disk := d } path 0 1 n t) := by
    refine .step ((openBacking_counted path flags).post (fun _ _ _ h => h) (held hm)
      fun _ t h => .inl (h.2 ▸ hm)) fun object => .at' fun t ht => ?_
    obtain ⟨d, hopen, rfl⟩ := ht
    obtain ⟨hd, hobject, hold⟩ := hm.openedBacking hopen
    refine .bind' ((loadNativeAppendState_counted path).post (fun _ _ _ h => h) (held hd)
      fun _ t h => .inl (h ▸ hd)) fun j state => .at' fun t ht => ?_
    obtain ⟨hj, hloaded⟩ := ht
    refine .bind' (M := fun _ _ u => Good ((Request.opens path flags).promises m promised) u ∧
      u.disk.fresh = d.fresh) ?_ fun k _ => .at' fun u hu => .readAt ?_
    · unfold truncateOpened
      by_cases hflags : (flags.writable && flags.trunc) = true
      · rw [if_pos hflags]
        refine (loadedTruncate_counted hd hj hloaded (fun q p b hb => Promises.after_cuts hb)
          fun o p b hidle _ hfile hb => ?_).post (fun _ _ _ h => h) (fun _ h => h) fun n u h =>
            .inr ⟨d, object, ⟨hopen, hflags⟩, h⟩
        rcases hold _ o hfile with hfile | hnone
        · rw [opens_cuts (m := m) hflags hidle hfile] at hb
          exact (Promises.cut_eq_some hb).2 rfl
        · have hb := Promises.after_cuts hb
          rw [hnone p] at hb
          cases hb
      · rw [if_neg hflags]
        have hnone : (Request.opens path flags).cuts m = none :=
          if_neg fun h => hflags (Bool.and_eq_true_iff.mp h).1
        refine .pure' () fun u hu => ⟨?_, by rw [hu, hloaded.same.1]⟩
        rw [hpromises, hnone, hu]
        exact hd.same hloaded.same.1 hloaded.same.2
    · refine .step (.modify' _ fun v hv => ⟨rfl, ?_⟩) fun _ => .pure' _ fun _ h => h
      have hgood := hu.1.setHandle u.next
        (h := ⟨path, object, flags.writable, state, flags.writable && nativeTransactionPath path⟩) (by rw [hu.2]; exact hobject)
      rw [hv]
      exact ⟨hgood.sound, hgood.safe, hgood.opened⟩
  refine hrun.outcome (fun _ _ _ _ ht => ht) (fun _ _ ht => ht) fun n t hn ht => ?_
  refine Counted.alike ?_
  rcases ht with ht | ⟨d, object, ⟨hopen, hflags⟩, hcut⟩
  · exact ht
  obtain ⟨hd, -, hold⟩ := hm.openedBacking hopen
  rcases hcut with ht | ⟨hwindow, hhandles, ⟨-, hidle⟩, o, hfile, hdisk⟩
  · exact ht
  refine hd.truncated (fun _ _ _ hb => hb) (fun p b hb => ?_) hdisk hhandles
  rcases hold _ o hfile with hfile | hnone
  · exact hharmless.cuts n o 0 hn (by simp [Request.cutAt]; omega) (by simp [Request.cutAt]; omega)
      (opens_cuts hflags hidle hfile) p b hb
  · rw [hnone p] at hb
    cases hb

omit hm in
theorem relocated_disk (m : Native) (old new : Path) (d : Disk) : (m.relocated old new d).disk = d := by
  unfold Native.relocated
  cases m.nativeAppends.get old with
  | some k => rfl
  | none => rfl

omit hm in
theorem relocated_handles (m : Native) (old new : Path) (d : Disk) : (m.relocated old new d).handles =
    m.handles.map fun h => if h.path = old then { h with path := new } else h := by
  unfold Native.relocated
  cases m.nativeAppends.get old with
  | some k => rfl
  | none => rfl

theorem Good.relocated {old new : Path} {d : Disk} (hrename : m.disk.rename (m.backing old) new = .ok d)
    (hspares : d.Spares promised) : Good promised (m.relocated old new d) := by
  obtain ⟨hcontents, hfresh, -⟩ := rename_frame hrename
  refine ⟨?_, ?_, fun id x hx => ?_⟩
  · rw [relocated_disk]
    exact hm.sound.rename hrename
  · rw [relocated_disk]
    exact hm.safe.moved hcontents hfresh hspares
  · rw [relocated_handles, Files.get_map] at hx
    obtain ⟨h, hget, rfl⟩ := map_eq_some_iff.mp hx
    rw [relocated_disk, hfresh, apply_ite Handle.object]
    simpa using hm.opened id h hget

theorem renameNative_good {old new : Path}
    (hspares : ∀ d, m.disk.rename (m.backing old) new = .ok d → ¬Hits fs 0 → d.Spares promised) :
    Post (fun _ => Good promised) (fun _ => Good promised) (Good promised) (renameNative old new fs m) := by
  refine (renameNative_counted old new).outcome (fun j _ t hclear ht => ?_) (fun _ => held hm) fun n t _ ht =>
    ⟨fun _ => ht.2 ▸ hm, ht.2 ▸ hm⟩
  obtain ⟨rfl, d, hrename, rfl⟩ := ht
  refine hm.relocated hrename (hspares d hrename fun hhits => ?_)
  exact absurd (hhits.le hclear) (by omega)

theorem renameRequest_good (managedTarget : Bool) (old new : Path)
    (hharmless : Harmless m promised (.rename managedTarget old new) fs) :
    Post (fun _ => Good promised) (fun _ => Good promised) (Good promised) (renameRequest managedTarget old new fs m) := by
  have hkeep : ∀ {α : Type} (x : NativeProg α), Keeps (· = m) x →
      Post (fun _ => Good promised) (fun _ => Good promised) (Good promised) (x fs m) := fun x hx =>
    (hx.mono (fun _ => held hm) (held hm)) fs m rfl
  have hspares : renameAllowed old new = true → old ≠ new →
      (managedTarget && ((m.disk.files.get old).isNone || m.nativePathBusyLocked new)) = false →
      ∀ d, m.disk.rename (m.backing old) new = .ok d → ¬Hits fs 0 → d.Spares promised := by
    intro hallowed hne hfree d hrename
    refine hharmless.renames d ?_
    unfold Request.renames
    simp [hallowed, hne, hfree, hrename, Except.toOption]
  unfold renameRequest
  cases hallowed : renameAllowed old new with
  | false => exact hm
  | true =>
    show Post _ _ _ ((if old = new then getattr old else _ : NativeProg Unit) fs m)
    by_cases hsame : old = new
    · rw [if_pos hsame]
      exact hkeep _ (.bind' (.read' _) fun d => .ensure' _ _)
    rw [if_neg hsame]
    cases managedTarget with
    | false => exact renameNative_good hm (hspares hallowed hsame rfl)
    | true =>
      rw [if_pos rfl]
      cases hfree : (m.disk.files.get old).isNone || m.nativePathBusyLocked new with
      | true =>
        obtain ⟨e, hrefused⟩ := importNativeRename_refused fs hfree
        rw [hrefused]
        exact hm
      | false =>
        rw [importNativeRename_eq fs hfree]
        exact renameNative_good hm (hspares hallowed hsame (by rw [hfree, Bool.and_false]))

theorem unlinkNative_good (path : Path) : LeadsTo (· = m) (unlinkNative path) (Good promised) := by
  refine .bind' (M := fun _ => Good promised) (.onPart' fun t ht => ?_) fun _ => .modify' _ fun t ht => ?_
  · subst ht
    refine .readAt (.checked (fun _ d hd => ?_) fun d hremove => ?_)
    · rw [hd]
      exact hm
    · obtain ⟨hfiles, hcontents, hfresh, hjournals⟩ := remove_frame hremove
      refine .effect' _ _ (fun _ _ => ⟨hm.sound.fewer hfiles hjournals hfresh, hm.safe.moved hcontents hfresh ?_, ?_⟩)
        (fun u hu => by rw [hu]; exact hm) fun u hu => by rw [hu]; exact hm
      · intro other record o hrecord hfile
        rw [hjournals] at hrecord
        exact hm.safe.spared other record o hrecord (hfiles _ o hfile)
      · intro id x hx
        exact Nat.lt_of_lt_of_eq (hm.opened id x hx) hfresh.symm
  · exact ht.same rfl rfl

/-- The step lemma: whatever becomes of the request, the promised bytes are there. -/
theorem Good.request (r : Request) (hharmless : Harmless m promised r fs) :
    Post (fun _ => Good (r.promises m promised)) (fun _ => Good promised) (Good promised) (r.run jsonValid fs m) := by
  cases r with
  | opens path flags =>
    exact Spec.postEnsure (fun _ => Spec.postDiscard (openNative_good hm path flags hharmless)) fun _ => hm
  | write id data offset => exact Spec.postDiscard (write_good hm id data offset hharmless)
  | flush id => exact flush_good hm id fs m rfl
  | fsync id => exact fsync_good hm id fs m rfl
  | useRandomWrites id => exact useRandomWrites_good hm id fs m rfl
  | release id => exact release_good hm id fs m rfl
  | truncate id size => exact truncateHandle_good hm id size hharmless
  | truncatePath path size => exact Spec.postEnsure (fun _ => truncateNative_good hm path size hharmless) fun _ => hm
  | rename managedTarget old new => exact renameRequest_good hm managedTarget old new hharmless
  | unlink path =>
    have hunlink : LeadsTo (· = m) ((Request.unlink path).run jsonValid) (Good promised) := by
      have hself : ∀ t, t = m → Good promised t := held hm
      refine .readAt (.ensured hself fun _ => ?_)
      exact .ensured hself fun _ => unlinkNative_good hm path
    exact hunlink fs m rfl

end

end

/-! ## Runs -/

structure Life where
  native : Native
  promised : Promises
  up : Bool

inductive Event where
  | request (r : Request) (fs : List Fault)
  | restart (fs : List Fault)

def Native.started (d : Disk) : Native := ⟨d, .empty, fun _ => ⟨[], 0, 0, []⟩, .empty, 1, 0⟩

def Life.step (jsonValid : Bytes → Bool) (l : Life) : Event → Option Life
  | .request r fs =>
    if l.up then
      match r.run jsonValid fs l.native with
      | (.done _, m, _) => some ⟨m, r.promises l.native l.promised, true⟩
      | (.failed _, m, _) => some ⟨m, l.promised, true⟩
      | (.crashed, m, _) => some ⟨m, l.promised, false⟩
    else none
  | .restart fs =>
    if l.up then none
    else
      match recoverNativeAppendTransactions fs l.native.disk with
      | (.done _, d, _) => some ⟨Native.started d, l.promised, true⟩
      | (_, d, _) => some ⟨Native.started d, l.promised, false⟩

def Life.Careful (l : Life) : Event → Prop
  | .request r fs => Harmless l.native l.promised r fs
  | .restart _ => True

theorem Life.step_good {jsonValid : Bytes → Bool} {l l' : Life} {e : Event} (h : Good l.promised l.native)
    (hcareful : l.Careful e) (hstep : l.step jsonValid e = some l') : Good l'.promised l'.native := by
  cases e with
  | request r fs =>
    have hrequest : Post _ _ _ (r.run jsonValid fs l.native) := h.request r hcareful
    unfold Life.step at hstep
    dsimp only at hstep
    split at hstep
    · match hrun : r.run jsonValid fs l.native with
      | (.done _, _, _) | (.failed _, _, _) | (.crashed, _, _) =>
        rw [hrun] at hrequest hstep; cases hstep; exact hrequest
    · cases hstep
  | restart fs =>
    have hrecover := recover_unharmed.state fs ⟨h.sound, h.safe, rfl⟩
    have hstarted : ∀ d, Unharmed l.native.disk.files l.promised d → Good l.promised (Native.started d) := fun d hd =>
      ⟨hd.sound, hd.safe, nofun⟩
    unfold Life.step at hstep
    dsimp only at hstep
    split at hstep
    · cases hstep
    · match hrun : recoverNativeAppendTransactions fs l.native.disk with
      | (.done _, d, _) | (.failed _, d, _) | (.crashed, d, _) =>
        rw [hrun] at hrecover hstep; cases hstep; exact hstarted d hrecover

def Life.started (d : Disk) : Life := ⟨Native.started d, fun _ _ => none, true⟩

def OpenFlags.sample : OpenFlags := ⟨.readWrite, false, false, false, true⟩

def committedRun : List Event :=
  [.request (.opens Appending.sample.state.path OpenFlags.sample) [], .request (.write 1 [50, 10] 1) [],
    .request (.flush 1) [], .request (.write 1 [51, 10] 3) [],
    .request (.flush 1) (replicate 12 .ok ++ [.crash])]

theorem sample_sound : Disk.sample.Sound := by
  refine ⟨fun path o h => ?_, fun p q o hp hq => ?_, fun path record h => ?_⟩
  · rw [(Disk.sample_file h).2]
    exact zero_lt_one
  · rw [(Disk.sample_file hp).1, (Disk.sample_file hq).1]
  · cases h

section
variable {promised : Promises} {m : Native} {fs : List Fault}

theorem Harmless.of_quiet {r : Request} (hwrite : ∀ id data offset, r ≠ .write id data offset) (hcuts : r.cuts m = none)
    (hrenames : r.renames m = none) : Harmless m promised r fs := by
  refine ⟨fun id data offset h hr => absurd hr (hwrite id data offset), fun n o size _ _ _ hc => ?_, fun d hd => ?_⟩
  · rw [hcuts] at hc
    cases hc
  · rw [hrenames] at hd
    cases hd

theorem Harmless.of_staged {id : Nat} {data : Bytes} {offset : Int}
    (happend : (m.handles.get id).all (·.append)) : Harmless m promised (.write id data offset) fs := by
  refine ⟨fun id' data' offset' h hr hget hrandom => ?_, fun n o size _ _ _ hc => ?_, fun d hd => ?_⟩
  · cases hr
    rw [hget] at happend
    exact absurd (hrandom.symm.trans happend) (by decide)
  · cases hc
  · cases hd

end

theorem committedRun_staged : ∀ done ∈ [committedRun.take 1, committedRun.take 3],
    (runFrom (Life.step digits) (Life.started Disk.sample) done).all
      (fun l => (l.native.handles.get 1).all (·.append)) = true := by
  decide +kernel

theorem committedRun_careful : Along (Life.step digits) Life.Careful (Life.started Disk.sample) committedRun := by
  have hstaged : ∀ {done : List Event} {l : Life}, done ∈ [committedRun.take 1, committedRun.take 3] →
      runFrom (Life.step digits) (Life.started Disk.sample) done = some l →
      (l.native.handles.get 1).all (·.append) = true := by
    intro done l hdone hrun
    have h := committedRun_staged done hdone
    rw [hrun] at h
    exact h
  refine ⟨Harmless.of_quiet (by simp) rfl rfl, fun l₁ h₁ => ⟨Harmless.of_staged (hstaged (.head _) ?_), fun l₂ h₂ =>
    ⟨Harmless.of_quiet (by simp) rfl rfl, fun l₃ h₃ => ⟨Harmless.of_staged (hstaged (.tail _ mem_cons_self) ?_), fun l₄ h₄ =>
      ⟨Harmless.of_quiet (by simp) rfl rfl, fun _ _ => trivial⟩⟩⟩⟩⟩
  · simp [committedRun, runFrom, h₁]
  · simp [committedRun, runFrom, h₁, h₂, h₃]

def committed : Option Life := runFrom (Life.step digits) (Life.started Disk.sample) committedRun

def abandonedRun : List Event :=
  [.request (.opens Appending.sample.state.path OpenFlags.sample) [], .request (.write 1 [50, 10] 1) [],
    .request (.flush 1) (replicate 8 .ok ++ [.fail]), .request (.useRandomWrites 1) [],
    .request (.write 1 [51, 52] 1) []]

def abandoned : Option Life := runFrom (Life.step digits) (Life.started Disk.sample) abandonedRun

end CodexFold.Mount
