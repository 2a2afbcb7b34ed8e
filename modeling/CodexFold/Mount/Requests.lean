import CodexFold.Mount.Effects

/- What a request on native files can do, whatever becomes of it.

   `Served` lists the ends of every request under any schedule: what it has done to the
   disk, the append states and the handles when it returns, fails or is cut off. What is
   to be known of all requests is then shown by cases, and no request is walked through
   again. -/
namespace CodexFold.Mount
open Foundation

inductive Truncated (k : Nat) (size : Int) (u t : Native) : Prop where
  | before (ht : t = u)
  | cut (o : Nat) (s : NativeAppendState) (hsize : 0 ≤ size) (hidle : (u.states k).segments = [])
      (hfile : u.disk.files.get (u.states k).path = some o) (hpath : s.path = (u.states k).path)
      (hsegments : s.segments = [])
      (ht : t = u.putState k ⟨s, u.disk.setContents o (resize 0 (u.disk.contents o) size.toNat)⟩)

/-- The handles after a commit through one of them: as they were, with one that writes at
    random from now on, or without it. While the mount is up, nothing is pending behind a
    handle that stops staging, nor behind the last one that staged. -/
inductive Handled (up : Bool) (m : Native) (id : Nat) (h : Handle) (pending : List Segment) :
    Request → Files Nat Handle → Prop where
  | flush : Handled up m id h pending (.flush id) m.handles
  | fsync : Handled up m id h pending (.fsync id) m.handles
  | staging : Handled up m id h pending (.useRandomWrites id) m.handles
  | random (hidle : up = true → h.append = true → pending = []) :
      Handled up m id h pending (.useRandomWrites id) (m.handles.set id { h with append := false })
  | released (hidle : up = true → h.append = true → m.sharedWriter id h.state = false → pending = []) :
      Handled up m id h pending (.release id) (m.handles.erase id)

inductive Served (jsonValid : Bytes → Bool) (up : Bool) (m : Native) : Request → Native → Prop where
  | refused (r : Request) : Served jsonValid up m r m
  | staged {id : Nat} {data : Bytes} {offset : Int} {h : Handle} {a : Appending} (hget : m.handles.get id = some h)
      (happend : h.append = true) (ha : Untouched (m.getState h.state) a) :
      Served jsonValid up m (.write id data offset) (m.putState h.state a)
  | wrote {id : Nat} {data : Bytes} {offset : Int} {h : Handle} (k : Nat) (s : NativeAppendState)
      (hget : m.handles.get id = some h) (happend : h.append = false) (hoffset : 0 ≤ offset)
      (hidle : (m.states h.state).segments = []) (hpath : s.path = (m.states h.state).path) (hsegments : s.segments = []) :
      Served jsonValid up m (.write id data offset) (m.putState h.state
        ⟨s, m.disk.setContents h.object (overlay 0 (m.disk.contents h.object) offset.toNat (data.take k))⟩)
  | committed {r : Request} {id : Nat} {h : Handle} {a : Appending} {handles : Files Nat Handle}
      (hget : m.handles.get id = some h) (ha : (h.append = false ∧ a = m.getState h.state) ∨
        (h.append = true ∧ CommitStopped jsonValid (m.getState h.state) a))
      (hhandled : Handled up m id h a.state.segments r handles) :
      Served jsonValid up m r { m.putState h.state a with handles := handles }
  | truncated {id : Nat} {size : Int} {h : Handle} {t : Native} (hget : m.handles.get id = some h)
      (ht : Truncated h.state size m t) : Served jsonValid up m (.truncate id size) t
  | truncatedPath {path : Path} {size : Int} {k : Nat} {u t : Native} (hname : nativeName path = true)
      (hloaded : Loaded m path k u) (ht : Truncated k size u t) : Served jsonValid up m (.truncatePath path size) t
  | created {path : Path} {flags : OpenFlags} {object : Nat} {d : Disk} (hname : nativeName path = true)
      (hopen : m.disk.openNativeBacking path flags.create flags.excl = .ok (object, d)) :
      Served jsonValid up m (.opens path flags) { m with disk := d }
  | loaded {path : Path} {flags : OpenFlags} {object k : Nat} {d : Disk} {u t : Native} (hname : nativeName path = true)
      (hopen : m.disk.openNativeBacking path flags.create flags.excl = .ok (object, d))
      (hloaded : Loaded { m with disk := d } path k u) (ht : Truncated k 0 u t)
      (hkeep : (flags.writable && flags.trunc) = false → t = u) : Served jsonValid up m (.opens path flags) t
  | opened {path : Path} {flags : OpenFlags} {object k : Nat} {d : Disk} {u t : Native} (hname : nativeName path = true)
      (hopen : m.disk.openNativeBacking path flags.create flags.excl = .ok (object, d))
      (hloaded : Loaded { m with disk := d } path k u) (ht : Truncated k 0 u t)
      (hkeep : (flags.writable && flags.trunc) = false → t = u) : Served jsonValid up m (.opens path flags) { t with
        handles := t.handles.set t.next ⟨path, object, flags.writable, k, flags.writable && nativeTransactionPath path⟩
        next := t.next + 1 }
  | renamed {managedTarget : Bool} {old new : Path} {d : Disk} (hallowed : renameAllowed old new = true) (hne : old ≠ new)
      (himport : (managedTarget && ((m.disk.files.get old).isNone || m.nativePathBusyLocked new)) = false)
      (hrename : m.disk.rename (m.backing old) new = .ok d) :
      Served jsonValid up m (.rename managedTarget old new) (m.relocated old new d)
  | removed {path : Path} {d : Disk} (hbusy : m.nativePathBusyLocked path = false) (hname : nativeName path = true)
      (hremove : m.disk.remove path = .ok d) :
      Served jsonValid up m (.unlink path) { m with disk := d, nativeAppends := m.nativeAppends.erase path }

/-! ## A commit that is strict -/

section
variable {jsonValid : Bytes → Bool}

theorem commit_strict : Spec (fun _ => True) (commit jsonValid true) (fun _ t => t.state.segments = [])
    (fun _ t => t.state.segments = []) (fun _ => True) := by
  have hdrop : ∀ e : String, Spec (fun _ => True) (do clearPending; throw e : AppendProg Unit)
      (fun _ t => t.state.segments = []) (fun _ t => t.state.segments = []) (fun _ => True) := fun e =>
    .bind' (.modify' _ fun _ _ => (rfl : NativeAppendState.segments _ = [])) fun _ => .throw' e fun _ h => h
  refine .at' fun a _ => .readAt (.ite' (fun hidle => ?_) fun _ => ?_)
  · -- nothing is pending and the disk alone is looked at
    have hsegments : a.state.segments = [] := List.isEmpty_iff.mp hidle
    refine .onPart' fun t ht => ?_
    subst ht
    refine (Keeps.of_forall fun _ => trivial : Keeps _ (syncNativePath t.state.path)).post ?_ ?_ ?_ |>.pre
      fun _ _ => trivial
    · exact fun _ _ _ => hsegments
    · exact fun _ _ _ => hsegments
    · exact fun _ _ => trivial
  · cases a.state.assembleLocked with
    | error e => exact (hdrop e).pre fun _ _ => trivial
    | ok tail =>
      refine .pre ?_ fun _ _ => trivial
      refine .ite' (fun _ => hdrop _) fun _ => .ite' (fun _ => hdrop _) fun _ => ?_
      refine .bind' (M := fun _ _ => True) ?_ fun _ => .bind' (M := fun _ _ => True)
        (.modify' _ fun _ _ => trivial) fun _ => .modify' _ fun _ _ => rfl
      refine .onFailure' (F := fun _ _ => True) (.onPart' fun t _ => ?_) fun _ => .modify' _ fun _ _ => rfl
      exact (Keeps.of_forall fun _ => trivial : Keeps _ (commitNativeAppend _ _ _)).post
        (fun _ _ _ => trivial) (fun _ _ _ => trivial) (fun _ _ => trivial) |>.pre fun _ _ => trivial

/-! ## The requests -/

variable {m : Native}

theorem putState_getState (m : Native) (k : Nat) : m.putState k (m.getState k) = m := by
  unfold Native.putState Native.getState
  rw [Function.update_eq_self]

variable {r : Request}

theorem Served.of_eq {up : Bool} {t : Native} (ht : t = m) : Served jsonValid up m r t := by
  rw [ht]
  exact .refused r

abbrev Answers (jsonValid : Bytes → Bool) (m : Native) (r : Request) {α : Type} (x : NativeProg α) : Prop :=
  Spec (· = m) x (fun _ => Served jsonValid true m r) (fun _ => Served jsonValid true m r) (Served jsonValid false m r)

theorem handle_served {α : Type} {k : Handle → NativeProg α} (id : Nat)
    (hk : ∀ h, m.handles.get id = some h → Answers jsonValid m r (k h)) : Answers jsonValid m r (handle id >>= k) := by
  refine .bind' ((handle_spec id).post (fun _ _ h => h) (fun _ _ => .of_eq) fun _ => .of_eq) fun h => ?_
  exact .given (hk h)

variable (id : Nat)

theorem write_served (data : Bytes) (offset : Int) :
    Answers jsonValid m (.write id data offset) (write id data offset) := by
  refine handle_served id fun h hget => .ite' (fun happend => ?_) fun happend => ?_
  · refine .onPart' fun t ht => ?_
    subst ht
    exact (stage_untouched data offset).post (fun _ a ha => .staged hget happend ha) (fun _ a ha => .staged hget happend ha)
      fun a ha => .staged hget happend ha
  · have happend : h.append = false := by simpa using happend
    refine .onPart' fun t ht => ?_
    subst ht
    have hput : ∀ (up : Bool) (k : Nat) (a : Appending), 0 ≤ offset → (t.states h.state).segments = [] →
        a.state.path = (t.states h.state).path → a.state.segments = (t.states h.state).segments → a.disk = t.disk.setContents h.object
          (overlay 0 (t.disk.contents h.object) offset.toNat (data.take k)) →
        Served jsonValid up t (.write id data offset) (t.putState h.state a) := by
      rintro up k ⟨s, d⟩ hoffset hidle hpath hsegments rfl
      exact .wrote k s hget happend hoffset hidle hpath (hsegments.trans hidle)
    refine (writeAt_counted h.object h.writable data offset).spec (fun j _ a ha => ?_) (fun _ a ha => ?_) fun n a ha => ?_
    · obtain ⟨-, ⟨hoffset, hidle, -⟩, hdisk, hstate⟩ := ha
      rw [← List.take_length (l := data)] at hdisk
      refine hput true _ a hoffset hidle ?_ ?_ hdisk
      · rw [hstate]
        rfl
      · rw [hstate]
        rfl
    · rw [ha, putState_getState]
      exact .refused _
    · obtain ⟨⟨-, hoffset, hidle, -⟩, hstate, hdisk⟩ := ha
      have hpath := congrArg NativeAppendState.path hstate
      have hsegments := congrArg NativeAppendState.segments hstate
      exact ⟨fun _ => hput true _ a hoffset hidle hpath hsegments hdisk, hput false _ a hoffset hidle hpath hsegments hdisk⟩

def StagedEnd (jsonValid : Bytes → Bool) (m : Native) (h : Handle) (strict : Bool) (t : Native) : Prop :=
  ∃ a, ((h.append = false ∧ a = m.getState h.state) ∨ (h.append = true ∧ CommitStopped jsonValid (m.getState h.state) a)) ∧
    (strict = true → h.append = true → a.state.segments = []) ∧ t = m.putState h.state a

theorem commitStaged_ends (h : Handle) (strict : Bool) : Spec (· = m) (commitStaged jsonValid h strict)
    (fun _ => StagedEnd jsonValid m h strict) (fun _ => StagedEnd jsonValid m h strict) (StagedEnd jsonValid m h false) := by
  refine .ite' (fun happend => ?_) fun happend => .pure' () fun t ht => ?_
  · refine .onPart' fun t ht => ?_
    subst ht
    cases strict with
    | false =>
      exact commit_spec.post (fun _ a ha => ⟨a, .inr ⟨happend, ha.stopped⟩, nofun, rfl⟩)
        (fun _ a ha => ⟨a, .inr ⟨happend, ha⟩, nofun, rfl⟩) fun a ha => ⟨a, .inr ⟨happend, ha⟩, nofun, rfl⟩
    | true =>
      exact ((commit_spec.both commit_strict).post
        (fun _ a ha => ⟨a, .inr ⟨happend, ha.1.stopped⟩, fun _ _ => ha.2, rfl⟩)
        (fun _ a ha => ⟨a, .inr ⟨happend, ha.1⟩, fun _ _ => ha.2, rfl⟩)
        fun a ha => ⟨a, .inr ⟨happend, ha.1⟩, nofun, rfl⟩).pre fun _ h => ⟨h, trivial⟩
  · have happend : h.append = false := by simpa using happend
    refine ⟨m.getState h.state, .inl ⟨happend, rfl⟩, fun _ h => absurd (happend.symm.trans h) (by decide), ?_⟩
    rw [putState_getState, ht]

theorem StagedEnd.served {up : Bool} {id : Nat} {h : Handle} {strict : Bool} {t : Native}
    (hget : m.handles.get id = some h) (hend : StagedEnd jsonValid m h strict t)
    (hhandled : ∀ pending, Handled up m id h pending r m.handles) : Served jsonValid up m r t := by
  obtain ⟨a, ha, -, rfl⟩ := hend
  exact .committed hget ha (hhandled _)

theorem flush_served : Answers jsonValid m (.flush id) (flush jsonValid id) := by
  refine handle_served id fun h hget => .readAt ?_
  exact (commitStaged_ends h _).post (fun _ _ hend => hend.served hget fun _ => .flush)
    (fun _ _ hend => hend.served hget fun _ => .flush) fun _ hend => hend.served hget fun _ => .flush

theorem fsync_served : Answers jsonValid m (.fsync id) (fsync jsonValid id) := by
  refine handle_served id fun h hget => .ite' (fun happend => ?_) fun _ => ?_
  · have hcommit : Spec (· = m) (commitStaged jsonValid h false) _ _ _ := commitStaged_ends h false
    unfold commitStaged at hcommit
    rw [if_pos happend] at hcommit
    exact hcommit.post (fun _ _ hend => hend.served hget fun _ => .fsync)
      (fun _ _ hend => hend.served hget fun _ => .fsync) fun _ hend => hend.served hget fun _ => .fsync
  · exact .point' _ (fun _ => .of_eq) (fun _ => .of_eq) fun _ => .of_eq

theorem useRandomWrites_served : Answers jsonValid m (.useRandomWrites id) (useRandomWrites jsonValid id) := by
  refine handle_served id fun h hget => ?_
  refine .bind' ((commitStaged_ends h true).post (fun _ _ hend => hend)
    (fun _ _ hend => hend.served hget fun _ => .staging) fun _ hend => hend.served hget fun _ => .staging) fun _ =>
      .modify' _ fun t ht => ?_
  obtain ⟨a, ha, hidle, rfl⟩ := ht
  exact .committed hget ha (.random fun _ => hidle rfl)

theorem release_served : Answers jsonValid m (.release id) (release jsonValid id) := by
  refine handle_served id fun h hget => .readAt (.modifyAt ?_)
  have hserved : ∀ (up strict : Bool) (t : Native), (up = true → strict = m.nativeAppendIsLastWriter id h.state) →
      StagedEnd jsonValid { m with handles := m.handles.erase id } h strict t → Served jsonValid up m (.release id) t := by
    rintro up strict _ hstrict ⟨a, ha, hidle, rfl⟩
    refine .committed hget ha (.released fun hup happend hshared => hidle ?_ happend)
    rw [hstrict hup, Native.nativeAppendIsLastWriter, hshared]
    rfl
  -- the mount is still up after the commit, and the close that follows may be cut off
  refine .bind' (M := fun _ t => Served jsonValid true m (.release id) t ∧ Served jsonValid false m (.release id) t)
    (.attempt' ((commitStaged_ends h _).post
      (fun _ t ht => ⟨hserved true _ t (fun _ => rfl) ht, hserved false _ t nofun ht⟩)
      (fun _ t ht => ⟨hserved true _ t (fun _ => rfl) ht, hserved false _ t nofun ht⟩)
      fun t ht => hserved false _ t nofun ht)) fun r => ?_
  refine .bind' (M := fun _ => Served jsonValid true m (.release id))
    (.point' _ (fun _ h => h.1) (fun _ h => h.1) fun _ h => h.2) fun _ => ?_
  exact .ofExcept' r (fun _ _ _ h => h) fun _ _ _ h => h

theorem truncateState_spec (k : Nat) (size : Int) : LeadsTo (· = m) (onState k (truncate size)) (Truncated k size m) := by
  refine .onPart' fun t ht => ?_
  subst ht
  have hcut : ∀ a : Appending, a.state.path = (t.states k).path → a.state.segments = (t.states k).segments → 0 ≤ size →
      (t.states k).segments = [] → ∀ o, t.disk.files.get (t.states k).path = some o →
      a.disk = t.disk.setContents o (resize 0 (t.disk.contents o) size.toNat) → Truncated k size t (t.putState k a) := by
    rintro ⟨s, d⟩ hpath hsegments hsize hidle o hfile rfl
    exact .cut o s hsize hidle hfile hpath (hsegments.trans hidle) rfl
  refine (truncate_counted size).spec (fun _ _ a ha => ?_) (fun _ a ha => ?_) fun n a ha => ?_
  · obtain ⟨-, hsize, hidle, o, hfile, rfl⟩ := ha
    exact hcut _ rfl rfl hsize hidle o hfile rfl
  · rw [ha, putState_getState]
    exact .before rfl
  · refine Counted.alike ?_
    obtain ⟨hstate, hdisk | ⟨-, hsize, hidle, o, hfile, hdisk⟩⟩ := ha
    · obtain ⟨s, d⟩ := a
      cases hstate
      cases hdisk
      exact .before (putState_getState t k)
    · refine hcut a ?_ ?_ hsize hidle o hfile hdisk
      · rw [hstate]
        rfl
      · rw [hstate]
        rfl

theorem loadNativeAppendState_spec (path : Path) : SpecOr (· = m) (loadNativeAppendState path) (fun k => Loaded m path k)
      (· = m) :=
  (loadNativeAppendState_counted path).spec (fun _ _ _ h => h.2) (fun _ _ h => h) fun _ _ => Counted.alike

theorem truncateHandle_served (size : Int) : Answers jsonValid m (.truncate id size) (truncateHandle id size) := by
  refine handle_served id fun h hget => ?_
  exact (truncateState_spec h.state size).post (fun _ t ht => .truncated hget ht) (fun _ t ht => .truncated hget ht)
    fun t ht => .truncated hget ht

variable {path : Path}

theorem truncateNative_served (hname : nativeName path) (size : Int) :
    Answers jsonValid m (.truncatePath path size) (truncateNative path size) := by
  refine .bind' ((loadNativeAppendState_spec path).post (fun _ _ h => h) (fun _ _ => .of_eq) fun _ => .of_eq) fun k =>
    .at' fun u hu => ?_
  exact (truncateState_spec k size).post (fun _ t ht => .truncatedPath hname hu ht)
    (fun _ t ht => .truncatedPath hname hu ht) fun t ht => .truncatedPath hname hu ht

theorem truncateOpened_spec (k : Nat) (flags : OpenFlags) : LeadsTo (· = m) (truncateOpened k flags)
      (fun t => Truncated k 0 m t ∧ ((flags.writable && flags.trunc) = false → t = m)) := by
  refine .ite' (fun hflags => ?_) fun _ => .pure' () fun t ht => ⟨.before ht, fun _ => ht⟩
  have hcut : ∀ t, Truncated k 0 m t → Truncated k 0 m t ∧ ((flags.writable && flags.trunc) = false → t = m) :=
    fun t ht => ⟨ht, fun hnot => absurd (hflags.symm.trans hnot) (by decide)⟩
  exact (truncateState_spec k 0).mono (fun _ => hcut) hcut

theorem openNative_served (hname : nativeName path) (flags : OpenFlags) :
    Answers jsonValid m (.opens path flags) (openNative path flags) := by
  have hbacking : SpecOr (· = m) (openBacking path flags) (fun object t => ∃ d, m.disk.openNativeBacking path flags.create flags.excl = .ok (object, d) ∧ t = { m with disk := d })
      (· = m) :=
    (openBacking_counted path flags).spec (fun _ _ _ h => h.2) (fun _ _ h => h) fun _ _ h => ⟨fun _ => h.2, h.2⟩
  refine .bind' (hbacking.post (fun _ _ h => h) (fun _ _ => .of_eq) fun _ => .of_eq) fun object =>
    .at' fun opened hopened => ?_
  obtain ⟨d, hopen, rfl⟩ := hopened
  have hcreated : ∀ (up : Bool) (t : Native), t = { m with disk := d } → Served jsonValid up m (.opens path flags) t := by
    rintro up _ rfl
    exact .created hname hopen
  refine .bind' ((loadNativeAppendState_spec path).post (fun _ _ h => h) (fun _ => hcreated true) (hcreated false))
    fun k => .at' fun u hu => ?_
  refine .bind' ((truncateOpened_spec k flags).post (fun _ _ h => h) (fun _ t ht => .loaded hname hopen hu ht.1 ht.2)
    fun t ht => .loaded hname hopen hu ht.1 ht.2) fun _ => .at' fun t ht => .readAt ?_
  refine .bind' (.modify' _ fun v hv => ?_) fun _ =>
    .pure' _ fun _ h => h
  rw [hv]
  exact .opened hname hopen hu ht.1 ht.2

theorem renameRequest_served (managedTarget : Bool) (old new : Path) :
    Answers jsonValid m (.rename managedTarget old new) (renameRequest managedTarget old new) := by
  refine .ensured (fun _ => .of_eq) fun hallowed => ?_
  refine .ite' (fun _ => ?_) fun hne => ?_
  · refine .readAt (.ensure' _ _ (fun _ _ => .of_eq) fun _ => .of_eq)
  have hrename : (managedTarget && ((m.disk.files.get old).isNone || m.nativePathBusyLocked new)) = false →
      Answers jsonValid m (.rename managedTarget old new) (renameNative old new) := by
    intro himport
    refine (renameNative_counted old new).spec (fun _ _ t ht => ?_) (fun _ _ => .of_eq) fun _ t ht => ?_
    · obtain ⟨-, d, hrename, rfl⟩ := ht
      exact .renamed hallowed hne himport hrename
    · exact ⟨fun _ => .of_eq ht.2, .of_eq ht.2⟩
  cases managedTarget with
  | false => exact hrename rfl
  | true =>
    intro fs t ht
    rw [ht, if_pos rfl]
    cases hfree : (m.disk.files.get old).isNone || m.nativePathBusyLocked new with
    | true =>
      obtain ⟨e, hrefused⟩ := importNativeRename_refused fs hfree
      rw [hrefused]
      exact .refused _
    | false =>
      rw [importNativeRename_eq fs hfree]
      exact hrename (by rw [hfree, Bool.and_false]) fs m rfl

theorem unlinkNative_served (hbusy : m.nativePathBusyLocked path = false) (hname : nativeName path) :
    Answers jsonValid m (.unlink path) (unlinkNative path) := by
  refine .bind' (M := fun _ t => ∃ d, m.disk.remove path = .ok d ∧ t = { m with disk := d }) (.onPart' fun t ht => ?_)
    fun _ => .modify' _ fun t ht => ?_
  · subst ht
    refine (change_counted _).spec (fun _ _ d hd => ⟨d, hd.2, rfl⟩) (fun _ d hd => ?_) fun _ d hd => ⟨fun _ => ?_, ?_⟩
    · exact .of_eq (by rw [hd])
    · exact .of_eq (by rw [hd.2])
    · exact .of_eq (by rw [hd.2])
  · obtain ⟨d, hremove, rfl⟩ := ht
    exact .removed hbusy hname hremove

theorem Request.served (r : Request) : Answers jsonValid m r (r.run jsonValid) := by
  -- a check of the name comes first
  have hchecked : ∀ {c : Bool} {e : String} {x : NativeProg Unit}, (c = true → Answers jsonValid m r x) →
      Answers jsonValid m r (do ensure c e; x) := fun h => .ensured (fun _ => .of_eq) h
  cases r with
  | opens path flags =>
    exact hchecked fun hname => .bind' (openNative_served hname flags) fun _ => .pure' () fun _ h => h
  | write id data offset => exact .bind' (write_served id data offset) fun _ => .pure' () fun _ h => h
  | flush id => exact flush_served id
  | fsync id => exact fsync_served id
  | useRandomWrites id => exact useRandomWrites_served id
  | release id => exact release_served id
  | truncate id size => exact truncateHandle_served id size
  | truncatePath path size => exact hchecked fun hname => truncateNative_served hname size
  | rename managedTarget old new => exact renameRequest_served managedTarget old new
  | unlink path =>
    refine .readAt (hchecked fun hbusy => hchecked fun hname => unlinkNative_served ?_ hname)
    rwa [Bool.not_eq_true'] at hbusy

theorem Request.ends (r : Request) (m : Native) (fs : List Fault) :
    ∃ up, Served jsonValid up m r (r.run jsonValid fs m).2.1 := by
  have hends : LeadsTo (· = m) (r.run jsonValid) (fun t => ∃ up, Served jsonValid up m r t) :=
    r.served.post (fun _ _ ht => ⟨true, ht⟩) (fun _ _ ht => ⟨true, ht⟩) fun _ ht => ⟨false, ht⟩
  exact hends.state fs rfl

end

end CodexFold.Mount
