import CodexFold.Mount.Delivery
import CodexFold.Mount.Restarts

/- Recovered writes on a native file and on a managed session.

   Several handles of a native file can be open at a time and share what is pending; a
   managed session has one writer, so that another open fails until the old connection has
   released its handle. -/
namespace CodexFold.Mount
open Foundation List Option

section
variable {jsonValid : Bytes → Bool} {path : Path} {flags : OpenFlags}
variable {m : Native} {shown : Bytes} {ids : List Nat}

/-! ## A native file -/

structure StagedThrough (jsonValid : Bytes → Bool) (path : Path) (m : Native) (ids : List Nat) (k o : Nat)
    (file pending : Bytes) : Prop where
  growing : Growing m path k o file pending
  stages : ∀ id ∈ ids, m.Stages id path k o
  numbered : ∀ id ∈ ids, id < m.next
  nodup : ids.Nodup
  complete : pending = [] ∨ completeJSONL jsonValid pending = true

def NativeBackend (jsonValid : Bytes → Bool) (path : Path) (m : Native) (shown : Bytes) (ids : List Nat) : Prop :=
  (∃ k o file pending, StagedThrough jsonValid path m ids k o file pending ∧ shown = file ++ pending) ∨
    (ids = [] ∧ m.nativeAppends.get path = none ∧ ∃ o, m.disk.files.get path = some o ∧ m.disk.contents o = shown)

theorem NativeBackend.visible (h : NativeBackend jsonValid path m shown ids) : m.visible path = shown := by
  rcases h with ⟨k, o, file, pending, h, rfl⟩ | ⟨-, hunknown, o, hnamed, rfl⟩
  · exact h.growing.visible
  · unfold Native.visible
    rw [hnamed, hunknown]

variable {id : Nat}

section

variable (h : NativeBackend jsonValid path m shown (id :: ids))
include h

theorem NativeBackend.staged :
    ∃ k o file pending, StagedThrough jsonValid path m (id :: ids) k o file pending ∧ shown = file ++ pending := by
  rcases h with h | ⟨hnil, -⟩
  · exact h
  · cases hnil

omit h in
theorem nativeBackend_opens (hpath : nativeTransactionPath path) (hwritable : flags.writable)
    (htrunc : flags.trunc = false) (hexcl : (flags.create && flags.excl) = false)
    (h : NativeBackend jsonValid path m shown ids) : Concludes (openNative path flags) m
      (fun id t => NativeBackend jsonValid path t shown (id :: ids)) (fun _ t => NativeBackend jsonValid path t shown ids) := by
  rcases h with ⟨k, o, file, pending, h, rfl⟩ | ⟨rfl, hunknown, o, hnamed, rfl⟩
  · obtain ⟨t, hrun, ht, hhandles, hnext⟩ := openNative_growing hwritable hpath htrunc hexcl h.growing
    refine .of_runs hrun (.inl ⟨k, o, file, pending, ⟨ht, fun id hid => ?_, fun id hid => ?_, ?_, h.complete⟩, rfl⟩)
    · rcases mem_cons.mp hid with rfl | hid
      · exact ⟨stagingHandle path k o, hhandles ▸ get_set_self .., rfl, rfl, rfl, rfl⟩
      · obtain ⟨x, hget, hx⟩ := h.stages id hid
        refine ⟨x, ?_, hx⟩
        rw [hhandles, get_set_ne _ _ (ne_of_lt (h.numbered id hid))]
        exact hget
    · rw [hnext]
      rcases mem_cons.mp hid with rfl | hid
      · exact Nat.lt_succ_self _
      · exact Nat.lt_succ_of_lt (h.numbered id hid)
    · exact nodup_cons.mpr ⟨fun hmem => lt_irrefl _ (h.numbered _ hmem), h.nodup⟩
  · have hidle : m.Idle path := fun k hk => by
      rw [hunknown] at hk
      cases hk
    obtain ⟨k, t, hrun, ht, hhandles, hnext⟩ := openNative_named hwritable hpath htrunc hexcl hidle hnamed
    refine .of_runs hrun (.inl ⟨k, o, _, [], ⟨ht, fun id hid => ?_, fun id hid => ?_, nodup_singleton _,
      .inl rfl⟩, (append_nil _).symm⟩)
    · rw [mem_singleton.mp hid]
      exact ⟨stagingHandle path k o, hhandles ▸ get_set_self .., rfl, rfl, rfl, rfl⟩
    · rw [mem_singleton.mp hid, hnext]
      exact Nat.lt_succ_self _

theorem nativeBackend_release :
    Concludes (release jsonValid id) m
      (fun _ t => NativeBackend jsonValid path t shown ids) (fun _ t => NativeBackend jsonValid path t shown ids) := by
  obtain ⟨k, o, file, pending, hs, rfl⟩ := h.staged
  obtain ⟨t, hrun, ht, hhandles, hnext⟩ := release_growing hs.growing (hs.stages id (.head _)) hs.complete
  obtain ⟨hnew, hnodup⟩ := nodup_cons.mp hs.nodup
  refine .of_runs hrun (.inl ⟨k, o, file ++ pending, [], ⟨ht, fun id' hid' => ?_, fun id' hid' => ?_, hnodup,
    .inl rfl⟩, (append_nil _).symm⟩)
  · obtain ⟨x, hget, hx⟩ := hs.stages id' (.tail _ hid')
    refine ⟨x, ?_, hx⟩
    rw [hhandles, get_erase_ne]
    · exact hget
    · rintro rfl
      exact hnew hid'
  · rw [hnext]
    exact hs.numbered id' (.tail _ hid')

end

theorem nativeBackend_appends {data : Bytes} {h : ServerHandle}
    (hm : NativeBackend jsonValid path m shown (h.coreHandle :: ids)) (hsnapshot : h.snapshotWrite)
    (hcomplete : completeJSONL jsonValid data) (hroom : m.room h.coreHandle data) :
    Concludes (writeHandle (nativeCore jsonValid path flags) jsonValid data shown.length) ⟨m, h⟩
      (fun _ t => NativeBackend jsonValid path t.core (shown ++ data) (h.coreHandle :: ids) ∧ Retained true h t.handle)
      (fun _ t => NativeBackend jsonValid path t.core shown (h.coreHandle :: ids) ∧ Retained true h t.handle) := by
  obtain ⟨k, o, file, pending, hs, rfl⟩ := hm.staged
  have hid := hs.stages h.coreHandle (.head _)
  -- the handles are the same, whatever becomes of the write
  have hstaged : ∀ {t : Native} {pending' : Bytes}, Growing t path k o file pending' → t.handles = m.handles → t.next = m.next →
      (pending' = [] ∨ completeJSONL jsonValid pending' = true) →
      StagedThrough jsonValid path t (h.coreHandle :: ids) k o file pending' := by
    intro t pending' ht hhandles hnext hcomplete'
    exact ⟨ht, fun id hid => (hs.stages id hid).of_handles hhandles, fun id hid => hnext ▸ hs.numbered id hid, hs.nodup, hcomplete'⟩
  refine (writeHandle_end hsnapshot (getattrNative_runs hs.growing hid)
    hcomplete (write_growing hs.growing hid (complete_ne_nil hcomplete))).mono ?_ ?_
  · rintro _ t ⟨-, hcore, hkept, _, ht, hhandles, hnext, -⟩
    refine ⟨.inl ⟨k, o, file, pending ++ data, hstaged ht hhandles hnext (.inr ?_), append_assoc ..⟩, hcore,
      fun _ _ => hkept⟩
    rcases hs.complete with rfl | hpending
    · exact hcomplete
    · exact complete_append hpending hcomplete
  · rintro _ t ⟨hhandle, hhandles, hnext, -, ht | ⟨ht, hlimit⟩⟩
    · exact ⟨.inl ⟨k, o, file, pending, hstaged ht hhandles hnext hs.complete, rfl⟩, hhandle ▸ Retained.refl true h⟩
    · -- there was room, so that nothing was pending
      obtain rfl := (hs.growing.room hid hroom).resolve_right (Nat.not_le.mpr hlimit)
      exact ⟨.inl ⟨k, o, file, [], hstaged ht hhandles hnext (.inl rfl), rfl⟩, hhandle ▸ Retained.refl true h⟩

theorem nativeBackend_read (readable : Bool) (offset length : Nat)
    (h : NativeBackend jsonValid path m shown (id :: ids)) : Concludes (readNative readable id offset length) m
      (fun b t => t = m ∧ b = (shown.drop offset).take length) (fun _ t => t = m) := by
  obtain ⟨k, o, file, pending, hs, rfl⟩ := h.staged
  exact readNative_concludes hs.growing (hs.stages id (.head _)) readable offset length

theorem nativeCore_recoverable (hpath : nativeTransactionPath path) (hwritable : flags.writable)
    (htrunc : flags.trunc = false) (hexcl : (flags.create && flags.excl) = false) :
    Recoverable (nativeCore jsonValid path flags) jsonValid true Native.room (NativeBackend jsonValid path) where
  perm := by
    rintro m shown ids ids' (⟨k, o, file, pending, hs, rfl⟩ | ⟨rfl, hunknown⟩) hperm
    · refine .inl ⟨k, o, file, pending, ⟨hs.growing, fun id hid => ?_, fun id hid => ?_, hperm.nodup_iff.mp hs.nodup, hs.complete⟩, rfl⟩
      · exact hs.stages id (hperm.mem_iff.mpr hid)
      · exact hs.numbered id (hperm.mem_iff.mpr hid)
    · exact .inr ⟨hperm.nil_eq.symm, hunknown⟩
  exclusive := fun hmulti _ => nomatch hmulti
  opens := nativeBackend_opens hpath hwritable htrunc hexcl
  release := nativeBackend_release
  read := nativeBackend_read _ _ _
  appends := fun hm hsnapshot hcomplete hroom => nativeBackend_appends hm (hsnapshot rfl) hcomplete hroom
  present := by
    intro m shown ids h call hm hsnapshot hne hpresent
    obtain ⟨k, o, file, pending, hs, rfl⟩ := hm.staged
    exact writeHandle_present hsnapshot (getattrNative_runs hs.growing (hs.stages _ (.head _)))
      (nativeBackend_read _ _ _ hm) hne hpresent

/-! ## A managed session -/

structure ManagedBackend (f : Managed) (shown : Bytes) (ids : List Nat) : Prop where
  content : f.content = shown
  handles : ∀ id, (f.handles.get id).isSome = true ↔ id ∈ ids
  single : ids.length ≤ 1

section
variable {f : Managed} {shown data : Bytes} {id : Nat} {ids : List Nat}

section

variable (h : ManagedBackend f shown (id :: ids))
include h

theorem ManagedBackend.handle : ∃ x, f.handles.get id = some x :=
  isSome_iff_exists.mp ((h.handles id).mpr (.head _))

theorem ManagedBackend.isSome_set (x : ManagedHandle) (id' : Nat) :
    ((f.handles.set id x).get id').isSome ↔ id' ∈ id :: ids := by
  rw [← h.handles id', get_set]
  split
  · next heq =>
    obtain ⟨y, hy⟩ := h.handle
    rw [heq, hy]
    rfl
  · rfl

theorem ManagedBackend.grow (data : Bytes) {handles : Files Nat ManagedHandle}
    (hhandles : ∀ id', (handles.get id').isSome ↔ id' ∈ id :: ids) :
    ManagedBackend { f with content := f.content ++ data, handles := handles } (shown ++ data) (id :: ids) where
  content := congrArg (· ++ data) h.content
  handles := hhandles
  single := h.single

theorem writeManaged_appends : Concludes (writeManaged jsonValid id data shown.length) f
      (fun _ t => ManagedBackend t (shown ++ data) (id :: ids)) fun _ _ => False := by
  obtain ⟨x, hget⟩ := h.handle
  refine .after (managedHandle_runs hget) (.read' ?_)
  by_cases happend : x.append = true
  · rw [if_pos happend]
    exact .effect' (.pure' (h.grow data h.handles))
  · rw [if_neg happend, if_pos (by rw [h.content])]
    refine .after (.bind' (.effect' _ _ f) (.pure' data.length _)) ?_
    exact .modify' (.pure' (h.grow data (h.isSome_set _)))

theorem getattrManaged_runs : Runs (getattrManaged id) f shown.length f := by
  obtain ⟨x, hget⟩ := h.handle
  obtain rfl := h.content
  exact .bind' (managedHandle_runs hget) (.read' _ f)

omit h in
theorem managedBackend_read (readable : Bool) (offset length : Nat) (h : ManagedBackend f shown (id :: ids)) :
    Concludes (readManaged readable id offset length) f (fun b t => t = f ∧ b = (shown.drop offset).take length)
      (fun _ t => t = f) := by
  obtain ⟨x, hget⟩ := h.handle
  obtain rfl := h.content
  refine .after (managedHandle_runs hget) (.ensure' (fun _ => .point' ?_) fun _ => rfl)
  exact .of_runs (.read' _ f) ⟨rfl, rfl⟩

omit h in
theorem managedBackend_opens (htrunc : flags.trunc = false) (h : ManagedBackend f shown ids) :
    Concludes (openManaged flags) f (fun id t => ManagedBackend t shown (id :: ids)) (fun _ t => ManagedBackend t shown ids) := by
  refine .read' (.ensure' (fun hempty => ?_) fun _ => h)
  have hentries : f.handles.entries = [] := List.isEmpty_iff.mp hempty
  have hnone : ∀ id', f.handles.get id' = none := fun id' => by
    unfold Files.get
    rw [hentries]
    rfl
  have hnil : ids = [] := by
    cases ids with
    | nil => rfl
    | cons id rest =>
      obtain ⟨x, hx⟩ := h.handle
      rw [hnone] at hx
      cases hx
  subst hnil
  refine .effect' (.pure' ⟨?_, fun id' => ?_, le_refl 1⟩)
  · show (if flags.trunc = true then [] else f.content) = shown
    rw [htrunc]
    exact h.content
  · rw [get_set, mem_singleton]
    split
    · next heq => simp [heq]
    · next hne =>
      rw [hnone]
      simp [hne]

theorem managedBackend_release : Concludes (releaseManaged id) f
    (fun _ t => ManagedBackend t shown ids) (fun _ t => ManagedBackend t shown ids) := by
  obtain ⟨x, hget⟩ := h.handle
  have hnil : ids = [] := length_eq_zero_iff.mp (Nat.le_zero.mp (Nat.le_of_succ_le_succ h.single))
  subst hnil
  have hgone : ∀ id', (f.handles.erase id).get id' = none := by
    intro id'
    rw [get_erase]
    split
    · rfl
    · next hne =>
      refine not_isSome_iff_eq_none.mp fun hsome => hne ?_
      exact mem_singleton.mp ((h.handles id').mp hsome)
  refine .after (managedHandle_runs hget) (.modify' (.of_runs (.point' _ _) ?_))
  exact ⟨h.content, fun id' => by simp [hgone id'], Nat.zero_le _⟩

end

theorem managedBackend_appends {h : ServerHandle} (hm : ManagedBackend f shown (h.coreHandle :: ids))
    (hcomplete : completeJSONL jsonValid data) :
    Concludes (writeHandle (managedCore jsonValid flags) jsonValid data shown.length) ⟨f, h⟩
      (fun _ t => ManagedBackend t.core (shown ++ data) (h.coreHandle :: ids) ∧ Retained false h t.handle)
      (fun _ t => ManagedBackend t.core shown (h.coreHandle :: ids) ∧ Retained false h t.handle) := by
  have hwrite : Concludes (writeManaged jsonValid h.coreHandle data shown.length) f
      (fun _ t => ManagedBackend t (shown ++ data) (h.coreHandle :: ids)) fun _ _ => False := writeManaged_appends hm
  cases hsnapshot : h.snapshotWrite with
  | false =>
    refine .read' ?_
    rw [hsnapshot, if_pos (by simp)]
    refine .bind' (M := fun _ t => ManagedBackend t.core (shown ++ data) (h.coreHandle :: ids) ∧ t.handle = h)
      (F := fun _ _ => False) (.onPart' (hwrite.mono (fun _ _ ht => ⟨ht, rfl⟩) fun _ _ hfalse => hfalse)) (fun _ t ht => ?_)
      fun _ _ hfalse => hfalse.elim
    exact .pure' ⟨ht.1, ht.2 ▸ Retained.refl false h⟩
  | true =>
    refine (writeHandle_end hsnapshot (getattrManaged_runs hm) hcomplete hwrite).mono ?_ ?_
    · rintro _ t ⟨-, hhandle, -, _, ht⟩
      exact ⟨ht, hhandle, nofun⟩
    · rintro _ t ⟨-, hfalse⟩
      exact hfalse.elim

theorem managedCore_recoverable (htrunc : flags.trunc = false) :
    Recoverable (managedCore jsonValid flags) jsonValid false (fun _ _ _ => true) ManagedBackend where
  perm := by
    intro f shown ids ids' h hperm
    exact ⟨h.content, fun id => (h.handles id).trans hperm.mem_iff, hperm.length_eq ▸ h.single⟩
  exclusive := fun _ h => h.single
  opens := managedBackend_opens htrunc
  release := managedBackend_release
  read := managedBackend_read _ _ _
  appends := fun h _ hcomplete _ => managedBackend_appends h hcomplete
  present := by
    intro f shown ids h call hm hsnapshot hne hpresent
    exact writeHandle_present hsnapshot (getattrManaged_runs hm) (managedBackend_read _ _ _ hm) hne hpresent

end

end

/-! ## Exactly once -/

/-- In every run in which no old connection executes the request of a call that has thrown
    when the next call has begun, the file is what it was with the contents of each call
    at its offset: of a call that has returned once, of another one at most once. -/
theorem recovered_write_once (jsonValid : Bytes → Bool) :
    (∀ (path : Path) (flags : OpenFlags) (m : Native) (o : Nat) (events : List LinkEvent) (l : Link Native),
      nativeTransactionPath path = true → flags.writable = true → flags.trunc = false →
      (flags.create && flags.excl) = false → m.nativeAppends.get path = none → m.disk.files.get path = some o →
      Along (Link.step (nativeCore jsonValid path flags) jsonValid (Native.visible · path))
        (fun l e => l.tame jsonValid Native.room (Native.visible · path) e = true) (Link.started m) events →
      runFrom (Link.step (nativeCore jsonValid path flags) jsonValid (Native.visible · path)) (Link.started m) events = some l →
      Delivered (m.visible path) l.history (l.core.visible path)) ∧
    (∀ (flags : OpenFlags) (f : Managed) (events : List LinkEvent) (l : Link Managed),
      flags.trunc = false → flags.append = true → f.handles.entries = [] →
      Along (Link.step (managedCore jsonValid flags) jsonValid Managed.content)
        (fun l e => l.tame jsonValid (fun _ _ _ => true) Managed.content e = true) (Link.started f) events →
      runFrom (Link.step (managedCore jsonValid flags) jsonValid Managed.content) (Link.started f) events = some l →
      Delivered f.content l.history l.core.content) := by
  constructor
  · intro path flags m o events l hpath hwritable htrunc hexcl hunknown hnamed htame hrun
    have hbackend : NativeBackend jsonValid path m (m.disk.contents o) [] := .inr ⟨rfl, hunknown, o, hnamed, rfl⟩
    rw [hbackend.visible]
    exact Link.delivered_run (nativeCore_recoverable hpath hwritable htrunc hexcl) NativeBackend.visible hbackend htame hrun
  · intro flags f events l htrunc _ hentries htame hrun
    have hnone : ∀ id, f.handles.get id = none := fun id => by
      unfold Files.get
      rw [hentries]
      rfl
    have hbackend : ManagedBackend f f.content [] := ⟨rfl, fun id => by simp [hnone id], Nat.zero_le _⟩
    exact Link.delivered_run (managedCore_recoverable htrunc) ManagedBackend.content hbackend htame hrun

def Link.runNative (events : List LinkEvent) : Option (Link Native) :=
  runFrom (Link.step (nativeCore digits Appending.sample.state.path OpenFlags.sample) digits
    (Native.visible · Appending.sample.state.path)) (Link.started (Native.started Disk.sample)) events

def Link.runManaged (content : Bytes) (events : List LinkEvent) : Option (Link Managed) :=
  runFrom (Link.step (managedCore digits OpenFlags.sample) digits Managed.content) (Link.started (Managed.sample content)) events

def lateInTime : List LinkEvent :=
  [.call [50, 10], .opens, .write .late .recovered, .opens, .late 0, .verify true .recovered, .release 0,
    .call [51, 10], .write .replied .recovered]

def lateOnSession : List LinkEvent :=
  [.call [50, 10], .opens, .write .late .recovered, .late 0, .release 0, .opens, .verify true .recovered,
    .call [51, 10], .write .replied .recovered]

theorem recovered_write_once_late :
    (∃ l, Link.runNative lateInTime = some l ∧ l.history = [⟨[50, 10], 1, true⟩, ⟨[51, 10], 3, true⟩] ∧
      Delivered ((Native.started Disk.sample).visible Appending.sample.state.path) l.history
        (l.core.visible Appending.sample.state.path)) ∧
    (∃ l, Link.runManaged [49] lateOnSession = some l ∧ l.history = [⟨[50, 10], 1, true⟩, ⟨[51, 10], 3, true⟩] ∧
      Delivered [49] l.history l.core.content) := by
  constructor
  · have hpath : nativeTransactionPath Appending.sample.state.path := by decide +kernel
    have hnamed : (Native.started Disk.sample).disk.files.get Appending.sample.state.path = some 0 := by decide +kernel
    obtain ⟨l, hrun, hhistory⟩ : ∃ l, Link.runNative lateInTime = some l ∧
        l.history = [⟨[50, 10], 1, true⟩, ⟨[51, 10], 3, true⟩] :=
      ⟨(Link.runNative lateInTime).get (by decide +kernel), (some_get _).symm, by decide +kernel⟩
    exact ⟨l, hrun, hhistory, (recovered_write_once digits).1 Appending.sample.state.path OpenFlags.sample
      (Native.started Disk.sample) 0 lateInTime l hpath rfl rfl rfl rfl hnamed (by decide +kernel) hrun⟩
  · exact ⟨(Link.runManaged [49] lateOnSession).get (by decide +kernel), (some_get _).symm, by decide +kernel,
      (recovered_write_once digits).2 OpenFlags.sample (Managed.sample [49]) lateOnSession _ rfl rfl rfl (by decide +kernel)
        (some_get _).symm⟩

def lateAfterwards : List LinkEvent :=
  [.call [50, 10], .opens, .write .late .expired, .call [51, 10], .opens, .write .replied .recovered, .late 0]

/-- What the call wrote that has returned is overwritten. -/
theorem recovered_write_overwritten : ∃ l, Link.runNative lateAfterwards = some l ∧
    l.history = [⟨[50, 10], 1, false⟩, ⟨[51, 10], 1, true⟩] ∧ l.core.visible Appending.sample.state.path = [49, 50, 10] ∧
    ¬Delivered ((Native.started Disk.sample).visible Appending.sample.state.path) l.history
      (l.core.visible Appending.sample.state.path) :=
  ⟨(Link.runNative lateAfterwards).get (by decide +kernel), (some_get _).symm, by decide +kernel⟩

end CodexFold.Mount
