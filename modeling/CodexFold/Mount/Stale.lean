import CodexFold.Mount.Growth
import CodexFold.Mount.Promises
import CodexFold.Mount.Windows

/- Stale windows on a native file and on a managed session.

   Both can be appended to in the sense of the server: a native file as long as there is
   room for what is pending, a managed session always. -/
namespace CodexFold.Mount
open Foundation

variable {jsonValid : Bytes → Bool}

/-! ## A native file -/

def NativeShows (id : Nat) (path : Path) (m : Native) (shown : Bytes) : Prop :=
  ∃ k o file pending, Growing m path k o file pending ∧ m.Stages id path k o ∧ shown = file ++ pending

theorem nativeCore_appendable (path : Path) (flags : OpenFlags) (id : Nat) :
    Appendable (nativeCore jsonValid path flags) id (NativeShows id path) (fun m data => m.room id data) where
  getattr := by
    rintro m _ ⟨k, o, file, pending, hm, hid, rfl⟩
    exact getattrNative_runs hm hid
  read := by
    rintro m _ offset length ⟨k, o, file, pending, hm, hid, rfl⟩ _
    exact readNative_concludes hm hid _ offset length
  write := by
    rintro m _ data ⟨k, o, file, pending, hm, hid, rfl⟩ hdata hroom
    refine (write_growing hm hid hdata).mono (fun _ t ht => ?_) fun _ t ht => ?_
    · exact ⟨k, o, file, pending ++ data, ht.1, hid.of_handles ht.2.1, List.append_assoc ..⟩
    · obtain ⟨hhandles, -, -, ht | ⟨ht, hlimit⟩⟩ := ht
      · exact ⟨k, o, file, pending, ht, hid.of_handles hhandles, rfl⟩
      · -- there was room, so that nothing was pending
        obtain rfl := (hm.room hid hroom).resolve_right (Nat.not_le.mpr hlimit)
        exact ⟨k, o, file, [], ht, hid.of_handles hhandles, rfl⟩

variable {id : Nat}

theorem NativeShows.visible {path : Path} {m : Native} {shown : Bytes} (h : NativeShows id path m shown) :
    m.visible path = shown := by
  obtain ⟨k, o, file, pending, hm, -, rfl⟩ := h
  exact hm.visible

theorem openNative_shows {path : Path} {flags : OpenFlags} {m m' : Native} (hpath : nativeTransactionPath path)
    (hwritable : flags.writable) (hidle : m.Idle path) (hopen : Runs (openNative path flags) m id m') :
    NativeShows id path m' (m'.visible path) := by
  obtain ⟨rfl, k, o, file, hm, hhandles, -⟩ := (openNative_idle hwritable hpath hidle).returned hopen
  refine ⟨k, o, file, [], hm, ⟨stagingHandle path k o, ?_, rfl, rfl, rfl, rfl⟩, hm.visible⟩
  rw [hhandles]
  exact get_set_self ..

/-! ## A managed session -/

structure ManagedShows (id : Nat) (f : Managed) (shown : Bytes) : Prop where
  content : f.content = shown
  append : ∃ h, f.handles.get id = some h ∧ h.append = true

theorem managedHandle_runs {f : Managed} {h : ManagedHandle} (hget : f.handles.get id = some h) :
    Runs (managedHandle id) f h f := by
  refine .bind' (.read' _ f) ?_
  rw [hget]
  exact .pure' h f

theorem managedCore_appendable (flags : OpenFlags) (id : Nat) :
    Appendable (managedCore jsonValid flags) id (ManagedShows id) (fun _ _ => True) where
  getattr := by
    rintro f shown ⟨rfl, h, hget, -⟩
    exact .bind' (managedHandle_runs hget) (.read' _ f)
  read := by
    rintro f shown offset length ⟨rfl, h, hget, -⟩ _
    refine .after (managedHandle_runs hget) (.ensure' (fun _ => .point' ?_) fun _ => rfl)
    exact .of_runs (.read' _ f) ⟨rfl, rfl⟩
  write := by
    rintro f shown data ⟨rfl, h, hget, happend⟩ _ _
    refine .after (managedHandle_runs hget) (.read' ?_)
    rw [if_pos happend]
    exact .effect' (.pure' ⟨rfl, h, hget, happend⟩)

theorem openManaged_shows {flags : OpenFlags} {f f' : Managed} (happend : flags.append)
    (hopen : Runs (openManaged flags) f id f') : ManagedShows id f' f'.content := by
  have hconcludes : Concludes (openManaged flags) f
      (fun id t => ∃ h, t.handles.get id = some h ∧ h.append = true) fun _ _ => True := by
    refine .read' (.ensure' (fun _ => .effect' (.pure' ?_)) fun _ => trivial)
    exact ⟨_, get_set_self .., happend⟩
  exact ⟨rfl, hconcludes.returned hopen⟩

/-! ## The law of stale windows -/

/-- In every run in which each window is over the file as it is, or over the file as it
    was when the last such window came, the file is what it was when it was opened and the
    records of the acknowledged writes, each once and in order. -/
theorem stale_windows_append (jsonValid : Bytes → Bool) :
    (∀ (path : Path) (flags : OpenFlags) (m₀ m : Native) (id : Nat) (windows : List Window),
      nativeTransactionPath path = true → flags.writable = true → m₀.Idle path → Runs (openNative path flags) m₀ id m →
      Along (Windowed.step (nativeCore jsonValid path flags) jsonValid (Native.visible · path))
        (fun l w => w.Sent jsonValid l ∧ w.Timely (Native.visible · path) (fun m data => m.room id data = true) l)
        (Windowed.opened m id (m.visible path)) windows →
      ∃ l, runFrom (Windowed.step (nativeCore jsonValid path flags) jsonValid (Native.visible · path))
          (Windowed.opened m id (m.visible path)) windows = some l ∧
        l.serving.core.visible path = m.visible path ++ l.acknowledged) ∧
    (∀ (flags : OpenFlags) (f₀ f : Managed) (id : Nat) (windows : List Window),
      flags.append = true → Runs (openManaged flags) f₀ id f →
      Along (Windowed.step (managedCore jsonValid flags) jsonValid Managed.content)
        (fun l w => w.Sent jsonValid l ∧ w.Timely Managed.content (fun _ _ => True) l)
        (Windowed.opened f id f.content) windows →
      ∃ l, runFrom (Windowed.step (managedCore jsonValid flags) jsonValid Managed.content)
          (Windowed.opened f id f.content) windows = some l ∧ l.serving.core.content = f.content ++ l.acknowledged) := by
  constructor
  · intro path flags m₀ m id windows hpath hwritable hidle hopen hwindows
    obtain ⟨l, hrun, hl⟩ := Whole.run (nativeCore_appendable path flags id) (fun _ _ h => h.visible)
      (openNative_shows hpath hwritable hidle hopen) windows hwindows
    exact ⟨l, hrun, hl.snapshotting.shows.visible⟩
  · intro flags f₀ f id windows happend hopen hwindows
    obtain ⟨l, hrun, hl⟩ := Whole.run (managedCore_appendable flags id) (fun _ _ h => h.content)
      (openManaged_shows happend hopen) windows hwindows
    exact ⟨l, hrun, hl.snapshotting.shows.content⟩

/-! ### Runs on samples -/

def openedNative : Native := (openNative Appending.sample.state.path OpenFlags.sample [] (Native.started Disk.sample)).2.1

theorem openedNative_runs :
    Runs (openNative Appending.sample.state.path OpenFlags.sample) (Native.started Disk.sample) 1 openedNative :=
  Prod.ext (by decide +kernel) (Prod.ext rfl (by decide +kernel))

variable (content : Bytes)

def Managed.sample : Managed := ⟨content, .empty, 1⟩

def openedManaged : Managed := (openManaged OpenFlags.sample [] (Managed.sample content)).2.1

theorem openedManaged_runs : Runs (openManaged OpenFlags.sample) (Managed.sample [49]) 1 (openedManaged [49]) :=
  Prod.ext (by decide +kernel) (Prod.ext rfl (by decide +kernel))

def Windowed.runNative (windows : List Window) : Option (Windowed Native) :=
  runFrom (Windowed.step (nativeCore digits Appending.sample.state.path OpenFlags.sample) digits
      (Native.visible · Appending.sample.state.path))
    (Windowed.opened openedNative 1 (openedNative.visible Appending.sample.state.path)) windows

def Windowed.runManaged (windows : List Window) : Option (Windowed Managed) :=
  runFrom (Windowed.step (managedCore digits OpenFlags.sample) digits Managed.content)
    (Windowed.opened (openedManaged content) 1 (openedManaged content).content) windows

def timelyWindows : List Window := [⟨[49], 0, [50, 10]⟩, ⟨[49], 0, [51, 10]⟩, ⟨[49, 50, 10, 51, 10], 1, [52, 10]⟩]

theorem stale_windows_append_timely :
    (∃ l, Windowed.runNative timelyWindows = some l ∧ l.serving.core.visible Appending.sample.state.path =
      openedNative.visible Appending.sample.state.path ++ l.acknowledged) ∧
    (∃ l, Windowed.runManaged [49] timelyWindows = some l ∧ l.serving.core.content =
      (openedManaged [49]).content ++ l.acknowledged) ∧
    (Windowed.runNative timelyWindows).map (·.acknowledged) = some [50, 10, 51, 10, 52, 10] ∧
    (Windowed.runManaged [49] timelyWindows).map (·.acknowledged) = some [50, 10, 51, 10, 52, 10] :=
  ⟨(stale_windows_append digits).1 Appending.sample.state.path OpenFlags.sample (Native.started Disk.sample) openedNative 1
      timelyWindows (by decide +kernel) rfl nofun openedNative_runs (by decide +kernel),
    (stale_windows_append digits).2 OpenFlags.sample (Managed.sample [49]) (openedManaged [49]) 1 timelyWindows rfl
      openedManaged_runs (by decide +kernel),
    by decide +kernel, by decide +kernel⟩

def lateWindows : List Window := [⟨[49], 0, [50, 10]⟩, ⟨[49, 50, 10], 0, [51, 10]⟩, ⟨[49], 0, [52, 10]⟩]

/-- All writes are acknowledged, and a record that was there is overwritten by the last of
    them, in a native file as in a managed session. -/
theorem stale_windows_overwrite :
    Along (Windowed.step (nativeCore digits Appending.sample.state.path OpenFlags.sample) digits
        (Native.visible · Appending.sample.state.path)) (fun l w => w.Sent digits l)
      (Windowed.opened openedNative 1 (openedNative.visible Appending.sample.state.path)) lateWindows ∧
    (Windowed.runNative lateWindows).map (fun l => (l.acknowledged, l.serving.core.visible Appending.sample.state.path)) =
      some ([50, 10, 51, 10, 52, 10], [49, 52, 10, 51, 10]) ∧
    Along (Windowed.step (managedCore digits OpenFlags.sample) digits Managed.content) (fun l w => w.Sent digits l)
      (Windowed.opened (openedManaged [49]) 1 (openedManaged [49]).content) lateWindows ∧
    (Windowed.runManaged [49] lateWindows).map (fun l => (l.acknowledged, l.serving.core.content)) =
      some ([50, 10, 51, 10, 52, 10], [49, 52, 10, 51, 10]) := by
  decide +kernel

end CodexFold.Mount
