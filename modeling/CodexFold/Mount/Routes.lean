import CodexFold.Mount.Replacement
import CodexFold.Mount.Requests

/- Opens of a path that is routed to a session.

   `Open` asks for the session of the path and goes to the native tree whenever it does not
   get it, whatever the reason is. `Filesystem.staysManaged` says that this never shows: no
   open of the path gives a native handle or leaves a native file where there was none. It
   is decided by three things, each of them enough: the session can be had, the path does
   not lead to the native tree, or the native tree refuses the open. -/
namespace CodexFold.Mount
open Foundation Option

namespace Filesystem

variable (f : Filesystem)

/-- No open of the path gives a handle on a native file, and none leaves a native file there
    where there was none. -/
def staysManaged (path : Path) : Prop :=
  ∀ (flags : OpenFlags) (fs : List Fault), (∀ id, (opens path flags fs f).1 ≠ .done (.native id)) ∧
    (f.native.disk.files.get path = none → (opens path flags fs f).2.1.native.disk.files.get path = none)

def available (id : SessionID) : Bool :=
  !(f.publishingManagedDeletions.contains id) && !(f.deletedManagedSessions.contains id) && (f.sessions.get id).isSome

/-- The native tree refuses every open of the path: a directory lies there, or nothing in a
    directory that is missing, or the append state that is kept for the file leads to a name
    without a file. -/
def refusesNative (path : Path) : Bool :=
  match f.native.disk.files.get path with
  | none => f.native.disk.directories.contains path || !(f.native.disk.directories.contains (dir path))
  | some _ =>
    match f.native.nativeAppends.get path with
    | none => false
    | some i => (f.native.states i).segments.isEmpty && (f.native.disk.files.get (f.native.states i).path).isNone

section
variable {f : Filesystem} {path : Path} {id : SessionID}

theorem sessionForPath_ok (hroute : f.paths.get path = some id) (hfirst : id ∉ f.nativeFirst) :
    (f.sessionForPath path).toBool = f.available id := by
  have hfirst : f.nativeFirst.contains id = false := by simpa using hfirst
  unfold sessionForPath available
  simp only [hroute, hfirst]
  cases f.publishingManagedDeletions.contains id with
  | true => rfl
  | false =>
    cases f.deletedManagedSessions.contains id with
    | true => rfl
    | false =>
      cases f.sessions.get id with
      | none | some session => rfl

/-! ## Opens that stay with the session -/

theorem openSession_spec (id : SessionID) (flags : OpenFlags) : SpecOr (fun t => t.native.disk = f.native.disk) (openSession id flags) (fun opened t => (∀ h, opened ≠ .native h) ∧ t.native.disk = f.native.disk)
      (fun t => t.native.disk = f.native.disk) := by
  have hstep : ∀ {c : Bool} {e : String}, Keeps (fun t => t.native.disk = f.native.disk) (onlyIf c (point e)) :=
    .ite' (.point' _) (.pure' ())
  refine .bind' hstep fun _ => .bind' hstep fun _ => .bind' hstep fun _ => ?_
  refine Spec.bind' (Keeps.read' _) fun handle => Spec.bind' (M := fun _ t => t.native.disk = f.native.disk)
    (.modify' _ fun _ ht => ht) fun _ => ?_
  exact .pure' _ fun _ ht => ⟨nofun, ht⟩

variable {d : Disk}

theorem openNativeBacking_refused (hnone : d.files.get path = none)
    (h : (d.directories.contains path || !(d.directories.contains (dir path)))) (create excl : Bool) :
    ∃ e, d.openNativeBacking path create excl = .error e := by
  unfold Disk.openNativeBacking
  rw [hnone]
  dsimp only
  cases hdir : d.directories.contains path with
  | true => exact ⟨_, rfl⟩
  | false =>
    rw [hdir, Bool.false_or, Bool.not_eq_true'] at h
    rw [h, Bool.and_false]
    exact ⟨_, rfl⟩

variable {m : Native}

theorem loadNativeAppendState_refused {i : Nat} (hknown : m.nativeAppends.get path = some i)
    (hidle : (m.states i).segments = []) (hlost : m.disk.files.get (m.states i).path = none) :
    SpecOr (· = m) (loadNativeAppendState path) (fun _ _ => False) (fun t => t.disk = m.disk) := by
  refine .readAt ?_
  rw [hknown]
  refine .bind' (M := fun _ _ => False) (.onPart' fun t ht => ?_) fun _ => nofun
  subst ht
  have hopen : SpecOr (· = t.getState i) (onDisk (openPath (t.states i).path)) (fun _ _ => False)
      (fun a => a.disk = t.disk) := by
    refine .onPart' fun a ha => ?_
    subst ha
    refine .bind' (M := fun _ d => d = t.disk) (.point' _ (fun _ hd => hd) (fun _ hd => hd) fun _ hd => hd) fun _ => ?_
    refine .readAt ?_
    unfold Disk.lookup
    rw [hlost]
    exact .throw' _ fun _ hd => hd
  refine .readAt (.ite' (fun hpending => ?_) fun _ => ?_)
  · have hempty : (t.getState i).state.segments = [] := hidle
    rw [hempty] at hpending
    cases hpending
  · exact .bind' hopen fun _ => nofun

theorem openNative_refused (h : f.refusesNative path) (flags : OpenFlags) :
    SpecOr (· = f.native) (openNative path flags) (fun _ _ => False)
      (fun t => t.disk.files = f.native.disk.files) := by
  unfold refusesNative at h
  refine .bind' (M := fun _ t => t = f.native ∧ (f.native.disk.files.get path).isSome) (.readAt (.checked
    (fun _ t ht => by rw [ht]) fun opened hopened => ?_)) fun _ => ?_
  · cases hfile : f.native.disk.files.get path with
    | none =>
      rw [hfile] at h
      obtain ⟨e, he⟩ := openNativeBacking_refused hfile h flags.create flags.excl
      exact nomatch he.symm.trans hopened
    | some o =>
      obtain ⟨object, d⟩ := opened
      -- an open of a file that is there changes nothing
      have hsame : d = f.native.disk := by
        rcases openNativeBacking_cases hopened with ⟨-, rfl⟩ | ⟨hnone, -⟩
        · rfl
        · exact nomatch hfile.symm.trans hnone
      subst hsame
      refine .bind' (.effect' _ _ (fun t ht => by rw [ht]) (fun t ht => by rw [ht])
        fun t ht => by rw [ht]) fun _ => .pure' _ fun t ht => ⟨ht, rfl⟩
  · refine .given fun hfile => ?_
    obtain ⟨o, ho⟩ := isSome_iff_exists.mp hfile
    rw [ho] at h
    cases hknown : f.native.nativeAppends.get path with
    | none =>
      rw [hknown] at h
      cases h
    | some i =>
      rw [hknown] at h
      obtain ⟨hidle, hlost⟩ := Bool.and_eq_true_iff.mp h
      refine .bind' ((loadNativeAppendState_refused hknown (List.isEmpty_iff.mp hidle) (isNone_iff_eq_none.mp hlost)).post
        (fun _ _ hbad => hbad) (fun _ t ht => by rw [ht]) fun t ht => by rw [ht]) fun _ => nofun

theorem staysManaged_of_spec (h : ∀ flags, SpecOr (· = f) (opens path flags) (fun opened t => (∀ id, opened ≠ .native id) ∧ t.native.disk.files = f.native.disk.files)
      (fun t => t.native.disk.files = f.native.disk.files)) : f.staysManaged path := by
  intro flags fs
  have hends := h flags fs f rfl
  match hrun : opens path flags fs f with
  | (.done opened, t, _) =>
    rw [hrun] at hends
    exact ⟨fun id hbad => hends.1 id (Outcome.done.inj hbad), fun hnone => by rw [← hnone, show t.native.disk.files = _ from hends.2]⟩
  | (.failed _, t, _) | (.crashed, t, _) =>
    rw [hrun] at hends
    exact ⟨nofun, fun hnone => by rw [← hnone, show t.native.disk.files = _ from hends]⟩

theorem staysManaged_of_session (h : (f.sessionForPath path).toBool) : f.staysManaged path := by
  refine staysManaged_of_spec fun flags => .readAt ?_
  cases hfound : f.sessionForPath path with
  | error e =>
    rw [hfound] at h
    cases h
  | ok id =>
    exact ((openSession_spec id flags).pre fun t ht => by rw [ht]).mono (fun _ t ht => ⟨ht.1, by rw [ht.2]⟩) fun t ht => by rw [ht]

theorem staysManaged_of_refused (h : f.nativePath path = false ∨ f.refusesNative path)
    (hlost : (f.sessionForPath path).toBool = false) : f.staysManaged path := by
  refine staysManaged_of_spec fun flags => .readAt ?_
  cases hfound : f.sessionForPath path with
  | ok id =>
    rw [hfound] at hlost
    cases hlost
  | error e =>
    refine .readAt (.bind' (M := fun _ t => t = f ∧ f.refusesNative path = true) (.ensure' _ _
      (fun hnative t ht => ⟨ht, ?_⟩) fun t ht => by rw [ht]) fun _ => .given fun hrefuses => ?_)
    · rw [hnative] at h
      exact h.resolve_left nofun
    · refine .bind' (M := fun _ _ => False) (.onPart' fun t ht => ?_) fun _ => nofun
      subst ht
      exact openNative_refused hrefuses flags

/-! ## Opens that do not -/

def creating : OpenFlags := ⟨.readOnly, true, false, false, false⟩

def Stranded (m : Native) (path : Path) : Prop :=
  ∃ i, m.nativeAppends.get path = some i ∧ (m.states i).segments = [] ∧ m.disk.files.get (m.states i).path = none

theorem load_concludes {o : Nat} (hfile : m.disk.files.get path = some o) :
    Concludes (loadNativeAppendState path) m (fun _ t => t.disk = m.disk) fun _ t => t.disk = m.disk ∧ Stranded m path := by
  refine .read' ?_
  cases hget : m.nativeAppends.get path with
  | none =>
    refine .bind' (F := fun _ _ => False) (.onPart' ?_)
      (fun _ t ht => .read' (.read' (.modify' (.pure' ht)))) nofun
    exact (openPath_concludes m.disk path).mono (fun _ d hd => hd.1) fun _ d hd => (nomatch hfile.symm.trans hd.2)
  | some i =>
    have hrefresh : Concludes refreshIfIdle (m.getState i) (fun _ a => a.disk = m.disk)
        fun _ a => a.disk = m.disk ∧ (m.states i).segments = [] ∧ m.disk.files.get (m.states i).path = none := by
      refine .read' ?_
      split
      · exact .pure' rfl
      · rename_i hidle
        have hidle : (m.getState i).state.segments = [] := by simpa using hidle
        refine .bind' (M := fun _ a => a.disk = m.disk) (F := fun _ a => a.disk = m.disk ∧
          m.disk.files.get (m.states i).path = none) (.onPart' ?_) (fun _ a ha => .read' ?_)
          fun _ a ha => ⟨ha.1, hidle, ha.2⟩
        · exact (openPath_concludes m.disk _).mono (fun _ d hd => hd.1) fun _ d hd => hd
        · exact .of_runs (show Runs (setSize _) a () _ from rfl) ha
    refine .bind' (F := fun _ t => t.disk = m.disk ∧ (m.states i).segments = [] ∧
      m.disk.files.get (m.states i).path = none) (.onPart' hrefresh) (fun _ t ht => .pure' ht)
      fun _ t ht => ⟨ht.1, i, hget, ht.2⟩

theorem openNative_concludes {o : Nat} (hopen : m.disk.openNativeBacking path true false = .ok (o, d)) :
    Concludes (openNative path creating) m (fun _ t => t.disk.files.get path = some o)
      fun _ t => t.disk.files.get path = some o ∧ Stranded { m with disk := d } path := by
  have hfile : d.files.get path = some o := by
    rcases openNativeBacking_cases hopen with ⟨hget, rfl⟩ | ⟨-, -, rfl, rfl⟩
    · exact hget
    · exact get_set_self ..
  have hbacking : Runs (openBacking path creating) m o { m with disk := d } := by
    refine .bind' (.read' _ m) ?_
    rw [show m.disk.openNativeBacking path creating.create creating.excl = _ from hopen]
    exact .bind' (.ofExcept' m rfl) (.bind' (.effect' _ _ m) (.pure' o _))
  refine .after hbacking (.bind' (load_concludes hfile) (fun state t ht => ?_) fun _ t ht => ⟨?_, ht.2⟩)
  · refine .after (.pure' () t) (.read' (.modify' (.pure' ?_)))
    rw [ht]
    exact hfile
  · rw [ht.1]
    exact hfile

section

variable (hlost : (f.sessionForPath path).toBool = false)
include hlost

theorem opens_concludes {o : Nat} (hnative : f.nativePath path)
    (hopen : f.native.disk.openNativeBacking path true false = .ok (o, d)) :
    Concludes (opens path creating) f (fun opened t => (∃ id, opened = .native id) ∧ t.native.disk.files.get path = some o)
      fun _ t => t.native.disk.files.get path = some o ∧ Stranded { f.native with disk := d } path := by
  refine .read' ?_
  cases hfound : f.sessionForPath path with
  | ok id =>
    rw [hfound] at hlost
    cases hlost
  | error e =>
    refine .read' (.after (.ensure' _ f hnative) ?_)
    refine .bind' (.onPart' (openNative_concludes hopen)) (fun id t ht => .pure' ⟨⟨id, rfl⟩, ht⟩) fun _ _ ht => ht

theorem not_staysManaged (hnative : f.nativePath path) (hopens : f.refusesNative path = false) :
    ¬f.staysManaged path := by
  intro hstays
  obtain ⟨hhandle, hcreated⟩ := hstays creating []
  unfold refusesNative at hopens
  cases hfile : f.native.disk.files.get path with
  | none =>
    -- the file is created, whatever becomes of the open
    rw [hfile, Bool.or_eq_false_iff, Bool.not_eq_false'] at hopens
    have hopen : f.native.disk.openNativeBacking path true false = .ok (f.native.disk.fresh, { f.native.disk.setContents
        f.native.disk.fresh [] with files := f.native.disk.files.set path f.native.disk.fresh, fresh := f.native.disk.fresh + 1 }) := by
      unfold Disk.openNativeBacking
      rw [hfile]
      dsimp only
      rw [hopens.1, hopens.2]
      rfl
    rcases opens_concludes hlost hnative hopen with ⟨opened, t, hrun, -, hthere⟩ | ⟨e, t, hrun, hthere, -⟩
    · have hgone := hcreated hfile
      rw [hrun.eq] at hgone
      exact nomatch hgone.symm.trans hthere
    · have hgone := hcreated hfile
      rw [hrun] at hgone
      exact nomatch hgone.symm.trans hthere
  | some o =>
    rw [hfile] at hopens
    have hopen : f.native.disk.openNativeBacking path true false = .ok (o, f.native.disk) := by
      unfold Disk.openNativeBacking
      rw [hfile]
      rfl
    rcases opens_concludes hlost hnative hopen with ⟨opened, t, hrun, ⟨id, rfl⟩, -⟩ | ⟨e, t, -, -, i, hget, hidle, hnone⟩
    · refine hhandle id ?_
      rw [hrun.eq]
    · rw [show f.native.nativeAppends.get path = some i from hget] at hopens
      have hidle : (f.native.states i).segments = [] := hidle
      simp [hidle, hnone] at hopens

end

/-- An open of a routed path never shows a native file if and only if the session can be
    had, the path does not lead to the native tree, or the native tree refuses the open. -/
theorem open_stays_managed_iff (hroute : f.paths.get path = some id) (hfirst : id ∉ f.nativeFirst) :
    f.staysManaged path ↔ f.available id = true ∨ f.nativePath path = false ∨ f.refusesNative path = true := by
  have hfound := sessionForPath_ok hroute hfirst
  cases havailable : f.available id with
  | true =>
    rw [havailable] at hfound
    exact ⟨fun _ => .inl rfl, fun _ => staysManaged_of_session hfound⟩
  | false =>
    rw [havailable] at hfound
    constructor
    · intro hstays
      refine .inr ?_
      cases hnative : f.nativePath path with
      | false => exact .inl rfl
      | true =>
        refine .inr ?_
        by_contra hopens
        exact not_staysManaged hfound hnative (Bool.eq_false_iff.mpr hopens) hstays
    · intro hcond
      exact staysManaged_of_refused (hcond.resolve_left nofun) hfound

end

theorem open_stays_managed_sample : sample.paths.get (sessionFile 'b') = some ['s'] ∧ ['s'] ∉ sample.nativeFirst ∧
    sample.staysManaged (sessionFile 'b') :=
  ⟨by decide, by decide, (@open_stays_managed_iff sample (sessionFile 'b') ['s'] (by decide) (by decide)).mpr (.inl (by decide))⟩

def droppedRun : List DaemonEvent :=
  [.restart (.plain _) [], .operation (.addSession ['s'] (sessionFile 'b') ⟨none⟩) [],
    .operation (.opens (sessionFile 'b') ⟨.readOnly, false, false, false, false⟩) [], .operation (.reread 1 none) []]

/-- The path is still routed to the session, and the next open creates a native file. -/
theorem open_creates_native : ∃ d, runFrom (Daemon.step digits) ⟨launched Disk.sample fun _ => 0, false⟩ droppedRun = some d ∧
    d.up = true ∧ d.fs.paths.get (sessionFile 'b') = some ['s'] ∧ ['s'] ∉ d.fs.nativeFirst ∧
    d.fs.native.disk.files.get (sessionFile 'b') = none ∧
    (opens (sessionFile 'b') creating [] d.fs).1 = .done (.native 2) ∧
    (opens (sessionFile 'b') creating [] d.fs).2.1.native.disk.files.get (sessionFile 'b') = some 1 :=
  ⟨(runFrom (Daemon.step digits) ⟨launched Disk.sample fun _ => 0, false⟩ droppedRun).get (by decide +kernel),
    (some_get _).symm, by decide +kernel, by decide +kernel, by decide +kernel, by decide +kernel, by decide +kernel,
    by decide +kernel⟩

end Filesystem

end CodexFold.Mount
