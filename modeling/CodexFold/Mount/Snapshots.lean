import CodexFold.Mount.Replacement
import CodexFold.Mount.Requests

/- The native snapshot of a mounted session.

   A session that was folded from a native file keeps that file as its snapshot, and the
   mount hides the file's name. `Kept` says that the file is still there with its bytes. A
   request keeps it unless it goes to that very object, and an operation on names unless it
   names the file or what the file is below; `sparesObject` says which calls leave it alone. -/
namespace CodexFold.Mount
open Foundation List Option

structure Disk.Kept (path : Path) (o : Nat) (b : Bytes) (d : Disk) : Prop where
  file : d.files.get path = some o
  bytes : d.contents o = b
  numbered : o < d.fresh

section
variable {d t : Disk} {path : Path} {o : Nat} {b : Bytes}

section

variable (h : d.Kept path o b)
include h

theorem Disk.Kept.of_eq (hfile : t.files.get path = d.files.get path) (hcontents : t.contents o = d.contents o)
    (hfresh : d.fresh ≤ t.fresh) : t.Kept path o b :=
  ⟨hfile.trans h.file, hcontents.trans h.bytes, lt_of_lt_of_le h.numbered hfresh⟩

variable {o' : Nat}

theorem Disk.Kept.setContents (hne : o' ≠ o) (c : Bytes) : (d.setContents o' c).Kept path o b :=
  h.of_eq rfl (Disk.setContents_of_ne d hne.symm _) (le_refl _)

theorem Disk.Kept.of_durable (ht : t.durable = d.durable) : t.Kept path o b :=
  h.of_eq (by rw [Disk.durable_files ht]; rfl) (by rw [Disk.durable_contents ht]; rfl) (by rw [Disk.durable_fresh ht]; exact le_refl _)

variable {p : Path}

theorem Disk.Kept.during {tail : Bytes} (hne : o' ≠ o) (ht : During d p o' tail t) : t.Kept path o b := by
  cases ht with
  | before ht => exact h.of_durable ht
  | writing k ht | after bytes _ ht =>
    refine h.of_eq (by rw [Disk.durable_files ht]; rfl) ?_ (by rw [Disk.durable_fresh ht]; exact le_refl _)
    rw [Disk.durable_contents ht]
    exact Disk.setContents_of_ne _ hne.symm _

theorem Disk.Kept.openNativeBacking {create excl : Bool} (hopen : d.openNativeBacking p create excl = .ok (o', t)) :
    t.Kept path o b := by
  rcases openNativeBacking_cases hopen with ⟨-, rfl⟩ | ⟨hnone, -, -, rfl⟩
  · exact h
  · have hp : path ≠ p := fun heq => nomatch (heq ▸ h.file).symm.trans hnone
    exact h.of_eq (get_set_ne _ _ hp) (Disk.setContents_of_ne d (ne_of_lt h.numbered) _) (Nat.le_succ _)

theorem Disk.Kept.rename {old new : Path} (hrename : d.rename old new = .ok t) (hapart : Disk.apart path old new) :
    t.Kept path o b := by
  obtain ⟨hcontents, hfresh, -⟩ := rename_frame hrename
  exact h.of_eq (rename_apart hrename hapart) (by rw [hcontents]) (by rw [hfresh])

theorem Disk.Kept.remove (hremove : d.remove p = .ok t) (hne : p ≠ path) : t.Kept path o b := by
  obtain ⟨-, hcontents, hfresh, -⟩ := remove_frame hremove
  refine h.of_eq ?_ (by rw [hcontents]) (by rw [hfresh])
  rcases remove_cases hremove with ⟨_, -, rfl⟩ | ⟨-, rfl⟩
  · exact (get_erase _ _ _).trans (if_neg hne.symm)
  · rfl

end

end

/-! ## Requests -/

def Native.reaches (m : Native) (o : Nat) (h : Handle) : Request → Bool
  | .write _ data _ => !h.append && h.writable && !data.isEmpty && h.object == o
  | .flush _ => h.append && !(m.states h.state).segments.isEmpty && m.disk.files.get (m.states h.state).path == some o
  | .fsync _ => h.append && !(m.states h.state).segments.isEmpty && m.disk.files.get (m.states h.state).path == some o
  | .useRandomWrites _ => h.append && !(m.states h.state).segments.isEmpty && m.disk.files.get (m.states h.state).path == some o
  | .release _ => h.append && !(m.states h.state).segments.isEmpty && m.disk.files.get (m.states h.state).path == some o
  | .truncate _ size => 0 ≤ size && m.disk.files.get (m.states h.state).path == some o
  | _ => false

section
variable {jsonValid : Bytes → Bool} {m t : Native} {path : Path} {o : Nat} {b : Bytes}

theorem Truncated.kept {k : Nat} {size : Int} (ht : Truncated k size m t) (h : m.disk.Kept path o b)
    (hother : 0 ≤ size → m.disk.files.get (m.states k).path ≠ some o) : t.disk.Kept path o b := by
  cases ht with
  | before ht => exact ht ▸ h
  | cut o' s hsize hidle hfile hpath hsegments ht =>
    rw [ht]
    exact h.setContents (fun heq => hother hsize (heq ▸ hfile)) _

theorem CommitStopped.kept {a c : Appending} (h : CommitStopped jsonValid a c) (hkept : a.disk.Kept path o b)
    (hother : a.state.segments ≠ [] → a.disk.files.get a.state.path ≠ some o) : c.disk.Kept path o b := by
  rcases h.disk with hsame | ⟨o', tail, hcommits, hduring⟩
  · exact hkept.of_durable hsame
  · refine hkept.during (fun heq => hother (fun hidle => ?_) (heq ▸ hcommits.file)) hduring
    have hnone := hcommits.committing
    unfold Appending.committing at hnone
    rw [hidle] at hnone
    cases hnone

variable {id : Nat}

theorem Served.handle_kept {up : Bool} {r : Request} (ht : Served jsonValid up m r t) (h : m.disk.Kept path o b)
    (hid : Filesystem.requestHandle r = some id)
    (hother : ∀ x, m.handles.get id = some x → m.reaches o x r = false ∧ ∀ data offset, r = .write id data offset → x.append = false → x.writable ∨ data = []) :
    t.disk.Kept path o b := by
  cases ht with
  | refused => exact h
  | staged hget happend ha =>
    rw [show (m.putState _ _).disk = _ from ha.1]
    exact h
  | @wrote id' data offset x k s hget happend hoffset hidle hpath hsegments =>
    cases hid
    obtain ⟨hreaches, hwrites⟩ := hother _ hget
    cases data with
    | nil =>
      -- nothing is written
      refine h.of_eq rfl ?_ (le_refl _)
      rw [take_nil, overlay_nil]
      exact congrFun (Function.update_eq_self _ _) o
    | cons c rest =>
      have hwritable := (hwrites _ _ rfl happend).resolve_right (cons_ne_nil c rest)
      refine h.setContents (fun heq => ?_) _
      unfold Native.reaches at hreaches
      simp [happend, hwritable, heq] at hreaches
  | @committed r id' x a handles hget ha hhandled =>
    have hsame : ∀ y, m.handles.get id' = some y → id' = id → m.reaches o y r = false := fun y hy heq => (hother y (heq ▸ hy)).1
    have hcommit : ∀ (_ : (x.append && !(m.states x.state).segments.isEmpty &&
        m.disk.files.get (m.states x.state).path == some o) = false), a.disk.Kept path o b := by
      intro hmiss
      rcases ha with ⟨-, rfl⟩ | ⟨happend, hstopped⟩
      · exact h
      · refine hstopped.kept h fun hpending hfile => ?_
        have hpending : (m.states x.state).segments ≠ [] := hpending
        have hfile : m.disk.files.get (m.states x.state).path = some o := hfile
        simp [happend, hpending, hfile] at hmiss
    cases hhandled with
    | flush | fsync | staging | random hidle | released hidle => exact hcommit (hsame x hget (some.inj hid))
  | truncated hget ht =>
    cases hid
    refine ht.kept h fun hsize hfile => ?_
    have hreaches := (hother _ hget).1
    unfold Native.reaches at hreaches
    simp [hsize, hfile] at hreaches
  | truncatedPath hname hloaded ht | created hname hopen | loaded hname hopen hloaded ht hkeep
  | opened hname hopen hloaded ht hkeep | renamed hallowed hne himport hrename | removed hbusy hname hremove =>
    cases hid

theorem write_unwritable {x : Handle} (hget : m.handles.get id = some x) (happend : x.append = false)
    (hwritable : x.writable = false) {data : Bytes} (hdata : data ≠ []) (offset : Int) :
    Keeps (· = m) (write id data offset) := by
  refine Spec.bind' ((handle_spec id).weaken (fun _ _ h => h)) fun y => Spec.given fun hy => ?_
  cases some.inj (hget.symm.trans hy)
  rw [happend, hwritable]
  refine .ite' nofun fun _ => .onPart' fun t ht => ?_
  subst ht
  have hback : ∀ a, a = t.getState x.state → t.putState x.state a = t := fun a ha => by rw [ha, putState_getState]
  refine .post (Q := fun _ _ => False) (C := fun _ => False) ?_ nofun
    (fun _ => hback) nofun
  refine .ensured (fun _ ha => ha) fun _ => ?_
  refine .readAt (.ensured (fun _ ha => ha) fun _ => ?_)
  refine .bind' (M := fun _ _ => False) (.ensure' _ _ (fun hc _ _ => ?_) fun _ ha => ha) fun _ => nofun
  simp [hdata] at hc

section

variable (h : m.disk.Kept path o b)
include h

theorem Request.handle_kept {r : Request} (hid : Filesystem.requestHandle r = some id)
    (hother : ∀ x, m.handles.get id = some x → m.reaches o x r = false) :
    LeadsTo (· = m) (r.run jsonValid) (fun t => t.disk.Kept path o b) := by
  by_cases hread : ∃ data offset x, r = .write id data offset ∧ m.handles.get id = some x ∧ x.append = false ∧ x.writable = false ∧
      data ≠ []
  · obtain ⟨data, offset, x, rfl, hget, happend, hwritable, hdata⟩ := hread
    exact .bind' ((write_unwritable hget happend hwritable hdata offset).mono (fun _ t ht => (by rw [ht]; exact h)) fun t ht => (by rw [ht]; exact h)) fun _ => .pure' () fun _ ht => ht
  · have hends : ∀ up t, Served jsonValid up m r t → t.disk.Kept path o b := fun up t ht => by
      refine ht.handle_kept h hid fun x hget => ⟨hother x hget, fun data offset hr happend => ?_⟩
      by_contra hbad
      obtain ⟨hwritable, hdata⟩ := not_or.mp hbad
      exact hread ⟨data, offset, x, hr, hget, happend, Bool.eq_false_iff.mpr hwritable, hdata⟩
    exact r.served.post (fun _ => hends true) (fun _ => hends true) (hends false)

theorem openNative_kept {p : Path} {flags : OpenFlags} (hname : nativeName p)
    (hother : (flags.writable && flags.trunc) → m.disk.files.get (m.backing p) ≠ some o) :
    LeadsTo (· = m) (openNative p flags) (fun t => t.disk.Kept path o b) := by
  have hcut : ∀ {object : Nat} {d : Disk} {k : Nat} {u t : Native},
      m.disk.openNativeBacking p flags.create flags.excl = .ok (object, d) → Loaded { m with disk := d } p k u →
      Truncated k 0 u t → ((flags.writable && flags.trunc) = false → t = u) → t.disk.Kept path o b := by
    intro object d k u t hopen hloaded ht hkeep
    have hu : u.disk.Kept path o b := by
      rw [hloaded.same.1]
      exact h.openNativeBacking hopen
    cases hflags : flags.writable && flags.trunc with
    | false =>
      rw [hkeep hflags]
      exact hu
    | true =>
      refine ht.kept hu fun _ hfile => ?_
      rw [hloaded.path_eq, hloaded.same.1] at hfile
      -- what has been created has a number of its own
      rcases openNativeBacking_cases hopen with ⟨-, rfl⟩ | ⟨-, -, -, rfl⟩
      · exact hother hflags hfile
      · have hget : (m.disk.files.set p m.disk.fresh).get (m.backing p) = some o := hfile
        rw [get_set] at hget
        split at hget
        · exact absurd (some.inj hget).symm (ne_of_lt h.numbered)
        · exact hother hflags hget
  have hends : ∀ up t, Served (fun _ => true) up m (.opens p flags) t → t.disk.Kept path o b := fun up t ht => by
    cases ht with
    | refused => exact h
    | created hname hopen => exact h.openNativeBacking hopen
    | loaded hname hopen hloaded ht hkeep => exact hcut hopen hloaded ht hkeep
    | opened hname hopen hloaded ht hkeep =>
      have hopened := hcut hopen hloaded ht hkeep
      exact hopened
    | committed hget ha hhandled => cases hhandled
  exact (openNative_served hname flags).post (fun _ => hends true) (fun _ => hends true) (hends false)

theorem truncateNative_kept {p : Path} {size : Int} (hname : nativeName p)
    (hother : 0 ≤ size → m.disk.files.get (m.backing p) ≠ some o) :
    LeadsTo (· = m) (truncateNative p size) (fun t => t.disk.Kept path o b) := by
  have hends : ∀ up t, Served (fun _ => true) up m (.truncatePath p size) t → t.disk.Kept path o b := fun up t ht => by
    cases ht with
    | refused => exact h
    | truncatedPath hname hloaded ht =>
      refine ht.kept (by rw [hloaded.same.1]; exact h) fun hsize => ?_
      rw [hloaded.path_eq, hloaded.same.1]
      exact hother hsize
    | committed hget ha hhandled => cases hhandled
  exact (truncateNative_served hname size).post (fun _ => hends true) (fun _ => hends true) (hends false)

end

end

namespace Filesystem

def fallsNative (f : Filesystem) (path : Path) : Bool := !((f.sessionForPath path).toBool) && f.nativePath path

def sparesObject (f : Filesystem) (path : Path) (o : Nat) : Operation → Bool
  | .opens p flags =>
    !(f.fallsNative p) || !(flags.writable && flags.trunc) || f.native.disk.files.get (f.native.backing p) != some o
  | .onHandle r =>
    match requestHandle r with
    | none => true
    | some id =>
      (f.handles.get id).isSome || match f.native.handles.get id with
        | none => true
        | some h => !(f.native.reaches o h r)
  | .truncatePath p size => !(f.fallsNative p) || size < 0 || f.native.disk.files.get (f.native.backing p) != some o
  | .rename old new =>
    !(renameAllowed old new) || old == new || (f.paths.get old).isSome || (f.retained.get old).isSome ||
      (f.importTarget old new && !((f.importSource old new).toBool)) ||
      Disk.apart path (f.native.backing old) new
  | .unlink p =>
    (f.paths.get p).isSome || f.native.nativePathBusyLocked p || !(f.nativePath p) || p != path
  | .mkdir _ => true
  | .rmdir p =>
    !(belowSessions p) || !(f.paths.names.all fun q => !(p.isPrefixOf q && q != p)) || p != path
  | _ => false

def Retains (path : Path) (o : Nat) (b : Bytes) (t : Filesystem) : Prop := t.native.disk.Kept path o b

section
variable {f : Filesystem} {path : Path} {o : Nat} {b : Bytes}

theorem Retains.start (h : f.native.disk.Kept path o b) {t : Filesystem} (ht : t = f) : Retains path o b t := by
  rw [ht]
  exact h

theorem modify_retains {g : Filesystem → Filesystem} (hdisk : ∀ t, (g t).native.disk = t.native.disk) :
    Keeps (Retains path o b) (modify g : MountProg Unit) := by
  refine .modify' _ fun t ht => ?_
  unfold Retains
  rw [hdisk t]
  exact ht

theorem publish_retains (n : ManagedNamespace) : Keeps (Retains path o b) (publishManagedNamespaceLocked n) := by
  refine .at' fun t ht => ?_
  have hends : ∀ u, (u = t ∨ u = t.published n) → Retains path o b u := fun u hu => by
    rcases hu with rfl | rfl
    · exact ht
    · exact ht
  exact (publish_spec n).mono (fun _ u hu => hends u (.inr hu)) hends

theorem publishForced_retains (n : ManagedNamespace) : Keeps (Retains path o b) (publishForced n) := by
  refine .bind' (.attempt' (publish_retains n)) fun r => ?_
  cases r with
  | ok _ => exact .pure' _
  | error _ => exact .bind' (modify_retains fun _ => rfl) fun _ => .pure' _

theorem onNative_retains {α : Type} {x : NativeProg α} {t : Filesystem}
    (hx : LeadsTo (· = t.native) x (fun m => m.disk.Kept path o b)) : LeadsTo (· = t) (onNative x) (Retains path o b) := by
  refine .onPart' fun u hu => ?_
  subst hu
  exact hx.weaken fun _ _ hm => hm

theorem change_kept {d : Disk} {g : Disk → Except String Disk} (h : d.Kept path o b) (hg : ∀ d', g d = .ok d' → d'.Kept path o b) :
    LeadsTo (· = d) (change g) (fun t => t.Kept path o b) :=
  (change_spec g).mono (fun _ d' hd => hg d' hd) (held h)

/-! ## Calls -/

theorem openSession_retains (id : SessionID) (flags : OpenFlags) : Keeps (Retains path o b) (openSession id flags) := by
  have hstep : ∀ {c : Bool} {e : String}, Keeps (Retains path o b) (onlyIf c (point e)) :=
    .ite' (.point' _) (.pure' ())
  refine .bind' hstep fun _ => .bind' hstep fun _ => .bind' hstep fun _ => .bind' (.read' _) fun handle => ?_
  exact .bind' (modify_retains fun _ => rfl) fun _ => .pure' _

theorem nativeName_of_nativePath {p : Path} (h : f.nativePath p) : nativeName p = true := (Bool.and_eq_true_iff.mp h).2

section

variable (h : f.native.disk.Kept path o b)
include h

variable {p : Path}

theorem opens_retains {flags : OpenFlags} (hspares : f.sparesObject path o (.opens p flags)) :
    LeadsTo (· = f) (opens p flags) (Retains path o b) := by
  refine .readAt ?_
  cases hfound : f.sessionForPath p with
  | ok id => exact (openSession_retains id flags).pre fun t ht => .start h ht
  | error e =>
    refine .readAt (.ensured (fun t ht => .start h ht) fun hnative => ?_)
    refine .bind' (onNative_retains (openNative_kept h (nativeName_of_nativePath hnative) fun hflags hfile => ?_))
      fun _ => .pure' _ fun _ ht => ht
    simp [sparesObject, fallsNative, hfound, hnative, hflags, hfile, Except.toBool] at hspares

theorem truncatePath_retains {size : Int} (hspares : f.sparesObject path o (.truncatePath p size)) :
    LeadsTo (· = f) (truncatePath p size) (Retains path o b) := by
  refine .readAt ?_
  cases hfound : f.sessionForPath p with
  | ok id => exact (Keeps.point' _ : Keeps (Retains path o b) _).pre fun t ht => .start h ht
  | error e =>
    refine .readAt (.ensured (fun t ht => .start h ht) fun hnative => ?_)
    refine onNative_retains (truncateNative_kept h (nativeName_of_nativePath hnative) fun hsize hfile => ?_)
    have hsize : ¬size < 0 := Int.not_lt.mpr hsize
    simp [sparesObject, fallsNative, hfound, hnative, hsize, hfile, Except.toBool] at hspares

omit h in
theorem onHandle_retains (jsonValid : Bytes → Bool) (h : f.native.disk.Kept path o b) {r : Request}
    (hspares : f.sparesObject path o (.onHandle r)) : LeadsTo (· = f) (onHandle jsonValid r) (Retains path o b) := by
  unfold onHandle
  cases hid : requestHandle r with
  | none => exact .throw' _ fun t ht => .start h ht
  | some id =>
    refine .readAt (.ite' (fun _ => ?_) fun hnative => ?_)
    · refine Spec.pre (Keeps.bind' (Keeps.point' _) fun _ => ?_) fun t ht => .start h ht
      cases r <;> first | exact .pure' _ | exact modify_retains fun _ => rfl
    · refine onNative_retains (Request.handle_kept h hid fun x hget => ?_)
      simpa [sparesObject, hid, hnative, hget] using hspares

variable {new : Path}

variable {old : Path}

theorem renameNative_retains (hapart : Disk.apart path (f.native.backing old) new) :
    LeadsTo (· = f) (onNative (renameNative old new)) (Retains path o b) := by
  refine onNative_retains ((renameNative_counted old new).spec (fun _ _ t ht => ?_) (fun _ => held h)
    fun _ t ht => ⟨fun _ => ht.2 ▸ h, ht.2 ▸ h⟩)
  obtain ⟨-, d, hd, rfl⟩ := ht
  rw [relocated_disk]
  exact h.rename hd hapart

theorem import_retains
    (hapart : (f.importSource old new).toBool → Disk.apart path (f.native.backing old) new) :
    LeadsTo (· = f) (importNativeRename old new) (Retains path o b) := by
  unfold importNativeRename
  refine .readAt (.checked (fun _ t ht => .start h ht) fun object hsource => .readAt (.readAt ?_))
  have hapart := hapart (by rw [hsource]; rfl)
  refine .bind' (M := fun _ t => Retains path o b t ∧ t.native = f.native) ?_ fun _ => ?_
  · refine (publish_spec _).mono (fun _ t ht => ?_) fun t ht => ?_
    · subst ht
      exact ⟨h, rfl⟩
    · rcases ht with rfl | rfl
      · exact h
      · exact h
  · refine .bind' (M := fun _ => Retains path o b) (.attempt' (.at' fun t ht => onNative_retains ?_)) fun r => ?_
    · rw [ht.2]
      refine (moveNative_ends old new).mono (fun _ m hm => ?_) (held h)
      obtain ⟨d, hd, rfl⟩ := hm
      exact h.rename hd hapart
    · cases r with
      | ok state =>
        exact .bind' (publishForced_retains _) fun _ => modify_retains fun _ => rfl
      | error e => exact Keeps.bind' (Keeps.attempt' (publish_retains _)) fun _ => Keeps.throw' _

omit h in
theorem removeCovered_retains (hne : path ≠ new) (c : NativeRenameCleanup) :
    Keeps (Retains path o b) (removeCovered new c) := by
  have hcleanup : Keeps (Retains path o b) (cleanupRenamedNativeLocked new c) := by
    refine .at' fun t ht => ?_
    have hends : ∀ u, (u = t ∨ (t.stat new = some c ∧ u = t.removed new)) → Retains path o b u := fun u hu => by
      rcases hu with rfl | ⟨-, rfl⟩
      · exact ht
      · exact Disk.Kept.of_eq ht ((get_erase _ _ _).trans (if_neg hne)) rfl (le_refl _)
    exact (cleanup_spec new c).mono (fun _ => hends) hends
  refine .bind' (.attempt' hcleanup) fun r => ?_
  cases r with
  | error _ => exact .pure' _
  | ok _ => exact .bind' (.read' _) fun n => .bind' (.attempt' (publish_retains _)) fun _ => .pure' _

theorem ensure_retains {α : Type} {c : Bool} {e : String} {k : Unit → MountProg α}
    (hk : c → LeadsTo (· = f) (k ()) (Retains path o b)) :
    LeadsTo (· = f) (ensure c e >>= k) (Retains path o b) := by
  cases c with
  | true => exact hk rfl
  | false => exact fun _ t ht => .start h ht

omit h in
theorem coveredBy_spares {c : NativeRenameCleanup} (hcovered : f.coveredBy new = .ok (some c)) :
    f.nativeSnapshotPathLocked new = false := by
  obtain ⟨_, -, hcovered⟩ := of_bind hcovered
  obtain ⟨_, -, hcovered⟩ := of_bind hcovered
  split at hcovered
  · cases hcovered
  · obtain ⟨_, hfree, -⟩ := of_bind hcovered
    have hfree := require_eq_ok.mp hfree
    rw [Bool.not_eq_true', Bool.or_eq_false_iff] at hfree
    exact hfree.2

theorem renameManaged_retains (hsnapshot : f.nativeSnapshotPathLocked path) (id : SessionID) (old new : Path) :
    LeadsTo (· = f) (renameManagedLocked id old new) (Retains path o b) := by
  unfold renameManagedLocked
  refine Spec.readAt (Spec.checked (fun _ t ht => .start h ht) fun cleanup hcovered => Spec.readAt (Spec.readAt ?_))
  have hpublish : Keeps (Retains path o b) (publishRename id old new cleanup) := by
    refine .bind' (.read' _) fun n => .bind' (.onFailure' (publish_retains n) (.point' _)) fun _ => ?_
    cases cleanup with
    | none => exact .pure' _
    | some c =>
      have hne : path ≠ new := fun heq => nomatch (heq ▸ hsnapshot).symm.trans (coveredBy_spares hcovered)
      exact .bind' (modify_retains fun _ => rfl) fun _ => removeCovered_retains hne c
  refine .pre (P := Retains path o b) ?_ fun t ht => .start h ht
  refine Keeps.bind' (Keeps.ensure' _ _) fun _ => Keeps.bind' (Keeps.ensure' _ _) fun _ => Keeps.bind' (Keeps.point' _) fun _ => ?_
  exact .bind' (.ite' hpublish (.pure' _)) fun _ => modify_retains fun _ => rfl

omit h in
theorem renameUnlinked_retains (id : SessionID) (old new : Path) : Keeps (Retains path o b) (renameUnlinked id old new) := by
  refine .bind' (.read' _) fun t => .bind' (.ensure' _ _) fun _ => .bind' (.ensure' _ _) fun _ => ?_
  refine .bind' (.point' _) fun _ => .bind' (.onFailure' (.point' _) (.point' _)) fun _ => ?_
  exact modify_retains fun _ => rfl

theorem rename_retains (hsnapshot : f.nativeSnapshotPathLocked path)
    (hspares : f.sparesObject path o (.rename old new)) :
    LeadsTo (· = f) (rename old new) (Retains path o b) := by
  unfold sparesObject at hspares
  refine ensure_retains h fun hallowed => .ite' (fun _ => .readAt ?_) fun hne => .readAt ?_
  · exact .ensure' _ _ (fun _ t ht => .start h ht) fun t ht => .start h ht
  simp only [hallowed, beq_eq_false_iff_ne.mpr hne, Bool.not_true, Bool.false_or] at hspares
  cases hroute : f.paths.get old with
  | none =>
    refine .readAt (ensure_retains h fun hnative => ?_)
    have hfree : (f.retained.get old).isSome = false := isSome_eq_false_iff.mpr (Bool.and_eq_true_iff.mp hnative).1
    simp only [hroute, hfree, isSome_none, Bool.false_or] at hspares
    refine .ite' (fun himport => import_retains h fun hsource => ?_) fun himport => renameNative_retains h ?_
    · simpa [himport, hsource] using hspares
    · simpa [himport] using hspares
  | some id =>
    refine .readAt (ensure_retains h fun _ => ensure_retains h fun _ => .ite' (fun _ => ?_) fun _ => ?_)
    · exact (renameUnlinked_retains id old new).pre fun t ht => .start h ht
    · exact renameManaged_retains h hsnapshot id old new

omit h in
theorem unlinkManaged_retains (id : SessionID) (p : Path) : Keeps (Retains path o b) (unlinkManaged id p) := by
  have hauthorize : Keeps (Retains path o b) (authorizeUnlink id p) := by
    refine .bind' (.read' _) fun pending => ?_
    cases pending with
    | some other => exact .ensure' _ _
    | none =>
      refine .bind' (.read' _) fun t => .bind' (.ensure' _ _) fun _ => .bind' (.ensure' _ _) fun _ => ?_
      exact .bind' (.point' _) fun _ => modify_retains fun _ => rfl
  have hhide : Keeps (Retains path o b) (hideUnlinked id p) := by
    refine .bind' (.read' _) fun n => .ite' ?_ (.pure' _)
    exact .bind' (publishForced_retains _) fun _ => .pure' _
  refine .bind' hauthorize fun _ => .bind' (modify_retains fun _ => rfl) fun _ => .bind' hhide fun _ => ?_
  exact .bind' (modify_retains fun _ => rfl) fun _ => .point' _

theorem unlink_retains (hspares : f.sparesObject path o (.unlink p)) :
    LeadsTo (· = f) (unlink p) (Retains path o b) := by
  unfold sparesObject at hspares
  refine .readAt ?_
  cases hroute : f.paths.get p with
  | some id => exact (unlinkManaged_retains id p).pre fun t ht => .start h ht
  | none =>
    refine .readAt (ensure_retains h fun hfree => ensure_retains h fun hnative => ?_)
    rw [Bool.not_eq_true'] at hfree
    simp only [hroute, hfree, hnative, isSome_none, Bool.not_true, Bool.false_or] at hspares
    refine .bind' (onNative_retains ?_) fun _ => ?_
    · refine .bind' (.onPart' fun m hm => ?_) fun _ => .modify' _ fun _ hm => hm
      subst hm
      exact change_kept h fun d hd => h.remove hd (bne_iff_ne.mp hspares)
    · refine Keeps.bind' (Keeps.read' _) fun n => Keeps.ite' ?_ (Keeps.pure' _)
      exact .bind' (publishForced_retains _) fun published => .ofExcept' published

theorem mkdir_retains (p : Path) : LeadsTo (· = f) (mkdir p) (Retains path o b) := by
  refine .readAt (ensure_retains h fun _ => ensure_retains h fun _ => ensure_retains h fun _ => ?_)
  refine .bind' (.ite' (fun _ => onNative_retains (.onPart' fun m hm => ?_))
    fun _ => .pure' () fun t ht => .start h ht) fun _ => modify_retains fun _ => rfl
  subst hm
  refine change_kept h fun d hd => ?_
  obtain ⟨-, hd⟩ := of_guard hd
  obtain ⟨-, hd⟩ := of_guard hd
  cases hd
  exact h.of_eq rfl rfl (le_refl _)

theorem rmdir_retains (hspares : f.sparesObject path o (.rmdir p)) :
    LeadsTo (· = f) (rmdir p) (Retains path o b) := by
  unfold sparesObject at hspares
  refine .readAt (ensure_retains h fun hbelow => ensure_retains h fun hroutes => ensure_retains h fun _ => ?_)
  simp only [hbelow, hroutes, Bool.not_true, Bool.false_or] at hspares
  refine .bind' (onNative_retains (.onPart' fun m hm => ?_)) fun _ => modify_retains fun _ => rfl
  subst hm
  exact change_kept h fun d hd => h.remove hd (bne_iff_ne.mp hspares)

end

theorem Operation.retains (jsonValid : Bytes → Bool) (h : f.native.disk.Kept path o b) (hsnapshot : f.nativeSnapshotPathLocked path)
    {op : Operation} (hspares : f.sparesObject path o op) : LeadsTo (· = f) (op.run jsonValid) (Retains path o b) := by
  cases op with
  | opens p flags => exact .bind' (opens_retains h hspares) fun _ => .pure' () fun _ ht => ht
  | onHandle r => exact onHandle_retains jsonValid h hspares
  | truncatePath p size => exact truncatePath_retains h hspares
  | rename old new => exact rename_retains h hsnapshot hspares
  | unlink p => exact unlink_retains h hspares
  | mkdir p => exact mkdir_retains h p
  | rmdir p => exact rmdir_retains h hspares
  | reread id loaded | addSession id p session | upsertSession id p session | moveSession id p | preferNative id
  | removeSession id | hideDeleted id p | retireReplaced id | beginFold p id | endFold prepared => cases hspares

end

end Filesystem

/-! ## Runs -/

def Daemon.spares (id : SessionID) (path : Path) (d : Daemon) : DaemonEvent → Bool
  | .operation op _ =>
    d.fs.sessions.get id == some ⟨some path⟩ && (d.fs.native.disk.files.get path).all fun o => d.fs.sparesObject path o op
  | .restart _ _ => false

theorem Daemon.step_kept (jsonValid : Bytes → Bool) {d d' : Daemon} {id : SessionID} {path : Path} {o : Nat} {b : Bytes}
    {event : DaemonEvent} (h : d.fs.native.disk.Kept path o b) (hspares : d.spares id path event)
    (hstep : d.step jsonValid event = some d') : d'.fs.native.disk.Kept path o b := by
  cases event with
  | restart range faults => cases hspares
  | operation op faults =>
    obtain ⟨hmounted, hop⟩ := Bool.and_eq_true_iff.mp hspares
    rw [h.file] at hop
    have hsnapshot : d.fs.nativeSnapshotPathLocked path = true :=
      List.any_eq_true.mpr ⟨(id, ⟨some path⟩), d.fs.sessions.get_eq_some_iff.mp (beq_iff_eq.mp hmounted), beq_self_eq_true _⟩
    have hend := (Filesystem.Operation.retains jsonValid h hsnapshot hop).state faults rfl
    unfold Daemon.step at hstep
    cases hup : d.up with
    | false => simp [hup] at hstep
    | true =>
      simp only [hup, if_true] at hstep
      match hresult : op.run jsonValid faults d.fs with
      | (.done _, _, _) | (.failed _, _, _) | (.crashed, _, _) =>
        simp only [hresult] at hstep hend
        cases hstep
        exact hend

/-- While the session is mounted, calls that leave its snapshot alone keep the file and its
    bytes, whatever becomes of them. -/
theorem snapshot_survives (jsonValid : Bytes → Bool) {s s' : Daemon} {events : List DaemonEvent} {id : SessionID} {path : Path} {o : Nat}
    (hsound : s.fs.native.disk.Sound) (hfile : s.fs.native.disk.files.get path = some o)
    (hspares : Along (Daemon.step jsonValid) (fun t event => t.spares id path event = true) s events)
    (hrun : runFrom (Daemon.step jsonValid) s events = some s') :
    s'.fs.native.disk.files.get path = some o ∧ s'.fs.native.disk.contents o = s.fs.native.disk.contents o := by
  have hstart : s.fs.native.disk.Kept path o (s.fs.native.disk.contents o) := ⟨hfile, rfl, hsound.numbered path o hfile⟩
  have hend := Along.invariant (fun _ _ _ => Daemon.step_kept jsonValid) events hstart hspares hrun
  exact ⟨hend.file, hend.bytes⟩

def snapshotSample : Daemon :=
  ⟨{ Filesystem.sample with
    sessions := Files.empty.set ['s'] ⟨some (Filesystem.sessionFile 'a')⟩
    retained := Files.empty.set (Filesystem.sessionFile 'a') ['s'] }, true⟩

def sparingRun : List DaemonEvent :=
  [.operation (.opens (Filesystem.sessionFile 'c') ⟨.readWrite, true, false, false, false⟩) [],
    .operation (.onHandle (.write 1 [50, 10] 0)) [], .operation (.onHandle (.release 1)) [],
    .operation (.rename (Filesystem.sessionFile 'b') (Filesystem.sessionFile 'c')) [.ok, .fail],
    .operation (.rename (Filesystem.sessionFile 'b') (Filesystem.sessionFile 'c')) [],
    .operation (.unlink (Filesystem.sessionFile 'a')) [], .operation (.truncatePath (Filesystem.sessionFile 'a') 0) []]

theorem snapshot_survives_sparing : ∃ s', runFrom (Daemon.step digits) snapshotSample sparingRun = some s' ∧
    s'.fs.paths.get (Filesystem.sessionFile 'c') = some ['s'] ∧
    s'.fs.native.disk.files.get (Filesystem.sessionFile 'a') = some 0 ∧ s'.fs.native.disk.contents 0 = [49] := by
  have hrun : ∃ s', runFrom (Daemon.step digits) snapshotSample sparingRun = some s' ∧
      s'.fs.paths.get (Filesystem.sessionFile 'c') = some ['s'] :=
    ⟨(runFrom (Daemon.step digits) snapshotSample sparingRun).get (by decide +kernel), (some_get _).symm, by decide +kernel⟩
  obtain ⟨s', hrun, hrenamed⟩ := hrun
  exact ⟨s', hrun, hrenamed, @snapshot_survives digits snapshotSample s' sparingRun ['s'] (Filesystem.sessionFile 'a') 0 sample_sound
    (by decide) (by decide +kernel) hrun⟩

def replacingRun : List DaemonEvent :=
  [.operation (.opens (Filesystem.sessionFile 'c') ⟨.readWrite, true, false, false, false⟩) [],
    .operation (.rename (Filesystem.sessionFile 'c') (Filesystem.sessionFile 'a')) []]

/-- The session is still mounted, and its snapshot is another, empty file. -/
theorem snapshot_replaced : ∃ s', runFrom (Daemon.step digits) snapshotSample replacingRun = some s' ∧ s'.up = true ∧
    s'.fs.sessions.get ['s'] = some ⟨some (Filesystem.sessionFile 'a')⟩ ∧
    snapshotSample.fs.native.disk.files.get (Filesystem.sessionFile 'a') = some 0 ∧
    s'.fs.native.disk.files.get (Filesystem.sessionFile 'a') = some 1 ∧ s'.fs.native.disk.contents 1 = [] :=
  ⟨(runFrom (Daemon.step digits) snapshotSample replacingRun).get (by decide +kernel), (some_get _).symm, by decide +kernel,
    by decide +kernel, by decide +kernel, by decide +kernel, by decide +kernel⟩

end CodexFold.Mount
