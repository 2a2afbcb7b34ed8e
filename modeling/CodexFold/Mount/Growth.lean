import CodexFold.Mount.Requests
import CodexFold.Mount.Server

/- A native file that only grows.

   While complete records are staged at the end of the file, the pending bytes are one
   segment behind it, and what the mount shows is the file followed by them. A commit puts
   them into the file and changes nothing that is shown. -/
namespace CodexFold.Mount
open Foundation List Function

def pendingSegments (offset : Nat) (pending : Bytes) : List Segment :=
  if pending.isEmpty then [] else [⟨offset, pending⟩]

def growingState (path : Path) (file pending : Bytes) : NativeAppendState :=
  ⟨path, file.length, file.length + pending.length, pendingSegments file.length pending⟩

theorem growingState_nil (path : Path) (file : Bytes) : growingState path file [] = ⟨path, file.length, file.length, []⟩ := rfl

theorem growingState_of_ne (path : Path) (file : Bytes) {pending : Bytes} (h : pending ≠ []) :
    growingState path file pending = ⟨path, file.length, file.length + pending.length, [⟨file.length, pending⟩]⟩ := by
  unfold growingState pendingSegments
  rw [isEmpty_eq_false_iff.mpr h]
  rfl

section
variable {path : Path} {file pending : Bytes}

theorem leading_growing : (growingState path file pending).leading = pending := by
  by_cases h : pending = []
  · subst h
    rfl
  · rw [growingState_of_ne path file h]
    exact if_neg (lt_irrefl _)

theorem spread_growing : Spread (growingState path file pending).segments ∧
    ∀ e ∈ (growingState path file pending).segments, file.length ≤ e.offset := by
  by_cases h : pending = []
  · subst h
    exact ⟨Pairwise.nil, fun e he => nomatch he⟩
  · rw [growingState_of_ne path file h]
    exact ⟨pairwise_singleton _ _, fun e he => by rw [mem_singleton.mp he]⟩

theorem visibleSize_growing :
    (growingState path file pending).visibleSizeForBacking file.length = file.length + pending.length := by
  unfold NativeAppendState.visibleSizeForBacking
  by_cases h : pending = []
  · subst h
    rfl
  · rw [contiguousEnd_eq spread_growing.1 spread_growing.2, leading_growing, growingState_of_ne path file h]
    rfl

theorem readAt_growing (offset size : Nat) :
    (growingState path file pending).readAt file offset size = ((file ++ pending).drop offset).take size := by
  rw [readAt_eq spread_growing.1 spread_growing.2 rfl, leading_growing]

/-! ## Staging and committing -/

variable {data : Bytes}

theorem overlap_growing : (growingState path file pending).overlap data (file.length + pending.length) = 0 := by
  unfold NativeAppendState.overlap
  rw [show (growingState path file pending).baseSize = file.length from rfl]
  omega

theorem stageLocked_growing (hdata : data ≠ []) (hroom : pending.length + data.length ≤ maxNativeAppendPendingBytes) :
    (growingState path file pending).stageLocked [] data (file.length + pending.length) =
      .ok (growingState path file (pending ++ data)) := by
  have hne : pending ++ data ≠ [] := append_ne_nil_of_right_ne_nil _ hdata
  have hlimit : file.length + pending.length + data.length - file.length ≤ maxNativeAppendPendingBytes := by omega
  have hsegments : stageSegmentLocked (growingState path file pending).segments (file.length + pending.length) data =
      .ok [⟨file.length, pending ++ data⟩] := by
    by_cases h : pending = []
    · subst h
      simp [stageSegmentLocked, growingState_nil, normalizeFrom]
    · rw [growingState_of_ne path file h]
      simp [stageSegmentLocked, normalizeFrom, Extent.finish, Extent.extend]
  unfold NativeAppendState.stageLocked
  rw [overlap_growing, take_zero, drop_zero, Nat.add_zero, hsegments, growingState_of_ne path file hne]
  simp only [growingState, isEmpty_eq_false_iff.mpr hdata, hlimit, decide_true, require, beq_self_eq_true, if_true]
  simp only [Bool.false_eq_true, if_false, length_append]
  rw [show max (file.length + pending.length) (file.length + pending.length + data.length) =
    file.length + (pending.length + data.length) by omega]
  rfl

theorem ready_growing (hlimited : pending.length ≤ maxNativeAppendPendingBytes) :
    Ready (growingState path file pending) file := by
  by_cases h : pending = []
  · subst h
    exact Ready.of_idle rfl rfl rfl
  · rw [growingState_of_ne path file h]
    refine ⟨rfl, pairwise_singleton _ _, fun e he => ?_, Nat.le_add_right .., ?_, nofun⟩
    · rw [mem_singleton.mp he]
      exact ⟨le_refl _, le_refl _⟩
    · show file.length + pending.length - file.length ≤ _
      omega

theorem stageLocked_refused (hroom : maxNativeAppendPendingBytes < pending.length + data.length) (hdata : data ≠ []) :
    (growingState path file pending).stageLocked [] data (file.length + pending.length) =
      .error "native append transaction exceeds the pending byte limit" := by
  have hlimit : ¬file.length + pending.length + data.length - file.length ≤ maxNativeAppendPendingBytes := by omega
  unfold NativeAppendState.stageLocked
  rw [overlap_growing, take_zero, drop_zero]
  simp only [growingState, isEmpty_eq_false_iff.mpr hdata, hlimit, decide_false, require, beq_self_eq_true, if_true,
    Bool.false_eq_true, if_false]
  rfl

theorem stage_growing {d : Disk} (hdata : data ≠ []) :
    Concludes (stage data (file ++ pending).length) ⟨growingState path file pending, d⟩
      (fun _ t => t = ⟨growingState path file (pending ++ data), d⟩ ∧ (pending ++ data).length ≤ maxNativeAppendPendingBytes)
      (fun _ t => t = ⟨growingState path file pending, d⟩ ∨
        t = ⟨growingState path file [], d⟩ ∧ maxNativeAppendPendingBytes < pending.length + data.length) := by
  refine .ensure' (fun _ => ?_) fun _ => .inl rfl
  rw [isEmpty_eq_false_iff.mpr hdata, if_neg (by decide)]
  refine .ensure' (fun _ => .read' ?_) fun _ => .inl rfl
  have hbehind : ¬(file ++ pending).length < (growingState path file pending).baseSize := by
    rw [length_append]
    exact Nat.not_lt.mpr (Nat.le_add_right ..)
  rw [Int.toNat_natCast]
  unfold readCommitted
  dsimp only
  rw [if_neg hbehind]
  refine .after (.onPart' (.pure' _ _)) ?_
  rw [length_append]
  by_cases hfits : pending.length + data.length ≤ maxNativeAppendPendingBytes
  · rw [stageLocked_growing hdata hfits]
    exact .modify' (.pure' ⟨rfl, by rw [length_append]; exact hfits⟩)
  · rw [stageLocked_refused (Nat.not_le.mp hfits) hdata]
    exact .modify' (.throw' (.inr ⟨rfl, Nat.not_le.mp hfits⟩))

theorem assembleLocked_growing (hlimited : pending.length ≤ maxNativeAppendPendingBytes) :
    (growingState path file pending).assembleLocked = .ok pending := by
  rw [assembleLocked_leading (ready_growing hlimited) (by rw [leading_growing]; rfl), leading_growing]

theorem commit_growing {jsonValid : Bytes → Bool} (strict : Bool) {d : Disk} {o : Nat} (hnamed : d.files.get path = some o)
    (hcontents : d.contents o = file) (hlimited : pending.length ≤ maxNativeAppendPendingBytes)
    (hcomplete : pending = [] ∨ completeJSONL jsonValid pending) :
    ∃ d', Runs (commit jsonValid strict) ⟨growingState path file pending, d⟩ () ⟨growingState path (file ++ pending) [], d'⟩ ∧
      d'.files = d.files ∧ d'.contents o = file ++ pending := by
  subst hcontents
  by_cases h : pending = []
  · subst h
    have husable : Usable ⟨growingState path (d.contents o) [], d⟩ o := ⟨hnamed, ready_growing hlimited⟩
    refine ⟨d, ?_, rfl, (append_nil _).symm⟩
    rw [append_nil]
    exact commit_runs_idle husable jsonValid strict rfl
  have hcomplete := hcomplete.resolve_left h
  have hline := complete_getLast hcomplete
  obtain ⟨d', hcommit, hd'⟩ := commitNativeAppend_runs pending hnamed
  have hsegments : (growingState path (d.contents o) pending).segments.isEmpty = false := by
    rw [growingState_of_ne path _ h]
    rfl
  have hcontents : d'.contents o = d.contents o ++ pending := by
    rw [Disk.durable_contents hd']
    exact Disk.setContents_self ..
  refine ⟨d', ?_, (Disk.durable_files hd').trans rfl, hcontents⟩
  refine .bind' (.read' _ _) ?_
  rw [hsegments, assembleLocked_growing hlimited]
  dsimp only
  rw [if_neg (by decide)]
  unfold commitTail
  rw [if_neg (by simp [hline]), if_neg (by simp [hcomplete, utf8Valid_of_complete hcomplete])]
  refine .bind' (.onFailure' (.onPart' hcommit)) ?_
  unfold Runs
  simp only [setSize, clearPending, Prog.bind_apply, Prog.modify_apply]
  congr 2
  rw [growingState_nil]
  simp [growingState, NativeAppendState.resized, NativeAppendState.clearPendingLocked]

end

/-! ## The mount -/

structure Growing (m : Native) (path : Path) (k o : Nat) (file pending : Bytes) : Prop where
  known : m.nativeAppends.get path = some k
  named : m.disk.files.get path = some o
  contents : m.disk.contents o = file
  state : m.states k = growingState path file pending
  limited : pending.length ≤ maxNativeAppendPendingBytes

def Native.Stages (m : Native) (id : Nat) (path : Path) (k o : Nat) : Prop :=
  ∃ h, m.handles.get id = some h ∧ h.path = path ∧ h.object = o ∧ h.state = k ∧ h.append = true

theorem Native.Stages.of_handles {m t : Native} {id : Nat} {path : Path} {k o : Nat} (h : m.Stages id path k o)
    (ht : t.handles = m.handles) : t.Stages id path k o := by
  unfold Native.Stages
  rw [ht]
  exact h

section
variable {m : Native} {path : Path} {k o id : Nat} {file pending : Bytes}
variable {flags : OpenFlags}

theorem handle_runs {h : Handle} (hget : m.handles.get id = some h) : Runs (handle id) m h m := by
  refine .bind' (.read' _ m) ?_
  rw [hget]
  exact .pure' h m

section

variable (hm : Growing m path k o file pending)
include hm

theorem getattrNative_runs (hid : m.Stages id path k o) : Runs (getattrNative id) m (file ++ pending).length m := by
  obtain ⟨h, hget, rfl, -, -, -⟩ := hid
  refine .bind' (handle_runs hget) (.bind' (.point' _ m) (.bind' (.read' _ m)
    (.bind' (.ofExcept' m (Disk.lookup_eq_ok.mpr hm.named)) ?_)))
  simp only [hm.known, hm.contents, hm.state, visibleSize_growing, length_append]
  by_cases hzero : file.length + pending.length = 0
  · rw [if_pos hzero, hzero, show file.length = 0 by omega]
    exact .pure' _ m
  · rw [if_neg hzero]
    exact .pure' _ m

theorem readNative_concludes (hid : m.Stages id path k o) (readable : Bool) (offset length : Nat) :
    Concludes (readNative readable id offset length) m
      (fun b t => t = m ∧ b = ((file ++ pending).drop offset).take length) (fun _ t => t = m) := by
  obtain ⟨h, hget, -, hobject, hstate, -⟩ := hid
  refine .after (handle_runs hget) (.point' (.read' (.ensure' (fun _ => .pure' ⟨rfl, ?_⟩) fun _ => rfl)))
  rw [hstate, hobject, hm.state, hm.contents, readAt_growing]

theorem Growing.putState {file' pending' : Bytes} {d : Disk} (hnamed : d.files.get path = some o)
    (hcontents : d.contents o = file') (hlimited : pending'.length ≤ maxNativeAppendPendingBytes) :
    Growing (m.putState k ⟨growingState path file' pending', d⟩) path k o file' pending' where
  known := hm.known
  named := hnamed
  contents := hcontents
  state := update_self ..
  limited := hlimited

end

def Native.room (m : Native) (id : Nat) (data : Bytes) : Bool :=
  (m.handles.get id).all fun h => (m.states h.state).segments.isEmpty ||
    (m.states h.state).visibleEnd - (m.states h.state).baseSize + data.length ≤ maxNativeAppendPendingBytes

theorem Growing.room {data : Bytes} (hm : Growing m path k o file pending) (hid : m.Stages id path k o)
    (hroom : m.room id data) : pending = [] ∨ pending.length + data.length ≤ maxNativeAppendPendingBytes := by
  obtain ⟨h, hget, -, -, rfl, -⟩ := hid
  unfold Native.room at hroom
  rw [hget, Option.all_some, hm.state] at hroom
  by_cases hnil : pending = []
  · exact .inl hnil
  · rw [growingState_of_ne path file hnil] at hroom
    refine .inr ?_
    have hle : file.length + pending.length - file.length + data.length ≤ maxNativeAppendPendingBytes := by simpa using hroom
    omega

theorem write_growing {data : Bytes} (hm : Growing m path k o file pending) (hid : m.Stages id path k o) (hdata : data ≠ []) :
    Concludes (write id data (file ++ pending).length) m
      (fun _ t => Growing t path k o file (pending ++ data) ∧ t.handles = m.handles ∧ t.next = m.next ∧ t.disk = m.disk)
      (fun _ t => t.handles = m.handles ∧ t.next = m.next ∧ t.disk = m.disk ∧ (Growing t path k o file pending ∨
        Growing t path k o file [] ∧ maxNativeAppendPendingBytes < pending.length + data.length)) := by
  obtain ⟨h, hget, -, -, rfl, happend⟩ := hid
  refine .after (handle_runs hget) ?_
  rw [if_pos happend]
  have hstage : Concludes (stage data (file ++ pending).length) ⟨growingState path file pending, m.disk⟩ _ _ :=
    stage_growing hdata
  rw [← hm.state] at hstage
  refine .onPart' (hstage.mono ?_ ?_)
  · rintro _ a ⟨rfl, hlimited⟩
    exact ⟨hm.putState hm.named hm.contents hlimited, rfl, rfl, rfl⟩
  · rintro _ a (rfl | ⟨rfl, hlimit⟩)
    · rw [hm.state]
      exact ⟨rfl, rfl, rfl, .inl (hm.putState hm.named hm.contents hm.limited)⟩
    · exact ⟨rfl, rfl, rfl, .inr ⟨hm.putState hm.named hm.contents (Nat.zero_le _), hlimit⟩⟩

/-! ## Opening -/

def Native.visible (m : Native) (path : Path) : Bytes :=
  match m.disk.files.get path with
  | none => []
  | some o =>
    match m.nativeAppends.get path with
    | none => m.disk.contents o
    | some k => (m.states k).readAt (m.disk.contents o) 0 ((m.states k).visibleSizeForBacking (m.disk.contents o).length)

theorem Growing.visible (hm : Growing m path k o file pending) : m.visible path = file ++ pending := by
  unfold Native.visible
  rw [hm.named, hm.known]
  dsimp only
  rw [hm.state, hm.contents, visibleSize_growing, readAt_growing, drop_zero, ← length_append, take_length]

def Native.Idle (m : Native) (path : Path) : Prop :=
  ∀ k, m.nativeAppends.get path = some k → (m.states k).path = path ∧ (m.states k).segments = []

theorem Growing.idle (hm : Growing m path k o file []) : m.Idle path := by
  intro k' hk'
  rw [hm.known] at hk'
  cases hk'
  rw [hm.state]
  exact ⟨rfl, rfl⟩

theorem load_idle (hidle : m.Idle path) (hnamed : m.disk.files.get path = some o) :
    ∃ k t, Runs (loadNativeAppendState path) m k t ∧ Growing t path k o (m.disk.contents o) [] ∧ t.handles = m.handles ∧
      t.next = m.next ∧ t.disk = m.disk := by
  cases hknown : m.nativeAppends.get path with
  | some k =>
    obtain ⟨hpath, hsegments⟩ := hidle k hknown
    have hrefresh : Runs refreshIfIdle (m.getState k) () ⟨growingState path (m.disk.contents o) [], m.disk⟩ := by
      refine .bind' (.read' _ _) ?_
      rw [if_neg (by simp [Native.getState, hsegments])]
      have hopen : Runs (openPath (m.getState k).state.path) m.disk o m.disk := openPath_runs (hpath.symm ▸ hnamed)
      refine .bind' (.onPart' hopen) (.bind' (.read' _ _) ?_)
      unfold Runs setSize
      rw [Prog.modify_apply, growingState_nil]
      simp only [NativeAppendState.resized, Native.getState, hpath, hsegments]
    refine ⟨k, m.putState k ⟨growingState path (m.disk.contents o) [], m.disk⟩, ?_, ?_, rfl, rfl, rfl⟩
    · refine .bind' (.read' _ m) ?_
      rw [hknown]
      exact .bind' (.onPart' hrefresh) (.pure' k _)
    · exact ⟨hknown, hnamed, rfl, update_self .., Nat.zero_le _⟩
  | none =>
    refine ⟨m.nextState, { m with
      states := update m.states m.nextState (growingState path (m.disk.contents o) [])
      nativeAppends := m.nativeAppends.set path m.nextState
      nextState := m.nextState + 1 }, ?_, ?_, rfl, rfl, rfl⟩
    · refine .bind' (.read' _ m) ?_
      rw [hknown]
      exact .bind' (.onPart' (openPath_runs hnamed)) (.bind' (.read' _ _) (.bind' (.read' _ _) rfl))
    · exact ⟨get_set_self .., hnamed, rfl, update_self .., Nat.zero_le _⟩

theorem load_growing (hm : Growing m path k o file pending) : Runs (loadNativeAppendState path) m k m := by
  have hrefresh : Runs refreshIfIdle (m.getState k) () (m.getState k) := by
    refine .bind' (.read' _ _) ?_
    by_cases hnil : pending = []
    · subst hnil
      have hget : m.getState k = ⟨growingState path file [], m.disk⟩ := by rw [← hm.state]; rfl
      rw [hget, if_neg (by simp [growingState_nil])]
      refine .bind' (.onPart' (openPath_runs hm.named)) (.bind' (.read' _ _) ?_)
      unfold Runs setSize
      rw [Prog.modify_apply, hm.contents]
      rfl
    · rw [if_pos (by rw [show (m.getState k).state = _ from hm.state, growingState_of_ne path file hnil]; rfl)]
      exact .pure' _ _
  refine .bind' (.read' _ m) ?_
  rw [hm.known]
  refine .bind' (.onPart' hrefresh) ?_
  rw [putState_getState]
  exact .pure' k m

theorem truncateOpened_growing (hm : Growing m path k o file []) (flags : OpenFlags) :
    ∃ t, Runs (truncateOpened k flags) m () t ∧ t.handles = m.handles ∧ t.next = m.next ∧
      t.disk.journals = m.disk.journals ∧ Growing t path k o (if flags.writable && flags.trunc then [] else file) [] := by
  unfold truncateOpened
  by_cases hflags : (flags.writable && flags.trunc) = true
  · rw [if_pos hflags, if_pos hflags]
    have htruncate : Runs (truncate 0) (m.getState k) ()
        ⟨growingState path [] [], m.disk.setContents o (resize 0 (m.disk.contents o) 0)⟩ := by
      have hget : m.getState k = ⟨growingState path file [], m.disk⟩ := by rw [← hm.state]; rfl
      have hnamed : (m.disk.setContents o (resize 0 (m.disk.contents o) 0)).files.get path = some o := hm.named
      rw [hget]
      refine .bind' (.pure' _ _) (.bind' (.read' _ _) (.bind' (.pure' _ _) ?_))
      refine .bind' (.onPart' (.bind' (openPath_runs hm.named) (.effect' _ _ _))) ?_
      refine .bind' (.onPart' (.bind' (openPath_runs hnamed) (.bind' (.point' _ _) (.point' _ _)))) ?_
      rfl
    have hcut : resize 0 (m.disk.contents o) 0 = [] := by simp [resize]
    exact ⟨_, .onPart' htruncate, rfl, rfl, rfl, hm.putState hm.named ((Disk.setContents_self ..).trans hcut) (Nat.zero_le _)⟩
  · rw [if_neg hflags, if_neg hflags]
    exact ⟨m, .pure' _ m, rfl, rfl, rfl, hm⟩

def stagingHandle (path : Path) (k o : Nat) : Handle := ⟨path, o, true, k, true⟩

theorem openNative_idle (hwritable : flags.writable) (hpath : nativeTransactionPath path)
    (hidle : m.Idle path) : Concludes (openNative path flags) m
      (fun id t => id = m.next ∧ ∃ k o file, Growing t path k o file [] ∧ t.handles = m.handles.set id (stagingHandle path k o) ∧
        t.next = m.next + 1 ∧ t.disk.journals = m.disk.journals ∧
        (flags.trunc = false → ∀ o, m.disk.files.get path = some o → file = m.disk.contents o)) fun _ _ => True := by
  refine .bind' (M := fun o t => ∃ d, t = { m with disk := d } ∧ d.files.get path = some o ∧
      d.journals = m.disk.journals ∧ ∀ o, m.disk.files.get path = some o → d.contents o = m.disk.contents o ∧ d.files.get path = some o)
    (F := fun _ _ => True) ?_ ?_ fun _ _ _ => trivial
  · refine .read' ?_
    cases hopen : m.disk.openNativeBacking path flags.create flags.excl with
    | error e => exact .throw' trivial
    | ok r =>
      obtain ⟨o, d⟩ := r
      refine .after (.ofExcept' m rfl) (.effect' (.pure' ⟨d, rfl, ?_⟩))
      rcases openNativeBacking_cases hopen with ⟨hfile, rfl⟩ | ⟨hnone, -, rfl, rfl⟩
      · exact ⟨hfile, rfl, fun _ h => ⟨rfl, h⟩⟩
      · refine ⟨get_set_self .., rfl, fun o h => ?_⟩
        rw [hnone] at h
        cases h
  · rintro o _ ⟨d, rfl, hnamed, hjournals, hkept⟩
    obtain ⟨k, u, hload, hu, hhandles, hnext, hdisk⟩ := load_idle (m := { m with disk := d }) hidle hnamed
    obtain ⟨t, htruncate, hhandles', hnext', hjournals', ht⟩ := truncateOpened_growing hu flags
    refine .after hload (.after htruncate (.read' (.modify' (.pure' ?_))))
    rw [hnext'.trans hnext, hhandles'.trans hhandles]
    refine ⟨rfl, k, o, _, { ht with }, ?_, rfl, ?_, ?_⟩
    · rw [hwritable, hpath]
      rfl
    · exact (hjournals'.trans (congrArg Disk.journals hdisk)).trans hjournals
    · intro htrunc o' ho'
      obtain ⟨hcontents, hnamed'⟩ := hkept o' ho'
      rw [hnamed] at hnamed'
      cases hnamed'
      rw [htrunc, Bool.and_false]
      exact hcontents

abbrev Native.OpensStaging (m : Native) (path : Path) (flags : OpenFlags) (k o : Nat) (file pending : Bytes) : Prop :=
  ∃ t, Runs (openNative path flags) m m.next t ∧ Growing t path k o file pending ∧
    t.handles = m.handles.set m.next (stagingHandle path k o) ∧ t.next = m.next + 1

section

variable (hwritable : flags.writable) (hpath : nativeTransactionPath path) (htrunc : flags.trunc = false)
  (hexcl : (flags.create && flags.excl) = false)
include hwritable hpath htrunc hexcl

theorem openNative_loaded {u : Native} (hload : Runs (loadNativeAppendState path) m k u)
    (hu : Growing u path k o file pending) (hdisk : u.disk = m.disk) (hhandles : u.handles = m.handles)
    (hnext : u.next = m.next) : m.OpensStaging path flags k o file pending := by
  have hopen : m.disk.openNativeBacking path flags.create flags.excl = .ok (o, m.disk) := by
    unfold Disk.openNativeBacking
    rw [← hdisk, hu.named]
    dsimp only
    rw [hexcl]
    rfl
  have hbacking : Runs (openBacking path flags) m o m := by
    refine .bind' (.read' _ m) ?_
    rw [hopen]
    exact .bind' (.ofExcept' m rfl) (.bind' (.effect' _ _ m) (.pure' o m))
  have htruncate : Runs (truncateOpened k flags) u () u := by
    unfold truncateOpened
    rw [htrunc, Bool.and_false]
    exact .pure' () u
  refine ⟨{ u with handles := u.handles.set u.next (stagingHandle path k o), next := u.next + 1 }, ?_,
    { hu with }, by rw [hhandles, hnext], by rw [hnext]⟩
  refine .bind' hbacking (.bind' hload (.bind' htruncate (.bind' (.read' _ u) ?_)))
  rw [hwritable, hpath, ← hnext]
  rfl

theorem openNative_growing (hm : Growing m path k o file pending) : m.OpensStaging path flags k o file pending :=
  openNative_loaded hwritable hpath htrunc hexcl (load_growing hm) hm rfl rfl rfl

theorem openNative_named (hidle : m.Idle path) (hnamed : m.disk.files.get path = some o) :
    ∃ k, m.OpensStaging path flags k o (m.disk.contents o) [] := by
  obtain ⟨k, u, hload, hu, hhandles, hnext, hdisk⟩ := load_idle hidle hnamed
  exact ⟨k, openNative_loaded hwritable hpath htrunc hexcl hload hu hdisk hhandles hnext⟩

end

/-! ## Flushing and closing -/

section
variable {jsonValid : Bytes → Bool}

theorem commitStaged_growing (strict : Bool) (hm : Growing m path k o file pending)
    (hcomplete : pending = [] ∨ completeJSONL jsonValid pending) {h : Handle} (hstate : h.state = k)
    (happend : h.append) : ∃ t, Runs (commitStaged jsonValid h strict) m () t ∧
      Growing t path k o (file ++ pending) [] ∧ t.handles = m.handles ∧ t.next = m.next := by
  obtain ⟨d, hcommit, hfiles, hcontents⟩ := commit_growing strict hm.named hm.contents hm.limited hcomplete
  rw [← hm.state] at hcommit
  refine ⟨m.putState k ⟨growingState path (file ++ pending) [], d⟩, ?_, ?_, rfl, rfl⟩
  · unfold commitStaged
    rw [if_pos happend, hstate]
    exact .onPart' hcommit
  · refine hm.putState ?_ hcontents (Nat.zero_le _)
    rw [hfiles]
    exact hm.named

section

variable (hm : Growing m path k o file pending)
include hm

theorem flush_growing (hid : m.Stages id path k o) (hcomplete : pending = [] ∨ completeJSONL jsonValid pending) :
    ∃ t, Runs (flush jsonValid id) m () t ∧ Growing t path k o (file ++ pending) [] ∧ t.handles = m.handles ∧
      t.next = m.next := by
  obtain ⟨h, hget, -, -, hstate, happend⟩ := hid
  obtain ⟨t, hcommit, ht⟩ := commitStaged_growing (m.nativeAppendIsLastWriter id h.state) hm hcomplete hstate happend
  exact ⟨t, .bind' (handle_runs hget) (.bind' (.read' _ m) hcommit), ht⟩

theorem release_growing (hid : m.Stages id path k o) (hcomplete : pending = [] ∨ completeJSONL jsonValid pending) :
    ∃ t, Runs (release jsonValid id) m () t ∧ Growing t path k o (file ++ pending) [] ∧ t.handles = m.handles.erase id ∧
      t.next = m.next := by
  obtain ⟨h, hget, -, -, hstate, happend⟩ := hid
  have herased : Growing { m with handles := m.handles.erase id } path k o file pending :=
    { hm with }
  obtain ⟨t, hcommit, ht⟩ := commitStaged_growing (m.nativeAppendIsLastWriter id h.state) herased hcomplete hstate happend
  refine ⟨t, ?_, ht⟩
  refine .bind' (handle_runs hget) (.bind' (.read' _ m) (.bind' (show Runs (modify _) m () _ from rfl)
    (.bind' (.attempt' hcommit) (.bind' (.point' _ t) (.ofExcept' t rfl)))))

end

end

end

end CodexFold.Mount
