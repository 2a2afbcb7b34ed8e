import CodexFold.Mount.Refusals

/- Which file the bytes of a handle get into.

   A handle keeps the object it opened, but what it stages is committed to the file that
   has the path of its append state then. Beside the mount is kept for every append state
   which objects the handles have opened through which its pending bytes were staged. They
   are one object, the one at the path, as long as no rename and no creation puts another
   file at a path that an open handle stages for. -/
namespace CodexFold.Mount
open Foundation List Option Function

structure Attributed where
  native : Native
  origins : Nat → List Nat

variable (m : Native)

def Request.stagesIn (k : Nat) : Request → List Nat
  | .write id data _ =>
    match m.handles.get id with
    | some h => if h.append && h.state == k && !data.isEmpty then [h.object] else []
    | none => []
  | _ => []

def Attributed.after (l : Attributed) (r : Request) (succeeded : Bool) (t : Native) : Attributed :=
  ⟨t, fun k => if (t.states k).segments.isEmpty then []
    else (if succeeded then r.stagesIn l.native k else []) ++ l.origins k⟩

def Attributed.step (jsonValid : Bytes → Bool) (l : Attributed) (e : Request × List Fault) : Option Attributed :=
  match e.1.run jsonValid e.2 l.native with
  | (.done _, t, _) => some (l.after e.1 true t)
  | (.failed _, t, _) => some (l.after e.1 false t)
  | (.crashed, _, _) => none

def Request.sources (l : Attributed) (r : Request) : List Nat :=
  match r with
  | .write id _ _ =>
    match l.native.handles.get id with
    | some h => if h.append then [] else [h.object]
    | none => []
  | r =>
    match r.commitsThrough.bind l.native.handles.get with
    | some h => if h.append then l.origins h.state else []
    | none => []

def Steady : Request → Prop
  | .opens path flags => nativeName path = true → flags.create = true → m.disk.files.get path = none →
    ∀ id h, m.handles.get id = some h → h.append = true → (m.states h.state).path ≠ path
  | .rename managedTarget old new => renameAllowed old new = true → old ≠ new →
    (managedTarget && ((m.disk.files.get old).isNone || m.nativePathBusyLocked new)) = false →
    ∀ id h, m.handles.get id = some h → h.append = true → ∀ rest o, (m.states h.state).path = new ++ rest →
      m.disk.files.get (old ++ rest) = some o → o = h.object
  | _ => True

abbrev Native.SteadyRename (old new : Path) : Prop :=
  ∀ id x, m.handles.get id = some x → x.append → ∀ rest o, (m.states x.state).path = new ++ rest →
    m.disk.files.get (old ++ rest) = some o → o = x.object

structure Tied (m : Native) (origins : Nat → List Nat) : Prop where
  keyed : ∀ path k, m.nativeAppends.get path = some k → (m.states k).path = path ∧ k < m.nextState
  numbered : ∀ id h, m.handles.get id = some h → id < m.next ∧ h.state < m.nextState
  opened : ∀ id h, m.handles.get id = some h → h.append = true → ∀ o,
    m.disk.files.get (m.states h.state).path = some o → o = h.object
  agree : ∀ id id' h h', m.handles.get id = some h → m.handles.get id' = some h' → h.append = true → h'.append = true →
    h.state = h'.state → h.object = h'.object
  staged : ∀ k o, o ∈ origins k → ∃ id h, m.handles.get id = some h ∧ h.append = true ∧ h.state = k ∧ h.object = o

section
variable {jsonValid : Bytes → Bool} {m t : Native} {origins : Nat → List Nat}
variable {k : Nat}

section

variable (h : Tied m origins)
include h

theorem Tied.fewer {origins' : Nat → List Nat} (hsub : ∀ k o, o ∈ origins' k → o ∈ origins k) : Tied m origins' :=
  { h with staged := fun k o ho => h.staged k o (hsub k o ho) }

theorem Tied.of_files (hnext : t.next = m.next) (hnextState : t.nextState = m.nextState)
    (hhandles : t.handles = m.handles)
    (happends : ∀ path k, t.nativeAppends.get path = some k → m.nativeAppends.get path = some k)
    (hpaths : ∀ k, (t.states k).path = (m.states k).path)
    (hfiles : ∀ p o, t.disk.files.get p = some o → m.disk.files.get p = some o) : Tied t origins where
  keyed path k hget := by
    rw [hpaths, hnextState]
    exact h.keyed path k (happends path k hget)
  numbered id x hget := by
    rw [hhandles] at hget
    rw [hnext, hnextState]
    exact h.numbered id x hget
  opened id x hget happend o ho := by
    rw [hhandles] at hget
    rw [hpaths] at ho
    exact h.opened id x hget happend o (hfiles _ o ho)
  agree id id' x x' hget hget' := by
    rw [hhandles] at hget hget'
    exact h.agree id id' x x' hget hget'
  staged k o ho := by
    rw [hhandles]
    exact h.staged k o ho

section

variable {a : Appending} (hpath : a.state.path = (m.states k).path)
include hpath

omit h in
theorem putState_path (j : Nat) : ((m.putState k a).states j).path = (m.states j).path := by
  show (update m.states k a.state j).path = _
  by_cases hj : j = k
  · rw [hj, update_self, hpath]
  · rw [update_of_ne hj]

theorem Tied.putState (hfiles : a.disk.files = m.disk.files) : Tied (m.putState k a) origins := by
  refine h.of_files rfl rfl rfl (fun _ _ hget => hget) (putState_path hpath) fun p o ho => ?_
  have ho : a.disk.files.get p = some o := ho
  rwa [hfiles] at ho

end

omit h in
theorem Truncated.frame {size : Int} (ht : Truncated k size m t) : t.nextState = m.nextState ∧
    t.disk.files = m.disk.files ∧ ∀ j, (t.states j).path = (m.states j).path := by
  cases ht with
  | before ht => exact ht ▸ ⟨rfl, rfl, fun _ => rfl⟩
  | cut o s _ _ _ hpath _ ht => exact ht ▸ ⟨rfl, rfl, putState_path hpath⟩

theorem Tied.truncated {size : Int} (ht : Truncated k size m t) : Tied t origins := by
  cases ht with
  | before ht => exact ht ▸ h
  | cut o s _ _ _ hpath _ ht =>
    rw [ht]
    exact h.putState hpath rfl

theorem Tied.load {path : Path} (ht : Loaded m path k t) :
    Tied t origins ∧ (t.states k).path = path ∧ k < t.nextState ∧ t.next = m.next := by
  cases ht with
  | known s hknown hpath _ ht =>
    obtain ⟨hkeyed, hlt⟩ := h.keyed path k hknown
    rw [ht]
    refine ⟨h.putState hpath rfl, ?_, hlt, rfl⟩
    rw [putState_path hpath, hkeyed]
  | created object size hunknown _ hk ht =>
    subst hk
    rw [ht]
    have hold : ∀ j, j < m.nextState →
        update m.states m.nextState ⟨path, size, size, []⟩ j = m.states j := fun j hj =>
      update_of_ne (ne_of_lt hj) _ _
    refine ⟨⟨fun q j hget => ?_, fun id x hget => ?_, fun id x hget happend o ho => ?_, h.agree, h.staged⟩, ?_,
      Nat.lt_succ_self _, rfl⟩
    · rw [get_set] at hget
      split at hget
      · rename_i hq
        cases hget
        exact ⟨by simp [hq], Nat.lt_succ_self _⟩
      · obtain ⟨hkeyed, hlt⟩ := h.keyed q j hget
        exact ⟨(congrArg NativeAppendState.path (hold j hlt)).trans hkeyed, Nat.lt_succ_of_lt hlt⟩
    · exact ⟨(h.numbered id x hget).1, Nat.lt_succ_of_lt (h.numbered id x hget).2⟩
    · have hfile := congrArg (fun s => m.disk.files.get s.path) (hold x.state (h.numbered id x hget).2)
      exact h.opened id x hget happend o (hfile.symm.trans ho)
    · simp

theorem Tied.openBacking {path : Path} {flags : OpenFlags} {object : Nat} {d : Disk}
    (hsteady : Steady m (.opens path flags)) (hname : nativeName path)
    (hopen : m.disk.openNativeBacking path flags.create flags.excl = .ok (object, d)) :
    Tied { m with disk := d } origins ∧ d.files.get path = some object := by
  rcases openNativeBacking_cases hopen with ⟨hfile, rfl⟩ | ⟨hfile, hcreate, rfl, rfl⟩
  · exact ⟨h, hfile⟩
  · refine ⟨⟨h.keyed, h.numbered, fun id x hget happend o ho => ?_, h.agree, h.staged⟩, get_set_self ..⟩
    have hne := hsteady hname hcreate hfile id x hget happend
    have ho : (m.disk.files.set path m.disk.fresh).get (m.states x.state).path = some o := ho
    rw [get_set_ne _ _ hne] at ho
    exact h.opened id x hget happend o ho

theorem Tied.addHandle {x : Handle} (hstate : x.state < m.nextState)
    (hfile : m.disk.files.get (m.states x.state).path = some x.object) :
    Tied { m with handles := m.handles.set m.next x, next := m.next + 1 } origins where
  keyed := h.keyed
  numbered id y hget := by
    rw [get_set] at hget
    split at hget
    · rename_i hid
      cases hget
      exact ⟨by rw [hid]; exact Nat.lt_succ_self _, hstate⟩
    · exact ⟨Nat.lt_succ_of_lt (h.numbered id y hget).1, (h.numbered id y hget).2⟩
  opened id y hget happend o ho := by
    rw [get_set] at hget
    split at hget
    · cases hget
      exact some.inj (ho.symm.trans hfile)
    · exact h.opened id y hget happend o ho
  agree id id' y y' hget hget' happend happend' hsame := by
    rw [get_set] at hget hget'
    -- an older handle of the state has opened the file that is there now
    have hold : ∀ id y, m.handles.get id = some y → y.append = true → y.state = x.state → y.object = x.object := by
      intro id y hget happend hy
      rw [← hy] at hfile
      exact (h.opened id y hget happend _ hfile).symm
    split at hget
    · cases hget
      split at hget'
      · cases hget'
        rfl
      · exact (hold id' y' hget' happend' hsame.symm).symm
    · split at hget'
      · cases hget'
        exact hold id y hget happend hsame
      · exact h.agree id id' y y' hget hget' happend happend' hsame
  staged k o ho := by
    obtain ⟨id, y, hget, hy⟩ := h.staged k o ho
    refine ⟨id, y, ?_, hy⟩
    rw [get_set_ne _ _ (ne_of_lt (h.numbered id y hget).1)]
    exact hget

theorem Tied.fewerHandles {handles : Files Nat Handle} {origins' : Nat → List Nat}
    (hstate : ∀ id x, handles.get id = some x → ∃ y, m.handles.get id = some y ∧ x.state = y.state ∧ (x.append → x = y))
    (hstaged : ∀ k o, o ∈ origins' k → ∃ id x, handles.get id = some x ∧ x.append ∧ x.state = k ∧ x.object = o) :
    Tied { m with handles := handles } origins' where
  keyed := h.keyed
  numbered id x hget := by
    obtain ⟨y, hy, hsame, -⟩ := hstate id x hget
    rw [hsame]
    exact h.numbered id y hy
  opened id x hget happend := by
    obtain ⟨y, hy, -, heq⟩ := hstate id x hget
    obtain rfl := heq happend
    exact h.opened id x hy happend
  agree id id' x x' hget hget' happend happend' := by
    obtain ⟨y, hy, -, heq⟩ := hstate id x hget
    obtain ⟨y', hy', -, heq'⟩ := hstate id' x' hget'
    obtain rfl := heq happend
    obtain rfl := heq' happend'
    exact h.agree id id' x x' hy hy' happend happend'
  staged := hstaged

end

theorem exists_of_sharedWriter {id : Nat} (h : m.sharedWriter id k) :
    ∃ id' x, m.handles.get id' = some x ∧ id' ≠ id ∧ x.state = k ∧ x.append = true := by
  obtain ⟨⟨id', x⟩, hmem, hx⟩ := List.any_eq_true.mp h
  simp only [Bool.and_eq_true, bne_iff_ne, beq_iff_eq] at hx
  exact ⟨id', x, (get_eq_some_iff _).mpr hmem, hx.1.1, hx.1.2, hx.2⟩

theorem CommitStopped.files_eq {a b : Appending} (h : CommitStopped jsonValid a b) : b.disk.files = a.disk.files := by
  rcases h.disk with hdisk | ⟨o, tail, -, hduring⟩
  · exact (Disk.durable_files hdisk).trans rfl
  · cases hduring with
    | before hdisk | writing _ hdisk | after _ _ hdisk => exact (Disk.durable_files hdisk).trans rfl

def Native.pendingOrigins (t : Native) (origins : Nat → List Nat) (k : Nat) : List Nat :=
  if (t.states k).segments.isEmpty then [] else origins k

theorem mem_pendingOrigins {o : Nat} (h : o ∈ t.pendingOrigins origins k) :
    o ∈ origins k ∧ (t.states k).segments ≠ [] := by
  unfold Native.pendingOrigins at h
  split at h
  · cases h
  · rename_i hpending
    exact ⟨h, mt List.isEmpty_iff.mpr hpending⟩

section

variable (h : Tied m origins)
include h

theorem Tied.committed {r : Request} {id : Nat} {x : Handle} {a : Appending} {handles : Files Nat Handle}
    (hget : m.handles.get id = some x)
    (ha : (x.append = false ∧ a = m.getState x.state) ∨ (x.append ∧ CommitStopped jsonValid (m.getState x.state) a))
    (hhandled : Handled true m id x a.state.segments r handles) : Tied { m.putState x.state a with handles := handles }
      (Native.pendingOrigins { m.putState x.state a with handles := handles } origins) := by
  have hput : Tied (m.putState x.state a) origins := by
    rcases ha with ⟨-, rfl⟩ | ⟨-, ha⟩
    · exact h.putState rfl rfl
    · exact h.putState ha.path ha.files_eq
  have hsegments : ((m.putState x.state a).states x.state).segments = a.state.segments := by
    simp [Native.putState]
  have hsame : handles = m.handles → Tied { m.putState x.state a with handles := handles }
      (Native.pendingOrigins { m.putState x.state a with handles := handles } origins) := by
    rintro rfl
    exact hput.fewer fun k o ho => (mem_pendingOrigins ho).1
  -- the handle of an origin of a state is another one than `id`
  have hother : (x.append = true → a.state.segments = []) → ∀ k o,
      o ∈ Native.pendingOrigins { m.putState x.state a with handles := handles } origins k →
      ∃ id' y, m.handles.get id' = some y ∧ id' ≠ id ∧ y.append = true ∧ y.state = k ∧ y.object = o := by
    intro hidle k o ho
    obtain ⟨ho, hpending⟩ := mem_pendingOrigins ho
    obtain ⟨id', y, hy, happend, rfl, hobject⟩ := h.staged k o ho
    refine ⟨id', y, hy, ?_, happend, rfl, hobject⟩
    rintro rfl
    cases hget.symm.trans hy
    exact hpending (hsegments.trans (hidle happend))
  cases hhandled with
  | flush | fsync | staging => exact hsame rfl
  | random hidle =>
    refine hput.fewerHandles (fun id' y hy => ?_) fun k o ho => ?_
    · rw [get_set] at hy
      split at hy
      · rename_i hid
        cases hy
        exact ⟨x, hid ▸ hget, rfl, by simp⟩
      · exact ⟨y, hy, rfl, fun _ => rfl⟩
    · obtain ⟨id', y, hy, hne, hrest⟩ := hother (hidle rfl) k o ho
      exact ⟨id', y, by rw [get_set_ne _ _ hne]; exact hy, hrest⟩
  | released hidle =>
    refine hput.fewerHandles (fun id' y hy => ?_) fun k o ho => ?_
    · exact ⟨y, get_of_erase hy, rfl, fun _ => rfl⟩
    · have herase : ∀ {id' : Nat} {y : Handle}, id' ≠ id → m.handles.get id' = some y →
          (m.handles.erase id).get id' = some y := fun hne hy => by rw [get_erase_ne _ hne]; exact hy
      cases hshared : m.sharedWriter id x.state with
      | false =>
        obtain ⟨id', y, hy, hne, hrest⟩ := hother (fun happend => hidle rfl happend hshared) k o ho
        exact ⟨id', y, herase hne hy, hrest⟩
      | true =>
        -- the other handle has opened the same object
        obtain ⟨ho, -⟩ := mem_pendingOrigins ho
        obtain ⟨id', y, hy, happend, rfl, rfl⟩ := h.staged k o ho
        by_cases hid : id' = id
        · obtain ⟨id'', z, hz, hne, hstate, hzappend⟩ := exists_of_sharedWriter hshared
          subst hid
          cases hget.symm.trans hy
          exact ⟨id'', z, herase hne hz, hzappend, hstate, h.agree id'' id' z x hz hy hzappend happend hstate⟩
        · exact ⟨id', y, herase hid hy, happend, rfl, rfl⟩

variable {d : Disk}

omit h in
theorem relocated_path {old new : Path} (k : Nat) :
    ((m.relocated old new d).states k).path = if m.nativeAppends.get old = some k then new else (m.states k).path := by
  unfold Native.relocated
  cases hold : m.nativeAppends.get old with
  | none => rfl
  | some j =>
    show (update m.states j _ k).path = _
    by_cases hk : k = j
    · rw [hk, update_self, if_pos rfl]
    · rw [update_of_ne hk, if_neg fun h => hk (some.inj h).symm]

theorem rename_steady {old new : Path} (hrename : m.disk.rename old new = .ok d) (hsteady : m.SteadyRename old new)
    {id : Nat} {x : Handle} (hget : m.handles.get id = some x) (happend : x.append) {o : Nat}
    (ho : d.files.get ((m.relocated old new d).states x.state).path = some o) : o = x.object := by
  rw [relocated_path] at ho
  have hold : m.nativeAppends.get old = some x.state → (m.states x.state).path = old := fun hknown =>
    (h.keyed old x.state hknown).1
  rcases rename_cases hrename with ⟨moved, hfile, rfl⟩ | ⟨hnone, -, -, hapart, hfree, rfl⟩
  · have ho : ((m.disk.files.erase old).set new moved).get _ = some o := ho
    rw [get_set] at ho
    split at ho
    · rename_i hknown
      rw [if_pos rfl] at ho
      refine h.opened id x hget happend o ?_
      rw [hold hknown, hfile, ho]
    · split at ho
      · rename_i hnew
        exact hsteady id x hget happend [] o (by rw [hnew, append_nil]) (by rw [append_nil, hfile, ho])
      · exact h.opened id x hget happend o (get_of_erase ho)
  · obtain ⟨q, hq, hfile⟩ := exists_of_get_rekey ho
    unfold Disk.moved at hq
    split at hq
    · rename_i hbelow
      obtain ⟨rest, rfl⟩ := isPrefixOf_iff_prefix.mp hbelow
      rw [drop_left] at hq
      split at hq
      · -- the state of the directory itself has no file
        rw [append_right_eq_self.mp hq, append_nil, hnone] at hfile
        cases hfile
      · exact hsteady id x hget happend rest o hq.symm hfile
    · split at hq
      · rw [hq, hfree] at hfile
        cases hfile
      · exact h.opened id x hget happend o (hq ▸ hfile)

theorem Tied.backing_eq (path : Path) : m.backing path = path := by
  unfold Native.backing
  cases hknown : m.nativeAppends.get path with
  | none => rfl
  | some k => exact (h.keyed path k hknown).1

theorem Tied.relocate {old new : Path} (hrename : m.disk.rename old new = .ok d) (hsteady : m.SteadyRename old new) :
    Tied (m.relocated old new d) origins := by
  have hnumbers : (m.relocated old new d).next = m.next ∧ (m.relocated old new d).nextState = m.nextState := by
    unfold Native.relocated
    cases m.nativeAppends.get old with
    | none | some k => exact ⟨rfl, rfl⟩
  -- a handle is what it was but for its path
  have hhandle : ∀ id x, (m.relocated old new d).handles.get id = some x → ∃ y, m.handles.get id = some y ∧
      x.object = y.object ∧ x.state = y.state ∧ x.append = y.append := by
    intro id x hget
    rw [relocated_handles, Files.get_map] at hget
    obtain ⟨y, hy, rfl⟩ := map_eq_some_iff.mp hget
    refine ⟨y, hy, ?_⟩
    split
    · exact ⟨rfl, rfl, rfl⟩
    · exact ⟨rfl, rfl, rfl⟩
  refine ⟨fun path k hget => ?_, fun id x hget => ?_, fun id x hget happend o ho => ?_,
    fun id id' x x' hget hget' happend happend' hsame => ?_, fun k o ho => ?_⟩
  · rw [relocated_path, hnumbers.2]
    unfold Native.relocated at hget
    cases hold : m.nativeAppends.get old with
    | none =>
      rw [hold] at hget
      have hget : ((m.nativeAppends.erase old).erase new).get path = some k := hget
      rw [get_erase, get_erase] at hget
      split at hget
      · cases hget
      split at hget
      · cases hget
      rw [if_neg (by simp)]
      exact h.keyed path k hget
    | some j =>
      rw [hold] at hget
      have hget : ((m.nativeAppends.erase old).set new j).get path = some k := hget
      rw [get_set] at hget
      split at hget
      · rename_i hpath
        cases hget
        exact ⟨by rw [if_pos rfl, hpath], (h.keyed old k hold).2⟩
      · rw [get_erase] at hget
        split at hget
        · cases hget
        · rename_i hpath
          obtain ⟨hkeyed, hlt⟩ := h.keyed path k hget
          refine ⟨?_, hlt⟩
          rw [if_neg, hkeyed]
          rintro ⟨⟩
          exact hpath (hkeyed.symm.trans (h.keyed old k hold).1)
  · obtain ⟨y, hy, -, hstate, -⟩ := hhandle id x hget
    rw [hnumbers.1, hnumbers.2, hstate]
    exact h.numbered id y hy
  · obtain ⟨y, hy, hobject, hstate, happends⟩ := hhandle id x hget
    rw [relocated_disk, hstate] at ho
    rw [hobject]
    exact rename_steady h hrename hsteady hy (happends.symm.trans happend) ho
  · obtain ⟨y, hy, hobject, hstate, happends⟩ := hhandle id x hget
    obtain ⟨y', hy', hobject', hstate', happends'⟩ := hhandle id' x' hget'
    rw [hobject, hobject']
    exact h.agree id id' y y' hy hy' (happends.symm.trans happend) (happends'.symm.trans happend')
      (hstate.symm.trans (hsame.trans hstate'))
  · obtain ⟨id, y, hy, happend, hstate, hobject⟩ := h.staged k o ho
    refine ⟨id, if y.path = old then { y with path := new } else y, ?_, ?_⟩
    · rw [relocated_handles, Files.get_map, hy]
      rfl
    · split
      · exact ⟨happend, hstate, hobject⟩
      · exact ⟨happend, hstate, hobject⟩

/-- The step lemma: after any request that a mount survives, handles, states and names
    belong together, with the origins that the request has left or added. -/
theorem Tied.request {r : Request} (hsteady : Steady m r) (ht : Served jsonValid true m r t) :
    Tied t (t.pendingOrigins fun k => r.stagesIn m k ++ origins k) := by
  -- only a write adds origins
  have hplain : (∀ id data offset, r ≠ .write id data offset) → Tied t origins →
      Tied t (t.pendingOrigins fun k => r.stagesIn m k ++ origins k) := by
    intro hwrite htied
    refine htied.fewer fun k o ho => ?_
    obtain ⟨ho, -⟩ := mem_pendingOrigins ho
    cases r with
    | write id data offset => exact absurd rfl (hwrite id data offset)
    | _ => exact ho
  -- and it adds the object of its handle
  have hwrote : ∀ {id : Nat} {data : Bytes} {offset : Int}, r = .write id data offset → t.handles = m.handles →
      Tied t origins → Tied t (t.pendingOrigins fun k => r.stagesIn m k ++ origins k) := by
    rintro id data offset rfl hhandles htied
    refine { htied with staged := fun k o ho => ?_ }
    obtain ⟨ho, -⟩ := mem_pendingOrigins ho
    rcases mem_append.mp ho with ho | ho
    · unfold Request.stagesIn at ho
      cases hget : m.handles.get id with
      | none =>
        simp only [hget] at ho
        cases ho
      | some x =>
        simp only [hget] at ho
        split at ho
        · rename_i hx
          simp only [Bool.and_eq_true, beq_iff_eq] at hx
          rw [hhandles]
          exact ⟨id, x, hget, hx.1.1, hx.1.2, (mem_singleton.mp ho).symm⟩
        · cases ho
    · exact htied.staged k o ho
  cases ht with
  | refused =>
    cases r with
    | write id data offset => exact hwrote rfl rfl h
    | _ => exact hplain (by simp) h
  | staged hget happend ha => exact hwrote rfl rfl (h.putState ha.2 (congrArg Disk.files ha.1))
  | wrote k s hget happend _ _ hpath _ => exact hwrote rfl rfl (h.putState hpath rfl)
  | committed hget ha hhandled =>
    refine (h.committed hget ha hhandled).fewer fun k o ho => ?_
    cases hhandled with
    | flush | fsync | staging | random | released => exact ho
  | truncated hget ht => exact hplain (by simp) (h.truncated ht)
  | truncatedPath _ hloaded ht => exact hplain (by simp) ((h.load hloaded).1.truncated ht)
  | created hname hopen => exact hplain (by simp) (h.openBacking hsteady hname hopen).1
  | loaded hname hopen hloaded ht _ =>
    exact hplain (by simp) (((h.openBacking hsteady hname hopen).1.load hloaded).1.truncated ht)
  | opened hname hopen hloaded ht _ =>
    obtain ⟨hopened, hfile⟩ := h.openBacking hsteady hname hopen
    obtain ⟨hload, hpath, hlt, -⟩ := hopened.load hloaded
    refine hplain (by simp) ((hload.truncated ht).addHandle ?_ ?_)
    · rw [ht.frame.1]
      exact hlt
    · rw [ht.frame.2.2, hpath, ht.frame.2.1, hloaded.same.1]
      exact hfile
  | renamed hallowed hne himport hrename =>
    rw [h.backing_eq] at hrename
    exact hplain (by simp) (h.relocate hrename (hsteady hallowed hne himport))
  | removed hbusy hname hremove =>
    refine hplain (by simp) (h.of_files rfl rfl rfl (fun path k hget => ?_) (fun _ => rfl) (remove_frame hremove).1)
    exact get_of_erase hget

end

theorem During.contents_ne {d u : Disk} {path : Path} {o q : Nat} {tail : Bytes} (h : During d path o tail u) (hq : q ≠ o) :
    u.contents q = d.contents q := by
  cases h with
  | before hu => exact congrFun ((Disk.durable_contents hu).trans rfl) q
  | writing k hu | after bytes _ hu =>
    exact (congrFun (Disk.durable_contents hu) q).trans (update_of_ne hq _ _)

theorem Tied.sources {l : Attributed} {r : Request} {up : Bool} (h : Tied l.native l.origins)
    (ht : Served jsonValid up l.native r t) {q : Nat} (hq : t.disk.contents q ≠ l.native.disk.contents q) :
    ∀ o ∈ r.sources l, o = q := by
  intro o ho
  cases ht with
  | refused => exact absurd rfl hq
  | staged hget happend ha => exact absurd (congrArg (fun d => Disk.contents d q) ha.1) hq
  | @wrote id data offset x k s hget happend =>
    have hsource : o = x.object := by simpa [Request.sources, hget, happend] using ho
    by_contra hne
    have hother : q ≠ x.object := fun h => hne (hsource.trans h.symm)
    exact hq (Disk.setContents_of_ne _ hother _)
  | @committed r id x a handles hget ha hhandled =>
    have hsource : o ∈ if x.append = true then l.origins x.state else [] := by
      cases hhandled with
      | flush | fsync | staging | random | released => simpa [Request.sources, Request.commitsThrough, hget] using ho
    rcases ha with ⟨-, rfl⟩ | ⟨happend, ha⟩
    · exact absurd rfl hq
    rw [if_pos happend] at hsource
    -- the file of the state is the one behind the handles of its pending bytes
    obtain ⟨id', y, hy, hyappend, hstate, rfl⟩ := h.staged x.state o hsource
    rcases ha.disk with hdisk | ⟨c, tail, hcommits, hduring⟩
    · exact absurd (congrFun ((Disk.durable_contents hdisk).trans rfl) q) hq
    have hfile : l.native.disk.files.get (l.native.states y.state).path = some c := hstate ▸ hcommits.file
    have hc : c = y.object := h.opened id' y hy hyappend c hfile
    by_contra hne
    exact hq (hduring.contents_ne (hc ▸ Ne.symm hne))
  | truncated | truncatedPath | created | loaded | opened | renamed | removed => cases ho

end

/-! ## Runs -/

/-- In a run in which no path that an open handle stages for comes to lead to another file,
    every request puts the bytes of its handles into the object that they have opened. -/
theorem bytes_into_opened_object (jsonValid : Bytes → Bool) {d : Disk} {events : List (Request × List Fault)}
    {l : Attributed}
    (hsteady : Along (Attributed.step jsonValid) (fun l e => Steady l.native e.1) ⟨Native.started d, fun _ => []⟩ events)
    (hrun : runFrom (Attributed.step jsonValid) ⟨Native.started d, fun _ => []⟩ events = some l) (r : Request)
    (fs : List Fault) {q : Nat}
    (hq : (r.run jsonValid fs l.native).2.1.disk.contents q ≠ l.native.disk.contents q) : ∀ o ∈ r.sources l, o = q := by
  have hstart : Tied (Native.started d) (fun _ => []) := by
    refine ⟨fun _ _ hget => ?_, fun _ _ hget => ?_, fun _ _ hget => ?_, fun _ _ _ _ hget => ?_, fun _ _ ho => ?_⟩
    · cases hget
    · cases hget
    · cases hget
    · cases hget
    · cases ho
  have htied : Tied l.native l.origins := by
    refine Along.invariant (I := fun l : Attributed => Tied l.native l.origins) ?_ events hstart hsteady hrun
    intro s e s' hs hc hstep
    have hserved : Post _ _ _ (e.1.run jsonValid e.2 s.native) := e.1.served e.2 s.native rfl
    unfold Attributed.step at hstep
    match hres : e.1.run jsonValid e.2 s.native with
    | (.done _, t, _) =>
      rw [hres] at hserved hstep
      cases hstep
      exact hs.request hc hserved
    | (.failed _, t, _) =>
      rw [hres] at hserved hstep
      cases hstep
      refine (hs.request hc hserved).fewer fun k o ho => ?_
      obtain ⟨ho, hpending⟩ := mem_pendingOrigins ho
      unfold Native.pendingOrigins
      rw [if_neg (mt List.isEmpty_iff.mp hpending)]
      exact mem_append_right _ ho
    | (.crashed, t, _) =>
      rw [hres] at hstep
      cases hstep
  obtain ⟨up, hserved⟩ := r.ends l.native fs
  exact htied.sources hserved hq

def attributedRun : List (Request × List Fault) :=
  [(.opens Appending.sample.state.path OpenFlags.sample, []), (.write 1 [50, 10] 1, [])]

def attributed : Option Attributed :=
  runFrom (Attributed.step digits) ⟨Native.started Disk.sample, fun _ => []⟩ attributedRun

theorem attributedRun_steady : Along (Attributed.step digits) (fun l e => Steady l.native e.1)
    ⟨Native.started Disk.sample, fun _ => []⟩ attributedRun := by
  refine Along.of_forall attributedRun fun t e he => ?_
  simp only [attributedRun, mem_cons, not_mem_nil, or_false] at he
  rcases he with rfl | rfl
  · exact nofun
  · exact trivial

theorem bytes_into_opened_object_flushed : ∃ l, attributed = some l ∧ (Request.flush 1).sources l = [0] ∧
    ((Request.flush 1).run digits [] l.native).2.1.disk.contents 0 = [49, 50, 10] ∧
      ∀ o ∈ (Request.flush 1).sources l, o = 0 :=
  ⟨attributed.get (by decide +kernel), (some_get _).symm, by decide +kernel, by decide +kernel,
    bytes_into_opened_object digits attributedRun_steady (some_get _).symm (.flush 1) []
      (by decide +kernel)⟩

def Disk.samplePair : Disk :=
  { Disk.sample with files := Disk.sample.files.set [sessions, ['b', '.', 'j', 's', 'o', 'n', 'l']] 1, fresh := 2 }

def replacedRun : List (Request × List Fault) :=
  attributedRun ++ [(.rename false [sessions, ['b', '.', 'j', 's', 'o', 'n', 'l']] Appending.sample.state.path, [])]

def replaced : Option Attributed :=
  runFrom (Attributed.step digits) ⟨Native.started Disk.samplePair, fun _ => []⟩ replacedRun

/-- The record staged through a handle on the object 0 is committed to the object 1. -/
theorem bytes_into_other_object : ∃ l, replaced = some l ∧ (Request.flush 1).sources l = [0] ∧
    ((Request.flush 1).run digits [] l.native).1 = .done () ∧ l.native.disk.contents 1 = [49] ∧
      ((Request.flush 1).run digits [] l.native).2.1.disk.contents 1 = [49, 50, 10] :=
  ⟨replaced.get (by decide +kernel), (some_get _).symm, by decide +kernel, by decide +kernel, by decide +kernel,
    by decide +kernel⟩

end CodexFold.Mount
