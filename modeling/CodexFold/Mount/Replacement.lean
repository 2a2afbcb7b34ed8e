import CodexFold.Mount.Publication

/- A managed name replaced by a native file, with a crash in the middle.

   The intent is published first, then the file is renamed, then the outcome is published.
   A start tells from the object at the two paths how far the rename came. What a crash
   leaves on disk is listed in `Importing`; the replay of each is one of the two outcomes,
   unless a cleanup that an earlier rename left behind names the very file. -/
namespace CodexFold.Mount
open Foundation List

namespace Filesystem

/-- What is true of every mount: the native tree is sound, an append state knows the path it
    is filed under, and the sessions that are served have safe names. -/
structure Sound (f : Filesystem) : Prop where
  tree : f.native.disk.Sound
  keyed : ∀ p i, f.native.nativeAppends.get p = some i → (f.native.states i).path = p
  safe : ∀ p id, f.paths.get p = some id → safeSessionID id = true

variable (f : Filesystem)

def resumed (d : Disk) (stored : Option ManagedNamespace) : Filesystem :=
  { f.restarted with native := Native.started d, stored := stored }

def Leaves (d : Disk) (stored : Option ManagedNamespace) (t : Filesystem) : Prop :=
  t.restarted = f.resumed d stored

/-! ## The import, cut off -/

def intended (m : NativeRenameIntent) : ManagedNamespace := { f.managedNamespace with move := some m }

/-- What an import leaves on disk: nothing of it, the intent, the intent and the renamed
    file, or the outcome. -/
inductive Importing (f : Filesystem) (m : NativeRenameIntent) (t : Filesystem) : Prop where
  | unpublished (h : f.Leaves f.native.disk f.stored t)
  | withdrawn (h : f.Leaves f.native.disk (some { f.managedNamespace with move := none }) t)
  | intended (h : f.Leaves f.native.disk (some (f.intended m)) t)
  | moved (d : Disk) (hd : f.native.disk.rename m.source m.target = .ok d) (h : f.Leaves d (some (f.intended m)) t)
  | applied (d : Disk) (hd : f.native.disk.rename m.source m.target = .ok d)
      (h : f.Leaves d (some ((f.intended m).applyNativeRename m)) t)

section
variable {f : Filesystem}
variable {old new : Path} {o : Nat} {m : NativeRenameIntent} {n n' : ManagedNamespace}

theorem moveNative_ends {m : Native} (old new : Path) : SpecOr (· = m) (moveNative old new) (fun _ t => ∃ d, m.disk.rename (m.backing old) new = .ok d ∧ t.disk = d)
      (· = m) := by
  unfold Native.backing
  refine .readAt ?_
  cases hknown : m.nativeAppends.get old with
  | none =>
    refine .bind' (.onPart' fun t ht => ?_) fun _ => .pure' _ fun _ h => h
    subst ht
    exact (change_spec _).mono (fun _ d hd => ⟨d, hd, rfl⟩) fun d hd => by rw [hd]
  | some i =>
    refine .bind' (.onPart' fun t ht => ?_) fun _ => .pure' _ fun _ h => h
    subst ht
    have hput : t.putState i (t.getState i) = t := by
      unfold Native.putState Native.getState
      rw [Function.update_eq_self]
    refine .readAt (.bind' (.onPart' fun a ha => ?_) fun _ => .modify' _ fun a ha => ha)
    subst ha
    exact (change_spec _).mono (fun _ d hd => ⟨d, hd, rfl⟩) fun d hd => by rw [hd]; exact hput

theorem moveNative_spec {m : Native} (hkeyed : ∀ p i, m.nativeAppends.get p = some i → (m.states i).path = p) (old new : Path) :
    SpecOr (· = m) (moveNative old new) (fun _ t => ∃ d, m.disk.rename old new = .ok d ∧ t.disk = d)
      (· = m) := by
  have hback : m.backing old = old := by
    unfold Native.backing
    cases hknown : m.nativeAppends.get old with
    | none => rfl
    | some i => exact hkeyed old i hknown
  have hends := @moveNative_ends m old new
  rwa [hback] at hends

theorem importSource_eq_ok (h : f.importSource old new = .ok o) :
    f.namespaceStore ∧ f.native.disk.files.get old = some o := by
  obtain ⟨_, hstore, h⟩ := of_bind h
  refine ⟨require_eq_ok.mp hstore, ?_⟩
  cases hget : f.native.disk.files.get old with
  | none =>
    rw [hget] at h
    cases h
  | some o' =>
    rw [hget] at h
    obtain ⟨_, _, h⟩ := of_bind h
    obtain ⟨_, _, h⟩ := of_bind h
    cases h
    rfl

variable {d : Disk}

theorem finishImport_spec (hd : f.native.disk.rename m.source m.target = .ok d) (state : Option Nat) :
    LeadsTo (f.Leaves d (some (f.intended m))) (finishImport (f.intended m) m state) (Importing f m) := by
  refine .at' fun t ht => ?_
  have hends : ∀ u, (u = t ∨ u = t.published ((f.intended m).applyNativeRename m)) →
      (f.Leaves d (some (f.intended m)) u ∨ f.Leaves d (some ((f.intended m).applyNativeRename m)) u) := fun u hu => by
    rcases hu with rfl | rfl
    · exact .inl ht
    · refine .inr ?_
      have hdisk := congrArg (fun r => { r with stored := some ((f.intended m).applyNativeRename m) }) ht
      exact hdisk
  have himporting : ∀ u, (f.Leaves d (some (f.intended m)) u ∨ f.Leaves d (some ((f.intended m).applyNativeRename m)) u) →
      Importing f m u := fun u hu => hu.elim (.moved d hd) (.applied d hd)
  refine .bind' (M := fun _ u => f.Leaves d (some (f.intended m)) u ∨
    f.Leaves d (some ((f.intended m).applyNativeRename m)) u) ?_ fun _ => .modify' _ fun u hu => ?_
  · refine .bind' (M := fun _ u => f.Leaves d (some (f.intended m)) u ∨
      f.Leaves d (some ((f.intended m).applyNativeRename m)) u) (.attempt' ((publish_spec _).post
        (fun _ u hu => hends u (.inr hu)) (fun _ => hends) fun u hu => himporting u (hends u hu))) fun r => ?_
    cases r with
    | ok _ => exact .pure' _ fun _ hu => hu
    | error _ => exact .bind' (.modify' _ fun _ hu => hu) fun _ => .pure' _ fun _ hu => hu
  · exact himporting _ hu

theorem import_spec (hf : f.Sound) (hsource : f.importSource old new = .ok o) :
    LeadsTo (· = f) (importNativeRename old new) (Importing f ⟨old, new, o, f.paths.get new⟩) := by
  have hstart : ∀ t, t = f → f.Leaves f.native.disk f.stored t := fun t ht => by
    subst ht
    rfl
  refine .readAt ?_
  rw [hsource]
  refine .readAt (.readAt (.readAt ?_))
  have hpublished : ∀ t, (t = f ∨ t = f.published (f.intended ⟨old, new, o, f.paths.get new⟩)) →
      Importing f ⟨old, new, o, f.paths.get new⟩ t := fun t ht => by
    rcases ht with rfl | rfl
    · exact .unpublished rfl
    · exact .intended rfl
  refine .bind' ((publish_spec _).mono (fun _ _ h => h) hpublished) fun _ => ?_
  refine Spec.attempted (M := fun _ t => ∃ d, f.native.disk.rename old new = .ok d ∧
      f.Leaves d (some (f.intended ⟨old, new, o, f.paths.get new⟩)) t)
    (F := fun _ t => t = f.published (f.intended ⟨old, new, o, f.paths.get new⟩)) (.onPart' fun t ht => ?_)
    (fun state => .at' fun t ht => ?_) fun e => .at' fun t ht => ?_
  · subst ht
    refine (moveNative_spec hf.keyed old new).post (fun _ m hm => ?_) (fun _ m hm => ?_) fun m hm => ?_
    · obtain ⟨d, hd, rfl⟩ := hm
      exact ⟨_, hd, rfl⟩
    · subst hm
      rfl
    · subst hm
      exact .intended rfl
  · obtain ⟨d, hd, hleaves⟩ := ht
    exact (finishImport_spec hd state).pre (held hleaves)
  · subst ht
    have hends : ∀ u, (u = f.published (f.intended ⟨old, new, o, f.paths.get new⟩) ∨
        u = (f.published (f.intended ⟨old, new, o, f.paths.get new⟩)).published { f.managedNamespace with move := none }) →
        Importing f ⟨old, new, o, f.paths.get new⟩ u := fun u hu => by
      rcases hu with rfl | rfl
      · exact .intended rfl
      · exact .withdrawn rfl
    exact .bind' (.attempt' ((publish_spec _).post
      (fun _ u hu => hends u (.inr hu)) (fun _ => hends) hends)) fun _ => .throw' _ fun _ h => h

theorem import_refused {e : String} (hsource : f.importSource old new = .error e) (fs : List Fault) :
    importNativeRename old new fs f = (.failed e, f, fs) := by
  unfold importNativeRename
  simp only [Prog.bind_apply, Prog.read_apply, hsource, ofExcept, Prog.throw_apply]

/-! ## The start after it -/

/-- What a start leaves once the intent is settled: the cleanups it came to have been done,
    and the file has them or no longer has any. -/
def Replayed (s : Filesystem) (n : ManagedNamespace) (g : Filesystem) : Prop :=
  ∃ u, { s with managedNamespace := n.settled }.Cleaned n.cleanup.entries u ∧
    (g = u ∨ g = u.published { n.settled with cleanup := .empty })

variable {s : Filesystem}

def replay (n : ManagedNamespace) (cleanups : List (Path × NativeRenameCleanup)) : MountProg Unit := do
  forEach (fun e => cleanupRenamedNativeLocked e.1 e.2) cleanups
  if n.settled.cleanup.entries.isEmpty then pure ()
  else publishManagedNamespaceLocked { n.settled with cleanup := .empty }

section
variable {s' : Filesystem} {moved : ManagedNamespace} (range : RangeOrder (Path × NativeRenameCleanup))
  (hread : s.readManagedNamespace = .ok n)
  (hsettle : Runs (settleMove n) { s with namespaceStore := true, managedNamespace := n } moved s')
include hread hsettle

theorem setManagedStore_eq : setManagedStore range [] s =
    replay moved (range.order moved.settled.cleanup.entries) [] { s' with managedNamespace := moved.settled } := by
  unfold Runs at hsettle
  unfold setManagedStore
  rw [Prog.bind_apply, Prog.read_apply]
  simp only [hread, ofExcept, Prog.bind_apply, Prog.pure_apply, Prog.modify_apply, hsettle, replay]

theorem setManagedStore_replayed : Replayed s' moved (setManagedStore range [] s).2.1 := by
  have hrest : LeadsTo (fun t => t = { s' with managedNamespace := moved.settled })
      (replay moved (range.order moved.settled.cleanup.entries)) (Replayed s' moved) := by
    have hcleaned : ∀ u, { s' with managedNamespace := moved.settled }.Cleaned moved.cleanup.entries u → Replayed s' moved u :=
      fun u hu => ⟨u, hu, .inl rfl⟩
    refine .bind' (((cleanups_keep fun e he => ?_).pre ?_).mono (fun _ _ h => h) hcleaned) fun _ => ?_
    · exact (range.perm _).mem_iff.mp he
    · rintro _ rfl
      exact Cleaned.refl _
    · refine .ite' (fun _ => .pure' () hcleaned) fun _ => .at' fun u hu => ?_
      have hends : ∀ g, (g = u ∨ g = u.published { moved.settled with cleanup := .empty }) → Replayed s' moved g :=
        fun g hg => ⟨u, hu, hg⟩
      exact (publish_spec _).mono (fun _ g hg => hends g (.inr hg)) hends
  rw [setManagedStore_eq range hread hsettle]
  exact hrest.state [] rfl

end

theorem settleMove_none (h : n.move = none) (s : Filesystem) : Runs (settleMove n) s n s := by
  unfold settleMove
  rw [h]
  exact .pure' n s

theorem settleMove_target (h : n.move = some m) (hstore : s.namespaceStore)
    (htarget : s.native.disk.files.get m.target = some m.objectID) :
    Runs (settleMove n) s (n.applyNativeRename m) (s.published (n.applyNativeRename m)) := by
  unfold settleMove
  rw [h]
  refine .bind' (.read' _ _) (.bind' (.ofExcept' _ ?_) (.bind' (publish_runs _ hstore) (.pure' _ _)))
  rw [if_pos htarget]

theorem settleMove_source (h : n.move = some m) (hstore : s.namespaceStore)
    (htarget : s.native.disk.files.get m.target ≠ some m.objectID)
    (hsource : s.native.disk.files.get m.source = some m.objectID) :
    Runs (settleMove n) s { n with move := none } (s.published { n with move := none }) := by
  unfold settleMove
  rw [h]
  refine .bind' (.read' _ _) (.bind' (.ofExcept' _ ?_) (.bind' (publish_runs _ hstore) (.pure' _ _)))
  rw [if_neg htarget, if_pos hsource]

section
variable {s g : Filesystem} {n : ManagedNamespace}

section

variable (h : Replayed s n g)
include h

theorem Replayed.files (p : Path) : g.native.disk.files.get p = s.native.disk.files.get p ∨
    (g.native.disk.files.get p = none ∧ ∃ c, n.cleanup.get p = some c ∧ s.stat p = some c) := by
  obtain ⟨u, ⟨files, rfl, hfiles⟩, hg⟩ := h
  have hget : g.native.disk.files = files := by
    rcases hg with rfl | rfl
    · rfl
    · rfl
  rw [hget]
  rcases hfiles p with hsame | ⟨hnone, c, hmem, hstat⟩
  · exact .inl hsame
  · exact .inr ⟨hnone, c, n.cleanup.get_eq_some_iff.mpr hmem, hstat⟩

theorem Replayed.contents : g.native.disk.contents = s.native.disk.contents := by
  obtain ⟨u, ⟨files, rfl, -⟩, hg⟩ := h
  rcases hg with rfl | rfl
  · rfl
  · rfl

theorem Replayed.names {R : ManagedNamespace → Prop} (hsettled : R n.settled)
    (hcleared : R { n.settled with cleanup := .empty }) : R g.managedNamespace := by
  obtain ⟨u, ⟨files, rfl, -⟩, hg⟩ := h
  rcases hg with rfl | rfl
  · exact hsettled
  · exact hcleared

theorem Replayed.readable {R : ManagedNamespace → Prop} (hvalid : n.Valid)
    (hstored : ∃ n', s.readManagedNamespace = .ok n' ∧ R n') (hcleared : R { n.settled with cleanup := .empty }) :
    ∃ n', g.readManagedNamespace = .ok n' ∧ R n' := by
  obtain ⟨u, ⟨files, rfl, -⟩, hg⟩ := h
  rcases hg with rfl | rfl
  · exact hstored
  · refine ⟨_, ?_, hcleared⟩
    have hcheck : ({ n.settled with cleanup := .empty } : ManagedNamespace).check = .ok () :=
      ManagedNamespace.check_eq_ok.mpr (hvalid.settled.withCleanup nofun)
    unfold readManagedNamespace published
    simp only [hcheck]
    rfl

end

end

theorem valid_of_read (h : f.readManagedNamespace = .ok n) : n.Valid := by
  unfold readManagedNamespace at h
  cases hstored : f.stored with
  | none =>
    rw [hstored] at h
    cases h
    exact ManagedNamespace.empty_valid
  | some n' =>
    rw [hstored] at h
    obtain ⟨_, hcheck, hn⟩ := of_bind h
    cases hn
    exact ManagedNamespace.check_eq_ok.mp hcheck

theorem read_of_valid (hstored : f.stored = some n) (h : n.Valid) : f.readManagedNamespace = .ok n := by
  unfold readManagedNamespace
  rw [hstored]
  simp only [ManagedNamespace.check_eq_ok.mpr h]
  rfl

theorem rename_file {d' : Disk} (hold : d.files.get old = some o) (h : d.rename old new = .ok d') :
    d' = { d with files := (d.files.erase old).set new o } := by
  unfold Disk.rename at h
  rw [hold] at h
  simp only at h
  obtain ⟨-, h⟩ := of_guard h
  obtain ⟨-, h⟩ := of_guard h
  cases h
  rfl

theorem rename_lookups {d' : Disk} (hold : d.files.get old = some o) (h : d.rename old new = .ok d') :
    d'.files.get new = some o ∧ (old = new ∨ d'.files.get old = none) ∧ d'.contents = d.contents := by
  rw [rename_file hold h]
  refine ⟨get_set_self _ _ _, ?_, rfl⟩
  by_cases heq : old = new
  · exact .inl heq
  · exact .inr ((get_set_ne _ _ heq).trans (get_erase_self _ _))

/-! ## The two outcomes -/

structure SameNames (n n' : ManagedNamespace) : Prop where
  routes : ∀ id fallback, n'.route id fallback = n.route id fallback
  native : n'.native = n.native
  settled : n'.move = none

structure ReplacedNames (m : NativeRenameIntent) (n n' : ManagedNamespace) : Prop where
  hidden : ∀ id, m.displaced = some id → ∀ fallback, n'.route id fallback = none
  others : ∀ id, m.displaced ≠ some id → ∀ fallback, n'.route id fallback = n.route id fallback
  native : m.target ∈ n'.native
  settled : n'.move = none

/-- The state before: the source is in place with its bytes. The names are those of the mount,
    or those in its file, where a publication that failed has left the file behind. -/
structure Before (f : Filesystem) (m : NativeRenameIntent) (g : Filesystem) : Prop where
  source : g.native.disk.files.get m.source = some m.objectID
  bytes : g.native.disk.contents m.objectID = f.native.disk.contents m.objectID
  names : ∃ n, (n = f.managedNamespace ∨ f.readManagedNamespace = .ok n) ∧ SameNames n g.managedNamespace ∧
    ∃ n', g.readManagedNamespace = .ok n' ∧ SameNames n n'

/-- The state after: the target has the file of the source. -/
structure After (f : Filesystem) (m : NativeRenameIntent) (g : Filesystem) : Prop where
  target : g.native.disk.files.get m.target = some m.objectID
  source : m.source = m.target ∨ g.native.disk.files.get m.source = none
  bytes : g.native.disk.contents m.objectID = f.native.disk.contents m.objectID
  names : ReplacedNames m f.managedNamespace g.managedNamespace
  stored : ∃ n, g.readManagedNamespace = .ok n ∧ ReplacedNames m f.managedNamespace n

theorem SameNames.of_move {cleanup : Files Path NativeRenameCleanup} :
    SameNames n { n with move := none, cleanup := cleanup } := ⟨fun _ _ => rfl, rfl, rfl⟩

theorem SameNames.settle (h : SameNames n n') : SameNames n n'.settled :=
  ⟨fun id fallback => (n'.route_settled id fallback).trans (h.routes id fallback), h.native, h.settled⟩

theorem SameNames.clear (h : SameNames n n') : SameNames n { n' with cleanup := .empty } :=
  ⟨h.routes, h.native, h.settled⟩

theorem ReplacedNames.applied (h : ∀ id fallback, n'.route id fallback = n.route id fallback) :
    ReplacedNames m n (n'.applyNativeRename m) :=
  ⟨fun _ hid fallback => n'.route_applied_displaced hid fallback,
    fun id hid fallback => (n'.route_applied_ne hid fallback).trans (h id fallback), n'.mem_applied_native m, rfl⟩

theorem ReplacedNames.settle (h : ReplacedNames m n n') : ReplacedNames m n n'.settled :=
  ⟨fun id hid fallback => (n'.route_settled id fallback).trans (h.hidden id hid fallback),
    fun id hid fallback => (n'.route_settled id fallback).trans (h.others id hid fallback), h.native, h.settled⟩

theorem ReplacedNames.clear (h : ReplacedNames m n n') :
    ReplacedNames m n { n' with cleanup := .empty } := { h with }

/-- Nothing is under way in the file of the mount, which may be behind. -/
structure Quiet (f : Filesystem) (n : ManagedNamespace) : Prop where
  read : f.readManagedNamespace = .ok n
  valid : f.managedNamespace.Valid
  file : n.move = none

/-- No cleanup that is still on record, for the mount or in its file, names the file of the
    source where it is, nor one of the mount where it goes. -/
def Spared (f : Filesystem) (n : ManagedNamespace) (old new : Path) : Prop :=
  (f.importSource old new).toBool = true → ∀ c, f.stat old = some c →
    n.cleanup.get old ≠ some c ∧ f.managedNamespace.cleanup.get old ≠ some c ∧
      ((f.native.disk.rename old new).toBool = true → f.managedNamespace.cleanup.get new ≠ some c)

section
variable {s g : Filesystem} {n : ManagedNamespace} {m : NativeRenameIntent}

theorem Replayed.before {names : ManagedNamespace} (h : Replayed s n g)
    (hnames : names = f.managedNamespace ∨ f.readManagedNamespace = .ok names)
    (hdisk : s.native.disk = f.native.disk) (htimes : s.modTimes = f.modTimes)
    (hsource : f.native.disk.files.get m.source = some m.objectID)
    (hspared : ∀ c, f.stat m.source = some c → n.cleanup.get m.source ≠ some c)
    (hsame : SameNames names n) (hvalid : n.Valid)
    (hstored : ∃ n', s.readManagedNamespace = .ok n' ∧ SameNames names n') : Before f m g where
  source := by
    rcases h.files m.source with hget | ⟨-, c, hc, hstat⟩
    · rw [hget, hdisk, hsource]
    · refine absurd hc (hspared c ?_)
      unfold stat at hstat ⊢
      rwa [hdisk, htimes] at hstat
  bytes := by rw [h.contents, hdisk]
  names := ⟨names, hnames, h.names hsame.settle hsame.settle.clear, h.readable hvalid hstored hsame.settle.clear⟩

theorem Replayed.after (h : Replayed s n g) (htarget : s.native.disk.files.get m.target = some m.objectID)
    (hgone : m.source = m.target ∨ s.native.disk.files.get m.source = none)
    (hcontents : s.native.disk.contents = f.native.disk.contents) (htimes : s.modTimes = f.modTimes)
    (hcleanup : n.cleanup = f.managedNamespace.cleanup) (hsource : f.native.disk.files.get m.source = some m.objectID)
    (hspared : ∀ c, f.stat m.source = some c → f.managedNamespace.cleanup.get m.target ≠ some c)
    (hreplaced : ReplacedNames m f.managedNamespace n) (hvalid : n.Valid)
    (hstored : ∃ n', s.readManagedNamespace = .ok n' ∧ ReplacedNames m f.managedNamespace n') : After f m g where
  target := by
    rcases h.files m.target with hget | ⟨-, c, hc, hstat⟩
    · rw [hget, htarget]
    · refine absurd (hcleanup ▸ hc) (hspared c ?_)
      -- the file has kept its size and its time under the new name
      unfold stat at hstat ⊢
      rw [htarget, hcontents, htimes] at hstat
      rwa [hsource]
  source := by
    rcases hgone with heq | hnone
    · exact .inl heq
    · refine .inr ?_
      rcases h.files m.source with hget | ⟨hget, -⟩
      · rw [hget, hnone]
      · exact hget
  bytes := by rw [h.contents, hcontents]
  names := h.names hreplaced.settle hreplaced.settle.clear
  stored := h.readable hvalid hstored hreplaced.settle.clear

end

theorem Importing.restarts (hf : f.Sound) (hquiet : Quiet f n) (hm : f.native.disk.files.get m.source = some m.objectID)
    (hdisplaced : m.displaced = f.paths.get m.target) (hsource : namespaceFilePath m.source)
    (htarget : namespaceFilePath m.target)
    (hspared : ∀ c, f.stat m.source = some c → n.cleanup.get m.source ≠ some c ∧
      f.managedNamespace.cleanup.get m.source ≠ some c ∧
      ((f.native.disk.rename m.source m.target).toBool → f.managedNamespace.cleanup.get m.target ≠ some c))
    (range : RangeOrder (Path × NativeRenameCleanup)) {t : Filesystem} (h : Importing f m t) :
    Before f m (setManagedStore range [] t.restarted).2.1 ∨ After f m (setManagedStore range [] t.restarted).2.1 := by
  have hintended : (f.intended m).Valid := hquiet.valid.withMove hsource htarget
  have hsafe : ∀ id, m.displaced = some id → safeSessionID id := fun id hid => hf.safe m.target id (hdisplaced ▸ hid)
  have happlied : ((f.intended m).applyNativeRename m).Valid := hintended.applyNativeRename hsafe htarget
  have hnames : SameNames n n := ⟨fun _ _ => rfl, rfl, hquiet.file⟩
  have hreplaced : ReplacedNames m f.managedNamespace ((f.intended m).applyNativeRename m) := .applied fun _ _ => rfl
  have hcleanup : ((f.intended m).applyNativeRename m).cleanup = f.managedNamespace.cleanup :=
    ManagedNamespace.cleanup_applied _ _
  cases h with
  | unpublished ht =>
    rw [show t.restarted = _ from ht]
    have hstored : (f.resumed f.native.disk f.stored).readManagedNamespace = .ok n := hquiet.read
    refine .inl ((setManagedStore_replayed range hstored (settleMove_none hquiet.file _)).before (.inr hquiet.read) rfl rfl hm
      (fun c hc => (hspared c hc).1) hnames (valid_of_read hquiet.read) ⟨_, hstored, hnames⟩)
  | withdrawn ht =>
    rw [show t.restarted = _ from ht]
    have hstored := read_of_valid (f := f.resumed f.native.disk (some { f.managedNamespace with move := none })) rfl
      hquiet.valid.withoutMove
    refine .inl ((setManagedStore_replayed range hstored (settleMove_none rfl _)).before (.inl rfl) rfl rfl hm
      (fun c hc => (hspared c hc).2.1) .of_move hquiet.valid.withoutMove ⟨_, hstored, .of_move⟩)
  | intended ht =>
    rw [show t.restarted = _ from ht]
    have hstored := read_of_valid (f := f.resumed f.native.disk (some (f.intended m))) rfl hintended
    by_cases hthere : f.native.disk.files.get m.target = some m.objectID
    · -- an object has one name, so the source is the target
      have heq : m.source = m.target := hf.tree.distinct _ _ _ hm hthere
      refine .inr ((setManagedStore_replayed range hstored (settleMove_target rfl rfl hthere)).after hthere (.inl heq)
        rfl rfl hcleanup hm (fun c hc => heq ▸ (hspared c hc).2.1) hreplaced happlied ⟨_, read_of_valid rfl happlied, hreplaced⟩)
    · refine .inl ((setManagedStore_replayed range hstored (settleMove_source rfl rfl hthere hm)).before (.inl rfl) rfl rfl hm
        (fun c hc => (hspared c hc).2.1) .of_move hintended.withoutMove ⟨_, read_of_valid rfl hintended.withoutMove, .of_move⟩)
  | moved d hd ht =>
    rw [show t.restarted = _ from ht]
    obtain ⟨hthere, hgone, hcontents⟩ := rename_lookups hm hd
    have hstored := read_of_valid (f := f.resumed d (some (f.intended m))) rfl hintended
    refine .inr ((setManagedStore_replayed range hstored (settleMove_target rfl rfl hthere)).after hthere hgone
      hcontents rfl hcleanup hm (fun c hc => (hspared c hc).2.2 (by rw [hd]; rfl)) hreplaced happlied
      ⟨_, read_of_valid rfl happlied, hreplaced⟩)
  | applied d hd ht =>
    rw [show t.restarted = _ from ht]
    obtain ⟨hthere, hgone, hcontents⟩ := rename_lookups hm hd
    have hstored := read_of_valid (f := f.resumed d (some ((f.intended m).applyNativeRename m))) rfl happlied
    refine .inr ((setManagedStore_replayed range hstored (settleMove_none rfl _)).after hthere hgone
      hcontents rfl hcleanup hm (fun c hc => (hspared c hc).2.2 (by rw [hd]; rfl)) hreplaced happlied
      ⟨_, hstored, hreplaced⟩)

/-! ## Cleanups that take the file away -/

theorem publish_granted (n : ManagedNamespace) (h : f.namespaceStore) (fs : List Fault) :
    publishManagedNamespaceLocked n (replicate 7 .ok ++ fs) f = (.done (), f.published n, fs) := by
  unfold publishManagedNamespaceLocked
  simp only [Prog.bind_apply, Prog.read_apply, ensure, h, if_true, Prog.pure_apply]
  rfl

theorem publish_cut (n : ManagedNamespace) (h : f.namespaceStore) (fs : List Fault) :
    publishManagedNamespaceLocked n (.crash :: fs) f = (.crashed, f, fs) := by
  unfold publishManagedNamespaceLocked
  simp only [Prog.bind_apply, Prog.read_apply, ensure, h, if_true, Prog.pure_apply]
  rfl

theorem publish_cut_last (n : ManagedNamespace) (h : f.namespaceStore) :
    publishManagedNamespaceLocked n (replicate 6 .ok ++ [.crash]) f = (.crashed, f.published n, []) := by
  unfold publishManagedNamespaceLocked
  simp only [Prog.bind_apply, Prog.read_apply, ensure, h, if_true, Prog.pure_apply]
  rfl

theorem finishImport_cut (h : f.namespaceStore) (n : ManagedNamespace) (m : NativeRenameIntent) (state : Option Nat) :
    finishImport n m state [.crash] f = (.crashed, f, []) := by
  simp only [finishImport, publishForced, attempt, Prog.bind_apply, publish_cut _ h]

theorem moveNative_granted {m : Native} (hkeyed : ∀ p i, m.nativeAppends.get p = some i → (m.states i).path = p)
    (hd : m.disk.rename old new = .ok d) (fs : List Fault) :
    ∃ m', moveNative old new (.ok :: fs) m = (.done (m.nativeAppends.get old), m', fs) ∧ m'.disk = d := by
  unfold moveNative
  rw [Prog.bind_apply, Prog.read_apply]
  cases hknown : m.nativeAppends.get old with
  | none =>
    refine ⟨{ m with disk := d }, ?_, rfl⟩
    simp only [onTree, onPart, change, Prog.bind_apply, Prog.read_apply, hd, ofExcept, Prog.pure_apply]
    rfl
  | some i =>
    have hpath : (m.getState i).state.path = old := hkeyed old i hknown
    refine ⟨m.putState i ⟨{ m.states i with path := new }, d⟩, ?_, rfl⟩
    simp only [onState, relocate, onDisk, onPart, change, Prog.bind_apply, Prog.read_apply, hpath]
    rw [show (m.getState i).disk.rename old new = .ok d from hd]
    rfl

theorem import_cut (hsource : f.importSource old new = .ok o) :
    importNativeRename old new [.crash] f = (.crashed, f, []) := by
  have hstore := (importSource_eq_ok hsource).1
  unfold importNativeRename
  simp only [Prog.bind_apply, Prog.read_apply, hsource, ofExcept, Prog.pure_apply, publish_cut _ hstore]

theorem import_cut_intended (hsource : f.importSource old new = .ok o) :
    importNativeRename old new (replicate 6 .ok ++ [.crash]) f =
      (.crashed, f.published (f.intended ⟨old, new, o, f.paths.get new⟩), []) := by
  have hstore := (importSource_eq_ok hsource).1
  unfold importNativeRename
  simp only [Prog.bind_apply, Prog.read_apply, hsource, ofExcept, Prog.pure_apply, publish_cut_last _ hstore]
  rfl

theorem import_cut_moved (hf : f.Sound) (hsource : f.importSource old new = .ok o)
    (hd : f.native.disk.rename old new = .ok d) : ∃ t, importNativeRename old new
      (replicate 7 .ok ++ [.ok, .crash]) f = (.crashed, t, []) ∧
        f.Leaves d (some (f.intended ⟨old, new, o, f.paths.get new⟩)) t := by
  have hstore := (importSource_eq_ok hsource).1
  obtain ⟨m, hmove, rfl⟩ := moveNative_granted hf.keyed hd [.crash]
  refine ⟨{ f.published (f.intended ⟨old, new, o, f.paths.get new⟩) with native := m }, ?_, rfl⟩
  have hstep : attempt (onNative (moveNative old new)) [.ok, .crash]
      (f.published (f.intended ⟨old, new, o, f.paths.get new⟩)) = (.done (.ok (f.native.nativeAppends.get old)),
        { f.published (f.intended ⟨old, new, o, f.paths.get new⟩) with native := m }, [.crash]) := by
    unfold attempt onNative onPart
    rw [show moveNative old new [.ok, .crash] (f.published (f.intended ⟨old, new, o, f.paths.get new⟩)).native = _ from hmove]
  unfold importNativeRename
  simp only [Prog.bind_apply, Prog.read_apply, hsource, ofExcept, Prog.pure_apply]
  rw [publish_granted _ hstore]
  simp only
  rw [show ({ f.managedNamespace with move := some ⟨old, new, o, f.paths.get new⟩ } : ManagedNamespace) =
    f.intended ⟨old, new, o, f.paths.get new⟩ from rfl, hstep]
  exact finishImport_cut (f := { f.published (f.intended ⟨old, new, o, f.paths.get new⟩) with native := m }) hstore _ _ _

def firstly (path : Path) : RangeOrder (Path × NativeRenameCleanup) :=
  ⟨fun l => l.filter (fun e => e.1 == path) ++ l.filter fun e => !(e.1 == path), filter_append_perm _⟩

variable {path : Path}

theorem firstly_eq {cleanup : Files Path NativeRenameCleanup} {c : NativeRenameCleanup}
    (h : cleanup.get path = some c) : ∃ rest, (firstly path).order cleanup.entries = (path, c) :: rest := by
  have hmem : (path, c) ∈ cleanup.entries.filter fun e => e.1 == path :=
    mem_filter.mpr ⟨cleanup.get_eq_some_iff.mp h, beq_self_eq_true path⟩
  cases hfirst : cleanup.entries.filter fun e => e.1 == path with
  | nil => exact absurd (hfirst ▸ hmem) not_mem_nil
  | cons e rest =>
    obtain ⟨hin, hkey⟩ := mem_filter.mp (hfirst ▸ (.head _) : e ∈ cleanup.entries.filter fun e => e.1 == path)
    obtain ⟨p, c'⟩ := e
    obtain rfl : p = path := beq_iff_eq.mp hkey
    obtain rfl : c = c' := Option.some.inj (h.symm.trans (cleanup.get_eq_some_iff.mpr hin))
    refine ⟨rest ++ cleanup.entries.filter fun e => !(e.1 == p), ?_⟩
    show cleanup.entries.filter (fun e => e.1 == p) ++ _ = _
    rw [hfirst]
    rfl

theorem cleanup_runs {c : NativeRenameCleanup} (hrooted : f.rooted) (hstat : f.stat path = some c) :
    Runs (cleanupRenamedNativeLocked path c) f () (f.removed path) := by
  have hpresent : f.native.disk.absent path = false := by
    unfold Disk.absent
    rw [get_of_stat hstat]
    rfl
  have hremove : Runs (onNative (onTree (change fun d => d.remove path))) f () (f.removed path) :=
    .onPart' (.onPart' (change_runs (remove_eq hstat)))
  refine .bind' (.read' _ _) (.bind' (.ensure' _ _ hrooted) (.bind' (.point' _ _) (.bind' (.read' _ _) ?_)))
  simp only [hpresent]
  exact .bind' (.ensure' _ _ (beq_iff_eq.mpr hstat)) (.bind' hremove (.bind' (.point' _ _) (.point' _ _)))

theorem setManagedStore_removes {s' : Filesystem} {moved : ManagedNamespace} {c : NativeRenameCleanup}
    (hread : s.readManagedNamespace = .ok n)
    (hsettle : Runs (settleMove n) { s with namespaceStore := true, managedNamespace := n } moved s')
    (hrooted : s'.rooted = true) (hrecorded : moved.cleanup.get path = some c) (hstat : s'.stat path = some c) :
    (setManagedStore (firstly path) [] s).2.1.native.disk.files.get path = none := by
  obtain ⟨rest, hrest⟩ := @firstly_eq path moved.settled.cleanup _ hrecorded
  have hreplay : Keeps (fun u : Filesystem => u.native.disk.files.get path = none) (replay moved rest) := by
    refine .bind' (.forEach' fun e => .at' fun t ht => ?_) fun _ => .ite' (.pure' ()) (.at' fun t ht => ?_)
    · have hends : ∀ u, (u = t ∨ (t.stat e.1 = some e.2 ∧ u = t.removed e.1)) → u.native.disk.files.get path = none := fun u hu => by
        rcases hu with rfl | ⟨-, rfl⟩
        · exact ht
        · refine (get_erase _ _ _).trans ?_
          rw [ht, ite_self]
      exact (cleanup_spec e.1 e.2).mono (fun _ => hends) hends
    · have hends : ∀ u, (u = t ∨ u = t.published { moved.settled with cleanup := .empty }) →
          u.native.disk.files.get path = none := fun u hu => by
        rcases hu with rfl | rfl
        · exact ht
        · exact ht
      exact (publish_spec _).mono (fun _ u hu => hends u (.inr hu)) hends
  have hfirst : Runs (cleanupRenamedNativeLocked path c) { s' with managedNamespace := moved.settled } ()
      ({ s' with managedNamespace := moved.settled }.removed path) := cleanup_runs hrooted hstat
  unfold Runs at hfirst
  rw [setManagedStore_eq _ hread hsettle, hrest]
  simp only [replay, forEach, Prog.bind_apply, hfirst]
  exact hreplay.state [] (get_erase_self _ _)

theorem not_settled (hf : f.Sound) {g : Filesystem} (hgone : g.native.disk.files.get old = none)
    (hnew : g.native.disk.files.get new = f.native.disk.files.get new ∨ g.native.disk.files.get new = none) :
    ¬∃ o, f.native.disk.files.get old = some o ∧
      (Before f ⟨old, new, o, f.paths.get new⟩ g ∨ After f ⟨old, new, o, f.paths.get new⟩ g) := by
  rintro ⟨o, ho, hbefore | hafter⟩
  · exact nomatch hbefore.source.symm.trans hgone
  · rcases hnew with hsame | hnone
    · obtain rfl : old = new := hf.tree.distinct _ _ _ ho (hsame.symm.trans hafter.target)
      exact nomatch hafter.target.symm.trans hgone
    · exact nomatch hafter.target.symm.trans hnone

end

def sessionFile (c : Char) : Path := [Mount.sessions, [c, '.', 'j', 's', 'o', 'n', 'l']]

def sample : Filesystem :=
  { launched Disk.sample fun _ => 0 with
    namespaceStore := true
    sessions := Files.empty.set ['s'] ⟨none⟩
    paths := Files.empty.set (sessionFile 'b') ['s'] }

theorem sample_sound : sample.Sound where
  tree := Mount.sample_sound
  keyed _ _ h := nomatch h
  safe p id h := by
    by_cases hp : p = sessionFile 'b'
    · subst hp
      cases (get_set_self _ _ _).symm.trans h
      decide
    · cases (get_set_ne _ _ hp).symm.trans h

def named (pending : Bool) : ManagedNamespace :=
  ManagedNamespace.empty.setName ['s'] ⟨some (sessionFile 'b'), sessionFile 'b', pending⟩

def foldedSample : Filesystem := { sample with stored := some (named true), managedNamespace := named false }

theorem foldedSample_sound : foldedSample.Sound := ⟨sample_sound.tree, sample_sound.keyed, sample_sound.safe⟩

theorem foldedSample_quiet : Quiet foldedSample (named true) where
  read := rfl
  valid := valid_of_read (f := { sample with stored := some (named false) }) rfl
  file := rfl

def coveredRun : List DaemonEvent :=
  [.restart (.plain _) [], .operation (.addSession ['s'] (sessionFile 'c') ⟨none⟩) [],
    .operation (.rename (sessionFile 'c') (sessionFile 'a')) (replicate 9 .ok ++ [.fail]),
    .operation (.rename (sessionFile 'a') (sessionFile 'd')) [], .operation (.addSession ['t'] (sessionFile 'b') ⟨none⟩) []]

def covered : Option Daemon := runFrom (Daemon.step digits) ⟨launched Disk.sample fun _ => 0, false⟩ coveredRun

end Filesystem

end CodexFold.Mount
