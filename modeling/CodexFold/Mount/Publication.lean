import CodexFold.Mount.Namespace

/- What a start accepts of `namespace.json`, and what a publication of it can leave.

   `ManagedNamespace.Valid` is what `readManagedNamespace` asks of the names, as a property.
   The changes the mount makes to the names keep it. A publication leaves the old file or
   the new one, whatever becomes of it, and the replay of the cleanups takes away recorded
   files and nothing else. -/
namespace CodexFold.Mount
open Foundation List Option

/-! ## Names -/

def ManagedName.Safe (id : SessionID) (name : ManagedName) : Prop :=
  safeSessionID id = true ∧ namespaceFilePath name.origin = true ∧ ∀ p, name.path = some p → namespaceFilePath p = true

theorem ManagedName.safe_iff {id : SessionID} {name : ManagedName} :
    (safeSessionID id && namespaceFilePath name.origin && name.path.all namespaceFilePath) ↔ name.Safe id := by
  unfold ManagedName.Safe
  cases hpath : name.path with
  | none => simp
  | some p => simp [and_assoc]

namespace ManagedNamespace

/-- `readManagedNamespace` accepts the names. -/
structure Valid (n : ManagedNamespace) : Prop where
  safe : ∀ id name, n.names.get id = some name → name.Safe id
  distinct : ∀ id id' name name' p, n.names.get id = some name → n.names.get id' = some name' → name.path = some p →
    name'.path = some p → id = id'
  cleanup : ∀ p c, n.cleanup.get p = some c → namespaceFilePath p = true
  native : ∀ p ∈ n.native, namespaceFilePath p = true
  move : ∀ m, n.move = some m → namespaceFilePath m.source = true ∧ namespaceFilePath m.target = true

theorem checkNames_eq_ok : ∀ (l : List (SessionID × ManagedName)) (seen : List Path), (l.map Prod.fst).Nodup →
    (checkNames seen l = .ok () ↔ (∀ e ∈ l, e.2.Safe e.1) ∧
      (∀ e ∈ l, ∀ e' ∈ l, ∀ p, e.2.path = some p → e'.2.path = some p → e.1 = e'.1) ∧
      ∀ e ∈ l, ∀ p, e.2.path = some p → p ∉ seen)
  | [], _, _ => by simp [checkNames]
  | (id, name) :: rest, seen, hnodup => by
    obtain ⟨hfresh, hrest⟩ := nodup_cons.mp hnodup
    have hother : ∀ e ∈ rest, e.1 ≠ id := fun e he heq => hfresh (List.mem_map.mpr ⟨e, he, heq⟩)
    unfold checkNames
    rw [bind_eq_ok]
    simp only [require_eq_ok, ManagedName.safe_iff]
    cases hpath : name.path with
    | none =>
      -- a hidden session adds nothing to the paths
      rw [exists_const, checkNames_eq_ok rest seen hrest]
      constructor
      · rintro ⟨hsafe, hall, hdistinct, hunseen⟩
        refine ⟨forall_mem_cons.mpr ⟨hsafe, hall⟩, ?_, forall_mem_cons.mpr ⟨fun p hp => ?_, hunseen⟩⟩
        · intro e he e' he' p hp hp'
          rcases mem_cons.mp he with rfl | he
          · simp [hpath] at hp
          · rcases mem_cons.mp he' with rfl | he'
            · simp [hpath] at hp'
            · exact hdistinct e he e' he' p hp hp'
        · simp [hpath] at hp
      · rintro ⟨hall, hdistinct, hunseen⟩
        exact ⟨hall _ (.head _), fun e he => hall e (.tail _ he),
          fun e he e' he' => hdistinct e (.tail _ he) e' (.tail _ he'),
          fun e he => hunseen e (.tail _ he)⟩
    | some q =>
      simp only [bind_eq_ok, require_eq_ok, checkNames_eq_ok rest (q :: seen) hrest]
      constructor
      · rintro ⟨_, hsafe, _, hnew, hall, hdistinct, hunseen⟩
        have hq : q ∉ seen := by simpa using hnew
        refine ⟨forall_mem_cons.mpr ⟨hsafe, hall⟩, ?_, ?_⟩
        · intro e he e' he' p hp hp'
          rcases mem_cons.mp he with rfl | he
          · rcases mem_cons.mp he' with rfl | he'
            · rfl
            · obtain rfl : q = p := by simpa [hpath] using hp
              exact absurd (.head _) (hunseen e' he' q hp')
          · rcases mem_cons.mp he' with rfl | he'
            · obtain rfl : q = p := by simpa [hpath] using hp'
              exact absurd (.head _) (hunseen e he q hp)
            · exact hdistinct e he e' he' p hp hp'
        · intro e he p hp
          rcases mem_cons.mp he with rfl | he
          · obtain rfl : q = p := by simpa [hpath] using hp
            exact hq
          · exact fun hmem => hunseen e he p hp (.tail _ hmem)
      · rintro ⟨hall, hdistinct, hunseen⟩
        have hq : q ∉ seen := hunseen _ (.head _) q hpath
        refine ⟨(), hall _ (.head _), (), by simpa using hq, fun e he => hall e (.tail _ he),
          fun e he e' he' => hdistinct e (.tail _ he) e' (.tail _ he'), fun e he p hp hmem => ?_⟩
        rcases mem_cons.mp hmem with rfl | hmem
        · exact hother e he (hdistinct e (.tail _ he) _ (.head _) p hp hpath)
        · exact hunseen e (.tail _ he) p hp hmem

theorem check_eq_ok {n : ManagedNamespace} : n.check = .ok () ↔ n.Valid := by
  unfold check
  simp only [bind_eq_ok, require_eq_ok, checkNames_eq_ok _ _ n.names.nodup]
  constructor
  · rintro ⟨_, ⟨hall, hdistinct, -⟩, _, hcleanup, _, hnative, hmove⟩
    refine ⟨fun id name hget => hall _ (n.names.get_eq_some_iff.mp hget), fun id id' name name' p hget hget' =>
      hdistinct _ (n.names.get_eq_some_iff.mp hget) _ (n.names.get_eq_some_iff.mp hget') p, fun p c hget => ?_,
      (List.all_eq_true.mp hnative), fun m hm => ?_⟩
    · exact List.all_eq_true.mp hcleanup p (n.cleanup.mem_names.mpr ⟨c, hget⟩)
    · simpa [hm] using hmove
  · intro h
    refine ⟨(), ⟨fun e he => h.safe _ _ (n.names.get_eq_some_iff.mpr he), fun e he e' he' p =>
      h.distinct _ _ _ _ p (n.names.get_eq_some_iff.mpr he) (n.names.get_eq_some_iff.mpr he'), fun _ _ _ _ => by simp⟩, (), ?_,
      (), List.all_eq_true.mpr h.native, ?_⟩
    · refine List.all_eq_true.mpr fun p hp => ?_
      obtain ⟨c, hc⟩ := n.cleanup.mem_names.mp hp
      exact h.cleanup p c hc
    · cases hm : n.move with
      | none => rfl
      | some m => simpa using h.move m hm

theorem empty_valid : empty.Valid :=
  ⟨nofun, nofun, nofun, nofun, nofun⟩

section
variable {n : ManagedNamespace}
variable {id : SessionID} {m : NativeRenameIntent}

section

variable (h : n.Valid)
include h

theorem Valid.setName {name : ManagedName} (hsafe : name.Safe id)
    (hfree : ∀ id' name' p, n.names.get id' = some name' → name'.path = some p → name.path = some p → id' = id) :
    (n.setName id name).Valid where
  safe id' name' hget := by
    unfold ManagedNamespace.setName at hget
    rw [get_set] at hget
    split at hget
    · cases hget
      subst id'
      exact hsafe
    · exact h.safe id' name' hget
  distinct id₁ id₂ name₁ name₂ p h₁ h₂ hp₁ hp₂ := by
    unfold ManagedNamespace.setName at h₁ h₂
    rw [get_set] at h₁ h₂
    split at h₁
    · cases h₁
      split at h₂
      · subst id₁ id₂
        rfl
      · subst id₁
        exact (hfree id₂ name₂ p h₂ hp₂ hp₁).symm
    · split at h₂
      · cases h₂
        subst id₂
        exact hfree id₁ name₁ p h₁ hp₁ hp₂
      · exact h.distinct id₁ id₂ name₁ name₂ p h₁ h₂ hp₁ hp₂
  cleanup := h.cleanup
  native := h.native
  move := h.move

theorem Valid.hide {origin : Path} (hid : safeSessionID id) (horigin : namespaceFilePath origin) :
    (n.hide id origin).Valid := by
  unfold ManagedNamespace.hide
  cases hget : n.names.get id with
  | none => exact h.setName ⟨hid, horigin, nofun⟩ nofun
  | some name => exact h.setName ⟨hid, (h.safe id name hget).2.1, nofun⟩ nofun

theorem Valid.dropNative (path : Path) : (n.dropNative path).Valid :=
  { h with native := fun p hp => h.native p (mem_filter.mp hp).1 }

theorem Valid.addNative {path : Path} (hpath : namespaceFilePath path) : (n.addNative path).Valid := by
  refine { h with native := fun p hp => ?_ }
  rcases mem_cons.mp hp with rfl | hp
  · exact hpath
  · exact h.native p (mem_filter.mp hp).1

theorem Valid.withoutMove : { n with move := none }.Valid :=
  { h with move := nofun }

theorem Valid.withMove (hsource : namespaceFilePath m.source) (htarget : namespaceFilePath m.target) :
    { n with move := some m }.Valid :=
  { h with move := fun _ hm => some.inj hm ▸ ⟨hsource, htarget⟩ }

theorem Valid.withCleanup {cleanup : Files Path NativeRenameCleanup}
    (hcleanup : ∀ p c, cleanup.get p = some c → namespaceFilePath p) : { n with cleanup := cleanup }.Valid :=
  ⟨h.safe, h.distinct, hcleanup, h.native, h.move⟩

theorem Valid.applyNativeRename (hid : ∀ id, m.displaced = some id → safeSessionID id)
    (htarget : namespaceFilePath m.target) : (n.applyNativeRename m).Valid := by
  unfold ManagedNamespace.applyNativeRename
  cases hdisplaced : m.displaced with
  | none => exact ((h.dropNative m.source).addNative htarget).withoutMove
  | some id => exact (((h.hide (hid id hdisplaced) htarget).dropNative m.source).addNative htarget).withoutMove

omit h in
theorem get_settled (n : ManagedNamespace) (id : SessionID) :
    n.settled.names.get id = (n.names.get id).map fun name => { name with pending := false } :=
  Files.get_map _ n.names id

theorem Valid.settled : n.settled.Valid := by
  have hold : ∀ id name, n.settled.names.get id = some name → ∃ name', n.names.get id = some name' ∧
      name'.path = name.path ∧ name'.origin = name.origin := fun id name hget => by
    rw [get_settled] at hget
    obtain ⟨name', hget', rfl⟩ := map_eq_some_iff.mp hget
    exact ⟨name', hget', rfl, rfl⟩
  refine ⟨fun id name hget => ?_, fun id id' name name' p hget hget' hp hp' => ?_, h.cleanup, h.native, h.move⟩
  · obtain ⟨name', hget', hpath, horigin⟩ := hold id name hget
    have hsafe := h.safe id name' hget'
    unfold ManagedName.Safe at hsafe ⊢
    rwa [hpath, horigin] at hsafe
  · obtain ⟨old, hold₁, hpath, -⟩ := hold id name hget
    obtain ⟨old', hold₂, hpath', -⟩ := hold id' name' hget'
    exact h.distinct id id' old old' p hold₁ hold₂ (hpath.trans hp) (hpath'.trans hp')

end

/-! ## Routes -/

variable (n : ManagedNamespace)

@[simp] theorem route_settled (id : SessionID) (fallback : Path) :
    n.settled.route id fallback = n.route id fallback := by
  unfold route
  rw [get_settled]
  cases n.names.get id <;> rfl

theorem route_hide_self (id : SessionID) (origin fallback : Path) :
    (n.hide id origin).route id fallback = none := by
  unfold route ManagedNamespace.hide ManagedNamespace.setName
  rw [get_set_self]
  cases n.names.get id <;> rfl

theorem route_setName_ne {id' : SessionID} (name : ManagedName) (fallback : Path) (hne : id' ≠ id) :
    (n.setName id name).route id' fallback = n.route id' fallback := by
  unfold route ManagedNamespace.setName
  rw [get_set_ne _ _ hne]

theorem route_applied_displaced (h : m.displaced = some id)
    (fallback : Path) : (n.applyNativeRename m).route id fallback = none := by
  unfold applyNativeRename
  rw [h]
  exact route_hide_self n id m.target fallback

theorem route_applied_ne (h : m.displaced ≠ some id)
    (fallback : Path) : (n.applyNativeRename m).route id fallback = n.route id fallback := by
  unfold applyNativeRename
  cases hdisplaced : m.displaced with
  | none => rfl
  | some other =>
    have hne : id ≠ other := fun heq => h (heq ▸ hdisplaced)
    exact route_setName_ne n _ fallback hne

theorem cleanup_applied (m : NativeRenameIntent) : (n.applyNativeRename m).cleanup = n.cleanup := by
  unfold applyNativeRename
  cases m.displaced <;> rfl

theorem mem_applied_native (m : NativeRenameIntent) : m.target ∈ (n.applyNativeRename m).native :=
  (.head _)

end

end ManagedNamespace

/-! ## Publications -/

theorem change_spec {d : Disk} (f : Disk → Except String Disk) :
    Spec (· = d) (change f) (fun _ t => f d = .ok t) (fun _ t => t = d) (· = d) := by
  refine .readAt (.checked (fun _ _ h => h) fun d' hd' => ?_)
  exact .effect' _ _ (fun _ _ => hd') (fun _ h => h) fun _ h => h

theorem change_runs {d d' : Disk} {f : Disk → Except String Disk} (h : f d = .ok d') : Runs (change f) d () d' := by
  refine .bind' (.read' _ _) ?_
  rw [h]
  exact .bind' (.ofExcept' d rfl) (.effect' _ _ _)

namespace Filesystem

def published (f : Filesystem) (n : ManagedNamespace) : Filesystem := { f with stored := some n, managedNamespace := n }

section
variable {f : Filesystem}
variable {path : Path} {c : NativeRenameCleanup}
variable {entries : List (Path × NativeRenameCleanup)}

theorem publish_spec (n : ManagedNamespace) : Spec (· = f) (publishManagedNamespaceLocked n)
    (fun _ t => t = f.published n) (fun _ t => t = f ∨ t = f.published n) (fun t => t = f ∨ t = f.published n) := by
  have hpoint : ∀ {e : String} {k : Unit → MountProg Unit} {Q : Unit → Filesystem → Prop} {P : Filesystem → Prop},
      (∀ t, P t → t = f ∨ t = f.published n) → Spec P (k ()) Q (fun _ t => t = f ∨ t = f.published n)
        (fun t => t = f ∨ t = f.published n) → Spec P (point e >>= k) Q (fun _ t => t = f ∨ t = f.published n)
          (fun t => t = f ∨ t = f.published n) := fun h hk =>
    SpecOr.point' h fun _ => hk
  refine .readAt (.ensured (fun _ => .inl) fun _ => ?_)
  -- nothing is seen before the rename
  refine hpoint (fun _ => .inl) (hpoint (fun _ => .inl) (hpoint (fun _ => .inl)
    (hpoint (fun _ => .inl) ?_)))
  refine .bind' (M := fun _ t => t = f.published n) (.effect' _ _ (fun t ht => ?_) (fun _ => .inl)
    fun _ => .inl) fun _ => ?_
  · rw [ht]
    rfl
  · exact hpoint (fun _ => .inr) (.point' _ (fun t ht => ht) (fun _ => .inr) fun _ => .inr)

theorem publish_runs (n : ManagedNamespace) (h : f.namespaceStore) :
    Runs (publishManagedNamespaceLocked n) f () (f.published n) := by
  refine .bind' (.read' _ _) (.bind' (.ensure' _ _ h) ?_)
  exact .bind' (.point' _ _) (.bind' (.point' _ _) (.bind' (.point' _ _) (.bind' (.point' _ _)
    (.bind' (.effect' _ _ _) (.bind' (.point' _ _) (.point' _ _))))))

/-! ## The cleanups -/

def withFiles (f : Filesystem) (files : Files Path Nat) : Filesystem :=
  { f with native := { f.native with disk := { f.native.disk with files := files } } }

def Cleaned (f : Filesystem) (entries : List (Path × NativeRenameCleanup)) (t : Filesystem) : Prop :=
  ∃ files : Files Path Nat, t = f.withFiles files ∧ ∀ p, files.get p = f.native.disk.files.get p ∨
    (files.get p = none ∧ ∃ c, (p, c) ∈ entries ∧ f.stat p = some c)

theorem Cleaned.refl (entries : List (Path × NativeRenameCleanup)) : f.Cleaned entries f := ⟨_, rfl, fun _ => .inl rfl⟩

def removed (f : Filesystem) (path : Path) : Filesystem := f.withFiles (f.native.disk.files.erase path)

theorem Cleaned.removed {t : Filesystem} (h : f.Cleaned entries t)
    (hmem : (path, c) ∈ entries) (hstat : t.stat path = some c) : f.Cleaned entries (t.removed path) := by
  obtain ⟨files, rfl, hfiles⟩ := h
  refine ⟨files.erase path, rfl, fun p => ?_⟩
  rw [get_erase]
  split
  · subst p
    refine .inr ⟨rfl, c, hmem, ?_⟩
    -- what is still there is what was there at first
    rcases hfiles path with hsame | ⟨hnone, -⟩
    · have hold : (f.withFiles files).stat path = f.stat path := by
        show (files.get path).map _ = (f.native.disk.files.get path).map _
        rw [hsame]
        rfl
      rwa [← hold]
    · have hgone : (f.withFiles files).stat path = none := by
        show (files.get path).map _ = none
        rw [hnone]
        rfl
      rw [hgone] at hstat
      cases hstat
  · exact hfiles p

theorem get_of_stat (h : f.stat path = some c) : f.native.disk.files.get path = some c.objectID := by
  obtain ⟨o, ho, rfl⟩ := map_eq_some_iff.mp h
  exact ho

theorem remove_eq (h : f.stat path = some c) :
    f.native.disk.remove path = .ok { f.native.disk with files := f.native.disk.files.erase path } := by
  unfold Disk.remove
  rw [get_of_stat h]

theorem cleanup_spec (path : Path) (c : NativeRenameCleanup) : LeadsTo (· = f) (cleanupRenamedNativeLocked path c)
      (fun t => t = f ∨ (f.stat path = some c ∧ t = f.removed path)) := by
  refine Spec.readAt (Spec.ensured (fun _ => .inl) fun _ => ?_)
  refine SpecOr.point' (fun _ => .inl) fun _ => Spec.readAt ?_
  refine Spec.ite' (fun _ => Spec.pure' () fun _ => .inl) fun _ => ?_
  refine Spec.ensured (fun _ => .inl) fun hstat => ?_
  have hstat : f.stat path = some c := beq_iff_eq.mp hstat
  refine Spec.bind' (M := fun _ t => f.stat path = some c ∧ t = f.removed path) ?_ fun _ => ?_
  · refine Spec.onPart' fun t ht => Spec.onPart' fun m hm => ?_
    subst ht hm
    refine (change_spec _).mono (fun _ d hd => ⟨hstat, ?_⟩) fun d hd => .inl (by rw [hd])
    rw [remove_eq hstat] at hd
    cases hd
    rfl
  · exact SpecOr.point' (fun _ => .inr) fun _ =>
      Spec.point' _ (fun _ => .inr) (fun _ => .inr) fun _ => .inr

theorem cleanup_keeps (hmem : (path, c) ∈ entries) : Keeps (f.Cleaned entries) (cleanupRenamedNativeLocked path c) := by
  refine .at' fun t ht => ?_
  have hends : ∀ u, (u = t ∨ (t.stat path = some c ∧ u = t.removed path)) → f.Cleaned entries u := fun u hu => by
    rcases hu with rfl | ⟨hstat, rfl⟩
    · exact ht
    · exact ht.removed hmem hstat
  exact (cleanup_spec path c).mono (fun _ => hends) hends

theorem cleanups_keep {l : List (Path × NativeRenameCleanup)} (h : ∀ e ∈ l, e ∈ entries) :
    Keeps (f.Cleaned entries) (forEach (fun e => cleanupRenamedNativeLocked e.1 e.2) l) :=
  Spec.forEach' fun e he => cleanup_keeps (h e he)

end

end Filesystem

end CodexFold.Mount
