import CodexFold.Mount.Replacement
import CodexFold.Mount.Tree

/- The next start and the names the mount has published.

   A start wants the names valid, every cleanup on record absent or unchanged, and the
   object of an intent at one of its two paths. Names and native tree change by separate
   effects, and the names in memory can be ahead of the file, so both have to fit the tree
   at every point (`Ready`). Most operations see to that themselves; `orderly` says what
   they do not look at. -/
namespace CodexFold.Mount
open Foundation List Option

def Filesystem.withDisk (f : Filesystem) (d : Disk) : Filesystem := { f with native := { f.native with disk := d } }

namespace ManagedNamespace

def outsideCleanup (n : ManagedNamespace) (new : Path) : Bool := n.cleanup.names.all fun p => !(new.isPrefixOf p)

def moveApart (n : ManagedNamespace) (old new : Path) : Bool :=
  n.move.all fun m => Disk.apart m.target old new && Disk.apart m.source old new

def outsideMove (n : ManagedNamespace) (path : Path) : Bool := n.move.all fun m => m.target != path && m.source != path

/-- The records among the names fit the native tree, and the session an intent displaces has
    a safe name. -/
structure Fits (n : ManagedNamespace) (f : Filesystem) : Prop where
  cleanup : ∀ p c, n.cleanup.get p = some c → f.native.disk.absent p = true ∨ f.stat p = some c
  move : ∀ m, n.move = some m → f.native.disk.files.get m.target = some m.objectID ∨ f.native.disk.files.get m.source = some m.objectID
  displaced : ∀ m id, n.move = some m → m.displaced = some id → safeSessionID id = true

section
variable {n : ManagedNamespace} {f t : Filesystem}

theorem outsideMove_iff {path : Path} : n.outsideMove path ↔ ∀ m, n.move = some m → m.target ≠ path ∧ m.source ≠ path := by
  unfold outsideMove
  cases n.move with
  | none => simp
  | some m => simp

theorem Fits.of_eq (h : n.Fits f) (hdisk : t.native.disk = f.native.disk) (htimes : t.modTimes = f.modTimes) : n.Fits t := by
  have hstat : ∀ p, t.stat p = f.stat p := fun p => by
    unfold Filesystem.stat
    rw [hdisk, htimes]
  refine ⟨fun p c hget => ?_, fun m hm => ?_, h.displaced⟩
  · rw [hdisk, hstat]
    exact h.cleanup p c hget
  · rw [hdisk]
    exact h.move m hm

theorem Fits.of_records {n' : ManagedNamespace} (h : n.Fits f) (hcleanup : n'.cleanup = n.cleanup) (hmove : n'.move = n.move) :
    n'.Fits f :=
  ⟨fun p c hget => h.cleanup p c (hcleanup ▸ hget), fun m hm => h.move m (hmove ▸ hm), fun m id hm => h.displaced m id (hmove ▸ hm)⟩

theorem Fits.of_cleanup (hmove : n.move = none)
    (hcleanup : ∀ p c, n.cleanup.get p = some c → f.native.disk.absent p ∨ f.stat p = some c) : n.Fits f :=
  ⟨hcleanup, fun _ hm => (nomatch hmove.symm.trans hm), fun _ _ hm => (nomatch hmove.symm.trans hm)⟩

def Clear (n : ManagedNamespace) : Prop := n.cleanup.entries = [] ∧ n.move = none

theorem Clear.fits (h : n.Clear) : n.Fits f :=
  .of_cleanup h.2 fun _ _ hget => (nomatch h.1 ▸ n.cleanup.get_eq_some_iff.mp hget)

theorem absent_iff {d : Disk} {p : Path} : d.absent p ↔ d.files.get p = none ∧ p ∉ d.directories ∧
    ∀ q o, q <+: p → q ≠ p → d.files.get q ≠ some o := by
  unfold Disk.absent Disk.blocked
  simp only [Bool.and_eq_true, Bool.not_eq_true', List.any_eq_false, List.contains_eq_mem, decide_eq_false_iff_not, and_assoc,
    isNone_iff_eq_none, Files.mem_names, bne_iff_ne, isPrefixOf_iff_prefix]
  constructor
  · exact fun h => ⟨h.1, h.2.1, fun q o hq hne ho => h.2.2 q ⟨o, ho⟩ ⟨hq, hne⟩⟩
  · exact fun h => ⟨h.1, h.2.1, fun q hget hq => hget.elim fun o ho => h.2.2 q o hq.1 hq.2 ho⟩

theorem cleanup_carried {d : Disk} {p : Path} {c : NativeRenameCleanup} (h : f.native.disk.absent p ∨ f.stat p = some c)
    (hcontents : d.contents = f.native.disk.contents) (hfiles : d.files.get p = f.native.disk.files.get p)
    (hdirectory : p ∈ d.directories → p ∈ f.native.disk.directories)
    (habove : ∀ q o, q <+: p → d.files.get q = some o → f.native.disk.files.get q = some o) :
    (f.withDisk d).native.disk.absent p ∨ (f.withDisk d).stat p = some c := by
  refine h.imp (fun habsent => ?_) fun hstat => ?_
  · obtain ⟨hnone, hnot, hfree⟩ := absent_iff.mp habsent
    exact absent_iff.mpr ⟨hfiles.trans hnone, fun hmem => hnot (hdirectory hmem), fun q o hq hne ho =>
      hfree q o hq hne (habove q o hq ho)⟩
  · unfold Filesystem.stat at hstat ⊢
    show (d.files.get p).map _ = _
    rw [hfiles]
    simpa [Filesystem.withDisk, hcontents] using hstat

theorem Fits.removed (h : n.Fits f) (htree : f.native.disk.Tree) {path : Path} {o : Nat}
    (hpath : f.native.disk.files.get path = some o) (houtside : n.outsideMove path) : n.Fits (f.removed path) := by
  refine ⟨fun p c hget => ?_, fun m hm => ?_, h.displaced⟩
  · by_cases hp : p = path
    · -- the file that has been removed is absent
      subst hp
      exact .inl (absent_iff.mpr ⟨get_erase_self .., htree.disjoint p o hpath, fun q o' hq hne ho =>
        htree.disjoint q o' (get_of_erase ho) (htree.aboveFile hpath hq hne)⟩)
    · exact cleanup_carried (h.cleanup p c hget) rfl (get_erase_ne _ hp) id fun q o _ ho => get_of_erase ho
  · obtain ⟨htarget, hsource⟩ := outsideMove_iff.mp houtside m hm
    exact (h.move m hm).imp (get_erase_ne _ htarget).trans (get_erase_ne _ hsource).trans

theorem renamed_absent {d t : Disk} {old new p : Path} (ht : d.rename old new = .ok t) (hold : old <+: p)
    (hnew : ¬new <+: p) (hfree : ∀ q o, q <+: p → q ≠ p → d.files.get q ≠ some o) (hdirectory : p ∉ d.directories) :
    t.absent p := by
  have hapart : ∀ {q : Path}, q <+: p → ¬new <+: q := fun hq hahead => hnew (hahead.trans hq)
  refine absent_iff.mpr ⟨?_, ?_, fun q o hq hne ho => hfree q o hq hne (rename_back ht (hapart hq) ho)⟩
  · refine eq_none_iff_forall_ne_some.mpr fun o ho => ?_
    rcases rename_cases ht with ⟨moved, hmoved, rfl⟩ | ⟨-, -, -, -, -, rfl⟩
    · have hp : p = old := by
        by_contra hne
        exact hfree old moved hold (Ne.symm hne) hmoved
      have hget : ((d.files.erase old).set new moved).get p = some o := ho
      have hother : p ≠ new := fun heq => hnew (heq ▸ List.prefix_refl p)
      rw [get_set_ne _ _ hother, hp, get_erase_self] at hget
      cases hget
    · obtain ⟨q, hq, -⟩ := exists_of_get_rekey ho
      obtain rfl := moved_back hnew hq
      exact hnew ⟨_, (if_pos ( isPrefixOf_iff_prefix.mpr hold)).symm.trans hq⟩
  · rcases rename_cases ht with ⟨_, -, rfl⟩ | ⟨-, -, -, -, -, rfl⟩
    · exact hdirectory
    · intro hmem
      obtain ⟨q, hq, hmoved⟩ := List.mem_map.mp hmem
      exact hdirectory (moved_back hnew hmoved ▸ hq)

theorem Fits.renamed_cleanup {d : Disk} {old new : Path} (h : n.Fits f) (htree : f.native.disk.Tree)
    (hd : f.native.disk.rename old new = .ok d) (houtside : n.outsideCleanup new) {p : Path} {c : NativeRenameCleanup}
    (hget : n.cleanup.get p = some c) : (f.withDisk d).native.disk.absent p ∨ (f.withDisk d).stat p = some c := by
  have hnew : ¬new <+: p := by
    simpa [← isPrefixOf_iff_prefix] using List.all_eq_true.mp houtside p ((Files.mem_names _).mpr ⟨c, hget⟩)
  by_cases hold : old <+: p
  · left
    rcases h.cleanup p c hget with habsent | hstat
    · obtain ⟨-, hnot, hfree⟩ := absent_iff.mp habsent
      exact renamed_absent hd hold hnew hfree hnot
    · -- the directories above a file hold no file
      obtain ⟨o, ho, -⟩ := map_eq_some_iff.mp hstat
      refine renamed_absent hd hold hnew (fun q o' hq hne ho' => ?_) (htree.disjoint p o ho)
      exact htree.disjoint q o' ho' (htree.aboveFile ho hq hne)
  · refine cleanup_carried (h.cleanup p c hget) (rename_frame hd).1 (rename_apart hd (Disk.apart_iff.mpr ⟨hold, hnew⟩))
      (fun hmem => ?_) fun q o hq => rename_back hd fun hahead => hnew (hahead.trans hq)
    rcases rename_cases hd with ⟨_, -, rfl⟩ | ⟨-, -, -, -, -, rfl⟩
    · exact hmem
    · obtain ⟨q, hq, hmoved⟩ := List.mem_map.mp hmem
      exact moved_back hnew hmoved ▸ hq

theorem Fits.renamed {d : Disk} {old new : Path} (h : n.Fits f) (htree : f.native.disk.Tree)
    (hd : f.native.disk.rename old new = .ok d) (hcleanup : n.outsideCleanup new) (hmove : n.moveApart old new) :
    n.Fits (f.withDisk d) := by
  refine ⟨fun p c => h.renamed_cleanup htree hd hcleanup, fun m hm => ?_, h.displaced⟩
  unfold moveApart at hmove
  rw [hm, all_some, Bool.and_eq_true] at hmove
  exact (h.move m hm).imp (rename_apart hd hmove.1).trans (rename_apart hd hmove.2).trans

theorem Fits.unlinked {d : Disk} {path : Path} (h : n.Fits f) (htree : f.native.disk.Tree)
    (hd : f.native.disk.remove path = .ok d) (houtside : n.outsideMove path) : n.Fits (f.withDisk d) := by
  rcases remove_cases hd with ⟨o, hfile, rfl⟩ | ⟨-, rfl⟩
  · exact h.removed htree hfile houtside
  · refine ⟨fun p c hget => cleanup_carried (h.cleanup p c hget) rfl rfl (fun hmem => (List.mem_filter.mp hmem).1) ?_, h.move,
      h.displaced⟩
    exact fun q o _ ho => ho

theorem Fits.directed {d : Disk} {path : Path} (h : n.Fits f) (hd : f.native.disk.mkdir path = .ok d)
    (hfree : n.cleanup.get path = none) : n.Fits (f.withDisk d) := by
  obtain ⟨-, hd⟩ := of_guard hd
  obtain ⟨-, hd⟩ := of_guard hd
  cases hd
  refine ⟨fun p c hget => cleanup_carried (h.cleanup p c hget) rfl rfl (fun hmem => ?_) ?_, h.move, h.displaced⟩
  · rcases List.mem_cons.mp hmem with rfl | hmem
    · cases hfree.symm.trans hget
    · exact hmem
  · exact fun q o _ ho => ho

end

end ManagedNamespace

namespace Filesystem

def onRecord (f : Filesystem) : ManagedNamespace := f.stored.getD .empty

/-- What the next process finds. -/
structure Durable (f : Filesystem) : Prop where
  sound : f.native.disk.Sound
  tree : f.native.disk.Tree
  rooted : f.rooted = true
  valid : f.onRecord.Valid
  fits : f.onRecord.Fits f

/-- What a process that is up relies on: no native file is open, and memory can be ahead of
    the file with the end of an intent only. -/
structure Ready (f : Filesystem) : Prop extends Durable f where
  store : f.namespaceStore = true
  closed : ∀ p, f.native.nativeAppends.get p = none
  served : ∀ p id, f.paths.get p = some id → safeSessionID id = true ∧ namespaceFilePath p = true
  folding : ∀ g, f.folding = some g → namespaceFilePath g.path = true ∧ safeSessionID g.id = true
  names : f.managedNamespace.Valid
  cleanup : f.managedNamespace.cleanup = f.onRecord.cleanup
  move : f.managedNamespace.move = none ∨ f.managedNamespace.move = f.onRecord.move

section
variable {f t : Filesystem}
variable {n : ManagedNamespace} {path old new name : Path} {id : SessionID}
variable {cleanup : Option NativeRenameCleanup} {recorded : NativeRenameCleanup}

theorem Durable.of_eq (h : f.Durable) (hdisk : t.native.disk = f.native.disk) (htimes : t.modTimes = f.modTimes)
    (hrooted : t.rooted = f.rooted) (hstored : t.stored = f.stored) : t.Durable := by
  have hrecord : t.onRecord = f.onRecord := by
    unfold onRecord
    rw [hstored]
  refine ⟨hdisk ▸ h.sound, hdisk ▸ h.tree, hrooted.trans h.rooted, ?_, ?_⟩
  · rw [hrecord]
    exact h.valid
  · rw [hrecord]
    exact h.fits.of_eq hdisk htimes

section

variable (h : f.Ready)
include h

theorem Ready.fitting : f.managedNamespace.Fits f := by
  rcases h.move with hnone | hsame
  · exact .of_cleanup hnone fun p c hget => h.fits.cleanup p c (h.cleanup ▸ hget)
  · exact h.fits.of_records h.cleanup hsame

omit h in
theorem Durable.published (h : f.Durable) (hvalid : n.Valid) (hfits : n.Fits f) : (f.published n).Durable :=
  ⟨h.sound, h.tree, h.rooted, hvalid, hfits.of_eq rfl rfl⟩

theorem Ready.published (hvalid : n.Valid) (hfits : n.Fits f) : (f.published n).Ready :=
  { h with toDurable := h.toDurable.published hvalid hfits, names := hvalid, cleanup := rfl, move := .inr rfl }

theorem Ready.remembered (hvalid : n.Valid) (hcleanup : n.cleanup = f.managedNamespace.cleanup)
    (hmove : n.move = none ∨ n.move = f.managedNamespace.move) : { f with managedNamespace := n }.Ready :=
  { h with
    toDurable := h.toDurable.of_eq rfl rfl rfl rfl
    names := hvalid
    cleanup := hcleanup.trans h.cleanup
    move := by
      rcases hmove with hnone | hsame
      · exact .inl hnone
      · exact h.move.imp hsame.trans hsame.trans }

theorem Ready.tables (hdisk : t.native.disk = f.native.disk) (htimes : t.modTimes = f.modTimes)
    (hrooted : t.rooted = f.rooted) (hstored : t.stored = f.stored) (hstore : t.namespaceStore = f.namespaceStore)
    (hnames : t.managedNamespace = f.managedNamespace) (hclosed : ∀ p, t.native.nativeAppends.get p = none)
    (hserved : ∀ p id, t.paths.get p = some id → safeSessionID id ∧ namespaceFilePath p)
    (hfolding : ∀ g, t.folding = some g → namespaceFilePath g.path ∧ safeSessionID g.id) : t.Ready := by
  have hrecord : t.onRecord = f.onRecord := by
    unfold onRecord
    rw [hstored]
  exact {
    toDurable := h.toDurable.of_eq hdisk htimes hrooted hstored
    store := hstore.trans h.store
    closed := hclosed
    served := hserved
    folding := hfolding
    names := hnames ▸ h.names
    cleanup := by
      rw [hnames, hrecord]
      exact h.cleanup
    move := by
      rw [hnames, hrecord]
      exact h.move }

omit h in
theorem Durable.changed (h : f.Durable) {d : Disk} (hsound : d.Sound) (htree : d.Tree) (hfits : f.onRecord.Fits (f.withDisk d)) :
    (f.withDisk d).Durable :=
  ⟨hsound, htree, h.rooted, h.valid, hfits⟩

theorem Ready.changed {d : Disk} (hsound : d.Sound) (htree : d.Tree) (hfits : f.onRecord.Fits (f.withDisk d)) :
    (f.withDisk d).Ready :=
  { h with toDurable := h.toDurable.changed hsound htree hfits }

theorem publish_ready (hvalid : n.Valid) (hfits : n.Fits f) :
    Spec (· = f) (publishManagedNamespaceLocked n) (fun _ t => t = f.published n ∧ t.Ready)
      (fun _ t => (t = f ∨ t = f.published n) ∧ t.Ready) Durable := by
  refine (publish_spec n).post (fun _ t ht => ?_) (fun _ t ht => ⟨ht, ?_⟩) fun t ht => ?_
  · subst ht
    exact ⟨rfl, h.published hvalid hfits⟩
  · rcases ht with rfl | rfl
    · exact h
    · exact h.published hvalid hfits
  · rcases ht with rfl | rfl
    · exact h.toDurable
    · exact h.toDurable.published hvalid hfits

theorem Ready.removed {o : Nat} (hpath : f.native.disk.files.get path = some o)
    (houtside : f.onRecord.outsideMove path) : (f.removed path).Ready := by
  refine h.changed (h.sound.fewer (fun p o' hp => ?_) rfl rfl) (h.tree.erase path) (h.fits.removed h.tree hpath houtside)
  have hget : (f.native.disk.files.erase path).get p = some o' := hp
  exact get_of_erase hget

end

/-! ## The start -/

theorem Durable.read (h : f.Durable) : f.readManagedNamespace = .ok f.onRecord := by
  have hvalid := h.valid
  unfold onRecord at hvalid ⊢
  cases hstored : f.stored with
  | none =>
    unfold readManagedNamespace
    rw [hstored]
    rfl
  | some n =>
    rw [hstored] at hvalid
    exact read_of_valid hstored hvalid

theorem Durable.resumed (h : f.Durable) :
    ({ f.restarted with namespaceStore := true, managedNamespace := f.onRecord } : Filesystem).Ready where
  toDurable := h.of_eq rfl rfl rfl rfl
  store := rfl
  closed _ := rfl
  served _ _ hp := nomatch hp
  folding _ hg := nomatch hg
  names := h.valid
  cleanup := rfl
  move := .inr rfl

theorem outsideMove_of_none (h : n.move = none) (path : Path) : n.outsideMove path = true := by
  unfold ManagedNamespace.outsideMove
  rw [h]
  rfl

/-- An intent is settled, and what has become of it is in the file. -/
structure Settled (n : ManagedNamespace) (t : Filesystem) : Prop extends Ready t where
  quiet : t.onRecord.move = none
  recorded : t.onRecord.cleanup = n.cleanup

theorem settled_names (h : f.Ready) {m : NativeRenameIntent} (hmove : f.managedNamespace.move = some m)
    (hn : n = f.managedNamespace.applyNativeRename m ∨ n = { f.managedNamespace with move := none }) :
    n.Valid ∧ n.cleanup = f.managedNamespace.cleanup ∧ n.move = none := by
  rcases hn with rfl | rfl
  · exact ⟨h.names.applyNativeRename (fun id => h.fitting.displaced m id hmove) (h.names.move m hmove).2,
      ManagedNamespace.cleanup_applied _ _, rfl⟩
  · exact ⟨h.names.withoutMove, rfl, rfl⟩

theorem settleMove_completes (h : f.Ready) (hsame : f.managedNamespace = f.onRecord) :
    CompletesOr (· = f) (settleMove f.managedNamespace)
      (fun n t => n.Valid ∧ n.move = none ∧ Settled n t) Durable := by
  unfold settleMove
  cases hmove : f.managedNamespace.move with
  | none =>
    refine .pure' _ fun t ht => ?_
    subst ht
    exact ⟨h.names, hmove, h, hsame ▸ hmove, by rw [hsame]⟩
  | some m =>
    refine .readAt ?_
    -- the object is at one of the two paths
    obtain ⟨n, hn, hcases⟩ : ∃ n, (if f.native.disk.files.get m.target = some m.objectID then
        .ok (f.managedNamespace.applyNativeRename m)
        else if f.native.disk.files.get m.source = some m.objectID then .ok { f.managedNamespace with move := none }
        else .error "native rename recovery cannot identify source or target; both preserved" :
          Except String ManagedNamespace) = .ok n ∧
        (n = f.managedNamespace.applyNativeRename m ∨ n = { f.managedNamespace with move := none }) := by
      by_cases htarget : f.native.disk.files.get m.target = some m.objectID
      · exact ⟨_, if_pos htarget, .inl rfl⟩
      · have hsource := (h.fitting.move m hmove).resolve_left htarget
        exact ⟨_, (if_neg htarget).trans (if_pos hsource), .inr rfl⟩
    obtain ⟨hvalid, hcleanup, hnone⟩ := settled_names h hmove hcases
    have hfits : n.Fits f := .of_cleanup hnone fun p c hget => h.fitting.cleanup p c (hcleanup ▸ hget)
    refine .checked hn (.bind' ⟨(publish_ready h hvalid hfits).post (fun _ _ ht => ht)
      (fun _ _ ht => ht.2.toDurable) fun _ ht => ht, fun t ht => .of_runs (publish_runs n (ht ▸ h.store))⟩ fun _ => ?_)
    refine .pure' _ fun t ht => ?_
    obtain ⟨rfl, hready⟩ := ht
    exact ⟨hvalid, hnone, hready, hnone, rfl⟩

theorem cleanup_absent (c : NativeRenameCleanup) (hrooted : f.rooted)
    (habsent : f.native.disk.absent path) : Runs (cleanupRenamedNativeLocked path c) f () f := by
  refine .bind' (.read' _ _) (.bind' (.ensure' _ _ hrooted) (.bind' (.point' _ _) (.bind' (.read' _ _) ?_)))
  simp only [habsent]
  exact .pure' () f

theorem cleanup_completes {c : NativeRenameCleanup} (hget : n.cleanup.get path = some c) :
    CompletesOr (Settled n) (cleanupRenamedNativeLocked path c) (fun _ => Settled n) Durable := by
  refine .at' fun t ht => ?_
  have hends : ∀ u, (u = t ∨ (t.stat path = some c ∧ u = t.removed path)) → Settled n u := by
    intro u hu
    rcases hu with rfl | ⟨hstat, rfl⟩
    · exact ht
    · exact ⟨ht.toReady.removed (get_of_stat hstat) (outsideMove_of_none ht.quiet _), ht.quiet, ht.recorded⟩
  refine ⟨(cleanup_spec path c).mono (fun _ => hends) fun u hu => (hends u hu).toDurable,
    fun u hu => ?_⟩
  subst hu
  rcases ht.fits.cleanup path c (by rw [ht.recorded]; exact hget) with habsent | hstat
  · exact .of_runs (cleanup_absent c ht.rooted habsent)
  · exact .of_runs (cleanup_runs ht.rooted hstat)

theorem setManagedStore_completes (h : f.Durable) (range : RangeOrder (Path × NativeRenameCleanup)) :
    CompletesOr (· = f.restarted) (setManagedStore range) (fun _ t => t.Ready ∧ t.onRecord.Clear) Durable := by
  have hstart : f.restarted.Durable := h.of_eq rfl rfl rfl rfl
  unfold setManagedStore
  refine .readAt (.checked hstart.read (.bind' (M := fun _ t =>
    t = { f.restarted with namespaceStore := true, managedNamespace := f.restarted.onRecord })
    (.modify' _ fun t ht => by rw [ht]) fun _ => ?_))
  refine .bind' (settleMove_completes h.resumed rfl) fun n => ?_
  refine .at' fun s hs => ?_
  obtain ⟨hvalid, hnone, hsettled⟩ := hs
  have hnames : ({ s with managedNamespace := n.settled } : Filesystem).Ready :=
    hsettled.toReady.remembered hvalid.settled (hsettled.recorded.symm.trans hsettled.cleanup.symm) (.inl hnone)
  refine .bind' (M := fun _ t => Settled n t ∧ ∀ e ∈ range.order n.settled.cleanup.entries, n.cleanup.get e.1 = some e.2)
    (.modify' _ fun t ht => ?_) fun _ => ?_
  · subst ht
    exact ⟨⟨hnames, hsettled.quiet, hsettled.recorded⟩, fun e he => n.cleanup.get_eq_some_iff.mpr ((range.perm _).mem_iff.mp he)⟩
  refine .bind' (.forEach' (I := fun (l : List (Path × NativeRenameCleanup)) t => Settled n t ∧ ∀ e ∈ l, n.cleanup.get e.1 = some e.2)
    (fun e rest => .at' fun t ht => ?_) _) fun _ => ?_
  · have hone : CompletesOr (· = t) (cleanupRenamedNativeLocked e.1 e.2) (fun _ => Settled n) Durable :=
      (cleanup_completes (ht.2 e (.head _))).pre (held ht.1)
    exact hone.weaken fun _ u hu => ⟨hu, fun e' he' => ht.2 e' (.tail _ he')⟩
  · refine .ite' (fun hempty => .pure' () fun t ht => ⟨ht.1.toReady, ?_, ht.1.quiet⟩) fun _ =>
      .at' fun t ht => ?_
    · rw [ht.1.recorded]
      exact List.isEmpty_iff.mp hempty
    · have hcleared : ({ n.settled with cleanup := .empty } : ManagedNamespace).Clear := ⟨rfl, hnone⟩
      have hsafe : ({ n.settled with cleanup := .empty } : ManagedNamespace).Valid :=
        hvalid.settled.withCleanup nofun
      refine ⟨(publish_ready ht.1.toReady hsafe hcleared.fits).post (fun _ u hu => ⟨hu.2, ?_⟩) (fun _ _ hu => hu.2.toDurable)
        fun _ hu => hu, fun u hu => .of_runs (publish_runs _ (hu ▸ ht.1.store))⟩
      rw [hu.1]
      exact hcleared

/-! ## The native journals -/

theorem recovery_directories {dirs : List Path} : Keeps (fun d : Disk => d.directories = dirs) recoverNativeAppendTransactions := by
  have hopen : ∀ path, Keeps (fun d : Disk => d.directories = dirs) (openPath path) := fun _ =>
    .bind' (.point' _) fun _ => .bind' (.read' _) fun _ => .ofExcept' _
  refine .bind' (.point' _) fun _ => .bind' (.read' _) fun _ => ?_
  refine .bind' (.forEach' fun _ => .effect' _ _ fun _ hd => hd) fun _ => .bind' (.read' _) fun _ => ?_
  refine .bind' (.forEach' fun record => ?_) fun _ => .point' _
  refine .bind' (.point' _) fun _ => .bind' (.ofExcept' _) fun _ => .bind' (hopen _) fun _ => ?_
  refine .bind' (.read' _) fun size => .bind' (.ite' ?_ (.pure' _)) fun committed => ?_
  · refine .bind' (.attempt' (.bind' (hopen _) fun _ => .bind' (.point' _) fun _ =>
      .bind' (.read' _) fun _ => .bind' (.ensure' _ _) fun _ => .pure' _)) fun digest => ?_
    cases digest with
    | ok tail | error e => exact .pure' _
  · refine .bind' (.ite' (.pure' _) (.bind' (.ensure' _ _) fun _ => ?_)) fun _ =>
      .effect' _ _ fun _ hd => hd
    refine .bind' (.bind' (hopen _) fun _ => .effect' _ _ fun _ hd => hd) fun _ => ?_
    exact .bind' (hopen _) fun _ => .bind' (.point' _) fun _ => .point' _

theorem start_spec (h : f.Durable) (range : RangeOrder (Path × NativeRenameCleanup)) :
    SpecOr (· = f.restarted) (start range) (fun _ => Ready) Durable := by
  refine .bind' (setManagedStore_completes h range).spec fun _ => .onPart' fun s hs => .onPart' fun m hm => ?_
  subst hm
  obtain ⟨hready, hclear⟩ := hs
  have hends : ∀ d, (Unharmed s.native.disk.files (fun _ _ => none) d ∧ d.directories = s.native.disk.directories) →
      (s.withDisk d).Ready := fun d hd =>
    hready.changed hd.1.sound (hready.tree.of_eq hd.1.files hd.2) hclear.fits
  have hharmless : Safe s.native.disk (fun _ _ => none) :=
    ⟨nofun, nofun, nofun⟩
  refine (recover_unharmed.both recovery_directories).pre (fun d hd => ?_) |>.mono (fun _ => hends) fun d hd => (hends d hd).toDurable
  subst hd
  exact ⟨⟨hready.sound, hharmless, rfl⟩, rfl⟩

/-! ## Operations -/

abbrev Serves {α : Type} (f : Filesystem) (x : MountProg α) : Prop :=
  Spec (· = f) x (fun _ => Ready) (fun _ => Ready) Durable

theorem point_ready (e : String) : Spec Ready (point e : MountProg Unit) (fun _ => Ready) (fun _ => Ready) Durable :=
  .point' e (fun _ h => h) (fun _ h => h) fun _ h => h.toDurable

theorem ensured (h : f.Ready) {α : Type} {c : Bool} {e : String} {k : Unit → MountProg α} (hk : c → f.Serves (k ())) :
    f.Serves (ensure c e >>= k) := by
  cases c with
  | true => exact hk rfl
  | false => exact fun _ => held h

theorem publish_serves (h : f.Ready) (hvalid : n.Valid) (hfits : n.Fits f) : f.Serves (publishManagedNamespaceLocked n) :=
  (publish_ready h hvalid hfits).post (fun _ _ ht => ht.2) (fun _ _ ht => ht.2) fun _ ht => ht

theorem publishForced_serves (h : f.Ready) (hvalid : n.Valid)
    (hcleanup : n.cleanup = f.managedNamespace.cleanup) (hmove : n.move = none ∨ n.move = f.managedNamespace.move) :
    f.Serves (publishForced n) := by
  have hfits : n.Fits f := by
    rcases hmove with hnone | hsame
    · exact .of_cleanup hnone fun p c hget => h.fitting.cleanup p c (hcleanup ▸ hget)
    · exact h.fitting.of_records hcleanup hsame
  refine Spec.attempted ((publish_ready h hvalid hfits).post (fun _ _ ht => ht.2) (fun _ _ ht => ht) fun _ ht => ht)
    (fun _ => ?_) fun e => ?_
  · exact .pure' _ fun _ ht => ht
  · refine .bind' (.modify' _ fun t ht => ?_) fun _ => .pure' _ fun _ ht => ht
    rcases ht with ⟨rfl | rfl, -⟩
    · exact h.remembered hvalid hcleanup hmove
    · exact h.published hvalid hfits

theorem change_tree (g : Disk → Except String Disk) : SpecOr (· = f) (onNative (onTree (change g))) (fun _ t => ∃ d, g f.native.disk = .ok d ∧ t = f.withDisk d)
      (· = f) := by
  refine .onPart' fun t ht => .onPart' fun m hm => ?_
  subst ht hm
  exact (change_spec g).mono (fun _ d hd => ⟨d, hd, rfl⟩) fun d hd => by rw [hd]

section

variable (h : f.Ready)
include h

section

variable {g : Disk → Except String Disk} (hkeeps : ∀ {d}, g f.native.disk = .ok d → f.onRecord.Fits (f.withDisk d))
  (hsound : ∀ {d}, g f.native.disk = .ok d → d.Sound) (htree : ∀ {d}, g f.native.disk = .ok d → d.Tree)
include hkeeps hsound htree

theorem changeTree_serves : f.Serves (onNative (onTree (change g))) := by
  refine (change_tree g).post (fun _ t ht => ?_) (fun _ => held h) (held h.toDurable)
  obtain ⟨d, hd, rfl⟩ := ht
  exact h.changed (hsound hd) (htree hd) (hkeeps hd)

theorem changeNative_kept : Spec (· = f.native) (onTree (change g))
    (fun _ m => (f.withDisk m.disk).Ready ∧ m = { f.native with disk := m.disk })
    (fun _ m => { f with native := m }.Ready) fun m => { f with native := m }.Durable := by
  refine .onPart' fun m hm => ?_
  subst hm
  refine (change_spec g).post (fun _ d hd => ⟨h.changed (hsound hd) (htree hd) (hkeeps hd), rfl⟩) (fun _ d hd => ?_) fun d hd => ?_
  · rw [hd]
    exact h
  · rw [hd]
    exact h.toDurable

end

theorem renameNative_serves (hapart : f.onRecord.outsideCleanup new && f.onRecord.moveApart old new) :
    f.Serves (onNative (renameNative old new)) := by
  refine .onPart' fun t ht => ?_
  subst ht
  refine .readAt ?_
  rw [h.closed old]
  obtain ⟨hcleanup, hmove⟩ := Bool.and_eq_true_iff.mp hapart
  refine .bind' (changeNative_kept h (h.fits.renamed h.tree · hcleanup hmove) h.sound.rename h.tree.rename) fun _ => .modify' _ fun m hm => ?_
  refine hm.1.tables rfl rfl rfl rfl rfl rfl (fun p => ?_) h.served h.folding
  show ((m.nativeAppends.erase old).erase new).get p = none
  rw [hm.2, get_erase, get_erase, h.closed p, ite_self, ite_self]

section

variable (houtside : f.onRecord.outsideMove path = true)
include houtside

theorem unlinkNative_serves : f.Serves (onNative (unlinkNative path)) := by
  refine .onPart' fun t ht => ?_
  subst ht
  refine .bind' (changeNative_kept h (h.fits.unlinked h.tree · houtside) h.sound.remove h.tree.remove) fun _ => .modify' _ fun m hm => ?_
  refine hm.1.tables rfl rfl rfl rfl rfl rfl (fun p => ?_) h.served h.folding
  rw [hm.2, get_erase, h.closed p, ite_self]

theorem unlinkFile_serves : f.Serves (unlinkFile path) := by
  refine .readAt (ensured h fun _ => ?_)
  refine ensured h fun _ => ?_
  refine .bind' (unlinkNative_serves h houtside) fun _ => .at' fun t ht => .readAt ?_
  refine .ite' (fun _ => ?_) fun _ => .pure' () (held ht)
  refine .bind' (publishForced_serves ht (ht.names.dropNative path) rfl (.inr rfl)) fun published => ?_
  exact .ofExcept' published (fun _ _ _ hu => hu) fun _ _ _ hu => hu

omit houtside in
theorem mkdir_serves (hfree : f.onRecord.cleanup.get path = none) : f.Serves (mkdir path) := by
  refine .readAt (ensured h fun _ => ?_)
  refine ensured h fun _ => ?_
  refine ensured h fun _ => ?_
  refine .bind' (M := fun _ => Ready) (.ite' (fun _ => ?_) fun _ => .pure' () (held h)) fun _ =>
    .modify' _ fun t ht => ht.tables rfl rfl rfl rfl rfl rfl ht.closed ht.served ht.folding
  exact changeTree_serves h (h.fits.directed · hfree) h.sound.mkdir h.tree.mkdir

theorem rmdir_serves : f.Serves (rmdir path) := by
  refine .readAt (ensured h fun _ => ?_)
  refine ensured h fun _ => ?_
  refine ensured h fun _ => ?_
  refine .bind' (changeTree_serves h (h.fits.unlinked h.tree · houtside) h.sound.remove h.tree.remove) fun _ => .modify' _ fun t ht => ?_
  exact ht.tables rfl rfl rfl rfl rfl rfl ht.closed ht.served ht.folding

end

/-! ## Imports -/

omit h in
theorem moveNative_closed {m : Native} (hclosed : m.nativeAppends.get old = none) (new : Path) :
    SpecOr (· = m) (moveNative old new) (fun state t => state = none ∧ ∃ d, m.disk.rename old new = .ok d ∧ t = { m with disk := d })
      (· = m) := by
  refine .readAt ?_
  rw [hclosed]
  refine .bind' (.onPart' fun t ht => ?_) fun _ => .pure' _ fun _ ht => ⟨rfl, ht⟩
  subst ht
  exact (change_spec _).mono (fun _ d hd => ⟨d, hd, rfl⟩) fun d hd => by rw [hd]

theorem finishImport_serves {m : NativeRenameIntent} (hmove : f.managedNamespace.move = some m) :
    f.Serves (finishImport f.managedNamespace m none) := by
  obtain ⟨hvalid, hcleanup, hnone⟩ := settled_names h hmove (.inl rfl)
  refine .bind' (publishForced_serves h hvalid hcleanup (.inl hnone)) fun _ => .modify' _ fun t ht => ?_
  refine ht.tables rfl rfl rfl rfl rfl rfl (fun p => ?_) (fun p id hp => ?_) ht.folding
  · show ((t.native.nativeAppends.erase m.source).erase m.target).get p = none
    rw [get_erase, get_erase, ht.closed p, ite_self, ite_self]
  · exact ht.served p id (get_of_erase hp)

end

theorem import_serves (h : f.Ready) (hold : namespaceFilePath old) (hnew : namespaceFilePath new)
    (houtside : f.onRecord.outsideCleanup new) : f.Serves (importNativeRename old new) := by
  refine .readAt (.checked (fun _ => held h) fun o hsource => .readAt (.readAt ?_))
  obtain ⟨-, hfile⟩ := importSource_eq_ok hsource
  have hvalid : (f.intended ⟨old, new, o, f.paths.get new⟩).Valid := h.names.withMove hold hnew
  have hfits : (f.intended ⟨old, new, o, f.paths.get new⟩).Fits f :=
    ⟨h.fitting.cleanup, fun m hm => some.inj hm ▸ .inr hfile, fun m id hm hid => by
      cases hm
      exact (h.served new id hid).1⟩
  refine .bind' ((publish_ready h hvalid hfits).post (fun _ _ ht => ht) (fun _ _ ht => ht.2) fun _ ht => ht) fun _ => ?_
  refine .bind' (M := fun r t => match r with
      | .ok state => state = none ∧ t.Ready ∧ t.managedNamespace = f.intended ⟨old, new, o, f.paths.get new⟩
      | .error _ => t = f.published (f.intended ⟨old, new, o, f.paths.get new⟩) ∧ t.Ready)
    (.attempt' (.onPart' fun t ht => ?_)) fun r => ?_
  · obtain ⟨rfl, hready⟩ := ht
    refine (moveNative_closed (hready.closed old) new).post (fun state m hm => ?_) (fun _ m hm => ?_) fun m hm => ?_
    · obtain ⟨rfl, d, hd, rfl⟩ := hm
      have hd : f.native.disk.rename old new = .ok d := hd
      refine ⟨rfl, hready.changed (h.sound.rename hd) (h.tree.rename hd) ⟨fun p c hget => ?_, fun m hm => ?_, fun m id hm hid => ?_⟩, rfl⟩
      · exact h.fits.renamed_cleanup h.tree hd houtside (h.cleanup ▸ hget)
      · cases hm
        exact .inl (rename_lookups hfile hd).1
      · cases hm
        exact (h.served new id hid).1
    · subst hm
      exact ⟨rfl, hready⟩
    · subst hm
      exact hready.toDurable
  · cases r with
    | ok state =>
      refine .at' fun t ht => ?_
      obtain ⟨rfl, hready, hnames⟩ := ht
      rw [← show t.managedNamespace = { f.managedNamespace with move := some ⟨old, new, o, f.paths.get new⟩ } from hnames]
      exact finishImport_serves hready (by rw [hnames]; rfl)
    | error e =>
      refine .at' fun t ht => ?_
      obtain ⟨rfl, hready⟩ := ht
      have hwithdrawn : ({ f.managedNamespace with move := none } : ManagedNamespace).Fits
          (f.published (f.intended ⟨old, new, o, f.paths.get new⟩)) :=
        .of_cleanup rfl fun p c hget => (h.fitting.of_eq rfl rfl).cleanup p c hget
      exact .bind' (.attempt' (publish_serves hready h.names.withoutMove hwithdrawn)) fun _ =>
        .throw' _ fun _ ht => ht

/-! ## Renames of sessions -/

def nameFree (n : ManagedNamespace) (path : Path) (id : SessionID) (displaced : Option SessionID) : Bool :=
  n.names.entries.all fun e => e.2.path != some path || e.1 == id || displaced == some e.1

theorem nameFree_iff {displaced : Option SessionID} : nameFree n path id displaced ↔
      ∀ id' name, n.names.get id' = some name → name.path = some path → id' = id ∨ displaced = some id' := by
  unfold nameFree
  rw [List.all_eq_true]
  constructor
  · intro h id' name hget hpath
    have hone := h _ (n.names.get_eq_some_iff.mp hget)
    simpa [hpath] using hone
  · intro h e he
    by_cases hpath : e.2.path = some path
    · simpa [hpath] using h e.1 e.2 (n.names.get_eq_some_iff.mpr he) hpath
    · simp [hpath]

def sparesIntent (f : Filesystem) (path : Path) : Bool :=
  (f.stat path).isNone || f.managedNamespace.outsideMove path

def renamedTo (f : Filesystem) (id : SessionID) (old new : Path) : ManagedName :=
  ⟨some new, match f.managedNamespace.names.get id with
    | some name => name.origin
    | none => old, false⟩

def vacated (f : Filesystem) (id : SessionID) (new : Path) : ManagedNamespace :=
  match f.paths.get new with
  | some displaced => if displaced = id then f.managedNamespace else f.managedNamespace.hide displaced new
  | none => f.managedNamespace

theorem renamedNames_get (id : SessionID) (old new : Path) (cleanup : Option NativeRenameCleanup) (x : SessionID) :
    (f.renamedNames id old new cleanup).names.get x = ((f.vacated id new).setName id (f.renamedTo id old new)).names.get x := by
  unfold renamedNames vacated
  cases hpath : f.paths.get new with
  | none => cases cleanup <;> rfl
  | some displaced =>
    by_cases hsame : displaced = id
    · simp only [if_pos hsame]
      cases cleanup <;> rfl
    · simp only [if_neg hsame]
      have hnames : ∀ n : ManagedNamespace, n.names = f.managedNamespace.names.set id (f.renamedTo id old new) →
          (n.hide displaced new).names.get x =
            ((f.managedNamespace.hide displaced new).setName id (f.renamedTo id old new)).names.get x := by
        intro n hn
        unfold ManagedNamespace.hide ManagedNamespace.setName
        rw [hn]
        simp only [get_set, if_neg hsame]
        by_cases hx : x = displaced
        · subst hx
          simp only [if_true, if_neg hsame]
        · simp only [if_neg hx]
      cases cleanup <;> exact hnames _ rfl

theorem renamedNames_records (id : SessionID) (old new : Path) (cleanup : Option NativeRenameCleanup) :
    (f.renamedNames id old new cleanup).move = f.managedNamespace.move ∧
      (f.renamedNames id old new cleanup).native = f.managedNamespace.native.filter (· != new) ∧
      (f.renamedNames id old new cleanup).cleanup = match cleanup with
        | some recorded => f.managedNamespace.cleanup.set new recorded
        | none => f.managedNamespace.cleanup := by
  unfold renamedNames
  cases f.paths.get new with
  | none => cases cleanup <;> exact ⟨rfl, rfl, rfl⟩
  | some displaced =>
    by_cases hsame : displaced = id
    · simp only [if_pos hsame]
      cases cleanup <;> exact ⟨rfl, rfl, rfl⟩
    · simp only [if_neg hsame]
      cases cleanup <;> exact ⟨rfl, rfl, rfl⟩

theorem coveredBy_eq_ok (hrooted : f.rooted) (h : f.coveredBy new = .ok cleanup) : f.stat new = cleanup := by
  obtain ⟨_, -, h⟩ := of_bind h
  obtain ⟨_, -, h⟩ := of_bind h
  rw [hrooted] at h
  simp only [if_true] at h
  cases hstat : f.stat new with
  | none =>
    rw [hstat] at h
    exact Except.ok.inj h
  | some recorded =>
    rw [hstat] at h
    obtain ⟨_, -, h⟩ := of_bind h
    exact Except.ok.inj h

section

variable (h : f.Ready)
include h

theorem vacated_valid (id : SessionID) (hnew : namespaceFilePath new) : (f.vacated id new).Valid := by
  unfold vacated
  cases hpath : f.paths.get new with
  | none => exact h.names
  | some displaced =>
    by_cases hsame : displaced = id
    · simp only [if_pos hsame]
      exact h.names
    · simp only [if_neg hsame]
      exact h.names.hide (h.served new displaced hpath).1 hnew

omit h in
theorem vacated_free (hfree : nameFree f.managedNamespace new id (f.paths.get new)) {x : SessionID}
    {name : ManagedName} (hget : (f.vacated id new).names.get x = some name) (hpath : name.path = some new) : x = id := by
  have hold := nameFree_iff.mp hfree
  unfold vacated at hget
  cases hserved : f.paths.get new with
  | none =>
    rw [hserved] at hget hold
    exact (hold x name hget hpath).resolve_right nofun
  | some displaced =>
    rw [hserved] at hget hold
    by_cases hsame : displaced = id
    · simp only [if_pos hsame] at hget
      rcases hold x name hget hpath with hx | hx
      · exact hx
      · exact (some.inj hx).symm.trans hsame
    · simp only [if_neg hsame] at hget
      unfold ManagedNamespace.hide ManagedNamespace.setName at hget
      rw [get_set] at hget
      split at hget
      · -- the displaced session has no path any more
        cases hget
        split at hpath <;> cases hpath
      · rcases hold x name hget hpath with hx | hx
        · exact hx
        · exact absurd (some.inj hx).symm ‹_›

section

variable (hid : safeSessionID id = true)
include hid

theorem renamedNames_valid (hold : namespaceFilePath old) (hnew : namespaceFilePath new)
    (hfree : nameFree f.managedNamespace new id (f.paths.get new)) : (f.renamedNames id old new cleanup).Valid := by
  have hname : (f.renamedTo id old new).Safe id := by
    refine ⟨hid, ?_, fun p hp => ?_⟩
    · unfold renamedTo
      cases hget : f.managedNamespace.names.get id with
      | none => exact hold
      | some name => exact (h.names.safe id name hget).2.1
    · cases hp
      exact hnew
  have hset : ((f.vacated id new).setName id (f.renamedTo id old new)).Valid :=
    (vacated_valid h id hnew).setName hname fun x name p hget hp hto => by
      cases hto
      exact vacated_free hfree hget hp
  obtain ⟨hmove, hnative, hcleanup⟩ := f.renamedNames_records id old new cleanup
  refine ⟨fun x name hget => ?_, fun x y name name' p hget hget' => ?_, fun p c hget => ?_, fun p hp => ?_, fun m hm => ?_⟩
  · rw [renamedNames_get] at hget
    exact hset.safe x name hget
  · rw [renamedNames_get] at hget hget'
    exact hset.distinct x y name name' p hget hget'
  · rw [hcleanup] at hget
    cases cleanup with
    | none => exact h.names.cleanup p c hget
    | some recorded =>
      simp only [get_set] at hget
      split at hget
      · subst p
        exact hnew
      · exact h.names.cleanup p c hget
  · rw [hnative] at hp
    exact h.names.native p (mem_filter.mp hp).1
  · exact h.names.move m (hmove ▸ hm)

omit hid in
omit h in
theorem covered_fits {n' : ManagedNamespace} (h : n.Fits f)
    (hstat : f.stat path = some recorded) (hcleanup : n'.cleanup = n.cleanup.set path recorded) (hmove : n'.move = n.move) : n'.Fits f := by
  refine ⟨fun p c hget => ?_, fun m hm => h.move m (hmove ▸ hm), fun m id hm => h.displaced m id (hmove ▸ hm)⟩
  rw [hcleanup, get_set] at hget
  split at hget
  · subst p
    exact .inr (hstat.trans hget)
  · exact h.cleanup p c hget

omit hid in
theorem removeCovered_serves (houtside : f.onRecord.outsideMove path) :
    f.Serves (removeCovered path recorded) := by
  have hends : ∀ u, (u = f ∨ (f.stat path = some recorded ∧ u = f.removed path)) → u.Ready := by
    intro u hu
    rcases hu with rfl | ⟨hstat, rfl⟩
    · exact h
    · exact h.removed (get_of_stat hstat) houtside
  refine .bind' (M := fun _ => Ready) (.attempt' ((cleanup_spec path recorded).post (fun _ => hends) (fun _ => hends)
    fun u hu => (hends u hu).toDurable)) fun r => ?_
  cases r with
  | error _ => exact .pure' () fun _ ht => ht
  | ok _ =>
    refine .at' fun t ht => .readAt ?_
    have hfewer : ∀ p c, (t.managedNamespace.cleanup.erase path).get p = some c → t.managedNamespace.cleanup.get p = some c := by
      intro p c hget
      exact get_of_erase hget
    have hvalid : ({ t.managedNamespace with cleanup := t.managedNamespace.cleanup.erase path } : ManagedNamespace).Valid :=
      ht.names.withCleanup fun p c hget => ht.names.cleanup p c (hfewer p c hget)
    have hfits : ({ t.managedNamespace with cleanup := t.managedNamespace.cleanup.erase path } : ManagedNamespace).Fits t :=
      ⟨fun p c hget => ht.fitting.cleanup p c (hfewer p c hget), ht.fitting.move, ht.fitting.displaced⟩
    exact .bind' (.attempt' (publish_serves ht hvalid hfits)) fun _ => .pure' () fun _ hu => hu

theorem publishRename_serves (hold : namespaceFilePath old) (hnew : namespaceFilePath new)
    (hfree : nameFree f.managedNamespace new id (f.paths.get new)) (hstat : f.stat new = cleanup)
    (hspares : f.sparesIntent new) : f.Serves (publishRename id old new cleanup) := by
  obtain ⟨hmove, -, hcleanup⟩ := f.renamedNames_records id old new cleanup
  have hvalid : (f.renamedNames id old new cleanup).Valid := renamedNames_valid h hid hold hnew hfree
  have hfits : (f.renamedNames id old new cleanup).Fits f := by
    cases hcover : cleanup with
    | none =>
      subst hcover
      exact h.fitting.of_records hcleanup hmove
    | some recorded =>
      subst hcover
      exact covered_fits h.fitting hstat hcleanup hmove
  refine .readAt (.bind'
    (.onFailure' ((publish_ready h hvalid hfits).post (fun _ _ ht => ht) (fun _ _ ht => ht.2) fun _ ht => ht)
      fun _ => point_ready _) fun _ => ?_)
  cases hcover : cleanup with
  | none => exact .pure' () fun _ ht => ht.2
  | some recorded =>
    subst hcover
    refine .bind' (M := fun _ t => t = { f.published (f.renamedNames id old new (some recorded)) with
      native := { f.native with nativeAppends := f.native.nativeAppends.erase new } } ∧ t.Ready) (.modify' _ fun t ht => ?_)
      fun _ => .at' fun t ht => ?_
    · obtain ⟨rfl, hready⟩ := ht
      refine ⟨rfl, hready.tables rfl rfl rfl rfl rfl rfl (fun p => ?_) h.served h.folding⟩
      show (f.native.nativeAppends.erase new).get p = none
      rw [get_erase, h.closed p, ite_self]
    · obtain ⟨rfl, hready⟩ := ht
      refine removeCovered_serves hready ?_
      unfold sparesIntent at hspares
      rw [hstat] at hspares
      have hintent : f.managedNamespace.outsideMove new := hspares
      rw [ManagedNamespace.outsideMove_iff] at hintent ⊢
      exact fun m hm => hintent m (hmove ▸ hm)

theorem Ready.rerouted (hnew : namespaceFilePath new) (p : Path) (x : SessionID)
    (hp : ((f.paths.erase old).set new id).get p = some x) : safeSessionID x ∧ namespaceFilePath p = true := by
  rw [get_set] at hp
  split at hp
  · cases hp
    subst p
    exact ⟨hid, hnew⟩
  · exact h.served p x (get_of_erase hp)

theorem renameManaged_serves (hold : namespaceFilePath old) (hnew : namespaceFilePath new)
    (horderly : (f.coveredBy new).toBool → nameFree f.managedNamespace new id (f.paths.get new) ∧ f.sparesIntent new) :
    f.Serves (renameManagedLocked id old new) := by
  unfold renameManagedLocked
  refine .readAt (.checked (fun _ => held h) fun cleanup hcovered => .readAt (.readAt ?_))
  obtain ⟨hfree, hspares⟩ := horderly (by rw [hcovered]; rfl)
  refine ensured h fun _ => ensured h fun _ => ?_
  refine .bind' (M := fun _ t => t = f) (.point' _ (fun _ ht => ht) (held h) (held h.toDurable)) fun _ => ?_
  rw [h.store]
  refine .bind' (publishRename_serves h hid hold hnew hfree (coveredBy_eq_ok h.rooted hcovered) hspares) fun _ =>
    .modify' _ fun t ht => ht.tables rfl rfl rfl rfl rfl rfl ht.closed (ht.rerouted hid hnew) ht.folding

theorem renameUnlinked_serves (hnew : namespaceFilePath new) : f.Serves (renameUnlinked id old new) := by
  refine .readAt (ensured h fun _ => ensured h fun _ => ?_)
  have hpoint : Keeps (· = f) (point "rename xattr carrier" : MountProg Unit) := .point' _
  refine .after hpoint (fun _ => held h) (held h.toDurable) fun _ => ?_
  refine .after (.onFailure' (.point' _) hpoint) (fun _ => held h) (held h.toDurable) fun _ => ?_
  refine .modify' _ fun t ht => ?_
  subst ht
  exact h.tables rfl rfl rfl rfl rfl rfl h.closed (h.rerouted hid hnew) h.folding

end

end

/-- What `Rename` does not look at: a session that keeps a name without being served, a
    cleanup on record for the target, and an intent that was left behind. What the code
    refuses is orderly. -/
def renameOrderly (f : Filesystem) (old new : Path) : Bool :=
  !(renameAllowed old new) || old == new ||
    match f.paths.get old with
    | none =>
      (f.retained.get old).isSome ||
        (f.onRecord.outsideCleanup new && (f.importTarget old new || f.onRecord.moveApart old new))
    | some id =>
      (f.pendingManagedUnlinks.get old).isSome || !(f.hasDirectory new) || fskitOpenUnlinkPath new ||
        !((f.coveredBy new).toBool) || (nameFree f.managedNamespace new id (f.paths.get new) && f.sparesIntent new)

section

variable (h : f.Ready)
include h

theorem rename_serves (horderly : f.renameOrderly old new) : f.Serves (rename old new) := by
  unfold renameOrderly at horderly
  refine ensured h fun hallowed => ?_
  rw [hallowed] at horderly
  have hpaths : namespaceFilePath old = true ∧ namespaceFilePath new = true :=
    Bool.and_eq_true_iff.mp (Bool.and_eq_true_iff.mp hallowed).1
  refine .ite' (fun _ => .readAt ?_) fun hne => .readAt ?_
  · exact .ensure' _ _ (fun _ => held h) (held h)
  rw [beq_eq_false_iff_ne.mpr hne] at horderly
  simp only [Bool.not_true, Bool.false_or] at horderly
  cases hroute : f.paths.get old with
  | none =>
    rw [hroute] at horderly
    refine .readAt (ensured h fun hnative => ?_)
    have hfree : (f.retained.get old).isSome = false := isSome_eq_false_iff.mpr (Bool.and_eq_true_iff.mp hnative).1
    simp only [hfree, Bool.false_or] at horderly
    refine .ite' (fun himport => ?_) fun himport => ?_
    · exact import_serves h hpaths.1 hpaths.2 (Bool.and_eq_true_iff.mp horderly).1
    · rw [Bool.eq_false_iff.mpr himport, Bool.false_or] at horderly
      exact renameNative_serves h horderly
  | some id =>
    rw [hroute] at horderly
    obtain ⟨hid, -⟩ := h.served old id hroute
    refine .readAt (ensured h fun hpending => ensured h fun hdirectory => ?_)
    refine .ite' (fun _ => renameUnlinked_serves h hid hpaths.2) fun hunlinked => ?_
    refine renameManaged_serves h hid hpaths.1 hpaths.2 fun hcovered => ?_
    have hnone : (f.pendingManagedUnlinks.get old).isSome = false := isSome_eq_false_iff.mpr hpending
    simp only [hnone, hdirectory, hcovered, Bool.eq_false_iff.mpr hunlinked, Bool.not_true, Bool.false_or] at horderly
    exact Bool.and_eq_true_iff.mp horderly

/-! ## Sessions -/

theorem Ready.fewer (keep : Path → Bool) (p : Path) (x : SessionID) (hp : (f.paths.keep keep).get p = some x) :
    safeSessionID x ∧ namespaceFilePath p = true := by
  rw [get_keep] at hp
  split at hp
  · exact h.served p x hp
  · cases hp

theorem unlinkManaged_serves (hroute : f.paths.get path = some id) : f.Serves (unlinkManaged id path) := by
  obtain ⟨hid, hpath⟩ := h.served path id hroute
  have htables : ∀ {t u : Filesystem}, t.Ready → u.native = t.native → u.modTimes = t.modTimes → u.rooted = t.rooted →
      u.stored = t.stored → u.namespaceStore = t.namespaceStore → u.managedNamespace = t.managedNamespace →
      u.folding = t.folding → u.paths = t.paths → u.Ready := fun ht hnative htimes hrooted hstored hstore hnames hfolding hpaths =>
    ht.tables (congrArg Native.disk hnative) htimes hrooted hstored hstore hnames (hnative ▸ ht.closed) (hpaths ▸ ht.served)
      (hfolding ▸ ht.folding)
  have hauthorized : f.Serves (authorizeUnlink id path) := by
    refine .readAt ?_
    cases f.pendingManagedUnlinks.get path with
    | some pending => exact .ensure' _ _ (fun _ => held h) (held h)
    | none =>
      refine .readAt (ensured h fun _ => ensured h fun _ => ?_)
      refine .bind' ((point_ready _).pre (held h)) fun _ => .modify' _ fun t ht => ?_
      exact htables ht rfl rfl rfl rfl rfl rfl rfl rfl
  refine .bind' hauthorized fun _ => ?_
  refine .bind' (M := fun _ => Ready) (.modify' _ fun t ht => htables ht rfl rfl rfl rfl rfl rfl rfl rfl) fun _ => ?_
  refine .bind' (M := fun _ => Ready) (.at' fun t ht => .readAt (.ite' (fun _ => ?_) fun _ =>
    .pure' () (held ht))) fun _ => ?_
  · exact .bind' (publishForced_serves ht (ht.names.hide hid hpath) rfl (.inr rfl)) fun _ => .pure' () fun _ hu => hu
  · refine .bind' (.modify' _ fun t ht => ?_) fun _ => point_ready _
    exact ht.tables rfl rfl rfl rfl rfl rfl ht.closed (ht.fewer _) ht.folding

theorem Ready.mounted (hid : safeSessionID id) (hpath : namespaceFilePath path) (session : Session) :
    (f.mounted id path session).Ready := by
  refine h.tables rfl rfl rfl rfl rfl rfl h.closed (fun p x hp => ?_) h.folding
  have hget : (f.paths.set path id).get p = some x := hp
  rw [get_set] at hget
  split at hget
  · cases hget
    subst p
    exact ⟨hid, hpath⟩
  · exact h.served p x hget

theorem Ready.route (hname : namespaceFilePath name) (hroute : f.managedNamespace.route id name = some path) :
    namespaceFilePath path = true := by
  unfold ManagedNamespace.route at hroute
  cases hget : f.managedNamespace.names.get id with
  | none =>
    rw [hget] at hroute
    cases hroute
    exact hname
  | some entry =>
    rw [hget] at hroute
    exact (h.names.safe id entry hget).2.2 path hroute

theorem addSession_serves (id : SessionID) (name : Path) (session : Session) :
    f.Serves (addSessionAt id name session) := by
  refine ensured h fun hsafe => .readAt ?_
  obtain ⟨hid, hname⟩ := Bool.and_eq_true_iff.mp hsafe
  cases hroute : f.managedNamespace.route id name with
  | none => exact (point_ready _).pre (held h)
  | some path =>
    refine ensured h fun _ => ensured h fun _ => ensured h fun _ => .modify' _ fun t ht => ?_
    subst ht
    exact h.mounted hid (h.route hname hroute) session

end

def sidecarOrderly (f : Filesystem) (id : SessionID) (name : Path) : Bool :=
  match f.routeOf id, f.managedNamespace.route id name with
  | some old, some path =>
    !(canonicalSessionPath old && canonicalSessionPath path) || (f.onRecord.outsideCleanup (sidecar path) && f.onRecord.moveApart (sidecar old) (sidecar path))
  | _, _ => true

section

variable (h : f.Ready)
include h

theorem metadata_serves {α : Type} {k : MountProg α} (hroute : f.managedNamespace.route id name = some path)
    (horderly : f.sidecarOrderly id name) (hk : Spec Ready k (fun _ => Ready) (fun _ => Ready) Durable) :
    f.Serves (do
      modify fun t => t.withDirectories (dir path)
      moveManagedMetadata (f.routeOf id) path
      k) := by
  have hknown : (f.withDirectories (dir path)).Ready := h.tables rfl rfl rfl rfl rfl rfl h.closed h.served h.folding
  refine .modifyAt (.bind' ?_ fun _ => hk)
  unfold sidecarOrderly at horderly
  cases hold : f.routeOf id with
  | none => exact .pure' () (held hknown)
  | some old =>
    rw [hold, hroute] at horderly
    refine .bind' (.readAt (.ite' (fun hmoves => ?_) fun _ => .pure' () (held hknown))) fun _ => point_ready _
    obtain ⟨hcanonical, -⟩ := Bool.and_eq_true_iff.mp hmoves
    rw [Bool.and_assoc, Bool.and_eq_true] at hcanonical
    simp only [hcanonical.2, Bool.not_true, Bool.false_or] at horderly
    obtain ⟨hcleanup, hmove⟩ := Bool.and_eq_true_iff.mp horderly
    exact changeTree_serves hknown (hknown.fits.renamed h.tree · hcleanup hmove) h.sound.rename h.tree.rename

theorem upsertSession_serves (session : Session)
    (horderly : f.deletedManagedSessions.contains id ∨ f.sidecarOrderly id name) :
    f.Serves (upsertSessionAt id name session) := by
  refine ensured h fun hsafe => .readAt ?_
  obtain ⟨hid, hname⟩ := Bool.and_eq_true_iff.mp hsafe
  cases hroute : f.managedNamespace.route id name with
  | none => exact (point_ready _).pre (held h)
  | some path =>
    refine ensured h fun halive => ensured h fun _ => metadata_serves h hroute (horderly.resolve_left fun hdeleted => ?_) ?_
    · rw [hdeleted] at halive
      cases halive
    refine .bind' (.modify' _ fun t ht => ?_) fun _ => point_ready _
    have hfewer : { t with paths := t.paths.keep fun p => t.paths.get p != some id }.Ready :=
      ht.tables rfl rfl rfl rfl rfl rfl ht.closed (ht.fewer _) ht.folding
    exact hfewer.mounted hid (h.route hname hroute) session

theorem moveSession_serves (horderly : (f.sessions.get id).isNone ∨ f.sidecarOrderly id name) :
    f.Serves (moveSessionAt id name) := by
  refine ensured h fun hsafe => .readAt ?_
  obtain ⟨hid, hname⟩ := Bool.and_eq_true_iff.mp hsafe
  cases hroute : f.managedNamespace.route id name with
  | none => exact .pure' () (held h)
  | some path =>
    refine ensured h fun _ => ensured h fun hmounted => metadata_serves h hroute (horderly.resolve_left fun hnone => ?_) ?_
    · rw [isNone_iff_eq_none.mp hnone] at hmounted
      cases hmounted
    refine .modify' _ fun t ht => ht.tables rfl rfl rfl rfl rfl rfl ht.closed (fun p x hp => ?_) ht.folding
    rw [get_set] at hp
    split at hp
    · cases hp
      subst p
      exact ⟨hid, h.route hname hroute⟩
    · exact ht.fewer _ p x hp

theorem removeSession_serves (id : SessionID) : f.Serves (removeSession id) := by
  refine .readAt (ensured h fun _ => ensured h fun _ => ?_)
  refine .bind' (.modify' _ fun t ht => ?_) fun _ => point_ready _
  subst ht
  exact h.tables rfl rfl rfl rfl rfl rfl h.closed (h.fewer _) h.folding

theorem preferNative_serves (id : SessionID) : f.Serves (preferNativeSession id) := by
  refine .readAt (ensured h fun _ => .modify' _ fun t ht => ?_)
  subst ht
  exact h.tables rfl rfl rfl rfl rfl rfl h.closed h.served h.folding

theorem hideDeleted_serves (id : SessionID) (path : Path) : f.Serves (hideDeletedSessionAt id path) := by
  refine ensured h fun _ => .bind' (M := fun _ => Ready) (.modify' _ fun t ht => ?_) fun _ => .at' fun t ht => .readAt ?_
  · subst ht
    exact h.tables rfl rfl rfl rfl rfl rfl h.closed h.served h.folding
  · cases t.retained.get path with
    | some other => exact .ensure' _ _ (fun _ => held ht) (held ht)
    | none =>
      refine .modify' _ fun u hu => ?_
      subst hu
      exact ht.tables rfl rfl rfl rfl rfl rfl ht.closed ht.served ht.folding

theorem reread_serves (id : Nat) (loaded : Option Session) : f.Serves (rereadThroughReloadedSession id loaded) := by
  refine .readAt ?_
  cases f.handles.get id with
  | none => exact .throw' _ (held h)
  | some handle =>
    refine ensured h fun _ => .bind' (M := fun _ => Ready) (.modify' _ fun t ht => ?_) fun _ => ?_
    · subst ht
      exact h.tables rfl rfl rfl rfl rfl rfl h.closed h.served h.folding
    · cases loaded with
      | none => exact .throw' _ fun _ ht => ht
      | some session => exact .modify' _ fun t ht => ht.tables rfl rfl rfl rfl rfl rfl ht.closed ht.served ht.folding

theorem retireReplaced_serves (id : SessionID) : f.Serves (retireReplaced id) := by
  refine .readAt (ensured h fun _ => .bind' ((point_ready _).pre (held h)) fun _ => ?_)
  exact .bind' (M := fun _ => Ready) (.modify' _ fun t ht =>
    ht.tables rfl rfl rfl rfl rfl rfl ht.closed ht.served ht.folding) fun _ => point_ready _

/-! ## Folds -/

theorem beginFold_serves (hpath : namespaceFilePath path) (hid : safeSessionID id) : f.Serves (beginFold path id) := by
  refine .readAt (.ite' (fun _ => .pure' () (held h)) fun _ => .ite' (fun _ => ?_) fun _ => ?_)
  · refine .ite' (fun _ => ?_) fun _ => .pure' () (held h)
    exact publish_serves h (h.names.dropNative path) (h.fitting.of_records rfl rfl)
  · have hvalid : (f.managedNamespace.setName id ⟨none, path, true⟩).Valid :=
      h.names.setName ⟨hid, hpath, nofun⟩ nofun
    refine .bind' (publish_serves h hvalid (h.fitting.of_records rfl rfl)) fun _ => .modify' _ fun t ht => ?_
    refine ht.tables rfl rfl rfl rfl rfl rfl ht.closed ht.served fun g hg => ?_
    cases hg
    exact ⟨hpath, hid⟩

section

variable {g : Folding} (hpath : namespaceFilePath g.path = true)
include hpath

theorem abandonFold_serves (hid : safeSessionID g.id) : f.Serves (abandonFold g) := by
  have hvalid : (f.managedNamespace.setName g.id ⟨none, g.path, false⟩).Valid :=
    h.names.setName ⟨hid, hpath, nofun⟩ nofun
  exact .readAt (publish_serves h hvalid (h.fitting.of_records rfl rfl))

theorem commitFold_serves {session : Session} (hid : safeSessionID g.id) (hstat : f.stat g.path = some recorded)
    (hfree : nameFree f.managedNamespace g.path g.id none)
    (houtside : f.managedNamespace.outsideMove g.path) : f.Serves (commitFold g session recorded) := by
  have hnamed : (f.managedNamespace.setName g.id ⟨some g.path, g.path, false⟩).Valid := by
    refine h.names.setName ⟨hid, hpath, fun p hp => some.inj hp ▸ hpath⟩ fun x name p hget hp hto => ?_
    cases hto
    exact (nameFree_iff.mp hfree x name hget hp).resolve_right nofun
  have hvalid : ({ (f.managedNamespace.setName g.id ⟨some g.path, g.path, false⟩).dropNative g.path with
      cleanup := f.managedNamespace.cleanup.set g.path recorded } : ManagedNamespace).Valid := by
    refine (hnamed.dropNative g.path).withCleanup fun p c hget => ?_
    rw [get_set] at hget
    split at hget
    · subst p
      exact hpath
    · exact h.names.cleanup p c hget
  refine .readAt (.bind' ((publish_ready h hvalid (covered_fits h.fitting hstat rfl rfl)).post (fun _ _ ht => ht)
    (fun _ _ ht => ht.2) fun _ ht => ht) fun _ => ?_)
  refine .bind' (M := fun _ t => t.Ready ∧ t.onRecord.outsideMove g.path = true) (.modify' _ fun t ht => ?_) fun _ =>
    .at' fun t ht => removeCovered_serves ht.1 ht.2
  obtain ⟨rfl, hready⟩ := ht
  refine ⟨hready.tables rfl rfl rfl rfl rfl rfl (fun p => ?_) (fun p x hp => ?_) h.folding, houtside⟩
  · show (f.native.nativeAppends.erase g.path).get p = none
    rw [get_erase, h.closed p, ite_self]
  · have hget : (f.paths.set g.path g.id).get p = some x := hp
    rw [get_set] at hget
    split at hget
    · cases hget
      subst p
      exact ⟨hid, hpath⟩
    · exact h.served p x hget

end

end

def foldOrderly (f : Filesystem) (prepared : Option Session) : Bool :=
  match prepared, f.folding with
  | some _, some g =>
    !(f.managedNamespace.native.contains g.path && !(f.native.nativePathBusyLocked g.path) && f.stat g.path == g.before) ||
      (nameFree f.managedNamespace g.path g.id none && f.sparesIntent g.path)
  | _, _ => true

theorem endFold_serves (h : f.Ready) {prepared : Option Session} (horderly : f.foldOrderly prepared) :
    f.Serves (endFold prepared) := by
  unfold foldOrderly at horderly
  refine .readAt ?_
  cases hfolding : f.folding with
  | none => exact .throw' _ (held h)
  | some g =>
    obtain ⟨hpath, hid⟩ := h.folding g hfolding
    have hidle : { f with folding := none }.Ready :=
      h.tables rfl rfl rfl rfl rfl rfl h.closed h.served nofun
    refine .bind' (.modify' _ fun t ht => by rw [ht]) fun _ => .readAt ?_
    have habandon := abandonFold_serves hidle hpath hid
    cases prepared with
    | none => exact habandon
    | some session =>
      have hsame : ({ f with folding := none } : Filesystem).stat g.path = f.stat g.path := rfl
      rw [hfolding] at horderly
      rw [hsame]
      cases hstat : f.stat g.path with
      | none => exact habandon
      | some recorded =>
        refine .ite' (fun husable => ?_) fun _ => habandon
        simp only [hstat, husable, Bool.not_true, Bool.false_or, Bool.and_eq_true] at horderly
        have hspares := horderly.2
        unfold sparesIntent at hspares
        rw [hstat] at hspares
        exact commitFold_serves hidle hpath hid hstat horderly.1 hspares

/-! ## Runs -/

def Operation.orderly (f : Filesystem) : Operation → Bool
  | .opens _ _ => false
  | .onHandle _ => false
  | .truncatePath _ _ => false
  | .reread _ _ => true
  | .rename old new => f.renameOrderly old new
  | .unlink path => (f.paths.get path).isSome || f.onRecord.outsideMove path
  | .mkdir path => (f.onRecord.cleanup.get path).isNone
  | .rmdir path => f.onRecord.outsideMove path
  | .addSession _ _ _ => true
  | .upsertSession id name _ => f.deletedManagedSessions.contains id || f.sidecarOrderly id name
  | .moveSession id name => (f.sessions.get id).isNone || f.sidecarOrderly id name
  | .preferNative _ => true
  | .removeSession _ => true
  | .hideDeleted _ _ => true
  | .retireReplaced _ => true
  | .beginFold path id => namespaceFilePath path && safeSessionID id
  | .endFold prepared => f.foldOrderly prepared

theorem Operation.serves (jsonValid : Bytes → Bool) (h : f.Ready) {op : Operation} (horderly : op.orderly f) :
    f.Serves (op.run jsonValid) := by
  cases op with
  | opens path flags | onHandle r | truncatePath path size => cases horderly
  | reread id loaded => exact reread_serves h id loaded
  | rename old new => exact rename_serves h horderly
  | unlink path =>
    refine .readAt ?_
    cases hroute : f.paths.get path with
    | some id => exact unlinkManaged_serves h hroute
    | none =>
      have horderly : ((f.paths.get path).isSome || f.onRecord.outsideMove path) := horderly
      rw [hroute] at horderly
      exact unlinkFile_serves h horderly
  | mkdir path => exact mkdir_serves h (isNone_iff_eq_none.mp horderly)
  | rmdir path => exact rmdir_serves h horderly
  | addSession id path session => exact addSession_serves h id path session
  | upsertSession id path session => exact upsertSession_serves h session (Bool.or_eq_true_iff.mp horderly)
  | moveSession id path => exact moveSession_serves h (Bool.or_eq_true_iff.mp horderly)
  | preferNative id => exact preferNative_serves h id
  | removeSession id => exact removeSession_serves h id
  | hideDeleted id path => exact hideDeleted_serves h id path
  | retireReplaced id => exact retireReplaced_serves h id
  | beginFold path id => exact beginFold_serves h (Bool.and_eq_true_iff.mp horderly).1 (Bool.and_eq_true_iff.mp horderly).2
  | endFold prepared => exact endFold_serves h horderly

end

end Filesystem

def Daemon.orderly (d : Daemon) : DaemonEvent → Bool
  | .operation op _ => op.orderly d.fs
  | .restart _ _ => true

structure Daemon.Sustained (d : Daemon) : Prop where
  durable : d.fs.Durable
  ready : d.up = true → d.fs.Ready

theorem Daemon.step_sustained (jsonValid : Bytes → Bool) {d d' : Daemon} {event : DaemonEvent} (h : d.Sustained)
    (horderly : d.orderly event) (hstep : d.step jsonValid event = some d') : d'.Sustained := by
  cases event with
  | operation op faults =>
    unfold Daemon.step at hstep
    cases hup : d.up with
    | false => simp [hup] at hstep
    | true =>
      have hpost := Filesystem.Operation.serves jsonValid (h.ready hup) horderly faults d.fs rfl
      simp only [hup, if_true] at hstep
      match hresult : op.run jsonValid faults d.fs with
      | (.done _, _, _) | (.failed _, _, _) =>
        simp only [hresult] at hstep hpost
        cases hstep
        exact ⟨hpost.toDurable, fun _ => hpost⟩
      | (.crashed, t, _) =>
        simp only [hresult] at hstep hpost
        cases hstep
        exact ⟨hpost, nofun⟩
  | restart range faults =>
    unfold Daemon.step at hstep
    have hpost := Filesystem.start_spec h.durable range faults d.fs.restarted rfl
    match hresult : Filesystem.start range faults d.fs.restarted with
    | (.done _, t, _) =>
      simp only [hresult] at hstep hpost
      cases hstep
      exact ⟨hpost.toDurable, fun _ => hpost⟩
    | (.failed _, _, _) | (.crashed, _, _) =>
      simp only [hresult] at hstep hpost
      cases hstep
      exact ⟨hpost, nofun⟩

theorem sample_tree : Disk.sample.Tree := by
  refine ⟨fun p o hp => ?_, by decide, fun p o hp => ?_⟩
  · rw [(Disk.sample_file hp).1]
    decide
  · rw [(Disk.sample_file hp).1]
    decide

/-- After the covered file of `coveredRun` another rename is cut off by a crash. -/
def coveredCrash : List DaemonEvent :=
  Filesystem.coveredRun ++ [.operation (.rename (Filesystem.sessionFile 'a') (Filesystem.sessionFile 'b')) (replicate 8 .ok ++ [.crash])]

def renamedTwice : List DaemonEvent :=
  [.restart (.plain _) [], .operation (.addSession ['s'] (Filesystem.sessionFile 'b') ⟨none⟩) [],
    .operation (.rename (Filesystem.sessionFile 'b') (Filesystem.sessionFile 'd')) [], .operation (.removeSession ['s']) [],
    .operation (.addSession ['t'] (Filesystem.sessionFile 'c') ⟨none⟩) [],
    .operation (.rename (Filesystem.sessionFile 'c') (Filesystem.sessionFile 'd')) []]

end CodexFold.Mount
