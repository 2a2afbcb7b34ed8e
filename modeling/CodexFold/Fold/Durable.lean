import CodexFold.Fold.Interrupted
import CodexFold.Fold.RoundTrip
import CodexFold.Foundation.Simulation

/- What of the store has reached the disk.

   An object is renamed into place before its bytes are synced; `SyncPending` syncs
   the objects this Fold has put, and their directories, before the manifest is
   written. `Disk` adds to the store which bytes and which directory entries are
   durable, and keeps every commit. A Fold on a disk is Fold on its store
   (`fold_simulates`).

   An object that was in the store when the Fold began is not among those it syncs.
   So what a commit needs is that the pieces of the rollout found there are durable
   already, and an earlier Fold that stopped before its sync leaves some that are
   not. -/
namespace CodexFold.Fold
open Foundation List Option JsonRaw

/-! ## What a segmentation has put

   `Tracked` follows the objects of one Fold: each is one of `base`, left as it was,
   or pending; and each part of the manifest names a piece of the rollout. -/

section
variable {Digest : Type} [DecidableEq Digest] {content : Content Digest} {options : FoldOptions Digest}
  {base : Store Digest}

structure Kept (content : Content Digest) (base s : Store Digest) : Prop where
  valid : ValidObjects content s.objects
  objects : ∀ digest stored, base.objects.get digest = some stored → s.objects.get digest = some stored
  manifests : s.manifests = base.manifests
  rollouts : s.rollouts = base.rollouts

structure PutPart (content : Content Digest) (options : FoldOptions Digest) (objects : Files Digest Bytes)
    (part : Part Digest) (data : Bytes) : Prop where
  names : part.object.Names content data
  put : existingHas options part.object = true ∨
    existingHas options ⟨content.sha256 data, data.length, 0⟩ = false ∧
      (options.apply = true → (objects.get (content.sha256 data)).isSome = true)

structure Tracked (content : Content Digest) (options : FoldOptions Digest) (base : Store Digest)
    (p : Progress Digest) (pieces : List Bytes) (s : Store Digest) : Prop extends Kept content base s where
  agrees : p.store.Agrees content s.objects
  pending : ∀ digest ∈ p.store.pending, (s.objects.get digest).isSome = true
  fresh : ∀ digest, (s.objects.get digest).isSome = true →
    (base.objects.get digest).isSome = true ∨ digest ∈ p.store.pending
  parts : ∀ part ∈ p.parts, ∃ data ∈ pieces, PutPart content options s.objects part data

section

variable {p : Progress Digest} {pieces : List Bytes} {s : Store Digest} (h : Tracked content options base p pieces s)
include h

section

variable {data : Bytes} {ref : ObjectRef Digest} (hn : ref.Names content data)
include hn

theorem Tracked.cache {persisted : Bool} (hp : persisted → (s.objects.get (content.sha256 data)).isSome) :
    Tracked content options base
      { p with store := { p.store with objects := p.store.objects.set (content.sha256 data) ⟨ref, persisted⟩ } }
      pieces s :=
  { h with agrees := h.agrees.set (fun _ h => h) hn hp _ }

theorem Tracked.add (hnew : s.objects.get (content.sha256 data) = none) :
    Tracked content options base
      { p with store := ⟨p.store.objects.set (content.sha256 data) ⟨ref, true⟩,
                         content.sha256 data :: p.store.pending⟩ }
      pieces { s with objects := s.objects.set (content.sha256 data) (content.compress data) } := by
  have hmono : ∀ digest, (s.objects.get digest).isSome = true →
      ((s.objects.set (content.sha256 data) (content.compress data)).get digest).isSome = true := by
    intro digest hd
    rw [get_set]
    split
    · rfl
    · exact hd
  refine { valid := h.valid.set_compress data, objects := fun digest stored hget => ?_,
           manifests := h.manifests, rollouts := h.rollouts,
           agrees := h.agrees.set hmono hn (fun _ => by simp) _, pending := fun digest hd => ?_,
           fresh := fun digest hd => ?_, parts := fun part hpart => ?_ }
  · have hold := h.objects digest stored hget
    have hne : digest ≠ content.sha256 data := by
      rintro rfl
      rw [hnew] at hold
      cases hold
    simpa [hne] using hold
  · rcases mem_cons.mp hd with rfl | hd
    · simp
    · exact hmono digest (h.pending digest hd)
  · by_cases heq : digest = content.sha256 data
    · exact .inr (by rw [heq]; exact (.head _))
    · simp only [get_set, heq, if_false] at hd
      exact (h.fresh digest hd).imp id (mem_cons_of_mem _)
  · obtain ⟨piece, hpiece, hput⟩ := h.parts part hpart
    exact ⟨piece, hpiece, hput.names, hput.put.imp id fun hp => ⟨hp.1, fun ha => hmono _ (hp.2 ha)⟩⟩

end

end

theorem putFile_tracked (p : Progress Digest) (pieces : List Bytes) (data : Bytes) (apply : Bool) :
    SpecOr (Tracked content options base p pieces) (putFile content p.store data apply)
      (fun r s => Tracked content options base { p with store := r.2.2 } pieces s ∧ r.1.Names content data ∧
        (apply = true → (s.objects.get (content.sha256 data)).isSome = true)) (Kept content base) := by
  unfold putFile
  refine .at' fun s h => .readAt ?_
  have he : ∀ t, t = s → Kept content base t := held h.toKept
  cases hget : s.objects.get (content.sha256 data) with
  | some stored =>
    dsimp only
    split
    · exact .throw' _ he
    · have hthere : (s.objects.get (content.sha256 data)).isSome := by rw [hget]; rfl
      exact .pure' _ fun t ht => ht ▸ ⟨h.cache ⟨rfl, rfl⟩ (fun _ => hthere), ⟨rfl, rfl⟩, fun _ => hthere⟩
  | none =>
    refine .ite' (fun _ => ?_) fun happly => ?_
    · refine SpecOr.point' he fun _ => SpecOr.point' he fun _ => ?_
      refine .point' he fun _ => ?_
      refine .bind' (M := fun _ s => Tracked content options base { p with
          store := ⟨p.store.objects.set (content.sha256 data)
            ⟨⟨content.sha256 data, data.length, (content.compress data).length⟩, true⟩,
            content.sha256 data :: p.store.pending⟩ } pieces s ∧
          (s.objects.get (content.sha256 data)).isSome = true)
        (SpecOr.effect' he fun t ht => ht ▸ ⟨h.add ⟨rfl, rfl⟩ hget, by simp⟩) fun _ => ?_
      exact .pure' _ fun s h => ⟨h.1, ⟨rfl, rfl⟩, fun _ => h.2⟩
    · refine .pure' _ fun t ht => ht ▸ ⟨h.cache ⟨rfl, rfl⟩ (by simp), ⟨rfl, rfl⟩, fun ha => ?_⟩
      exact absurd ha happly

theorem put_tracked (p : Progress Digest) (pieces : List Bytes) (data : Bytes) (apply : Bool) :
    SpecOr (Tracked content options base p pieces) (put content p.store data apply)
      (fun r s => Tracked content options base { p with store := r.2.2 } pieces s ∧ r.1.Names content data ∧
        (apply = true → (s.objects.get (content.sha256 data)).isSome = true)) (Kept content base) := by
  unfold put
  cases hcached : p.store.objects.get (content.sha256 data) with
  | none => exact putFile_tracked p pieces data apply
  | some cached =>
    refine .ite' (fun hc => ?_) (fun _ => putFile_tracked p pieces data apply)
    refine .pure' _ fun s h => ?_
    obtain ⟨hn, hp⟩ := h.agrees data cached hcached
    refine ⟨h, hn, fun ha => hp ?_⟩
    simpa [ha] using hc

theorem tracked_invariant : PartInvariant content options (Tracked content options base) (Kept content base) where
  append kind path p pieces data := by
    -- the parts there are were put for earlier pieces
    have hmore : ∀ (q : Progress Digest) (part : Part Digest) (s : Store Digest),
        Tracked content options base q pieces s → PutPart content options s.objects part data →
        ∀ part' ∈ q.parts ++ [part], ∃ piece ∈ Cutting.keep pieces data, PutPart content options s.objects part' piece := by
      intro q part s h hput part' hpart'
      rcases mem_append.mp hpart' with hold | hnew
      · obtain ⟨piece, hpiece, hp⟩ := h.parts part' hold
        exact ⟨piece, mem_append_left _ hpiece, hp⟩
      · rw [mem_singleton.mp hnew]
        exact ⟨data, mem_append_right _ (mem_singleton.mpr rfl), hput⟩
    refine .ite' (fun _ => .pure' _ fun s h => { h with parts := fun part hpart => ?_ })
      (fun _ => .ite' (fun hhas => .pure' _ fun s h => ?_) (fun hhas => ?_))
    · obtain ⟨piece, hpiece, hp⟩ := h.parts part hpart
      exact ⟨piece, mem_append_left _ hpiece, hp⟩
    · exact { h with parts := hmore p _ s h ⟨⟨rfl, rfl⟩, .inl hhas⟩ }
    · refine .bind' (put_tracked p pieces data options.apply) fun r => .pure' _ fun s h => ?_
      exact { h.1 with parts := hmore _ _ s h.1 ⟨h.2.1, .inr ⟨by simpa using hhas, h.2.2⟩⟩ }
  plan p pieces data := (put_tracked p pieces data false).weaken fun _ _ h => h.1
  other p q pieces s hs hp h :=
    { h with
      agrees := by rw [hs]; exact h.agrees
      pending := by rw [hs]; exact h.pending
      fresh := by rw [hs]; exact h.fresh
      parts := by rw [hp]; exact h.parts }
  left _ _ _ h := h.toKept

end

/-! ## Disks -/

structure Commit (Digest : Type) where
  manifest : Manifest Digest
  served : ObjectRef Digest → Bool

structure Disk (Digest : Type) where
  store : Store Digest
  bytes : Files Digest Bytes
  entries : List Digest
  commits : List (Commit Digest)

namespace Disk

section
variable {Digest : Type} [DecidableEq Digest]

def empty : Disk Digest := ⟨⟨.empty, false, .empty, .empty⟩, .empty, [], []⟩

/-- The object file has durable bytes and a durable entry in its prefix directory. -/
def Durable (d : Disk Digest) (digest : Digest) : Prop :=
  (∃ stored, d.store.objects.get digest = some stored ∧ d.bytes.get digest = some stored) ∧ digest ∈ d.entries

def syncFile (digest : Digest) (d : Disk Digest) : Disk Digest :=
  match d.store.objects.get digest with
  | none => d
  | some stored => { d with bytes := d.bytes.set digest stored }

variable {Shard : Type} [DecidableEq Shard] (shard : Digest → Shard)

/-- `syncDirectory` of a prefix directory: its entries are durable as they are now. -/
def syncDirectory (directory : Shard) (d : Disk Digest) : Disk Digest :=
  { d with
    entries := d.entries.filter (fun digest => !decide (shard digest = directory)) ++
      d.store.objects.names.filter (fun digest => decide (shard digest = directory)) }

def onStore {α : Type} (x : Prog (Store Digest) String α) : Prog (Disk Digest) String α :=
  onPart Disk.store (fun d s => { d with store := s }) x

def syncPending (store : ObjectStore Digest) : Prog (Disk Digest) String Unit :=
  if store.pending.isEmpty then pure ()
  else do
    forEach (fun digest => effect "sync object" (syncFile digest)) store.pending
    forEach (fun digest => effect "sync object directory" (syncDirectory shard (shard digest)))
      store.pending
    point "sync object root"

def writeManifestPath (path : String) (manifest : Manifest Digest) (overwrite : Bool)
    (served : ObjectRef Digest → Bool) : Prog (Disk Digest) String Unit := do
  ofExcept (validateManifest manifest)
  let present ← read (fun d => (d.store.manifests.get path).isSome)
  ensure (overwrite || !present) s!"fold manifest already exists: {path}"
  effect "create manifest directory" (fun d => { d with store := { d.store with manifestRoot := true } })
  point "create temporary manifest"
  point "write temporary manifest"
  effect "commit fold manifest" (fun d =>
    { d with
      store := { d.store with manifests := d.store.manifests.set path manifest }
      commits := ⟨manifest, served⟩ :: d.commits })
  point "sync manifest directory"

variable (content : Content Digest) (decoder : Decoder)

def commitManifest (options : FoldOptions Digest) (path : String) (manifest : Manifest Digest)
    (store : ObjectStore Digest) : Prog (Disk Digest) String Unit := do
  let objects ← read (fun d => d.store.objects)
  ofExcept (verifyStoredManifest content (objectReader content objects options.existingReader) manifest)
  syncPending shard store
  writeManifestPath path manifest options.overwrite (existingHas options)

def completeFold (options : FoldOptions Digest) (session : Session) (path : String) (p : Progress Digest) :
    Prog (Disk Digest) String (FoldResult Digest) := do
  let manifest := buildManifest content options session p
  let result : FoldResult Digest :=
    { sessionID := session.id, sourcePath := session.rolloutPath, manifestPath := path
      sourceBytes := p.source.length, sourceSHA256 := content.sha256 p.source, progress := p
      verified := true, dryRun := !options.apply, removedSource := false }
  ensure (segmentationVerified content p) "fold segmentation verification failed"
  point "before fold commit"
  onStore (verifyCurrentSource content session.rolloutPath manifest.source)
  if !options.apply then pure result
  else do
    commitManifest shard content options path manifest p.store
    if options.removeSource then do
      effect "remove verified rollout source"
        (fun d => { d with store := { d.store with rollouts := d.store.rollouts.erase session.rolloutPath } })
      pure { result with removedSource := true }
    else pure result

/-- `Fold`, on a disk. -/
def fold (session : Session) (given : FoldOptions Digest) : Prog (Disk Digest) String (FoldResult Digest) := do
  let checked ← read (fun d => checkOptions given session d.store)
  ofExcept checked
  let options := given.withDefaults
  let rollout ← read (fun d => d.store.rollouts.get session.rolloutPath)
  match rollout with
  | none => throw "open rollout"
  | some source => do
    point "storage budget"
    point "objects lock"
    let chunker ← ofExcept (Cdc.new options.cdc)
    let p ← onStore (segment content decoder options (source.length + 1)
      { chunker, progress := newProgress, line := [], oversized := options.isOpaque } source)
    completeFold shard content options session (given.manifestPath session) p

end

/-! ## A Fold on a disk is a Fold -/

section
variable {Digest : Type} [DecidableEq Digest] {Shard : Type} [DecidableEq Shard] {shard : Digest → Shard}
  {content : Content Digest} {decoder : Decoder}
variable {d base : Disk Digest} {digest : Digest}

@[simp] theorem syncFile_store (digest : Digest) (d : Disk Digest) : (syncFile digest d).store = d.store := by
  unfold syncFile
  split <;> rfl

@[simp] theorem syncFile_entries (digest : Digest) (d : Disk Digest) : (syncFile digest d).entries = d.entries := by
  unfold syncFile
  split <;> rfl

@[simp] theorem syncFile_commits (digest : Digest) (d : Disk Digest) : (syncFile digest d).commits = d.commits := by
  unfold syncFile
  split <;> rfl

/-- The store of the disk is the store of the other program. -/
abbrev IsStore (d : Disk Digest) (s : Store Digest) : Prop := s = d.store

theorem syncPending_simulates (store : ObjectStore Digest) :
    Simulates IsStore IsStore (syncPending shard store) (Fold.syncPending store) := by
  unfold syncPending Fold.syncPending
  split
  · exact .pure' ()
  · refine .bind' (.forEach' (fun digest => .effect' (fun _ _ h => h) _ fun d s h => ?_) _) fun _ => ?_
    · rw [IsStore, syncFile_store]
      exact h
    · refine .bind' (.forEach' (fun digest => .effect' (fun _ _ h => h) _ fun d s h => ?_) _) fun _ => ?_
      · exact h
      · exact .point' (fun _ _ h => h) _

omit [DecidableEq Digest] in
theorem writeManifestPath_simulates (path : String) (manifest : Manifest Digest) (overwrite : Bool)
    (served : ObjectRef Digest → Bool) :
    Simulates IsStore IsStore (writeManifestPath path manifest overwrite served)
      (Fold.writeManifestPath path manifest overwrite) := by
  refine .bind' (.ofExcept' _) fun _ => .bind' (.read' ?_) fun present => .bind' (.ensure' _ _) fun _ => ?_
  · rintro d _ rfl
    rfl
  refine .bind' (.effect' (fun _ _ h => h) _ ?_) fun _ => .bind' (.point' (fun _ _ h => h) _) fun _ => ?_
  · rintro d _ rfl
    rfl
  refine .bind' (.point' (fun _ _ h => h) _) fun _ => .bind' (.effect' (fun _ _ h => h) _ ?_) fun _ => ?_
  · rintro d _ rfl
    rfl
  · exact .point' (fun _ _ h => h) _

theorem completeFold_simulates (options : FoldOptions Digest) (session : Session) (path : String) (p : Progress Digest) :
    Simulates IsStore IsStore (completeFold shard content options session path p)
      (Fold.completeFold content options session path p) := by
  refine .bind' (.ensure' _ _) fun _ => .bind' (.point' (fun _ _ h => h) _) fun _ => ?_
  refine .bind' (.onPart' (fun _ _ => rfl) _) fun _ => ?_
  split
  · exact .pure' _
  refine .bind' (.bind' (.read' ?_) fun objects => .bind' (.ofExcept' _) fun _ => ?_) fun _ => ?_
  · rintro d _ rfl
    rfl
  · exact .bind' (syncPending_simulates _) fun _ => writeManifestPath_simulates _ _ _ _
  split
  · refine .bind' (.effect' (fun _ _ h => h) _ ?_) fun _ => .pure' _
    rintro d _ rfl
    rfl
  · exact .pure' _

/-- Under every schedule the Fold on a disk ends as Fold does, with the same store. -/
theorem fold_simulates (session : Session) (given : FoldOptions Digest) :
    Simulates IsStore IsStore (fold shard content decoder session given) (Fold.fold content decoder session given) := by
  refine .bind' (.read' ?_) fun checked => .bind' (.ofExcept' _) fun _ => .bind' (.read' ?_) fun rollout => ?_
  · rintro d _ rfl
    rfl
  · rintro d _ rfl
    rfl
  cases rollout with
  | none => exact .throw' _
  | some source =>
    refine .bind' (.point' (fun _ _ h => h) _) fun _ => .bind' (.point' (fun _ _ h => h) _) fun _ => ?_
    refine .bind' (.ofExcept' _) fun chunker => .bind' (.onPart' (fun _ _ => rfl) _) fun p => ?_
    exact completeFold_simulates _ _ _ _

/-! ## What a sync makes durable -/

omit [DecidableEq Shard] in
theorem Durable.isSome (h : d.Durable digest) : (d.store.objects.get digest).isSome = true := by
  obtain ⟨⟨stored, hs, _⟩, _⟩ := h
  rw [hs]
  rfl

omit [DecidableEq Shard] in
theorem Durable.syncFile (h : d.Durable digest) (other : Digest) : (syncFile other d).Durable digest := by
  obtain ⟨⟨stored, hs, hb⟩, he⟩ := h
  refine ⟨⟨stored, by rw [syncFile_store]; exact hs, ?_⟩, by rw [syncFile_entries]; exact he⟩
  unfold Disk.syncFile
  cases ho : d.store.objects.get other with
  | none => exact hb
  | some there =>
    simp only [get_set]
    split
    · next heq =>
      subst heq
      rw [hs] at ho
      exact ho.symm
    · exact hb

theorem mem_syncDirectory (directory : Shard)
    (hs : (d.store.objects.get digest).isSome) (h : digest ∈ d.entries ∨ shard digest = directory) :
    digest ∈ (syncDirectory shard directory d).entries := by
  simp only [syncDirectory, mem_append, mem_filter]
  by_cases hd : shard digest = directory
  · exact .inr ⟨d.store.objects.mem_names.mpr (isSome_iff_exists.mp hs), by simp [hd]⟩
  · rcases h with h | h
    · exact .inl ⟨h, by simp [hd]⟩
    · exact absurd h hd

theorem Durable.syncDirectory (h : d.Durable digest) (directory : Shard) :
    (syncDirectory shard directory d).Durable digest :=
  ⟨h.1, mem_syncDirectory directory h.isSome (.inl h.2)⟩

/-- `after` has the store and the commits of `before`, and loses nothing durable. -/
structure Settles (before after : Disk Digest) : Prop where
  store : after.store = before.store
  commits : after.commits = before.commits
  durable : ∀ digest, before.Durable digest → after.Durable digest

theorem Settles.syncFile (h : Settles base d) (digest : Digest) : Settles base (syncFile digest d) :=
  ⟨by rw [syncFile_store]; exact h.store, by rw [syncFile_commits]; exact h.commits,
    fun other ho => (h.durable other ho).syncFile digest⟩

theorem syncPending_spec {store : ObjectStore Digest}
    (hall : ∀ digest ∈ store.pending, (base.store.objects.get digest).isSome) :
    SpecOr (Settles base) (syncPending shard store)
      (fun _ d => Settles base d ∧ ∀ digest ∈ store.pending, d.Durable digest) (Settles base) := by
  have hbytes : ∀ digest ∈ store.pending, ∀ d, Settles base d → Settles base (syncFile digest d) ∧
      (syncFile digest d).bytes.get digest = base.store.objects.get digest := by
    intro digest hp d hs
    obtain ⟨stored, hget⟩ := isSome_iff_exists.mp (hall digest hp)
    refine ⟨hs.syncFile digest, ?_⟩
    simp [syncFile, hs.store, hget]
  have hbytes' : ∀ digest ∈ store.pending, ∀ other d, Settles base d →
      d.bytes.get other = base.store.objects.get other →
      (syncFile digest d).bytes.get other = base.store.objects.get other := by
    intro digest hp other d hs ho
    by_cases heq : other = digest
    · rw [heq]
      exact (hbytes digest hp d hs).2
    · rw [← ho]
      unfold Disk.syncFile
      split
      · rfl
      · simp [heq]
  refine .ite' (fun hnone => ?_) fun _ => ?_
  · refine .pure' _ fun _ h => ⟨h, fun digest hp => ?_⟩
    rw [List.isEmpty_iff.mp hnone] at hp
    cases hp
  · refine .bind' (.forEachEffect
      _ hbytes hbytes' (fun _ h => h) (fun _ h => h)) fun _ => ?_
    refine .bind' (.forEachEffect (D := fun digest d => (base.store.objects.get digest).isSome = true ∧
      digest ∈ d.entries) _ ?_ ?_ (fun _ h => h.1) (fun _ h => h.1)) fun _ => ?_
    · rintro digest hp d ⟨hs, hb⟩
      refine ⟨⟨⟨hs.store, hs.commits, fun other ho => (hs.durable other ho).syncDirectory _⟩, hb⟩, ?_⟩
      exact ⟨hall digest hp, mem_syncDirectory _ (by rw [hs.store]; exact hall digest hp) (.inr rfl)⟩
    · rintro digest hp other d ⟨hs, hb⟩ ⟨hthere, ho⟩
      exact ⟨hthere, mem_syncDirectory _ (by rw [hs.store]; exact hthere) (.inl ho)⟩
    · refine SpecOr.final' (fun _ h => h.1.1) fun d h => ⟨h.1.1, fun digest hp => ?_⟩
      obtain ⟨stored, hget⟩ := isSome_iff_exists.mp (hall digest hp)
      refine ⟨⟨stored, by rw [h.1.1.store]; exact hget, ?_⟩, (h.2 digest hp).2⟩
      rw [h.1.2 digest hp, hget]

/-! ## Runs -/

/-- Every object that a committed manifest references, and that the reader of its Fold
    did not serve, is durable. -/
def CommitsDurable (d : Disk Digest) : Prop :=
  ∀ commit ∈ d.commits, ∀ part ∈ commit.manifest.parts, commit.served part.object = false →
    d.Durable part.object.sha256

/-- What holds between two Folds: valid objects, no manifest that was not committed,
    and what the commits need is durable. -/
structure Sound (content : Content Digest) (d : Disk Digest) : Prop where
  valid : ValidObjects content d.store.objects
  logged : ∀ path manifest, d.store.manifests.get path = some manifest →
    ∃ commit ∈ d.commits, commit.manifest = manifest
  durable : d.CommitsDurable

/-- The pieces of the rollout that are loose objects already, and that the existing
    reader does not have, are durable. -/
def Settled (content : Content Digest) (decoder : Decoder) (session : Session)
    (given : FoldOptions Digest) (d : Disk Digest) : Prop :=
  ∀ source, d.store.rollouts.get session.rolloutPath = some source →
    ∀ promotions, ∀ data ∈ pieces content decoder given.withDefaults promotions source,
      existingHas given ⟨content.sha256 data, data.length, 0⟩ = false →
      (d.store.objects.get (content.sha256 data)).isSome = true → d.Durable (content.sha256 data)

omit [DecidableEq Shard] in
theorem Durable.kept {s : Store Digest} (h : d.Durable digest)
    (hk : Kept content d.store s) : Disk.Durable { d with store := s } digest := by
  obtain ⟨⟨stored, hs, hb⟩, he⟩ := h
  exact ⟨⟨stored, hk.objects digest stored hs, hb⟩, he⟩

theorem Sound.kept {s : Store Digest} (h : Sound content d) (hk : Kept content d.store s) :
    Sound content { d with store := s } where
  valid := hk.valid
  logged path manifest hget := h.logged path manifest (by rw [← hk.manifests]; exact hget)
  durable commit hcommit part hpart hserved := (h.durable commit hcommit part hpart hserved).kept hk

theorem Sound.settles (h : Sound content base) (hs : Settles base d) : Sound content d where
  valid := by rw [hs.store]; exact h.valid
  logged := by rw [hs.store, hs.commits]; exact h.logged
  durable commit hcommit part hpart hserved :=
    hs.durable _ (h.durable commit (by rw [← hs.commits]; exact hcommit) part hpart hserved)

theorem writeManifestPath_sound (path : String) (manifest : Manifest Digest) (overwrite : Bool)
    (served : ObjectRef Digest → Bool) :
    LeadsTo (fun d => Sound content d ∧ ∀ part ∈ manifest.parts, served part.object = false →
        d.Durable part.object.sha256) (writeManifestPath path manifest overwrite served) (Sound content) := by
  have he : ∀ (d : Disk Digest), (Sound content d ∧ ∀ part ∈ manifest.parts,
      served part.object = false → d.Durable part.object.sha256) → Sound content d := fun _ h => h.1
  refine SpecOr.after he (Keeps.ofExcept' _) fun _ => SpecOr.after he (Keeps.read' _) fun _ => ?_
  refine SpecOr.after he (Keeps.ensure' _ _) fun _ => ?_
  refine SpecOr.after he (Keeps.effect' _ _ fun d h => ⟨⟨h.1.valid, h.1.logged, h.1.durable⟩, h.2⟩) fun _ => ?_
  refine SpecOr.point' he fun _ => SpecOr.point' he fun _ => ?_
  refine Spec.bind' (SpecOr.effect' (fun _ h => h.1) (fun d h => ?_)) fun _ => Keeps.point' _
  refine ⟨h.1.valid, fun path' manifest' hget => ?_, fun commit hcommit part hpart hserved => ?_⟩
  · simp only [get_set] at hget
    split at hget
    · cases hget
      exact ⟨_, .head _, rfl⟩
    · obtain ⟨commit, hcommit, hm⟩ := h.1.logged path' manifest' hget
      exact ⟨commit, mem_cons_of_mem _ hcommit, hm⟩
  · rcases mem_cons.mp hcommit with rfl | hcommit
    · exact h.2 part hpart hserved
    · exact h.1.durable commit hcommit part hpart hserved

theorem onStore_verifyCurrentSource_keeps {I : Disk Digest → Prop} (path : String)
    (source : ManifestSource Digest) : Keeps I (onStore (verifyCurrentSource content path source)) := by
  refine .onPart' fun d hd => ?_
  have hkeep : Keeps (· = d.store) (verifyCurrentSource content path source) := by
    refine .bind' (.read' _) fun rollout => ?_
    cases rollout with
    | none => exact .throw' _
    | some data => exact .ofExcept' _
  have hback : ∀ s, s = d.store → I { d with store := s } := held hd
  exact hkeep.mono (fun _ => hback) hback

section

variable (hbase : Sound content base)
include hbase

section

variable {options : FoldOptions Digest} {p : Progress Digest} {pieces : List Bytes} {s : Store Digest} (ht : Tracked content options base.store p pieces s)
include ht

section

variable (hsettled : ∀ data ∈ pieces, existingHas options ⟨content.sha256 data, data.length, 0⟩ = false → (base.store.objects.get (content.sha256 data)).isSome = true → base.Durable (content.sha256 data))
include hsettled

theorem commitManifest_sound (happly : options.apply) (session : Session) (path : String) :
    LeadsTo (fun d => d = { base with store := s })
      (commitManifest shard content options path (buildManifest content options session p) p.store) (Sound content) := by
  have hmid : Sound content { base with store := s } := hbase.kept ht.toKept
  have he : ∀ d, d = { base with store := s } → Sound content d := held hmid
  unfold commitManifest
  refine .after he (.read' _) fun _ => .after he (.ofExcept' _) fun _ => ?_
  have hsync : Spec (Settles { base with store := s }) (syncPending shard p.store) _ _ _ :=
    syncPending_spec ht.pending
  have hstart : ∀ d, d = { base with store := s } → Settles { base with store := s } d := fun d hd => hd ▸ ⟨rfl, rfl, fun _ h => h⟩
  refine .bind' ((hsync.pre hstart).mono (fun _ d h => h) (fun _ h => hmid.settles h)) fun _ => ?_
  refine (writeManifestPath_sound path _ _ _).pre fun d h => ⟨hmid.settles h.1, fun part hpart hserved => ?_⟩
  obtain ⟨data, hdata, hput⟩ := ht.parts part hpart
  rw [hput.names.1]
  rcases hput.put with hhas | ⟨hnone, hloose⟩
  · rw [hserved] at hhas
    cases hhas
  · rcases ht.fresh _ (hloose happly) with hold | hpending
    · exact h.1.durable _ ((hsettled data hdata hnone hold).kept ht.toKept)
    · exact h.2 _ hpending

theorem completeFold_sound (session : Session) (path : String) :
    LeadsTo (fun d => d = { base with store := s }) (completeFold shard content options session path p) (Sound content) := by
  have hmid : Sound content { base with store := s } := hbase.kept ht.toKept
  have he : ∀ d, d = { base with store := s } → Sound content d := held hmid
  refine .after he (.ensure' _ _) fun _ => .point' he fun _ => ?_
  refine .after he (onStore_verifyCurrentSource_keeps _ _) fun _ => .ite' (fun _ => ?_) fun happly => ?_
  · exact .pure' _ he
  · refine .bind' (commitManifest_sound hbase ht hsettled (by simpa using happly) session path) fun _ => ?_
    refine Spec.ite' (fun _ => ?_) fun _ => Keeps.pure' _
    exact Spec.bind' (Keeps.effect' _ _ fun _ h => ⟨h.valid, h.logged, h.durable⟩) fun _ => Keeps.pure' _

end

end

theorem fold_sound {session : Session} {given : FoldOptions Digest}
    (hsettled : Settled content decoder session given base) :
    LeadsTo (· = base) (fold shard content decoder session given) (Sound content) := by
  have he : ∀ d, d = base → Sound content d := held hbase
  refine .after he (.read' _) fun _ => .after he (.ofExcept' _) fun _ => .readAt ?_
  cases hrollout : base.store.rollouts.get session.rolloutPath with
  | none => exact .throw' _ he
  | some source =>
    refine SpecOr.point' he fun _ => SpecOr.point' he fun _ => SpecOr.checked he fun chunker hnew => ?_
    -- the pieces are those of some decisions about the records, and `hsettled` is about all of them
    refine .bind' (M := fun p d => ∃ s promotions, d = { base with store := s } ∧
        Tracked content given.withDefaults base.store p
          (pieces content decoder given.withDefaults promotions source) s) ?_ fun p fs d h => ?_
    · refine .onPart' fun d hd => ?_
      subst hd
      have hstart : ∀ s, s = d.store → Tracked content given.withDefaults d.store newProgress [] s := by
        rintro _ rfl
        exact { valid := hbase.valid, objects := fun _ _ h => h, manifests := rfl, rollouts := rfl,
                agrees := newObjectStore_agrees _, pending := nofun,
                fresh := fun _ => .inl, parts := nofun }
      have hseg : Spec (Tracked content given.withDefaults d.store newProgress [])
          (segment content decoder given.withDefaults _ _ _) _ _ _ :=
        segment_spec tracked_invariant (source.length + 1) ⟨chunker, [], [], given.withDefaults.isOpaque⟩
          newProgress source
      refine (hseg.pre hstart).mono (fun p s h => ?_) fun s h => hbase.kept h
      obtain ⟨promotions, h⟩ := h
      refine ⟨s, promotions, rfl, ?_⟩
      rw [pieces, hnew]
      exact h
    · obtain ⟨s, promotions, rfl, ht⟩ := h
      exact completeFold_sound hbase ht (hsettled source hrollout promotions) session _ fs _ rfl

end

end

inductive Op (Digest : Type) where
  | rollout (path : String) (data : Option Bytes)
  | fold (session : Session) (given : FoldOptions Digest) (faults : List Fault)

section
variable {Digest : Type} [DecidableEq Digest] {Shard : Type} [DecidableEq Shard] (shard : Digest → Shard)
  (content : Content Digest) (decoder : Decoder)

def apply (d : Disk Digest) : Op Digest → Disk Digest
  | .rollout path none => { d with store := { d.store with rollouts := d.store.rollouts.erase path } }
  | .rollout path (some data) => { d with store := { d.store with rollouts := d.store.rollouts.set path data } }
  | .fold session given faults => (fold shard content decoder session given faults d).2.1

def run (d : Disk Digest) (ops : List (Op Digest)) : Disk Digest := ops.foldl (apply shard content decoder) d

def AllSettled : Disk Digest → List (Op Digest) → Prop
  | _, [] => True
  | d, op :: rest =>
    (match op with
      | .rollout _ _ => True
      | .fold session given _ => Settled content decoder session given d) ∧
    AllSettled (apply shard content decoder d op) rest

variable {shard content decoder}

variable {d : Disk Digest}

theorem apply_sound (hd : Sound content d) {op : Op Digest}
    (h : match op with | .rollout _ _ => True | .fold session given _ => Settled content decoder session given d) :
    Sound content (apply shard content decoder d op) := by
  match op with
  | .rollout _ none => exact ⟨hd.valid, hd.logged, hd.durable⟩
  | .rollout _ (some _) => exact ⟨hd.valid, hd.logged, hd.durable⟩
  | .fold session given faults =>
    have hspec : Spec _ (fold shard content decoder session given) _ _ _ := fold_sound hd h
    exact hspec.state faults rfl

theorem run_sound (hd : Sound content d) {ops : List (Op Digest)} (h : AllSettled shard content decoder d ops) :
    Sound content (run shard content decoder d ops) := by
  induction ops generalizing d with
  | nil => exact hd
  | cons op rest ih => exact ih (apply_sound hd h.1) h.2

theorem empty_sound : Sound content (empty : Disk Digest) where
  valid _ _ h := by cases h
  logged _ _ h := by cases h
  durable _ h := by cases h

/-- In a run from an empty store whose Folds all begin settled, every manifest in the
    store was committed, and every object that a commit references and its reader did
    not serve has durable bytes and a durable entry. -/
theorem committed_objects_durable (ops : List (Op Digest)) (h : AllSettled shard content decoder empty ops) :
    (∀ path manifest, (run shard content decoder empty ops).store.manifests.get path = some manifest →
      ∃ commit ∈ (run shard content decoder empty ops).commits, commit.manifest = manifest) ∧
    (run shard content decoder empty ops).CommitsDurable :=
  have hs := run_sound empty_sound h
  ⟨hs.logged, hs.durable⟩

theorem settled_of_durable (h : ∀ digest ∈ d.store.objects.names, d.Durable digest) (session : Session)
    (given : FoldOptions Digest) : Settled content decoder session given d :=
  fun _ _ _ _ _ _ hloose => h _ (d.store.objects.mem_names.mpr (isSome_iff_exists.mp hloose))

instance (d : Disk Digest) (digest : Digest) : Decidable (d.Durable digest) :=
  decidable_of_iff ((d.store.objects.get digest).isSome = true ∧
      d.bytes.get digest = d.store.objects.get digest ∧ digest ∈ d.entries) (by
    unfold Durable
    cases d.store.objects.get digest <;> simp)

end

def firstByte (digest : Bytes) : Bytes := digest.take 1

def foldTwice (first : List Fault) : List (Op Bytes) :=
  [.rollout "rollout" (some [newline]), .fold newlineSession applyOptions first,
    .fold { newlineSession with id := "other" } applyOptions []]

theorem committed_objects_durable_twice : AllSettled firstByte .plain blankDecoder empty (foldTwice []) ∧
    (run firstByte .plain blankDecoder empty (foldTwice [])).commits.length = 2 ∧
    (run firstByte .plain blankDecoder empty (foldTwice [])).CommitsDurable := by
  have hsettled : AllSettled firstByte .plain blankDecoder empty (foldTwice []) :=
    ⟨trivial, settled_of_durable (by decide +kernel) _ _, settled_of_durable (by decide +kernel) _ _, trivial⟩
  exact ⟨hsettled, by decide +kernel, (committed_objects_durable _ hsettled).2⟩

/-- The first Fold stops before its sync. The second finds the object, syncs nothing
    and commits. -/
theorem leftover_object_not_durable :
    let d := run firstByte .plain blankDecoder empty (foldTwice (replicate 9 .ok ++ [.crash]))
    ∃ commit ∈ d.commits, ∃ part ∈ commit.manifest.parts, commit.served part.object = false ∧
      (d.store.objects.get part.object.sha256).isSome = true ∧ ¬d.Durable part.object.sha256 := by
  decide +kernel

end Disk

end CodexFold.Fold
