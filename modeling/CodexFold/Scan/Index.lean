import CodexFold.Foundation.Files
import CodexFold.Fold.Chunker

/- The dedup index of a scan (`internal/scan/index.go`).

   The index is a database of three tables. One file is scanned in one transaction:
   `BeginFile` opens it, every observation of an object adds one to a row, and
   `CommitFile` makes the rows and the file's state durable together. The model keeps the
   tables as they are committed beside those an open transaction sees; a crash leaves the
   committed ones.

   `Tables.Shows` says what the rows of a file mean: for every layer and object, the
   number of times the object was observed, and no row for none. The rules of the
   operations are stated with it, so that a scan never looks into a table. -/
namespace CodexFold.Scan
open Foundation Function

inductive Layer where
  | record
  | field
  | cdc
  deriving DecidableEq, Repr

structure ObjectKey (Digest : Type) where
  filePath : String
  layer : Layer
  digest : Digest
  size : Nat
  deriving DecidableEq, Repr

structure ObjectRow where
  occurrences : Nat
  samplePath : String
  deriving DecidableEq, Repr

structure DedupFileStats where
  scannedBytes : Nat
  recordCount : Nat
  parsedRecordCount : Nat
  oversizedRecordCount : Nat
  invalidJSONRecordCount : Nat
  fieldCount : Nat
  fieldBytes : Nat
  cdcChunkCount : Nat
  cdcBytes : Nat
  deriving DecidableEq, Repr

structure ScannedFileState (Digest : Type) where
  size : Nat
  modTimeNanos : Int
  prefixSHA256 : Digest
  endsWithNewline : Bool
  stats : DedupFileStats
  deriving DecidableEq, Repr

structure Layers where
  record : Bool
  field : Bool
  cdc : Bool
  deriving DecidableEq, Repr

def Layers.has (layers : Layers) : Layer → Bool
  | .record => layers.record
  | .field => layers.field
  | .cdc => layers.cdc

def Layers.list (layers : Layers) : List Layer := [.cdc, .field, .record].filter layers.has

@[simp] theorem Layers.mem_list {layers : Layers} {layer : Layer} : layer ∈ layers.list ↔ layers.has layer = true := by
  cases layer <;> simp [Layers.list]

/-- The settings an index was built with (`scanConfiguration` hashes their text). -/
structure Configuration where
  layers : Layers
  minFieldBytes : Int
  maxJSONLineBytes : Int
  cdc : Cdc.Options
  deriving DecidableEq, Repr

structure Tables (Digest : Type) where
  objects : Files (ObjectKey Digest) ObjectRow
  files : Files String (ScannedFileState Digest)
  configuration : Option Configuration

structure DedupIndex (Digest : Type) where
  db : Tables Digest
  tx : Option (Tables Digest)
  currentFile : String

section
variable {Digest : Type} [DecidableEq Digest]

/-! ## Statements -/

namespace Tables

def empty : Tables Digest := ⟨.empty, .empty, none⟩

variable (t : Tables Digest)

/-- The upsert of `ObserveAt`. -/
def observe (file : String) (layer : Layer) (digest : Digest) (size : Nat)
    (samplePath : String) : Tables Digest :=
  let key : ObjectKey Digest := ⟨file, layer, digest, size⟩
  let row :=
    match t.objects.get key with
    | none => ⟨1, samplePath⟩
    | some row => { row with occurrences := row.occurrences + 1 }
  { t with objects := t.objects.set key row }

/-- `delete from dedup_objects where file_path = ? and layer = ?`. -/
def deleteLayer (file : String) (layer : Layer) : Tables Digest :=
  { t with objects := t.objects.keep fun key => !(decide (key.filePath = file) && decide (key.layer = layer)) }

def saveFile (file : String) (state : ScannedFileState Digest) : Tables Digest :=
  { t with files := t.files.set file state }

def staleFiles (paths : List String) : List String :=
  t.files.names.filter fun path => decide (path ∉ paths)

def removeFiles (stale : List String) : Tables Digest :=
  { t with
    objects := t.objects.keep fun key => decide (key.filePath ∉ stale)
    files := t.files.keep fun path => decide (path ∉ stale) }

end Tables

namespace DedupIndex

def inTransaction (f : String → Tables Digest → Tables Digest) (i : DedupIndex Digest) : DedupIndex Digest :=
  { i with tx := i.tx.map (f i.currentFile) }

def clearTransaction (i : DedupIndex Digest) : DedupIndex Digest := { i with tx := none }

end DedupIndex

/-! ## Operations -/

abbrev Scanner (Digest α : Type) : Type := Prog (DedupIndex Digest) String α

def openDedupIndex : Scanner Digest Unit := do
  point "open dedup sqlite index"
  modify fun i => ⟨i.db, none, "__adhoc__"⟩

def beginFile (path : String) : Scanner Digest Unit := do
  let busy ← read fun i => i.tx.isSome
  ensure (!busy) "dedup index already has an active file transaction"
  point "begin dedup file transaction"
  point "prepare dedup observation"
  modify fun i => { i with tx := some i.db, currentFile := path }
  onFailure (modify DedupIndex.clearTransaction) (point "invalidate duplicate record lookup")

def ensureTransaction : Scanner Digest Unit := do
  let i ← read id
  if i.tx.isSome then pure () else beginFile i.currentFile

def observeAt (layer : Layer) (digest : Digest) (size : Nat) (samplePath : String) : Scanner Digest Unit := do
  ensureTransaction
  effect "record dedup observation"
    (DedupIndex.inTransaction fun file t => t.observe file layer digest size samplePath)

def observe (layer : Layer) (digest : Digest) (size : Nat) : Scanner Digest Unit :=
  observeAt layer digest size ""

def deleteFileLayers (layers : Layers) : Scanner Digest Unit := do
  ensureTransaction
  forEach (fun layer => effect "reset observations"
    (DedupIndex.inTransaction fun file t => t.deleteLayer file layer)) layers.list

def saveFileState (path : String) (state : ScannedFileState Digest) : Scanner Digest Unit := do
  ensureTransaction
  effect "save scanned file state" (DedupIndex.inTransaction fun _ t => t.saveFile path state)

def commitFile : Scanner Digest Unit := do
  let tx ← read fun i => i.tx
  match tx with
  | none => pure ()
  | some tables => do
    onFailure (modify DedupIndex.clearTransaction) do
      point "close dedup observation statement"
      effect "commit dedup file transaction" fun i => { i with db := tables }
    modify DedupIndex.clearTransaction

def rollbackFile : Scanner Digest Unit := do
  let busy ← read fun i => i.tx.isSome
  if busy then do
    modify DedupIndex.clearTransaction
    point "rollback dedup file transaction"
  else pure ()

def loadFileState (path : String) : Scanner Digest (Option (ScannedFileState Digest)) := do
  let busy ← read fun i => i.tx.isSome
  ensure (!busy) "cannot load file state during active transaction"
  point "load scanned file state"
  read fun i => i.db.files.get path

def ensureConfiguration (configuration : Configuration) : Scanner Digest Unit := do
  let busy ← read fun i => i.tx.isSome
  ensure (!busy) "cannot configure index during active transaction"
  point "load scan index configuration"
  let current ← read fun i => i.db.configuration
  match current with
  | none =>
    effect "save scan index configuration" fun i =>
      { i with db := { i.db with configuration := some configuration } }
  | some current => ensure (decide (current = configuration)) "scan settings changed"

def removeFilesNotIn (paths : List String) : Scanner Digest Unit := do
  let busy ← read fun i => i.tx.isSome
  ensure (!busy) "cannot prune files during active transaction"
  point "list indexed files"
  let stale ← read fun i => i.db.staleFiles paths
  if stale = [] then pure ()
  else effect "prune stale files" fun i => { i with db := i.db.removeFiles stale }

def closeDedupIndex : Scanner Digest Unit := do
  commitFile
  point "close dedup sqlite index"

/-! ## What the rows of a file mean -/

abbrev Seen (Digest : Type) : Type := Layer → List (Digest × Nat)

def tally (n : Nat) : Option Nat := if n = 0 then none else some n

namespace Tables

variable {file : String} {t : Tables Digest} {seen : Seen Digest}

def rows (t : Tables Digest) (file : String) (layer : Layer) (object : Digest × Nat) : Option Nat :=
  (t.objects.get ⟨file, layer, object.1, object.2⟩).map ObjectRow.occurrences

def Shows (t : Tables Digest) (file : String) (seen : Seen Digest) : Prop :=
  ∀ layer object, t.rows file layer object = tally ((seen layer).count object)

structure Elsewhere (file : String) (t t' : Tables Digest) : Prop where
  objects : ∀ key, key.filePath ≠ file → t'.objects.get key = t.objects.get key
  files : ∀ path, path ≠ file → t'.files.get path = t.files.get path
  configuration : t'.configuration = t.configuration

theorem Elsewhere.refl (file : String) (t : Tables Digest) : Elsewhere file t t :=
  ⟨fun _ _ => rfl, fun _ _ => rfl, rfl⟩

theorem Elsewhere.trans {t' t'' : Tables Digest} (h : Elsewhere file t t')
    (h' : Elsewhere file t' t'') : Elsewhere file t t'' where
  objects key hk := (h'.objects key hk).trans (h.objects key hk)
  files path hp := (h'.files path hp).trans (h.files path hp)
  configuration := h'.configuration.trans h.configuration

variable {path : String}

theorem Elsewhere.shows {t' : Tables Digest} (h : Elsewhere file t t') (hne : path ≠ file) (hs : t.Shows path seen) :
    t'.Shows path seen := by
  intro layer object
  rw [← hs layer object]
  exact congrArg _ (h.objects _ hne)

theorem observe_elsewhere (t : Tables Digest) (file : String) (layer : Layer) (digest : Digest) (size : Nat)
    (samplePath : String) : Elsewhere file t (t.observe file layer digest size samplePath) where
  objects key hk := by
    refine get_set_ne _ _ ?_
    rintro rfl
    exact hk rfl
  files _ _ := rfl
  configuration := rfl

theorem Shows.observe (h : t.Shows file seen) (layer : Layer) (digest : Digest) (size : Nat) (samplePath : String) :
    (t.observe file layer digest size samplePath).Shows file
      (update seen layer (seen layer ++ [(digest, size)])) := by
  intro layer' object
  have hold := h layer' object
  unfold rows at hold ⊢
  unfold Tables.observe
  by_cases hkey : layer' = layer ∧ object = (digest, size)
  · obtain ⟨rfl, rfl⟩ := hkey
    simp only [get_set_self, update_self, List.count_append, List.count_singleton_self]
    cases hrow : t.objects.get ⟨file, layer', digest, size⟩ with
    | none =>
      rw [hrow] at hold
      unfold tally at hold
      split at hold
      · next hzero => simp [hzero, tally]
      · cases hold
    | some row =>
      rw [hrow] at hold
      unfold tally at hold
      split at hold
      · cases hold
      · simp only [Option.map_some, Option.some.injEq] at hold
        simp [hold, tally]
  · have hne : (⟨file, layer', object.1, object.2⟩ : ObjectKey Digest) ≠ ⟨file, layer, digest, size⟩ := by
      intro he
      injection he with _ hl hd hs
      exact hkey ⟨hl, Prod.ext hd hs⟩
    rw [get_set_ne _ _ hne, hold]
    by_cases hl : layer' = layer
    · subst hl
      have hobject : (digest, size) ≠ object := fun he => hkey ⟨rfl, he.symm⟩
      simp [hobject]
    · rw [update_of_ne hl]

theorem deleteLayer_elsewhere (t : Tables Digest) (file : String) (layer : Layer) :
    Elsewhere file t (t.deleteLayer file layer) where
  objects key hk := by
    unfold deleteLayer
    simp [get_keep, hk]
  files _ _ := rfl
  configuration := rfl

theorem Shows.deleteLayer (h : t.Shows file seen)
    (layer : Layer) : (t.deleteLayer file layer).Shows file (update seen layer []) := by
  intro layer' object
  have hold := h layer' object
  unfold rows at hold ⊢
  unfold Tables.deleteLayer
  rw [get_keep]
  by_cases hl : layer' = layer
  · subst hl
    simp [tally]
  · simp [hl, hold]

theorem saveFile_elsewhere (t : Tables Digest) (file : String) (state : ScannedFileState Digest) :
    Elsewhere file t (t.saveFile file state) where
  objects _ _ := rfl
  files _ hp := get_set_ne _ _ hp
  configuration := rfl

omit [DecidableEq Digest] in
theorem removeFiles_files (t : Tables Digest) (stale : List String) (path : String) :
    (t.removeFiles stale).files.get path = if path ∈ stale then none else t.files.get path := by
  simp [removeFiles, get_keep]

theorem Shows.removeFiles (h : t.Shows path seen) {stale : List String} (hp : path ∉ stale) :
    (t.removeFiles stale).Shows path seen := by
  intro layer object
  rw [← h layer object]
  simp [rows, Tables.removeFiles, get_keep, hp]

theorem removeFiles_gone (t : Tables Digest) {stale : List String} (hp : path ∈ stale) :
    (t.removeFiles stale).Shows path fun _ => [] := by
  intro layer object
  simp [rows, Tables.removeFiles, get_keep, hp, tally]

end Tables

/-! ## The rules of the operations -/

structure Draft (base : Tables Digest) (file : String) (seen : Seen Digest)
    (state : Option (ScannedFileState Digest)) (t : Tables Digest) : Prop where
  shows : t.Shows file seen
  elsewhere : Tables.Elsewhere file base t
  saved : t.files.get file = state

def Holds (base : Tables Digest) (i : DedupIndex Digest) : Prop := i.db = base

def Idle (base : Tables Digest) (i : DedupIndex Digest) : Prop := i.db = base ∧ i.tx = none

structure Scanning (base : Tables Digest) (file : String) (seen : Seen Digest)
    (state : Option (ScannedFileState Digest)) (i : DedupIndex Digest) : Prop where
  db : i.db = base
  current : i.currentFile = file
  draft : ∃ t, i.tx = some t ∧ Draft base file seen state t

variable {base : Tables Digest} {file : String} {seen : Seen Digest}
  {state : Option (ScannedFileState Digest)}

theorem Scanning.statement {seen' : Seen Digest} {state' : Option (ScannedFileState Digest)}
    {f : String → Tables Digest → Tables Digest} {i : DedupIndex Digest} (h : Scanning base file seen state i)
    (hf : ∀ t, Draft base file seen state t → Draft base file seen' state' (f file t)) :
    Scanning base file seen' state' (i.inTransaction f) := by
  obtain ⟨hdb, rfl, t, htx, hdraft⟩ := h
  refine ⟨hdb, rfl, f i.currentFile t, ?_, hf t hdraft⟩
  unfold DedupIndex.inTransaction
  rw [htx]
  rfl

theorem beginFile_completes (path : String) (hseen : base.Shows path seen) :
    Completes (Idle base) (beginFile path) (fun _ => Scanning base path seen (base.files.get path))
      (fun _ => Idle base) (Holds base) := by
  refine .at' fun i hi => .readAt ?_
  obtain ⟨hdb, htx⟩ := hi
  have hbusy : !i.tx.isSome := by rw [htx]; rfl
  have he : ∀ (j : DedupIndex Digest), j = i → Idle base j := fun j hj => hj ▸ ⟨hdb, htx⟩
  have hc : ∀ (j : DedupIndex Digest), j = i → Holds base j := held hdb
  refine .ensure' hbusy (.point' he hc (.point' he hc ?_))
  refine .bind' (M := fun _ => Scanning base path seen (base.files.get path)) ?_ fun _ => ?_
  · refine .modify' _ fun j hj => ?_
    subst hj
    exact ⟨hdb, rfl, base, by rw [hdb], hseen, .refl path base, rfl⟩
  · -- a failed statement closes the transaction again
    refine .onFailure' (F := fun _ => Holds base) (.effect' _ id (fun _ h => h) ?_ ?_) ?_
    · exact fun _ h => h.db
    · exact fun _ h => h.db
    · exact fun _ => .modify' _ fun _ h => ⟨h, rfl⟩

theorem ensureTransaction_completes {E : String → DedupIndex Digest → Prop} {C : DedupIndex Digest → Prop} :
    Completes (Scanning base file seen state) ensureTransaction (fun _ => Scanning base file seen state) E C := by
  refine .at' fun i hi => .readAt ?_
  obtain ⟨t, htx, -⟩ := hi.draft
  rw [if_pos (by rw [id, htx]; rfl)]
  exact .pure' () (held hi)

theorem statement_completes {seen' : Seen Digest} {state' : Option (ScannedFileState Digest)}
    {f : String → Tables Digest → Tables Digest} (e : String)
    (hf : ∀ t, Draft base file seen state t → Draft base file seen' state' (f file t)) :
    CompletesOr (Scanning base file seen state) (effect e (DedupIndex.inTransaction f))
      (fun _ => Scanning base file seen' state') (Holds base) :=
  .effect' e _ (fun _ h => h.statement hf) (fun _ h => h.db) fun _ h => h.db

theorem observeAt_completes (layer : Layer) (digest : Digest) (size : Nat) (samplePath : String) :
    CompletesOr (Scanning base file seen state) (observeAt layer digest size samplePath)
      (fun _ => Scanning base file (update seen layer (seen layer ++ [(digest, size)])) state) (Holds base) := by
  refine .bind' ensureTransaction_completes fun _ => statement_completes _ fun t ht => ?_
  exact ⟨ht.shows.observe layer digest size samplePath, ht.elsewhere.trans (t.observe_elsewhere ..), ht.saved⟩

theorem deleteLayers_completes (e : String) : ∀ (layers : List Layer) (seen : Seen Digest),
    CompletesOr (Scanning base file seen state) (forEach (fun layer => effect e (DedupIndex.inTransaction fun file t => t.deleteLayer file layer)) layers) (fun _ => Scanning base file
      (fun layer => if layer ∈ layers then [] else seen layer) state) (Holds base)
  | [], seen => .pure' () fun _ h => by simpa using h
  | layer :: rest, seen => by
    refine .bind' (M := fun _ => Scanning base file (update seen layer []) state)
      (statement_completes e fun t ht => ?_) fun _ => ?_
    · exact ⟨ht.shows.deleteLayer layer, ht.elsewhere.trans (t.deleteLayer_elsewhere ..), ht.saved⟩
    · refine (deleteLayers_completes e rest _).weaken fun _ _ h => ?_
      have hseen : (fun l => if l ∈ layer :: rest then [] else seen l) =
          fun l => if l ∈ rest then [] else update seen layer [] l := by
        funext l
        by_cases hl : l = layer
        · subst hl
          simp
        · simp [hl]
      rwa [hseen]

theorem deleteFileLayers_completes (layers : Layers) :
    CompletesOr (Scanning base file seen state) (deleteFileLayers layers) (fun _ => Scanning base file
      (fun layer => if layers.has layer then [] else seen layer) state) (Holds base) := by
  refine .bind' ensureTransaction_completes fun _ => ?_
  refine (deleteLayers_completes _ layers.list seen).weaken fun _ _ h => ?_
  simpa only [Layers.mem_list] using h

theorem saveFileState_completes (new : ScannedFileState Digest) :
    CompletesOr (Scanning base file seen state) (saveFileState file new)
      (fun _ => Scanning base file seen (some new)) (Holds base) := by
  refine .bind' ensureTransaction_completes fun _ => statement_completes _ fun t ht => ?_
  exact ⟨ht.shows, ht.elsewhere.trans (t.saveFile_elsewhere ..), get_set_self _ _ _⟩

theorem commitFile_completes : Completes (Scanning base file seen state) commitFile
    (fun _ i => i.tx = none ∧ Draft base file seen state i.db) (fun _ => Idle base)
    (fun i => i.db = base ∨ Draft base file seen state i.db) := by
  refine .at' fun i hi => .readAt ?_
  obtain ⟨t, htx, hdraft⟩ := hi.draft
  rw [htx]
  refine .bind' (M := fun _ j => Draft base file seen state j.db) ?_ fun _ => ?_
  · refine .onFailure' (F := fun _ => Holds base) ?_ ?_
    · refine .point' (held hi.db) (fun j hj => hj ▸ .inl hi.db) ?_
      exact .effect' _ _ (fun _ _ => hdraft) (held hi.db) fun j hj => hj ▸ .inl hi.db
    · exact fun _ => .modify' _ fun _ h => ⟨h, rfl⟩
  · exact .modify' _ fun _ h => ⟨rfl, h⟩

omit [DecidableEq Digest] in
theorem rollbackFile_spec : Spec (Holds base) rollbackFile (fun _ => Idle base) (fun _ => Idle base) (Holds base) := by
  refine .at' fun i hi => .readAt (.ite' (fun _ => ?_) fun hbusy => ?_)
  · refine .bind' (M := fun _ => Idle base) (.modify' _ fun j hj => hj ▸ ⟨hi, rfl⟩) fun _ => ?_
    exact .point' _ (fun _ h => h) (fun _ h => h) fun _ h => h.1
  · have htx : i.tx = none := by simpa using hbusy
    exact .pure' () fun j hj => hj ▸ ⟨hi, htx⟩

omit [DecidableEq Digest] in
theorem loadFileState_completes (path : String) :
    Completes (Idle base) (loadFileState path) (fun r i => Idle base i ∧ r = base.files.get path)
      (fun _ => Idle base) (Holds base) := by
  refine .at' fun i hi => .readAt (.ensure' (by rw [hi.2]; rfl) ?_)
  refine .point' (held hi) (held hi.1) ?_
  refine ⟨.read' _ fun j hj => ?_, fun j _ => .of_runs (.read' _ j)⟩
  subst hj
  exact ⟨hi, by rw [hi.1]⟩

omit [DecidableEq Digest] in
theorem ensureConfiguration_completes (configuration : Configuration)
    (h : ∀ current, base.configuration = some current → current = configuration) :
    Completes (Idle base) (ensureConfiguration configuration)
      (fun _ => Idle { base with configuration := some configuration }) (fun _ => Idle base) (Holds base) := by
  refine .at' fun i hi => .readAt (.ensure' (by rw [hi.2]; rfl) ?_)
  refine .point' (held hi) (held hi.1) (.readAt ?_)
  rw [hi.1]
  cases hcurrent : base.configuration with
  | none =>
    refine .effect' _ _ (fun j hj => ?_) (held hi) (held hi.1)
    subst hj
    exact ⟨by rw [hi.1], hi.2⟩
  | some current =>
    have hsame := h current hcurrent
    subst hsame
    have hdb : { base with configuration := some current } = base := by rw [← hcurrent]
    rw [hdb]
    show Completes _ (ensure (decide (current = current)) _) _ _ _
    rw [decide_eq_true rfl]
    exact .pure' () (held hi)

omit [DecidableEq Digest] in
theorem removeFilesNotIn_completes (paths : List String) : Completes (Idle base) (removeFilesNotIn paths)
      (fun _ i => i.tx = none ∧ (i.db = base ∨ i.db = base.removeFiles (base.staleFiles paths)))
      (fun _ => Idle base) (Holds base) := by
  refine .at' fun i hi => .readAt (.ensure' (by rw [hi.2]; rfl) ?_)
  refine .point' (held hi) (held hi.1) (.readAt ?_)
  rw [hi.1]
  by_cases hstale : base.staleFiles paths = []
  · rw [if_pos hstale]
    exact .pure' () fun j hj => hj ▸ ⟨hi.2, .inl hi.1⟩
  · rw [if_neg hstale]
    refine .effect' _ _ (fun j hj => ?_) (held hi) (held hi.1)
    subst hj
    exact ⟨hi.2, .inr (by rw [hi.1])⟩

end

end CodexFold.Scan
