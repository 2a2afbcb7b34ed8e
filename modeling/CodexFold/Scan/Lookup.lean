import CodexFold.Foundation.Simulation
import CodexFold.Scan.Index

/- The duplicate record lookup (`internal/scan/record_lookup.go`).

   A record that occurs twice in the index is found in the table `duplicate_records`, which
   is filled from `dedup_objects` when an open does not find `record_lookup_ready` in
   `scan_metadata`. Every transaction that changes the objects deletes that row first, so
   the committed row says that the table is right.

   The calls of `DedupIndex` are here with what they do to that row; on the rest of the
   database they are those of `Scan.Index` (`beginFile_simulates` and the others). -/
namespace CodexFold.Scan.Lookup
open Foundation List

structure Database (Digest : Type) where
  tables : Tables Digest
  ready : Bool
  duplicates : Files (Digest × Nat) Nat

structure Index (Digest : Type) where
  db : Database Digest
  tx : Option (Database Digest)
  currentFile : String

section
variable {Digest : Type} [DecidableEq Digest]

def occurrences (t : Tables Digest) (record : Digest × Nat) : Nat :=
  ((t.objects.entries.filter fun e => decide (e.1.layer = .record ∧ (e.1.digest, e.1.size) = record)).map fun e =>
    e.2.occurrences).sum

def records (t : Tables Digest) : List (Digest × Nat) :=
  (t.objects.entries.filter fun e => decide (e.1.layer = .record)).map fun e => (e.1.digest, e.1.size)

def materialize (t : Tables Digest) : Files (Digest × Nat) Nat :=
  (records t).foldl (fun rows r => if occurrences t r > 1 then rows.set r (occurrences t r) else rows) .empty

/-! ## Operations -/

abbrev Writer (Digest α : Type) : Type := Prog (Index Digest) String α

variable (i : Index Digest)

def Index.clearTransaction : Index Digest := { i with tx := none }

def beginFile (path : String) : Writer Digest Unit := do
  let busy ← read fun i => i.tx.isSome
  ensure (!busy) "dedup index already has an active file transaction"
  point "begin dedup file transaction"
  point "prepare dedup observation"
  modify fun i => { i with currentFile := path }
  effect "invalidate duplicate record lookup" fun i => { i with tx := some { i.db with ready := false } }

def ensureTransaction : Writer Digest Unit := do
  let i ← read id
  if i.tx.isSome then pure () else beginFile i.currentFile

def statement (e : String) (f : String → Tables Digest → Tables Digest) : Writer Digest Unit :=
  effect e fun i => { i with tx := i.tx.map fun t => { t with tables := f i.currentFile t.tables } }

def execute (e : String) (f : String → Tables Digest → Tables Digest) : Writer Digest Unit := do
  ensureTransaction
  statement e f

def observeAt (layer : Layer) (digest : Digest) (size : Nat) (samplePath : String) : Writer Digest Unit :=
  execute "record dedup observation" fun file t => t.observe file layer digest size samplePath

def deleteFileLayers (layers : List Layer) : Writer Digest Unit := do
  ensureTransaction
  forEach (fun layer => statement "reset observations" fun file t => t.deleteLayer file layer) layers

def saveFileState (path : String) (state : ScannedFileState Digest) : Writer Digest Unit :=
  execute "save scanned file state" fun _ t => t.saveFile path state

def commitFile : Writer Digest Unit := do
  let tx ← read fun i => i.tx
  match tx with
  | none => pure ()
  | some committed => do
    onFailure (modify Index.clearTransaction) do
      point "close dedup observation statement"
      effect "commit dedup file transaction" fun i => ⟨committed, none, i.currentFile⟩

def rollbackFile : Writer Digest Unit := do
  let busy ← read fun i => i.tx.isSome
  if busy then do
    modify Index.clearTransaction
    point "rollback dedup file transaction"
  else pure ()

def removeFilesNotIn (paths : List String) : Writer Digest Unit := do
  let busy ← read fun i => i.tx.isSome
  ensure (!busy) "cannot prune files during active transaction"
  point "list indexed files"
  let stale ← read fun i => i.db.tables.staleFiles paths
  if stale = [] then pure ()
  else effect "prune stale files" fun i =>
    { i with db := { i.db with ready := false, tables := i.db.tables.removeFiles stale } }

/-- `OpenDuplicateRecordIndex` from its own connection, which cannot write while a scan does. -/
def openDuplicateRecordIndex : Writer Digest Unit := do
  point "create duplicate record lookup"
  let i ← read id
  if i.db.ready then point "commit duplicate record lookup"
  else do
    ensure i.tx.isNone "database is locked"
    point "materialize duplicate record lookup"
    effect "commit duplicate record lookup" fun i =>
      { i with db := { i.db with ready := true, duplicates := materialize i.db.tables } }

def Index.isDuplicateRecord (digest : Digest) (size : Nat) : Bool :=
  match i.db.duplicates.get (digest, size) with
  | none => false
  | some occurrences => decide (occurrences ≥ 2)

/-! ## The calls of the index -/

/-- The index of the other model: the database without the row and the table. -/
def Index.dedup : DedupIndex Digest := ⟨i.db.tables, i.tx.map (·.tables), i.currentFile⟩

abbrev IsDedup (i : Index Digest) (j : DedupIndex Digest) : Prop := j = i.dedup

/-- A process that is killed leaves the database. -/
abbrev SameDatabase (i : Index Digest) (j : DedupIndex Digest) : Prop := j.db = i.db.tables

section
omit [DecidableEq Digest]

theorem IsDedup.database {i : Index Digest} (j : DedupIndex Digest) (h : IsDedup i j) : SameDatabase i j := h ▸ rfl

theorem busy_simulates : Simulates IsDedup SameDatabase (read fun i => i.tx.isSome : Writer Digest Bool)
    (read fun j => j.tx.isSome) := by
  refine .read' ?_
  rintro i _ rfl
  simp [Index.dedup]

theorem beginFile_simulates (path : String) :
    Simulates IsDedup SameDatabase (beginFile path : Writer Digest Unit) (Scan.beginFile path) := by
  rintro fs ⟨db, tx, file⟩ _ rfl
  cases tx with
  | some t => exact .failed rfl
  | none =>
    -- when the last statement fails, the transaction ends there and has not begun here
    rcases fs with _ | ⟨_ | _ | _, _ | ⟨_ | _ | _, _ | ⟨_ | _ | _, fs⟩⟩⟩
    all_goals first | exact .done rfl | exact .failed rfl | exact .crashed rfl

theorem ensureTransaction_simulates :
    Simulates IsDedup SameDatabase (ensureTransaction : Writer Digest Unit) Scan.ensureTransaction := by
  rintro fs ⟨db, tx, file⟩ _ rfl
  cases tx with
  | none => exact beginFile_simulates file fs ⟨db, none, file⟩ _ rfl
  | some t => exact .done rfl

theorem statement_simulates (e : String) (f : String → Tables Digest → Tables Digest) :
    Simulates IsDedup SameDatabase (statement e f) (effect e (DedupIndex.inTransaction f)) := by
  refine .effect' (fun _ => IsDedup.database) _ ?_
  rintro ⟨db, tx, file⟩ _ rfl
  cases tx <;> rfl

theorem deleteFileLayers_simulates (layers : Layers) :
    Simulates IsDedup SameDatabase (deleteFileLayers layers.list : Writer Digest Unit) (Scan.deleteFileLayers layers) :=
  .bind' ensureTransaction_simulates fun _ => .forEach' (fun _ => statement_simulates _ _) _

theorem saveFileState_simulates (path : String) (state : ScannedFileState Digest) :
    Simulates IsDedup SameDatabase (saveFileState path state) (Scan.saveFileState path state) :=
  .bind' ensureTransaction_simulates fun _ => statement_simulates _ _

theorem commitFile_simulates :
    Simulates IsDedup SameDatabase (commitFile : Writer Digest Unit) Scan.commitFile := by
  rintro fs ⟨db, tx, file⟩ _ rfl
  cases tx with
  | none => exact .done rfl
  | some committed =>
    rcases fs with _ | ⟨_ | _ | _, _ | ⟨_ | _ | _, fs⟩⟩
    all_goals first | exact .done rfl | exact .failed rfl | exact .crashed rfl

theorem rollbackFile_simulates :
    Simulates IsDedup SameDatabase (rollbackFile : Writer Digest Unit) Scan.rollbackFile := by
  refine .bind' busy_simulates fun busy => ?_
  split
  · refine .bind' (.modify' ?_) fun _ => .point' (fun _ => IsDedup.database) _
    rintro i _ rfl
    rfl
  · exact .pure' ()

theorem removeFilesNotIn_simulates (paths : List String) :
    Simulates IsDedup SameDatabase (removeFilesNotIn paths : Writer Digest Unit) (Scan.removeFilesNotIn paths) := by
  refine .bind' busy_simulates fun _ => .bind' (.ensure' _ _) fun _ => ?_
  refine .bind' (.point' (fun _ => IsDedup.database) _) fun _ => .bind' (.read' ?_) fun stale => ?_
  · rintro i _ rfl
    rfl
  split
  · exact .pure' ()
  · refine .effect' (fun _ => IsDedup.database) _ ?_
    rintro i _ rfl
    rfl

end

theorem observeAt_simulates (layer : Layer) (digest : Digest) (size : Nat) (samplePath : String) :
    Simulates IsDedup SameDatabase (observeAt layer digest size samplePath) (Scan.observeAt layer digest size samplePath) :=
  .bind' ensureTransaction_simulates fun _ => statement_simulates _ _

/-! ## Runs -/

inductive Call (Digest : Type) where
  | reopen
  | beginFile (path : String)
  | observeAt (layer : Layer) (digest : Digest) (size : Nat) (samplePath : String)
  | deleteFileLayers (layers : List Layer)
  | saveFileState (path : String) (state : ScannedFileState Digest)
  | commitFile
  | rollbackFile
  | removeFilesNotIn (paths : List String)
  | openDuplicateRecordIndex

def Index.reopened : Index Digest := ⟨i.db, none, "__adhoc__"⟩

def Call.run : Call Digest → Writer Digest Unit
  | reopen => modify Index.reopened
  | beginFile path => Lookup.beginFile path
  | observeAt layer digest size samplePath => Lookup.observeAt layer digest size samplePath
  | deleteFileLayers layers => Lookup.deleteFileLayers layers
  | saveFileState path state => Lookup.saveFileState path state
  | commitFile => Lookup.commitFile
  | rollbackFile => Lookup.rollbackFile
  | removeFilesNotIn paths => Lookup.removeFilesNotIn paths
  | openDuplicateRecordIndex => Lookup.openDuplicateRecordIndex

def step (call : Call Digest × List Fault) : Index Digest :=
  match call.1.run call.2 i with
  | (.crashed, i', _) => i'.reopened
  | (_, i', _) => i'

def Index.created : Index Digest := ⟨⟨.empty, false, .empty⟩, none, "__adhoc__"⟩

/-! ## The row vouches for the table -/

structure Fresh (i : Index Digest) : Prop where
  table : i.db.ready = true → i.db.duplicates = materialize i.db.tables
  dropped : ∀ t, i.tx = some t → t.ready = false

variable {i : Index Digest}

theorem Fresh.cleared (h : Fresh i) (file : String) : Fresh ⟨i.db, none, file⟩ :=
  ⟨h.table, nofun⟩

theorem beginFile_fresh (path : String) : Keeps Fresh (beginFile path : Writer Digest Unit) := by
  refine .bind' (.read' _) fun _ => ?_
  refine .bind' (.ensure' _ _) fun _ => ?_
  refine .bind' (.point' _) fun _ => ?_
  refine .bind' (.point' _) fun _ => ?_
  refine .bind' (.modify' _ fun i h => ⟨h.table, h.dropped⟩) fun _ => ?_
  refine .effect' _ _ fun i h => ⟨h.table, fun t ht => ?_⟩
  cases ht
  rfl

theorem ensureTransaction_fresh : Keeps Fresh (ensureTransaction : Writer Digest Unit) :=
  .bind' (.read' _) fun _ => .ite' (.pure' _) (beginFile_fresh _)

theorem statement_fresh (e : String) (f : String → Tables Digest → Tables Digest) : Keeps Fresh (statement e f) := by
  refine .effect' _ _ fun i h => ⟨h.table, fun t ht => ?_⟩
  obtain ⟨t', ht', rfl⟩ := Option.map_eq_some_iff.mp ht
  exact h.dropped t' ht'

theorem execute_fresh (e : String) (f : String → Tables Digest → Tables Digest) : Keeps Fresh (execute e f) :=
  .bind' ensureTransaction_fresh fun _ => statement_fresh e f

theorem commitFile_fresh : Keeps Fresh (commitFile : Writer Digest Unit) := by
  refine .at' fun i h => .readAt ?_
  match htx : i.tx with
  | none => exact .pure' _ (held h)
  | some committed =>
    -- the transaction has no row, so its table need not be right
    have hcommitted : ∀ file, Fresh (⟨committed, none, file⟩ : Index Digest) := fun _ =>
      ⟨fun hready => absurd hready (by rw [h.dropped committed htx]; decide), nofun⟩
    refine .pre ?_ (held h)
    refine Keeps.onFailure' ?_ (Spec.modify' _ fun i h => h.cleared i.currentFile)
    refine .bind' (.point' _) fun _ => ?_
    exact .effect' _ _ fun i _ => hcommitted i.currentFile

theorem removeFilesNotIn_fresh (paths : List String) : Keeps Fresh (removeFilesNotIn paths : Writer Digest Unit) := by
  refine .bind' (.read' _) fun _ => ?_
  refine .bind' (.ensure' _ _) fun _ => ?_
  refine .bind' (.point' _) fun _ => ?_
  refine .bind' (.read' _) fun _ => ?_
  exact .ite' (.pure' _) (.effect' _ _ fun _ h => ⟨nofun, h.dropped⟩)

theorem open_fresh : SpecOr Fresh (openDuplicateRecordIndex : Writer Digest Unit)
      (fun _ i => Fresh i ∧ i.db.ready) Fresh := by
  refine .bind' (Keeps.point' _) fun _ => ?_
  refine Spec.at' fun i h => .readAt ?_
  refine .ite' (fun hready => ?_) fun _ => ?_
  · exact .point' _ (fun t ht => ht ▸ ⟨h, hready⟩) (held h) (held h)
  · refine Spec.pre ?_ (held h)
    refine .bind' (Keeps.ensure' _ _) fun _ => ?_
    refine .bind' (Keeps.point' _) fun _ => ?_
    exact .effect' _ _ (fun i h => ⟨⟨fun _ => rfl, h.dropped⟩, rfl⟩) (fun _ h => h) fun _ h => h

theorem run_fresh : ∀ call : Call Digest, Keeps Fresh call.run
  | .reopen => .modify' _ fun _ h => h.cleared _
  | .beginFile path => beginFile_fresh path
  | .observeAt layer digest size samplePath => execute_fresh _ fun file t => t.observe file layer digest size samplePath
  | .deleteFileLayers _ => .bind' ensureTransaction_fresh fun _ => .forEach' fun _ => statement_fresh _ _
  | .saveFileState path state => execute_fresh _ fun _ t => t.saveFile path state
  | .commitFile => commitFile_fresh
  | .rollbackFile => .bind' (.read' _) fun _ =>
      .ite' (.bind' (.modify' _ fun i h => h.cleared i.currentFile) fun _ => .point' _) (.pure' _)
  | .removeFilesNotIn paths => removeFilesNotIn_fresh paths
  | .openDuplicateRecordIndex => open_fresh.mono (fun _ _ h => h.1) fun _ h => h

theorem step_fresh (h : Fresh i) (call : Call Digest × List Fault) : Fresh (step i call) := by
  have hrun := (run_fresh call.1).state call.2 h
  unfold step
  match hresult : call.1.run call.2 i with
  | (.done _, i', _) | (.failed _, i', _) =>
    rw [hresult] at hrun
    exact hrun
  | (.crashed, i', _) =>
    rw [hresult] at hrun
    exact hrun.cleared _

theorem steps_fresh (calls : List (Call Digest × List Fault)) (h : Fresh i) : Fresh (calls.foldl step i) := by
  induction calls generalizing i with
  | nil => exact h
  | cons call calls ih => exact ih (step_fresh h call)

/-! ## What the table says -/

theorem get_foldl_set {κ : Type} [DecidableEq κ] (f : κ → Nat) (k : κ) (l : List κ) (rows : Files κ Nat) :
    (l.foldl (fun rows r => if f r > 1 then rows.set r (f r) else rows) rows).get k
      = if k ∈ l ∧ f k > 1 then some (f k) else rows.get k := by
  induction l generalizing rows with
  | nil => simp
  | cons r l ih =>
    rw [foldl_cons, ih]
    by_cases hk : k = r
    · subst hk
      by_cases hf : f k > 1 <;> simp [hf]
    · by_cases hf : f r > 1 <;> simp [hf, hk]

theorem mem_records {t : Tables Digest} {record : Digest × Nat} (h : occurrences t record > 1) : record ∈ records t := by
  by_contra hnot
  have hempty : (t.objects.entries.filter fun e =>
      decide (e.1.layer = .record ∧ (e.1.digest, e.1.size) = record)) = [] := by
    refine filter_eq_nil_iff.mpr fun e he hmatch => hnot ?_
    obtain ⟨hlayer, hrecord⟩ := of_decide_eq_true hmatch
    exact mem_map.mpr ⟨e, mem_filter.mpr ⟨he, decide_eq_true hlayer⟩, hrecord⟩
  rw [occurrences, hempty] at h
  cases h

theorem get_materialize (t : Tables Digest) (record : Digest × Nat) :
    (materialize t).get record = if occurrences t record > 1 then some (occurrences t record) else none := by
  rw [materialize, get_foldl_set]
  by_cases h : occurrences t record > 1
  · rw [if_pos ⟨mem_records h, h⟩, if_pos h]
  · rw [if_neg fun hand => h hand.2, if_neg h, Files.get_empty]

/-- Whatever happened to the index before: once the lookup is open, it answers true for the
    records that occur twice in the committed objects. -/
theorem lookup_answers (calls : List (Call Digest × List Fault)) {faults rest : List Fault} {i : Index Digest}
    (h : openDuplicateRecordIndex faults (calls.foldl step Index.created) = (.done (), i, rest)) (digest : Digest)
    (size : Nat) : i.isDuplicateRecord digest size = true ↔ 2 ≤ occurrences i.db.tables (digest, size) := by
  have hopen := open_fresh faults _ (steps_fresh calls (⟨nofun, nofun⟩ : Fresh (Index.created : Index Digest)))
  rw [h] at hopen
  obtain ⟨hfresh, hready⟩ := hopen
  rw [Index.isDuplicateRecord, hfresh.table hready, get_materialize]
  by_cases htwice : occurrences i.db.tables (digest, size) > 1
  · rw [if_pos htwice]
    exact decide_eq_true_iff
  · rw [if_neg htwice]
    exact iff_of_false nofun htwice

def twoFiles : List (Call Nat × List Fault) :=
  [(.beginFile "a", []), (.observeAt .record 7 3 "", []), (.commitFile, []), (.openDuplicateRecordIndex, []),
    (.beginFile "b", []), (.observeAt .record 7 3 "", []), (.commitFile, [])]

theorem lookup_answers_second_file :
    (openDuplicateRecordIndex [] (twoFiles.foldl step Index.created)).2.1.isDuplicateRecord 7 3 = true :=
  (@lookup_answers Nat _ twoFiles [] [] _ rfl 7 3).mpr (by decide)

end
end CodexFold.Scan.Lookup
