import CodexFold.Foundation.Traces
import CodexFold.Vfs.Operations

/- The running hash of a writer (`handles.go`).

   A `WriteHandle` feeds what it appends to a hasher that has read the file before, so
   that `Sync` can hand the file's identity to the checkpoint without reading it again.
   Every write that goes past the hasher has to invalidate it.

   The hasher is the bytes it has been fed. What the outside world answers (a step that
   fails, a write that stops early) comes with the operation; a truncation that fails
   changes nothing. The writer lease is exclusive, so nobody else writes the files. The
   temporary of a copy-on-write is not among them. -/
namespace CodexFold.Vfs.AppendHash
open Foundation

/-- The session as its `WriteHandle` sees it, with the files themselves. A delta file is
    never called like a backing file. -/
structure Writer where
  generation : Nat
  base : Bytes
  deltaPath : DataFile
  backingPath : Option DataFile
  files : DataFile → Bytes
  closed : Bool
  dirty : Bool
  appendHasher : Bytes
  appendHashPath : DataFile
  appendHashBytes : Nat
  appendHashValid : Bool
  delta_ne : ∀ g, deltaPath ≠ .backing g

/-- `sessionStateFileIdentity`. -/
structure Identity (Digest : Type) where
  path : DataFile
  bytes : Nat
  sha256 : Digest
  deriving DecidableEq, Repr

namespace Writer
variable {Digest : Type} (sha256 : Bytes → Digest) (w : Writer)

def activePath : DataFile := w.backingPath.getD w.deltaPath

variable (path : DataFile)

def setFile (contents : Bytes) : Writer :=
  { w with files := fun p => if p = path then contents else w.files p }

theorem setFile_setFile (a b : Bytes) :
    (w.setFile path a).setFile path b = w.setFile path b := by
  simp only [setFile, mk.injEq, true_and, and_true]
  funext p
  split <;> rfl

theorem setFile_files {path : DataFile} {contents : Bytes} (h : contents = w.files path) :
    (w.setFile path contents).files = w.files := by
  funext p
  by_cases hp : p = path
  · simp [setFile, hp, h]
  · simp [setFile, hp]

def bypass : Writer := { w with dirty := true, appendHashValid := false }

def feed (data : Bytes) : Writer :=
  { w with appendHasher := w.appendHasher ++ data, appendHashBytes := w.appendHashBytes + data.length, dirty := true }

/-- `ensureAppendHash`; `fails` is an error of the open, the copy or the close. -/
def ensureAppendHash (fails : Bool) : Except String Writer :=
  if w.appendHashValid ∧ w.appendHashPath = path then .ok w
  else if fails then .error "hash append target"
  else .ok { w with
    appendHasher := w.files path
    appendHashPath := path
    appendHashBytes := (w.files path).length
    appendHashValid := true }

/-- What happens to the steps of an `Append`; the write stops after `written` bytes, if it
    comes that far, and may report an error in any case. -/
structure AppendFaults where
  context : Bool
  hash : Bool
  open' : Bool
  stat : Bool
  written : Nat
  write : Bool
  truncate : Bool
  sync : Bool
  close : Bool
  deriving DecidableEq, Repr

def rollBack (f : AppendFaults) (path : DataFile) (original : Bytes) (n : Nat) (w : Writer) :
    (Nat × Option String) × Writer :=
  if f.truncate then ((n, some "rollback incomplete append"), w.bypass)
  else
    let w := w.setFile path ((w.files path).take original.length)
    if f.sync then ((n, some "rollback incomplete append"), w.bypass) else ((0, some "short write"), w)

/-- `Append` once its target is open and sized. -/
def appendTo (f : AppendFaults) (path : DataFile) (data : Bytes) (w : Writer) : (Nat × Option String) × Writer :=
  let original := w.files path
  let n := min f.written data.length
  let failed : Bool := f.write || n != data.length
  let w := w.setFile path (original ++ data.take n)
  if failed ∧ 0 < n then rollBack f path original n w
  else ((n, if failed then some "short write" else if f.close then some "close append target" else none),
    if 0 < n then w.feed (data.take n) else w)

def append (f : AppendFaults) (data : Bytes) (w : Writer) : (Nat × Option String) × Writer :=
  if w.closed then ((0, some "writer is closed"), w)
  else if f.context then ((0, some "context"), w)
  else
    match w.ensureAppendHash w.activePath f.hash with
    | .error e => ((0, some e), w)
    | .ok hashed =>
      if f.open' then ((0, some "open append target"), hashed)
      else if f.stat then ((0, some "stat append target"), hashed)
      else appendTo f w.activePath data hashed

/-- How an `ensureBacking` that has to copy ends: without a new file, with the file and the
    old state, with a new state and an error (of the journal), or well. -/
inductive Copy where
  | refused
  | renamed
  | published
  | complete
  deriving DecidableEq, Repr

def ensureBacking (copy : Copy) (w : Writer) : Except String DataFile × Writer :=
  match w.backingPath with
  | some path => (.ok path, w)
  | none =>
    let path := DataFile.backing (w.generation + 1)
    let copied := w.setFile path (w.base ++ w.files w.deltaPath)
    let switched := { copied with generation := w.generation + 1, backingPath := some path }
    match copy with
    | .refused => (.error "create temporary backing", w)
    | .renamed => (.error "publish session state", copied)
    | .published => (.error "append session journal", switched)
    | .complete => (.ok path, switched)

/-- What `WriteAt` and `Truncate` do once the session has a backing file, or instead. -/
def onBacking {α : Type} (copy : Copy) (failed : String → α) (k : DataFile → Writer → α × Writer) (w : Writer) : α × Writer :=
  match w.ensureBacking copy with
  | (.error e, w) => (failed e, w)
  | (.ok path, w) => k path w

/-- `WriteHandle.WriteAt`; `opens` and `closes` say whether the file opens and closes, and
    the write stops after `written` bytes. -/
def writeAt (copy : Copy) (opens closes : Bool) (written : Nat) (data : Bytes) (offset : Int) (w : Writer) :
    (Nat × Option String) × Writer :=
  if w.closed then ((0, some "writer is closed"), w)
  else if offset < 0 then ((0, some "negative write offset"), w)
  else w.onBacking copy (fun e => (0, some e)) fun path w =>
    if opens = false then ((0, some "open"), w)
    else
      let n := min written data.length
      let error := if n < data.length then some "write" else if closes then none else some "close"
      ((n, error), if 0 < n then (w.setFile path (overwriteAt (w.files path) offset.toNat (data.take n))).bypass else w)

/-- The size of `VisibleInfo`. -/
def visibleSize : Nat :=
  match w.backingPath with
  | some path => (w.files path).length
  | none => w.base.length + (w.files w.deltaPath).length

/-- `WriteHandle.Truncate`; `sized` and `truncates` say whether `VisibleInfo` and the
    truncation succeed. -/
def truncate (copy : Copy) (sized truncates : Bool) (size : Int) (w : Writer) : Option String × Writer :=
  if w.closed then (some "writer is closed", w)
  else if size < 0 then (some "negative truncate size", w)
  else if sized = false then (some "stat", w)
  else if size = w.visibleSize then (none, w)
  else w.onBacking copy some fun path w =>
    if truncates then (none, (w.setFile path (resize (w.files path) size.toNat)).bypass) else (some "truncate", w)

/-- `syncAndCheckpointLocked`: the identity that goes to the checkpoint, if one does.
    `syncs`, `stats` and `refreshes` say which of its steps succeed. -/
def syncAndCheckpointLocked (syncs stats refreshes : Bool) (w : Writer) : Option (Identity Digest) × Writer :=
  if w.closed ∨ syncs = false ∨ w.dirty = false then (none, w)
  else
    let hashed := decide (w.appendHashValid = true ∧ w.appendHashPath = w.activePath)
    let same := decide (stats = true ∧ (w.files w.activePath).length = w.appendHashBytes)
    (if hashed && same then some ⟨w.activePath, w.appendHashBytes, sha256 w.appendHasher⟩ else none,
      { w with dirty := !refreshes, appendHashValid := w.appendHashValid && (!hashed || same) })

end Writer

inductive Op where
  | append (f : Writer.AppendFaults) (data : Bytes)
  | writeAt (copy : Writer.Copy) (opens closes : Bool) (written : Nat) (data : Bytes) (offset : Int)
  | truncate (copy : Writer.Copy) (sized truncates : Bool) (size : Int)
  | sync (syncs stats refreshes : Bool)
  deriving DecidableEq, Repr

section
variable {Digest : Type} (sha256 : Bytes → Digest)

def step (w : Writer) : Op → Option (Identity Digest) × Writer
  | .append f data => (none, (w.append f data).2)
  | .writeAt copy opens closes written data offset => (none, (w.writeAt copy opens closes written data offset).2)
  | .truncate copy sized truncates size => (none, (w.truncate copy sized truncates size).2)
  | .sync syncs stats refreshes => w.syncAndCheckpointLocked sha256 syncs stats refreshes

def run (w : Writer) (ops : List Op) : Writer := ops.foldl (fun w op => (step sha256 w op).2) w

/-! ## The invariant -/

/-- A valid hasher has been fed the file at its path, which is the delta as long as there is
    no backing file. -/
structure Hashed (w : Writer) : Prop where
  contents : w.appendHashValid = true → w.appendHasher = w.files w.appendHashPath
  bytes : w.appendHashValid = true → w.appendHashBytes = w.appendHasher.length
  path : w.appendHashValid = true → w.backingPath = none → w.appendHashPath = w.deltaPath

variable {w hashed : Writer}

theorem Hashed.of_invalid (h : w.appendHashValid = false) : Hashed w :=
  ⟨fun hv => absurd (h.symm.trans hv) (by decide), fun hv => absurd (h.symm.trans hv) (by decide),
    fun hv => absurd (h.symm.trans hv) (by decide)⟩

section

variable (h : Hashed w)
include h

theorem Hashed.other {path : DataFile} (hpath : w.appendHashValid → w.appendHashPath ≠ path) (contents : Bytes) :
    Hashed (w.setFile path contents) :=
  ⟨fun hv => (h.contents hv).trans (if_neg (hpath hv)).symm, h.bytes, h.path⟩

theorem ensureAppendHash_hashed {fails : Bool} (hok : w.ensureAppendHash w.activePath fails = .ok hashed) :
    Hashed hashed ∧ hashed.appendHashValid ∧ hashed.appendHashPath = w.activePath ∧ hashed.files = w.files := by
  unfold Writer.ensureAppendHash at hok
  split at hok
  next hvalid =>
    cases hok
    exact ⟨h, hvalid.1, hvalid.2, rfl⟩
  next =>
    split at hok
    · cases hok
    · cases hok
      refine ⟨⟨fun _ => rfl, fun _ => rfl, fun _ hnone => ?_⟩, rfl, rfl, rfl⟩
      rw [Writer.activePath, show w.backingPath = none from hnone]
      rfl

theorem appendTo_hashed (hvalid : w.appendHashValid) (f : Writer.AppendFaults) (data : Bytes) :
    Hashed (w.appendTo f w.appendHashPath data).2 ∧ ∀ e, (w.appendTo f w.appendHashPath data).1 = (0, some e) →
        (w.appendTo f w.appendHashPath data).2.files = w.files := by
  unfold Writer.appendTo
  dsimp only
  split
  next hfailed =>
    unfold Writer.rollBack
    split
    · exact ⟨.of_invalid rfl, fun e he => absurd (congrArg Prod.fst he) (by simp only; omega)⟩
    split
    · exact ⟨.of_invalid rfl, fun e he => absurd (congrArg Prod.fst he) (by simp only; omega)⟩
    · -- the truncation puts back what was there
      have hback : ∀ bytes, ((w.setFile w.appendHashPath (w.files w.appendHashPath ++ bytes)).files w.appendHashPath).take
          (w.files w.appendHashPath).length = w.files w.appendHashPath := by
        intro bytes
        simp [Writer.setFile]
      rw [Writer.setFile_setFile, hback]
      have hfiles := w.setFile_files (rfl : w.files w.appendHashPath = _)
      exact ⟨⟨fun _ => by rw [hfiles]; exact h.contents hvalid, h.bytes, h.path⟩, fun _ _ => hfiles⟩
  next =>
    by_cases hsome : 0 < min f.written data.length
    · rw [if_pos hsome]
      refine ⟨⟨fun _ => ?_, fun _ => ?_, h.path⟩, fun e he => absurd (congrArg Prod.fst he) (by simp only; omega)⟩
      · simp [Writer.feed, Writer.setFile, h.contents hvalid]
      · simp [Writer.feed, Writer.setFile, h.bytes hvalid]
    · rw [if_neg hsome, show min f.written data.length = 0 by omega]
      have hfiles := w.setFile_files (show w.files w.appendHashPath ++ data.take 0 = w.files w.appendHashPath by simp)
      exact ⟨⟨fun _ => by rw [hfiles]; exact h.contents hvalid, h.bytes, h.path⟩, fun _ _ => hfiles⟩

theorem append_hashed (f : Writer.AppendFaults) (data : Bytes) :
    Hashed (w.append f data).2 ∧ ∀ e, (w.append f data).1 = (0, some e) → (w.append f data).2.files = w.files := by
  unfold Writer.append
  split
  · exact ⟨h, fun _ _ => rfl⟩
  split
  · exact ⟨h, fun _ _ => rfl⟩
  split
  · exact ⟨h, fun _ _ => rfl⟩
  next hashed hok =>
    obtain ⟨hinv, hvalid, hpath, hfiles⟩ := ensureAppendHash_hashed h hok
    split
    · exact ⟨hinv, fun _ _ => hfiles⟩
    split
    · exact ⟨hinv, fun _ _ => hfiles⟩
    · rw [← hpath, ← hfiles]
      exact appendTo_hashed hinv hvalid f data

variable (copy : Writer.Copy)

theorem ensureBacking_hashed : Hashed (w.ensureBacking copy).2 := by
  unfold Writer.ensureBacking
  split
  · exact h
  next hnone =>
    have hcopied := h.other (fun hv => h.path hv hnone ▸ w.delta_ne (w.generation + 1)) (w.base ++ w.files w.deltaPath)
    cases copy with
    | refused => exact h
    | renamed => exact hcopied
    | published | complete => exact ⟨hcopied.contents, hcopied.bytes, nofun⟩

theorem onBacking_hashed {α : Type} {copy : Writer.Copy} {failed : String → α} {k : DataFile → Writer → α × Writer}
    (hk : ∀ path w', Hashed w' → Hashed (k path w').2) : Hashed (w.onBacking copy failed k).2 := by
  have hbacking := ensureBacking_hashed h copy
  unfold Writer.onBacking
  split
  next hcopy =>
    rw [hcopy] at hbacking
    exact hbacking
  next path w' hcopy =>
    rw [hcopy] at hbacking
    exact hk path w' hbacking

theorem writeAt_hashed (opens closes : Bool) (written : Nat) (data : Bytes) (offset : Int) :
    Hashed (w.writeAt copy opens closes written data offset).2 := by
  unfold Writer.writeAt
  split
  · exact h
  split
  · exact h
  refine onBacking_hashed h fun path w' h' => ?_
  split
  · exact h'
  · dsimp only
    split
    · exact .of_invalid rfl
    · exact h'

theorem truncate_hashed (sized truncates : Bool) (size : Int) :
    Hashed (w.truncate copy sized truncates size).2 := by
  unfold Writer.truncate
  iterate 4
    split
    · exact h
  refine onBacking_hashed h fun path w' h' => ?_
  split
  · exact .of_invalid rfl
  · exact h'

theorem sync_hashed (syncs stats refreshes : Bool) :
    Hashed (w.syncAndCheckpointLocked sha256 syncs stats refreshes).2 := by
  unfold Writer.syncAndCheckpointLocked
  split
  · exact h
  · have hvalid : ∀ {c : Bool}, (w.appendHashValid && c) = true → w.appendHashValid := fun hc =>
      (Bool.and_eq_true_iff.mp hc).1
    exact ⟨fun hv => h.contents (hvalid hv), fun hv => h.bytes (hvalid hv), fun hv => h.path (hvalid hv)⟩

theorem step_hashed (op : Op) : Hashed (step sha256 w op).2 := by
  cases op with
  | append f data => exact (append_hashed h f data).1
  | writeAt copy opens closes written data offset => exact writeAt_hashed h copy opens closes written data offset
  | truncate copy sized truncates size => exact truncate_hashed h copy sized truncates size
  | sync syncs stats refreshes => exact sync_hashed sha256 h syncs stats refreshes

omit h in
theorem run_hashed (ops : List Op) : ∀ {w : Writer}, Hashed w → Hashed (run sha256 w ops) := by
  induction ops with
  | nil => exact fun h => h
  | cons op rest ih => exact fun h => ih (step_hashed sha256 h op)

theorem sync_identity {syncs stats refreshes : Bool} {identity : Identity Digest} {after : Writer}
    (hsync : w.syncAndCheckpointLocked sha256 syncs stats refreshes = (some identity, after)) :
    identity = ⟨after.activePath, (after.files after.activePath).length, sha256 (after.files after.activePath)⟩ := by
  unfold Writer.syncAndCheckpointLocked at hsync
  split at hsync
  · cases hsync
  obtain ⟨hidentity, rfl⟩ := Prod.mk.inj hsync
  split at hidentity
  next hboth =>
    obtain ⟨hhashed, hsame⟩ := Bool.and_eq_true_iff.mp hboth
    obtain ⟨hvalid, hpath⟩ := of_decide_eq_true hhashed
    cases hidentity
    show _ = Identity.mk w.activePath (w.files w.activePath).length (sha256 (w.files w.activePath))
    rw [(of_decide_eq_true hsame).2, ← hpath, ← h.contents hvalid]
  · cases hidentity

end

/-- From a fresh handle on, whatever the calls and their outcomes: an identity that a `Sync`
    hands to the checkpoint is that of the active file as it is, and an append that returns 0
    and an error has left the files as they were. -/
theorem append_hash_invariant (w : Writer) (hfresh : w.appendHashValid = false) (ops : List Op) :
    (∀ op identity, (step sha256 (run sha256 w ops) op).1 = some identity →
      let after := (step sha256 (run sha256 w ops) op).2
      identity = ⟨after.activePath, (after.files after.activePath).length, sha256 (after.files after.activePath)⟩) ∧
    ∀ f data e, ((run sha256 w ops).append f data).1 = (0, some e) →
      ((run sha256 w ops).append f data).2.files = (run sha256 w ops).files := by
  have h := run_hashed sha256 ops (Hashed.of_invalid hfresh)
  generalize run sha256 w ops = w' at h ⊢
  refine ⟨fun op identity hidentity => ?_, fun f data => (append_hashed h f data).2⟩
  cases op with
  | append f data | writeAt copy opens closes written data offset | truncate copy sized truncates size =>
    cases hidentity
  | sync syncs stats refreshes => exact sync_identity sha256 h (Prod.ext hidentity rfl)

end

def opened : Writer :=
  ⟨0, [9], .delta, none, fun _ => [], false, false, [], .delta, 0, false, by simp⟩

def appends : List Op :=
  [.append ⟨false, false, false, false, 2, false, false, false, false⟩ [1, 2],
    .append ⟨false, false, false, false, 1, false, false, false, false⟩ [3, 4]]

theorem append_hash_invariant_rolledBack :
    let w := run id opened appends
    (step id w (.sync true true true)).1 = some ⟨.delta, 2, [1, 2]⟩ ∧
      w.files .delta = [1, 2] ∧
      (⟨.delta, 2, [1, 2]⟩ : Identity Bytes) = ⟨.delta, (w.files .delta).length, id (w.files .delta)⟩ := by
  refine ⟨by decide, by decide, ?_⟩
  exact (append_hash_invariant id opened rfl appends).1 (.sync true true true) ⟨.delta, 2, [1, 2]⟩ (by decide)

end CodexFold.Vfs.AppendHash
