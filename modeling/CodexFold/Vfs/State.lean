import CodexFold.Foundation.Content
import CodexFold.Foundation.Faults
import CodexFold.Foundation.Files

/- The directory of one managed session (`internal/vfs`).

   A session shows a base view, built from a manifest, followed by the bytes of a
   delta file; once it has been written in the middle it shows a backing file
   instead. `state.json` says which. Beside it stand a catalog, the chain of
   checkpoints the catalog points into, a journal of operations, and the data
   files themselves.

   SHA-256 is taken as free of collisions, so the digest of a file is the file's
   contents: a `NativeFile` records contents, a checkpoint that names its
   predecessor by digest carries the whole predecessor, and the catalog, which
   names a checkpoint by digest, is that checkpoint. All paths lie below the
   session directory, or below `manifests`, by construction. -/
namespace CodexFold.Vfs
open Foundation

inductive DataFile where
  /-- `delta.jsonl` -/
  | delta
  /-- `delta-%020d.jsonl` -/
  | deltaOf (generation : Nat)
  /-- `backing-%020d.jsonl` -/
  | backing (generation : Nat)
  /-- `.compact-%020d.jsonl` -/
  | compact (generation : Nat)
  /-- `.backing-*.tmp` -/
  | backingTemporary (token : Nat)
  /-- `.state-compact-%020d.tmp` -/
  | stateCompact (generation : Nat)
  deriving DecidableEq, Repr

def managedSessionDataName : DataFile → Bool
  | .delta => true
  | .deltaOf _ => true
  | .backing _ => true
  | .compact _ => true
  | .backingTemporary _ => false
  | .stateCompact _ => false

def validCOWTemporaryPath : DataFile → Bool
  | .backingTemporary _ => true
  | _ => false

inductive ManifestPath where
  | file (name : String)
  | generation (generation : Nat)
  deriving DecidableEq, Repr

structure Manifest where
  detail : Nat
  source : Bytes
  deriving DecidableEq, Repr

/-- `SessionState`. The session ID and the version are those of the directory. -/
structure SessionState where
  generation : Nat
  manifestPath : ManifestPath
  manifestSHA256 : Manifest
  baseBytes : Nat
  baseSHA256 : Bytes
  deltaPath : DataFile
  backingPath : Option DataFile
  nativeSnapshot : Option Bytes
  deriving DecidableEq, Repr

def SessionState.activePath (state : SessionState) : DataFile :=
  match state.backingPath with
  | some path => path
  | none => state.deltaPath

/-- `sessionStateCheckpoint`: a state with the contents of its data files. The
    identities of the manifest and of the native snapshot are those the state
    itself records. -/
structure Checkpoint where
  sequence : Nat
  state : SessionState
  delta : Bytes
  backing : Option Bytes
  deriving DecidableEq, Repr

structure Lineage where
  checkpoint : Checkpoint
  previous : List Checkpoint
  deriving DecidableEq, Repr

namespace Lineage

def chain (l : Lineage) : List Checkpoint := l.checkpoint :: l.previous

def ancestryFrom : Checkpoint → List Checkpoint → List Lineage
  | c, [] => [⟨c, []⟩]
  | c, p :: rest => ⟨c, p :: rest⟩ :: ancestryFrom p rest

def ancestry (l : Lineage) : List Lineage := ancestryFrom l.checkpoint l.previous

end Lineage

/-! ## The journal -/

inductive OperationKind where
  | copyOnWrite
  | compact
  deriving DecidableEq, Repr

/-- `cow-%020d` and `compact-%020d`. -/
structure OperationID where
  kind : OperationKind
  generation : Nat
  deriving DecidableEq, Repr

inductive Phase where
  | prepared
  | dataSynced
  | afterFilePublish
  | statePublishing
  | statePublished
  | complete
  | rolledBack
  deriving DecidableEq, Repr

/-- `NativeFile` as a journal record holds it: a path and the contents found there. -/
structure NativeFile where
  path : DataFile
  contents : Bytes
  deriving DecidableEq, Repr

structure JournalRecord where
  operation : OperationID
  kind : OperationKind
  phase : Phase
  tempPath : Option DataFile
  finalPath : Option DataFile
  candidate : Option SessionState
  native : NativeFile
  deriving DecidableEq, Repr

/-- `latestJournalRecords`: the last record of every operation, in the order of
    these last records. -/
def latestJournalRecords : List JournalRecord → List JournalRecord
  | [] => []
  | record :: rest =>
    if rest.any (fun later => later.operation = record.operation) then latestJournalRecords rest
    else record :: latestJournalRecords rest

/-! ## The directory -/

/-- The session directory, with the manifests and the native snapshot its states
    name. `primary` is `state.json`; `checkpoints` and `checkpointTemporaries` are
    the files of `state-generations`; `tokens` counts the random names drawn for
    `.backing-*.tmp`, so that none is drawn twice; `pin` is the checkpoint that a
    retirement request or a deletion holds on to. -/
structure Directory where
  primary : Option SessionState
  catalog : Option Lineage
  checkpoints : List Lineage
  checkpointTemporaries : List Lineage
  orphans : List Lineage
  journal : List JournalRecord
  files : Files DataFile Bytes
  tokens : Nat
  pin : Option Lineage
  manifests : Files ManifestPath Manifest
  native : Option Bytes

namespace Directory

variable (d : Directory) (path : DataFile)

def setFile (contents : Bytes) : Directory :=
  { d with files := d.files.set path contents }

def removeFile : Directory :=
  { d with files := d.files.erase path }

/-- `os.Rename` inside the directory, over what stands at the target. -/
def renameFile (source target : DataFile) : Directory :=
  match d.files.get source with
  | none => d
  | some contents => { d with files := (d.files.erase source).set target contents }

end Directory

end CodexFold.Vfs
