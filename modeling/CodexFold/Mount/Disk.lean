import CodexFold.Foundation.Content
import CodexFold.Foundation.Extents
import CodexFold.Foundation.Faults
import CodexFold.Foundation.Files
import CodexFold.Mount.Paths

/- The native tree and the append journal on disk.

   A path names a file object and the object has the bytes: a rename moves the name, an
   open descriptor keeps the object. SHA-256 is taken as free of collisions, so a journal
   keeps the tail whose digest the source keeps, and a journal's file name, the digest of
   its target, is the target. A write reaches the file byte by byte, so that a crash or an
   error in the middle of it leaves any part of it from its start. -/
namespace CodexFold.Mount
open Foundation

/-- `nativeAppendJournal`. -/
structure Journal where
  targetPath : Path
  baseSize : Nat
  finalSize : Nat
  tail : Bytes
  deriving DecidableEq

/-- The native tree with the journal directory beside it. `fresh` and `nextTemporary` are
    the numbers the next file object and the next temporary journal get. -/
structure Disk where
  files : Files Path Nat
  contents : Nat → Bytes
  directories : List Path
  fresh : Nat
  journals : Files Path Journal
  temporaries : List Nat
  nextTemporary : Nat

abbrev DiskProg (α : Type) : Type := Prog Disk String α

def enoent : String := "no such file or directory"

namespace Disk

variable (d : Disk) (path : Path)

def lookup : Except String Nat :=
  match d.files.get path with
  | some object => .ok object
  | none => .error enoent

def setContents (object : Nat) (bytes : Bytes) : Disk :=
  { d with contents := Function.update d.contents object bytes }

def emptyDirectory : Bool :=
  d.files.names.all (fun p => !(path.isPrefixOf p)) &&
    d.directories.all (fun p => p == path || !(path.isPrefixOf p))

def moved (old new path : Path) : Path := if old.isPrefixOf path then new ++ path.drop old.length else path

/-- `os.Rename`, which refuses a directory as its target. -/
def rename (old new : Path) : Except String Disk :=
  match d.files.get old with
  | some object =>
    if !(d.directories.contains (dir new)) then .error enoent
    else if d.directories.contains new then .error "file exists"
    else .ok { d with files := (d.files.erase old).set new object }
  | none =>
    if !(d.directories.contains old) || !(d.directories.contains (dir new)) then .error enoent
    else if d.directories.contains new then .error "file exists"
    else if old.isPrefixOf new then .error "invalid argument"
    else if (d.files.get new).isSome then .error "not a directory"
    else .ok { d with
      files := d.files.rekey (moved old new)
      directories := d.directories.map (moved old new) }

/-- `os.Remove`: a file or an empty directory. -/
def remove : Except String Disk :=
  match d.files.get path with
  | some _ => .ok { d with files := d.files.erase path }
  | none =>
    if !(d.directories.contains path) then .error enoent
    else if !(d.emptyDirectory path) then .error "directory not empty"
    else .ok { d with directories := d.directories.filter (· != path) }

def mkdir : Except String Disk :=
  if (d.files.get path).isSome || d.directories.contains path then .error "file exists"
  else if !(d.directories.contains (dir path)) then .error enoent
  else .ok { d with directories := path :: d.directories }

/-- `openNativeBacking`: the object opened and the tree with it. -/
def openNativeBacking (create excl : Bool) : Except String (Nat × Disk) :=
  match d.files.get path with
  | some object => if create && excl then .error "file exists" else .ok (object, d)
  | none =>
    if d.directories.contains path then .error "is a directory"
    else if create && d.directories.contains (dir path) then
      .ok (d.fresh, { d.setContents d.fresh [] with files := d.files.set path d.fresh, fresh := d.fresh + 1 })
    else .error enoent

end Disk

def change (f : Disk → Except String Disk) : DiskProg Unit := do
  let result ← read f
  let d ← ofExcept result
  effect "input/output error" fun _ => d

variable (path : Path)

/-- `os.OpenFile` and `os.Stat`: the file object at the path. -/
def openPath : DiskProg Nat := do
  point "open"
  let found ← read (·.lookup path)
  ofExcept found

/-- `File.WriteAt`. -/
def writeFileAt (object offset : Nat) (data : Bytes) : DiskProg Unit :=
  forEach (fun e => effect "write" fun d => d.setContents object (put 0 (d.contents object) e.2 e.1))
    (data.zipIdx offset)

/-- `os.Truncate`. -/
def truncatePath (size : Nat) : DiskProg Unit := do
  let object ← openPath path
  effect "truncate" fun d => d.setContents object (resize 0 (d.contents object) size)

def syncNativePath : DiskProg Unit := do
  let _ ← openPath path
  point "sync"
  point "close"

/-- The bytes a `ReadAt` into `size` zeroed bytes leaves there. -/
def readZeroed (content : Bytes) (offset size : Nat) : Bytes := resize 0 (content.drop offset) size

/-- `hashNativeAppendTail`, which fails on a file that is too short. -/
def hashNativeAppendTail (offset size : Nat) : DiskProg Bytes := do
  let object ← openPath path
  point "read"
  let content ← read (·.contents object)
  ensure (offset + size ≤ content.length) "EOF"
  pure ((content.drop offset).take size)

/-! ## The journal -/

def maxNativeAppendPendingBytes : Nat := 256 * 2 ^ 20

variable (record : Journal)

/-- `writeNativeAppendJournal`: the temporary is removed on every return, which finds
    nothing once it has been renamed. -/
def writeNativeAppendJournal : DiskProg Unit := do
  point "mkdir"
  let temporary ← read (·.nextTemporary)
  effect "create temporary" fun d =>
    { d with temporaries := temporary :: d.temporaries, nextTemporary := temporary + 1 }
  deferring (effect "remove temporary" fun d => { d with temporaries := d.temporaries.erase temporary }) do
    point "chmod"
    point "write temporary"
    point "sync temporary"
    point "close temporary"
    effect "rename" fun d =>
      { d with temporaries := d.temporaries.erase temporary, journals := d.journals.set record.targetPath record }
    point "sync directory"

def removeNativeAppendJournal : DiskProg Unit := do
  effect "remove" fun d => { d with journals := d.journals.erase path }
  point "sync directory"

variable (baseSize : Nat)

/-- The `rollback` of `commitNativeAppend`: the journal stays if the file could not be cut
    back. -/
def rollback (commitErr : String) : DiskProg Unit := do
  let truncateErr ← attempt (truncatePath path baseSize)
  let syncErr ← attempt (syncNativePath path)
  match truncateErr, syncErr with
  | .ok (), .ok () => do
    let _ ← attempt (removeNativeAppendJournal path)
    throw commitErr
  | _, _ => throw commitErr

/-- The part of `commitNativeAppend` between the journal and its removal: the tail is
    written, synced and read back. The source syncs and closes the file after a failed
    write as well, which changes nothing. -/
def writeTail (tail : Bytes) : DiskProg Unit := do
  let object ← openPath path
  writeFileAt object baseSize tail
  point "sync"
  point "close"
  let verified ← hashNativeAppendTail path baseSize tail.length
  ensure (verified == tail) "verify native append transaction"

def commitNativeAppend (tail : Bytes) : DiskProg Unit := do
  let object ← openPath path
  let content ← read (·.contents object)
  ensure (content.length == baseSize) "native append backing changed"
  writeNativeAppendJournal ⟨path, baseSize, baseSize + tail.length, tail⟩
  let written ← attempt (writeTail path baseSize tail)
  match written with
  | .error e => rollback path baseSize e
  | .ok () => removeNativeAppendJournal path

/-! ## Recovery -/

def validateNativeAppendJournal : Except String Unit := do
  require (record.baseSize ≤ record.finalSize && record.finalSize - record.baseSize ≤ maxNativeAppendPendingBytes)
    "native append journal metadata is invalid"
  require (nativeTransactionPath record.targetPath) "native append journal target is not a canonical session path"

def tailCommitted (size : Nat) : DiskProg Bool :=
  if size = record.finalSize then do
    let digest ← attempt
      (hashNativeAppendTail record.targetPath record.baseSize (record.finalSize - record.baseSize))
    match digest with
    | .ok tail => pure (tail == record.tail)
    | .error _ => pure false
  else pure false

def cutBack (size : Nat) (committed : Bool) : DiskProg Unit :=
  if committed then pure ()
  else do
    ensure (record.baseSize ≤ size) "native append target is shorter than its rollback size"
    truncatePath record.targetPath record.baseSize
    syncNativePath record.targetPath

/-- What the loop of `recoverNativeAppendTransactions` does with one journal. -/
def recoverJournal : DiskProg Unit := do
  point "read journal"
  ofExcept (validateNativeAppendJournal record)
  let object ← openPath record.targetPath
  let size ← read fun d => (d.contents object).length
  let committed ← tailCommitted record size
  cutBack record size committed
  effect "remove" fun d => { d with journals := d.journals.erase record.targetPath }

def removeTemporaries (temporaries : List Nat) : DiskProg Unit :=
  forEach (fun t => effect "remove" fun d => { d with temporaries := d.temporaries.erase t }) temporaries

def recoverNativeAppendTransactions : DiskProg Unit := do
  point "read journal directory"
  let temporaries ← read (·.temporaries)
  removeTemporaries temporaries
  let records ← read fun d => d.journals.entries.map Prod.snd
  forEach recoverJournal records
  point "sync directory"

end CodexFold.Mount
