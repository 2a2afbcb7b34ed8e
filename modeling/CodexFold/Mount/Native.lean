import CodexFold.Mount.Append

/- The native half of `Filesystem`: the files of the native tree behind handles.

   A handle keeps the object it opened and shares with the other handles of its path an
   append state, which keeps the path and opens the file anew for every commit. The table
   `nativeAppends` has the state of a path while the path is known; a handle keeps its
   state even when the table has forgotten it. An append state is a pointer in the source
   and a number here, and a path of the mount stands for the native path it leads to. The
   requests are served one after another; `Namespace` adds the managed names to them. -/
namespace CodexFold.Mount
open Foundation Function

inductive Access where
  | readOnly
  | writeOnly
  | readWrite
  deriving DecidableEq, Repr

structure OpenFlags where
  access : Access
  create : Bool
  excl : Bool
  trunc : Bool
  append : Bool
  deriving DecidableEq, Repr

def OpenFlags.writable (flags : OpenFlags) : Bool := flags.access != .readOnly

/-- A `fileHandle` on a native file. -/
structure Handle where
  path : Path
  object : Nat
  writable : Bool
  state : Nat
  append : Bool
  deriving DecidableEq

/-- The native part of `Filesystem`. `next` and `nextState` are the numbers the next handle
    and the next append state get. -/
structure Native where
  disk : Disk
  nativeAppends : Files Path Nat
  states : Nat → NativeAppendState
  handles : Files Nat Handle
  next : Nat
  nextState : Nat

abbrev NativeProg (α : Type) : Type := Prog Native String α

namespace Native

def putState (i : Nat) (m : Native) (a : Appending) : Native :=
  { m with states := update m.states i a.state, disk := a.disk }

def getState (i : Nat) (m : Native) : Appending := ⟨m.states i, m.disk⟩

variable (m : Native)

def sharedWriter (id state : Nat) : Bool :=
  m.handles.entries.any fun e => e.1 != id && e.2.state == state && e.2.append

def nativeAppendIsLastWriter (id state : Nat) : Bool := !(m.sharedWriter id state)

def nativePathBusyLocked (path : Path) : Bool :=
  (match m.nativeAppends.get path with
    | some i => (m.states i).hasPending
    | none => false) ||
  m.handles.entries.any fun e => e.2.path == path

end Native

def onState {α : Type} (i : Nat) (x : AppendProg α) : NativeProg α := onPart (Native.getState i) (Native.putState i) x

def onTree {α : Type} (x : DiskProg α) : NativeProg α := onPart Native.disk (fun m d => { m with disk := d }) x

def handle (id : Nat) : NativeProg Handle := do
  let found ← read (·.handles.get id)
  match found with
  | some h => pure h
  | none => throw "bad file descriptor"

variable (path : Path)

/-- `loadNativeAppendState`, with `newNativeAppendState` for a path without a state. -/
def loadNativeAppendState : NativeProg Nat := do
  let known ← read (·.nativeAppends.get path)
  match known with
  | some i => do
    onState i refreshIfIdle
    pure i
  | none => do
    let object ← onTree (openPath path)
    let size ← read fun m => (m.disk.contents object).length
    let i ← read (·.nextState)
    modify fun m => { m with
      states := update m.states i ⟨path, size, size, []⟩
      nativeAppends := m.nativeAppends.set path i
      nextState := i + 1 }
    pure i

/-- `openNativeBacking` on the tree. -/
def openBacking (flags : OpenFlags) : NativeProg Nat := do
  let result ← read fun m => m.disk.openNativeBacking path flags.create flags.excl
  let (object, d) ← ofExcept result
  effect "open" fun m => { m with disk := d }
  pure object

def truncateOpened (state : Nat) (flags : OpenFlags) : NativeProg Unit :=
  if flags.writable && flags.trunc then onState state (truncate 0) else pure ()

/-- The native branch of `Open`. -/
def openNative (flags : OpenFlags) : NativeProg Nat := do
  let object ← openBacking path flags
  let state ← loadNativeAppendState path
  truncateOpened state flags
  let id ← read (·.next)
  modify fun m => { m with
    handles := m.handles.set id
      ⟨path, object, flags.writable, state, flags.writable && nativeTransactionPath path⟩
    next := id + 1 }
  pure id

/-- `Write` on a native handle. -/
def write (id : Nat) (data : Bytes) (offset : Int) : NativeProg Nat := do
  let h ← handle id
  if h.append then onState h.state (stage data offset)
  else onState h.state (writeAt h.object h.writable data offset)

section
variable (jsonValid : Bytes → Bool)

def commitStaged (h : Handle) (strict : Bool) : NativeProg Unit :=
  if h.append then onState h.state (commit jsonValid strict) else pure ()

variable (id : Nat)

/-- `UseRandomWrites` on a native handle. -/
def useRandomWrites : NativeProg Unit := do
  let h ← handle id
  commitStaged jsonValid h true
  modify fun m => { m with handles := m.handles.set id { h with append := false } }

/-- `Fsync` on a native handle. -/
def fsync : NativeProg Unit := do
  let h ← handle id
  if h.append then onState h.state (commit jsonValid false) else point "sync"

/-- `Flush` on a native handle. -/
def flush : NativeProg Unit := do
  let h ← handle id
  let last ← read (·.nativeAppendIsLastWriter id h.state)
  commitStaged jsonValid h last

/-- `Release` of a native handle: the descriptor is closed even if the commit fails. -/
def release : NativeProg Unit := do
  let h ← handle id
  let last ← read (·.nativeAppendIsLastWriter id h.state)
  modify fun m => { m with handles := m.handles.erase id }
  let committed ← attempt (commitStaged jsonValid h last)
  point "close"
  ofExcept committed

end

/-- `Truncate` on a native handle. -/
def truncateHandle (id : Nat) (size : Int) : NativeProg Unit := do
  let h ← handle id
  onState h.state (truncate size)

/-- The native branch of `TruncatePath`. -/
def truncateNative (path : Path) (size : Int) : NativeProg Unit := do
  let state ← loadNativeAppendState path
  onState state (truncate size)

variable (old new : Path)

def Native.renamed (state : Option Nat) (m : Native) : Native :=
  { m with
    nativeAppends :=
      match state with
      | some i => (m.nativeAppends.erase old).set new i
      | none => (m.nativeAppends.erase old).erase new
    handles := m.handles.map fun h => if h.path = old then { h with path := new } else h }

/-- The native branch of `Rename`, which is also what `importNativeRename` does to the
    native tree and the handles. -/
def renameNative : NativeProg Unit := do
  let state ← read (·.nativeAppends.get old)
  match state with
  | some i => onState i (relocate new)
  | none => onTree (change fun d => d.rename old new)
  modify (Native.renamed old new state)

variable (path : Path)

/-- The native branch of `Unlink`. -/
def unlinkNative : NativeProg Unit := do
  onTree (change fun d => d.remove path)
  modify fun m => { m with nativeAppends := m.nativeAppends.erase path }

/-- `importNativeRename`, for a target that is or was a managed name: the source has to be a
    file and no native writer may use the target. -/
def importNativeRename : NativeProg Unit := do
  let source ← read (·.disk.files.get old)
  ensure source.isSome enoent
  let busy ← read (·.nativePathBusyLocked new)
  ensure (!busy) "device or resource busy"
  renameNative old new

/-! ## Requests on native files -/

/-- `nativePath` for a name that no managed session hides. -/
def nativeName : Bool := path != [] && canonicalNamespacePath path

/-- The names `Rename` accepts. -/
def renameAllowed : Bool :=
  namespaceFilePath old && namespaceFilePath new &&
    !(fskitOpenUnlinkPath new && !(canonicalSessionPath old && dir old == dir new))

/-- `Getattr` as far as `Rename` to the same name asks it: the name exists. -/
def getattr : NativeProg Unit := do
  let d ← read (·.disk)
  ensure ((d.files.get path).isSome || d.directories.contains path) enoent

inductive Request where
  | opens (path : Path) (flags : OpenFlags)
  | write (id : Nat) (data : Bytes) (offset : Int)
  | flush (id : Nat)
  | fsync (id : Nat)
  | useRandomWrites (id : Nat)
  | release (id : Nat)
  | truncate (id : Nat) (size : Int)
  | truncatePath (path : Path) (size : Int)
  | rename (managedTarget : Bool) (old new : Path)
  | unlink (path : Path)

/-- `Rename` on native files. -/
def renameRequest (managedTarget : Bool) (old new : Path) : NativeProg Unit := do
  ensure (renameAllowed old new) "operation not permitted"
  if old = new then getattr old
  else if managedTarget then importNativeRename old new
  else renameNative old new

def Request.run (jsonValid : Bytes → Bool) : Request → NativeProg Unit
  | .opens path flags => do
    ensure (nativeName path) enoent
    let _ ← openNative path flags
    pure ()
  | .write id data offset => do
    let _ ← Mount.write id data offset
    pure ()
  | .flush id => Mount.flush jsonValid id
  | .fsync id => Mount.fsync jsonValid id
  | .useRandomWrites id => Mount.useRandomWrites jsonValid id
  | .release id => Mount.release jsonValid id
  | .truncate id size => truncateHandle id size
  | .truncatePath path size => do
    ensure (nativeName path) enoent
    truncateNative path size
  | .rename managedTarget old new => renameRequest managedTarget old new
  | .unlink path => do
    let busy ← read (·.nativePathBusyLocked path)
    ensure (!busy) "device or resource busy"
    ensure (nativeName path) enoent
    unlinkNative path

end CodexFold.Mount
