import CodexFold.Mount.Native

/- The FSKit server before the file system.

   A connection keeps for every handle whether its writes are windows over a snapshot of
   the file, and where the last window that was appended to the current file began. A
   window sends bytes the client has seen, followed by new ones; the server guesses from a
   comparison with the file which are new. When it cannot tell, the handle writes at random
   from then on.

   `Core` are the operations of `Filesystem` that the server calls, with the numbers of
   core handles. There are two of them: on a native file and on a managed session, of which
   the content alone matters here. -/
namespace CodexFold.Mount
open Foundation

/-- What the server asks of `Filesystem`. `getattr` is `Getattr` of the path of the handle,
    of which the size is asked. -/
structure Core (σ : Type) where
  opens : Prog σ String Nat
  getattr : Nat → Prog σ String Nat
  read : Nat → Nat → Nat → Prog σ String Bytes
  write : Nat → Bytes → Int → Prog σ String Nat
  useRandomWrites : Nat → Prog σ String Unit
  flush : Nat → Prog σ String Unit
  release : Nat → Prog σ String Unit

/-- A `nativeFSKitHandle`. -/
structure ServerHandle where
  coreHandle : Nat
  snapshotWrite : Bool
  snapshotFloor : Int
  deriving DecidableEq

def addHandle (coreHandle : Nat) : ServerHandle := ⟨coreHandle, true, -1⟩

structure Serving (σ : Type) where
  core : σ
  handle : ServerHandle

def commonPrefixBytes : Bytes → Bytes → Nat
  | a :: left, b :: right => if a = b then commonPrefixBytes left right + 1 else 0
  | _, _ => 0

/-- What `writeHandle` makes of a window. -/
inductive SnapshotDecision where
  /-- All of it is in the file. -/
  | present
  /-- Behind so many bytes it continues the file as it is. -/
  | appendCurrent (common : Nat)
  /-- Behind so many bytes it continues the file as it was before the last window. -/
  | appendStale (floorIndex : Nat)
  | fallback
  deriving DecidableEq, Repr

section
variable {σ : Type} (c : Core σ) (jsonValid : Bytes → Bool)

/-- The comparisons of `writeHandle`. -/
def snapshotDecision (floor : Int) (data current : Bytes) (offset currentSize : Nat) : SnapshotDecision :=
  let common := commonPrefixBytes current data
  if common = data.length then .present
  else if common = current.length ∧ offset + common = currentSize ∧ completeJSONL jsonValid (data.drop common) = true then
    .appendCurrent common
  else if offset ≤ floor ∧ floor ≤ offset + data.length then
    let floorIndex := (floor - offset).toNat
    if floorIndex ≤ current.length ∧ data.take floorIndex = current.take floorIndex ∧
        completeJSONL jsonValid (data.drop floorIndex) = true then .appendStale floorIndex
    else .fallback
  else .fallback

def onCore {α : Type} (x : Prog σ String α) : Prog (Serving σ) String α :=
  onPart Serving.core (fun s core => { s with core := core }) x

variable (data : Bytes)

def fallbackSnapshotWrite (offset : Int) : Prog (Serving σ) String (Nat × Bool) := do
  let h ← read (·.handle)
  onCore (c.useRandomWrites h.coreHandle)
  modify fun s => { s with handle := { s.handle with snapshotWrite := false, snapshotFloor := -1 } }
  let n ← onCore (c.write h.coreHandle data offset)
  pure (n, false)

def readOverlap (coreHandle offset overlap : Nat) : Prog (Serving σ) String Bytes :=
  if 0 < overlap then onCore (c.read coreHandle offset overlap) else pure []

/-- `writeHandle` once it knows the size of the file, for a window that begins within it. -/
def writeSnapshot (offset currentSize : Nat) : Prog (Serving σ) String (Nat × Bool) := do
  let h ← read (·.handle)
  let current ← readOverlap c h.coreHandle offset (min data.length (currentSize - offset))
  match snapshotDecision jsonValid h.snapshotFloor data current offset currentSize with
  | .present => pure (data.length, true)
  | .appendCurrent common => do
    let _ ← onCore (c.write h.coreHandle (data.drop common) currentSize)
    modify fun s => { s with handle := { s.handle with snapshotFloor := currentSize } }
    pure (data.length, true)
  | .appendStale floorIndex => do
    let _ ← onCore (c.write h.coreHandle (data.drop floorIndex) currentSize)
    pure (data.length, true)
  | .fallback => fallbackSnapshotWrite c data offset

def writeHandle (offset : Int) : Prog (Serving σ) String (Nat × Bool) := do
  let h ← read (·.handle)
  if !h.snapshotWrite || data.isEmpty then do
    let n ← onCore (c.write h.coreHandle data offset)
    pure (n, false)
  else do
    let currentSize ← onCore (c.getattr h.coreHandle)
    if offset < 0 || currentSize < offset then fallbackSnapshotWrite c data offset
    else writeSnapshot c jsonValid data offset.toNat currentSize

end

/-! ## A native file -/

/-- `Getattr` of a native file: its size with what is pending. -/
def sizeNative (path : Path) : NativeProg Nat := do
  point "lstat"
  let m ← read (fun m : Native => m)
  let object ← ofExcept (m.disk.lookup path)
  let size := (m.disk.contents object).length
  let visible :=
    match m.nativeAppends.get path with
    | some k => (m.states k).visibleSizeForBacking size
    | none => size
  -- `attrFromFileInfo` takes the size of the file where it is given none
  pure (if visible = 0 then size else visible)

/-- `Read` on a native handle; the file itself can only be read through a descriptor that
    was opened for reading. -/
def readNative (readable : Bool) (id offset length : Nat) : NativeProg Bytes := do
  let h ← handle id
  point "read"
  let m ← read (fun m : Native => m)
  ensure (readable || (m.states h.state).baseSize ≤ offset) "bad file descriptor"
  pure ((m.states h.state).readAt (m.disk.contents h.object) offset length)

variable (id : Nat)

/-- `HandlePath`, then `Getattr`. -/
def getattrNative : NativeProg Nat := do
  let h ← handle id
  sizeNative h.path

variable (jsonValid : Bytes → Bool)

def nativeCore (path : Path) (flags : OpenFlags) : Core Native where
  opens := openNative path flags
  getattr := getattrNative
  read := readNative (flags.access != .writeOnly)
  write := Mount.write
  useRandomWrites := Mount.useRandomWrites jsonValid
  flush := Mount.flush jsonValid
  release := Mount.release jsonValid

/-! ## A managed session -/

/-- A `fileHandle` on a managed session, as far as its writes go. -/
structure ManagedHandle where
  append : Bool
  appendStream : Bool
  appendFloor : Int
  appendOffset : Int
  deriving DecidableEq

structure Managed where
  content : Bytes
  handles : Files Nat ManagedHandle
  next : Nat

abbrev ManagedProg (α : Type) : Type := Prog Managed String α

def managedHandle : ManagedProg ManagedHandle := do
  let found ← read (·.handles.get id)
  match found with
  | some h => pure h
  | none => throw "bad file descriptor"

/-- `Open` of a managed session for writing: the writer's lease is taken, or the open
    fails. -/
def openManaged (flags : OpenFlags) : ManagedProg Nat := do
  let f ← read (fun f : Managed => f)
  ensure f.handles.entries.isEmpty "session writer is busy"
  effect "open" fun f => { f with
    content := if flags.trunc then [] else f.content
    handles := f.handles.set f.next ⟨flags.append, false, 0, 0⟩
    next := f.next + 1 }
  pure f.next

/-- `sessionAttr`. Where the session is empty `attrFromFileInfo` takes the size of its metadata
    file, which is the file that `VisibleInfo` measured and empty as well. -/
def getattrManaged : ManagedProg Nat := do
  let _ ← managedHandle id
  read fun f => f.content.length

def readManaged (readable : Bool) (id offset length : Nat) : ManagedProg Bytes := do
  let _ ← managedHandle id
  ensure readable "bad file descriptor"
  point "read"
  read fun f => (f.content.drop offset).take length

/-- `Append` of the session's writer. -/
def appendSession (data : Bytes) : ManagedProg Nat := do
  effect "append" fun f => { f with content := f.content ++ data }
  pure data.length

/-- `WriteAt` of the session's writer. -/
def writeSessionAt (data : Bytes) (offset : Int) : ManagedProg Nat := do
  ensure (0 ≤ offset) "negative write offset"
  effect "write" fun f => { f with content := overlay 0 f.content offset.toNat data }
  pure data.length

def putHandle (h : ManagedHandle) : ManagedProg Unit :=
  modify fun f => { f with handles := f.handles.set id h }

/-- `Write` on a managed handle. Without the append flag, writes that follow one another
    are still appended, and so is a window that overlaps them and is complete. -/
def writeManaged (id : Nat) (data : Bytes) (offset : Int) : ManagedProg Nat := do
  let h ← managedHandle id
  let size ← read fun f => (f.content.length : Int)
  if h.append then appendSession data
  else if offset = size then do
    let n ← appendSession data
    putHandle id { h with
      appendFloor := if h.appendStream then h.appendFloor else offset
      appendStream := true
      appendOffset := offset + n }
    pure n
  else if h.appendStream && h.appendFloor ≤ offset && offset < h.appendOffset && size == h.appendOffset &&
      completeJSONL jsonValid data then do
    let n ← appendSession data
    putHandle id { h with appendOffset := h.appendOffset + n }
    pure n
  else do
    putHandle id { h with appendStream := false }
    writeSessionAt data offset

def useRandomWritesManaged : ManagedProg Unit := do
  let h ← managedHandle id
  putHandle id { h with append := false, appendStream := false }

def releaseManaged : ManagedProg Unit := do
  let _ ← managedHandle id
  modify fun f => { f with handles := f.handles.erase id }
  point "close"

def managedCore (flags : OpenFlags) : Core Managed where
  opens := openManaged flags
  getattr := getattrManaged
  read := readManaged (flags.access != .writeOnly)
  write := writeManaged jsonValid
  useRandomWrites := useRandomWritesManaged
  flush id := do
    let _ ← managedHandle id
    pure ()
  release := releaseManaged

end CodexFold.Mount
