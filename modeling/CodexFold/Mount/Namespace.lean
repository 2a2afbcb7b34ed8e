import CodexFold.Mount.Promises

/- The managed names of the mount and the file that keeps them.

   A session is served under a path of the mount, and a rename of that path is recorded in
   `namespace.json`: the path and the origin of every session that was ever renamed or
   replaced, the native files that a rename has covered and that are still to be removed,
   the native files that stand where a session was, and the intent of a native rename that
   is under way. `Filesystem` is the whole mount: the tables of the sessions and their
   routes, the native half, and the file.

   A range over a map goes in any order; where it matters the order is a parameter. An
   object of the native tree is its number, and a directory has none. The temporary of a
   publication has a name of its own and is not kept here, nor are the extended attributes
   of managed names, whose moves are points. -/
namespace CodexFold.Mount
open Foundation

abbrev SessionID : Type := List Char

def safeSessionID (id : SessionID) : Bool :=
  !id.isEmpty && id.all fun c => c != '/' && c != '\\' && c != Char.ofNat 0

/-- `managedName`; a session without a path is hidden for good. -/
structure ManagedName where
  path : Option Path
  origin : Path
  pending : Bool
  deriving DecidableEq

/-- `nativeRenameCleanup`: the file as it was when a session took its place. -/
structure NativeRenameCleanup where
  objectID : Nat
  size : Nat
  modTime : Nat
  deriving DecidableEq

structure NativeRenameIntent where
  source : Path
  target : Path
  objectID : Nat
  displaced : Option SessionID
  deriving DecidableEq

structure ManagedNamespace where
  names : Files SessionID ManagedName
  cleanup : Files Path NativeRenameCleanup
  native : List Path
  move : Option NativeRenameIntent

namespace ManagedNamespace

def empty : ManagedNamespace := ⟨.empty, .empty, [], none⟩

variable (n : ManagedNamespace)

def setName (id : SessionID) (name : ManagedName) : ManagedNamespace :=
  { n with names := n.names.set id name }

def hide (id : SessionID) (origin : Path) : ManagedNamespace :=
  n.setName id (match n.names.get id with
    | some name => { name with path := none }
    | none => ⟨none, origin, false⟩)

def addNative (path : Path) : ManagedNamespace :=
  { n with native := path :: n.native.filter (· != path) }

def dropNative (path : Path) : ManagedNamespace :=
  { n with native := n.native.filter (· != path) }

/-- `namespaceRouteLocked`: where a session is served, if it is. -/
def route (id : SessionID) (fallback : Path) : Option Path :=
  match n.names.get id with
  | some name => name.path
  | none => some fallback

/-- `namespaceReplacementTargetLocked`. -/
def replacementTarget (path : Path) : Bool := n.names.entries.any fun e => e.2.origin == path

def applyNativeRename (m : NativeRenameIntent) : ManagedNamespace :=
  let hidden := match m.displaced with
    | some id => n.hide id m.target
    | none => n
  { (hidden.dropNative m.source).addNative m.target with move := none }

/-- The loop of `readManagedNamespace` over the names; `seen` are the paths so far. -/
def checkNames (seen : List Path) : List (SessionID × ManagedName) → Except String Unit
  | [] => .ok ()
  | (id, name) :: rest => do
    require (safeSessionID id && namespaceFilePath name.origin && name.path.all namespaceFilePath)
      "unsafe managed namespace entry"
    match name.path with
    | none => checkNames seen rest
    | some path => do
      require (!seen.contains path) "duplicate managed namespace path"
      checkNames (path :: seen) rest

/-- What `readManagedNamespace` asks of the file. -/
def check : Except String Unit := do
  checkNames [] n.names.entries
  require (n.cleanup.names.all namespaceFilePath) "unsafe native rename cleanup"
  require (n.native.all namespaceFilePath) "unsafe native replacement path"
  require (n.move.all fun m => namespaceFilePath m.source && namespaceFilePath m.target) "unsafe native rename intent"

def settled : ManagedNamespace := { n with names := n.names.map fun name => { name with pending := false } }

end ManagedNamespace

structure Session where
  snapshot : Option Path
  deriving DecidableEq

structure Folding where
  path : Path
  id : SessionID
  before : Option NativeRenameCleanup
  deriving DecidableEq

structure SessionHandle where
  session : SessionID
  writable : Bool
  deriving DecidableEq

structure RangeOrder (α : Type) where
  order : List α → List α
  perm : ∀ l, (order l).Perm l

def RangeOrder.plain (α : Type) : RangeOrder α := ⟨id, fun _ => List.Perm.refl _⟩

/-- `Filesystem` in canonical mode. `stored` is the file `namespace.json`, `handles` are the
    handles on sessions and `native` has those on native files. -/
structure Filesystem where
  native : Native
  modTimes : Nat → Nat
  rooted : Bool
  sessions : Files SessionID Session
  paths : Files Path SessionID
  retained : Files Path SessionID
  nativeFirst : List SessionID
  directories : List Path
  deletionPublisher : Bool
  pendingManagedUnlinks : Files Path SessionID
  publishingManagedDeletions : List SessionID
  deletedManagedSessions : List SessionID
  handles : Files Nat SessionHandle
  folding : Option Folding
  namespaceStore : Bool
  managedNamespace : ManagedNamespace
  stored : Option ManagedNamespace

abbrev MountProg (α : Type) : Type := Prog Filesystem String α

def eperm : String := "operation not permitted"

def ebusy : String := "device or resource busy"

def eisdir : String := "is a directory"

def Disk.blocked (d : Disk) (path : Path) : Bool := d.files.names.any fun p => p.isPrefixOf path && p != path

/-- Nothing lies at the name, and `Lstat` says so. -/
def Disk.absent (d : Disk) (path : Path) : Bool :=
  (d.files.get path).isNone && !(d.directories.contains path) && !(d.blocked path)

namespace Filesystem

def onNative {α : Type} (x : NativeProg α) : MountProg α := onPart Filesystem.native (fun f m => { f with native := m }) x

def onlyIf (c : Bool) (x : MountProg Unit) : MountProg Unit := if c then x else pure ()

variable (f : Filesystem)

/-- `Lstat` of a native file, with what the mount keeps of it. -/
def stat (path : Path) : Option NativeRenameCleanup :=
  (f.native.disk.files.get path).map fun o => ⟨o, (f.native.disk.contents o).length, f.modTimes o⟩

def nativeDirectory (path : Path) : Bool := f.native.disk.directories.contains path

/-! ## The file -/

def readManagedNamespace : Except String ManagedNamespace :=
  match f.stored with
  | none => .ok .empty
  | some n => do
    n.check
    .ok n

variable (n : ManagedNamespace)

/-- `publishManagedNamespaceLocked`: once the temporary has its name, memory agrees with the
    file even if the directory cannot be synced. -/
def publishManagedNamespaceLocked : MountProg Unit := do
  let store ← read Filesystem.namespaceStore
  ensure store "managed file rename requires a configured store"
  point "create temporary"
  point "write temporary"
  point "sync temporary"
  point "close temporary"
  effect "rename" fun f => { f with stored := some n, managedNamespace := n }
  point "open directory"
  point "sync directory"

def publishForced : MountProg (Except String Unit) := do
  let published ← attempt (publishManagedNamespaceLocked n)
  match published with
  | .ok () => pure (.ok ())
  | .error e => do
    modify fun f => { f with managedNamespace := n }
    pure (.error e)

variable (path : Path)

/-- `cleanupRenamedNativeLocked`: only the file that was recorded is removed. -/
def cleanupRenamedNativeLocked (cleanup : NativeRenameCleanup) : MountProg Unit := do
  let rooted ← read Filesystem.rooted
  ensure rooted "native root is required for rename replay"
  point "open root"
  let f ← read fun f => f
  if f.native.disk.absent path then pure ()
  else do
    ensure (f.stat path == some cleanup) "renamed native source changed"
    onNative (onTree (change fun d => d.remove path))
    point "open directory"
    point "sync directory"

/-- The part of `SetManagedStore` that settles an intent: by the object at the target or,
    failing that, at the source. -/
def settleMove : MountProg ManagedNamespace :=
  match n.move with
  | none => pure n
  | some m => do
    let d ← read fun f => f.native.disk
    let settled ← ofExcept
      (if d.files.get m.target = some m.objectID then .ok (n.applyNativeRename m)
      else if d.files.get m.source = some m.objectID then .ok { n with move := none }
      else .error "native rename recovery cannot identify source or target; both preserved")
    publishManagedNamespaceLocked settled
    pure settled

/-- `SetManagedStore`; `range` is the order of the range over the cleanups. -/
def setManagedStore (range : RangeOrder (Path × NativeRenameCleanup)) : MountProg Unit := do
  let found ← read readManagedNamespace
  let n ← ofExcept found
  modify fun f => { f with namespaceStore := true, managedNamespace := n }
  let moved ← settleMove n
  modify fun f => { f with managedNamespace := moved.settled }
  forEach (fun e => cleanupRenamedNativeLocked e.1 e.2) (range.order moved.settled.cleanup.entries)
  if moved.settled.cleanup.entries.isEmpty then pure ()
  else publishManagedNamespaceLocked { moved.settled with cleanup := .empty }

/-! ## Renames -/

def nativeSnapshotPathLocked (path : Path) : Bool :=
  f.sessions.entries.any fun e => e.2.snapshot == some path

/-- What `importNativeRename` asks before it does anything: the object of the source. -/
def importSource (old new : Path) : Except String Nat := do
  require f.namespaceStore "operation not supported"
  match f.native.disk.files.get old with
  | none => .error (if f.nativeDirectory old then "invalid argument" else enoent)
  | some object => do
    require (!(f.directories.contains new) && !(f.nativeDirectory new)) eisdir
    require (!(f.native.nativePathBusyLocked new || f.nativeSnapshotPathLocked new)) ebusy
    .ok object

variable (old new : Path)

def moveNative : NativeProg (Option Nat) := do
  let state ← read (·.nativeAppends.get old)
  match state with
  | some i => onState i (relocate new)
  | none => onTree (change fun d => d.rename old new)
  pure state

theorem renameNative_eq :
    renameNative old new = (do let state ← moveNative old new; modify (Native.renamed old new state)) := by
  funext fs m
  simp only [renameNative, moveNative, Prog.bind_apply, Prog.read_apply]
  cases m.nativeAppends.get old <;> simp only [Prog.bind_apply] <;> split <;> rfl

/-- The end of `importNativeRename`: the rename has been done, so a publication that fails
    is not reported. -/
def finishImport (m : NativeRenameIntent) (state : Option Nat) : MountProg Unit := do
  let _ ← publishForced (n.applyNativeRename m)
  modify fun f => { f with paths := f.paths.erase m.target, native := Native.renamed m.source m.target state f.native }

def importNativeRename : MountProg Unit := do
  let source ← read (·.importSource old new)
  let object ← ofExcept source
  let displaced ← read (·.paths.get new)
  let current ← read Filesystem.managedNamespace
  let m : NativeRenameIntent := ⟨old, new, object, displaced⟩
  publishManagedNamespaceLocked { current with move := some m }
  let renamed ← attempt (onNative (moveNative old new))
  match renamed with
  | .error e => do
    let _ ← attempt (publishManagedNamespaceLocked { current with move := none })
    throw e
  | .ok state => finishImport { current with move := some m } m state

/-- What `renameManagedLocked` asks of the target: the native file there, which the session
    is going to cover. -/
def coveredBy (new : Path) : Except String (Option NativeRenameCleanup) := do
  require (!(f.directories.contains new)) eisdir
  require (!(f.rooted && f.nativeDirectory new)) eisdir
  match (if f.rooted then f.stat new else none) with
  | none => .ok none
  | some cleanup => do
    require (!(f.native.nativePathBusyLocked new || f.nativeSnapshotPathLocked new)) ebusy
    .ok (some cleanup)

def renamedNames (id : SessionID) (old new : Path) (cleanup : Option NativeRenameCleanup) :
    ManagedNamespace :=
  let n := f.managedNamespace
  let origin := match n.names.get id with
    | some name => name.origin
    | none => old
  let named := (n.setName id ⟨some new, origin, false⟩).dropNative new
  let covering := match cleanup with
    | some recorded => { named with cleanup := named.cleanup.set new recorded }
    | none => named
  match f.paths.get new with
  | some displaced => if displaced = id then covering else covering.hide displaced new
  | none => covering

def removeCovered (cleanup : NativeRenameCleanup) : MountProg Unit := do
  let removed ← attempt (cleanupRenamedNativeLocked path cleanup)
  match removed with
  | .error _ => pure ()
  | .ok () => do
    let n ← read Filesystem.managedNamespace
    let _ ← attempt (publishManagedNamespaceLocked { n with cleanup := n.cleanup.erase path })
    pure ()

variable (id : SessionID)

/-- The durable part of `renameManagedLocked`. -/
def publishRename (old new : Path) (cleanup : Option NativeRenameCleanup) : MountProg Unit := do
  let n ← read (·.renamedNames id old new cleanup)
  onFailure (point "rename xattr carrier") (publishManagedNamespaceLocked n)
  match cleanup with
  | none => pure ()
  | some recorded => do
    modify fun f => { f with native := { f.native with nativeAppends := f.native.nativeAppends.erase new } }
    removeCovered new recorded

def renameManagedLocked (old new : Path) : MountProg Unit := do
  let covered ← read (·.coveredBy new)
  let cleanup ← ofExcept covered
  let store ← read Filesystem.namespaceStore
  let taken ← read fun f => (f.paths.get new).isSome
  ensure (store || canonicalSessionPath new) "operation not supported"
  ensure (store || !taken) "file exists"
  point "rename xattr carrier"
  onlyIf store (publishRename id old new cleanup)
  modify fun f => { f with paths := (f.paths.erase old).set new id }

def renameUnlinked (old new : Path) : MountProg Unit := do
  let f ← read fun f => f
  ensure (f.deletionPublisher && (f.sessions.get id).isSome) eperm
  ensure (!(f.publishingManagedDeletions.contains id)) ebusy
  point "rename xattr carrier"
  onFailure (point "rename xattr carrier") (point "publish deletion")
  modify fun f => { f with
    pendingManagedUnlinks := f.pendingManagedUnlinks.set new id
    deletedManagedSessions := id :: f.deletedManagedSessions
    retained := f.retained.set old id
    paths := (f.paths.erase old).set new id }

def importTarget (old new : Path) : Bool :=
  (f.paths.get new).isSome || f.managedNamespace.replacementTarget new || f.managedNamespace.native.contains old

def hasDirectory (path : Path) : Bool :=
  f.directories.contains (dir path) || (f.rooted && f.nativeDirectory (dir path))

/-! ## Routes -/

/-- `sessionForPath`. The owner of a session in the table has not been retired, so that a
    session found can be acquired. -/
def sessionForPath (path : Path) : Except String SessionID :=
  match f.paths.get path with
  | none => .error enoent
  | some id =>
    if f.publishingManagedDeletions.contains id then .error ebusy
    else if f.deletedManagedSessions.contains id || (f.sessions.get id).isNone then .error enoent
    else if f.nativeFirst.contains id && f.rooted && (f.retained.get path).isNone then .error enoent
    else .ok id

/-- `nativePath`: the name leads to the native tree. -/
def nativePath (path : Path) : Bool :=
  f.rooted && ((f.retained.get path).isNone || f.managedNamespace.native.contains path) &&
    (f.managedNamespace.cleanup.get path).isNone && nativeName path

/-- `Getattr` as far as `Rename` to the same name asks it: the name exists. -/
def present (path : Path) : Bool :=
  (f.sessionForPath path).toBool || f.directories.contains path ||
    (f.nativePath path && ((f.native.disk.files.get path).isSome || f.nativeDirectory path))

def rename : MountProg Unit := do
  ensure (renameAllowed old new) eperm
  if old = new then do
    let found ← read (·.present old)
    ensure found enoent
  else do
    let session ← read (·.paths.get old)
    match session with
    | none => do
      let f ← read fun f => f
      ensure ((f.retained.get old).isNone && f.rooted) enoent
      if f.importTarget old new then importNativeRename old new else onNative (renameNative old new)
    | some id => do
      let f ← read fun f => f
      ensure ((f.pendingManagedUnlinks.get old).isNone) eperm
      ensure (f.hasDirectory new) enoent
      if fskitOpenUnlinkPath new then renameUnlinked id old new else renameManagedLocked id old new

/-! ## Opens, unlinks and directories -/

inductive Opened where
  | native (id : Nat)
  | managed (id : Nat)
  deriving DecidableEq

/-- The managed branch of `Open`. -/
def openSession (flags : OpenFlags) : MountProg Opened := do
  onlyIf (flags.access != .writeOnly) (point "open reader")
  onlyIf flags.writable (point "open writer")
  onlyIf (flags.writable && flags.trunc) (point "truncate")
  let handle ← read (·.native.next)
  modify fun f => { f with
    handles := f.handles.set handle ⟨id, flags.writable⟩
    native := { f.native with next := handle + 1 } }
  pure (.managed handle)

/-- `Open`: a session that cannot be had gives way to the native tree. -/
def opens (flags : OpenFlags) : MountProg Opened := do
  let found ← read (·.sessionForPath path)
  match found with
  | .ok id => openSession id flags
  | .error e => do
    let native ← read (·.nativePath path)
    ensure native e
    let handle ← onNative (openNative path flags)
    pure (.native handle)

def truncatePath (size : Int) : MountProg Unit := do
  let found ← read (·.sessionForPath path)
  match found with
  | .ok _ => point "truncate"
  | .error e => do
    let native ← read (·.nativePath path)
    ensure native e
    onNative (truncateNative path size)

def requestHandle : Request → Option Nat
  | .write id _ _ => some id
  | .flush id => some id
  | .fsync id => some id
  | .useRandomWrites id => some id
  | .release id => some id
  | .truncate id _ => some id
  | _ => none

def onHandle (jsonValid : Bytes → Bool) (r : Request) : MountProg Unit :=
  match requestHandle r with
  | none => throw "bad file descriptor"
  | some id => do
    let managed ← read fun f => (f.handles.get id).isSome
    if managed then do
      point "session"
      match r with
      | .release _ => modify fun f => { f with handles := f.handles.erase id }
      | _ => pure ()
    else onNative (r.run jsonValid)

def dropRoutes (id : SessionID) : Filesystem :=
  { f with
    paths := f.paths.keep fun p => f.paths.get p != some id
    pendingManagedUnlinks := f.pendingManagedUnlinks.keep fun p => f.paths.get p != some id }

def publishUnlink (path : Path) : MountProg Unit := do
  let f ← read fun f => f
  ensure (f.deletionPublisher && (f.sessions.get id).isSome && !(fskitOpenUnlinkPath path)) eperm
  ensure (!(f.publishingManagedDeletions.contains id)) ebusy
  point "publish deletion"
  modify fun f => { f with
    deletedManagedSessions := id :: f.deletedManagedSessions
    retained := f.retained.set path id }

def authorizeUnlink (path : Path) : MountProg Unit := do
  let pending ← read (·.pendingManagedUnlinks.get path)
  match pending with
  | some pendingID => ensure (pendingID == id) "input/output error"
  | none => publishUnlink id path

def hideUnlinked (path : Path) : MountProg Unit := do
  let n ← read Filesystem.managedNamespace
  if (n.names.get id).isSome then do
    let _ ← publishForced (n.hide id path)
    pure ()
  else pure ()

/-- The managed branch of `Unlink`. -/
def unlinkManaged (path : Path) : MountProg Unit := do
  authorizeUnlink id path
  modify fun f => { f with
    sessions := f.sessions.erase id
    nativeFirst := f.nativeFirst.filter (· != id) }
  hideUnlinked id path
  modify fun f => f.dropRoutes id
  point "close session"

/-- The native branch of `Unlink`. -/
def unlinkFile : MountProg Unit := do
  let f ← read fun f => f
  ensure (!(f.native.nativePathBusyLocked path)) ebusy
  ensure (f.nativePath path) enoent
  onNative (unlinkNative path)
  let n ← read Filesystem.managedNamespace
  if n.native.contains path then do
    let published ← publishForced (n.dropNative path)
    ofExcept published
  else pure ()

def unlink : MountProg Unit := do
  let session ← read (·.paths.get path)
  match session with
  | some id => unlinkManaged id path
  | none => unlinkFile path

def mkdir (path : Path) : MountProg Unit := do
  let f ← read fun f => f
  ensure (path != [] && canonicalNamespacePath path) eperm
  ensure (!(f.directories.contains path) && (f.paths.get path).isNone) "file exists"
  ensure (f.directories.contains (dir path) || f.rooted) enoent
  onlyIf f.rooted (onNative (onTree (change fun d => d.mkdir path)))
  modify fun f => { f with directories := path :: f.directories }

/-- `Rmdir`: the routes below the name are looked at, and not the name itself. -/
def rmdir : MountProg Unit := do
  let f ← read fun f => f
  ensure (belowSessions path) eperm
  ensure (f.paths.names.all fun p => !(path.isPrefixOf p && p != path)) "directory not empty"
  ensure f.rooted enoent
  onNative (onTree (change fun d => d.remove path))
  modify fun f => { f with directories := f.directories.filter (· != path) }

/-! ## Sessions -/

/-- `ensureDirectoryChainLocked`. -/
def withDirectories (path : Path) : Filesystem :=
  { f with directories := path.inits.foldl (fun known p => if known.contains p then known else p :: known) f.directories }

def registerRetainedPathLocked (id : SessionID) (session : Session) : Filesystem :=
  let others := f.retained.keep fun p => f.retained.get p != some id
  { f with retained := match session.snapshot with
      | some p => if f.rooted && canonicalSessionPath p then others.set p id else others
      | none => others }

def mounted (id : SessionID) (path : Path) (session : Session) : Filesystem :=
  { f.withDirectories (dir path) with
    sessions := f.sessions.set id session
    paths := f.paths.set path id
    nativeFirst := f.nativeFirst.filter (· != id) }.registerRetainedPathLocked id session

def sidecar : Path := dir path ++ [['.', '_'] ++ base path]

def moveAppleDoubleSidecar : MountProg Unit := do
  let f ← read fun f => f
  if f.rooted && canonicalSessionPath old && canonicalSessionPath new && !(f.native.disk.absent (sidecar old)) then
    onNative (onTree (change fun d => d.rename (sidecar old) (sidecar new)))
  else pure ()

/-- `moveManagedMetadata`, from the path a session had, if it had one. -/
def moveManagedMetadata (old : Option Path) (new : Path) : MountProg Unit :=
  match old with
  | none => pure ()
  | some old => do
    moveAppleDoubleSidecar old new
    point "rename xattr carrier"

def routeOf (id : SessionID) : Option Path := (f.paths.entries.find? fun e => e.2 == id).map Prod.fst

/-- `AddSessionAtOwned`. -/
def addSessionAt (name : Path) (session : Session) : MountProg Unit := do
  ensure (safeSessionID id && namespaceFilePath name) "safe session ID and path are required"
  let f ← read fun f => f
  match f.managedNamespace.route id name with
  | none => point "close session"
  | some path => do
    ensure (!(f.deletedManagedSessions.contains id)) "managed session has a durable deletion tombstone"
    ensure ((f.sessions.get id).isNone) "session is already mounted"
    ensure ((f.paths.get path).isNone) "session path is already mounted"
    modify fun f => f.mounted id path session

/-- `UpsertSessionAtOwned`. -/
def upsertSessionAt (name : Path) (session : Session) : MountProg Unit := do
  ensure (safeSessionID id && namespaceFilePath name) "safe session ID and path are required"
  let f ← read fun f => f
  match f.managedNamespace.route id name with
  | none => point "close session"
  | some path => do
    ensure (!(f.deletedManagedSessions.contains id)) "managed session has a durable deletion tombstone"
    ensure (!(f.publishingManagedDeletions.contains id)) "managed session deletion publication is in progress"
    modify fun f => f.withDirectories (dir path)
    moveManagedMetadata (f.routeOf id) path
    modify fun f => { f with paths := f.paths.keep fun p => f.paths.get p != some id }.mounted id path session
    point "close session"

def moveSessionAt (name : Path) : MountProg Unit := do
  ensure (safeSessionID id && namespaceFilePath name) "safe session ID and path are required"
  let f ← read fun f => f
  match f.managedNamespace.route id name with
  | none => pure ()
  | some path => do
    ensure (!(f.publishingManagedDeletions.contains id)) "managed session deletion publication is in progress"
    ensure ((f.sessions.get id).isSome) enoent
    modify fun f => f.withDirectories (dir path)
    moveManagedMetadata (f.routeOf id) path
    modify fun f => { f with paths := (f.paths.keep fun p => f.paths.get p != some id).set path id }

def preferNativeSession : MountProg Unit := do
  let f ← read fun f => f
  ensure ((f.sessions.get id).isSome) enoent
  modify fun f => { f with nativeFirst := id :: f.nativeFirst }

def removeSession : MountProg Unit := do
  let f ← read fun f => f
  ensure (!(f.publishingManagedDeletions.contains id)) "managed session deletion is in progress"
  ensure ((f.sessions.get id).isSome) enoent
  modify fun f => { f.dropRoutes id with
    sessions := f.sessions.erase id
    nativeFirst := f.nativeFirst.filter (· != id)
    retained := f.retained.keep fun p => f.retained.get p != some id }
  point "close session"

def hideDeletedSessionAt (path : Path) : MountProg Unit := do
  ensure (safeSessionID id && namespaceFilePath path) "safe session ID and path are required"
  modify fun f => { f with deletedManagedSessions := id :: f.deletedManagedSessions }
  let current ← read (·.retained.get path)
  match current with
  | some other => ensure (other == id) "deleted session path is already retained by another session"
  | none => modify fun f => { f with retained := f.retained.set path id }

def rereadThroughReloadedSession (id : Nat) (loaded : Option Session) : MountProg Unit := do
  let handle ← read (·.handles.get id)
  match handle with
  | none => throw "bad file descriptor"
  | some h => do
    ensure (!h.writable) "input/output error"
    modify fun f => { f with sessions := f.sessions.erase h.session }
    match loaded with
    | none => throw "input/output error"
    | some session => modify fun f => { f with sessions := f.sessions.set h.session session }

/-- What `RetireReplacedFiles` does with one hidden session. -/
def retireReplaced : MountProg Unit := do
  let f ← read fun f => f
  let hidden := match f.managedNamespace.names.get id with
    | some name => name.path.isNone && !name.pending && !(f.deletedManagedSessions.contains id)
    | none => false
  ensure hidden enoent
  point "publish deletion"
  modify fun f => { f with
    deletedManagedSessions := id :: f.deletedManagedSessions
    sessions := f.sessions.erase id }
  point "close session"

/-! ## Folds of native replacements -/

/-- The first half of the loop of `FoldNativeReplacements`: the new session is announced and
    then prepared. -/
def beginFold (id : SessionID) : MountProg Unit := do
  let f ← read fun f => f
  let n := f.managedNamespace
  if f.native.nativePathBusyLocked path then pure ()
  else if f.native.disk.absent path then
    if n.native.contains path then publishManagedNamespaceLocked (n.dropNative path) else pure ()
  else do
    publishManagedNamespaceLocked (n.setName id ⟨none, path, true⟩)
    modify fun g => { g with folding := some ⟨path, id, f.stat path⟩ }

def abandonFold (g : Folding) : MountProg Unit := do
  let n ← read Filesystem.managedNamespace
  publishManagedNamespaceLocked (n.setName g.id ⟨none, g.path, false⟩)

def commitFold (g : Folding) (session : Session) (recorded : NativeRenameCleanup) : MountProg Unit := do
  let n ← read Filesystem.managedNamespace
  publishManagedNamespaceLocked { (n.setName g.id ⟨some g.path, g.path, false⟩).dropNative g.path with
    cleanup := n.cleanup.set g.path recorded }
  modify fun f => { f.withDirectories (dir g.path) with
    sessions := f.sessions.set g.id session
    paths := f.paths.set g.path g.id
    native := { f.native with nativeAppends := f.native.nativeAppends.erase g.path } }
  removeCovered g.path recorded

def endFold (prepared : Option Session) : MountProg Unit := do
  let folding ← read Filesystem.folding
  match folding with
  | none => throw "no fold"
  | some g => do
    modify fun f => { f with folding := none }
    let f ← read fun f => f
    let usable := f.managedNamespace.native.contains g.path && !(f.native.nativePathBusyLocked g.path) &&
      f.stat g.path == g.before
    match prepared, f.stat g.path with
    | some session, some recorded => if usable then commitFold g session recorded else abandonFold g
    | _, _ => abandonFold g

/-! ## The daemon -/

def launched (d : Disk) (modTimes : Nat → Nat) : Filesystem where
  native := Native.started d
  modTimes := modTimes
  rooted := true
  sessions := .empty
  paths := .empty
  retained := .empty
  nativeFirst := []
  directories := [[], [Mount.sessions], [archivedSessions]]
  deletionPublisher := true
  pendingManagedUnlinks := .empty
  publishingManagedDeletions := []
  deletedManagedSessions := []
  handles := .empty
  folding := none
  namespaceStore := false
  managedNamespace := .empty
  stored := none

def restarted : Filesystem :=
  { launched f.native.disk f.modTimes with
    rooted := f.rooted
    deletionPublisher := f.deletionPublisher
    stored := f.stored }

def start (range : RangeOrder (Path × NativeRenameCleanup)) : MountProg Unit := do
  setManagedStore range
  onNative (onTree recoverNativeAppendTransactions)

inductive Operation where
  | opens (path : Path) (flags : OpenFlags)
  | onHandle (r : Request)
  | reread (id : Nat) (loaded : Option Session)
  | truncatePath (path : Path) (size : Int)
  | rename (old new : Path)
  | unlink (path : Path)
  | mkdir (path : Path)
  | rmdir (path : Path)
  | addSession (id : SessionID) (path : Path) (session : Session)
  | upsertSession (id : SessionID) (path : Path) (session : Session)
  | moveSession (id : SessionID) (path : Path)
  | preferNative (id : SessionID)
  | removeSession (id : SessionID)
  | hideDeleted (id : SessionID) (path : Path)
  | retireReplaced (id : SessionID)
  | beginFold (path : Path) (id : SessionID)
  | endFold (prepared : Option Session)

def Operation.run (jsonValid : Bytes → Bool) : Operation → MountProg Unit
  | .opens path flags => do
    let _ ← Filesystem.opens path flags
    pure ()
  | .onHandle r => Filesystem.onHandle jsonValid r
  | .reread id loaded => rereadThroughReloadedSession id loaded
  | .truncatePath path size => Filesystem.truncatePath path size
  | .rename old new => Filesystem.rename old new
  | .unlink path => Filesystem.unlink path
  | .mkdir path => Filesystem.mkdir path
  | .rmdir path => Filesystem.rmdir path
  | .addSession id path session => addSessionAt id path session
  | .upsertSession id path session => upsertSessionAt id path session
  | .moveSession id path => moveSessionAt id path
  | .preferNative id => preferNativeSession id
  | .removeSession id => Filesystem.removeSession id
  | .hideDeleted id path => hideDeletedSessionAt id path
  | .retireReplaced id => Filesystem.retireReplaced id
  | .beginFold path id => Filesystem.beginFold path id
  | .endFold prepared => Filesystem.endFold prepared

end Filesystem

structure Daemon where
  fs : Filesystem
  up : Bool

inductive DaemonEvent where
  | operation (op : Filesystem.Operation) (faults : List Fault)
  | restart (range : RangeOrder (Path × NativeRenameCleanup)) (faults : List Fault)

def Daemon.step (jsonValid : Bytes → Bool) (d : Daemon) : DaemonEvent → Option Daemon
  | .operation op faults =>
    if d.up then
      match op.run jsonValid faults d.fs with
      | (.crashed, f, _) => some ⟨f, false⟩
      | (_, f, _) => some ⟨f, true⟩
    else none
  | .restart range faults =>
    match Filesystem.start range faults d.fs.restarted with
    | (.done _, f, _) => some ⟨f, true⟩
    | (_, f, _) => some ⟨f, false⟩

end CodexFold.Mount
