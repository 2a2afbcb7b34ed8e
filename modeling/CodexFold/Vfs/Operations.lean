import CodexFold.Vfs.Recover

/- A session in a process (`session.go`, `handles.go`, `compact.go`).

   A process holds the session's state in memory and works from there: appends
   choose their file by it, a copy-on-write and a compaction publish its
   successor. The directory is read again only when a writer is opened, when a
   compaction starts, and when the session is opened anew. -/
namespace CodexFold.Vfs
open Foundation

structure View where
  path : ManifestPath
  manifest : Manifest
  deriving DecidableEq, Repr

def View.size (view : View) : Nat := view.manifest.source.length

/-- `WriteHandle`: whether it wrote since its last checkpoint. -/
structure Writer where
  dirty : Bool
  deriving DecidableEq, Repr

/-- `Session`, with its open writer. -/
structure Session where
  state : SessionState
  view : View
  writer : Option Writer
  deriving DecidableEq, Repr

structure World where
  dir : Directory
  session : Option Session

def onDisk {α : Type} (x : Prog Directory String α) : Prog World String α :=
  onPart World.dir (fun w d => { w with dir := d }) x

def fileEffect (message : String) (f : Directory → Directory) : Prog World String Unit :=
  onDisk (effect message f)

def withSession {α : Type} (f : Session → Prog World String α) : Prog World String α := do
  let found ← read World.session
  match found with
  | none => throw "session is not open"
  | some session => f session

def withWriter {α : Type} (f : Session → Writer → Prog World String α) : Prog World String α :=
  withSession fun session =>
    match session.writer with
    | none => throw "writer is closed"
    | some writer => f session writer

def updateSession (f : Session → Session) : Prog World String Unit :=
  modify (fun w => { w with session := w.session.map f })

def setDirty (dirty : Bool) : Prog World String Unit :=
  updateSession (fun session => { session with writer := session.writer.map (fun _ => ⟨dirty⟩) })

def dirtyIf (wrote : Bool) : Prog World String Unit := if wrote then setDirty true else pure ()

/-! ## Reading -/

variable (session : Session)

/-- What a `ReadHandle` reads from end to end. -/
def Session.readAll (d : Directory) : Except String Bytes :=
  match session.state.backingPath with
  | some path => captureRegularFileIdentity d path
  | none => do
    let delta ← captureRegularFileIdentity d session.state.deltaPath
    require (decide (session.state.baseBytes ≤ session.view.size)) "unexpected EOF"
    .ok (session.view.manifest.source.take session.state.baseBytes ++ delta)

/-! ## Copy-on-write -/

variable (generation : Nat)

def cowSyncedRecord (native : NativeFile) : JournalRecord where
  operation := ⟨.copyOnWrite, generation⟩
  kind := .copyOnWrite
  phase := .dataSynced
  tempPath := some native.path
  finalPath := none
  candidate := none
  native := native

def cowRecord (phase : Phase) (candidate : SessionState) (native : NativeFile) :
    JournalRecord where
  operation := ⟨.copyOnWrite, generation⟩
  kind := .copyOnWrite
  phase := phase
  tempPath := none
  finalPath := some (.backing (generation + 1))
  candidate := some candidate
  native := native

variable (state : SessionState)

/-- The body of `ensureBacking` once the temporary exists. -/
def copyToBacking (native : NativeFile) : Prog World String DataFile := do
  let generation := state.generation
  let next := state.withBacking (.backing (generation + 1))
  fileEffect "write temporary backing" (fun d => d.setFile native.path native.contents)
  point "sync temporary backing"
  onDisk (appendJournal (cowSyncedRecord generation native))
  point "before-publish"
  fileEffect "publish session backing" (fun d => d.renameFile native.path (.backing (generation + 1)))
  point "sync session directory"
  onDisk (appendJournal (cowRecord generation .afterFilePublish next native))
  point "after-file-publish"
  onDisk (publishSessionState none next)
  updateSession (fun session => { session with state := next })
  onDisk (appendJournal (cowRecord generation .statePublished next native))
  onDisk (appendJournal (cowRecord generation .complete next native))
  pure (.backing (generation + 1))

/-- `ensureBacking`: the temporary is removed on every return. -/
def ensureBacking : Prog World String DataFile := withSession fun session =>
  match session.state.backingPath with
  | some path => pure path
  | none => do
    point "acquire reader generation lease"
    let w ← read id
    let contents ← ofExcept (session.readAll w.dir)
    point "check copy-on-write storage budget"
    let temporary := DataFile.backingTemporary w.dir.tokens
    fileEffect "create temporary backing" (fun d =>
      { d.setFile temporary [] with tokens := d.tokens + 1 })
    deferring (fileEffect "remove temporary backing" (fun d => d.removeFile temporary))
      (copyToBacking session.state ⟨temporary, contents⟩)

/-! ## Writing -/

/-- `refreshNativeRetirementLocked`, for a session whose native snapshot is not
    being retired: the state on disk is the state in memory. -/
def refreshState : Prog World String Unit := do
  let persisted ← onDisk (loadSessionState true)
  ensure (decide (persisted = session.state))
    "persisted session state changed outside the serving session"

def rollBackAppend (path : DataFile) (original data : Bytes) (written : Nat) : Prog World String Unit := do
  fileEffect "write" (fun d => d.setFile path (original ++ data.take written))
  let rolledBack ← attempt (do
    fileEffect "truncate" (fun d => d.setFile path original)
    point "sync")
  match rolledBack with
  | .ok _ => throw "short write"
  | .error _ => do
    setDirty true
    throw "rollback incomplete append"

/-- `WriteHandle.Append`; `short` is the number of bytes after which the write
    stops, if it does. -/
def append (data : Bytes) (short : Option Nat) : Prog World String Unit := withWriter fun session _ => do
  let path := session.state.activePath
  let w ← read id
  let original ← ofExcept (captureRegularFileIdentity w.dir path)
  match short with
  | some written => if written = 0 then throw "write" else rollBackAppend path original data written
  | none => do
    fileEffect "write" (fun d => d.setFile path (original ++ data))
    dirtyIf (!data.isEmpty)
    point "close append target"

/-- The contents of a file after `WriteAt`. -/
def overwriteAt (contents : Bytes) (offset : Nat) (data : Bytes) : Bytes :=
  if data.isEmpty then contents
  else (contents ++ List.replicate (offset - contents.length) 0).take offset ++ data ++
    contents.drop (offset + data.length)

/-- The contents of a file after `Truncate`. -/
def resize (contents : Bytes) (size : Nat) : Bytes :=
  contents.take size ++ List.replicate (size - contents.length) 0

def rewriteBacking (dirties : Bool) (f : Bytes → Bytes) : Prog World String Unit := do
  let path ← ensureBacking
  let w ← read id
  let contents ← ofExcept (captureRegularFileIdentity w.dir path)
  fileEffect "write" (fun d => d.setFile path (f contents))
  dirtyIf dirties
  point "close backing"

def writeAt (data : Bytes) (offset : Nat) : Prog World String Unit := withWriter fun _ _ =>
  rewriteBacking (!data.isEmpty) (fun contents => overwriteAt contents offset data)

/-- `syncAndCheckpointLocked`. -/
def syncAndCheckpoint (writer : Writer) : Prog World String Unit := do
  point "sync session data"
  if writer.dirty then do
    onDisk (refreshSessionStateCheckpoint session.state)
    setDirty false
  else pure ()

def sync : Prog World String Unit := withWriter syncAndCheckpoint

/-- `WriteHandle.Close`: the writer is released even when its checkpoint failed. -/
def close : Prog World String Unit := withWriter fun session writer => do
  let checkpointed ← attempt (if writer.dirty then syncAndCheckpoint session writer else pure ())
  updateSession (fun session => { session with writer := none })
  ofExcept checkpointed

/-! ## Compaction -/

/-- What `Prepare` folds the current bytes into, for the next generation. Its
    manifest is written to that generation's path. -/
abbrev Prepare : Type := Bytes → Nat → Except String Manifest

def compactRecord (phase : Phase) (candidate : SessionState) (contents : Bytes) :
    JournalRecord where
  operation := ⟨.compact, generation⟩
  kind := .compact
  phase := phase
  tempPath := some (.stateCompact (generation + 1))
  finalPath := some (.deltaOf (generation + 1))
  candidate := some candidate
  native := ⟨.compact generation, contents⟩

def SessionState.compacted (manifest : Manifest) (contents : Bytes) : SessionState :=
  { state with
    generation := state.generation + 1
    manifestPath := .generation (state.generation + 1)
    manifestSHA256 := manifest
    baseBytes := contents.length
    baseSHA256 := contents
    deltaPath := .deltaOf (state.generation + 1)
    backingPath := none }

def publishCompacted (manifest : Manifest) (contents : Bytes) :
    Prog World String Unit := do
  let generation := state.generation
  let next := state.compacted manifest contents
  onDisk (appendJournal (compactRecord generation .prepared next contents))
  point "after-prepare"
  onDisk (appendJournal (compactRecord generation .statePublishing next contents))
  point "before-state-publish"
  onDisk (publishSessionState (some (.stateCompact (generation + 1))) next)
  updateSession (fun session =>
    { session with state := next, view := ⟨.generation (generation + 1), manifest⟩ })
  onDisk (appendJournal (compactRecord generation .statePublished next contents))
  point "after-state-publish"
  onDisk (appendJournal (compactRecord generation .complete next contents))

/-- The body of `Compact` once the current bytes are materialised. -/
def compactMaterialized (prepare : Prepare) (state : SessionState) (contents : Bytes) :
    Prog World String Unit := do
  let generation := state.generation
  let manifest ← ofExcept (prepare contents (generation + 1))
  fileEffect "write compacted manifest" (fun d =>
    { d with manifests := d.manifests.set (.generation (generation + 1)) manifest })
  ensure (decide (manifest.source = contents)) "compact preparation returned incomplete generation"
  point "compare fingerprint of active session data"
  let present ← read (fun w => (w.dir.files.get (.deltaOf (generation + 1))).isSome)
  ensure (!present) "create next delta: file exists"
  fileEffect "create next delta" (fun d => d.setFile (.deltaOf (generation + 1)) [])
  point "sync next delta"
  publishCompacted state manifest contents

/-- `Compact`: the scratch copy is removed on every return after it was made. -/
def compact (prepare : Prepare) : Prog World String Unit := withSession fun session => do
  ensure session.writer.isNone "cannot compact while a writer lease is held"
  point "acquire writer lease"
  refreshState session
  point "capture fingerprint of active session data"
  let generation := session.state.generation
  let w ← read id
  let contents ← ofExcept (session.readAll w.dir)
  point "write materialized session"
  fileEffect "publish materialized session" (fun d => d.setFile (.compact generation) contents)
  point "sync session directory"
  deferring (fileEffect "remove scratch" (fun d => d.removeFile (.compact generation)))
    (compactMaterialized prepare session.state contents)

/-! ## Opening -/

structure SessionOptions where
  manifestPath : ManifestPath
  manifest : Manifest
  nativeSnapshot : Option Bytes
  deferRecovery : Bool
  deriving DecidableEq, Repr

variable (options : SessionOptions)

def SessionOptions.matches (state : SessionState) : Bool :=
  decide (state.manifestPath = options.manifestPath) && decide (state.manifestSHA256 = options.manifest) &&
    decide (state.baseBytes = options.manifest.source.length) &&
    decide (state.baseSHA256 = options.manifest.source) &&
    decide (state.nativeSnapshot = options.nativeSnapshot)

def SessionOptions.initialState : SessionState where
  generation := 1
  manifestPath := options.manifestPath
  manifestSHA256 := options.manifest
  baseBytes := options.manifest.source.length
  baseSHA256 := options.manifest.source
  deltaPath := .delta
  backingPath := none
  nativeSnapshot := options.nativeSnapshot

def SessionOptions.initialCheckpoint : Lineage :=
  ⟨{ sequence := 1, state := options.initialState, delta := [], backing := none }, []⟩

def Directory.absent (d : Directory) : Bool :=
  d.primary.isNone && d.catalog.isNone && d.checkpoints.isEmpty && d.checkpointTemporaries.isEmpty &&
    d.orphans.isEmpty && d.journal.isEmpty && d.files.entries.isEmpty

/-- `publishInitialSession`: the directory is prepared under another name and
    renamed into place. -/
def publishInitialSession : Prog Directory String SessionState := do
  let d ← read id
  ensure (options.nativeSnapshot.isSome && decide (d.native = options.nativeSnapshot))
    "native snapshot bytes or SHA-256 differ from metadata"
  ensure d.absent "managed session has no state and is not a recognized initial publication"
  effect "publish initial session directory" (fun d =>
    { d.setFile .delta [] with
      primary := some options.initialState
      catalog := some options.initialCheckpoint
      checkpoints := [options.initialCheckpoint] })
  point "sync virtual sessions directory"
  pure options.initialState

/-- `LoadSessionState`, or the first publication of a session that has no state. -/
def loadOrPublishInitial : Prog Directory String SessionState := do
  let d ← read id
  if d.primary.isNone && d.catalog.isNone then publishInitialSession options
  else loadSessionState false

/-- `InspectSessionState`, which repairs nothing. -/
def inspectSessionState (d : Directory) : Except String SessionState :=
  match d.catalog, d.primary with
  | none, none => .error "session state does not exist"
  | none, some state => .ok state
  | some _, primary => do
    let head ← loadCatalogStateCheckpoint d
    require primary.isSome "primary session state requires checkpoint recovery"
    require (decide (primary = some head.checkpoint.state)) "primary session state differs from its published checkpoint"
    .ok head.checkpoint.state

def publishedState : Prog Directory String SessionState :=
  if options.deferRecovery then do
    let d ← read id
    ofExcept (inspectSessionState d)
  else do
    let state ← loadOrPublishInitial options
    point "acquire writer lease"
    pure state

/-- The part of `openSession` before recovery: the state on disk is one of the
    requested manifest and its data files are there. -/
def admitState : Prog Directory String SessionState := do
  let d ← read id
  let found ← ofExcept (captureManifestIdentity d options.manifestPath
    options.manifest.source.length options.manifest.source)
  ensure (decide (found = options.manifest))
    "requested session manifest differs from its on-disk contents"
  let state ← publishedState options
  ensure (options.matches state) "persisted session state does not match the requested manifest"
  let loaded ← read id
  ensure (loaded.files.get state.deltaPath).isSome "stat session delta"
  ensure (state.backingPath.all (fun path => (loaded.files.get path).isSome)) "stat session backing"
  pure state

def reloadState (reserveWriter : Bool) (recovered : SessionState) : Prog Directory String SessionState := do
  let reloaded ← attempt (loadSessionState reserveWriter)
  match reloaded with
  | .ok state => pure state
  | .error _ => pure recovered

def openedState (reserveWriter : Bool) (admitted : SessionState) : Prog Directory String SessionState :=
  if options.deferRecovery then pure admitted
  else do
    let recovered ← recover
    reloadState reserveWriter recovered

/-- `openSession`; with `reserveWriter` it is `OpenSessionWithWriter`. -/
def openSession (reserveWriter : Bool) : Prog World String Unit := do
  ensure (!(options.deferRecovery && reserveWriter)) "session recovery is deferred"
  let admitted ← onDisk (admitState options)
  let state ← onDisk (openedState options reserveWriter admitted)
  modify (fun w => { w with session := some {
    state, view := ⟨options.manifestPath, options.manifest⟩,
    writer := if reserveWriter then some ⟨false⟩ else none } })

/-! ## Runs of a session -/

def World.after {α : Type} (w : World) (x : Prog World String α) (fs : List Fault) : World :=
  match x fs w with
  | (.crashed, w', _) => { w' with session := none }
  | (_, w', _) => w'

def World.fresh : World where
  dir := {
    primary := none
    catalog := none
    checkpoints := []
    checkpointTemporaries := []
    orphans := []
    journal := []
    files := .empty
    tokens := 0
    pin := none
    manifests := Files.empty.set options.manifestPath options.manifest
    native := options.nativeSnapshot }
  session := none

def faultAt (n : Nat) (fault : Fault) : List Fault := List.replicate n .ok ++ [fault]

def SessionOptions.sample : SessionOptions := ⟨.file "s.json", ⟨0, [1, 2]⟩, some [1, 2], false⟩

def World.sample : World :=
  ((World.fresh .sample).after (openSession .sample true) []).after (append [3] none) []

end CodexFold.Vfs
