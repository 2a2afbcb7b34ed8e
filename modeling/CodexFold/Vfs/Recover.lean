import CodexFold.Vfs.Checkpoint

/- Journal replay (`recover.go`) and the recovery of pinned publications.

   Opening a session replays the last journal record of every operation against
   the state the catalog names. A record whose operation did not publish is rolled
   back: its files are removed and the journal says so. A record whose data was
   published is carried forward, a copy-on-write by publishing its candidate. Each
   record is first checked against the state it meets, and a record that does not
   fit ends the replay with an error.

   While a retirement request or a deletion pins a checkpoint, a checkpoint that
   was written directly after the catalog's, even one that is only a temporary
   file, counts as published and is adopted. -/
namespace CodexFold.Vfs
open Foundation

variable (record : JournalRecord)

/-- `appendJournal`: the record is written before the sync that may still fail. -/
def appendJournal : Prog Directory String Unit := do
  effect "write session journal" (fun d => { d with journal := d.journal ++ [record] })
  point "sync session journal"

/-! ## Pinned checkpoints -/

def isDirectStateCheckpointChild (head l : Lineage) : Bool :=
  decide (l.checkpoint.sequence = head.checkpoint.sequence + 1) && decide (l.previous = head.chain) &&
    (decide (l.checkpoint.state = head.checkpoint.state) ||
      decide (l.checkpoint.state.generation = head.checkpoint.state.generation + 1))

def cleanupStateCheckpointTemporaries : Prog Directory String Unit := do
  let temporaries ← read Directory.checkpointTemporaries
  if temporaries.isEmpty then pure () else do
    forEach (fun l => effect "remove superseded session state checkpoint temporary" (fun d =>
      { d with checkpointTemporaries := d.checkpointTemporaries.erase l })) temporaries
    point "sync session state checkpoint directory"

def linkInterruptedStateCheckpoint (candidate : Lineage) : Prog Directory String Unit := do
  point "sync interrupted state checkpoint before adoption"
  let final ← read (fun d => decide (candidate ∈ d.checkpoints))
  if final then pure () else do
    effect "publish interrupted state checkpoint" (fun d =>
      { d with checkpoints := candidate :: d.checkpoints })
    point "sync session state checkpoint directory"

def publishAdoptedState (head candidate : Lineage) : Prog Directory String Unit :=
  if candidate.checkpoint.state = head.checkpoint.state then pure ()
  else writeSessionState candidate.checkpoint.state

def adoptInterruptedStateCheckpoint (head candidate : Lineage) : Prog Directory String Unit := do
  linkInterruptedStateCheckpoint candidate
  writeStateCatalog candidate
  publishAdoptedState head candidate
  let d ← read id
  let recovered ← ofExcept (loadStateCheckpointChain d true)
  ensure (decide (recovered = candidate)) "adopted state checkpoint is not the catalog head"
  cleanupStateCheckpointTemporaries

variable (d : Directory)

def keepCurrentStateCheckpoint (head : Lineage) : Prog Directory String Unit := do
  ensure (decide (verifyStateCheckpointArtifactsForChain d head = .ok ()))
    "current session artifacts have no complete direct-child checkpoint proof"
  cleanupStateCheckpointTemporaries

def interruptedStateCheckpoints (head : Lineage) : List Lineage :=
  (d.checkpointTemporaries.filter (fun l => !decide (l ∈ head.ancestry) &&
    isDirectStateCheckpointChild head l) ++ strays d head).eraseDups

def recoverPinnedStateCheckpointPublication : Prog Directory String Unit := do
  let d ← read id
  match d.pin with
  | none => pure ()
  | some pinned => do
    let head ← ofExcept (loadStateCheckpointChain d false)
    ensure (decide (pinned ∈ head.ancestry))
      "retirement request checkpoint is not in the current state lineage"
    ensure (decide (d.primary = some head.checkpoint.state))
      "primary session state changed before interrupted checkpoint recovery"
    ensure ((strays d head).all (isDirectStateCheckpointChild head))
      "unresolved session state checkpoint branch prevents recovery"
    match interruptedStateCheckpoints d head with
    | [] => keepCurrentStateCheckpoint d head
    | [candidate] => do
      let allowed ← ofExcept
        (verifiedSupersededStateCheckpointData d head.chain candidate.checkpoint)
      if verifyStateCheckpointArtifactsAllowed d candidate.checkpoint allowed = .ok () then
        adoptInterruptedStateCheckpoint head candidate
      else if candidate ∈ strays d head then
        throw "linked direct-child state checkpoint does not match current artifacts"
      else keepCurrentStateCheckpoint d head
    | _ => throw "multiple interrupted direct-child state checkpoints prevent recovery"

def hasInterruptedStateCheckpointEvidence : Except String Bool := do
  let head ← loadStateCheckpointChain d false
  .ok (d.checkpointTemporaries.any (isDirectStateCheckpointChild head) || !(strays d head).isEmpty)

def loadSessionStateWithWriterLease : Prog Directory String SessionState := do
  let d ← read id
  match d.catalog, d.primary with
  | none, none => throw "session state does not exist"
  | none, some state => pure state
  | some _, primary => do
    let current ← ofExcept (loadCatalogStateCheckpoint d)
    if primary = some current.checkpoint.state then do
      recoverPinnedStateCheckpointPublication
      let recovered ← read id
      let head ← ofExcept (loadStateCheckpointChain recovered true)
      ensure (decide (recovered.primary = some head.checkpoint.state))
        "interrupted state checkpoint recovery did not publish its primary state"
      ofExcept (verifyStateCheckpointArtifactsForChain recovered head)
      pure head.checkpoint.state
    else do
      let head ← ofExcept (loadStateCheckpointChain d true)
      ofExcept (verifyStateCheckpointArtifactsForChain d head)
      writeSessionState head.checkpoint.state
      pure head.checkpoint.state

/-! ## Checks on journal records -/

def JournalRecord.requireCandidate : Except String SessionState :=
  match record.candidate with
  | none => .error "journal operation has unsafe candidate state"
  | some candidate =>
    if candidate.generation = 0 then .error "journal operation has unsafe candidate state"
    else .ok candidate

def SessionState.withBacking (state : SessionState) (path : DataFile) : SessionState :=
  { state with generation := state.generation + 1, backingPath := some path }

def validateCOWPublishedRecord (record : JournalRecord)
    (candidate current : SessionState) : Except String Unit := do
  require (decide (record.operation.kind = .copyOnWrite) &&
      decide (record.operation.generation + 1 = candidate.generation))
    "journal operation has an invalid copy-on-write identity"
  require (record.finalPath.isSome && decide (record.finalPath = candidate.backingPath))
    "journal operation has incomplete published state"
  require (decide (record.finalPath = some (.backing candidate.generation)))
    "journal operation has unsafe published backing"
  require (validCOWTemporaryPath record.native.path) "journal operation has invalid backing identity"
  require (decide (current.generation ≠ candidate.generation) || decide (current = candidate))
    "journal operation conflicts with current session state"
  require (decide (current.generation = candidate.generation) ||
      decide (current.withBacking (.backing candidate.generation) = candidate))
    "journal operation is not an exact copy-on-write successor"
  require (decide (d.files.get (.backing candidate.generation) = some record.native.contents))
    "published backing identity differs from its journal"

def validateCompactJournalRecord : Except String SessionState := do
  let candidate ← record.requireCandidate
  require (decide (record.operation.kind = .compact) &&
      decide (candidate.generation = record.operation.generation + 1))
    "journal operation has an invalid compact identity"
  require (decide (record.native.path = .compact record.operation.generation) &&
      decide (record.tempPath = some (.stateCompact candidate.generation)) &&
      decide (record.finalPath = some (.deltaOf candidate.generation)) &&
      decide (candidate.deltaPath = .deltaOf candidate.generation) &&
      decide (candidate.backingPath = none))
    "journal operation has unsafe compact artifact paths"
  require (decide (candidate.baseBytes = record.native.contents.length) &&
      decide (candidate.baseSHA256 = record.native.contents))
    "journal operation has an invalid compact source identity"
  .ok candidate

def SessionState.uses (state : SessionState) (path : Option DataFile) : Bool :=
  decide (path = some state.deltaPath) || (state.backingPath.isSome && decide (path = state.backingPath))

def validateCompactArtifactsInactive (current : SessionState)
    (rollback : Bool) : Except String Unit := do
  require (!current.uses (some record.native.path)) "compact scratch overlaps current session data"
  require (!current.uses record.tempPath) "compact temporary overlaps current session data"
  require (!rollback || !current.uses record.finalPath) "compact rollback overlaps current session data"

def validateCompactSuccessor (current : SessionState) : Except String Unit := do
  let candidate ← validateCompactJournalRecord record
  require (decide (current.generation = record.operation.generation) &&
      decide (candidate.nativeSnapshot = current.nativeSnapshot))
    "journal operation is not an exact compact successor"
  validateCompactArtifactsInactive record current true

/-! ## Cleaning up after an operation -/

/-- `removeOwned`: a file the journal owns, if it is there and is what it should
    be. Says whether anything was removed. -/
def removeOwned (path : DataFile) (valid : Bytes → Bool) (message : String) :
    Prog Directory String Bool := do
  let found ← read (fun d => d.files.get path)
  match found with
  | none => pure false
  | some contents => do
    ensure (valid contents) message
    effect "remove journal-owned file" (fun d => d.removeFile path)
    pure true

def cleanupCOWTemporary : Prog Directory String Unit := do
  ensure (decide (record.operation.kind = .copyOnWrite))
    "journal operation has an invalid copy-on-write identity"
  ensure (validCOWTemporaryPath record.native.path && decide (record.tempPath = some record.native.path))
    "journal operation has unsafe copy-on-write temporary"
  let removed ← removeOwned record.native.path (fun contents => decide (contents = record.native.contents))
    "copy-on-write temporary differs from its durable identity"
  if removed then point "sync session directory" else pure ()

def removeRollbackDelta (candidate : SessionState) (rollback : Bool) : Prog Directory String Bool :=
  if rollback then removeOwned (.deltaOf candidate.generation) (fun contents => contents.isEmpty)
    "compact rollback delta is not empty"
  else pure false

def cleanupCompactArtifacts (rollback : Bool) : Prog Directory String Unit := do
  let candidate ← ofExcept (validateCompactJournalRecord record)
  let scratch ← removeOwned (.compact record.operation.generation)
    (fun contents => decide (contents = record.native.contents))
    "compact scratch differs from its durable identity"
  let temporary ← removeOwned (.stateCompact candidate.generation) (fun _ => true)
    "compact state temporary is too large"
  let delta ← removeRollbackDelta candidate rollback
  if scratch || temporary || delta then point "sync session directory" else pure ()

def resolveRecord (phase : Phase) : Prog Directory String Unit :=
  appendJournal { record with phase }

/-! ## Replay -/

def adoptionOutcome (recovered candidate current : SessionState) : Except String Bool :=
  if recovered = candidate then .ok true
  else if recovered = current then .ok false
  else .error "journal operation conflicts with recovered state"

def recoverPinnedCompactPublication (candidate current : SessionState) :
    Prog Directory String Bool := do
  ofExcept (validateCompactSuccessor record current)
  let pin ← read Directory.pin
  match pin with
  | none => pure false
  | some _ => do
    cleanupCompactArtifacts record false
    let recovered ← loadSessionStateWithWriterLease
    ofExcept (adoptionOutcome recovered candidate current)

def recoverPinnedCOWPublication (candidate current : SessionState) : Prog Directory String Bool := do
  let d ← read id
  match d.pin with
  | none => pure false
  | some _ => do
    let evidence ← ofExcept (hasInterruptedStateCheckpointEvidence d)
    if evidence then do
      let recovered ← loadSessionStateWithWriterLease
      ofExcept (adoptionOutcome recovered candidate current)
    else pure false

variable (candidate state : SessionState)

def compactCandidatePublished :
    Prog Directory String Bool :=
  if state.generation < candidate.generation then recoverPinnedCompactPublication record candidate state
  else do
    ensure (decide (state = candidate)) "journal operation conflicts with current compacted state"
    pure true

def recoverCompactPublication :
    Prog Directory String Unit := do
  let published ← compactCandidatePublished record candidate state
  if published then do
    resolveRecord record .complete
    cleanupCompactArtifacts { record with phase := .complete } false
  else do
    cleanupCompactArtifacts record true
    resolveRecord record .rolledBack

def publishCOWCandidate : Prog Directory String Unit :=
  if state.generation < candidate.generation then do
    let adopted ← recoverPinnedCOWPublication candidate state
    if adopted then pure () else publishSessionState none candidate
  else pure ()

def recoverCOWPublication :
    Prog Directory String Unit := do
  let d ← read id
  ofExcept (validateCOWPublishedRecord d record candidate state)
  publishCOWCandidate candidate state
  resolveRecord record .complete

def recoverPublished : Prog Directory String Unit := do
  let candidate ← ofExcept record.requireCandidate
  let d ← read id
  let state ← ofExcept (loadJournalReplayState d)
  match record.kind with
  | .compact => recoverCompactPublication record candidate state
  | .copyOnWrite => recoverCOWPublication record candidate state

def recoverPrepared : Prog Directory String Unit :=
  match record.kind with
  | .copyOnWrite => do
    cleanupCOWTemporary record
    resolveRecord record .rolledBack
  | .compact => do
    let d ← read id
    let state ← ofExcept (loadJournalReplayState d)
    ofExcept (validateCompactSuccessor record state)
    cleanupCompactArtifacts record true
    resolveRecord record .rolledBack

def recoverTerminal : Prog Directory String Unit :=
  match record.kind with
  | .compact => do
    let d ← read id
    let state ← ofExcept (loadJournalReplayState d)
    ofExcept (validateCompactArtifactsInactive record state (decide (record.phase = .rolledBack)))
    cleanupCompactArtifacts record (decide (record.phase = .rolledBack))
  | .copyOnWrite => if record.phase = .rolledBack then cleanupCOWTemporary record else pure ()

def recoverRecord : Prog Directory String Unit :=
  match record.phase with
  | .complete => recoverTerminal record
  | .rolledBack => recoverTerminal record
  | .afterFilePublish => recoverPublished record
  | .statePublishing => recoverPublished record
  | .statePublished => recoverPublished record
  | .prepared => recoverPrepared record
  | .dataSynced => recoverPrepared record

def refreshRecovered (persisted : SessionState) : Prog Directory String SessionState := do
  let refreshed ← attempt (refreshSessionStateCheckpoint persisted)
  match refreshed with
  | .ok _ => pure persisted
  | .error _ => do
    let recovered ← loadSessionStateWithWriterLease
    refreshSessionStateCheckpoint recovered
    pure recovered

/-- `Session.recover`, under the writer lease. -/
def recover : Prog Directory String SessionState := do
  point "acquire session journal recovery lease"
  let journal ← read Directory.journal
  forEach recoverRecord (latestJournalRecords journal)
  let d ← read id
  let persisted ← ofExcept (loadJournalReplayState d)
  refreshRecovered persisted

end CodexFold.Vfs
