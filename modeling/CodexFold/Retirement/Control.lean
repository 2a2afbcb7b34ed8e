import CodexFold.Foundation.Traces

/- The two control files of a retirement (`internal/cli`).

   A session is retired through two files of its directory: `retire.request.json`, which
   the rollback command writes, and `retire.ack.json`, which answers it and is a rejection
   when it carries an error. The daemon's reload and the recovery of interrupted
   retirements both read, write and remove them under the lock `session-deletions`; the
   reload's removal of a stale answer does not take it. The command takes it around
   `createRetirementRequest`; the steps of that function are free of it here, which allows
   every run of the command and more.

   Every read, check and effect of the three is a step of its own, so that the others can
   come in between. What the checks of a cutover find depends on the managed state, the
   route and the native file, which others change at any time: every verdict is possible
   at every cutover. A call that returns an error and a process that dies are the same
   step here, since the lock goes with either. -/
namespace CodexFold.Retirement
open Foundation

/-- `retirementControl`. The token is drawn at random; here it is a number no request has
    had before. -/
structure Control where
  token : Nat
  generation : Nat
  stateSHA256 : String
  checkpointSequence : Nat
  checkpointSHA256 : String
  route : String
  bytes : Nat
  sha256 : String
  error : String
  deriving DecidableEq

/-- `retirementAcknowledgementStatus`. -/
inductive Status where
  | absent
  | acknowledged
  | rejected
  deriving DecidableEq

def validateRetirementAcknowledgement (acknowledgement : Option Control) (request : Control) : Except String Status :=
  match acknowledgement with
  | none => .ok .absent
  | some a =>
    if a = { request with error := a.error } then .ok (if a.error = "" then .acknowledged else .rejected)
    else .error "retirement acknowledgement does not match its request"

structure Directory where
  active : Bool
  request : Option Control
  acknowledgement : Option Control
  deriving DecidableEq

/-- `readRetirementRequest`, which looks below `fs/sessions`. -/
def Directory.readRetirementRequest (d : Directory) : Option Control := if d.active then d.request else none

def Directory.readAcknowledgement (d : Directory) (request : Control) : Except String Status :=
  validateRetirementAcknowledgement (if d.active then d.acknowledgement else none) request

inductive Actor where
  | initiator
  | daemon
  | recovery
  deriving DecidableEq

/-- Where `createRetirementRequest` is. -/
inductive Initiator where
  | idle
  /-- no request was there -/
  | looked (request : Control)
  /-- an answer left behind has been removed -/
  | cleared (request : Control)
  deriving DecidableEq

/-- Where the reload's `syncCanonicalRetirement` is. -/
inductive Daemon where
  | idle
  /-- no request was there -/
  | stale
  | seen (request : Control)
  | locked (request : Control)
  /-- the request is still the one it saw -/
  | rechecked (request : Control)
  /-- the request has no answer -/
  | judging (request : Control)
  | rejecting (request : Control) (message : String)
  | committing (request : Control)
  deriving DecidableEq

/-- Where `recoverCanonicalRetirements` is. -/
inductive Recovery where
  | idle
  /-- `discoverPendingCanonicalRetirements` found a request -/
  | found
  | locked
  | planned (request : Control)
  /-- the plan has been checked against both files -/
  | judging (request : Control) (status : Status)
  | rejecting (request : Control) (message : String)
  | committing (request : Control)
  /-- `completeCanonicalRetirement` after the acknowledgement -/
  | finishing (request : Control)
  /-- `restoreCanonicalRetirement` after the rejection -/
  | restoring (request : Control)
  /-- `clearRetirementRequestLast` -/
  | clearing (request : Control) (positive : Bool)
  | removing
  | removed
  deriving DecidableEq

inductive Verdict where
  | again
  | reject (message : String)
  | commit
  deriving DecidableEq

inductive Action where
  /-- The command asks for a retirement; the token is not drawn yet. -/
  | createRetirementRequest (request : Control)
  | initiator
  | daemon (verdict : Verdict)
  | recovery (verdict : Verdict)
  /-- An error or a crash. -/
  | stop (actor : Actor)
  deriving DecidableEq

structure World where
  directory : Directory
  lock : Option Actor
  initiator : Initiator
  daemon : Daemon
  recovery : Recovery
  fresh : Nat
  written : List Control
  deriving DecidableEq

namespace World

def initial : World := ⟨⟨true, none, none⟩, none, .idle, .idle, .idle, 0, []⟩

variable (w : World)

/-- `writeRetirementAcknowledgementAt`. -/
def acknowledge (a : Control) : World :=
  { w with directory.acknowledgement := some a, written := w.written ++ [a] }

/-- `removeIfExists` of `retire.ack.json` below `fs/sessions`. -/
def removeAcknowledgement : World :=
  if w.directory.active then { w with directory.acknowledgement := none } else w

def stop : Actor → World
  | .initiator => { w with initiator := .idle }
  | .daemon => { w with daemon := .idle, lock := if w.lock = some .daemon then none else w.lock }
  | .recovery => { w with recovery := .idle, lock := if w.lock = some .recovery then none else w.lock }

/-- The next step of `createRetirementRequest`. -/
def initiatorStep : World :=
  match w.initiator with
  | .idle => w
  | .looked r => { w.removeAcknowledgement with initiator := .cleared r }
  | .cleared r =>
    if w.directory.active then
      { w with
        directory.request := some { r with token := w.fresh, error := "" }
        fresh := w.fresh + 1
        initiator := .idle }
    else w.stop .initiator

/-- The next step of `syncCanonicalRetirement`. -/
def daemonStep (verdict : Verdict) : World :=
  match w.daemon with
  | .idle =>
    match w.directory.readRetirementRequest with
    | none => { w with daemon := .stale }
    | some r => { w with daemon := .seen r }
  | .stale => w.removeAcknowledgement.stop .daemon
  | .seen r => if w.lock = none then { w with lock := some .daemon, daemon := .locked r } else w.stop .daemon
  | .locked r =>
    if w.directory.readRetirementRequest = some r then { w with daemon := .rechecked r } else w.stop .daemon
  | .rechecked r =>
    match w.directory.readAcknowledgement r with
    | .ok .absent => { w with daemon := .judging r }
    | _ => w.stop .daemon
  | .judging r =>
    match verdict with
    | .again => w
    | .commit => { w with daemon := .committing r }
    | .reject message =>
      -- `ensureRetirementRejectionAt` looks at the answer once more
      match w.directory.readAcknowledgement r with
      | .ok .absent => { w with daemon := .rejecting r message }
      | _ => w.stop .daemon
  | .rejecting r message =>
    if w.directory.active then (w.acknowledge { r with error := message }).stop .daemon else w.stop .daemon
  | .committing r => if w.directory.active then (w.acknowledge r).stop .daemon else w.stop .daemon

def recoveryStep (verdict : Verdict) : World :=
  match w.recovery with
  | .idle => if w.directory.request.isSome then { w with recovery := .found } else w
  | .found => if w.lock = none then { w with lock := some .recovery, recovery := .locked } else w.stop .recovery
  | .locked =>
    match w.directory.request with
    | none => w.stop .recovery
    | some r => { w with recovery := .planned r }
  | .planned r =>
    if w.directory.request = some r then
      match validateRetirementAcknowledgement w.directory.acknowledgement r with
      | .ok status => { w with recovery := .judging r status }
      | .error _ => w.stop .recovery
    else w.stop .recovery
  | .judging r status =>
    match verdict, status with
    | .again, _ => { w with recovery := .planned r }
    | _, .acknowledged => { w with recovery := .finishing r }
    | .commit, .absent => { w with recovery := .committing r }
    | .commit, .rejected => { w with recovery := .restoring r }
    | .reject message, _ =>
      match validateRetirementAcknowledgement w.directory.acknowledgement r with
      | .ok .absent => { w with recovery := .rejecting r message }
      | .ok .rejected => { w with recovery := .restoring r }
      | _ => w.stop .recovery
  | .rejecting r message => { w.acknowledge { r with error := message } with recovery := .restoring r }
  | .committing r => { w.acknowledge r with recovery := .finishing r }
  | .finishing r => { w with directory.active := false, recovery := .clearing r true }
  | .restoring r => { w with directory.active := true, recovery := .clearing r false }
  | .clearing r positive =>
    if w.directory.request = some r ∧ validateRetirementAcknowledgement w.directory.acknowledgement r =
        .ok (if positive then .acknowledged else .rejected) then { w with recovery := .removing }
    else w.stop .recovery
  | .removing => { w with directory.request := none, recovery := .removed }
  | .removed => ({ w with directory.acknowledgement := none }).stop .recovery

def step : Action → World
  | .createRetirementRequest r =>
    if w.initiator = .idle ∧ w.directory.active ∧ w.directory.request = none then { w with initiator := .looked r } else w
  | .initiator => w.initiatorStep
  | .daemon verdict => w.daemonStep verdict
  | .recovery verdict => w.recoveryStep verdict
  | .stop actor => w.stop actor

end World

end CodexFold.Retirement
