import CodexFold.Foundation.Traces
import CodexFold.Mount.Server

/- The FSKit client that recovers its writes.

   `writeWithRecovery` writes through a binding, a handle with a connection of its own.
   When the transport fails it opens another binding, reads back what is at the offset of
   the write, and writes again if the bytes are not there. Meanwhile the server may still
   execute the request of the old connection, and at its end releases the handle. The
   steps of the client and those of the old connections are the events of one machine;
   each request is served as a whole. A connection whose transport has failed delivers
   nothing more. -/
namespace CodexFold.Mount
open Foundation

inductive WireWriteRecoveryDecision where
  | alreadyCommitted
  | replaySnapshot
  | conflict
  deriving DecidableEq, Repr

def wireWriteRecoveryDecision (existing requested : Bytes) (supportsSnapshotReplay : Bool) : WireWriteRecoveryDecision :=
  if existing = requested then .alreadyCommitted
  else if supportsSnapshotReplay && existing.length < requested.length && existing.isPrefixOf requested then .replaySnapshot
  else .conflict

/-- `isRecoverableBindingError` of an error that the server has reported. -/
def isRecoverableBindingError (e : String) : Bool := e == "bad file descriptor"

/-- A call of `writeWithRecovery`, and whether it has returned; one that has not is still
    running or has thrown. -/
structure WriteCall where
  contents : Bytes
  offset : Nat
  returned : Bool
  deriving DecidableEq

structure OldConnection where
  handle : ServerHandle
  late : Option Nat
  deriving DecidableEq

inductive Binding where
  | none
  | live (handle : ServerHandle)
  | dead
  deriving DecidableEq

/-- The client with the file system behind the server. `calls` have ended, and `current`
    runs; the other fields are the variables of `writeWithRecovery`, with whether the
    bytes at the offset have been read back in this attempt. -/
structure Link (σ : Type) where
  core : σ
  binding : Binding
  old : List OldConnection
  calls : List WriteCall
  current : Option WriteCall
  attempts : Nat
  outcomeIsUncertain : Bool
  verified : Bool

inductive Fate where
  | replied
  | lost
  | executed
  | late
  deriving DecidableEq

inductive Recovery where
  | recovered
  | expired
  | failed
  deriving DecidableEq

inductive LinkEvent where
  /-- The client calls `writeWithRecovery` at the end of the file. -/
  | call (contents : Bytes)
  /-- `ensureIO` drops a binding of an earlier epoch. -/
  | rebind
  /-- `ensureIO` opens a binding. -/
  | opens
  /-- `ensureIO` does not reach the server. -/
  | unreachable
  /-- An open whose answer does not get through. -/
  | orphan
  | verify (reply : Bool) (recovery : Recovery)
  | write (fate : Fate) (recovery : Recovery)
  /-- An old connection executes its request. -/
  | late (i : Nat)
  /-- An old connection ends and releases its handle. -/
  | release (i : Nat)

section
variable {σ : Type}

namespace Link

variable (l : Link σ)

def history : List WriteCall := l.calls ++ l.current.toList

def finish (returned : Bool) : Link σ :=
  { l with calls := l.calls ++ (l.current.map fun call => { call with returned := returned }).toList, current := none }

def abandon (h : ServerHandle) (late : Option Nat) : Link σ :=
  { l with binding := .none, old := ⟨h, late⟩ :: l.old }

def failover : Recovery → Link σ
  | .recovered =>
    if l.attempts + 1 < 8 then { l with binding := .none, attempts := l.attempts + 1, verified := false }
    else finish { l with binding := .none } false
  | .expired => finish { l with binding := .none } false
  | .failed => finish { l with binding := .dead } false

variable (c : Core σ) (jsonValid : Bytes → Bool)

def callStep (look : σ → Bytes) (l : Link σ) (contents : Bytes) : Option (Link σ) :=
  match l.current with
  | some _ => none
  | none =>
    if contents.isEmpty then some l
    else some { l with
      current := some ⟨contents, (look l.core).length, false⟩
      attempts := 0
      outcomeIsUncertain := false
      verified := false }

variable (l : Link σ)

def opensStep : Option (Link σ) :=
  match l.current, l.binding with
  | some _, .none =>
    match c.opens [] l.core with
    | (.done id, core, _) => some { l with core := core, binding := .live (addHandle id) }
    | (.failed _, core, _) => some (finish { l with core := core } false)
    | (.crashed, _, _) => none
  | _, _ => none

def orphanStep : Option (Link σ) :=
  match c.opens [] l.core with
  | (.done id, core, _) => some { l with core := core, old := ⟨addHandle id, none⟩ :: l.old }
  | (.failed _, core, _) => some { l with core := core }
  | (.crashed, _, _) => none

/-- `readForWriteVerification` and the decision. -/
def verifyStep (reply : Bool) (recovery : Recovery) : Option (Link σ) :=
  match l.current, l.binding with
  | some call, .live h =>
    if !l.outcomeIsUncertain || l.verified then none
    else if !reply then some ((l.abandon h none).failover recovery)
    else
      match c.read h.coreHandle call.offset call.contents.length [] l.core with
      | (.done existing, core, _) =>
        match wireWriteRecoveryDecision existing call.contents true with
        | .alreadyCommitted => some (finish { l with core := core } true)
        | .replaySnapshot => some { l with core := core, verified := true }
        | .conflict => some (finish { l with core := core } false)
      | (.failed e, core, _) =>
        if isRecoverableBindingError e then some ((abandon { l with core := core } h none).failover recovery)
        else some (finish { l with core := core } false)
      | (.crashed, _, _) => none
  | _, _ => none

def replied (recovery : Recovery) : Outcome String (Nat × Bool) × Serving σ × List Fault → Option (Link σ)
  | (.done _, s, _) => some (finish { l with core := s.core, binding := .live s.handle } true)
  | (.failed e, s, _) =>
    if isRecoverableBindingError e then
      some ((abandon { l with core := s.core, outcomeIsUncertain := true } s.handle none).failover recovery)
    else some (finish { l with core := s.core, binding := .live s.handle } false)
  | (.crashed, _, _) => none

def unanswered (recovery : Recovery) : Outcome String (Nat × Bool) × Serving σ × List Fault → Option (Link σ)
  | (.crashed, _, _) => none
  | (_, s, _) => some ((abandon { l with core := s.core, outcomeIsUncertain := true } s.handle none).failover recovery)

def writeStep (fate : Fate) (recovery : Recovery) : Option (Link σ) :=
  match l.current, l.binding with
  | some call, .live h =>
    if l.outcomeIsUncertain && !l.verified then none
    else
      match fate with
      | .replied => l.replied recovery (writeHandle c jsonValid call.contents call.offset [] ⟨l.core, h⟩)
      | .lost => some ((abandon { l with outcomeIsUncertain := true } h none).failover recovery)
      | .executed => l.unanswered recovery (writeHandle c jsonValid call.contents call.offset [] ⟨l.core, h⟩)
      | .late => some ((abandon { l with outcomeIsUncertain := true } h (some l.calls.length)).failover recovery)
  | some _, .dead => some (failover { l with outcomeIsUncertain := true } recovery)
  | _, _ => none

def lateStep (i : Nat) : Option (Link σ) :=
  match l.old[i]? with
  | some ⟨h, some r⟩ =>
    match l.history[r]? with
    | some call =>
      match writeHandle c jsonValid call.contents call.offset [] ⟨l.core, h⟩ with
      | (.crashed, _, _) => none
      | (_, s, _) => some { l with core := s.core, old := l.old.set i ⟨s.handle, none⟩ }
    | none => none
  | _ => none

/-- `releaseHandles` of an old connection, or the release that `closeIO` asks for. -/
def releaseStep (i : Nat) : Option (Link σ) :=
  match l.old[i]? with
  | some connection =>
    match c.release connection.handle.coreHandle [] l.core with
    | (.crashed, _, _) => none
    | (_, core, _) => some { l with core := core, old := l.old.eraseIdx i }
  | none => none

def step (look : σ → Bytes) (l : Link σ) : LinkEvent → Option (Link σ)
  | .call contents => l.callStep look contents
  | .rebind => if l.binding = .dead then some { l with binding := .none } else none
  | .opens => l.opensStep c
  | .unreachable => if l.binding = .none then some (l.finish false) else none
  | .orphan => l.orphanStep c
  | .verify reply recovery => l.verifyStep c reply recovery
  | .write fate recovery => l.writeStep c jsonValid fate recovery
  | .late i => l.lateStep c jsonValid i
  | .release i => l.releaseStep c i

end Link

end

end CodexFold.Mount
