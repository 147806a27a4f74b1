import HolderDaemon.Depot
import HolderDaemon.Machine
import HolderDaemon.RequestLane

/-!
The listener (`api/Listener.cpp`): the accept loop, the workers between its queues, and `stop`,
which clears the queues block by block. A step is a critical section, a test of the stop flag, or
what a thread does between two of these.
-/

set_option autoImplicit false

namespace HolderDaemon

namespace Listener

def kMaxPendingAcceptedSockets : Nat := 64

def kMaxPreparedRequestsPerLane : Nat := 64

inductive Thread where
  | acceptor
  | ingress (i : Nat)
  | worker (w : Worker)
  | writer (i : Nat)
  deriving DecidableEq, Repr

inductive Queue where
  | pending
  | lane (l : RequestLane)
  | responses
  deriving DecidableEq, Repr

/-- Where a socket is. `hand` is a local variable of the thread, and `session` the request that
the worker executes, until its response is queued. -/
inductive Place where
  | hand (thread : Thread)
  | queue (q : Queue)
  | session (w : Worker)
  | streamed
  | answered
  | closed
  deriving DecidableEq, Repr

/-- Where a thread is in its loop. -/
inductive Task where
  | starting
  | again
  | waiting
  | testing
  | reading
  | prepared
  | pushing
  | rejecting
  | taken
  | executing
  | responded
  | queuing
  | writing
  | returned
  deriving DecidableEq, Repr

def Thread.first : Thread → Task
  | .acceptor => .again
  | .worker _ => .starting
  | _ => .waiting

/-- The queues a thread takes from, the one it looks at first in front. -/
def Thread.queues : Thread → List Queue
  | .acceptor => []
  | .ingress _ => [.pending]
  | .worker (.save _) => [.lane .save]
  | .worker (.general _) => [.lane .foreground, .lane .background]
  | .writer _ => [.responses]

/-- What a thread does with a socket it has taken. -/
def Thread.taking : Thread → Task
  | .worker _ => .taken
  | .writer _ => .writing
  | _ => .testing

def workers (profile : ConcurrencyProfile) : List Thread :=
  (List.range profile.ingressWorkers).map .ingress ++
    (List.range profile.saveWorkers).map (fun i => .worker (.save i)) ++
    (List.range profile.generalWorkers).map (fun i => .worker (.general i)) ++
    (List.range profile.writerWorkers).map .writer

def threads (profile : ConcurrencyProfile) : List Thread := .acceptor :: workers profile

/-- The blocks of `shutdown_queued_work`, each under the lock of its queues. -/
def shutdownBlocks : List (List Queue) :=
  [[.pending], [.lane .save, .lane .foreground, .lane .background], [.responses]]

def Queue.block : Queue → Nat
  | .pending => 0
  | .lane _ => 1
  | .responses => 2

/-- How `Session::execute` ends; one that throws may have handed the socket to a stream. -/
inductive Outcome where
  | response
  | streamed
  | escaped (handed : Bool)
  deriving DecidableEq, Repr

inductive Step where
  | accept
  | acceptAborted
  | acceptTest
  | acceptPush
  | acceptAgain
  | wake (thread : Thread)
  | ingressTest (i : Nat)
  | read (i : Nat) (ok : Bool)
  | preparedTest (i : Nat)
  | pushLane (i : Nat)
  | reject (i : Nat) (ok : Bool)
  | makeContext (w : Worker) (ok : Bool)
  | begin (w : Worker) (disconnected : Bool)
  | finish (w : Worker) (outcome : Outcome)
  | responseTest (w : Worker)
  | pushResponse (w : Worker)
  | written (i : Nat) (ok : Bool)
  | stop
  | clear
  | runReturns
  deriving DecidableEq, Repr

end Listener

open Listener

/-- `cleared` counts the blocks of `shutdown_queued_work` that are over. -/
structure Listener where
  sockets : Depot Place := {}
  tasks : Thread → Task := Thread.first
  stopRequested : Bool := false
  cleared : Nat := 0
  returned : Bool := false

namespace Listener

def turn (s : Listener) (thread : Thread) (task : Task) : Listener :=
  { s with tasks := Function.update s.tasks thread task }

/-- The thread moves a socket and goes on. -/
def pass (s : Listener) (thread : Thread) (p q : Place) (task : Task) : Listener :=
  { s with
    sockets := s.sockets.move p q
    tasks := Function.update s.tasks thread task }

section Steps
variable (profile : ConcurrencyProfile) (lane : Nat → RequestLane)

def during (s : Listener) (thread : Thread) (task : Task) (next : Option Listener) :
    Option Listener :=
  if thread ∈ threads profile ∧ s.tasks thread = task then next else none

/-- Only general workers look whether the client is still there. -/
def shouldDropStaleBackgroundRequest (w : Worker) (socket : Nat) (disconnected : Bool) : Bool :=
  match w with
  | .save _ => false
  | .general _ => lane socket = .background ∧ disconnected

def step (s : Listener) (l : Step) : Option Listener :=
  if s.returned then none else
  match l with
  | .accept =>
    s.during profile .acceptor .waiting <| some
      { s with
        sockets := s.sockets.issue (.hand .acceptor)
        tasks := Function.update s.tasks .acceptor .testing }
  | .acceptAborted =>
    s.during profile .acceptor .waiting <|
      if s.stopRequested then some (s.turn .acceptor .returned) else none
  | .acceptTest =>
    s.during profile .acceptor .testing <| some <|
      if s.stopRequested then s.pass .acceptor (.hand .acceptor) .closed .returned
      else s.turn .acceptor .pushing
  | .acceptPush =>
    s.during profile .acceptor .pushing <| some <|
      if kMaxPendingAcceptedSockets ≤ (s.sockets.contents (.queue .pending)).length then
        s.pass .acceptor (.hand .acceptor) .closed .again
      else s.pass .acceptor (.hand .acceptor) (.queue .pending) .again
  | .acceptAgain =>
    s.during profile .acceptor .again <| some <|
      s.turn .acceptor (if s.stopRequested then .returned else .waiting)
  | .wake thread =>
    s.during profile thread .waiting <|
      match thread.queues.find? fun q => s.sockets.contents (.queue q) ≠ [] with
      | some q => some (s.pass thread (.queue q) (.hand thread) thread.taking)
      | none =>
        if thread ∈ workers profile ∧ s.stopRequested then some (s.turn thread .returned)
        else none
  | .ingressTest i =>
    s.during profile (.ingress i) .testing <| some <|
      if s.stopRequested then s.pass (.ingress i) (.hand (.ingress i)) .closed .waiting
      else s.turn (.ingress i) .reading
  | .read i ok =>
    s.during profile (.ingress i) .reading <| some <|
      if ok then s.turn (.ingress i) .prepared
      else s.pass (.ingress i) (.hand (.ingress i)) .closed .waiting
  | .preparedTest i =>
    s.during profile (.ingress i) .prepared <| some <|
      if s.stopRequested then s.pass (.ingress i) (.hand (.ingress i)) .closed .waiting
      else s.turn (.ingress i) .pushing
  | .pushLane i =>
    s.during profile (.ingress i) .pushing <|
      (s.sockets.contents (.hand (.ingress i))).head?.map fun socket =>
        let q : Place := .queue (.lane (lane socket))
        if (s.sockets.contents q).length < kMaxPreparedRequestsPerLane then
          s.pass (.ingress i) (.hand (.ingress i)) q .waiting
        else s.turn (.ingress i) .rejecting
  | .reject i ok =>
    s.during profile (.ingress i) .rejecting <| some <|
      s.pass (.ingress i) (.hand (.ingress i)) (if ok then .answered else .closed) .waiting
  | .makeContext w ok =>
    s.during profile (.worker w) .starting <| some <|
      s.turn (.worker w) (if ok then .waiting else .returned)
  | .begin w disconnected =>
    s.during profile (.worker w) .taken <|
      (s.sockets.contents (.hand (.worker w))).head?.map fun socket =>
        if shouldDropStaleBackgroundRequest lane w socket disconnected then
          s.pass (.worker w) (.hand (.worker w)) .closed .waiting
        else s.pass (.worker w) (.hand (.worker w)) (.session w) .executing
  | .finish w outcome =>
    s.during profile (.worker w) .executing <| some <|
      match outcome with
      | .response => s.turn (.worker w) .responded
      | .streamed => s.pass (.worker w) (.session w) .streamed .waiting
      | .escaped handed =>
        s.pass (.worker w) (.session w) (if handed then .streamed else .closed) .returned
  | .responseTest w =>
    s.during profile (.worker w) .responded <| some <|
      if s.stopRequested then s.pass (.worker w) (.session w) .closed .waiting
      else s.turn (.worker w) .queuing
  | .pushResponse w =>
    s.during profile (.worker w) .queuing <| some <|
      s.pass (.worker w) (.session w) (.queue .responses) .waiting
  | .written i ok =>
    s.during profile (.writer i) .writing <| some <|
      s.pass (.writer i) (.hand (.writer i)) (if ok then .answered else .closed) .waiting
  | .stop => if s.stopRequested then none else some { s with stopRequested := true }
  | .clear =>
    if s.stopRequested then
      shutdownBlocks[s.cleared]?.map fun block =>
        { s with
          sockets := block.foldl (fun d q => d.drain (.queue q) .closed) s.sockets
          cleared := s.cleared + 1 }
    else none
  | .runReturns =>
    if s.stopRequested ∧ (s.tasks .acceptor = .waiting ∨ s.tasks .acceptor = .returned) ∧
        ∀ thread ∈ workers profile, s.tasks thread = .returned then
      some { s with returned := true }
    else none

end Steps

end Listener

end HolderDaemon
