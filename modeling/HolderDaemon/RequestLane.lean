import HolderDaemon.Bytes

/-!
Requests, the lanes that `Session::classify_request_lane` sorts them into, and the workers
of a concurrency profile that serve each lane.
-/

set_option autoImplicit false

open Bytes

namespace HolderDaemon

inductive Method where
  | get | head | post | put | delete | patch | options | other
  deriving DecidableEq, Repr

structure Request where
  method : Method
  target : Bytes
  body : Bytes
  deriving Repr

def Request.path (req : Request) : Bytes := req.target.take (req.target.idxOf 63)

def Request.query (req : Request) : Bytes := req.target.drop (req.target.idxOf 63 + 1)

inductive RequestLane where
  | save | foreground | background
  deriving DecidableEq, Repr

/-- `find(needle) != npos`. -/
def containsText (s needle : Bytes) : Bool := s.tails.any fun t => needle.isPrefixOf t

def classifyRequestLane (method : Method) (path : Bytes) : RequestLane :=
  let isGetLike := method = .get ∨ method = .head
  let isCardRoute := path = ascii "/cards" ∨ (ascii "/cards/").isPrefixOf path
  let isAiRoute := path = ascii "/ai" ∨ (ascii "/ai/").isPrefixOf path
  let isHistoryRoute := containsText path (ascii "/history/")
  let isLinkRoute := containsText path (ascii "/links") ∨ containsText path (ascii "/backlinks")
  let isForcedSyncRoute :=
    (ascii "/git/pull").isSuffixOf path ∨ (ascii "/git/sync").isSuffixOf path
  if isCardRoute ∧ ¬ isGetLike ∧ ¬ isLinkRoute then .save
  else if isAiRoute ∨ isHistoryRoute ∨ isLinkRoute ∨ isForcedSyncRoute then .background
  else .foreground

structure ConcurrencyProfile where
  ioThreads : Nat := 1
  ingressWorkers : Nat := 1
  saveWorkers : Nat := 1
  generalWorkers : Nat := 3
  writerWorkers : Nat := 1
  deriving DecidableEq, Repr

/-- A worker with a database of its own. -/
inductive Worker where
  | save (i : Nat)
  | general (i : Nat)
  deriving DecidableEq, Repr

/-- The worker exists, and takes requests from this lane. -/
def ConcurrencyProfile.serves (profile : ConcurrencyProfile) : Worker → RequestLane → Bool
  | .save i, .save => i < profile.saveWorkers
  | .general i, .foreground => i < profile.generalWorkers
  | .general i, .background => i < profile.generalWorkers
  | _, _ => false

end HolderDaemon
