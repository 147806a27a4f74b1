import HolderDaemon.Bytes
import HolderDaemon.ExecutorCalls

/-!
The repository operations behind the executor (`git/ExecutorGitOps.cpp`): every method of the
inner object, called from any thread, is one task of the executor.
-/

set_option autoImplicit false

namespace HolderDaemon

namespace ExecutorGitOps

open Bytes SerialExecutor AtomicObject ExecutorCalls

universe u

/-- The inner object; what a method throws stands in its result. -/
structure GitOps (σ ε Probe Push : Type u) where
  openOrInit : Bytes → σ → σ × Except ε Unit
  writeFile : Bytes → Bytes → σ → σ × Except ε Unit
  stagePath : Bytes → σ → σ × Except ε Unit
  removePath : Bytes → σ → σ × Except ε Unit
  commit : Bytes → σ → σ × Except ε Unit
  setRemote : Bytes → Bytes → σ → σ × Except ε Unit
  removeRemote : Bytes → σ → σ × Except ε Unit
  pullRemoteFfOnly : Bytes → σ → σ × Except ε Unit
  probeRemote : Bytes → σ → σ × Except ε Probe
  probeRemoteUrl : Bytes → σ → σ × Except ε Probe
  pushBranch : Bytes → Bytes → Bool → σ → σ × Except ε Push
  repoDir : σ → σ × Except ε Bytes

/-- The methods that go through `executor_.call`, with what they capture. -/
inductive GitOp where
  | openOrInit (repoDir : Bytes)
  | writeFile (relativePath content : Bytes)
  | stagePath (relativePath : Bytes)
  | removePath (relativePath : Bytes)
  | commit (message : Bytes)
  | setRemote (name url : Bytes)
  | removeRemote (name : Bytes)
  | pullRemoteFfOnly (name : Bytes)
  | probeRemote (name : Bytes)
  | probeRemoteUrl (url : Bytes)
  | pushBranch (name branch : Bytes) (setUpstream : Bool)
  | repoDir
  deriving DecidableEq

inductive GitResult (Probe Push : Type u) where
  | done
  | probe (result : Probe)
  | push (result : Push)
  | path (repoDir : Bytes)

section Calls
variable {σ ε Probe Push : Type u}

/-- What the task of a method does to the inner object, and what its future is given. -/
def GitOps.apply (inner : GitOps σ ε Probe Push) (s : σ) :
    GitOp → σ × Except ε (GitResult Probe Push)
  | .openOrInit repoDir => (inner.openOrInit repoDir s).map id (Except.map fun _ => .done)
  | .writeFile relativePath content =>
    (inner.writeFile relativePath content s).map id (Except.map fun _ => .done)
  | .stagePath relativePath => (inner.stagePath relativePath s).map id (Except.map fun _ => .done)
  | .removePath relativePath =>
    (inner.removePath relativePath s).map id (Except.map fun _ => .done)
  | .commit message => (inner.commit message s).map id (Except.map fun _ => .done)
  | .setRemote name url => (inner.setRemote name url s).map id (Except.map fun _ => .done)
  | .removeRemote name => (inner.removeRemote name s).map id (Except.map fun _ => .done)
  | .pullRemoteFfOnly name => (inner.pullRemoteFfOnly name s).map id (Except.map fun _ => .done)
  | .probeRemote name => (inner.probeRemote name s).map id (Except.map .probe)
  | .probeRemoteUrl url => (inner.probeRemoteUrl url s).map id (Except.map .probe)
  | .pushBranch name branch setUpstream =>
    (inner.pushBranch name branch setUpstream s).map id (Except.map .push)
  | .repoDir => (inner.repoDir s).map id (Except.map .path)

variable {θ : Type} [DecidableEq θ]

/-- A repository that only keeps the messages of its commits. -/
def messages : GitOps (List Bytes) Bytes Unit Unit where
  openOrInit _ s := (s, .ok ())
  writeFile _ _ s := (s, .ok ())
  stagePath _ s := (s, .ok ())
  removePath _ s := (s, .ok ())
  commit message s := (s ++ [message], .ok ())
  setRemote _ _ s := (s, .ok ())
  removeRemote _ s := (s, .error (ascii "no remote"))
  pullRemoteFfOnly _ s := (s, .error (ascii "no remote"))
  probeRemote _ s := (s, .ok ())
  probeRemoteUrl _ s := (s, .ok ())
  pushBranch _ _ _ s := (s, .ok ())
  repoDir s := (s, .ok (ascii "/home"))

/-- Two threads commit, and the second to call is the first to be pushed. -/
def twoCommits : List (SerialExecutor.Step GitOp Bool) :=
  [.begin true ⟨true, .commit (ascii "one")⟩, .begin false ⟨true, .commit (ascii "two")⟩,
    .enter false, .notify false, .enter true, .workerEnter, .workerNotify, .workerFinish false,
    .get false, .notify true, .workerEnter, .workerNotify, .workerFinish false, .get true]

end Calls

end ExecutorGitOps

end HolderDaemon
