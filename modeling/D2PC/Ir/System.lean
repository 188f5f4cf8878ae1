import D2PC.Ir.Client
import D2PC.Ir.Replica

/-!
# Inconsistent replication as a system

The replicas of an application and any number of clients. The users of the clients invoke
operations whenever they like.
-/

namespace D2PC.Ir

open Prog Ctx

/-- What is deployed: the replicas, their application, and the function the clients decide with on
the slow path. -/
structure Deployment (σ Op Res : Type) where
  cfg : Config
  app : App σ Op Res
  decide : Op → Table Res ℕ → Res

/-- What the processes record. -/
inductive Event (Op Res : Type) where
  | replica (e : ReplicaEvent Op Res)
  | client (e : ClientEvent Op Res)

/-- What a client does without a message: a call of its user, or a timer. -/
inductive ClientAct (Op : Type) where
  | invokeInconsistent (op : Op)
  | invokeConsensus (op : Op)
  | timeout (t : ClientTimer)

/-- The local actions. -/
inductive Act (Op : Type) where
  | replica (a : ReplicaAct)
  | client (a : ClientAct Op)

/-- The local state of a process. -/
abbrev State (σ Op Res : Type) : Node → Type
  | .replica _ => Replica σ Op Res
  | .client _ => Client Op Res

abbrev History (Op Res : Type) := List (Node × Event Op Res)
abbrev GlobalState (σ Op Res : Type) :=
  World Node Node (Msg Op Res) (Event Op Res) (State σ Op Res)

namespace Deployment

variable {σ Op Res : Type} (dep : Deployment σ Op Res)

def replicaEnv (i : ℕ) : Replica.Env σ Op Res (Event Op Res) where
  cfg := dep.cfg
  myIdx := i
  app := dep.app
  log := Event.replica

def clientEnv (id : ℕ) : Client.Env (Client Op Res) Op Res (Event Op Res) where
  cfg := dep.cfg
  clientid := id
  decide := dep.decide
  get := fun c => c
  set := fun c _ => c
  log := Event.client
  inconsistentDone := fun _ _ => pure ()
  consensusDone := fun _ _ _ => pure ()
  consensusFailed := fun _ _ => pure ()

variable [DecidableEq Res] [Inhabited Res]

def handleClientAct (id : ℕ) : ClientAct Op →
    Prog (Ctx (Client Op Res) Node (Msg Op Res) (Event Op Res)) Unit
  | .invokeInconsistent op => Client.invokeInconsistent (dep.clientEnv id) op
  | .invokeConsensus op => Client.invokeConsensus (dep.clientEnv id) op
  | .timeout t => Client.handleTimer (dep.clientEnv id) t

/-- What a process does with an input. There are no other replicas than those deployed. -/
def handle : (n : Node) → Unit → Input Node (Msg Op Res) (Act Op) →
    Prog (Ctx (State σ Op Res n) Node (Msg Op Res) (Event Op Res)) Unit
  | .replica i, _, .recv p => Replica.handleMessage (dep.replicaEnv i) p.src p.msg
  | .replica i, _, .act (.replica a) =>
      when (i < dep.cfg.n) (Replica.handleAct (dep.replicaEnv i) a)
  | .client id, _, .recv p => Client.handleMessage (dep.clientEnv id) p.msg
  | .client id, _, .act (.client a) => dep.handleClientAct id a
  | _, _, _ => pure ()

/-- The initial state of a process. -/
def initial : (n : Node) → State σ Op Res n
  | .replica _ => { app := dep.app.init }
  | .client _ => {}

/-- The process an address belongs to. -/
def owner : Node → Option Node
  | .replica i => if i < dep.cfg.n then some (.replica i) else none
  | .client id => some (.client id)

/-- The system. -/
def system : Protocol Node Node (Msg Op Res) (Act Op) Unit (Event Op Res) (State σ Op Res) where
  owner := dep.owner
  init := dep.initial
  handle := dep.handle

end Deployment

end D2PC.Ir
