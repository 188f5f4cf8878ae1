import D2PC.Vr.Replica

/-!
# Viewstamped replication as a system

The replicas of an application and any number of clients. A client numbers its requests, sends
each to all replicas, and sends it again until it is answered (`VRClient`).
-/

namespace D2PC.Vr

open Prog Ctx

/-- `VRClient`. -/
structure Client (Op : Type) where
  lastReqId : ℕ := 0
  pendingReqs : Table ℕ Op := ∅

/-- What a client does without a message. -/
inductive ClientAct (Op : Type) where
  | invoke (op : Op)
  | resend (reqId : ℕ)

/-- The local actions. -/
inductive Act (Op : Type) where
  | timer (t : ReplicaTimer)
  | client (a : ClientAct Op)

/-- The local state of a process. -/
abbrev State (σ Op : Type) : Node → Type
  | .replica _ => Replica σ Op
  | .client _ => Client Op

abbrev History (Op : Type) := List (Node × Event Op)
abbrev GlobalState (σ Op : Type) := World Node Node (Msg Op) (Event Op) (State σ Op)

/-- What is deployed. -/
structure Deployment (σ Op : Type) where
  cfg : Config
  batchSize : ℕ
  app : App σ Op

namespace Client

variable {Op : Type}

abbrev M (Op : Type) := Prog (Ctx (Client Op) Node (Msg Op) (Event Op))

/-- `SendRequest`. -/
def sendRequest (cfg : Config) (clientid reqId : ℕ) (op : Op) : M Op Unit :=
  send ((List.range cfg.n).map fun i => ⟨.client clientid, .replica i, .request
    { op := op
      clientid := clientid
      clientreqid := reqId }⟩)

/-- `Invoke` and `ResendRequest`. -/
def handleAct (cfg : Config) (clientid : ℕ) : ClientAct Op → M Op Unit
  | .invoke op => do
      update fun c => { c with lastReqId := c.lastReqId + 1 }
      let reqId ← read (·.lastReqId)
      emit (.requested
        { op := op
          clientid := clientid
          clientreqid := reqId })
      update fun c => { c with pendingReqs := c.pendingReqs.insert reqId op }
      sendRequest cfg clientid reqId op
  | .resend reqId => do
      match ← read (·.pendingReqs.lookup reqId) with
      | some op => sendRequest cfg clientid reqId op
      | none => pure ()

/-- `HandleReply`. -/
def handleMessage : Msg Op → M Op Unit
  | .reply m => update fun c => { c with pendingReqs := c.pendingReqs.erase m.clientreqid }
  | _ => crash

end Client

namespace Deployment

variable {σ Op : Type} (dep : Deployment σ Op)

def env (i : ℕ) : Env σ Op where
  cfg := dep.cfg
  myIdx := i
  batchSize := dep.batchSize
  app := dep.app

/-- What a process does with an input. There are no other replicas than those deployed. The
choice is what a replica finds where it reads past what it has. -/
def handle : (n : Node) → Stray Op → Input Node (Msg Op) (Act Op) →
    Prog (Ctx (State σ Op n) Node (Msg Op) (Event Op)) Unit
  | .replica i, stray, .recv p => Replica.handleMessage (dep.env i) stray p.src p.msg
  | .replica i, _, .act (.timer t) => when (i < dep.cfg.n) (Replica.handleTimer (dep.env i) t)
  | .client _, _, .recv p => Client.handleMessage p.msg
  | .client id, _, .act (.client a) => Client.handleAct dep.cfg id a
  | _, _, _ => pure ()

/-- The initial state of a process. -/
def initial : (n : Node) → State σ Op n
  | .replica i =>
      { app := dep.app.init
        nullCommitTimeout := decide (dep.cfg.leader 0 = i)
        viewChangeTimeout := decide (dep.cfg.leader 0 ≠ i) }
  | .client _ => {}

/-- The process an address belongs to. -/
def owner : Node → Option Node
  | .replica i => if i < dep.cfg.n then some (.replica i) else none
  | .client id => some (.client id)

/-- The system. -/
def system : Protocol Node Node (Msg Op) (Act Op) (Stray Op) (Event Op) (State σ Op) where
  owner := dep.owner
  init := dep.initial
  handle := dep.handle

end Deployment

/-- Clients send requests only, and their own. -/
theorem client_requests {σ Op : Type} {dep : Deployment σ Op} (id : ℕ) (ω : Stray Op)
    (input : Input Node (Msg Op) (Act Op)) :
    Sends (fun p => ∃ req, p.msg = .request req ∧ p.src = .client req.clientid)
      (dep.handle (.client id) ω input) := by
  have hrequest : ∀ reqId (op : Op),
      Sends (fun p => ∃ req, p.msg = .request req ∧ p.src = .client req.clientid)
        (Client.sendRequest dep.cfg id reqId op) := fun reqId op => .send fun p hp => by
    obtain ⟨j, -, rfl⟩ := List.mem_map.1 hp
    exact ⟨_, rfl, rfl⟩
  cases input with
  | recv p =>
      show Sends _ (Client.handleMessage p.msg)
      cases p.msg with
      | reply m =>
          exact .update fun c => { c with pendingReqs := c.pendingReqs.erase m.clientreqid }
      | _ => exact .crash
  | act a =>
      cases a with
      | timer t => exact .pure _
      | client a =>
          cases a with
          | invoke op =>
              exact .bind (.update _) fun _ => .bind (.read _) fun reqId => .bind (.emit _) fun _ =>
                .bind (.update _) fun _ => hrequest _ _
          | resend reqId =>
              refine .bind (.read _) fun op => ?_
              cases op with
              | some op => exact hrequest _ _
              | none => exact .pure _

end D2PC.Vr
