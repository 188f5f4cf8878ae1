import Mathlib
import D2PC.Ir.Record

/-!
# The client of inconsistent replication

`IRClient` of `replication/ir/client.cc`. An inconsistent operation is proposed to all replicas
and finalised when a quorum has answered; a consensus operation is finalised with the result of
a super quorum that agrees, or on the slow path with what `decide` makes of the results of a
quorum. The continuation of a request is given by the application that runs the client.
-/

namespace D2PC.Ir

/-- `PendingInconsistentRequest`. -/
structure PendingInconsistent (Op : Type) where
  request : Op
  continuationInvoked : Bool := false
  confirmQuorum : QuorumSet ℕ Unit := ∅
  inconsistentReplyQuorum : QuorumSet ℕ Unit := ∅

/-- What a `ReplyConsensusMessage` brings. -/
structure ConsensusReply (Res : Type) where
  result : Res
  finalized : Bool
  deriving DecidableEq

/-- `PendingConsensusRequest`. The slow path timer is there until it has fired or the slow path
is taken. -/
structure PendingConsensus (Op Res : Type) where
  request : Op
  continuationInvoked : Bool := false
  confirmQuorum : QuorumSet ℕ Unit := ∅
  consensusReplyQuorum : QuorumSet ℕ (ConsensusReply Res) := ∅
  decideResult : Res
  onSlowPath : Bool := false
  slowPathTimer : Bool := true
  replyConsensusView : ℕ := 0
  sentConfirms : Bool := false

/-- `PendingRequest`. -/
inductive PendingRequest (Op Res : Type) where
  | inconsistent (req : PendingInconsistent Op)
  | consensus (req : PendingConsensus Op Res)

/-- `IRClient`. -/
structure Client (Op Res : Type) where
  lastReqId : ℕ := 0
  pendingReqs : Table ℕ (PendingRequest Op Res) := ∅

/-- What a client records for the specifications. -/
inductive ClientEvent (Op Res : Type) where
  /-- A request was given its number. -/
  | invoked (reqId : ℕ) (type : RecordEntryType) (op : Op)
  /-- Finalize messages of a consensus request were sent. -/
  | finalizing (reqId : ℕ) (result : Res)
  /-- The result of a consensus request is handed to the caller. The replies of the fast path and
  the confirmations of the slow path are of the view. -/
  | succeeded (reqId : ℕ) (result : Res) (view : ℕ)
  deriving DecidableEq

/-- The timers of a request: the one that sends again what is being waited for, and the one that
gives up on the fast path. -/
inductive ClientTimer where
  | resend (reqId : ℕ)
  | slowPath (reqId : ℕ)
  deriving DecidableEq, Repr

namespace Client

variable {S Op Res E : Type} [DecidableEq Res]

/-- What an `IRClient` is run with: its number, what its requests come with, where it is found in
the state of its process, and how its events are written to the history. -/
structure Env (S Op Res E : Type) where
  cfg : Config
  clientid : ℕ
  /-- The function given with a consensus request. -/
  decide : Op → Table Res ℕ → Res
  get : S → Client Op Res
  set : Client Op Res → S → S
  log : ClientEvent Op Res → E
  /-- The continuation of an inconsistent request. -/
  inconsistentDone : (reqId : ℕ) → Op → Prog (Ctx S Node (Msg Op Res) E) Unit
  /-- The continuation of a consensus request. -/
  consensusDone : (reqId : ℕ) → Op → Res → Prog (Ctx S Node (Msg Op Res) E) Unit
  /-- The error continuation of a consensus request. -/
  consensusFailed : (reqId : ℕ) → Op → Prog (Ctx S Node (Msg Op Res) E) Unit

abbrev M (S Op Res E : Type) := Prog (Ctx S Node (Msg Op Res) E)

open Ctx Prog

variable (env : Env S Op Res E)

def sendMessageToAll (m : Msg Op Res) : M S Op Res E Unit :=
  send ((List.range env.cfg.n).map fun i => ⟨.client env.clientid, .replica i, m⟩)

def setPending (reqId : ℕ) (req : PendingRequest Op Res) : M S Op Res E Unit :=
  update fun s => env.set
    { env.get s with pendingReqs := (env.get s).pendingReqs.insert reqId req } s

def erasePending (reqId : ℕ) : M S Op Res E Unit :=
  update fun s => env.set { env.get s with pendingReqs := (env.get s).pendingReqs.erase reqId } s

/-- `++lastReqId`. -/
def nextReqId : M S Op Res E ℕ := do
  update fun s => env.set { env.get s with lastReqId := (env.get s).lastReqId + 1 } s
  read fun s => (env.get s).lastReqId

/-- `InvokeInconsistent`. -/
def invokeInconsistent (request : Op) : M S Op Res E Unit := do
  let reqId ← nextReqId env
  emit (env.log (.invoked reqId .inconsistent request))
  setPending env reqId (.inconsistent { request := request })
  sendMessageToAll env (.proposeInconsistent (env.clientid, reqId) request)

/-- `InvokeConsensus`. -/
def invokeConsensus [Inhabited Res] (request : Op) : M S Op Res E Unit := do
  let reqId ← nextReqId env
  emit (env.log (.invoked reqId .consensus request))
  setPending env reqId (.consensus { request := request, decideResult := default })
  sendMessageToAll env (.proposeConsensus (env.clientid, reqId) request)

/-- The finalize message of a consensus request is sent. -/
def sendFinalizeConsensus (reqId : ℕ) (result : Res) : M S Op Res E Unit := do
  emit (env.log (.finalizing reqId result))
  sendMessageToAll env (.finalizeConsensus (env.clientid, reqId) result)

/-- `HandleSlowPathConsensus`, with the result and the view that were found or decided. -/
def handleSlowPathConsensus (reqId : ℕ) (req : PendingConsensus Op Res) (result : Res)
    (view : ℕ) : M S Op Res E Unit := do
  setPending env reqId (.consensus { req with
    decideResult := result
    replyConsensusView := view
    sentConfirms := true })
  sendFinalizeConsensus env reqId result

/-- The results of the replies, counted. -/
def results (msgs : Table ℕ (ConsensusReply Res)) : Table Res ℕ :=
  tally (msgs.toList.map fun p => p.2.result)

/-- `HandleFastPathConsensus`: a result that occurs in a super quorum of replies. -/
def fastPathResult (msgs : Table ℕ (ConsensusReply Res)) : Option Res :=
  ((results msgs).toList.find? fun c => env.cfg.fastQuorumSize ≤ c.2).map Prod.fst

/-- `HandleFastPathConsensus`. -/
def handleFastPathConsensus (reqId view : ℕ) (msgs : Table ℕ (ConsensusReply Res))
    (req : PendingConsensus Op Res) : M S Op Res E Unit :=
  match fastPathResult env msgs with
  | some result => do
      setPending env reqId (.consensus { req with
        decideResult := result
        sentConfirms := true
        continuationInvoked := true })
      sendFinalizeConsensus env reqId result
      when (!req.continuationInvoked) do
        emit (env.log (.succeeded reqId result view))
        env.consensusDone reqId req.request result
  | none =>
      handleSlowPathConsensus env reqId { req with onSlowPath := true, slowPathTimer := false }
        (env.decide req.request (results msgs)) view

/-- `CheckForQuorum` over all views: the smallest one with a quorum. -/
def anyQuorum (req : PendingConsensus Op Res) : Option (ℕ × Table ℕ (ConsensusReply Res)) :=
  ((req.consensusReplyQuorum.toList.filter fun p =>
    decide (env.cfg.quorumSize ≤ p.2.size)).mergeSort fun p q => p.1 ≤ q.1).head?

omit [DecidableEq Res] in
/-- What is found is a quorum of the replies of a view. -/
theorem anyQuorum_spec {env : Env S Op Res E} {req : PendingConsensus Op Res} {view : ℕ}
    {msgs : Table ℕ (ConsensusReply Res)} (hany : anyQuorum env req = some (view, msgs)) :
    req.consensusReplyQuorum.getMessages view = msgs ∧ env.cfg.quorumSize ≤ msgs.size := by
  have hmem := List.mem_filter.1 (List.mem_mergeSort.1 (List.mem_of_head? hany))
  refine ⟨?_, of_decide_eq_true hmem.2⟩
  rw [QuorumSet.getMessages, Table.mem_toList.1 hmem.1]
  rfl

/-- `TransitionToConsensusSlowPath`. -/
def transitionToConsensusSlowPath (reqId : ℕ) (req : PendingConsensus Op Res) :
    M S Op Res E Unit := do
  let req := { req with onSlowPath := true, slowPathTimer := false }
  match anyQuorum env req with
  | some (view, msgs) =>
      handleSlowPathConsensus env reqId req (env.decide req.request (results msgs)) view
  | none => setPending env reqId (.consensus req)

/-- The resend timer: `ResendInconsistent`, `ResendConsensus`, or `ResendConfirmation` once the
finalize messages were sent. -/
def resend (reqId : ℕ) : PendingRequest Op Res → M S Op Res E Unit
  | .inconsistent req =>
      if req.continuationInvoked then
        sendMessageToAll env (.finalizeInconsistent (env.clientid, reqId))
      else sendMessageToAll env (.proposeInconsistent (env.clientid, reqId) req.request)
  | .consensus req =>
      if req.sentConfirms then sendFinalizeConsensus env reqId req.decideResult
      else sendMessageToAll env (.proposeConsensus (env.clientid, reqId) req.request)

/-- A timer fires, if its request is still pending. -/
def handleTimer : ClientTimer → M S Op Res E Unit
  | .resend reqId => do
      match ← read fun s => (env.get s).pendingReqs.lookup reqId with
      | some req => resend env reqId req
      | none => pure ()
  | .slowPath reqId => do
      match ← read fun s => (env.get s).pendingReqs.lookup reqId with
      | some (.consensus req) =>
          when req.slowPathTimer (transitionToConsensusSlowPath env reqId req)
      | _ => pure ()

/-- `HandleInconsistentReply`. -/
def handleInconsistentReply (reqId view replicaIdx : ℕ) : M S Op Res E Unit := do
  match ← read fun s => (env.get s).pendingReqs.lookup reqId with
  | some (.inconsistent req) => do
      let quorum := req.inconsistentReplyQuorum.add view replicaIdx ()
      let answered := decide (env.cfg.quorumSize ≤ (quorum.getMessages view).size)
      let first := answered && !req.continuationInvoked
      setPending env reqId (.inconsistent { req with
        inconsistentReplyQuorum := quorum
        continuationInvoked := req.continuationInvoked || answered })
      when first do
        sendMessageToAll env (.finalizeInconsistent (env.clientid, reqId))
        env.inconsistentDone reqId req.request
  | some (.consensus _) => crash
  | none => pure ()

/-- `HandleConsensusReply`. -/
def handleConsensusReply (reqId view replicaIdx : ℕ) (reply : ConsensusReply Res) :
    M S Op Res E Unit := do
  match ← read fun s => (env.get s).pendingReqs.lookup reqId with
  | some (.consensus req) =>
      when (!req.sentConfirms) do
        let quorum := req.consensusReplyQuorum.add view replicaIdx reply
        let msgs := quorum.getMessages view
        let req := { req with consensusReplyQuorum := quorum }
        if reply.finalized then
          handleSlowPathConsensus env reqId { req with onSlowPath := true, slowPathTimer := false }
            reply.result view
        else if req.onSlowPath = true ∧ env.cfg.quorumSize ≤ msgs.size then
          handleSlowPathConsensus env reqId req (env.decide req.request (results msgs)) view
        else if req.onSlowPath = false ∧ env.cfg.fastQuorumSize ≤ msgs.size then
          handleFastPathConsensus env reqId view msgs req
        else setPending env reqId (.consensus req)
  | some (.inconsistent _) => crash
  | none => pure ()

/-- `HandleConfirm`. -/
def handleConfirm (reqId view replicaIdx : ℕ) : M S Op Res E Unit := do
  match ← read fun s => (env.get s).pendingReqs.lookup reqId with
  | some (.inconsistent req) => do
      let quorum := req.confirmQuorum.add view replicaIdx ()
      if env.cfg.quorumSize ≤ (quorum.getMessages view).size then do
        erasePending env reqId
        when (!req.continuationInvoked) crash
      else setPending env reqId (.inconsistent { req with confirmQuorum := quorum })
  | some (.consensus req) => do
      let quorum := req.confirmQuorum.add view replicaIdx ()
      if env.cfg.quorumSize ≤ (quorum.getMessages view).size then do
        erasePending env reqId
        when (!req.continuationInvoked)
          (if view = req.replyConsensusView then do
            emit (env.log (.succeeded reqId req.decideResult view))
            env.consensusDone reqId req.request req.decideResult
          else env.consensusFailed reqId req.request)
      else setPending env reqId (.consensus { req with confirmQuorum := quorum })
  | none => pure ()

/-- `ReceiveMessage`; other messages are not expected. -/
def handleMessage : Msg Op Res → M S Op Res E Unit
  | .replyInconsistent view replicaIdx opid _ =>
      handleInconsistentReply env opid.2 view replicaIdx
  | .replyConsensus view replicaIdx opid result finalized =>
      handleConsensusReply env opid.2 view replicaIdx ⟨result, finalized⟩
  | .confirm view replicaIdx opid => handleConfirm env opid.2 view replicaIdx
  | _ => crash

end Client

end D2PC.Ir
