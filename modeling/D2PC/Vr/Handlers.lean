import D2PC.Vr.System

/-!
# What the handlers of a replica leave alone

The handlers serve clients in three places only: `CommitUpTo` executes the next operation,
`UpdateClientTable` notes a request, and `HandleRequest` answers one. Nothing else they do touches
`lastCommitted`, the application, the addresses of the clients and the client table, executes an
operation or sends a reply. So what these three places maintain is maintained by every handler.

* `Steady` : an invariant that everything else keeps, and the first two places too;
* `handle_steady` : a replica maintains such an invariant whatever the input is, if it does so when
  it handles a request.
-/

namespace D2PC.Vr

open Ctx Prog

variable {σ Op : Type}

/-- The operation that was executed. -/
def executedOf : Event Op → Option (ℕ × Request Op)
  | .executed k req => some (k, req)
  | _ => none

/-- The messages between replicas. -/
def Msg.ofPeer : Msg Op → Bool
  | .request _ | .reply _ => false
  | _ => true

/-- What a replica serves its clients from. -/
def Replica.service (r : Replica σ Op) :
    ℕ × σ × Table ℕ Node × Table ℕ (ClientTableEntry Op) :=
  (r.lastCommitted, r.app, r.clientAddresses, r.clientTable)

namespace Replica

variable {env : Env σ Op} {I D : Ctx (Replica σ Op) Node (Msg Op) (Event Op) → Prop}
variable {α β : Type}

/-- Whatever the handler does, it keeps `I`; where it dies, there is `D`. -/
def Maintains (I D : Ctx (Replica σ Op) Node (Msg Op) (Event Op) → Prop) (x : M σ Op α) : Prop :=
  ∀ c, I c → wp x (fun _ => I) D c

section Rules

variable {x : M σ Op α}

theorem Maintains.pure (a : α) : Maintains I D (Pure.pure a : M σ Op α) := fun _ hc => hc

theorem Maintains.read (f : Replica σ Op → α) : Maintains I D (Ctx.read f : M σ Op α) :=
  fun _ hc => hc

theorem Maintains.crash (hdead : ∀ c, I c → D c) : Maintains I D (Prog.crash : M σ Op α) := hdead

theorem Maintains.deref (hdead : ∀ c, I c → D c) (o : Option α) :
    Maintains I D (Prog.deref o : M σ Op α) := by
  cases o with
  | some a => exact .pure a
  | none => exact .crash hdead

theorem Maintains.bind {f : α → M σ Op β} (hx : Maintains I D x)
    (hf : ∀ a, Maintains I D (f a)) : Maintains I D (x >>= f) := by
  intro c hc
  rw [wp_bind]
  exact wp_mono (fun a c' hc' => hf a c' hc') (fun _ h => h) (hx c hc)

theorem Maintains.ite {p : Prop} [Decidable p] {y : M σ Op α} (hx : Maintains I D x)
    (hy : Maintains I D y) : Maintains I D (if p then x else y) := by
  split_ifs
  · exact hx
  · exact hy

theorem Maintains.when {b : Bool} {x : M σ Op Unit} (hx : Maintains I D x) :
    Maintains I D (Prog.when b x) := by
  cases b with
  | true => exact hx
  | false => exact .pure ()

theorem Maintains.forM {l : List β} {f : β → M σ Op PUnit} (hf : ∀ b, Maintains I D (f b)) :
    Maintains I D (l.forM f) :=
  fun _ hc => wp_forM (fun b _ c hc => hf b c hc) hc

end Rules

/-- **An invariant of the service**: it is kept by what does not touch the service, by the
execution of the next operation, and when a request is noted. -/
structure Steady (env : Env σ Op)
    (I D : Ctx (Replica σ Op) Node (Msg Op) (Event Op) → Prop) : Prop where
  dead : ∀ c, I c → D c
  update : ∀ {f : Replica σ Op → Replica σ Op}, (∀ r, (f r).service = r.service) →
    Maintains I D (Ctx.update f)
  emit : ∀ {e : Event Op}, executedOf e = none → Maintains I D (Ctx.emit e : M σ Op Unit)
  send : ∀ {ps : List (Packet Node (Msg Op))}, (∀ p ∈ ps, p.msg.ofPeer = true) →
    Maintains I D (Ctx.send ps : M σ Op Unit)
  commit : Maintains I D (commitNext env)
  table : ∀ req, Maintains I D (updateClientTable req)

section Handlers

variable (hI : Steady env I D)

include hI

theorem sendTo_steady {dst : Node} {m : Msg Op} (hm : m.ofPeer = true) :
    Maintains I D (sendTo env dst m) :=
  hI.send fun p hp => by
    rw [List.mem_singleton.1 hp]
    exact hm

theorem sendMessageToAll_steady {m : Msg Op} (hm : m.ofPeer = true) :
    Maintains I D (sendMessageToAll env m) :=
  hI.send fun p hp => by
    obtain ⟨j, -, rfl⟩ := List.mem_map.1 hp
    exact hm

theorem commitTimes_steady (k : ℕ) : Maintains I D (commitTimes env k) := by
  induction k with
  | zero => exact .pure _
  | succ k ih => exact .bind hI.commit fun _ => ih

theorem commitUpTo_steady (upto : ℕ) : Maintains I D (commitUpTo env upto) :=
  .bind (.read _) fun _ => commitTimes_steady hI _

theorem sendPrepareOK_steady (view opnum : ℕ) : Maintains I D (sendPrepareOK env view opnum) :=
  .bind (hI.emit rfl) fun _ => .bind (.read _) fun _ => sendTo_steady hI rfl

theorem sendPrepareOKs_steady (oldLastOp : ℕ) : Maintains I D (sendPrepareOKs env oldLastOp) := by
  refine .bind (.read _) fun lastOp => .forM fun i => .bind (.read _) fun r => .when ?_
  refine .bind (.deref hI.dead _) fun entry => .bind (hI.table _) fun _ => ?_
  exact sendPrepareOK_steady hI _ _

theorem requestStateTransfer_steady : Maintains I D (requestStateTransfer env) := by
  refine .bind (.read _) fun r => .when ?_
  exact .bind (hI.update fun _ => rfl) fun _ => sendMessageToAll_steady hI rfl

theorem enterView_steady (newview : ℕ) : Maintains I D (enterView env newview) := by
  refine .bind (hI.update fun _ => rfl) fun _ => .bind (.read _) fun r => ?_
  exact .ite (hI.update fun _ => rfl) (hI.update fun _ => rfl)

theorem startViewChange_steady (newview : ℕ) : Maintains I D (startViewChange env newview) :=
  .bind (hI.update fun _ => rfl) fun _ => .bind (.read _) fun _ => sendMessageToAll_steady hI rfl

theorem batch_steady (l : Log Op) (opnum k : ℕ) :
    Maintains I D (batch l opnum k : M σ Op (List (Request Op))) := by
  induction k generalizing opnum with
  | zero => exact .pure _
  | succ k ih => exact .bind (.deref hI.dead _) fun entry => .bind (ih _) fun rest => .pure _

theorem closeBatch_steady : Maintains I D (closeBatch env) := by
  refine .bind (.read _) fun r => .bind (batch_steady hI _ _ _) fun requests => ?_
  refine .bind (hI.update fun _ => rfl) fun _ => .bind (sendMessageToAll_steady hI rfl) fun _ => ?_
  exact hI.update fun _ => rfl

/-- A leader gives a request its number. -/
theorem propose_steady (e : LogEntry Op) (p : Prop) [Decidable p] : Maintains I D (do
    update fun r => { r with lastOp := r.lastOp + 1, log := r.log.append e }
    emit (.proposed e)
    if p then closeBatch env else update fun r => { r with closeBatchTimeout := true }
    update fun r => { r with nullCommitTimeout := true }) := by
  refine .bind (hI.update fun _ => rfl) fun _ => .bind (hI.emit rfl) fun _ => .ite ?_ ?_
  · exact .bind (closeBatch_steady hI) fun _ => hI.update fun _ => rfl
  · exact .bind (hI.update fun _ => rfl) fun _ => hI.update fun _ => rfl

theorem appendRequests_steady (view : ℕ) (reqs : List (Request Op)) (op : ℕ) :
    Maintains I D (appendRequests view op reqs : M σ Op Unit) := by
  induction reqs generalizing op with
  | nil => exact .pure _
  | cons req reqs ih =>
      refine .bind (.read _) fun lastOp => .bind (.when ?_) fun _ => ih _
      exact .bind (hI.update fun _ => rfl) fun _ => hI.table _

theorem bufferPrepare_steady (remote : Node) (msg : Prepare Op) :
    Maintains I D (bufferPrepare env remote msg) :=
  .bind (requestStateTransfer_steady hI) fun _ => hI.update fun _ => rfl

theorem handlePrepare_steady (remote : Node) (msg : Prepare Op) :
    Maintains I D (handlePrepare env remote msg) := by
  refine .bind (.read _) fun r => .ite (.pure _) (.ite (.pure _)
    (.ite (bufferPrepare_steady hI _ _) (.ite (.crash hI.dead) ?_)))
  refine .bind (hI.update fun _ => rfl) fun _ => .ite (sendPrepareOK_steady hI _ _)
    (.ite (bufferPrepare_steady hI _ _) ?_)
  exact .bind (appendRequests_steady hI _ _ _) fun _ => sendPrepareOK_steady hI _ _

theorem handlePrepareOK_steady (view opnum replicaIdx : ℕ) :
    Maintains I D (handlePrepareOK env view opnum replicaIdx) := by
  refine .bind (.read _) fun r => .ite (.pure _) (.ite (.pure _)
    (.ite (requestStateTransfer_steady hI) (.ite (.pure _) ?_)))
  refine .bind (hI.update fun _ => rfl) fun _ => .when (.bind (hI.emit rfl) fun _ => ?_)
  refine .bind (commitUpTo_steady hI _) fun _ => .when (.bind (.read _) fun r => ?_)
  exact .bind (sendMessageToAll_steady hI rfl) fun _ => hI.update fun _ => rfl

theorem handleCommit_steady (view opnum : ℕ) : Maintains I D (handleCommit env view opnum) := by
  refine .bind (.read _) fun r => .ite (.pure _) (.ite (.pure _)
    (.ite (requestStateTransfer_steady hI) (.ite (.crash hI.dead) ?_)))
  refine .bind (hI.update fun _ => rfl) fun _ => .ite (.pure _)
    (.ite (requestStateTransfer_steady hI) (commitUpTo_steady hI _))

theorem handleRequestStateTransfer_steady (remote : Node) (view opnum : ℕ) :
    Maintains I D (handleRequestStateTransfer env remote view opnum) :=
  .bind (.read _) fun _ => .ite (.pure _)
    (.ite (requestStateTransfer_steady hI) (sendTo_steady hI rfl))

theorem transferEntries_steady (es : List (LogEntry Op)) (oldLastOp : ℕ) :
    Maintains I D (transferEntries oldLastOp es : M σ Op ℕ) := by
  induction es generalizing oldLastOp with
  | nil => exact .pure _
  | cons e es ih =>
      refine .bind (.read _) fun r => .ite (ih _) (.ite ?_ (.bind (hI.update fun _ => rfl)
        fun _ => ih _))
      refine .bind (.deref hI.dead _) fun entry => .ite (ih _) ?_
      exact .bind (hI.update fun _ => rfl) fun _ => ih _

theorem handleStateTransfer_steady (msg : StateTransfer Op) :
    Maintains I D (handleStateTransfer env msg) := by
  refine .bind (.read _) fun r => .when (.bind (transferEntries_steady hI _ _) fun oldLastOp => ?_)
  refine .bind (.when (enterView_steady hI _)) fun _ => .bind (commitUpTo_steady hI _) fun _ => ?_
  exact .bind (sendPrepareOKs_steady hI _) fun _ => hI.update fun _ => rfl

theorem collectStartViewChange_steady (replicaIdx lastCommitted : ℕ) :
    Maintains I D (collectStartViewChange env replicaIdx lastCommitted) := by
  refine .bind (.read _) fun r => .bind (hI.update fun _ => rfl) fun _ => .when (.when ?_)
  exact .bind (hI.emit rfl) fun _ => sendTo_steady hI rfl

theorem handleStartViewChange_steady (view replicaIdx lastCommitted : ℕ) :
    Maintains I D (handleStartViewChange env view replicaIdx lastCommitted) := by
  refine .bind (.read _) fun r => .ite (.pure _) (.ite (.pure _) ?_)
  exact .bind (.when (startViewChange_steady hI _)) fun _ => collectStartViewChange_steady hI _ _

theorem installLog_steady (lastOp : ℕ) (es : List (LogEntry Op)) :
    Maintains I D (installLog lastOp es : M σ Op Unit) := by
  refine .bind (.read _) fun r => ?_
  cases es with
  | nil => exact .pure _
  | cons e es => exact .ite (.crash hI.dead) (hI.update fun _ => rfl)

theorem pointedTo_steady (stray : Stray Op) (chosen : Option (DoViewChange Op)) :
    Maintains I D (pointedTo stray chosen : M σ Op (Option (DoViewChange Op))) := by
  cases chosen with
  | none => exact .pure _
  | some x => exact .bind (.deref hI.dead _) fun _ => .pure _

theorem collectDoViewChange_steady (stray : Stray Op) (msg : DoViewChange Op) :
    Maintains I D (collectDoViewChange env stray msg) := by
  refine .bind (.read _) fun r => .bind (hI.update fun _ => rfl) fun _ => .when ?_
  generalize latestLog r.log _ = choice
  obtain ⟨latest, chosen⟩ := choice
  refine .bind (pointedTo_steady hI stray chosen) fun latestMsg => ?_
  cases latestMsg with
  | none =>
      exact .bind (hI.emit (e := .contributed msg.view r.enteredView r.log.entries) rfl) fun _ =>
        .bind (enterView_steady hI _) fun _ => .bind (hI.update fun _ => rfl) fun _ =>
          .bind (.read _) fun l => .bind (hI.emit (e := .started msg.view l) rfl) fun _ =>
            .bind (.read _) fun r => sendMessageToAll_steady hI rfl
  | some x =>
      exact .bind (installLog_steady hI _ _) fun _ =>
        .bind (hI.emit (e := .contributed msg.view r.enteredView r.log.entries) rfl) fun _ =>
          .bind (enterView_steady hI _) fun _ => .bind (hI.update fun _ => rfl) fun _ =>
            .bind (.read _) fun l => .bind (hI.emit (e := .started msg.view l) rfl) fun _ =>
              .bind (commitUpTo_steady hI _) fun _ => .bind (.read _) fun r =>
                sendMessageToAll_steady hI rfl

theorem handleDoViewChange_steady (stray : Stray Op) (msg : DoViewChange Op) :
    Maintains I D (handleDoViewChange env stray msg) := by
  refine .bind (.read _) fun r => .ite (.pure _) (.ite (.pure _) ?_)
  exact .bind (.when (startViewChange_steady hI _)) fun _ => collectDoViewChange_steady hI _ _

theorem handleStartView_steady (msg : StartView Op) : Maintains I D (handleStartView env msg) := by
  refine .bind (.read _) fun r => .ite (.pure _) (.ite (.pure _) ?_)
  refine .bind (installLog_steady hI _ _) fun _ => .bind (enterView_steady hI _) fun _ => ?_
  refine .bind (.read _) fun oldLastOp => .bind (hI.update fun _ => rfl) fun _ => ?_
  exact .bind (commitUpTo_steady hI _) fun _ => sendPrepareOKs_steady hI _

theorem handleMessage_steady (stray : Stray Op) {remote : Node} {m : Msg Op}
    (hrequest : ∀ req, m = .request req → Maintains I D (handleRequest env remote req)) :
    Maintains I D (handleMessage env stray remote m) := by
  cases m with
  | request req => exact hrequest req rfl
  | reply m => exact .crash hI.dead
  | prepare m => exact handlePrepare_steady hI remote m
  | prepareOK view opnum replicaIdx => exact handlePrepareOK_steady hI view opnum replicaIdx
  | commit view opnum => exact handleCommit_steady hI view opnum
  | requestStateTransfer view opnum => exact handleRequestStateTransfer_steady hI remote view opnum
  | stateTransfer m => exact handleStateTransfer_steady hI m
  | startViewChange view replicaIdx lastCommitted => exact handleStartViewChange_steady hI _ _ _
  | doViewChange m => exact handleDoViewChange_steady hI stray m
  | startView m => exact handleStartView_steady hI m

theorem handleTimer_steady (t : ReplicaTimer) : Maintains I D (handleTimer env t) := by
  cases t with
  | viewChange => exact .bind (.read _) fun r => .when (startViewChange_steady hI _)
  | nullCommit =>
      exact .bind (.read _) fun r => .when (.bind (.read _) fun r => sendMessageToAll_steady hI rfl)
  | stateTransfer =>
      exact hI.update (f := fun r => { r with
        lastRequestStateTransferView := 0
        lastRequestStateTransferOpnum := 0 }) fun _ => rfl
  | resendPrepare =>
      refine .bind (.read _) fun r => .when (.bind (.read _) fun r => .when ?_)
      exact sendMessageToAll_steady hI rfl
  | closeBatch => exact .bind (.read _) fun r => .when (closeBatch_steady hI)

end Handlers

end Replica

/-- **A step of a replica**: it is enough to look at the requests. -/
theorem handle_steady {dep : Deployment σ Op} {i : ℕ}
    {I D : Ctx (Replica σ Op) Node (Msg Op) (Event Op) → Prop}
    (hI : Replica.Steady (dep.env i) I D) (ω : Stray Op) {input : Input Node (Msg Op) (Act Op)}
    (hrequest : ∀ p req, input = .recv p → p.msg = .request req →
      Replica.Maintains I D (Replica.handleRequest (dep.env i) p.src req)) :
    Replica.Maintains I D (dep.handle (.replica i) ω input) := by
  cases input with
  | recv p => exact Replica.handleMessage_steady hI ω fun req hreq => hrequest p req rfl hreq
  | act a =>
      cases a with
      | timer t => exact .when (Replica.handleTimer_steady hI t)
      | client a => exact .pure _

end D2PC.Vr
