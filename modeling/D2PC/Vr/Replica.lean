import D2PC.Ir.Record
import D2PC.Vr.Log

/-!
# The replica of viewstamped replication

`VRReplica` of `replication/vr/replica.cc`. The leader of a view numbers the requests of the
clients and sends them to the others in batches; a request is executed once a majority has it in
its log. A view change starts the next view with the most recent log of a majority, and a replica
that has fallen behind asks for the entries it lacks.

Assertions are not compiled in. The timers are the flags of the `Timeout` objects, set while
one is running. Requests that are not logged are left out.
-/

namespace D2PC.Vr

export Ir (Config QuorumSet Node)

/-- `ReplicaStatus`. -/
inductive Status where
  | normal | viewChange
  deriving DecidableEq, Repr

/-! ### Messages -/

/-- `ReplyMessage`. -/
structure Reply (Op : Type) where
  view : ℕ
  opnum : ℕ
  clientreqid : ℕ
  reply : Op
  deriving DecidableEq

/-- `PrepareMessage`. -/
structure Prepare (Op : Type) where
  view : ℕ := 0
  opnum : ℕ := 0
  batchstart : ℕ := 0
  request : List (Request Op) := []
  deriving DecidableEq

/-- `StateTransferMessage`. -/
structure StateTransfer (Op : Type) where
  view : ℕ
  opnum : ℕ
  entries : List (LogEntry Op)
  deriving DecidableEq

/-- `DoViewChangeMessage`. -/
structure DoViewChange (Op : Type) where
  view : ℕ
  lastNormalView : ℕ
  lastOp : ℕ
  lastCommitted : ℕ
  entries : List (LogEntry Op)
  replicaIdx : ℕ
  deriving DecidableEq

/-- `StartViewMessage`. -/
structure StartView (Op : Type) where
  view : ℕ
  lastOp : ℕ
  lastCommitted : ℕ
  entries : List (LogEntry Op)
  deriving DecidableEq

/-- The messages. Operations and replies are strings of the application. -/
inductive Msg (Op : Type) where
  | request (req : Request Op)
  | reply (m : Reply Op)
  | prepare (m : Prepare Op)
  | prepareOK (view opnum replicaIdx : ℕ)
  | commit (view opnum : ℕ)
  | requestStateTransfer (view opnum : ℕ)
  | stateTransfer (m : StateTransfer Op)
  | startViewChange (view replicaIdx lastCommitted : ℕ)
  | doViewChange (m : DoViewChange Op)
  | startView (m : StartView Op)

/-! ### The state -/

/-- The upcalls of `AppReplica`. -/
structure App (σ Op : Type) where
  init : σ
  /-- Whether the operation is replicated, and what is replicated or replied. -/
  leaderUpcall : ℕ → Op → σ → (Bool × Op) × σ
  replicaUpcall : ℕ → Op → σ → Op × σ

/-- `ClientTableEntry`. -/
structure ClientTableEntry (Op : Type) where
  lastReqId : ℕ := 0
  replied : Bool := false
  reply : Option (Reply Op) := none
  deriving DecidableEq

/-- The state of a replica. The view last entered is not in the code; the specifications speak
of it. -/
structure Replica (σ Op : Type) where
  status : Status := .normal
  view : ℕ := 0
  lastCommitted : ℕ := 0
  lastOp : ℕ := 0
  lastRequestStateTransferView : ℕ := 0
  lastRequestStateTransferOpnum : ℕ := 0
  pendingPrepares : List (Node × Prepare Op) := []
  lastPrepare : Prepare Op := {}
  lastBatchEnd : ℕ := 0
  log : Log Op := {}
  clientAddresses : Table ℕ Node := ∅
  clientTable : Table ℕ (ClientTableEntry Op) := ∅
  prepareOKQuorum : QuorumSet (ℕ × ℕ) Unit := ∅
  startViewChangeQuorum : QuorumSet ℕ ℕ := ∅
  doViewChangeQuorum : QuorumSet ℕ (DoViewChange Op) := ∅
  viewChangeTimeout : Bool := false
  nullCommitTimeout : Bool := false
  resendPrepareTimeout : Bool := false
  closeBatchTimeout : Bool := false
  app : σ
  enteredView : ℕ := 0

/-- What a process records for the specifications. -/
inductive Event (Op : Type) where
  /-- A leader gave a request its number in its view. -/
  | proposed (e : LogEntry Op)
  /-- A replica has the operations of the view up to this one: it told the leader so, or is the
  leader and counts itself. -/
  | accepted (view opnum : ℕ)
  /-- `Execute` was called. -/
  | executed (opnum : ℕ) (req : Request Op)
  /-- The log was given to the choice for the view, by the leader itself or in a message. -/
  | contributed (view enteredView : ℕ) (log : List (LogEntry Op))
  /-- A leader started the view with the log. -/
  | started (view : ℕ) (log : List (LogEntry Op))
  /-- A client made a request. -/
  | requested (req : Request Op)
  deriving DecidableEq

/-- The timers of a replica. -/
inductive ReplicaTimer where
  | viewChange | nullCommit | stateTransfer | resendPrepare | closeBatch
  deriving DecidableEq, Repr

/-- The parameters of a replica. -/
structure Env (σ Op : Type) where
  cfg : Config
  myIdx : ℕ
  batchSize : ℕ
  app : App σ Op

/-- What a replica finds where it reads past what it has: the memory behind the end of a map, and an
object that is gone. -/
structure Stray (Op : Type) where
  /-- The `lastcommitted` behind the end of the messages of the first round. -/
  lastCommitted : ℕ := 0
  /-- What is left of the chosen message; without it the replica dies. -/
  latestMsg : DoViewChange Op → Option (DoViewChange Op) := some

namespace Replica

variable {σ Op : Type}

abbrev M (σ Op : Type) := Prog (Ctx (Replica σ Op) Node (Msg Op) (Event Op))

open Ctx Prog

variable (env : Env σ Op)

/-- `AmLeader`. -/
def amLeader (r : Replica σ Op) : Bool := decide (env.cfg.leader r.view = env.myIdx)

def sendTo (dst : Node) (m : Msg Op) : M σ Op Unit := send [⟨.replica env.myIdx, dst, m⟩]

/-- `SendMessageToAll` leaves out the sender. -/
def sendMessageToAll (m : Msg Op) : M σ Op Unit :=
  send (((List.range env.cfg.n).filter fun i => i ≠ env.myIdx).map fun i =>
    ⟨.replica env.myIdx, .replica i, m⟩)

/-! ### The log and the client table -/

/-- `CommitUpTo`, one operation. -/
def commitNext : M σ Op Unit := do
  update fun r => { r with lastCommitted := r.lastCommitted + 1 }
  let r ← read id
  let entry ← deref (r.log.find r.lastCommitted)
  let (res, app) := env.app.replicaUpcall r.lastCommitted entry.request.op r.app
  emit (.executed r.lastCommitted entry.request)
  let reply : Reply Op :=
    { view := entry.view
      opnum := entry.opnum
      clientreqid := entry.request.clientreqid
      reply := res }
  let cte := (r.clientTable.lookup entry.request.clientid).getD {}
  update fun r => { r with
    app := app
    clientTable := r.clientTable.insert entry.request.clientid
      (if cte.lastReqId ≤ entry.request.clientreqid then
        { lastReqId := entry.request.clientreqid, replied := true, reply := some reply }
      else cte) }
  match r.clientAddresses.lookup entry.request.clientid with
  | some addr => sendTo env addr (.reply reply)
  | none => pure ()

/-- The loop of `CommitUpTo`. -/
def commitTimes : ℕ → M σ Op Unit
  | 0 => pure ()
  | k + 1 => do
      commitNext env
      commitTimes k

/-- `CommitUpTo`. -/
def commitUpTo (upto : ℕ) : M σ Op Unit := do
  let lastCommitted ← read (·.lastCommitted)
  commitTimes env (upto - lastCommitted)

/-- `UpdateClientTable`. -/
def updateClientTable (req : Request Op) : M σ Op Unit :=
  update fun r =>
    let entry := (r.clientTable.lookup req.clientid).getD {}
    { r with
      clientTable := r.clientTable.insert req.clientid
        (if entry.lastReqId = req.clientreqid then entry
        else { lastReqId := req.clientreqid, replied := false, reply := none }) }

/-- A `PrepareOK` is sent to the leader. -/
def sendPrepareOK (view opnum : ℕ) : M σ Op Unit := do
  emit (.accepted view opnum)
  let r ← read id
  sendTo env (.replica (env.cfg.leader r.view)) (.prepareOK view opnum env.myIdx)

/-- `SendPrepareOKs`. -/
def sendPrepareOKs (oldLastOp : ℕ) : M σ Op Unit := do
  let lastOp ← read (·.lastOp)
  (List.range' oldLastOp (lastOp + 1 - oldLastOp)).forM fun i => do
    let r ← read id
    when (!decide (i ≤ r.lastCommitted)) do
      let entry ← deref (r.log.find i)
      updateClientTable entry.request
      sendPrepareOK env r.view i

/-- `RequestStateTransfer`. -/
def requestStateTransfer : M σ Op Unit := do
  let r ← read id
  when (!decide (r.lastRequestStateTransferOpnum ≠ 0 ∧ r.lastRequestStateTransferView = r.view ∧
      r.lastRequestStateTransferOpnum = r.lastCommitted)) do
    update fun r => { r with
      lastRequestStateTransferView := r.view
      lastRequestStateTransferOpnum := r.lastCommitted }
    sendMessageToAll env (.requestStateTransfer r.view r.lastCommitted)

/-! ### Views -/

/-- `EnterView`. -/
def enterView (newview : ℕ) : M σ Op Unit := do
  update fun r => { r with
    view := newview
    status := .normal
    lastBatchEnd := r.lastOp
    enteredView := newview
    prepareOKQuorum := ∅
    startViewChangeQuorum := ∅
    doViewChangeQuorum := ∅ }
  let r ← read id
  if amLeader env r then
    update fun r => { r with viewChangeTimeout := false, nullCommitTimeout := true }
  else
    update fun r => { r with
      viewChangeTimeout := true
      nullCommitTimeout := false
      resendPrepareTimeout := false
      closeBatchTimeout := false }

/-- `StartViewChange`. -/
def startViewChange (newview : ℕ) : M σ Op Unit := do
  update fun r => { r with
    view := newview
    status := .viewChange
    viewChangeTimeout := true
    nullCommitTimeout := false
    resendPrepareTimeout := false
    closeBatchTimeout := false }
  let r ← read id
  sendMessageToAll env (.startViewChange newview env.myIdx r.lastCommitted)

/-- `SendNullCommit`. -/
def sendNullCommit : M σ Op Unit := do
  let r ← read id
  sendMessageToAll env (.commit r.view r.lastCommitted)

/-- `ResendPrepare`. -/
def resendPrepare : M σ Op Unit := do
  let r ← read id
  when (!decide (r.lastOp = r.lastCommitted)) (sendMessageToAll env (.prepare r.lastPrepare))

/-- The requests numbered from `opnum` on, as `CloseBatch` collects them. -/
def batch (log : Log Op) : ℕ → ℕ → M σ Op (List (Request Op))
  | _, 0 => pure []
  | opnum, k + 1 => do
      let entry ← deref (log.find opnum)
      let rest ← batch log (opnum + 1) k
      pure (entry.request :: rest)

/-- `CloseBatch`. -/
def closeBatch : M σ Op Unit := do
  let r ← read id
  let batchStart := r.lastBatchEnd + 1
  let requests ← batch r.log batchStart (r.lastOp + 1 - batchStart)
  let p : Prepare Op :=
    { view := r.view
      opnum := r.lastOp
      batchstart := batchStart
      request := requests }
  update fun r => { r with lastPrepare := p }
  sendMessageToAll env (.prepare p)
  update fun r => { r with
    lastBatchEnd := r.lastOp
    resendPrepareTimeout := true
    closeBatchTimeout := false }

/-! ### Requests -/

/-- `HandleRequest`, when the client table has nothing of the request. -/
def takeRequest (remote : Node) (req : Request Op) : M σ Op Unit := do
  updateClientTable req
  let r ← read id
  let ((replicate, res), app) := env.app.leaderUpcall r.lastCommitted req.op r.app
  update fun r => { r with app := app }
  if replicate = false then do
    let reply : Reply Op :=
      { view := 0
        opnum := 0
        clientreqid := req.clientreqid
        reply := res }
    update fun r => { r with
      clientTable := r.clientTable.insert req.clientid
        { ((r.clientTable.lookup req.clientid).getD {}) with
          replied := true
          reply := some reply } }
    sendTo env remote (.reply reply)
  else do
    let e : LogEntry Op :=
      { view := r.view
        opnum := r.lastOp + 1
        request :=
          { op := res
            clientid := req.clientid
            clientreqid := req.clientreqid } }
    update fun r => { r with lastOp := r.lastOp + 1, log := r.log.append e }
    emit (.proposed e)
    -- the difference is of unsigned 64-bit numbers
    if env.batchSize < (r.lastOp + 1 + 2 ^ 64 - r.lastBatchEnd + 1) % 2 ^ 64 then closeBatch env
    else update fun r => { r with closeBatchTimeout := true }
    update fun r => { r with nullCommitTimeout := true }

/-- `HandleRequest`. -/
def handleRequest (remote : Node) (req : Request Op) : M σ Op Unit := do
  let r ← read id
  when (decide (r.status = .normal) && amLeader env r) do
    update fun r => { r with clientAddresses := r.clientAddresses.insert req.clientid remote }
    match r.clientTable.lookup req.clientid with
    | some entry =>
        if req.clientreqid < entry.lastReqId then pure ()
        else if req.clientreqid = entry.lastReqId then
          match entry.replied, entry.reply with
          | true, some reply => sendTo env remote (.reply reply)
          | _, _ => pure ()
        else takeRequest env remote req
    | none => takeRequest env remote req

/-- The requests of a prepare message that are new are added to the log. -/
def appendRequests (view : ℕ) : ℕ → List (Request Op) → M σ Op Unit
  | _, [] => pure ()
  | op, req :: reqs => do
      let lastOp ← read (·.lastOp)
      when (!decide (op ≤ lastOp)) do
        update fun r => { r with
          lastOp := r.lastOp + 1
          log := r.log.append { view := view, opnum := op, request := req } }
        updateClientTable req
      appendRequests view (op + 1) reqs

/-- A prepare message is kept until the state transfer. -/
def bufferPrepare (remote : Node) (msg : Prepare Op) : M σ Op Unit := do
  requestStateTransfer env
  update fun r => { r with pendingPrepares := r.pendingPrepares ++ [(remote, msg)] }

/-- `HandlePrepare`. -/
def handlePrepare (remote : Node) (msg : Prepare Op) : M σ Op Unit := do
  let r ← read id
  if r.status ≠ .normal then pure ()
  else if msg.view < r.view then pure ()
  else if r.view < msg.view then bufferPrepare env remote msg
  else if amLeader env r then crash
  else do
    update fun r => { r with viewChangeTimeout := true }
    if msg.opnum ≤ r.lastOp then sendPrepareOK env msg.view msg.opnum
    else if r.lastOp + 1 < msg.batchstart then bufferPrepare env remote msg
    else do
      appendRequests msg.view msg.batchstart msg.request
      sendPrepareOK env msg.view msg.opnum

/-- `HandlePrepareOK`. -/
def handlePrepareOK (view opnum replicaIdx : ℕ) : M σ Op Unit := do
  let r ← read id
  if r.status ≠ .normal then pure ()
  else if view < r.view then pure ()
  else if r.view < view then requestStateTransfer env
  else if amLeader env r = false then pure ()
  else do
    let quorum := r.prepareOKQuorum.add (view, opnum) replicaIdx ()
    update fun r => { r with prepareOKQuorum := quorum }
    let msgs := quorum.getMessages (view, opnum)
    when (decide (env.cfg.quorumSize - 1 ≤ msgs.size)) do
      emit (.accepted view opnum)
      commitUpTo env opnum
      when (!decide (env.cfg.quorumSize ≤ msgs.size)) do
        let r ← read id
        sendMessageToAll env (.commit r.view r.lastCommitted)
        update fun r => { r with nullCommitTimeout := true }

/-- `HandleCommit`. -/
def handleCommit (view opnum : ℕ) : M σ Op Unit := do
  let r ← read id
  if r.status ≠ .normal then pure ()
  else if view < r.view then pure ()
  else if r.view < view then requestStateTransfer env
  else if amLeader env r then crash
  else do
    update fun r => { r with viewChangeTimeout := true }
    if opnum ≤ r.lastCommitted then pure ()
    else if r.lastOp < opnum then requestStateTransfer env
    else commitUpTo env opnum

/-! ### State transfer -/

/-- `HandleRequestStateTransfer`. -/
def handleRequestStateTransfer (remote : Node) (view opnum : ℕ) : M σ Op Unit := do
  let r ← read id
  if r.status ≠ .normal then pure ()
  else if r.view < view then requestStateTransfer env
  else sendTo env remote (.stateTransfer
    { view := r.view
      opnum := r.lastCommitted
      entries := r.log.dump (opnum + 1) })

/-- The loop of `HandleStateTransfer` over the entries; the result is `oldLastOp`. -/
def transferEntries : ℕ → List (LogEntry Op) → M σ Op ℕ
  | oldLastOp, [] => pure oldLastOp
  | oldLastOp, newEntry :: es => do
      let r ← read id
      if newEntry.opnum ≤ r.lastCommitted then transferEntries oldLastOp es
      else if newEntry.opnum ≤ r.lastOp then do
        let entry ← deref (r.log.find newEntry.opnum)
        if entry.view = newEntry.view then transferEntries oldLastOp es
        else do
          update fun r => { r with
            lastOp := newEntry.opnum
            log := (r.log.removeAfter newEntry.opnum).append newEntry }
          transferEntries newEntry.opnum es
      else do
        update fun r => { r with lastOp := r.lastOp + 1, log := r.log.append newEntry }
        transferEntries oldLastOp es

/-- `HandleStateTransfer`. The list of pending prepares is cleared before the loop over it. -/
def handleStateTransfer (msg : StateTransfer Op) : M σ Op Unit := do
  let r ← read id
  when (!decide (msg.view < r.view)) do
    let oldLastOp ← transferEntries r.lastOp msg.entries
    when (decide (r.view < msg.view)) (enterView env msg.view)
    commitUpTo env msg.opnum
    sendPrepareOKs env oldLastOp
    update fun r => { r with pendingPrepares := [] }

/-! ### View changes -/

/-- `std::min_element`, of a value and a list. -/
def minOf (x : ℕ) (xs : List ℕ) : ℕ := xs.foldl min x

/-- The values of a table of messages, in the order of the replicas. -/
def byReplica {α : Type} (cfg : Config) (msgs : Table ℕ α) : List α :=
  (List.range cfg.n).filterMap msgs.lookup

/-- `HandleStartViewChange`, when the view of the message has been entered. -/
def collectStartViewChange (replicaIdx lastCommitted : ℕ) : M σ Op Unit := do
  let r ← read id
  let quorum := r.startViewChangeQuorum.add r.view replicaIdx lastCommitted
  update fun r => { r with startViewChangeQuorum := quorum }
  let msgs := quorum.getMessages r.view
  when (decide (env.cfg.quorumSize - 1 ≤ msgs.size)) do
    let leader := env.cfg.leader r.view
    when (decide (leader ≠ env.myIdx)) do
      let minCommitted := minOf r.lastCommitted (byReplica env.cfg msgs)
      emit (.contributed r.view r.enteredView r.log.entries)
      sendTo env (.replica leader) (.doViewChange
        { view := r.view
          lastNormalView := r.log.lastViewstamp.1
          lastOp := r.lastOp
          lastCommitted := r.lastCommitted
          replicaIdx := env.myIdx
          entries := r.log.dump minCommitted })

/-- `HandleStartViewChange`. -/
def handleStartViewChange (view replicaIdx lastCommitted : ℕ) : M σ Op Unit := do
  let r ← read id
  if view < r.view then pure ()
  else if view = r.view ∧ r.status ≠ .viewChange then pure ()
  else do
    when (decide (r.status ≠ .viewChange ∨ r.view < view)) (startViewChange env view)
    collectStartViewChange env replicaIdx lastCommitted

/-- The message with the most up to date log, if it is more so than the own one, and the
viewstamp of its last entry. -/
def latestLog (log : Log Op) (msgs : List (DoViewChange Op)) :
    (ℕ × ℕ) × Option (DoViewChange Op) :=
  msgs.foldl (fun latest x =>
    if latest.1.1 < x.lastNormalView ∨ x.lastNormalView = latest.1.1 ∧ latest.1.2 < x.lastOp then
      ((x.lastNormalView, x.lastOp), some x)
    else latest) (log.lastViewstamp, none)

/-- What `latestMsg` points to when the loop over the messages is over. It is the address of the copy
that the loop made of the chosen message, which is gone by then. -/
def pointedTo (stray : Stray Op) : Option (DoViewChange Op) → M σ Op (Option (DoViewChange Op))
  | none => pure none
  | some x => do
      let y ← deref (stray.latestMsg x)
      pure (some y)

/-- The log of a view change message is installed, if it has enough entries. -/
def installLog (lastOp : ℕ) (entries : List (LogEntry Op)) : M σ Op Unit := do
  let r ← read id
  match entries with
  | [] => pure ()
  | e :: es =>
      if r.lastCommitted + 1 < e.opnum then crash
      else update fun r => { r with log := (r.log.removeAfter (lastOp + 1)).install (e :: es) }

/-- `HandleDoViewChange`, when the view of the message has been entered. Without messages of the
first round the smallest `lastcommitted` among them is read past the end of the map. -/
def collectDoViewChange (stray : Stray Op) (msg : DoViewChange Op) : M σ Op Unit := do
  let r ← read id
  let quorum := r.doViewChangeQuorum.add msg.view msg.replicaIdx msg
  update fun r => { r with doViewChangeQuorum := quorum }
  let msgs := quorum.getMessages msg.view
  when (decide (env.cfg.quorumSize - 1 ≤ msgs.size)) do
    let (latest, chosen) := latestLog r.log (byReplica env.cfg msgs)
    let latestMsg ← pointedTo stray chosen
    match latestMsg with
    | some x => installLog x.lastOp x.entries
    | none => pure ()
    let svcs := byReplica env.cfg (r.startViewChangeQuorum.getMessages r.view)
    let minCommittedSVC :=
      match svcs with
      | [] => stray.lastCommitted
      | c :: cs => minOf c cs
    let minCommitted := minOf (min minCommittedSVC r.lastCommitted)
      ((byReplica env.cfg msgs).map (·.lastCommitted))
    emit (.contributed msg.view r.enteredView r.log.entries)
    enterView env msg.view
    update fun r => { r with lastOp := latest.2 }
    emit (.started msg.view (← read (·.log.entries)))
    match latestMsg with
    | some x => commitUpTo env x.lastCommitted
    | none => pure ()
    let r ← read id
    sendMessageToAll env (.startView
      { view := r.view
        lastOp := r.lastOp
        lastCommitted := r.lastCommitted
        entries := r.log.dump minCommitted })

/-- `HandleDoViewChange`. -/
def handleDoViewChange (stray : Stray Op) (msg : DoViewChange Op) : M σ Op Unit := do
  let r ← read id
  if msg.view < r.view then pure ()
  else if msg.view = r.view ∧ r.status ≠ .viewChange then pure ()
  else do
    when (decide (r.status ≠ .viewChange ∨ r.view < msg.view)) (startViewChange env msg.view)
    collectDoViewChange env stray msg

/-- `HandleStartView`. -/
def handleStartView (msg : StartView Op) : M σ Op Unit := do
  let r ← read id
  if msg.view < r.view then pure ()
  else if msg.view = r.view ∧ r.status ≠ .viewChange then pure ()
  else do
    installLog msg.lastOp msg.entries
    enterView env msg.view
    let oldLastOp ← read (·.lastOp)
    update fun r => { r with lastOp := msg.lastOp }
    commitUpTo env msg.lastCommitted
    sendPrepareOKs env oldLastOp

/-! ### Inputs -/

/-- `ReceiveMessage`; other messages are not expected. -/
def handleMessage (stray : Stray Op) (remote : Node) : Msg Op → M σ Op Unit
  | .request req => handleRequest env remote req
  | .prepare m => handlePrepare env remote m
  | .prepareOK view opnum replicaIdx => handlePrepareOK env view opnum replicaIdx
  | .commit view opnum => handleCommit env view opnum
  | .requestStateTransfer view opnum => handleRequestStateTransfer env remote view opnum
  | .stateTransfer m => handleStateTransfer env m
  | .startViewChange view replicaIdx lastCommitted =>
      handleStartViewChange env view replicaIdx lastCommitted
  | .doViewChange m => handleDoViewChange env stray m
  | .startView m => handleStartView env m
  | .reply _ => crash

/-- A timer fires, if it is running. -/
def handleTimer : ReplicaTimer → M σ Op Unit
  | .viewChange => do
      let r ← read id
      when r.viewChangeTimeout (startViewChange env (r.view + 1))
  | .nullCommit => do
      let r ← read id
      when r.nullCommitTimeout (sendNullCommit env)
  | .stateTransfer => update fun r => { r with
      lastRequestStateTransferView := 0
      lastRequestStateTransferOpnum := 0 }
  | .resendPrepare => do
      let r ← read id
      when r.resendPrepareTimeout (resendPrepare env)
  | .closeBatch => do
      let r ← read id
      when r.closeBatchTimeout (closeBatch env)

end Replica

end D2PC.Vr
