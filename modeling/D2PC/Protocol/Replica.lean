import Mathlib.Algebra.Group.Int.Defs
import Mathlib.Algebra.Group.Nat.Defs
import D2PC.Protocol.Config

/-!
# The participant replicas

`LRReplica` of `replication/lr/replica.cc`: every message handler and timer, in all five
modes. Pointers are modelled by the tables they are kept in: `operator[]` on a missing key
of `activeTxns` or `clientList` inserts a null pointer, and dereferencing one kills the
process.
-/

namespace D2PC

/-- The timer of a pending transaction: which callback it runs and whether it is running. -/
inductive ReplicaTimer where
  | resendReplicateTxn (armed : Bool)
  | resendPrepareOk (armed : Bool)
  deriving DecidableEq, Repr

/-- `PendingTransaction`. The quorum set is keyed by the term, then by the replica. -/
structure PendingTransaction where
  lsn : ℕ
  tid : TxnId
  quorum : Table ℕ (Table ℕ ReplicateTransactionReply) := ∅
  majority : ℕ
  finalResult : LogEntryState
  timer : Option ReplicaTimer
  participants : List Shard
  primaryShard : ℕ
  sendConfirms : Bool := false
  reachConsensus : Bool := false
  reachCommitDecision : Bool := false
  parallelMode : Bool := false
  isParticipant : Bool := true
  hasPreCommit : Bool := false

/-- `PendingPrepare` of the primary shard in the slow and RC modes. -/
structure PendingPrepare where
  tid : TxnId
  timestamp : ℕ := 0
  txn : Transaction
  participantReplies : Table Shard LogEntryState := ∅
  participants : List Shard
  finalDecision : LogEntryState
  timerArmed : Bool
  regionReplies : Table ℕ LogEntryState := ∅

/-- The state of an `LRReplica`. -/
structure Replica where
  log : Log := {}
  currentTs : ℕ
  pendingTxns : Table TxnId PendingTransaction := ∅
  pendingPrepares : Table TxnId PendingPrepare := ∅
  activeTxns : Table TxnId (Option Transaction) := ∅
  committedTxns : Table TxnId (LogEntryState × ℕ) := ∅
  inDependency : Table TxnId ℤ := ∅
  clientList : Table TxnId (Option Addr) := ∅
  prepareClientList : Table TxnId (Option Addr) := ∅
  store : TxnStore

abbrev ReplicaM := Prog (Ctx Replica Addr Msg Event)

/-- Which replica of which shard is running. -/
structure ReplicaEnv where
  cfg : Config
  shardId : Shard
  replicaId : ℕ

namespace ReplicaEnv

def isLeader (env : ReplicaEnv) : Bool := env.replicaId = env.cfg.leader env.shardId

/-- The socket of the main transport. -/
def addr (env : ReplicaEnv) : Addr := .replica env.shardId env.replicaId

end ReplicaEnv

namespace Replica

open Ctx Prog

/-! ### Sending -/

/-- `transport->SendMessage`. -/
def sendMessage (env : ReplicaEnv) (remote : Addr) (m : Msg) : ReplicaM Unit :=
  send [⟨env.addr, remote, m⟩]

/-- `transport->SendMessageToAll`: every replica of the shard, the sender included. -/
def sendMessageToAll (env : ReplicaEnv) (m : Msg) : ReplicaM Unit :=
  send ((List.range env.cfg.n).map fun i => ⟨env.addr, .replica env.shardId i, m⟩)

/-- `shardTransport[shard]->SendMessageToReplica`. -/
def sendMessageToShard (shard : Shard) (idx : ℕ) (m : Msg) : ReplicaM Unit :=
  send [⟨.sendOnly, .replica shard idx, m⟩]

/-- `coordinator_transport->SendMessageToReplica`. -/
def sendMessageToCoordinator (idx : ℕ) (m : Msg) : ReplicaM Unit :=
  send [⟨.sendOnly, .coordinator idx, m⟩]

/-- `coordinator_transport->SendMessageToAll`. -/
def sendMessageToCoordinators (env : ReplicaEnv) (m : Msg) : ReplicaM Unit :=
  send ((List.range env.cfg.n).map fun i => ⟨.sendOnly, .coordinator i, m⟩)

/-! ### Tables of pointers -/

/-- `activeTxns[tid]`, which inserts a null pointer when the key is missing. -/
def activePtr (tid : TxnId) : ReplicaM (Option Transaction) := do
  match ← read (·.activeTxns.lookup tid) with
  | some p => pure p
  | none =>
      update fun s => { s with activeTxns := s.activeTxns.insert tid none }
      pure none

/-- `clientList[tid]`, likewise. -/
def clientPtr (tid : TxnId) : ReplicaM (Option Addr) := do
  match ← read (·.clientList.lookup tid) with
  | some p => pure p
  | none =>
      update fun s => { s with clientList := s.clientList.insert tid none }
      pure none

/-- Write to the pending transaction a pointer refers to. -/
def mapPending (tid : TxnId) (f : PendingTransaction → PendingTransaction) (r : Replica) : Replica :=
  match r.pendingTxns.lookup tid with
  | none => r
  | some req => { r with pendingTxns := r.pendingTxns.insert tid (f req) }

def modifyPending (tid : TxnId) (f : PendingTransaction → PendingTransaction) : ReplicaM Unit :=
  update (mapPending tid f)

/-- Write to the active transaction a pointer refers to. -/
def mapActive (tid : TxnId) (f : Transaction → Transaction) (r : Replica) : Replica :=
  match r.activeTxns.lookup tid with
  | some (some txn) => { r with activeTxns := r.activeTxns.insert tid (some (f txn)) }
  | _ => r

def modifyActive (tid : TxnId) (f : Transaction → Transaction) : ReplicaM Unit :=
  update (mapActive tid f)

def erasePending (tid : TxnId) : ReplicaM Unit :=
  update fun s => { s with pendingTxns := s.pendingTxns.erase tid }

def eraseActive (tid : TxnId) : ReplicaM Unit :=
  update fun s => { s with activeTxns := s.activeTxns.erase tid }

def eraseClient (tid : TxnId) : ReplicaM Unit :=
  update fun s => { s with clientList := s.clientList.erase tid }

/-- Run a store operation that returns nothing. -/
def withStore (f : TxnStore → TxnStore) : ReplicaM Unit :=
  update fun s => { s with store := f s.store }

/-! ### Rules for the primitives -/

section Rules

variable {env : ReplicaEnv} {Q : Unit → Ctx Replica Addr Msg Event → Prop}
variable {D : Ctx Replica Addr Msg Event → Prop} {c : Ctx Replica Addr Msg Event}

@[simp] theorem wp_sendMessage (remote : Addr) (m : Msg) :
    wp (sendMessage env remote m) Q D c ↔
      Q () { c with sent := c.sent ++ [⟨env.addr, remote, m⟩] } := Iff.rfl

@[simp] theorem wp_sendMessageToAll (m : Msg) :
    wp (sendMessageToAll env m) Q D c ↔
      Q () { c with sent := c.sent ++
        (List.range env.cfg.n).map fun i => ⟨env.addr, .replica env.shardId i, m⟩ } := Iff.rfl

@[simp] theorem wp_sendMessageToShard (shard : Shard) (idx : ℕ) (m : Msg) :
    wp (sendMessageToShard shard idx m) Q D c ↔
      Q () { c with sent := c.sent ++ [⟨.sendOnly, .replica shard idx, m⟩] } := Iff.rfl

@[simp] theorem wp_sendMessageToCoordinator (idx : ℕ) (m : Msg) :
    wp (sendMessageToCoordinator idx m) Q D c ↔
      Q () { c with sent := c.sent ++ [⟨.sendOnly, .coordinator idx, m⟩] } := Iff.rfl

@[simp] theorem wp_sendMessageToCoordinators (m : Msg) :
    wp (sendMessageToCoordinators env m) Q D c ↔
      Q () { c with sent := c.sent ++
        (List.range env.cfg.n).map fun i => ⟨.sendOnly, .coordinator i, m⟩ } := Iff.rfl

@[simp] theorem wp_erasePending (tid : TxnId) :
    wp (erasePending tid) Q D c ↔
      Q () { c with state := { c.state with pendingTxns := c.state.pendingTxns.erase tid } } :=
  Iff.rfl

@[simp] theorem wp_eraseActive (tid : TxnId) :
    wp (eraseActive tid) Q D c ↔
      Q () { c with state := { c.state with activeTxns := c.state.activeTxns.erase tid } } :=
  Iff.rfl

@[simp] theorem wp_eraseClient (tid : TxnId) :
    wp (eraseClient tid) Q D c ↔
      Q () { c with state := { c.state with clientList := c.state.clientList.erase tid } } :=
  Iff.rfl

@[simp] theorem wp_withStore (f : TxnStore → TxnStore) :
    wp (withStore f) Q D c ↔
      Q () { c with state := { c.state with store := f c.state.store } } := Iff.rfl

/-- A missing pointer is entered as a null pointer. -/
theorem wp_activePtr {Q : Option Transaction → Ctx Replica Addr Msg Event → Prop} (tid : TxnId) :
    wp (activePtr tid) Q D c ↔
      (∀ p, c.state.activeTxns.lookup tid = some p → Q p c) ∧
      (c.state.activeTxns.lookup tid = none →
        Q none { c with state := { c.state with
          activeTxns := c.state.activeTxns.insert tid none } }) := by
  simp only [activePtr, wp_bind, wp_read]
  cases c.state.activeTxns.lookup tid <;> simp

theorem wp_clientPtr {Q : Option Addr → Ctx Replica Addr Msg Event → Prop} (tid : TxnId) :
    wp (clientPtr tid) Q D c ↔
      (∀ p, c.state.clientList.lookup tid = some p → Q p c) ∧
      (c.state.clientList.lookup tid = none →
        Q none { c with state := { c.state with
          clientList := c.state.clientList.insert tid none } }) := by
  simp only [clientPtr, wp_bind, wp_read]
  cases c.state.clientList.lookup tid <;> simp

/-- Dereferencing a pointer that is missing or null kills the process. -/
theorem wp_derefActive {Q : Transaction → Ctx Replica Addr Msg Event → Prop} (tid : TxnId) :
    wp (activePtr tid) (fun p => wp (deref p) Q D) D c ↔
      (∀ txn, c.state.activeTxns.lookup tid = some (some txn) → Q txn c) ∧
      (c.state.activeTxns.lookup tid = some none → D c) ∧
      (c.state.activeTxns.lookup tid = none →
        D { c with state := { c.state with activeTxns := c.state.activeTxns.insert tid none } }) := by
  simp only [wp_activePtr]
  rcases c.state.activeTxns.lookup tid with _ | _ | txn <;> simp

theorem wp_derefClient {Q : Addr → Ctx Replica Addr Msg Event → Prop} (tid : TxnId) :
    wp (clientPtr tid) (fun p => wp (deref p) Q D) D c ↔
      (∀ a, c.state.clientList.lookup tid = some (some a) → Q a c) ∧
      (c.state.clientList.lookup tid = some none → D c) ∧
      (c.state.clientList.lookup tid = none →
        D { c with state := { c.state with clientList := c.state.clientList.insert tid none } }) := by
  simp only [wp_clientPtr]
  rcases c.state.clientList.lookup tid with _ | _ | a <;> simp

@[simp] theorem wp_modifyPending (tid : TxnId) (f : PendingTransaction → PendingTransaction) :
    wp (modifyPending tid f) Q D c ↔ Q () { c with state := mapPending tid f c.state } := Iff.rfl

@[simp] theorem wp_modifyActive (tid : TxnId) (f : Transaction → Transaction) :
    wp (modifyActive tid f) Q D c ↔ Q () { c with state := mapActive tid f c.state } := Iff.rfl

theorem mapPending_some {r : Replica} {tid : TxnId} {req : PendingTransaction}
    (hreq : r.pendingTxns.lookup tid = some req) (f : PendingTransaction → PendingTransaction) :
    mapPending tid f r = { r with pendingTxns := r.pendingTxns.insert tid (f req) } := by
  simp only [mapPending, hreq]

theorem mapActive_some {r : Replica} {tid : TxnId} {txn : Transaction}
    (htxn : r.activeTxns.lookup tid = some (some txn)) (f : Transaction → Transaction) :
    mapActive tid f r = { r with activeTxns := r.activeTxns.insert tid (some (f txn)) } := by
  simp only [mapActive, htxn]

end Rules

/-! ### Replication -/

/-- `ReplicateTxn`. A failing send gives the transaction up. -/
def replicateTxn (env : ReplicaEnv) (ω : Choice) (tid : TxnId) : ReplicaM Unit := do
  let req ← deref (← read (·.pendingTxns.lookup tid))
  let log ← read (·.log)
  sendMessageToAll env (.replicateTransaction
    { txnLog := log.entryToProto req.lsn
      term := 0
      replicaId := env.replicaId
      primaryCoordinator := req.primaryShard % env.cfg.n
      participants := req.participants
      primaryShard := req.primaryShard
      vote := .prepareOk
      hasPreCommit := req.hasPreCommit })
  if ω.sendOk 0 then
    match req.timer with
    | none => crash
    | some (.resendReplicateTxn _) =>
        modifyPending tid fun req => { req with timer := some (.resendReplicateTxn true) }
    | some (.resendPrepareOk _) =>
        modifyPending tid fun req => { req with timer := some (.resendPrepareOk true) }
  else erasePending tid

/-- `ResendReplicateTxn`. -/
def resendReplicateTxn (env : ReplicaEnv) (ω : Choice) (tid : TxnId) : ReplicaM Unit := do
  if env.cfg.mode = .rc then pure ()
  else replicateTxn env ω tid

/-- `InvokeReplicateTxn`: a new pending transaction, the repair of the placeholder of
`HandleParallelModeCommit`, or a resend. -/
def invokeReplicateTxn (env : ReplicaEnv) (ω : Choice) (entry : LogEntry) (hasPreCommit : Bool) :
    ReplicaM Unit := do
  let tid := entry.txn
  match ← read (·.pendingTxns.lookup tid) with
  | none =>
      let txn ← deref (← activePtr tid)
      update fun s => { s with
        pendingTxns := s.pendingTxns.insert tid
          { lsn := entry.id
            tid := tid
            majority := env.cfg.quorumSize
            finalResult := ω.garbageLogState
            timer := if env.cfg.mode = .rc then none else some (.resendReplicateTxn false)
            participants := txn.participants
            primaryShard := txn.primaryShard
            hasPreCommit := hasPreCommit } }
      if env.cfg.mode = .rc then pure ()
      else replicateTxn env ω tid
  | some req =>
      if env.cfg.mode ≠ .rc ∧ req.timer = none then do
        let txn ← deref (← activePtr tid)
        modifyPending tid fun req => { req with
          timer := some (.resendReplicateTxn false)
          lsn := entry.id
          majority := env.cfg.quorumSize
          participants := txn.participants
          primaryShard := txn.primaryShard
          hasPreCommit := hasPreCommit }
        replicateTxn env ω tid
      else resendReplicateTxn env ω tid

/-- `HandleReplicateTransaction` of a follower, and of the leader for its own message. -/
def handleReplicateTransaction (env : ReplicaEnv) (ω : Choice) (remote : Addr)
    (msg : ReplicateTransaction) : ReplicaM Unit := do
  let entry := msg.txnLog
  update fun s => { s with currentTs := max s.currentTs entry.timestamp }
  let log ← read (·.log)
  when (log.find entry.lsn).isNone do
    update fun s => { s with log := s.log.addProto entry }
    emit (.logged entry.lsn (Log.ofProto entry))
    let txn : Transaction :=
      { id := entry.txnId
        commitTs := ⟨entry.timestamp, msg.replicaId⟩
        writeSet := Table.ofList entry.wset
        participants := msg.participants }
    update fun s => { s with activeTxns := s.activeTxns.insert entry.txnId (some txn) }
    withStore fun st => (st.prepareUpcall ω.clock entry.txnId txn.serialize env.isLeader).2
  sendMessage env remote (.replicateTransactionReply
    { lsn := entry.lsn, term := 0, replicaId := env.replicaId, txnId := entry.txnId })
  when (env.cfg.mode = .parallel) do
    sendMessageToCoordinator env.replicaId (.replicateReplyAndVote
      { tid := entry.txnId
        shard := env.shardId
        replica := env.replicaId
        vote := if msg.vote = .prepareOk then .prepared else .commit
        participants := msg.participants
        primaryShard := msg.primaryShard
        primaryCoordinator := msg.primaryCoordinator
        hasPreCommit := msg.hasPreCommit })

/-- `HandleConsensus`: the leader reports the prepared transaction. -/
def handleConsensus (env : ReplicaEnv) (ω : Choice) (tid : TxnId) : ReplicaM Unit := do
  let txn ← deref (← activePtr tid)
  let req ← deref (← read (·.pendingTxns.lookup tid))
  let reply : PrepareTransactionReply :=
    { tid := tid
      state := .prepareOk
      timestamp := txn.commitTs.timestamp
      shard := env.shardId
      replica := env.replicaId
      reachFaultTolerance := if env.cfg.mode = .carousel then 1 else 0 }
  if env.cfg.mode = .slow then
    if ω.sendOk 0 then do
      sendMessageToShard req.primaryShard (req.primaryShard % env.cfg.n)
        (.prepareTransactionReply reply)
      modifyPending tid fun req => { req with timer := some (.resendPrepareOk false) }
    else do
      erasePending tid
      eraseActive tid
  else if env.cfg.mode = .parallel ∧ req.hasPreCommit = false then pure ()
  else do
    let remote ← deref (← clientPtr tid)
    if ω.sendOk 0 then do
      sendMessage env remote (.prepareTransactionReply reply)
      modifyPending tid fun req => { req with timer := some (.resendPrepareOk true) }
    else do
      erasePending tid
      eraseActive tid
      eraseClient tid

/-- `HandleReplicateTransactionReply`: replies are collected by replica; a majority is
consensus. -/
def handleReplicateTransactionReply (env : ReplicaEnv) (ω : Choice)
    (msg : ReplicateTransactionReply) : ReplicaM Unit := do
  match ← read (·.pendingTxns.lookup msg.txnId) with
  | none => pure ()
  | some req =>
      if req.reachConsensus then pure ()
      else do
        let msgs := ((req.quorum.lookup msg.term).getD ∅).insert msg.replicaId msg
        modifyPending msg.txnId fun req => { req with quorum := req.quorum.insert msg.term msgs }
        if req.majority ≤ Table.size msgs then do
          modifyPending msg.txnId fun req => { req with
            reachConsensus := true
            finalResult := .prepareOk }
          emit (.consensus msg.txnId)
          handleConsensus env ω msg.txnId
        else pure ()

/-- `ResendPrepareOK`. -/
def resendPrepareOk (env : ReplicaEnv) (ω : Choice) (tid : TxnId) : ReplicaM Unit := do
  match ← read (·.pendingTxns.lookup tid) with
  | none => pure ()
  | some req =>
      let txn ← deref (← activePtr tid)
      let reply : PrepareTransactionReply :=
        { tid := tid
          state := .prepareOk
          timestamp := txn.commitTs.timestamp
          shard := env.shardId }
      if env.cfg.mode = .slow then
        when (ω.sendOk 0) do
          sendMessageToShard req.primaryShard (req.primaryShard % env.cfg.n)
            (.prepareTransactionReply reply)
          modifyPending tid fun req => { req with timer := some (.resendPrepareOk true) }
      else do
        let remote ← deref (← clientPtr tid)
        when (ω.sendOk 0) do
          sendMessage env remote (.prepareTransactionReply reply)
          modifyPending tid fun req => { req with timer := some (.resendPrepareOk true) }

/-! ### The decision -/

/-- `CascadeAbort`: abort the transaction in the store and, if it is pending, every active
transaction that read its writes. The calls nest along the `out` lists; a nesting deeper
than the number of active transactions never ends, and the process dies. -/
def cascadeAbort (env : ReplicaEnv) : ℕ → TxnId → ReplicaM Unit
  | 0, _ => crash
  | fuel + 1, tid => do
      withStore (·.abort tid)
      emit (.cascaded tid)
      match ← read (·.pendingTxns.lookup tid) with
      | none => pure ()
      | some _ =>
          let txn ← deref (← activePtr tid)
          txn.out.forM fun out => do
            match ← read (·.activeTxns.lookup out) with
            | some _ =>
                cascadeAbort env fuel out
                sendMessageToCoordinators env (.vote
                  { tid := tid, vote := .prepared, shard := env.shardId })
            | none => update fun s => { s with inDependency := s.inDependency.insert out (-1) }

/-- `notifyForFollowingDependenies`: the transactions that read the writes of a committed
one have one dependency less. The coordinator notified is that of the committed one. -/
def notifyForFollowingDependenies (env : ReplicaEnv) (tid : TxnId) : ReplicaM Unit := do
  match ← read (·.pendingTxns.lookup tid) with
  | none => pure ()
  | some req =>
      let txn ← deref (← activePtr tid)
      txn.out.forM fun out => do
        match ← read (·.activeTxns.lookup out) with
        | some ptr =>
            let outTxn ← deref ptr
            modifyActive out Transaction.decreaseIn
            when (outTxn.decreaseIn.inCount = 0) do
              sendMessageToCoordinator (req.primaryShard % env.cfg.n)
                (.notifyDependenciesAreCleared { tid := out, shard := env.shardId })
        | none =>
            update fun s => { s with
              inDependency := s.inDependency.insert out ((s.inDependency.lookup out).getD 0 - 1) }

/-- `notifyCommitToReplica`. The status is set at the log number `req->tid`. -/
def notifyCommitToReplica (env : ReplicaEnv) (ω : Choice) (req : PendingTransaction)
    (msg : CommitMsg) : ReplicaM Unit := do
  update fun s => { s with log := s.log.setStatus req.tid msg.state }
  let m : Msg := .replicateCommit
    { lsn := req.lsn, state := msg.state, tid := msg.tid, timestamp := msg.timestamp }
  if env.cfg.mode = .rc then
    req.participants.forM fun p => sendMessageToShard p env.replicaId m
  else do
    sendMessageToAll env m
    when (ω.sendOk 0) do
      modifyPending msg.tid fun req => { req with sendConfirms := true }

/-- `applyToStore`. Any state but commit and abort leaves the store alone. -/
def applyToStore (msg : CommitMsg) : ReplicaM Unit := do
  modifyPending msg.tid fun req => { req with reachCommitDecision := true }
  let txn ← activePtr msg.tid
  match msg.state with
  | .commit => do
      withStore (·.commit msg.tid msg.timestamp)
      emit (.applied msg.tid .commit msg.timestamp)
  | .abort => do
      let _ ← deref txn
      withStore (·.abort msg.tid)
      emit (.applied msg.tid .abort msg.timestamp)
  | _ => pure ()

/-- The rule for `applyToStore`: the pointer that it looks up counts for an abort only. -/
theorem wp_applyToStore {Q : Unit → Ctx Replica Addr Msg Event → Prop}
    {I D : Ctx Replica Addr Msg Event → Prop} {c : Ctx Replica Addr Msg Event} {msg : CommitMsg}
    (hmarked : I { c with
      state := mapPending msg.tid (fun req => { req with reachCommitDecision := true }) c.state })
    (hnull : ∀ z, I z → z.state.activeTxns.lookup msg.tid = none → I { z with
      state := { z.state with activeTxns := z.state.activeTxns.insert msg.tid none } })
    (hcommit : msg.state = .commit → ∀ z, I z → Q () { z with
      state := { z.state with store := z.state.store.commit msg.tid msg.timestamp }
      events := z.events ++ [.applied msg.tid .commit msg.timestamp] })
    (habort : msg.state = .abort → ∀ z, I z → Q () { z with
      state := { z.state with store := z.state.store.abort msg.tid }
      events := z.events ++ [.applied msg.tid .abort msg.timestamp] })
    (hdead : msg.state = .abort → ∀ z, I z → D z)
    (hrest : msg.state ≠ .commit → msg.state ≠ .abort → ∀ z, I z → Q () z) :
    wp (applyToStore msg) Q D c := by
  simp only [applyToStore, wp_bind, wp_modifyPending, wp_activePtr]
  refine ⟨fun ptr _ => ?_, fun hnone => ?_⟩
  · split
    · rename_i hstate
      exact hcommit hstate _ hmarked
    · rename_i hstate
      simp only [wp_bind, wp_deref, wp_withStore, wp_emit]
      exact ⟨fun _ _ => habort hstate _ hmarked, fun _ => hdead hstate _ hmarked⟩
    · rename_i hcom hab
      exact hrest hcom hab _ hmarked
  · have hz := hnull _ hmarked hnone
    split
    · rename_i hstate
      exact hcommit hstate _ hz
    · rename_i hstate
      simp only [wp_bind, wp_deref_none]
      exact hdead hstate _ hz
    · rename_i hcom hab
      exact hrest hcom hab _ hz

/-- `HandleCommit` tells the followers and the store, each once. -/
def carryOut (env : ReplicaEnv) (ω : Choice) (msg : CommitMsg) (req : PendingTransaction) :
    ReplicaM Unit := do
  when (!req.sendConfirms) (notifyCommitToReplica env ω req msg)
  when (!req.reachCommitDecision) (applyToStore msg)

/-- What `HandleCommit` does about the transactions that read the writes of a decided one.
The state of the message is compared with a `CommitResult`. -/
def settleDependents (env : ReplicaEnv) (msg : CommitMsg) : ReplicaM Unit :=
  if msg.state.code = CommitResult.commit.code then notifyForFollowingDependenies env msg.tid
  else do
    let active ← read (·.activeTxns)
    cascadeAbort env (Table.size active + 1) msg.tid

/-- `HandleCommit` of a leader forgets the transaction and keeps its outcome. -/
def retire (env : ReplicaEnv) (msg : CommitMsg) (txn : Option Transaction) : ReplicaM Unit := do
  erasePending msg.tid
  when (decide (env.cfg.mode ≠ .parallel)) do
    let _ ← deref txn
    pure ()
  eraseActive msg.tid
  update fun s => { s with
    committedTxns := s.committedTxns.insert msg.tid (msg.state, msg.timestamp) }

/-- `HandleCommit` of a leader for a pending transaction. -/
def commitPending (env : ReplicaEnv) (ω : Choice) (msg : CommitMsg) (req : PendingTransaction) :
    ReplicaM Unit :=
  if req.isParticipant = false then erasePending msg.tid
  else do
    let log ← read (·.log)
    let _ ← deref (log.find req.lsn)
    update fun s => { s with log := s.log.setTs req.lsn msg.timestamp }
    carryOut env ω msg req
    let txn ← activePtr msg.tid
    settleDependents env msg
    retire env msg txn

/-- `HandleCommit` of a leader. -/
def handleCommit (env : ReplicaEnv) (ω : Choice) (msg : CommitMsg) : ReplicaM Unit := do
  match ← read (·.pendingTxns.lookup msg.tid) with
  | none => pure ()
  | some req =>
      update fun s => { s with currentTs := max s.currentTs msg.timestamp }
      commitPending env ω msg req
      eraseClient msg.tid

/-- The store operation a follower carries out. -/
def replicateOutcome (msg : ReplicateCommit) : ReplicaM Unit :=
  match msg.state with
  | .commit => withStore (·.commit msg.tid msg.timestamp)
  | .abort => withStore (·.abort msg.tid)
  | _ => pure ()

/-- `HandleReplicateCommit` of a follower. -/
def handleReplicateCommit (env : ReplicaEnv) (msg : ReplicateCommit) : ReplicaM Unit := do
  if env.isLeader = true ∧ env.cfg.mode ≠ .rc then pure ()
  else do
    when (env.cfg.mode = .rc) do
      update fun s => { s with log := s.log.setStatus msg.lsn msg.state }
    match ← activePtr msg.tid with
    | none => pure ()
    | some _ => do
        replicateOutcome msg
        eraseActive msg.tid

/-- The rule for `handleReplicateCommit`: whoever has a pointer to the transaction carries the
outcome out and drops the pointer. -/
theorem wp_handleReplicateCommit {env : ReplicaEnv} {Q : Unit → Ctx Replica Addr Msg Event → Prop}
    {I D : Ctx Replica Addr Msg Event → Prop} {c : Ctx Replica Addr Msg Event}
    {msg : ReplicateCommit} (hlead : env.isLeader = true ∧ env.cfg.mode ≠ .rc → Q () c)
    (hrc : env.cfg.mode = .rc → I { c with
      state := { c.state with log := c.state.log.setStatus msg.lsn msg.state } })
    (hstay : ¬ (env.isLeader = true ∧ env.cfg.mode ≠ .rc) → env.cfg.mode ≠ .rc → I c)
    (hnull : ∀ z, I z → z.state.activeTxns.lookup msg.tid = none → Q () { z with
      state := { z.state with activeTxns := z.state.activeTxns.insert msg.tid none } })
    (hskip : ∀ z, I z → Q () z)
    (hfollow : ∀ z st, I z → st = z.state.store.commit msg.tid msg.timestamp ∨
        st = z.state.store.abort msg.tid ∨ st = z.state.store → Q () { z with
      state := { z.state with store := st, activeTxns := z.state.activeTxns.erase msg.tid } }) :
    wp (handleReplicateCommit env msg) Q D c := by
  simp only [handleReplicateCommit, wp_ite, wp_pure, wp_bind, wp_when, wp_update]
  refine ⟨hlead, fun hnot => ?_⟩
  have hbody : ∀ {z}, I z → ∀ p, z.state.activeTxns.lookup msg.tid = some (some p) →
      wp (replicateOutcome msg) (fun _ => wp (eraseActive msg.tid) Q D) D z := by
    intro z hz p _
    simp only [replicateOutcome]
    split
    · exact hfollow z _ hz (.inl rfl)
    · exact hfollow z _ hz (.inr (.inl rfl))
    · exact hfollow z _ hz (.inr (.inr rfl))
  constructor
  · intro hmode
    rw [wp_activePtr]
    refine ⟨fun p hp => ?_, hnull _ (hrc (of_decide_eq_true hmode))⟩
    cases p with
    | none => exact hskip _ (hrc (of_decide_eq_true hmode))
    | some txn =>
        simp only [wp_bind]
        exact hbody (hrc (of_decide_eq_true hmode)) txn hp
  · intro hmode
    have hz := hstay hnot (of_decide_eq_false hmode)
    rw [wp_activePtr]
    refine ⟨fun p hp => ?_, hnull _ hz⟩
    cases p with
    | none => exact hskip _ hz
    | some txn =>
        simp only [wp_bind]
        exact hbody hz txn hp

/-! ### Reads -/

/-- One key of `HandleRead`: the version to add to the reply, or failure. -/
def readKey (env : ReplicaEnv) (tid : TxnId) (key : Key) : ReplicaM (Option ReadKeyVersion) := do
  let rep ← read fun s => s.store.getUpcall env.cfg.mode tid key
  if rep.status = 0 then
    if env.cfg.mode = .parallel ∧ 0 < rep.dependency then do
      match ← activePtr rep.dependency with
      | none => pure (some { key := key, timestamp := rep.timestamp })
      | some dependent =>
          modifyActive rep.dependency (·.addOut tid)
          update fun s => { s with
            inDependency := s.inDependency.insert tid ((s.inDependency.lookup tid).getD 0 + 1) }
          match dependent.writeSet.lookup key with
          | some value => do
              emit (.served rep.dependency tid key)
              pure (some { key := key, value := value, timestamp := rep.timestamp })
          | none => pure (some { key := key, timestamp := rep.timestamp })
    else pure (some { key := key, value := rep.value, timestamp := rep.timestamp })
  else pure none

/-- The keys of a read in order, up to the first failure. -/
def readKeys (env : ReplicaEnv) (tid : TxnId) :
    List Key → ReplicaM (Bool × List ReadKeyVersion)
  | [] => pure (true, [])
  | key :: keys => do
      match ← readKey env tid key with
      | none => pure (false, [])
      | some v => do
          let (ok, vs) ← readKeys env tid keys
          pure (ok, v :: vs)

/-- `HandleRead`. -/
def handleRead (env : ReplicaEnv) (remote : Addr) (msg : GetData) : ReplicaM Unit := do
  let (success, keys) ← readKeys env msg.tid msg.keys
  sendMessage env remote (.getDataReply
    { tid := msg.tid
      keys := keys
      replicaId := env.replicaId
      state := if success then .ok else .fail })

/-! ### The parallel mode -/

/-- `HandleDecisionFromCoordinatorReplica` ends concurrency control early, or aborts. -/
def endConcurrencyControl (env : ReplicaEnv) (msg : NotifyDecision) (req : PendingTransaction) :
    ReplicaM Unit :=
  if msg.state = .prepared then withStore (·.preCommit req.tid)
  else do
    let active ← read (·.activeTxns)
    cascadeAbort env (Table.size active + 1) msg.tid
    erasePending msg.tid

/-- Dereference the pointer of an active transaction, if there is an entry for it. -/
def touchActive (tid : TxnId) : ReplicaM Unit := do
  match ← read (·.activeTxns.lookup tid) with
  | none => pure ()
  | some ptr => do
      let _ ← deref ptr
      pure ()

/-- `HandleDecisionFromCoordinatorReplica`. The outcome recorded is `LOG_STATE_COMMIT` in
either case. -/
def handleDecisionFromCoordinatorReplica (env : ReplicaEnv) (msg : NotifyDecision) :
    ReplicaM Unit := do
  match ← read (·.pendingTxns.lookup msg.tid) with
  | none => pure ()
  | some req =>
      endConcurrencyControl env msg req
      touchActive msg.tid
      update fun s => { s with
        committedTxns := s.committedTxns.insert msg.tid (.commit, msg.timestamp) }

/-- `HandleParallelCommitResult`: tell the client. -/
def handleParallelCommitResult (env : ReplicaEnv) (tid : TxnId) (timestamp : ℕ)
    (res : LogEntryState) : ReplicaM Unit := do
  match ← read (·.pendingTxns.lookup tid) with
  | none => pure ()
  | some _ =>
      let remote ← deref (← clientPtr tid)
      sendMessage env remote (.parallelModeCommitReply
        { tid := tid, state := res, timestamp := timestamp })
      eraseClient tid

/-- `HandleReplicateResultFromCoordinatorReplica`: the announcement is a commit, whatever
`replicatesuccess` says. -/
def handleReplicateResultFromCoordinatorReplica (env : ReplicaEnv) (ω : Choice)
    (msg : NotifyReplicateResult) : ReplicaM Unit := do
  handleParallelCommitResult env msg.tid msg.timestamp .commit
  handleCommit env ω { tid := msg.tid, state := .commit, timestamp := msg.timestamp }

/-- The placeholder of a transaction whose prepare has not arrived: `lsn` is `-1` and the
primary shard is not set. -/
def placeholder (env : ReplicaEnv) (ω : Choice) (tid : TxnId) : PendingTransaction where
  lsn := 2 ^ 64 - 1
  tid := tid
  majority := env.cfg.quorumSize
  finalResult := ω.garbageLogState
  timer := none
  participants := []
  primaryShard := ω.garbage
  parallelMode := true
  isParticipant := false

/-- `HandleParallelModeCommit`. -/
def handleParallelModeCommit (env : ReplicaEnv) (ω : Choice) (remote : Addr)
    (msg : ParallelModeCommit) : ReplicaM Unit := do
  match ← read (·.pendingTxns.lookup msg.tid) with
  | none =>
      update fun s => { s with
        pendingTxns := s.pendingTxns.insert msg.tid (placeholder env ω msg.tid)
        clientList := s.clientList.insert msg.tid (some remote) }
      sendMessageToCoordinator env.replicaId (.requestCommitResult
        { tid := msg.tid, participants := msg.participants })
  | some _ => modifyPending msg.tid fun req => { req with parallelMode := true }

/-! ### The slow mode -/

/-- One step of the hash of `key_to_shard`: the characters are signed bytes. -/
def hashStep (hash : ℕ) (b : UInt8) : ℕ :=
  (hash * 33 + if b < 128 then b.toNat else b.toNat + (2 ^ 64 - 256)) % 2 ^ 64

/-- `key_to_shard` of a replica. -/
def keyToShard (nshards : ℕ) (key : Key) : Shard :=
  key.toUTF8.data.toList.foldl hashStep 5381 % nshards

/-- The pieces `SendPrepare` builds: one for every participant, and one for every shard a
key hashes to. A write is entered with its value in the place of the key. -/
def prepareMessages (env : ReplicaEnv) (req : PendingPrepare) : Table Shard PrepareTransaction :=
  let pieces := req.participants.foldl (fun (t : Table Shard PrepareTransaction) p =>
    t.insert p { tid := req.tid, primaryShard := env.shardId }) ∅
  let pieces := req.txn.writeSet.toList.foldl (fun (t : Table Shard PrepareTransaction) w =>
    let shard := keyToShard env.cfg.nshards w.1
    let m := (t.lookup shard).getD { tid := 0 }
    t.insert shard { m with wset := m.wset ++ [(w.2, "")] }) pieces
  req.txn.readSet.toList.foldl (fun (t : Table Shard PrepareTransaction) r =>
    let shard := keyToShard env.cfg.nshards r.1
    let m := (t.lookup shard).getD { tid := 0 }
    t.insert shard { m with rset := m.rset ++ [⟨r.1, r.2.id, r.2.timestamp⟩] }) pieces

def mapPrepare (tid : TxnId) (f : PendingPrepare → PendingPrepare) (r : Replica) : Replica :=
  match r.pendingPrepares.lookup tid with
  | none => r
  | some req => { r with pendingPrepares := r.pendingPrepares.insert tid (f req) }

def modifyPrepare (tid : TxnId) (f : PendingPrepare → PendingPrepare) : ReplicaM Unit :=
  update (mapPrepare tid f)

def erasePrepare (tid : TxnId) : ReplicaM Unit :=
  update fun s => { s with pendingPrepares := s.pendingPrepares.erase tid }

section RoundRules

variable {Q : Unit → Ctx Replica Addr Msg Event → Prop} {D : Ctx Replica Addr Msg Event → Prop}
  {c : Ctx Replica Addr Msg Event}

@[simp] theorem wp_modifyPrepare (tid : TxnId) (f : PendingPrepare → PendingPrepare) :
    wp (modifyPrepare tid f) Q D c ↔ Q () { c with state := mapPrepare tid f c.state } := Iff.rfl

@[simp] theorem wp_erasePrepare (tid : TxnId) :
    wp (erasePrepare tid) Q D c ↔
      Q () { c with state := { c.state with
        pendingPrepares := c.state.pendingPrepares.erase tid } } := Iff.rfl

theorem mapPrepare_some {r : Replica} {tid : TxnId} {req : PendingPrepare}
    (hreq : r.pendingPrepares.lookup tid = some req) (f : PendingPrepare → PendingPrepare) :
    mapPrepare tid f r = { r with pendingPrepares := r.pendingPrepares.insert tid (f req) } := by
  simp only [mapPrepare, hreq]

end RoundRules

/-- `SendPrepare`. -/
def sendPrepare (env : ReplicaEnv) (ω : Choice) (tid : TxnId) : ReplicaM Unit := do
  let req ← deref (← read (·.pendingPrepares.lookup tid))
  (prepareMessages env req).toList.zipIdx.forM fun p => do
    let sendto := if env.cfg.mode = .slow then p.1.1 % env.cfg.n else env.replicaId
    if ω.sendOk p.2 then do
      sendMessageToShard p.1.1 sendto (.prepareTransaction p.1.2)
      modifyPrepare tid fun req => { req with timerArmed := true }
    else erasePrepare tid

/-- The transaction a `PrepareTransaction` describes. -/
def transactionOf (msg : PrepareTransaction) : Transaction where
  id := msg.tid
  writeSet := Table.ofList msg.wset
  readSet := Table.ofList (msg.rset.map fun r => (r.key, ⟨r.readTs, r.replica⟩))
  participants := msg.participants

/-- `HandlePrepare` at the primary shard. -/
def handlePrepare (env : ReplicaEnv) (ω : Choice) (remote : Addr) (msg : PrepareTransaction) :
    ReplicaM Unit := do
  update fun s => { s with
    prepareClientList := s.prepareClientList.insert msg.tid (some remote) }
  match ← read (·.pendingPrepares.lookup msg.tid) with
  | none =>
      update fun s => { s with
        pendingPrepares := s.pendingPrepares.insert msg.tid
          { tid := msg.tid
            txn := transactionOf msg
            participants := msg.participants
            finalDecision := ω.garbageLogState
            timerArmed := false } }
      sendPrepare env ω msg.tid
  | some _ => sendPrepare env ω msg.tid

/-- `ReachFinalDecision`: the loop stops at the first participant that did not reply
`LOG_STATE_PREPAREOK`; looking up one that did not reply enters the default state. -/
def reachFinalDecision (replies : Table Shard LogEntryState) :
    List Shard → Bool × Table Shard LogEntryState
  | [] => (true, replies)
  | p :: ps =>
      match replies.lookup p with
      | none => (false, replies.insert p .commit)
      | some st => if st = .prepareOk then reachFinalDecision replies ps else (false, replies)

/-- `ReachConsensusOnFinalDecision` of the RC mode: the decision of a majority of regions. -/
def reachConsensusOnFinalDecision (env : ReplicaEnv) (req : PendingPrepare) :
    Option LogEntryState :=
  let states := req.regionReplies.toList.map Prod.snd
  let okCount := states.count .prepareOk
  let failCount := states.length - okCount
  if env.cfg.quorumSize ≤ states.length then
    if env.cfg.quorumSize ≤ okCount then some .prepareOk
    else if env.cfg.quorumSize ≤ failCount then some .abort
    else none
  else none

/-- `prepareClientList[tid]`. -/
def prepareClientPtr (tid : TxnId) : ReplicaM (Option Addr) := do
  match ← read (·.prepareClientList.lookup tid) with
  | some p => pure p
  | none =>
      update fun s => { s with prepareClientList := s.prepareClientList.insert tid none }
      pure none

def erasePrepareClient (tid : TxnId) : ReplicaM Unit :=
  update fun s => { s with prepareClientList := s.prepareClientList.erase tid }

/-- `ReplyFinalDecision`: answer the client, then decide at the primary shard. -/
def replyFinalDecision (env : ReplicaEnv) (ω : Choice) (tid : TxnId) : ReplicaM Unit := do
  let req ← deref (← read (·.pendingPrepares.lookup tid))
  let reply : PrepareTransactionReply :=
    { tid := req.tid
      state := req.finalDecision
      timestamp := req.timestamp
      shard := env.shardId
      replica := env.replicaId }
  let remote ← deref (← prepareClientPtr req.tid)
  sendMessage env remote (.prepareTransactionReply reply)
  when (env.cfg.mode = .rc) do
    modifyPrepare tid fun req => { req with
      regionReplies := req.regionReplies.insert env.replicaId req.finalDecision }
    sendMessageToAll env (.prepareTransactionReply reply)
    when (ω.sendOk 0) do modifyPrepare tid fun req => { req with timerArmed := false }
  when (env.cfg.mode = .slow) do
    handleCommit env ω
      { tid := req.tid, state := req.finalDecision, timestamp := req.timestamp }
    erasePrepare req.tid
    erasePrepareClient req.tid

/-- `HandlePrepareTransactionReply` at the primary shard. -/
def handlePrepareTransactionReply (env : ReplicaEnv) (ω : Choice)
    (msg : PrepareTransactionReply) : ReplicaM Unit := do
  match ← read (·.pendingPrepares.lookup msg.tid) with
  | none => pure ()
  | some req =>
      if msg.shard = env.shardId ∧ msg.replica ≠ env.replicaId then do
        -- the decision of another region
        let req := { req with
          regionReplies := req.regionReplies.insert msg.replica msg.state
          timestamp := max req.timestamp msg.timestamp }
        modifyPrepare msg.tid fun _ => req
        match reachConsensusOnFinalDecision env req with
        | none => pure ()
        | some decision => do
            modifyPrepare msg.tid fun req => { req with
              timerArmed := false
              finalDecision := decision }
            handleCommit env ω { tid := req.tid, state := decision, timestamp := req.timestamp }
            erasePrepare req.tid
            erasePrepareClient req.tid
      else if msg.state = .prepareOk then
        if msg.shard ∈ req.participantReplies then pure ()
        else do
          let replies := req.participantReplies.insert msg.shard msg.state
          modifyPrepare msg.tid fun req => { req with
            participantReplies := replies
            timestamp := max req.timestamp msg.timestamp }
          if Table.size replies < req.participants.length then pure ()
          else do
            let (reached, replies) := reachFinalDecision replies req.participants
            modifyPrepare msg.tid fun req => { req with participantReplies := replies }
            if reached then do
              modifyPrepare msg.tid fun req => { req with
                timerArmed := false
                finalDecision := .prepareOk }
              emit (.finalDecision msg.tid)
              replyFinalDecision env ω msg.tid
            else pure ()
      else do
        modifyPrepare msg.tid fun req => { req with finalDecision := .abort }
        replyFinalDecision env ω msg.tid

/-! ### Prepare -/

/-- The conversion of the dependency counter to an unsigned number. -/
def toUnsigned (i : ℤ) : ℕ := (i % 2 ^ 64).toNat

/-- Send a `PrepareTransactionReply` where the mode wants it: to the leader of the primary
shard in the slow mode, else to the sender of the prepare. -/
def answerPrepare (env : ReplicaEnv) (remote : Addr) (msg : PrepareTransaction)
    (reply : PrepareTransactionReply) : ReplicaM Unit :=
  if env.cfg.mode = .slow then
    sendMessageToShard msg.primaryShard (msg.primaryShard % env.cfg.n)
      (.prepareTransactionReply reply)
  else sendMessage env remote (.prepareTransactionReply reply)

/-- The answer to a prepare that the concurrency control refuses. -/
def refusePrepare (env : ReplicaEnv) (remote : Addr) (msg : PrepareTransaction) : ReplicaM Unit :=
  sendMessage env remote (.prepareTransactionReply
    { tid := msg.tid
      state := .abort
      timestamp := 0
      shard := env.shardId
      replica := env.replicaId
      reachFaultTolerance := if env.cfg.mode = .carousel ∧ env.isLeader = true then 1 else 0 })

/-- The leader logs an accepted transaction and replicates the entry. -/
def logPrepare (env : ReplicaEnv) (ω : Choice) (remote : Addr) (txn : Transaction) :
    ReplicaM Unit := do
  update fun s => { s with
    clientList := s.clientList.insert txn.id (some remote)
    activeTxns := s.activeTxns.insert txn.id (some txn) }
  let added ← read (·.log.add 0 txn.id txn.writeSet .prepareOk txn.commitTs.timestamp)
  update fun s => { s with log := added.2 }
  emit (.logged added.1.id added.1)
  invokeReplicateTxn env ω added.1 (decide (0 < txn.inCount))

/-- What follows when the concurrency control accepts a prepare. -/
def acceptPrepare (env : ReplicaEnv) (ω : Choice) (remote : Addr) (txn : Transaction) :
    ReplicaM Unit :=
  let reply : PrepareTransactionReply :=
    { tid := txn.id
      state := .prepareOk
      timestamp := txn.commitTs.timestamp
      shard := env.shardId
      replica := env.replicaId }
  if env.cfg.mode = .rc ∧ ω.sendOk 1 = false then pure ()
  else do
    when (env.cfg.mode = .rc) do
      sendMessageToShard txn.primaryShard env.replicaId (.prepareTransactionReply reply)
    when (env.cfg.mode = .carousel) do
      sendMessage env remote (.prepareTransactionReply reply)
    when env.isLeader (logPrepare env ω remote txn)

/-- The same, recording whether the transaction was checked. -/
def acceptChecked (env : ReplicaEnv) (ω : Choice) (remote : Addr) (txn : Transaction)
    (doCheck : Bool) : ReplicaM Unit := do
  when doCheck (emit (.validated txn.id txn.writeSet))
  acceptPrepare env ω remote txn

/-- The concurrency control of `HandlePrepareTxn`, for a transaction that is neither decided
nor at consensus. -/
def prepareNew (env : ReplicaEnv) (ω : Choice) (remote : Addr) (msg : PrepareTransaction) :
    ReplicaM Unit := do
  update fun s => { s with currentTs := s.currentTs + 1 }
  let ts ← read (·.currentTs)
  let deps ← read fun s => (s.inDependency.lookup msg.tid).getD 0
  let txn : Transaction := { transactionOf msg with
    commitTs := ⟨ts, env.replicaId⟩
    primaryShard := msg.primaryShard
    inCount := toUnsigned deps }
  update fun s => { s with inDependency := s.inDependency.erase msg.tid }
  let doCheck := env.isLeader || decide (env.cfg.mode = .carousel) || decide (env.cfg.mode = .rc)
  let replicate ← read fun s => (s.store.prepareUpcall ω.clock msg.tid txn.serialize doCheck).1
  withStore fun st => (st.prepareUpcall ω.clock msg.tid txn.serialize doCheck).2
  if replicate = false then refusePrepare env remote msg
  else acceptChecked env ω remote txn doCheck

/-- `HandlePrepareTxn`. -/
def handlePrepareTxn (env : ReplicaEnv) (ω : Choice) (remote : Addr) (msg : PrepareTransaction) :
    ReplicaM Unit := do
  let prepares ← read (·.pendingPrepares)
  if (msg.mode = .slow ∨ msg.mode = .rc) ∧ msg.primaryShard = env.shardId ∧ msg.tid ∉ prepares then
    handlePrepare env ω remote msg
  else do
    let deps ← read (·.inDependency.lookup msg.tid)
    if deps = some (-1) then
      update fun s => { s with inDependency := s.inDependency.erase msg.tid }
    else do
      match ← read (·.committedTxns.lookup msg.tid) with
      | some (state, timestamp) =>
          answerPrepare env remote msg
            { tid := msg.tid, state := state, shard := env.shardId, timestamp := timestamp }
      | none =>
          match ← read (·.pendingTxns.lookup msg.tid) with
          | none => prepareNew env ω remote msg
          | some req =>
              if req.reachConsensus then do
                let txn ← deref (← activePtr msg.tid)
                answerPrepare env remote msg
                  { tid := msg.tid
                    state := req.finalResult
                    shard := env.shardId
                    timestamp := txn.commitTs.timestamp
                    replica := if env.cfg.mode = .carousel then env.replicaId else 0
                    reachFaultTolerance := if env.cfg.mode = .carousel then 1 else 0 }
              else prepareNew env ω remote msg

/-! ### Dispatch -/

/-- The timers of a replica. -/
inductive Timer where
  | pendingTxn (tid : TxnId)
  | pendingPrepare (tid : TxnId)
  deriving DecidableEq, Repr

/-- A timer fires; one that is not running does nothing. -/
def handleTimer (env : ReplicaEnv) (ω : Choice) : Timer → ReplicaM Unit
  | .pendingTxn tid => do
      match ← read (·.pendingTxns.lookup tid) with
      | none => pure ()
      | some req =>
          match req.timer with
          | some (.resendReplicateTxn true) => resendReplicateTxn env ω tid
          | some (.resendPrepareOk true) => resendPrepareOk env ω tid
          | _ => pure ()
  | .pendingPrepare tid => do
      match ← read (·.pendingPrepares.lookup tid) with
      | none => pure ()
      | some req => if req.timerArmed then sendPrepare env ω tid else pure ()

/-- `HandleMessage`; a message of another type kills the process. -/
def handleMessage (env : ReplicaEnv) (ω : Choice) (remote : Addr) : Msg → ReplicaM Unit
  | .replicateTransaction m => handleReplicateTransaction env ω remote m
  | .replicateTransactionReply m => handleReplicateTransactionReply env ω m
  | .prepareTransaction m => handlePrepareTxn env ω remote m
  | .prepareTransactionReply m => handlePrepareTransactionReply env ω m
  | .commit m => handleCommit env ω m
  | .replicateCommit m => handleReplicateCommit env m
  | .getData m => handleRead env remote m
  | .notifyDecision m => handleDecisionFromCoordinatorReplica env m
  | .notifyReplicateResult m => handleReplicateResultFromCoordinatorReplica env ω m
  | .parallelModeCommit m => handleParallelModeCommit env ω remote m
  | _ => crash

end Replica

end D2PC
