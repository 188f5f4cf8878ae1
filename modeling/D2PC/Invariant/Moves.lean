import D2PC.Invariant.Ops

/-!
# What a step of a replica can do, in every mode

`Replica.Move` lists the moves a message handler or timer of `LRReplica` is made of, each with
what the code knows when it makes it: the message at hand, the state the step started in, and
the tables it has just read. Unlike the operations of the direct modes the moves cover the
slow and the RC mode too, and tell apart what is sent: votes, answers from the table of
outcomes, final decisions, pieces of a transaction and entries of the log.

A transaction that is being decided (`D`) is written to before it is forgotten; where the
step returns it is not pending any more.

* `Replica.Dispatched`, `Replica.Executes` : the branches of `HandlePrepareTxn`;
* `Replica.Move`, `Replica.Moves` : one move, and a sequence of them;
* `Replica.handleInput_moves` : a step is such a sequence, in every mode.
-/

namespace D2PC

open Prog Ctx

/-- The messages that carry neither a piece or an entry of a transaction nor a vote, and name
no participants. -/
def Msg.casual : Msg → Prop
  | .prepareTransaction _ | .prepareTransactionReply _ | .replicateTransaction _
  | .replicateReplyAndVote _ | .requestCommitResult _ | .parallelModeCommit _
  | .notifyDecisionToPrimary _ => False
  | .vote m => m.participants = []
  | _ => True

/-- The events that tell neither of the log nor of the store. -/
def Event.remark : Event → Prop
  | .validated _ _ | .consensus _ | .finalDecision _ | .served _ _ _ => True
  | _ => False

namespace Replica

/-! ### The branches of a prepare -/

/-- The prepare is handed out to the participants. -/
def Dispatched (env : ReplicaEnv) (r : Replica) (m : PrepareTransaction) : Prop :=
  (m.mode = .slow ∨ m.mode = .rc) ∧ m.primaryShard = env.shardId ∧ m.tid ∉ r.pendingPrepares

/-- The prepare is given to the concurrency control. -/
structure Executes (env : ReplicaEnv) (r : Replica) (m : PrepareTransaction) : Prop where
  here : ¬ Dispatched env r m
  unmarked : r.inDependency.lookup m.tid ≠ some (-1)
  undecided : r.committedTxns.lookup m.tid = none
  waiting : ∀ req, r.pendingTxns.lookup m.tid = some req → req.reachConsensus = false

/-- The prepare is answered with a recorded outcome. -/
structure AnswersFrom (env : ReplicaEnv) (r : Replica) (m : PrepareTransaction)
    (x : LogEntryState × ℕ) : Prop where
  here : ¬ Dispatched env r m
  unmarked : r.inDependency.lookup m.tid ≠ some (-1)
  decided : r.committedTxns.lookup m.tid = some x

/-- The transaction the concurrency control gets. -/
def executed (env : ReplicaEnv) (r : Replica) (m : PrepareTransaction) : Transaction :=
  { transactionOf m with
    commitTs := ⟨r.currentTs + 1, env.replicaId⟩
    primaryShard := m.primaryShard
    inCount := toUnsigned ((r.inDependency.lookup m.tid).getD 0) }

/-- The entry a leader logs for a transaction. -/
def entryOf (l : Log) (txn : Transaction) : LogEntry × Log :=
  l.add 0 txn.id txn.writeSet .prepareOk txn.commitTs.timestamp

/-! ### Moves -/

/-- `R` is in the `out` list of the active transaction `T`. -/
def Follows (r : Replica) (T R : TxnId) : Prop :=
  ∃ txn, r.activeTxns.lookup T = some (some txn) ∧ R ∈ txn.out

/-- The message at hand is a read of `R`. -/
def Reads (input : Input Addr Msg Act) (R : TxnId) : Prop :=
  ∃ src dst m, input = .recv ⟨src, dst, .getData m⟩ ∧ m.tid = R

/-- A change that no table of transactions but the counters of active ones shows; a read may
enter its transaction in their `out` lists. -/
structure Quiet (input : Input Addr Msg Act) (r r' : Replica) : Prop where
  log : r'.log = r.log
  pending : r'.pendingTxns = r.pendingTxns
  prepares : r'.pendingPrepares = r.pendingPrepares
  active : ∀ tid, ActiveLike (r.activeTxns.lookup tid) (r'.activeTxns.lookup tid)
  outs : ∀ T R, r'.Follows T R → r.Follows T R ∨ Reads input R
  committed : r'.committedTxns = r.committedTxns
  store : r'.store = r.store

/-- What most writes to a pending transaction keep. A timer that was not running starts to
resend the vote only at consensus. -/
structure Touched (req req' : PendingTransaction) : Prop where
  lsn : req'.lsn = req.lsn
  tid : req'.tid = req.tid
  takesPart : req'.isParticipant = req.isParticipant
  participants : req'.participants = req.participants
  decision : req'.reachCommitDecision = req.reachCommitDecision
  consensus : req.reachConsensus = true → req'.reachConsensus = true
  replicating : ∀ b, req'.timer = some (.resendReplicateTxn b) →
    ∃ b, req.timer = some (.resendReplicateTxn b)
  reporting : ∀ b, req'.timer = some (.resendPrepareOk b) →
    (∃ b, req.timer = some (.resendPrepareOk b)) ∨ req.reachConsensus = true

/-- A prepare the primary shard hands out: it was pending when the step started, or it is
the one at hand. -/
def Known (env : ReplicaEnv) (r₀ : Replica) (input : Input Addr Msg Act) (tid : TxnId)
    (req : PendingPrepare) : Prop :=
  r₀.pendingPrepares.lookup tid = some req ∨
    ∃ src dst m, input = .recv ⟨src, dst, .prepareTransaction m⟩ ∧ Dispatched env r₀ m ∧
      req.tid = m.tid ∧ req.txn = transactionOf m ∧ req.participants = m.participants

/-- What a coordinator is told with the participants the message at hand names. -/
def Relays (input : Input Addr Msg Act) : Msg → Prop
  | .replicateReplyAndVote v => ∃ src dst m, input = .recv ⟨src, dst, .replicateTransaction m⟩ ∧
      v.tid = m.txnLog.txnId ∧ v.participants = m.participants
  | .requestCommitResult q => ∃ src dst m, input = .recv ⟨src, dst, .parallelModeCommit m⟩ ∧
      q.tid = m.tid ∧ q.participants = m.participants
  | _ => False

/-- **One move** of a step for `input` that started in the state `r₀`. -/
inductive Move (env : ReplicaEnv) (r₀ : Replica) (input : Input Addr Msg Act) (D : Option TxnId) :
    Ctx Replica Addr Msg Event → Ctx Replica Addr Msg Event → Prop
  | send (x) (ps : List Pkt) (hps : ∀ p ∈ ps, p.msg.casual) :
      Move env r₀ input D x { x with sent := x.sent ++ ps }
  | event (x) (e : Event) (he : e.remark) :
      Move env r₀ input D x { x with events := x.events ++ [e] }
  | quiet (x) (r : Replica) (hr : Quiet input x.state r) :
      Move env r₀ input D x { x with state := r }
  | forget (x) (tid : TxnId) :
      Move env r₀ input D x { x with state := { x.state with
        activeTxns := x.state.activeTxns.erase tid } }
  -- the log
  | copy (x) (src dst : Addr) (m : ReplicateTransaction) (clock : Clock) (txn : Transaction)
      (hm : input = .recv ⟨src, dst, .replicateTransaction m⟩)
      (hnew : x.state.log.find m.txnLog.lsn = none)
      (hwset : txn.writeSet = Table.ofList m.txnLog.wset)
      (hts : txn.commitTs.timestamp = m.txnLog.timestamp)
      (hlist : txn.participants = m.participants) :
      Move env r₀ input D x { x with
        state := { x.state with
          log := x.state.log.addProto m.txnLog
          activeTxns := x.state.activeTxns.insert m.txnLog.txnId (some txn)
          store := (x.state.store.prepareUpcall clock m.txnLog.txnId txn.serialize
            env.isLeader).2 }
        events := x.events ++ [.logged m.txnLog.lsn (Log.ofProto m.txnLog)] }
  | log (x) (remote dst : Addr) (m : PrepareTransaction) (sent : List Pkt)
      (hm : input = .recv ⟨remote, dst, .prepareTransaction m⟩) (hexec : Executes env r₀ m)
      (hlead : env.isLeader = true)
      (hsent : ∀ p ∈ sent, p ∈ x.sent ∨ ∃ r, p.msg = .prepareTransactionReply r ∧ r.tid = m.tid ∧
        r.shard = env.shardId ∧ r.timestamp = (executed env r₀ m).commitTs.timestamp) :
      Move env r₀ input D x {
        state := { x.state with
          clientList := x.state.clientList.insert m.tid (some remote)
          activeTxns := x.state.activeTxns.insert m.tid (some (executed env r₀ m))
          log := (entryOf x.state.log (executed env r₀ m)).2 }
        sent := sent
        events := x.events ++ [.logged (entryOf x.state.log (executed env r₀ m)).1.id
          (entryOf x.state.log (executed env r₀ m)).1] }
  | setTs (x) (tid : TxnId) (req : PendingTransaction) (ts : ℕ) (hD : D = some tid)
      (hreq : x.state.pendingTxns.lookup tid = some req) (hpart : req.isParticipant = true) :
      Move env r₀ input D x { x with state := { x.state with
        log := x.state.log.setTs req.lsn ts } }
  | setStatus (x) (lsn : ℕ) (state : LogEntryState) :
      Move env r₀ input D x { x with state := { x.state with
        log := x.state.log.setStatus lsn state } }
  -- pending transactions
  | enter (x) (tid : TxnId) (req : PendingTransaction) (hlead : env.isLeader = true)
      (hnone : x.state.pendingTxns.lookup tid = none)
      (hentry : ∃ e, x.state.log.find req.lsn = some e ∧ e.txn = tid ∧
        .logged req.lsn e ∈ x.events)
      (hopen : req.reachCommitDecision = false)
      (htimer : ∀ b, req.timer ≠ some (.resendPrepareOk b))
      (hlist : ∃ txn, x.state.activeTxns.lookup tid = some (some txn) ∧
        req.participants = txn.participants) :
      Move env r₀ input D x { x with state := { x.state with
        pendingTxns := x.state.pendingTxns.insert tid req } }
  | repair (x) (tid : TxnId) (req req' : PendingTransaction) (hlead : env.isLeader = true)
      (hreq : x.state.pendingTxns.lookup tid = some req) (hnone : req.timer = none)
      (hentry : ∃ e, x.state.log.find req'.lsn = some e ∧ e.txn = tid ∧
        .logged req'.lsn e ∈ x.events)
      (hopen : req'.reachCommitDecision = req.reachCommitDecision)
      (htimer : ∀ b, req'.timer ≠ some (.resendPrepareOk b))
      (hlist : ∃ txn, x.state.activeTxns.lookup tid = some (some txn) ∧
        req'.participants = txn.participants) :
      Move env r₀ input D x { x with state := { x.state with
        pendingTxns := x.state.pendingTxns.insert tid req' } }
  | place (x) (tid : TxnId) (req : PendingTransaction)
      (hnone : x.state.pendingTxns.lookup tid = none) (htimer : req.timer = none)
      (hpart : req.isParticipant = false) (hopen : req.reachCommitDecision = false)
      (hlist : req.participants = []) :
      Move env r₀ input D x { x with state := { x.state with
        pendingTxns := x.state.pendingTxns.insert tid req } }
  | touch (x) (tid : TxnId) (req req' : PendingTransaction)
      (hreq : x.state.pendingTxns.lookup tid = some req) (ht : Touched req req') :
      Move env r₀ input D x { x with state := { x.state with
        pendingTxns := x.state.pendingTxns.insert tid req' } }
  | decide (x) (tid : TxnId) (req : PendingTransaction) (hD : D = some tid)
      (hreq : x.state.pendingTxns.lookup tid = some req) :
      Move env r₀ input D x { x with state := { x.state with
        pendingTxns := x.state.pendingTxns.insert tid { req with reachCommitDecision := true } } }
  | drop (x) (tid : TxnId) :
      Move env r₀ input D x { x with state := { x.state with
        pendingTxns := x.state.pendingTxns.erase tid } }
  -- outcomes
  | record (x) (src dst : Addr) (m : NotifyDecision)
      (hm : input = .recv ⟨src, dst, .notifyDecision m⟩)
      (hpend : r₀.pendingTxns.lookup m.tid ≠ none) :
      Move env r₀ input D x { x with state := { x.state with
        committedTxns := x.state.committedTxns.insert m.tid (.commit, m.timestamp) } }
  | retire (x) (tid : TxnId) (state : LogEntryState) (ts : ℕ) (hD : D = some tid)
      (hdone : state = .commit ∨ state = .abort → .applied tid state ts ∈ x.events ∨
        ∃ req, r₀.pendingTxns.lookup tid = some req ∧ req.reachCommitDecision = true) :
      Move env r₀ input D x { x with state := { x.state with
        committedTxns := x.state.committedTxns.insert tid (state, ts) } }
  -- the store
  | prepare (x) (src dst : Addr) (m : PrepareTransaction) (clock : Clock) (doCheck : Bool)
      (hm : input = .recv ⟨src, dst, .prepareTransaction m⟩) (hexec : Executes env r₀ m)
      (hfirst : x.state.store = r₀.store) :
      Move env r₀ input D x { x with state := { x.state with
        store := (x.state.store.prepareUpcall clock m.tid (executed env r₀ m).serialize
          doCheck).2 } }
  | preCommit (x) (tid : TxnId) :
      Move env r₀ input D x { x with state := { x.state with
        store := x.state.store.preCommit tid } }
  | commit (x) (tid : TxnId) (ts : ℕ) :
      Move env r₀ input D x { x with
        state := { x.state with store := x.state.store.commit tid ts }
        events := x.events ++ [.applied tid .commit ts] }
  | abort (x) (tid : TxnId) (ts : ℕ) :
      Move env r₀ input D x { x with
        state := { x.state with store := x.state.store.abort tid }
        events := x.events ++ [.applied tid .abort ts] }
  | cascade (x) (tid : TxnId) :
      Move env r₀ input D x { x with
        state := { x.state with store := x.state.store.abort tid }
        events := x.events ++ [.cascaded tid] }
  | follow (x) (tid : TxnId) (s : TxnStore)
      (hs : s = x.state.store.abort tid ∨ ∃ ts, s = x.state.store.commit tid ts) :
      Move env r₀ input D x { x with state := { x.state with store := s } }
  -- the primary shard of the slow modes
  | openPrepare (x) (src dst : Addr) (m : PrepareTransaction) (req : PendingPrepare)
      (hm : input = .recv ⟨src, dst, .prepareTransaction m⟩) (hdisp : Dispatched env r₀ m)
      (htid : req.tid = m.tid) (htxn : req.txn = transactionOf m)
      (hps : req.participants = m.participants) :
      Move env r₀ input D x { x with state := { x.state with
        pendingPrepares := x.state.pendingPrepares.insert m.tid req } }
  | touchPrepare (x) (tid : TxnId) (req req' : PendingPrepare)
      (hreq : x.state.pendingPrepares.lookup tid = some req) (htid : req'.tid = req.tid)
      (htxn : req'.txn = req.txn) (hps : req'.participants = req.participants) :
      Move env r₀ input D x { x with state := { x.state with
        pendingPrepares := x.state.pendingPrepares.insert tid req' } }
  | closePrepare (x) (tid : TxnId) :
      Move env r₀ input D x { x with state := { x.state with
        pendingPrepares := x.state.pendingPrepares.erase tid } }
  -- what is sent about a transaction
  | replicate (x) (tid : TxnId) (req : PendingTransaction) (ps : List Pkt)
      (hD : D = none) (hmode : env.cfg.mode ≠ .rc)
      (hreq : x.state.pendingTxns.lookup tid = some req)
      (hopen : req.reachConsensus = false ∨ ∃ b, req.timer = some (.resendReplicateTxn b))
      (htimer : req.timer ≠ none)
      (hps : ∀ p ∈ ps, ∃ i m, p = ⟨env.addr, .replica env.shardId i, .replicateTransaction m⟩ ∧
        m.txnLog = x.state.log.entryToProto req.lsn ∧ m.participants = req.participants) :
      Move env r₀ input D x { x with sent := x.sent ++ ps }
  | relay (x) (src dst : Addr) (m : Msg) (hm : Relays input m) :
      Move env r₀ input D x { x with sent := x.sent ++ [⟨src, dst, m⟩] }
  | report (x) (tid : TxnId) (txn : Transaction) (src dst : Addr) (r : PrepareTransactionReply)
      (htxn : x.state.activeTxns.lookup tid = some (some txn)) (htid : r.tid = tid)
      (hshard : r.shard = env.shardId) (hsrc : src = env.addr ∨ src = .sendOnly)
      (hts : r.timestamp = txn.commitTs.timestamp) :
      Move env r₀ input D x { x with sent := x.sent ++ [⟨src, dst, .prepareTransactionReply r⟩] }
  | vote (x) (sent : List Pkt) (hfollow : env.isLeader = false)
      (hsent : ∀ p ∈ sent, p ∈ x.sent ∨ ((env.cfg.mode = .carousel ∧ p.src = env.addr ∨
        env.cfg.mode = .rc) ∧ ∃ r, p.msg = .prepareTransactionReply r)) :
      Move env r₀ input D x { x with sent := sent }
  | refuse (x) (dst : Addr) (r : PrepareTransactionReply) (hr : r.state = .abort) :
      Move env r₀ input D x { x with
        sent := x.sent ++ [⟨env.addr, dst, .prepareTransactionReply r⟩] }
  | answer (x) (remote dst : Addr) (m : PrepareTransaction) (y : LogEntryState × ℕ) (p : Pkt)
      (r : PrepareTransactionReply) (hm : input = .recv ⟨remote, dst, .prepareTransaction m⟩)
      (hans : AnswersFrom env r₀ m y) (hp : p.msg = .prepareTransactionReply r)
      (hstate : r.state = y.1) :
      Move env r₀ input D x { x with sent := x.sent ++ [p] }
  | final (x) (ps : List Pkt) (tid : TxnId) (hknown : r₀.pendingPrepares.lookup tid ≠ none)
      (hps : ∀ p ∈ ps, p.src = env.addr ∧ ∃ r, p.msg = .prepareTransactionReply r) :
      Move env r₀ input D x { x with sent := x.sent ++ ps }
  | piece (x) (tid : TxnId) (req : PendingPrepare) (s : Shard) (i : ℕ) (m : PrepareTransaction)
      (hreq : Known env r₀ input tid req) (hpiece : (s, m) ∈ (prepareMessages env req).toList) :
      Move env r₀ input D x { x with
        sent := x.sent ++ [⟨.sendOnly, .replica s i, .prepareTransaction m⟩] }

/-- A sequence of moves. -/
abbrev Moves (env : ReplicaEnv) (r₀ : Replica) (input : Input Addr Msg Act) (D : Option TxnId) :
    Ctx Replica Addr Msg Event → Ctx Replica Addr Msg Event → Prop :=
  Relation.ReflTransGen (Move env r₀ input D)

variable {env : ReplicaEnv} {r₀ : Replica} {input : Input Addr Msg Act} {D : Option TxnId}
  {x₀ x : Ctx Replica Addr Msg Event} {ω : Choice}

/-- One more move. -/
theorem Moves.step (hx : Moves env r₀ input D x₀ x) {y : Ctx Replica Addr Msg Event}
    (hy : Move env r₀ input D x y) : Moves env r₀ input D x₀ y :=
  hx.tail hy

/-- What was recorded stays recorded. -/
theorem Moves.events (h : Moves env r₀ input D x₀ x) {e : Event} (he : e ∈ x₀.events) :
    e ∈ x.events := by
  induction h with
  | refl => exact he
  | tail _ hmove ih =>
      cases hmove with
      | event => exact List.mem_append_left _ ih
      | copy => exact List.mem_append_left _ ih
      | log => exact List.mem_append_left _ ih
      | commit => exact List.mem_append_left _ ih
      | abort => exact List.mem_append_left _ ih
      | cascade => exact List.mem_append_left _ ih
      | _ => exact ih

/-! ### The primitives -/

section Primitives

variable (hx : Moves env r₀ input D x₀ x)
include hx

theorem Moves.send (ps : List Pkt) (hps : ∀ p ∈ ps, p.msg.casual) :
    Moves env r₀ input D x₀ { x with sent := x.sent ++ ps } :=
  hx.step (.send x ps hps)

theorem Moves.send_one {p : Pkt} (hp : p.msg.casual) :
    Moves env r₀ input D x₀ { x with sent := x.sent ++ [p] } :=
  hx.send [p] fun q hq => by rw [List.mem_singleton.1 hq]; exact hp

theorem Moves.event {e : Event} (he : e.remark) :
    Moves env r₀ input D x₀ { x with events := x.events ++ [e] } :=
  hx.step (.event x e he)

theorem Moves.clients (t : Table TxnId (Option Addr)) :
    Moves env r₀ input D x₀ { x with state := { x.state with clientList := t } } :=
  hx.step (.quiet x _ ⟨rfl, rfl, rfl, fun _ => rfl, fun _ _ => .inl, rfl, rfl⟩)

theorem Moves.prepareClients (t : Table TxnId (Option Addr)) :
    Moves env r₀ input D x₀ { x with state := { x.state with prepareClientList := t } } :=
  hx.step (.quiet x _ ⟨rfl, rfl, rfl, fun _ => rfl, fun _ _ => .inl, rfl, rfl⟩)

theorem Moves.clock (ts : ℕ) :
    Moves env r₀ input D x₀ { x with state := { x.state with currentTs := ts } } :=
  hx.step (.quiet x _ ⟨rfl, rfl, rfl, fun _ => rfl, fun _ _ => .inl, rfl, rfl⟩)

theorem Moves.deps (t : Table TxnId ℤ) :
    Moves env r₀ input D x₀ { x with state := { x.state with inDependency := t } } :=
  hx.step (.quiet x _ ⟨rfl, rfl, rfl, fun _ => rfl, fun _ _ => .inl, rfl, rfl⟩)

/-- A missing pointer becomes a null pointer. -/
theorem Moves.nullActive {tid : TxnId} (hnone : x.state.activeTxns.lookup tid = none) :
    Moves env r₀ input D x₀ { x with state := { x.state with
      activeTxns := x.state.activeTxns.insert tid none } } := by
  refine hx.step (.quiet x _ ⟨rfl, rfl, rfl, fun T => ?_, fun T R => ?_, rfl, rfl⟩)
  · rw [ActiveLike, Table.lookup_insert_eq]
    split_ifs with heq
    · rw [heq, hnone]
      rfl
    · rfl
  · rintro ⟨txn, htxn, hR⟩
    rw [Table.lookup_insert_eq] at htxn
    split_ifs at htxn
    · cases htxn
    · exact .inl ⟨txn, htxn, hR⟩

/-- Counters of any transaction may change. -/
theorem Moves.mapActive (tid : TxnId) {f : Transaction → Transaction}
    (hf : ∀ t, (f t).core = t.core) (hout : ∀ t, ∀ R ∈ (f t).out, R ∈ t.out ∨ Reads input R) :
    Moves env r₀ input D x₀ { x with state := Replica.mapActive tid f x.state } := by
  unfold Replica.mapActive
  split
  · rename_i txn htxn
    refine hx.step (.quiet x _ ⟨rfl, rfl, rfl, fun T => ?_, fun T R => ?_, rfl, rfl⟩)
    · rw [ActiveLike, Table.lookup_insert_eq]
      split_ifs with heq
      · rw [heq, htxn]
        simp only [Option.join_some, Option.map_some, hf]
      · rfl
    · rintro ⟨txn', htxn', hR⟩
      rw [Table.lookup_insert_eq] at htxn'
      split_ifs at htxn' with heq
      · cases htxn'
        exact (hout txn R hR).imp_left fun hR => ⟨txn, heq ▸ htxn, hR⟩
      · exact .inl ⟨txn', htxn', hR⟩
  · exact hx

theorem Moves.forget (tid : TxnId) :
    Moves env r₀ input D x₀ { x with state := { x.state with
      activeTxns := x.state.activeTxns.erase tid } } :=
  hx.step (.forget x tid)

theorem Moves.drop (tid : TxnId) :
    Moves env r₀ input D x₀ { x with state := { x.state with
      pendingTxns := x.state.pendingTxns.erase tid } } :=
  hx.step (.drop x tid)

/-- A write to a pending transaction, if there is one. -/
theorem Moves.touch (tid : TxnId) {f : PendingTransaction → PendingTransaction}
    (hf : ∀ req, x.state.pendingTxns.lookup tid = some req → Touched req (f req)) :
    Moves env r₀ input D x₀ { x with state := mapPending tid f x.state } := by
  unfold mapPending
  split
  · exact hx
  · rename_i req hreq
    exact hx.step (.touch x tid req (f req) hreq (hf req hreq))

theorem Moves.touchPrepare (tid : TxnId) {f : PendingPrepare → PendingPrepare}
    (hf : ∀ req, x.state.pendingPrepares.lookup tid = some req →
      (f req).tid = req.tid ∧ (f req).txn = req.txn ∧ (f req).participants = req.participants) :
    Moves env r₀ input D x₀ { x with state := mapPrepare tid f x.state } := by
  unfold mapPrepare
  split
  · exact hx
  · rename_i req hreq
    obtain ⟨h₁, h₂, h₃⟩ := hf req hreq
    exact hx.step (.touchPrepare x tid req (f req) hreq h₁ h₂ h₃)

theorem Moves.closePrepare (tid : TxnId) :
    Moves env r₀ input D x₀ { x with state := { x.state with
      pendingPrepares := x.state.pendingPrepares.erase tid } } :=
  hx.step (.closePrepare x tid)

end Primitives

/-- A program that is a sequence of moves. -/
abbrev Made (env : ReplicaEnv) (r₀ : Replica) (input : Input Addr Msg Act) (D : Option TxnId)
    (x₀ : Ctx Replica Addr Msg Event) {α : Type} (p : ReplicaM α)
    (x : Ctx Replica Addr Msg Event) : Prop :=
  wp p (fun _ => Moves env r₀ input D x₀) (Moves env r₀ input D x₀) x

/-! ### Replication -/

/-- The entry is sent while the transaction is replicated. -/
theorem replicateTxn_moves (hx : Moves env r₀ input none x₀ x) {tid : TxnId}
    (hmode : env.cfg.mode ≠ .rc)
    (hpend : ∀ req, x.state.pendingTxns.lookup tid = some req → req.timer ≠ none ∧
      (req.reachConsensus = false ∨ ∃ b, req.timer = some (.resendReplicateTxn b))) :
    Made env r₀ input none x₀ (replicateTxn env ω tid) x := by
  simp only [Made, replicateTxn, wp_bind, wp_read, wp_deref, wp_sendMessageToAll, wp_ite,
    wp_erasePending]
  refine ⟨fun req hreq => ?_, fun _ => hx⟩
  obtain ⟨htimer, hopen⟩ := hpend req hreq
  have hx₁ := hx.step (.replicate x tid req ((List.range env.cfg.n).map fun i =>
    ⟨env.addr, .replica env.shardId i, .replicateTransaction
      { txnLog := x.state.log.entryToProto req.lsn
        term := 0
        replicaId := env.replicaId
        primaryCoordinator := req.primaryShard % env.cfg.n
        participants := req.participants
        primaryShard := req.primaryShard
        vote := .prepareOk
        hasPreCommit := req.hasPreCommit }⟩) rfl hmode hreq hopen htimer fun p hp => by
    obtain ⟨i, _, rfl⟩ := List.mem_map.1 hp
    exact ⟨i, _, rfl, rfl, rfl⟩)
  refine ⟨fun _ => ?_, fun _ => hx₁.drop tid⟩
  split
  · rename_i hnone
    exact absurd hnone htimer
  · rename_i b hb
    refine hx₁.touch tid fun req' hreq' => ?_
    obtain rfl : req = req' := Option.some.inj (hreq.symm.trans hreq')
    exact ⟨rfl, rfl, rfl, rfl, rfl, id, fun _ _ => ⟨b, hb⟩, fun _ h => by cases h⟩
  · rename_i b hb
    refine hx₁.touch tid fun req' hreq' => ?_
    obtain rfl : req = req' := Option.some.inj (hreq.symm.trans hreq')
    exact ⟨rfl, rfl, rfl, rfl, rfl, id, (fun _ h => by cases h), fun _ _ => .inl ⟨b, hb⟩⟩

theorem resendReplicateTxn_moves (hx : Moves env r₀ input none x₀ x) {tid : TxnId}
    (hpend : env.cfg.mode ≠ .rc → ∀ req, x.state.pendingTxns.lookup tid = some req →
      req.timer ≠ none ∧ (req.reachConsensus = false ∨
        ∃ b, req.timer = some (.resendReplicateTxn b))) :
    Made env r₀ input none x₀ (resendReplicateTxn env ω tid) x := by
  simp only [Made, resendReplicateTxn, wp_ite, wp_pure]
  exact ⟨fun _ => hx, fun hmode => replicateTxn_moves hx hmode (hpend hmode)⟩

/-- An entry of the log is replicated. -/
theorem invokeReplicateTxn_moves (hx : Moves env r₀ input none x₀ x) {entry : LogEntry}
    (hlead : env.isLeader = true) (hentry : x.state.log.find entry.id = some entry)
    (hlogged : .logged entry.id entry ∈ x.events)
    (hopen : ∀ req, x.state.pendingTxns.lookup entry.txn = some req → req.reachConsensus = false)
    (pre : Bool) : Made env r₀ input none x₀ (invokeReplicateTxn env ω entry pre) x := by
  simp only [Made, invokeReplicateTxn, wp_bind, wp_read]
  split
  · rename_i hnone
    simp only [wp_bind, wp_derefActive, wp_update, wp_ite, wp_pure]
    refine ⟨fun txn htxn => ?_, fun _ => hx, hx.nullActive⟩
    have hx₁ := hx.step (.enter x entry.txn
      { lsn := entry.id
        tid := entry.txn
        majority := env.cfg.quorumSize
        finalResult := ω.garbageLogState
        timer := if env.cfg.mode = .rc then none else some (.resendReplicateTxn false)
        participants := txn.participants
        primaryShard := txn.primaryShard
        hasPreCommit := pre } hlead hnone ⟨entry, hentry, rfl, hlogged⟩ rfl
        (fun b => by split_ifs <;> (intro h; cases h)) ⟨txn, htxn, rfl⟩)
    refine ⟨fun _ => hx₁, fun hmode => replicateTxn_moves hx₁ hmode fun req hreq => ?_⟩
    rw [AList.lookup_insert] at hreq
    cases hreq
    rw [if_neg hmode]
    exact ⟨(fun h => by cases h), .inl rfl⟩
  · rename_i req hreq
    simp only [wp_bind, wp_derefActive, wp_modifyPending, wp_ite]
    refine ⟨fun hfirst => ⟨fun txn htxn => ?_, fun _ => hx, hx.nullActive⟩, fun hnot => ?_⟩
    · rw [mapPending_some hreq]
      have hx₁ := hx.step (.repair x entry.txn req { req with
        timer := some (.resendReplicateTxn false)
        lsn := entry.id
        majority := env.cfg.quorumSize
        participants := txn.participants
        primaryShard := txn.primaryShard
        hasPreCommit := pre } hlead hreq hfirst.2 ⟨entry, hentry, rfl, hlogged⟩ rfl (fun _ h => by cases h)
        ⟨txn, htxn, rfl⟩)
      refine replicateTxn_moves hx₁ hfirst.1 fun req' hreq' => ?_
      rw [AList.lookup_insert] at hreq'
      cases hreq'
      exact ⟨(fun h => by cases h), .inr ⟨false, rfl⟩⟩
    · refine resendReplicateTxn_moves hx fun hmode req' hreq' => ?_
      obtain rfl : req = req' := Option.some.inj (hreq.symm.trans hreq')
      exact ⟨fun htimer => hnot ⟨hmode, htimer⟩, .inl (hopen req hreq)⟩

theorem handleReplicateTransaction_moves (hx : Moves env r₀ input D x₀ x)
    {msg : ReplicateTransaction} {remote dst : Addr}
    (hin : input = .recv ⟨remote, dst, .replicateTransaction msg⟩) :
    Made env r₀ input D x₀ (handleReplicateTransaction env ω remote msg) x := by
  have hsend : ∀ {y}, Moves env r₀ input D x₀ y → Made env r₀ input D x₀ (do
      sendMessage env remote (.replicateTransactionReply
        { lsn := msg.txnLog.lsn, term := 0, replicaId := env.replicaId,
          txnId := msg.txnLog.txnId })
      when (env.cfg.mode = .parallel) do
        sendMessageToCoordinator env.replicaId (.replicateReplyAndVote
          { tid := msg.txnLog.txnId
            shard := env.shardId
            replica := env.replicaId
            vote := if msg.vote = .prepareOk then .prepared else .commit
            participants := msg.participants
            primaryShard := msg.primaryShard
            primaryCoordinator := msg.primaryCoordinator
            hasPreCommit := msg.hasPreCommit })) y := by
    intro y hy
    simp only [Made, wp_bind, wp_sendMessage, wp_when, wp_sendMessageToCoordinator]
    refine ⟨fun _ => ?_, fun _ => hy.send_one (by trivial)⟩
    exact (hy.send_one (by trivial)).step (.relay _ _ _ _ ⟨remote, dst, msg, hin, rfl, rfl⟩)
  have hx₁ := hx.clock (max x.state.currentTs msg.txnLog.timestamp)
  rw [Made, handleReplicateTransaction, wp_bind, wp_update, wp_bind, wp_read, wp_bind, wp_when]
  refine ⟨fun hnew => ?_, fun _ => hsend hx₁⟩
  simp only [wp_bind, wp_update, wp_emit, wp_withStore]
  exact hsend (hx₁.step (.copy _ remote dst msg ω.clock
    { id := msg.txnLog.txnId
      commitTs := ⟨msg.txnLog.timestamp, msg.replicaId⟩
      writeSet := Table.ofList msg.txnLog.wset
      participants := msg.participants } hin (Option.isNone_iff_eq_none.1 hnew) rfl rfl rfl))

/-! ### Votes -/

/-- A vote tells the timestamp of the active transaction. -/
theorem Moves.report (hx : Moves env r₀ input D x₀ x) {tid : TxnId} {txn : Transaction}
    {src dst : Addr} {r : PrepareTransactionReply}
    (htxn : x.state.activeTxns.lookup tid = some (some txn)) (htid : r.tid = tid)
    (hshard : r.shard = env.shardId) (hsrc : src = env.addr ∨ src = .sendOnly)
    (hts : r.timestamp = txn.commitTs.timestamp) :
    Moves env r₀ input D x₀ { x with
      sent := x.sent ++ [⟨src, dst, .prepareTransactionReply r⟩] } :=
  hx.step (.report x tid txn src dst r htxn htid hshard hsrc hts)

/-- The timer resends the vote of a transaction that is at consensus. -/
theorem Moves.resend (hx : Moves env r₀ input D x₀ x) {tid : TxnId} (b : Bool)
    (hpend : ∀ req, x.state.pendingTxns.lookup tid = some req → req.reachConsensus = true ∨
      ∃ b, req.timer = some (.resendPrepareOk b)) :
    Moves env r₀ input D x₀ { x with state := mapPending tid (fun req =>
      { req with timer := some (.resendPrepareOk b) }) x.state } := by
  refine hx.touch tid fun req hreq => ⟨rfl, rfl, rfl, rfl, rfl, id, (fun _ h => by cases h), fun _ _ => ?_⟩
  exact (hpend req hreq).symm

theorem handleConsensus_moves (hx : Moves env r₀ input D x₀ x) {tid : TxnId}
    (hpend : ∀ req, x.state.pendingTxns.lookup tid = some req → req.reachConsensus = true) :
    Made env r₀ input D x₀ (handleConsensus env ω tid) x := by
  simp only [Made, handleConsensus, wp_bind, wp_derefActive, wp_read]
  refine ⟨fun txn htxn => ?_, fun _ => hx, hx.nullActive⟩
  cases hreq : x.state.pendingTxns.lookup tid with
  | none => exact hx
  | some req =>
      have hresend : ∀ {y : Ctx Replica Addr Msg Event} (b : Bool), Moves env r₀ input D x₀ y →
          y.state.pendingTxns = x.state.pendingTxns → Moves env r₀ input D x₀ { y with
            state := mapPending tid (fun req => { req with timer := some (.resendPrepareOk b) })
              y.state } := by
        intro y b hy hsame
        refine hy.resend b fun req' hreq' => .inl (hpend req' ?_)
        rw [← hsame]
        exact hreq'
      simp only [wp_deref_some, wp_ite, wp_pure, wp_bind, wp_derefClient, wp_sendMessageToShard,
        wp_modifyPending, wp_erasePending, wp_eraseActive, wp_sendMessage, wp_eraseClient]
      refine ⟨fun _ => ⟨fun _ => ?_, fun _ => (hx.drop tid).forget tid⟩, fun _ => ⟨fun _ => hx,
        fun _ => ⟨fun a _ => ⟨fun _ => ?_, fun _ => ((hx.drop tid).forget tid).clients _⟩,
          fun _ => hx, fun _ => hx.clients _⟩⟩⟩
      · exact hresend false (hx.report htxn rfl rfl (.inr rfl) rfl) rfl
      · exact hresend true (hx.report htxn rfl rfl (.inl rfl) rfl) rfl

theorem lookup_mapPending (tid : TxnId) (f : PendingTransaction → PendingTransaction)
    (r : Replica) :
    (mapPending tid f r).pendingTxns.lookup tid = (r.pendingTxns.lookup tid).map f := by
  unfold mapPending
  split
  · rename_i hnone
    rw [hnone]
    rfl
  · rename_i req hreq
    rw [hreq]
    exact AList.lookup_insert _

theorem handleReplicateTransactionReply_moves (hx : Moves env r₀ input D x₀ x)
    (msg : ReplicateTransactionReply) :
    Made env r₀ input D x₀ (handleReplicateTransactionReply env ω msg) x := by
  simp only [Made, handleReplicateTransactionReply, wp_bind, wp_read]
  split
  · exact hx
  · rename_i req hreq
    simp only [wp_bind, wp_ite, wp_pure, wp_modifyPending, wp_emit]
    have hx₁ := hx.touch msg.txnId (f := fun req' => { req' with
      quorum := req'.quorum.insert msg.term (((req.quorum.lookup msg.term).getD ∅).insert
        msg.replicaId msg) }) fun _ _ => ⟨rfl, rfl, rfl, rfl, rfl, id, fun _ hb => ⟨_, hb⟩,
          fun _ hb => .inl ⟨_, hb⟩⟩
    have hx₂ := hx₁.touch msg.txnId (f := fun req => { req with
      reachConsensus := true
      finalResult := .prepareOk }) fun _ _ => ⟨rfl, rfl, rfl, rfl, rfl, fun _ => rfl,
        fun _ hb => ⟨_, hb⟩, fun _ hb => .inl ⟨_, hb⟩⟩
    refine ⟨fun _ => hx, fun _ => ⟨fun _ => ?_, fun _ => hx₁⟩⟩
    refine handleConsensus_moves (hx₂.event (e := .consensus msg.txnId) trivial)
      fun req' hreq' => ?_
    rw [lookup_mapPending] at hreq'
    obtain ⟨_, _, rfl⟩ := Option.map_eq_some_iff.1 hreq'
    rfl

theorem resendPrepareOk_moves (hx : Moves env r₀ input D x₀ x) {tid : TxnId}
    (hpend : ∀ req, x.state.pendingTxns.lookup tid = some req →
      ∃ b, req.timer = some (.resendPrepareOk b)) :
    Made env r₀ input D x₀ (resendPrepareOk env ω tid) x := by
  simp only [Made, resendPrepareOk, wp_bind, wp_read]
  split
  · exact hx
  · simp only [wp_bind, wp_derefActive, wp_ite, wp_when, wp_derefClient, wp_sendMessageToShard,
      wp_sendMessage, wp_modifyPending]
    refine ⟨fun txn htxn => ⟨fun _ => ⟨fun _ => ?_, fun _ => hx⟩, fun _ => ⟨fun a _ =>
      ⟨fun _ => ?_, fun _ => hx⟩, fun _ => hx, fun _ => hx.clients _⟩⟩, fun _ => hx, hx.nullActive⟩
    · refine (hx.report htxn rfl rfl (.inr rfl) rfl).resend true fun req hreq => ?_
      exact .inr (hpend req hreq)
    · refine (hx.report htxn rfl rfl (.inl rfl) rfl).resend true fun req hreq => ?_
      exact .inr (hpend req hreq)

/-! ### The decision -/

theorem cascadeAbort_moves (fuel : ℕ) : ∀ {x : Ctx Replica Addr Msg Event} (tid : TxnId),
    Moves env r₀ input D x₀ x → Made env r₀ input D x₀ (cascadeAbort env fuel tid) x := by
  induction fuel with
  | zero => exact fun _ hx => hx
  | succ fuel ih =>
      intro x tid hx
      simp only [Made, cascadeAbort, wp_bind, wp_withStore, wp_emit, wp_read]
      have hx₁ := hx.step (.cascade x tid)
      split
      · exact hx₁
      · simp only [wp_bind, wp_derefActive]
        refine ⟨fun txn _ => ?_, fun _ => hx₁, hx₁.nullActive⟩
        refine wp_forM (fun out _ y hy => ?_) hx₁
        simp only [wp_bind, wp_read]
        split
        · simp only [wp_bind, wp_sendMessageToCoordinators]
          refine wp_mono (fun _ z hz => ?_) (fun _ hz => hz) (ih out hy)
          refine Moves.send hz _ fun p hp => ?_
          obtain ⟨i, _, rfl⟩ := List.mem_map.1 hp
          trivial
        · exact Moves.deps hy _

theorem notifyForFollowingDependenies_moves (hx : Moves env r₀ input D x₀ x) (tid : TxnId) :
    Made env r₀ input D x₀ (notifyForFollowingDependenies env tid) x := by
  simp only [Made, notifyForFollowingDependenies, wp_bind, wp_read]
  split
  · exact hx
  · simp only [wp_bind, wp_derefActive]
    refine ⟨fun txn _ => wp_forM (fun out _ y hy => ?_) hx, fun _ => hx, hx.nullActive⟩
    simp only [wp_bind, wp_read]
    split
    · simp only [wp_bind, wp_deref, wp_modifyActive, wp_when, wp_sendMessageToCoordinator]
      have hy₁ := Moves.mapActive hy out (f := Transaction.decreaseIn) (fun _ => rfl)
        fun _ _ => .inl
      exact ⟨fun outTxn _ => ⟨fun _ => hy₁.send_one (by trivial), fun _ => hy₁⟩, fun _ => hy⟩
    · exact Moves.deps hy _

theorem settleDependents_moves (hx : Moves env r₀ input D x₀ x) (msg : CommitMsg) :
    Made env r₀ input D x₀ (settleDependents env msg) x := by
  simp only [Made, settleDependents, wp_ite, wp_bind, wp_read]
  exact ⟨fun _ => notifyForFollowingDependenies_moves hx _, fun _ => cascadeAbort_moves _ _ hx⟩

theorem notifyCommitToReplica_moves (hx : Moves env r₀ input D x₀ x) (req : PendingTransaction)
    (msg : CommitMsg) : Made env r₀ input D x₀ (notifyCommitToReplica env ω req msg) x := by
  simp only [Made, notifyCommitToReplica, wp_bind, wp_update, wp_ite, wp_sendMessageToAll, wp_when,
    wp_modifyPending]
  have hx₁ := hx.step (.setStatus x req.tid msg.state)
  refine ⟨fun _ => wp_forM (fun _ _ y hy => Moves.send_one hy (by trivial)) hx₁, fun _ => ?_⟩
  have hx₂ := hx₁.send ((List.range env.cfg.n).map fun i =>
    ⟨env.addr, .replica env.shardId i, .replicateCommit
      { lsn := req.lsn, state := msg.state, tid := msg.tid, timestamp := msg.timestamp }⟩)
    fun p hp => by
      obtain ⟨i, _, rfl⟩ := List.mem_map.1 hp
      trivial
  refine ⟨fun _ => ?_, fun _ => hx₂⟩
  exact hx₂.touch msg.tid fun _ _ => ⟨rfl, rfl, rfl, rfl, rfl, id, fun _ hb => ⟨_, hb⟩,
    fun _ hb => .inl ⟨_, hb⟩⟩

/-- The store carries out the outcome, which is recorded. -/
theorem applyToStore_moves {msg : CommitMsg} (hx : Moves env r₀ input (some msg.tid) x₀ x) :
    wp (applyToStore msg) (fun _ y => Moves env r₀ input (some msg.tid) x₀ y ∧
        (msg.state = .commit ∨ msg.state = .abort →
          .applied msg.tid msg.state msg.timestamp ∈ y.events))
      (Moves env r₀ input (some msg.tid) x₀) x := by
  have hx₁ : Moves env r₀ input (some msg.tid) x₀ { x with
      state := mapPending msg.tid (fun req => { req with reachCommitDecision := true })
        x.state } := by
    unfold mapPending
    split
    · exact hx
    · rename_i req hreq
      exact hx.step (.decide x msg.tid req rfl hreq)
  refine wp_applyToStore (I := Moves env r₀ input (some msg.tid) x₀) hx₁
    (fun z hz hnone => hz.nullActive hnone) ?_ ?_ (fun _ _ hz => hz) ?_
  · intro hstate z hz
    rw [hstate]
    exact ⟨hz.step (.commit z msg.tid msg.timestamp), fun _ =>
      List.mem_append_right _ (List.mem_singleton.2 rfl)⟩
  · intro hstate z hz
    rw [hstate]
    exact ⟨hz.step (.abort z msg.tid msg.timestamp), fun _ =>
      List.mem_append_right _ (List.mem_singleton.2 rfl)⟩
  · intro hcommit habort z hz
    exact ⟨hz, fun h => (h.elim hcommit habort).elim⟩

/-- The outcome was carried out, in this step or before. -/
def CarriedOut (r₀ : Replica) (msg : CommitMsg) (y : Ctx Replica Addr Msg Event) : Prop :=
  msg.state = .commit ∨ msg.state = .abort → .applied msg.tid msg.state msg.timestamp ∈ y.events ∨
    ∃ req, r₀.pendingTxns.lookup msg.tid = some req ∧ req.reachCommitDecision = true

theorem carryOut_moves {msg : CommitMsg} (hx : Moves env r₀ input (some msg.tid) x₀ x)
    {req : PendingTransaction} (hreq : r₀.pendingTxns.lookup msg.tid = some req) :
    wp (carryOut env ω msg req)
      (fun _ y => Moves env r₀ input (some msg.tid) x₀ y ∧ CarriedOut r₀ msg y)
      (Moves env r₀ input (some msg.tid) x₀) x := by
  have happly : ∀ {y : Ctx Replica Addr Msg Event}, Moves env r₀ input (some msg.tid) x₀ y →
      (req.reachCommitDecision = false → wp (applyToStore msg)
        (fun _ y => Moves env r₀ input (some msg.tid) x₀ y ∧ CarriedOut r₀ msg y)
        (Moves env r₀ input (some msg.tid) x₀) y) ∧
      (req.reachCommitDecision = true →
        Moves env r₀ input (some msg.tid) x₀ y ∧ CarriedOut r₀ msg y) := by
    intro y hy
    refine ⟨fun _ => ?_, fun hflag => ⟨hy, fun _ => .inr ⟨req, hreq, hflag⟩⟩⟩
    exact wp_mono (fun _ z hz => ⟨hz.1, fun h => .inl (hz.2 h)⟩) (fun _ hz => hz)
      (applyToStore_moves hy)
  simp only [carryOut, wp_bind, wp_when, Bool.not_eq_true', Bool.not_eq_false']
  exact ⟨fun _ => wp_mono (fun _ y hy => happly hy) (fun _ hy => hy)
    (notifyCommitToReplica_moves hx req msg), fun _ => happly hx⟩

/-- A transaction that was decided is pending no more. -/
def Retired (env : ReplicaEnv) (r₀ : Replica) (input : Input Addr Msg Act) (tid : TxnId)
    (x₀ y : Ctx Replica Addr Msg Event) : Prop :=
  Moves env r₀ input (some tid) x₀ y ∧ y.state.pendingTxns.lookup tid = none

theorem retire_moves {msg : CommitMsg} (hx : Moves env r₀ input (some msg.tid) x₀ x)
    (hdone : CarriedOut r₀ msg x) (txn : Option Transaction) :
    wp (retire env msg txn) (fun _ => Retired env r₀ input msg.tid x₀)
      (Moves env r₀ input (some msg.tid) x₀) x := by
  simp only [retire, wp_bind, wp_erasePending, wp_when, wp_deref, wp_pure, wp_eraseActive,
    wp_update]
  have hend : Retired env r₀ input msg.tid x₀ { x with state := { x.state with
      pendingTxns := x.state.pendingTxns.erase msg.tid
      activeTxns := x.state.activeTxns.erase msg.tid
      committedTxns := x.state.committedTxns.insert msg.tid (msg.state, msg.timestamp) } } := by
    refine ⟨((hx.drop msg.tid).forget msg.tid).step (.retire _ msg.tid msg.state msg.timestamp rfl
      hdone), ?_⟩
    exact AList.lookup_erase _ _
  exact ⟨fun _ => ⟨fun _ _ => hend, fun _ => hx.drop msg.tid⟩, fun _ => hend⟩

theorem commitPending_moves {msg : CommitMsg} (hx : Moves env r₀ input (some msg.tid) x₀ x)
    {req : PendingTransaction} (hreq₀ : r₀.pendingTxns.lookup msg.tid = some req)
    (hreq : x.state.pendingTxns.lookup msg.tid = some req) :
    wp (commitPending env ω msg req) (fun _ => Retired env r₀ input msg.tid x₀)
      (Moves env r₀ input (some msg.tid) x₀) x := by
  have hrest : ∀ {y : Ctx Replica Addr Msg Event} (txn : Option Transaction),
      Moves env r₀ input (some msg.tid) x₀ y → CarriedOut r₀ msg y →
      wp (settleDependents env msg) (fun _ y => wp (retire env msg txn)
        (fun _ => Retired env r₀ input msg.tid x₀) (Moves env r₀ input (some msg.tid) x₀) y)
        (Moves env r₀ input (some msg.tid) x₀) y := by
    intro y txn hy hdone
    have hfrom : Moves env r₀ input (some msg.tid) y y := .refl
    refine wp_mono (fun _ z hz => retire_moves (hy.trans hz) (fun h => ?_) txn)
      (fun _ hz => hy.trans hz) (settleDependents_moves hfrom msg)
    exact (hdone h).imp_left (Moves.events hz)
  simp only [commitPending, wp_ite, wp_bind, wp_read, wp_deref, wp_update, wp_erasePending]
  refine ⟨fun _ => ⟨hx.drop msg.tid, AList.lookup_erase _ _⟩, fun hpart => ⟨fun e _ => ?_,
    fun _ => hx⟩⟩
  have hx₁ := hx.step (.setTs x msg.tid req msg.timestamp rfl hreq (Bool.not_eq_false _ ▸ hpart))
  refine wp_mono (fun _ y hy => ?_) (fun _ hy => hy) (carryOut_moves hx₁ hreq₀)
  rw [wp_activePtr]
  exact ⟨fun p _ => hrest p hy.1 hy.2, fun hnone => hrest none (hy.1.nullActive hnone) hy.2⟩

/-- `HandleCommit` at the begin of a step, or after moves that leave the pending
transactions. -/
theorem handleCommit_moves {msg : CommitMsg} (hx : Moves env r₀ input (some msg.tid) x₀ x)
    (hpend : x.state.pendingTxns = r₀.pendingTxns) :
    wp (handleCommit env ω msg) (fun _ => Retired env r₀ input msg.tid x₀)
      (Moves env r₀ input (some msg.tid) x₀) x := by
  simp only [handleCommit, wp_bind, wp_read]
  cases hreq : x.state.pendingTxns.lookup msg.tid with
  | none => exact ⟨hx, hreq⟩
  | some req =>
      simp only [wp_bind, wp_update]
      refine wp_mono (fun _ y hy => ?_) (fun _ hy => hy)
        (commitPending_moves (hx.clock _) (hpend ▸ hreq) hreq)
      exact ⟨hy.1.clients _, hy.2⟩

theorem handleReplicateCommit_moves (hx : Moves env r₀ input D x₀ x) (msg : ReplicateCommit) :
    Made env r₀ input D x₀ (handleReplicateCommit env msg) x := by
  refine wp_handleReplicateCommit (I := Moves env r₀ input D x₀) (fun _ => hx)
    (fun _ => hx.step (.setStatus x msg.lsn msg.state)) (fun _ _ => hx)
    (fun z hz hnone => hz.nullActive hnone) (fun _ hz => hz) ?_
  rintro z st hz (rfl | rfl | rfl)
  · exact (hz.step (.follow z msg.tid _ (.inr ⟨msg.timestamp, rfl⟩))).forget msg.tid
  · exact (hz.step (.follow z msg.tid _ (.inl rfl))).forget msg.tid
  · exact hz.forget msg.tid

/-! ### Reads -/

theorem readKey_moves (hx : Moves env r₀ input D x₀ x) {tid : TxnId} (hread : Reads input tid)
    (key : Key) :
    Made env r₀ input D x₀ (readKey env tid key) x := by
  simp only [Made, readKey, wp_bind, wp_read, wp_ite, wp_pure, wp_activePtr]
  refine ⟨fun _ => ⟨fun _ => ⟨fun p _ => ?_, fun hnone => hx.nullActive hnone⟩, fun _ => hx⟩,
    fun _ => hx⟩
  cases p with
  | none => exact hx
  | some dependent =>
      simp only [wp_bind, wp_modifyActive, wp_update]
      have hout : ∀ t : Transaction, ∀ R ∈ (t.addOut tid).out, R ∈ t.out ∨ Reads input R := by
        intro t R hR
        refine (List.mem_append.1 hR).imp_right fun hR => ?_
        rw [List.mem_singleton.1 hR]
        exact hread
      have hx₁ := (hx.mapActive (x.state.store.getUpcall env.cfg.mode tid key).dependency
        (f := (·.addOut tid)) (fun _ => rfl) hout).deps
      split
      · exact (hx₁ _).event trivial
      · exact hx₁ _

theorem readKeys_moves {tid : TxnId} (hread : Reads input tid) (keys : List Key) :
    ∀ {x : Ctx Replica Addr Msg Event},
    Moves env r₀ input D x₀ x → Made env r₀ input D x₀ (readKeys env tid keys) x := by
  induction keys with
  | nil => exact fun hx => hx
  | cons key keys ih =>
      intro x hx
      simp only [Made, readKeys, wp_bind]
      refine wp_mono (fun v y hy => ?_) (fun _ hy => hy) (readKey_moves hx hread key)
      cases v with
      | none => exact hy
      | some v =>
          simp only [wp_bind, wp_pure]
          exact ih hy

theorem handleRead_moves (hx : Moves env r₀ input D x₀ x) {remote dst : Addr} {msg : GetData}
    (hm : input = .recv ⟨remote, dst, .getData msg⟩) :
    Made env r₀ input D x₀ (handleRead env remote msg) x := by
  simp only [Made, handleRead, wp_bind]
  exact wp_mono (fun _ y hy => Moves.send_one hy (by trivial)) (fun _ hy => hy)
    (readKeys_moves ⟨remote, dst, msg, hm, rfl⟩ msg.keys hx)

/-! ### The parallel mode -/

theorem handleDecisionFromCoordinatorReplica_moves (hx : Moves env r₀ input D x₀ x)
    (hstart : x.state = r₀) {msg : NotifyDecision} {src dst : Addr}
    (hin : input = .recv ⟨src, dst, .notifyDecision msg⟩) :
    Made env r₀ input D x₀ (handleDecisionFromCoordinatorReplica env msg) x := by
  simp only [Made, handleDecisionFromCoordinatorReplica, wp_bind, wp_read]
  split
  · exact hx
  · rename_i req hreq
    have hpend : r₀.pendingTxns.lookup msg.tid ≠ none := by
      rw [← hstart, hreq]
      intro h
      cases h
    have hrest : ∀ {y}, Moves env r₀ input D x₀ y → Made env r₀ input D x₀ (do
        touchActive msg.tid
        update fun s => { s with
          committedTxns := s.committedTxns.insert msg.tid (.commit, msg.timestamp) }) y := by
      intro y hy
      simp only [Made, touchActive, wp_bind, wp_read, wp_update]
      split
      · exact hy.step (.record y src dst msg hin hpend)
      · simp only [wp_bind, wp_deref, wp_pure]
        exact ⟨fun _ _ => hy.step (.record y src dst msg hin hpend), fun _ => hy⟩
    rw [wp_bind, endConcurrencyControl, wp_ite]
    refine ⟨fun _ => hrest (hx.step (.preCommit x req.tid)), fun _ => ?_⟩
    rw [wp_bind, wp_read, wp_bind]
    exact wp_mono (fun _ y hy => hrest (Moves.drop hy msg.tid)) (fun _ hy => hy)
      (cascadeAbort_moves _ _ hx)

theorem handleReplicateResultFromCoordinatorReplica_moves {msg : NotifyReplicateResult}
    (hx : Moves env r₀ input (some msg.tid) x₀ x) (hstart : x.state = r₀) :
    wp (handleReplicateResultFromCoordinatorReplica env ω msg)
      (fun _ => Retired env r₀ input msg.tid x₀)
      (Moves env r₀ input (some msg.tid) x₀) x := by
  have hcommit : ∀ {y}, Moves env r₀ input (some msg.tid) x₀ y →
      y.state.pendingTxns = r₀.pendingTxns → wp (handleCommit env ω
        { tid := msg.tid, state := .commit, timestamp := msg.timestamp })
        (fun _ => Retired env r₀ input msg.tid x₀)
        (Moves env r₀ input (some msg.tid) x₀) y :=
    fun hy hpend => handleCommit_moves hy hpend
  have hpend : x.state.pendingTxns = r₀.pendingTxns := by rw [hstart]
  simp only [handleReplicateResultFromCoordinatorReplica, handleParallelCommitResult, wp_bind,
    wp_read]
  split
  · exact hcommit hx hpend
  · simp only [wp_bind, wp_derefClient, wp_sendMessage, wp_eraseClient]
    exact ⟨fun a _ => hcommit ((hx.send_one (by trivial)).clients _) hpend, fun _ => hx,
      fun _ => hx.clients _⟩

theorem handleParallelModeCommit_moves (hx : Moves env r₀ input D x₀ x)
    {msg : ParallelModeCommit} {remote dst : Addr}
    (hin : input = .recv ⟨remote, dst, .parallelModeCommit msg⟩) :
    Made env r₀ input D x₀ (handleParallelModeCommit env ω remote msg) x := by
  simp only [Made, handleParallelModeCommit, wp_bind, wp_read]
  split
  · rename_i hnone
    have hx₁ := hx.step (.place x msg.tid (placeholder env ω msg.tid) hnone rfl rfl rfl rfl)
    exact (hx₁.clients _).step (.relay _ _ _ _ ⟨remote, dst, msg, hin, rfl, rfl⟩)
  · exact hx.touch msg.tid fun _ _ => ⟨rfl, rfl, rfl, rfl, rfl, id, fun _ hb => ⟨_, hb⟩,
      fun _ hb => .inl ⟨_, hb⟩⟩

/-! ### The slow modes -/

theorem sendPrepare_moves (hx : Moves env r₀ input D x₀ x) {tid : TxnId}
    (hknown : ∀ req, x.state.pendingPrepares.lookup tid = some req →
      Known env r₀ input tid req) : Made env r₀ input D x₀ (sendPrepare env ω tid) x := by
  simp only [Made, sendPrepare, wp_bind, wp_read, wp_deref]
  refine ⟨fun req hreq => ?_, fun _ => hx⟩
  refine wp_forM (fun p hp y hy => ?_) hx
  simp only [wp_ite, wp_bind, wp_sendMessageToShard, wp_modifyPrepare, wp_erasePrepare]
  refine ⟨fun _ => ?_, fun _ => Moves.closePrepare hy tid⟩
  have hmem : p.1 ∈ (prepareMessages env req).toList := List.fst_mem_of_mem_zipIdx hp
  refine Moves.touchPrepare (Moves.step hy (.piece y tid req p.1.1 _ p.1.2 (hknown req hreq) hmem))
    tid fun _ _ => ⟨rfl, rfl, rfl⟩

theorem handlePrepare_moves (hx : Moves env r₀ input D x₀ x) (hstart : x.state = r₀)
    {msg : PrepareTransaction} {remote dst : Addr}
    (hin : input = .recv ⟨remote, dst, .prepareTransaction msg⟩) (hdisp : Dispatched env r₀ msg) :
    Made env r₀ input D x₀ (handlePrepare env ω remote msg) x := by
  subst hstart
  simp only [Made, handlePrepare, wp_bind, wp_update, wp_read]
  have hx₁ := hx.prepareClients (x.state.prepareClientList.insert msg.tid (some remote))
  split
  · simp only [wp_bind, wp_update]
    refine sendPrepare_moves (hx₁.step (.openPrepare _ remote dst msg _ hin hdisp rfl rfl rfl))
      fun req hreq => ?_
    rw [AList.lookup_insert] at hreq
    cases hreq
    exact .inr ⟨remote, dst, msg, hin, hdisp, rfl, rfl, rfl⟩
  · exact sendPrepare_moves hx₁ fun req hreq => .inl hreq

theorem pending_mapPrepare (tid : TxnId) (f : PendingPrepare → PendingPrepare) (r : Replica) :
    (mapPrepare tid f r).pendingTxns = r.pendingTxns := by
  unfold mapPrepare
  split <;> rfl

/-- A step that returned: what it decided is pending no more. -/
def Ended (env : ReplicaEnv) (r₀ : Replica) (input : Input Addr Msg Act)
    (x₀ y : Ctx Replica Addr Msg Event) : Prop :=
  Moves env r₀ input none x₀ y ∨ ∃ tid, Retired env r₀ input tid x₀ y

/-- A step that died. -/
def Stopped (env : ReplicaEnv) (r₀ : Replica) (input : Input Addr Msg Act)
    (x₀ y : Ctx Replica Addr Msg Event) : Prop :=
  ∃ D, Moves env r₀ input D x₀ y

/-- A step that decided nothing. -/
theorem Made.ended {p : ReplicaM Unit} (hp : Made env r₀ input none x₀ p x) :
    wp p (fun _ => Ended env r₀ input x₀) (Stopped env r₀ input x₀) x :=
  wp_mono (fun _ _ => .inl) (fun _ hy => ⟨none, hy⟩) hp

theorem ended_of_settles {p : ReplicaM Unit} {tid : TxnId}
    (hp : wp p (fun _ => Retired env r₀ input tid x₀) (Moves env r₀ input (some tid) x₀) x) :
    wp p (fun _ => Ended env r₀ input x₀) (Stopped env r₀ input x₀) x :=
  wp_mono (fun _ _ hy => .inr ⟨tid, hy⟩) (fun _ hy => ⟨some tid, hy⟩) hp

/-- The decision is carried out and the prepare is closed. -/
theorem closePrepare_moves {msg : CommitMsg} (hx : Moves env r₀ input (some msg.tid) x₀ x)
    (hpend : x.state.pendingTxns = r₀.pendingTxns) (tid : TxnId) :
    wp (do handleCommit env ω msg; erasePrepare tid; erasePrepareClient tid)
      (fun _ => Retired env r₀ input msg.tid x₀) (Moves env r₀ input (some msg.tid) x₀) x := by
  simp only [wp_bind, wp_erasePrepare, erasePrepareClient, wp_update]
  refine wp_mono (fun _ y hy => ?_) (fun _ hy => hy) (handleCommit_moves hx hpend)
  exact ⟨(hy.1.closePrepare tid).prepareClients _, hy.2⟩

/-- The client is told the final decision, which the primary shard of the slow mode then
carries out itself. -/
theorem replyFinalDecision_moves {tid : TxnId} (hx : ∀ D, Moves env r₀ input D x₀ x)
    (hpend : x.state.pendingTxns = r₀.pendingTxns)
    (hknown : r₀.pendingPrepares.lookup tid ≠ none) :
    wp (replyFinalDecision env ω tid) (fun _ => Ended env r₀ input x₀)
      (Stopped env r₀ input x₀) x := by
  have hfinal : ∀ {y : Ctx Replica Addr Msg Event} {D} (ps : List Pkt), Moves env r₀ input D x₀ y →
      (∀ p ∈ ps, p.src = env.addr ∧ ∃ r, p.msg = .prepareTransactionReply r) →
      Moves env r₀ input D x₀ { y with sent := y.sent ++ ps } :=
    fun ps hy hps => hy.step (.final _ ps tid hknown hps)
  have hone : ∀ (dst : Addr) (r : PrepareTransactionReply), ∀ p ∈
      [(⟨env.addr, dst, .prepareTransactionReply r⟩ : Pkt)],
      p.src = env.addr ∧ ∃ r, p.msg = .prepareTransactionReply r := by
    intro dst r p hp
    rw [List.mem_singleton.1 hp]
    exact ⟨rfl, r, rfl⟩
  simp only [replyFinalDecision, prepareClientPtr, wp_bind, wp_read, wp_deref]
  refine ⟨fun req hreq => ?_, fun _ => ⟨none, hx none⟩⟩
  have hslow : ∀ {y : Ctx Replica Addr Msg Event}, (∀ D, Moves env r₀ input D x₀ y) →
      y.state.pendingTxns = r₀.pendingTxns → wp (when (env.cfg.mode = .slow) do
        handleCommit env ω
          { tid := req.tid, state := req.finalDecision, timestamp := req.timestamp }
        erasePrepare req.tid
        erasePrepareClient req.tid) (fun _ => Ended env r₀ input x₀)
        (Stopped env r₀ input x₀) y := by
    intro y hy hsame
    rw [wp_when]
    refine ⟨fun _ => ?_, fun _ => .inl (hy none)⟩
    exact ended_of_settles (closePrepare_moves (hy (some req.tid)) hsame req.tid)
  split
  · refine ⟨fun remote _ => ?_, fun _ => ⟨none, hx none⟩⟩
    rw [wp_sendMessage, wp_when]
    have hx₁ := fun D => hfinal (D := D) _ (hx D) (hone remote
      { tid := req.tid, state := req.finalDecision, timestamp := req.timestamp,
        shard := env.shardId, replica := env.replicaId })
    refine ⟨fun _ => ?_, fun _ => hslow hx₁ hpend⟩
    simp only [wp_bind, wp_modifyPrepare, wp_sendMessageToAll, wp_when _ (modifyPrepare _ _)]
    have hx₂ := fun D => hfinal (D := D) ((List.range env.cfg.n).map fun i =>
      ⟨env.addr, .replica env.shardId i, .prepareTransactionReply
        { tid := req.tid, state := req.finalDecision, timestamp := req.timestamp,
          shard := env.shardId, replica := env.replicaId }⟩)
      ((hx₁ D).touchPrepare tid (f := fun req => { req with
        regionReplies := req.regionReplies.insert env.replicaId req.finalDecision })
        fun _ _ => ⟨rfl, rfl, rfl⟩) fun p hp => by
          obtain ⟨i, _, rfl⟩ := List.mem_map.1 hp
          exact ⟨rfl, _, rfl⟩
    refine ⟨fun _ => hslow (fun D => (hx₂ D).touchPrepare tid fun _ _ => ⟨rfl, rfl, rfl⟩) ?_,
      fun _ => hslow hx₂ ?_⟩
    · rw [pending_mapPrepare, pending_mapPrepare]
      exact hpend
    · rw [pending_mapPrepare]
      exact hpend
  · refine ⟨(fun _ h => by cases h), fun _ => ⟨none, (hx none).prepareClients _⟩⟩

/-- `HandlePrepareTransactionReply`, at the begin of a step. -/
theorem handlePrepareTransactionReply_moves (hx : ∀ D, Moves env r₀ input D x₀ x)
    (hstart : x.state = r₀) (msg : PrepareTransactionReply) :
    wp (handlePrepareTransactionReply env ω msg) (fun _ => Ended env r₀ input x₀)
      (Stopped env r₀ input x₀) x := by
  subst hstart
  simp only [handlePrepareTransactionReply, wp_bind, wp_read]
  split
  · exact .inl (hx none)
  · rename_i req hreq
    have hknown : x.state.pendingPrepares.lookup msg.tid ≠ none := by
      rw [hreq]
      intro h
      cases h
    -- every branch first writes to the prepare
    have htouch : ∀ {y : Ctx Replica Addr Msg Event} {f : PendingPrepare → PendingPrepare},
        (∀ D, Moves env x.state input D x₀ y) →
        (∀ q, y.state.pendingPrepares.lookup msg.tid = some q →
          (f q).tid = q.tid ∧ (f q).txn = q.txn ∧ (f q).participants = q.participants) → ∀ D,
        Moves env x.state input D x₀ { y with state := mapPrepare msg.tid f y.state } :=
      fun hy hf D => (hy D).touchPrepare msg.tid hf
    rw [wp_ite, wp_ite, wp_ite]
    refine ⟨fun _ => ?_, fun _ => ⟨fun _ => ⟨fun _ => .inl (hx none), fun _ => ?_⟩, fun _ => ?_⟩⟩
    · -- the decision of another region
      rw [wp_bind, wp_modifyPrepare]
      have hx₁ := htouch hx (f := fun _ => { req with
        regionReplies := req.regionReplies.insert msg.replica msg.state
        timestamp := max req.timestamp msg.timestamp }) fun q hq => by
          rw [hreq] at hq
          cases hq
          exact ⟨rfl, rfl, rfl⟩
      split
      · exact .inl (hx₁ none)
      · rename_i decision _
        rw [wp_bind, wp_modifyPrepare]
        refine ended_of_settles (closePrepare_moves (htouch hx₁ (by exact fun _ _ =>
          ⟨rfl, rfl, rfl⟩) (some req.tid)) ?_ req.tid)
        rw [pending_mapPrepare, pending_mapPrepare]
    · rw [wp_bind, wp_modifyPrepare]
      have hx₁ := htouch hx (f := fun q => { q with
        participantReplies := req.participantReplies.insert msg.shard msg.state
        timestamp := max q.timestamp msg.timestamp }) fun _ _ => ⟨rfl, rfl, rfl⟩
      simp only [wp_ite, wp_bind, wp_modifyPrepare, wp_pure, wp_emit]
      refine ⟨fun _ => .inl (hx₁ none), fun _ => ⟨fun _ => ?_, fun _ => ?_⟩⟩
      · refine replyFinalDecision_moves (fun D => (htouch (htouch hx₁ (by exact fun _ _ =>
          ⟨rfl, rfl, rfl⟩)) (by exact fun _ _ => ⟨rfl, rfl, rfl⟩) D).event trivial) ?_ hknown
        rw [pending_mapPrepare, pending_mapPrepare, pending_mapPrepare]
      · exact .inl (htouch hx₁ (by exact fun _ _ => ⟨rfl, rfl, rfl⟩) none)
    · rw [wp_bind, wp_modifyPrepare]
      refine replyFinalDecision_moves (htouch hx (by exact fun _ _ => ⟨rfl, rfl, rfl⟩)) ?_ hknown
      rw [pending_mapPrepare]

/-! ### Prepare -/

/-- The entry a leader has just logged. -/
theorem find_entryOf (l : Log) (txn : Transaction) :
    (entryOf l txn).2.find (entryOf l txn).1.id = some (entryOf l txn).1 := by
  rw [entryOf, Log.find_add]
  exact if_pos rfl

/-- An accepted transaction: the leader logs it and replicates the entry, whatever was sent
before. -/
theorem logPrepare_moves {y : Ctx Replica Addr Msg Event} (hx : Moves env r₀ input none x₀ x)
    (hstate : y.state = x.state) (hevents : y.events = x.events) {msg : PrepareTransaction}
    {remote dst : Addr} (hin : input = .recv ⟨remote, dst, .prepareTransaction msg⟩)
    (hexec : Executes env r₀ msg) (hpend : x.state.pendingTxns = r₀.pendingTxns)
    (hlead : env.isLeader = true)
    (hsent : ∀ p ∈ y.sent, p ∈ x.sent ∨ ∃ r, p.msg = .prepareTransactionReply r ∧
      r.tid = msg.tid ∧ r.shard = env.shardId ∧
      r.timestamp = (executed env r₀ msg).commitTs.timestamp) :
    Made env r₀ input none x₀ (logPrepare env ω remote (executed env r₀ msg)) y := by
  obtain ⟨ys, ysent, yevents⟩ := y
  obtain rfl : ys = x.state := hstate
  obtain rfl : yevents = x.events := hevents
  have hx₁ := hx.step (.log x remote dst msg ysent hin hexec hlead hsent)
  simp only [Made, logPrepare, wp_bind, wp_update, wp_read, wp_emit]
  refine invokeReplicateTxn_moves hx₁ hlead (find_entryOf x.state.log _)
    (List.mem_append_right _ (List.mem_singleton.2 rfl)) (fun req hreq => ?_) _
  exact hexec.waiting req (hpend ▸ hreq)

theorem acceptPrepare_moves (hx : Moves env r₀ input none x₀ x) {msg : PrepareTransaction}
    {remote dst : Addr} (hin : input = .recv ⟨remote, dst, .prepareTransaction msg⟩)
    (hexec : Executes env r₀ msg) (hpend : x.state.pendingTxns = r₀.pendingTxns) :
    Made env r₀ input none x₀ (acceptPrepare env ω remote (executed env r₀ msg)) x := by
  -- whatever was sent, it is the vote
  have hrest : ∀ {y : Ctx Replica Addr Msg Event}, y.state = x.state → y.events = x.events →
      (∀ p ∈ y.sent, p ∈ x.sent ∨ ((env.cfg.mode = .carousel ∧ p.src = env.addr ∨
        env.cfg.mode = .rc) ∧ ∃ r, p.msg = .prepareTransactionReply r ∧ r.tid = msg.tid ∧
          r.shard = env.shardId ∧ r.timestamp = (executed env r₀ msg).commitTs.timestamp)) →
      (env.isLeader = true →
        Made env r₀ input none x₀ (logPrepare env ω remote (executed env r₀ msg)) y) ∧
      (env.isLeader = false → Moves env r₀ input none x₀ y) := by
    intro y hstate hevents hsent
    refine ⟨fun hlead => logPrepare_moves hx hstate hevents hin hexec hpend hlead fun p hp =>
      (hsent p hp).imp_right And.right, fun hfollow => ?_⟩
    obtain ⟨ys, ysent, yevents⟩ := y
    obtain rfl : ys = x.state := hstate
    obtain rfl : yevents = x.events := hevents
    refine hx.step (.vote x ysent hfollow fun p hp => (hsent p hp).imp_right fun h => ?_)
    obtain ⟨r, hr, _⟩ := h.2
    exact ⟨h.1, r, hr⟩
  have hsent : ∀ {ps : List Pkt} {p : Pkt}, (∀ q ∈ ps, q ∈ x.sent ∨
      ((env.cfg.mode = .carousel ∧ q.src = env.addr ∨ env.cfg.mode = .rc) ∧
        ∃ r, q.msg = .prepareTransactionReply r ∧ r.tid = msg.tid ∧ r.shard = env.shardId ∧
          r.timestamp = (executed env r₀ msg).commitTs.timestamp)) →
      (env.cfg.mode = .carousel ∧ p.src = env.addr ∨ env.cfg.mode = .rc) →
      (∃ r, p.msg = .prepareTransactionReply r ∧ r.tid = msg.tid ∧ r.shard = env.shardId ∧
        r.timestamp = (executed env r₀ msg).commitTs.timestamp) →
      ∀ q ∈ ps ++ [p], q ∈ x.sent ∨
        ((env.cfg.mode = .carousel ∧ q.src = env.addr ∨ env.cfg.mode = .rc) ∧
          ∃ r, q.msg = .prepareTransactionReply r ∧ r.tid = msg.tid ∧ r.shard = env.shardId ∧
            r.timestamp = (executed env r₀ msg).commitTs.timestamp) := by
    intro ps p hps hmode hr q hq
    rcases List.mem_append.1 hq with hold | hnew
    · exact hps q hold
    · rw [List.mem_singleton.1 hnew]
      exact .inr ⟨hmode, hr⟩
  simp only [Made, acceptPrepare, wp_ite, wp_pure, wp_bind, wp_when, wp_sendMessageToShard,
    wp_sendMessage, decide_eq_true_eq, decide_eq_false_iff_not]
  refine ⟨fun _ => hx, fun _ => ⟨fun hrc => ⟨fun hcar => ?_, fun _ => ?_⟩,
    fun _ => ⟨fun hcar => ?_, fun _ => ?_⟩⟩⟩
  · exact hrest rfl rfl (hsent (hsent (fun _ hq => .inl hq) (.inr hrc) ⟨_, rfl, rfl, rfl, rfl⟩)
      (.inl ⟨hcar, rfl⟩) ⟨_, rfl, rfl, rfl, rfl⟩)
  · exact hrest rfl rfl (hsent (fun _ hq => .inl hq) (.inr hrc) ⟨_, rfl, rfl, rfl, rfl⟩)
  · exact hrest rfl rfl (hsent (fun _ hq => .inl hq) (.inl ⟨hcar, rfl⟩) ⟨_, rfl, rfl, rfl, rfl⟩)
  · exact hrest rfl rfl fun _ hq => .inl hq

/-- A prepare at the concurrency control. -/
theorem prepareNew_moves (hx : Moves env r₀ input none x₀ x) (hstart : x.state = r₀)
    {msg : PrepareTransaction} {remote dst : Addr}
    (hin : input = .recv ⟨remote, dst, .prepareTransaction msg⟩) (hexec : Executes env r₀ msg) :
    Made env r₀ input none x₀ (prepareNew env ω remote msg) x := by
  subst hstart
  simp only [Made, prepareNew, wp_bind, wp_update, wp_read, wp_withStore, wp_ite]
  have hx₁ := ((hx.clock (x.state.currentTs + 1)).deps (x.state.inDependency.erase msg.tid)).step
    (.prepare _ remote dst msg ω.clock (env.isLeader || decide (env.cfg.mode = .carousel) ||
      decide (env.cfg.mode = .rc)) hin hexec rfl)
  refine ⟨fun _ => hx₁.step (.refuse _ remote _ rfl), fun _ => ?_⟩
  simp only [acceptChecked, wp_bind, wp_when, wp_emit]
  exact ⟨fun _ => acceptPrepare_moves (hx₁.event (by trivial)) hin hexec rfl,
    fun _ => acceptPrepare_moves hx₁ hin hexec rfl⟩

/-- `HandlePrepareTxn`, at the begin of a step. -/
theorem handlePrepareTxn_moves (hx : Moves env r₀ input none x₀ x) (hstart : x.state = r₀)
    {msg : PrepareTransaction} {remote dst : Addr}
    (hin : input = .recv ⟨remote, dst, .prepareTransaction msg⟩) :
    Made env r₀ input none x₀ (handlePrepareTxn env ω remote msg) x := by
  subst hstart
  simp only [Made, handlePrepareTxn, wp_bind, wp_read, wp_ite, wp_update]
  refine ⟨fun hdisp => handlePrepare_moves hx rfl hin hdisp, fun hhere => ⟨fun _ => hx.deps _,
    fun hmark => ?_⟩⟩
  split
  · rename_i state timestamp hout
    have hans : AnswersFrom env x.state msg (state, timestamp) := ⟨hhere, hmark, hout⟩
    simp only [answerPrepare, wp_ite, wp_sendMessageToShard, wp_sendMessage]
    exact ⟨fun _ => hx.step (.answer x remote dst msg _ _ _ hin hans rfl rfl),
      fun _ => hx.step (.answer x remote dst msg _ _ _ hin hans rfl rfl)⟩
  · rename_i hout
    rw [wp_bind, wp_read]
    split
    · rename_i hnone
      refine prepareNew_moves hx rfl hin ⟨hhere, hmark, hout, fun req hreq => ?_⟩
      rw [hnone] at hreq
      cases hreq
    · rename_i req hreq
      simp only [wp_ite, wp_bind, wp_derefActive]
      refine ⟨fun _ => ⟨fun txn htxn => ?_, fun _ => hx, hx.nullActive⟩, fun hcons => ?_⟩
      · simp only [answerPrepare, wp_ite, wp_sendMessageToShard, wp_sendMessage]
        exact ⟨fun _ => hx.report htxn rfl rfl (.inr rfl) rfl,
          fun _ => hx.report htxn rfl rfl (.inl rfl) rfl⟩
      · refine prepareNew_moves hx rfl hin ⟨hhere, hmark, hout, fun req' hreq' => ?_⟩
        rw [hreq] at hreq'
        cases hreq'
        exact Bool.not_eq_true _ ▸ hcons

/-! ### Every step -/

theorem handleTimer_moves (hx : Moves env r₀ input none x₀ x) (hstart : x.state = r₀) (t : Timer) :
    Made env r₀ input none x₀ (handleTimer env ω t) x := by
  subst hstart
  cases t with
  | pendingTxn tid =>
      simp only [Made, handleTimer, wp_bind, wp_read]
      split
      · exact hx
      · rename_i req hreq
        split
        · rename_i htimer
          refine resendReplicateTxn_moves hx fun _ req' hreq' => ?_
          obtain rfl : req = req' := Option.some.inj (hreq.symm.trans hreq')
          rw [htimer]
          exact ⟨(fun h => by cases h), .inr ⟨true, rfl⟩⟩
        · rename_i htimer
          refine resendPrepareOk_moves hx fun req' hreq' => ?_
          obtain rfl : req = req' := Option.some.inj (hreq.symm.trans hreq')
          exact ⟨true, htimer⟩
        · exact hx
  | pendingPrepare tid =>
      simp only [Made, handleTimer, wp_bind, wp_read]
      split
      · exact hx
      · simp only [wp_ite, wp_pure]
        exact ⟨fun _ => sendPrepare_moves hx fun _ => .inl, fun _ => hx⟩

/-- **A step of a replica** is a sequence of moves, in every mode. -/
theorem handleInput_moves (env : ReplicaEnv) (ω : Choice) (input : Input Addr Msg Act)
    (x : Ctx Replica Addr Msg Event) :
    wp (handleInput env ω input) (fun _ => Ended env x.state input x)
      (Stopped env x.state input x) x := by
  have hx : ∀ D, Moves env x.state input D x x := fun _ => .refl
  cases input with
  | act a =>
      cases a with
      | client a => exact .inl (hx none)
      | timer t => exact Made.ended (handleTimer_moves (hx none) rfl t)
  | recv p =>
      obtain ⟨src, dst, msg⟩ := p
      cases msg with
      | prepareTransaction m => exact Made.ended (handlePrepareTxn_moves (hx none) rfl rfl)
      | prepareTransactionReply m => exact handlePrepareTransactionReply_moves hx rfl m
      | replicateTransaction m => exact Made.ended (handleReplicateTransaction_moves (hx none) rfl)
      | replicateTransactionReply m =>
          exact Made.ended (handleReplicateTransactionReply_moves (hx none) m)
      | replicateCommit m => exact Made.ended (handleReplicateCommit_moves (hx none) m)
      | parallelModeCommit m => exact Made.ended (handleParallelModeCommit_moves (hx none) rfl)
      | commit m => exact ended_of_settles (handleCommit_moves (hx (some m.tid)) rfl)
      | getData m => exact Made.ended (handleRead_moves (hx none) rfl)
      | notifyDecision m =>
          exact Made.ended (handleDecisionFromCoordinatorReplica_moves (hx none) rfl rfl)
      | notifyReplicateResult m =>
          exact ended_of_settles
            (handleReplicateResultFromCoordinatorReplica_moves (hx (some m.tid)) rfl)
      | _ => exact ⟨none, hx none⟩

/-! ### Pieces -/

/-- What a primary shard hands out: a piece of a prepare that is open, for shard `s`. -/
def HandedOut (env : ReplicaEnv) (r₀ : Replica) (input : Input Addr Msg Act) (p : Pkt)
    (m : PrepareTransaction) : Prop :=
  ∃ tid req s i, Known env r₀ input tid req ∧ (s, m) ∈ (prepareMessages env req).toList ∧
    p = ⟨.sendOnly, .replica s i, .prepareTransaction m⟩

/-- Every prepare a replica sends is such a piece. -/
theorem Moves.handedOut (h : Moves env r₀ input D x₀ x) {p : Pkt} {m : PrepareTransaction}
    (hp : p ∈ x.sent) (hm : p.msg = .prepareTransaction m) :
    p ∈ x₀.sent ∨ HandedOut env r₀ input p m := by
  induction h with
  | refl => exact .inl hp
  | tail _ hmove ih =>
      cases hmove with
      | send ps hps =>
          rcases List.mem_append.1 hp with hold | hnew
          · exact ih hold
          · have hcasual := hps p hnew
            rw [hm] at hcasual
            exact hcasual.elim
      | log remote dst m' sent hin hexec hlead hsent =>
          rcases hsent p hp with hold | ⟨r, hr, _⟩
          · exact ih hold
          · cases hm.symm.trans hr
      | replicate tid req ps hD hmode hreq hopen htimer hps =>
          rcases List.mem_append.1 hp with hold | hnew
          · exact ih hold
          · obtain ⟨i, m', rfl, _⟩ := hps p hnew
            cases hm
      | relay src dst msg hmsg =>
          rcases List.mem_append.1 hp with hold | hnew
          · exact ih hold
          · cases List.mem_singleton.1 hnew
            obtain rfl : msg = .prepareTransaction m := hm
            exact hmsg.elim
      | report tid txn src dst r htxn htid hshard hsrc hts =>
          rcases List.mem_append.1 hp with hold | hnew
          · exact ih hold
          · cases List.mem_singleton.1 hnew
            cases hm
      | vote sent hfollow hsent =>
          rcases hsent p hp with hold | ⟨_, r, hr⟩
          · exact ih hold
          · cases hm.symm.trans hr
      | refuse dst r hr =>
          rcases List.mem_append.1 hp with hold | hnew
          · exact ih hold
          · cases List.mem_singleton.1 hnew
            cases hm
      | answer remote dst m' z q r hin hans hq hstate =>
          rcases List.mem_append.1 hp with hold | hnew
          · exact ih hold
          · cases List.mem_singleton.1 hnew
            cases hm.symm.trans hq
      | final ps tid hknown hps =>
          rcases List.mem_append.1 hp with hold | hnew
          · exact ih hold
          · obtain ⟨_, r, hr⟩ := hps p hnew
            cases hm.symm.trans hr
      | piece tid req s i m' hreq hpiece =>
          rcases List.mem_append.1 hp with hold | hnew
          · exact ih hold
          · cases List.mem_singleton.1 hnew
            cases hm
            exact .inr ⟨tid, req, s, i, hreq, hpiece, rfl⟩
      | _ => exact ih hp

/-- Both ends of a step are sequences of moves. -/
theorem handleInput_stopped (env : ReplicaEnv) (ω : Choice) (input : Input Addr Msg Act)
    (x : Ctx Replica Addr Msg Event) :
    wp (handleInput env ω input) (fun _ => Stopped env x.state input x)
      (Stopped env x.state input x) x := by
  refine wp_mono (fun _ y hy => ?_) (fun _ hy => hy) (handleInput_moves env ω input x)
  rcases hy with hmoves | ⟨tid, hmoves, _⟩
  · exact ⟨none, hmoves⟩
  · exact ⟨some tid, hmoves⟩

/-- Whatever a replica does in one step, the prepares it sends are pieces. -/
theorem handleInput_handedOut {env : ReplicaEnv} {ω : Choice} {input : Input Addr Msg Act}
    {r : Replica} {p : Pkt} {m : PrepareTransaction}
    (hp : p ∈ (handleInput env ω input { state := r }).state.sent)
    (hm : p.msg = .prepareTransaction m) : HandedOut env r input p m := by
  obtain ⟨D, hmoves⟩ := wp_state (handleInput_stopped env ω input { state := r })
  rcases hmoves.handedOut hp hm with hold | hpiece
  · exact absurd hold List.not_mem_nil
  · exact hpiece

end Replica

end D2PC
