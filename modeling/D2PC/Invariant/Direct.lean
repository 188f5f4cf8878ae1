import D2PC.Invariant.History

/-!
# The invariant of the direct modes

In the fast, parallel and Carousel modes a client sends every participant its piece of the
transaction directly. This module states what then holds of every packet (`PacketOk`) and of
every process (`ClientOk`, `ReplicaOk`, `CoordinatorOk`) in every run; the following modules
prove that the handlers keep it.

Everything is said relative to the history: a reply in flight is backed by an entry of the
log of its sender, a vote by the validation of the leader, a commit message by the decision
of the client, an announcement by a majority at every participant.
-/

namespace D2PC

/-- The modes in which the client prepares every participant itself. -/
def Config.Direct (cfg : Config) : Prop :=
  cfg.mode = .fast ∨ cfg.mode = .parallel ∨ cfg.mode = .carousel

/-- The answer `LOG_STATE_PREPAREOK` of a shard tells of consensus, except in the Carousel
mode, where replicas answer on their own. -/
def Agreed (cfg : Config) (h : History) (s : Shard) (tid : TxnId) : Prop :=
  cfg.mode = .carousel ∨ Consensus cfg h s tid

theorem Agreed.mono {cfg : Config} {h es : History} {s : Shard} {tid : TxnId}
    (ha : Agreed cfg h s tid) : Agreed cfg (h ++ es) s tid :=
  ha.imp id Consensus.mono

/-! ### Packets -/

/-- What holds of a packet. -/
def PacketOk (cfg : Config) (h : History) (p : Pkt) : Prop :=
  match p.msg with
  | .prepareTransaction m =>
      m.mode ≠ .slow ∧ m.mode ≠ .rc ∧
      ∃ s j, p.src = .client m.tid s ∧ p.dst = .replica s j ∧
        (cfg.mode ≠ .carousel → j = cfg.leader s) ∧
        Piece h m.tid s (Table.ofList m.wset) ∧ Shape h m.tid m.participants m.primaryShard
  | .prepareTransactionReply m =>
      p.dst = .client m.tid m.shard ∧ (m.state = .prepareOk → Agreed cfg h m.shard m.tid)
  | .replicateTransaction m =>
      ∃ s j, p.src = .replica s (cfg.leader s) ∧ p.dst = .replica s j ∧ m.vote = .prepareOk ∧
        (∃ e, (cfg.leaderNode s, Event.logged m.txnLog.lsn e) ∈ h ∧
          e.Same (Log.ofProto m.txnLog)) ∧
        Shape h m.txnLog.txnId m.participants m.primaryShard ∧
        m.primaryCoordinator = m.primaryShard % cfg.n
  | .replicateTransactionReply m =>
      ∃ s, p.dst = .replica s (cfg.leader s) ∧ LoggedAt h s m.replicaId m.txnId
  | .parallelModeCommit m =>
      cfg.mode = .parallel ∧ ∃ s, p.src = .client m.tid s ∧ p.dst = .replica s (cfg.leader s) ∧
        Shape h m.tid m.participants s
  | .parallelModeCommitReply m => m.state = .commit ∧ Announced h m.tid
  | .commit m =>
      (m.state = .commit ∧ Decided h m.tid true) ∨ (m.state = .abort ∧ Decided h m.tid false)
  | .replicateReplyAndVote m =>
      cfg.mode = .parallel ∧ m.vote = .prepared ∧ Accepted cfg h m.shard m.tid ∧
        LoggedAt h m.shard m.replica m.tid ∧ Member h m.tid m.shard ∧
        Shape h m.tid m.participants m.primaryShard ∧
        m.primaryCoordinator = m.primaryShard % cfg.n
  | .bypassLeaderReply m =>
      cfg.mode = .parallel ∧ ∃ c, p.dst = .coordinator c ∧ Home cfg h m.tid c ∧
        LoggedAt h m.shard m.replica m.tid ∧ Member h m.tid m.shard
  | .vote m =>
      cfg.mode = .parallel ∧ m.vote = .prepared ∧ m.participants = [] ∧
        Accepted cfg h m.shard m.tid
  | .requestCommitResult m =>
      cfg.mode = .parallel ∧ ∃ c primary, p.dst = .coordinator c ∧ c = primary % cfg.n ∧
        Shape h m.tid m.participants primary
  | .replicateDecision m => cfg.mode = .parallel ∧ Announceable cfg h m.tid
  | .notifyReplicateResult m => cfg.mode = .parallel ∧ Announced h m.tid
  | .notifyDependenciesAreCleared _ => cfg.mode = .parallel
  | .bypassLeaderReplyUnion _ => False
  | .notifyDecisionToPrimary _ => False
  | .notifyDecision m => cfg.mode = .parallel ∧ m.state = .prepared
  | .replyDecision _ => cfg.mode = .parallel
  | .getData _ | .getDataReply _ | .replicateCommit _ => True

theorem PacketOk.mono {cfg : Config} {h es : History} {p : Pkt} (hp : PacketOk cfg h p) :
    PacketOk cfg (h ++ es) p := by
  obtain ⟨src, dst, msg⟩ := p
  cases msg with
  | prepareTransaction m =>
      obtain ⟨h₁, h₂, s, j, h₃, h₄, h₅, h₆, h₇⟩ := hp
      exact ⟨h₁, h₂, s, j, h₃, h₄, h₅, h₆.mono, h₇.mono⟩
  | prepareTransactionReply m => exact ⟨hp.1, fun hst => (hp.2 hst).mono⟩
  | replicateTransaction m =>
      obtain ⟨s, j, h₁, h₂, h₃, ⟨e, h₄, h₅⟩, h₆, h₇⟩ := hp
      exact ⟨s, j, h₁, h₂, h₃, ⟨e, mem_mono h₄, h₅⟩, h₆.mono, h₇⟩
  | replicateTransactionReply m =>
      obtain ⟨s, h₁, h₂⟩ := hp
      exact ⟨s, h₁, h₂.mono⟩
  | parallelModeCommit m =>
      obtain ⟨h₁, s, h₂, h₃, h₄⟩ := hp
      exact ⟨h₁, s, h₂, h₃, h₄.mono⟩
  | parallelModeCommitReply m => exact ⟨hp.1, hp.2.mono⟩
  | commit m => exact hp.imp (fun h => ⟨h.1, h.2.mono⟩) fun h => ⟨h.1, h.2.mono⟩
  | replicateReplyAndVote m =>
      obtain ⟨h₁, h₂, h₃, h₄, h₅, h₆, h₇⟩ := hp
      exact ⟨h₁, h₂, h₃.mono, h₄.mono, h₅.mono, h₆.mono, h₇⟩
  | bypassLeaderReply m =>
      obtain ⟨h₁, c, h₂, h₃, h₄, h₅⟩ := hp
      exact ⟨h₁, c, h₂, h₃.mono, h₄.mono, h₅.mono⟩
  | vote m => exact ⟨hp.1, hp.2.1, hp.2.2.1, hp.2.2.2.mono⟩
  | requestCommitResult m =>
      obtain ⟨h₁, c, primary, h₂, h₃, h₄⟩ := hp
      exact ⟨h₁, c, primary, h₂, h₃, h₄.mono⟩
  | replicateDecision m => exact ⟨hp.1, hp.2.mono⟩
  | notifyReplicateResult m => exact ⟨hp.1, hp.2.mono⟩
  | notifyDependenciesAreCleared m => exact hp
  | bypassLeaderReplyUnion m => exact hp
  | notifyDecisionToPrimary m => exact hp
  | notifyDecision m => exact hp
  | replyDecision m => exact hp
  | getData m => exact hp
  | getDataReply m => exact hp
  | replicateCommit m => exact hp

/-! ### Replicas -/

/-- The log of replica `i` of shard `s` against the entries that were recorded. -/
structure LogOk (cfg : Config) (s : Shard) (i : ℕ) (h : History) (l : Log) : Prop where
  own : ∀ lsn e, l.find lsn = some e → e.id = lsn ∧
    ∃ e₀, (Node.replica s i, Event.logged lsn e₀) ∈ h ∧ e₀.Same e
  kept : ∀ lsn e₀, (Node.replica s i, Event.logged lsn e₀) ∈ h →
    ∃ e, l.find lsn = some e ∧ e₀.Same e
  last : i = cfg.leader s → ∀ lsn e, l.find lsn = some e → lsn < l.last

/-- A pending transaction: the placeholder of a transaction whose prepare has not arrived,
or one that is in the log. -/
structure PendingOk (cfg : Config) (s : Shard) (i : ℕ) (h : History) (l : Log) (tid : TxnId)
    (req : PendingTransaction) : Prop where
  leader : i = cfg.leader s
  id : req.tid = tid
  majority : req.majority = cfg.quorumSize
  entry : (cfg.mode = .parallel ∧ req.timer = none ∧ req.hasPreCommit = false) ∨
    ((∃ e, l.find req.lsn = some e ∧ e.txn = tid) ∧ Shape h tid req.participants req.primaryShard)
  consensus : req.reachConsensus = true → Consensus cfg h s tid
  timer : ∀ b, req.timer = some (.resendPrepareOk b) → Consensus cfg h s tid
  quorum : ∀ term msgs, req.quorum.lookup term = some msgs → ∀ j m, msgs.lookup j = some m →
    LoggedAt h s j tid

/-- An active transaction. -/
structure ActiveOk (cfg : Config) (s : Shard) (i : ℕ) (h : History) (tid : TxnId)
    (txn : Transaction) : Prop where
  accepted : i = cfg.leader s → Accepted cfg h s tid
  shape : i = cfg.leader s → Shape h tid txn.participants txn.primaryShard
  out : cfg.mode ≠ .parallel → txn.out = []

/-- What an event recorded by a replica of shard `s` tells. -/
def ReplicaEventOk (cfg : Config) (s : Shard) (h : History) : Event → Prop
  | .validated tid wset => Piece h tid s wset
  | .logged lsn e => e.id = lsn ∧ Entry cfg h s e
  | .consensus tid => Quorum h s tid cfg.quorumSize
  | .applied tid state _ => (state = .commit ∧ (Decided h tid true ∨ Announced h tid)) ∨
      (state = .abort ∧ Decided h tid false)
  | .cascaded tid => cfg.mode ≠ .parallel → Decided h tid false
  | _ => True

/-- What holds of replica `i` of shard `s`. -/
structure ReplicaOk (cfg : Config) (s : Shard) (i : ℕ) (h : History) (r : Replica) : Prop where
  log : LogOk cfg s i h r.log
  pending : ∀ tid req, r.pendingTxns.lookup tid = some req → PendingOk cfg s i h r.log tid req
  active : ∀ tid txn, r.activeTxns.lookup tid = some (some txn) → ActiveOk cfg s i h tid txn
  committed : ∀ tid x, r.committedTxns.lookup tid = some x → x.1 = .commit ∨ x.1 = .abort
  clients : ∀ tid a, r.clientList.lookup tid = some (some a) → a = .client tid s
  prepares : ∀ tid, r.pendingPrepares.lookup tid = none
  events : ∀ e, (Node.replica s i, e) ∈ h → ReplicaEventOk cfg s h e

/-! ### Coordinators -/

/-- The transaction a coordinator collects votes and replies for. -/
structure CommitOk (cfg : Config) (c : ℕ) (h : History) (tid : TxnId) (req : PendingCommit) :
    Prop where
  id : req.tid = tid
  majority : req.majority = cfg.n / 2 + 1
  participants : req.participants = [] ∨ ∃ primary, Shape h tid req.participants primary
  votes : ∀ s, req.votes.lookup s = some .prepared → Accepted cfg h s tid
  replies : ∀ s l, req.replicateResults.lookup s = some l →
    Home cfg h tid c ∧ Member h tid s ∧ (l.map BypassLeaderReply.replica).Nodup ∧
      ∀ b ∈ l, LoggedAt h s b.replica tid
  consensus : req.reachConsensus = true → req.participants ≠ [] ∧
    ∀ s ∈ req.participants, Accepted cfg h s tid
  tolerance : req.reachFaultTolerance = true → req.participants ≠ [] ∧ Home cfg h tid c ∧
    ∀ s ∈ req.participants, Quorum h s tid (cfg.n / 2 + 1)

/-- What an event recorded by coordinator `c` tells. -/
def CoordinatorEventOk (cfg : Config) (c : ℕ) (h : History) : Event → Prop
  | .announced tid => cfg.mode = .parallel ∧ Announceable cfg h tid ∧ Home cfg h tid c
  | _ => True

/-- What holds of coordinator `c`. -/
structure CoordinatorOk (cfg : Config) (c : ℕ) (h : History) (s : Coordinator) : Prop where
  pending : ∀ tid req, s.pendingCommits.lookup tid = some req → CommitOk cfg c h tid req
  results : ∀ tid, tid ∈ s.commitResults → Announceable cfg h tid
  events : ∀ e, (Node.coordinator c, e) ∈ h → CoordinatorEventOk cfg c h e

/-! ### Clients -/

/-- The promise of a round: shards that answered agreed, a promise that is done was failed,
decided, or answered by all, and it only reports success if all agreed or the commit was
announced. -/
structure PromiseOk (cfg : Config) (h : History) (tid : TxnId) (participants : List Shard)
    (p : Promise) : Prop where
  number : p.participantNumber = participants.length
  replies : ∀ s r, p.prepareReplies.lookup s = some r →
    r = replyOk ∧ s ∈ participants ∧ Agreed cfg h s tid
  done : p.done = true → p.fail = false → p.reachFinalDecision = false →
    p.participantNumber ≤ Table.size p.prepareReplies
  reply : p.fail = true ∨ p.reachFinalDecision = true → p.reply = replyOk → Announced h tid

/-- A transaction buffered for participant `s` once the rounds have begun. -/
structure BufferOk (tid : TxnId) (st : Start) (s : Shard) (txn : Transaction) : Prop where
  id : txn.id = tid
  wset : txn.writeSet = (st.piece tid s).writeSet
  participants : ∀ q ∈ txn.participants, q ∈ st.participants

/-- What was handed to the transport thread. -/
def TaskOk (cfg : Config) (h : History) (tid : TxnId) : Task → Prop
  | .get _ _ _ => True
  | .prepare s txn _ => ∃ st, startOf h tid = some st ∧ s ∈ st.participants ∧
      BufferOk tid st s txn ∧ txn.primaryShard = st.primary ∧
      ∀ q, q ∈ txn.participants ↔ q ∈ st.participants
  | .parallelModeCommit s participants _ => cfg.mode = .parallel ∧ Shape h tid participants s

/-- What the reads of a client leave behind: at most one request for data is queued or
outstanding, and its promise has not been answered. -/
inductive Reading (c : Client) : Prop
  | idle : c.tasks = [] → (∀ s, c.pendingReqs.lookup s = none) → Reading c
  | queued (s : Shard) (keys : List Key) (a : ℕ) : c.tasks = [.get s keys a] →
      (∀ s, c.pendingReqs.lookup s = none) → (∀ p, c.promise = some p → p.done = false) →
      Reading c
  | sent (s : Shard) : c.tasks = [] →
      (∀ s' req, c.pendingReqs.lookup s' = some req → s' = s ∧ req = .getData) →
      (∀ p, c.promise = some p → p.done = false) → Reading c

/-- What holds of a client before it starts to commit. -/
structure RunningOk (h : History) (tid : TxnId) (c : Client) : Prop where
  start : startOf h tid = none
  undecided : ∀ b, ¬ Decided h tid b
  parallel : ∀ s, c.pendingParallelCommits.lookup s = none
  nodup : c.participants.Nodup
  buffers : ∀ s txn, c.txns.lookup s = some txn → txn.id = tid ∧ txn.participants = []

/-- What holds of a client that started. -/
structure StartedOk (cfg : Config) (h : History) (tid : TxnId) (st : Start) (c : Client) :
    Prop where
  start : startOf h tid = some st
  participants : c.participants = st.participants
  nodup : st.participants.Nodup
  primary : st.primary = Client.primaryNumber (Client.primaryShard ⟨cfg, tid⟩ st.participants)
  buffers : ∀ s, BufferOk tid st s (c.buffered ⟨cfg, tid⟩ s)
  tasks : ∀ t ∈ c.tasks, TaskOk cfg h tid t ∧ ∀ s keys a, t ≠ .get s keys a
  requests : ∀ s req, c.pendingReqs.lookup s = some req → s ∈ st.participants ∧ req ≠ .getData

/-- What holds of a client in each phase. -/
def PhaseOk (cfg : Config) (h : History) (tid : TxnId) (c : Client) : Prop :=
  match c.phase with
  | .running => RunningOk h tid c ∧ c.tasks = [] ∧ ∀ s, c.pendingReqs.lookup s = none
  | .reading _ _ _ _ => RunningOk h tid c ∧ Reading c
  | .preparing _ => ∃ st, StartedOk cfg h tid st c ∧ (∀ b, ¬ Decided h tid b) ∧
      ∀ p, c.promise = some p → PromiseOk cfg h tid st.participants p
  | .finished => (∃ st, StartedOk cfg h tid st c) ∨
      (startOf h tid = none ∧ c.tasks = [] ∧ (∀ s, c.pendingReqs.lookup s = none) ∧
        ∀ s, c.pendingParallelCommits.lookup s = none)

/-- What holds of the client of `tid`: it decides once, and it decides to commit only if
every participant agreed or a coordinator announced the commit. -/
structure ClientOk (cfg : Config) (tid : TxnId) (h : History) (c : Client) : Prop where
  phase : PhaseOk cfg h tid c
  once : ¬ (Decided h tid true ∧ Decided h tid false)
  outcome : Decided h tid true → Announced h tid ∨
    ∃ st, startOf h tid = some st ∧ ∀ s ∈ st.participants, Agreed cfg h s tid

/-! ### The invariant -/

/-- What holds of each process. -/
def NodeOk (cfg : Config) (h : History) : (n : Node) → Local n → Prop
  | .client tid, c => ClientOk cfg tid h c
  | .replica s i, r => ReplicaOk cfg s i h r
  | .coordinator c, s => CoordinatorOk cfg c h s

end D2PC
