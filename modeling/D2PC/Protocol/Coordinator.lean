import D2PC.Protocol.Config
import Mathlib.Data.Finset.Card

/-!
# The coordinators of the parallel mode

`CoordinatorReplica` of `replication/commit/coordinator.cc`. The coordinator with the index
of a replica collects the votes of the shards for a transaction and tells the leaders next
to it when all are in; the coordinator of the primary shard also collects the replies of the
followers and announces the commit.
-/

namespace D2PC

/-- `PendingCommit`. -/
structure PendingCommit where
  tid : TxnId
  participants : List Shard := []
  votes : Table Shard CommitResult := ∅
  dependencies : Table Shard Bool := ∅
  replicateResults : Table Shard (List BypassLeaderReply) := ∅
  commitDecisionReplies : Finset ℕ := ∅
  majority : ℕ
  primaryShard : ℕ
  primaryCoordinator : ℕ
  timestamp : ℕ := 0
  state : CommitResult
  reachConsensus : Bool := false
  reachFaultTolerance : Bool := false

/-- The state of a `CoordinatorReplica`. -/
structure Coordinator where
  pendingCommits : Table TxnId PendingCommit := ∅
  commitResults : Table TxnId (CommitResult × Bool) := ∅

abbrev CoordinatorM := Prog (Ctx Coordinator Addr Msg Event)

/-- Which coordinator is running. -/
structure CoordinatorEnv where
  cfg : Config
  coordinatorId : ℕ

/-- `quorum_size`. -/
def CoordinatorEnv.quorumSize (env : CoordinatorEnv) : ℕ := env.cfg.n / 2 + 1

namespace Coordinator

open Ctx Prog

/-- `new PendingCommit(quorum_size, tid)`: three fields are not initialised. -/
def newCommit (env : CoordinatorEnv) (ω : Choice) (tid : TxnId) : PendingCommit where
  tid := tid
  majority := env.quorumSize
  primaryShard := ω.garbage
  primaryCoordinator := ω.garbage
  state := ω.garbageState

def setCommit (tid : TxnId) (req : PendingCommit) : CoordinatorM Unit :=
  update fun s => { s with pendingCommits := s.pendingCommits.insert tid req }

def eraseCommit (tid : TxnId) : CoordinatorM Unit :=
  update fun s => { s with pendingCommits := s.pendingCommits.erase tid }

/-- Record a decision in `commitResults`. -/
def record (tid : TxnId) (result : CommitResult) (announced : Bool) : CoordinatorM Unit := do
  update fun s => { s with commitResults := s.commitResults.insert tid (result, announced) }
  emit (.recorded tid result)

/-- The loop of `ReachConsensus`; looking up a vote that is missing enters the default. -/
def allPrepared (votes : Table Shard CommitResult) :
    List Shard → Bool × Table Shard CommitResult
  | [] => (true, votes)
  | p :: ps =>
      match votes.lookup p with
      | none => (false, votes.insert p .commit)
      | some v => if v = .prepared then allPrepared votes ps else (false, votes)

/-- `ReachConsensus`: as many votes as participants, all of them `PREPARED`. -/
def reachConsensus (req : PendingCommit) : Bool × PendingCommit :=
  if Table.size req.votes ≠ req.participants.length then (false, req)
  else
    let (ok, votes) := allPrepared req.votes req.participants
    (ok, { req with votes := votes })

/-- `AllParticipantsHaveNoPrecommitDependency`. -/
def allParticipantsHaveNoPrecommitDependency (req : PendingCommit) : Bool :=
  decide (Table.size req.dependencies = req.participants.length) &&
    req.participants.all fun p => decide (req.dependencies.lookup p ≠ some true)

/-- `ReachFaultTolerance`: as many shards as participants, each with a majority of replies. -/
def reachFaultTolerance (req : PendingCommit) : Bool :=
  decide (0 < req.participants.length) &&
    decide (Table.size req.replicateResults = req.participants.length) &&
    req.replicateResults.toList.all fun p => decide (req.majority ≤ p.2.length)

/-- `NotifyCommitDecision`: the participant leaders with the index of this coordinator. -/
def notifyCommitDecision (env : CoordinatorEnv) (req : PendingCommit) : CoordinatorM Unit :=
  send ((req.participants.filter fun p => p % env.cfg.n = env.coordinatorId).map fun p =>
    ⟨.sendOnly, .replica p env.coordinatorId, .notifyDecision
      { tid := req.tid, state := req.state, timestamp := req.timestamp }⟩)

/-- `NotifyReplicateResult`: announce the commit to the primary shard, and ship the recorded
state to all coordinators, the sender included. -/
def notifyReplicateResult (env : CoordinatorEnv) (req : PendingCommit) : CoordinatorM Unit := do
  emit (.announced req.tid)
  send [⟨.sendOnly, .replica req.primaryShard env.coordinatorId, .notifyReplicateResult
    { tid := req.tid, replicateSuccess := true, timestamp := req.timestamp }⟩]
  send ((List.range env.cfg.n).map fun i =>
    ⟨.coordinator env.coordinatorId, .coordinator i, .replicateDecision
      { tid := req.tid, state := req.state, timestamp := req.timestamp }⟩)

/-- Record the commit, announce it and forget the transaction. -/
def announce (env : CoordinatorEnv) (req : PendingCommit) (result : CommitResult) :
    CoordinatorM Unit := do
  record req.tid result true
  notifyReplicateResult env req
  eraseCommit req.tid

/-- A vote other than `PREPARED`: record the abort and forget the transaction. -/
def rejectCommit (env : CoordinatorEnv) (req : PendingCommit) : CoordinatorM Unit := do
  let req := { req with state := .abort, reachConsensus := true }
  record req.tid .abort false
  notifyCommitDecision env req
  eraseCommit req.tid

/-- The participants are learned from the first message that carries them. -/
def learnParticipants (req : PendingCommit) (participants : List Shard) : PendingCommit :=
  if req.participants = [] then { req with participants := participants } else req

/-- The transaction a vote is for: a new one takes what the message says, a pending one
learns the participants and takes this coordinator for the primary one. -/
def votedCommit (env : CoordinatorEnv) (ω : Choice) (pending : Option PendingCommit) (tid : TxnId)
    (participants : List Shard) (primaryShard primaryCoordinator timestamp : ℕ) : PendingCommit :=
  match pending with
  | none =>
      { newCommit env ω tid with
        primaryShard := primaryShard
        primaryCoordinator := primaryCoordinator
        participants := participants
        timestamp := timestamp }
  | some req =>
      { learnParticipants req participants with
        primaryShard := primaryShard
        primaryCoordinator := env.coordinatorId
        timestamp := max req.timestamp timestamp }

/-- Check for consensus after a vote was entered. -/
def collectVote (req : PendingCommit) : Bool × PendingCommit :=
  let (reached, req) := reachConsensus req
  (reached, if reached then { req with state := .prepared, reachConsensus := true } else req)

/-- After a vote: at consensus the leaders next to this coordinator are told, and the
coordinator of the primary shard announces the commit if the replies are in too. -/
def tallyVote (env : CoordinatorEnv) (tid : TxnId) (req : PendingCommit)
    (free : PendingCommit → Bool) : CoordinatorM Unit := do
  let (reached, req) := collectVote req
  setCommit tid req
  when reached do
    notifyCommitDecision env req
    when (decide (req.primaryCoordinator = env.coordinatorId) && req.reachFaultTolerance &&
        free req) do
      announce env req req.state

/-- `HandleReplicateReplyAndVote`. -/
def handleReplicateReplyAndVote (env : CoordinatorEnv) (ω : Choice)
    (msg : ReplicateReplyAndVote) : CoordinatorM Unit := do
  let results ← read (·.commitResults)
  if msg.tid ∈ results then pure ()
  else do
    let pending ← read (·.pendingCommits.lookup msg.tid)
    let req := votedCommit env ω pending msg.tid msg.participants msg.primaryShard
      msg.primaryCoordinator msg.timestamp
    setCommit msg.tid req
    if msg.vote = .prepared then do
      tallyVote env msg.tid
        { req with
          votes := req.votes.insert msg.shard msg.vote
          dependencies := req.dependencies.insert msg.shard msg.hasPreCommit }
        allParticipantsHaveNoPrecommitDependency
      send [⟨.coordinator env.coordinatorId, .coordinator msg.primaryCoordinator,
        .bypassLeaderReply { tid := msg.tid, shard := msg.shard, replica := msg.replica }⟩]
    else rejectCommit env req

/-- Enter the reply of one replica of one shard, unless it is already there. The flag tells
whether it was entered. -/
def addReply (req : PendingCommit) (reply : BypassLeaderReply) : Bool × PendingCommit :=
  let replies := (req.replicateResults.lookup reply.shard).getD []
  if replies.any fun p => p.replica = reply.replica then
    (false, { req with replicateResults := req.replicateResults.insert reply.shard replies })
  else (true, { req with
    replicateResults := req.replicateResults.insert reply.shard (replies ++ [reply]) })

/-- Check for fault tolerance after a reply was entered. -/
def collectReply (new : Bool) (req : PendingCommit) : Bool × PendingCommit :=
  if new && reachFaultTolerance req then (true, { req with reachFaultTolerance := true })
  else (false, req)

/-- `HandleBypassLeaderReply`. -/
def handleBypassLeaderReply (env : CoordinatorEnv) (ω : Choice) (msg : BypassLeaderReply) :
    CoordinatorM Unit := do
  let results ← read (·.commitResults)
  if msg.tid ∈ results then pure ()
  else do
    let pending ← read (·.pendingCommits.lookup msg.tid)
    let (new, req) := addReply (pending.getD (newCommit env ω msg.tid)) msg
    let (tolerant, req) := collectReply new req
    setCommit msg.tid req
    when (tolerant && req.reachConsensus && allParticipantsHaveNoPrecommitDependency req) do
      announce env req .commit

/-- The loop of `HandleBypassLeaderReplyUnion`. The flag `already_received` is not reset
between the shards. -/
def addReplies (env : CoordinatorEnv) (tid : TxnId) (replica : ℕ) :
    List Shard → Bool → PendingCommit → CoordinatorM Unit
  | [], _, req => setCommit tid req
  | q :: qs, already, req => do
      let replies := (req.replicateResults.lookup q).getD []
      let req := { req with replicateResults := req.replicateResults.insert q replies }
      let already := already || replies.any fun p => p.replica = replica
      if already then addReplies env tid replica qs already req
      else do
        let req := { req with
          replicateResults := req.replicateResults.insert q (replies ++ [⟨tid, q, replica⟩]) }
        let (tolerant, req) := collectReply true req
        if (tolerant && req.reachConsensus &&
            allParticipantsHaveNoPrecommitDependency req) = true then do
          setCommit tid req
          announce env req .commit
        else addReplies env tid replica qs already req

/-- `HandleBypassLeaderReplyUnion`. -/
def handleBypassLeaderReplyUnion (env : CoordinatorEnv) (ω : Choice)
    (msg : BypassLeaderReplyUnion) : CoordinatorM Unit := do
  let results ← read (·.commitResults)
  if msg.tid ∈ results then pure ()
  else do
    let pending ← read (·.pendingCommits.lookup msg.tid)
    addReplies env msg.tid msg.replica msg.shards false
      (pending.getD (newCommit env ω msg.tid))

/-- `HandleNotifyDependenciesAreCleared`. -/
def handleNotifyDependenciesAreCleared (env : CoordinatorEnv)
    (msg : NotifyDependenciesAreCleared) : CoordinatorM Unit := do
  match ← read (·.pendingCommits.lookup msg.tid) with
  | none => pure ()
  | some req => do
      let req := { req with dependencies := req.dependencies.insert msg.shard false }
      setCommit msg.tid req
      when (allParticipantsHaveNoPrecommitDependency req && req.reachConsensus &&
          req.reachFaultTolerance) do
        announce env req req.state

/-- `HandleReplicateDecision`. -/
def handleReplicateDecision (env : CoordinatorEnv) (msg : ReplicateDecision) :
    CoordinatorM Unit := do
  match ← read (·.pendingCommits.lookup msg.tid) with
  | none => pure ()
  | some req => do
      let req := { req with state := msg.state }
      setCommit msg.tid req
      record msg.tid (if req.state = .commit then .commit else .abort) false
      let primaryCoordinator := req.primaryShard % env.cfg.n
      send [⟨.coordinator env.coordinatorId, .coordinator primaryCoordinator, .replyDecision
        { tid := msg.tid, coordinatorId := env.coordinatorId, timestamp := req.timestamp }⟩]
      when (decide (primaryCoordinator ≠ env.coordinatorId)) (eraseCommit msg.tid)

/-- `HandleReplyDecision`. -/
def handleReplyDecision (msg : ReplyDecision) : CoordinatorM Unit := do
  match ← read (·.pendingCommits.lookup msg.tid) with
  | none => pure ()
  | some req =>
      if msg.coordinatorId ∈ req.commitDecisionReplies then pure ()
      else do
        let req := { req with
          commitDecisionReplies := insert msg.coordinatorId req.commitDecisionReplies }
        setCommit msg.tid req
        when (decide (req.majority ≤ req.commitDecisionReplies.card)) (eraseCommit msg.tid)

/-- `HandleNotifyDecision`; no process sends its message. -/
def handleNotifyDecision (env : CoordinatorEnv) (msg : NotifyDecisionToPrimary) :
    CoordinatorM Unit := do
  match ← read (·.pendingCommits.lookup msg.tid) with
  | none => pure ()
  | some req =>
      if req.reachConsensus then pure ()
      else do
        let req := { req with reachConsensus := true, state := msg.state }
        let req := if req.participants = [] then
          { req with primaryShard := msg.primaryShard, participants := msg.participants } else req
        if req.state = .commit then do
          let req := { req with timestamp := msg.timestamp }
          setCommit msg.tid req
          when req.reachFaultTolerance (announce env req req.state)
        else do
          record msg.tid .abort false
          notifyCommitDecision env req
          eraseCommit msg.tid

/-- `HandleRequestCommitResult`. A decided transaction is announced again, whatever was
decided. -/
def handleRequestCommitResult (env : CoordinatorEnv) (ω : Choice) (msg : RequestCommitResult) :
    CoordinatorM Unit := do
  match ← read (·.pendingCommits.lookup msg.tid) with
  | none => do
      let req := { newCommit env ω msg.tid with
        primaryShard := msg.primaryShard
        primaryCoordinator := env.coordinatorId
        participants := msg.participants }
      let results ← read (·.commitResults)
      if msg.tid ∈ results then notifyReplicateResult env req
      else setCommit msg.tid req
  | some req =>
      setCommit msg.tid { learnParticipants req msg.participants with
        primaryShard := msg.primaryShard }

/-- `HandleVote`. The dependencies are not asked for. -/
def handleVote (env : CoordinatorEnv) (ω : Choice) (msg : Vote) : CoordinatorM Unit := do
  let results ← read (·.commitResults)
  if msg.tid ∈ results then pure ()
  else do
    let pending ← read (·.pendingCommits.lookup msg.tid)
    let req := votedCommit env ω pending msg.tid msg.participants msg.primaryShard
      msg.primaryCoordinator msg.timestamp
    setCommit msg.tid req
    if msg.vote = .prepared then
      tallyVote env msg.tid { req with votes := req.votes.insert msg.shard msg.vote } fun _ => true
    else rejectCommit env req

/-- `HandleMessage`. -/
def handleMessage (env : CoordinatorEnv) (ω : Choice) : Msg → CoordinatorM Unit
  | .replicateReplyAndVote m => handleReplicateReplyAndVote env ω m
  | .bypassLeaderReply m => handleBypassLeaderReply env ω m
  | .replicateDecision m => handleReplicateDecision env m
  | .replyDecision m => handleReplyDecision m
  | .bypassLeaderReplyUnion m => handleBypassLeaderReplyUnion env ω m
  | .vote m => handleVote env ω m
  | .requestCommitResult m => handleRequestCommitResult env ω m
  | .notifyDecisionToPrimary m => handleNotifyDecision env m
  | .notifyDependenciesAreCleared m => handleNotifyDependenciesAreCleared env m
  | _ => crash

end Coordinator

end D2PC
