import D2PC.System

/-!
# Who sends what

The kinds of messages each process sends, whatever happens to it, and the fields of its
messages to the coordinators that a replica leaves unset.

* `Client.handleInput_sends`, `Coordinator.handleInput_sends`, `Replica.handleInput_sends` :
  one step of each.
-/

namespace D2PC

open Ctx Prog

/-- The messages of a client. -/
def Msg.ofClient : Msg → Prop
  | .getData _ | .prepareTransaction _ | .parallelModeCommit _ | .commit _ => True
  | _ => False

/-- The messages of a coordinator. -/
def Msg.ofCoordinator : Msg → Prop
  | .notifyDecision _ | .notifyReplicateResult _ | .replicateDecision _ | .bypassLeaderReply _
  | .replyDecision _ => True
  | _ => False

/-- The messages of a replica. It tells the coordinators no timestamp, and the primary shard
only with the reply to a replicated transaction. -/
def Msg.ofReplica : Msg → Prop
  | .getDataReply _ | .prepareTransaction _ | .prepareTransactionReply _
  | .replicateTransaction _ | .replicateTransactionReply _ | .replicateCommit _
  | .parallelModeCommitReply _ | .notifyDependenciesAreCleared _ => True
  | .replicateReplyAndVote m => m.timestamp = 0
  | .vote m => m.timestamp = 0 ∧ m.primaryShard = 0
  | .requestCommitResult m => m.primaryShard = 0
  | _ => False

/-! ### Clients -/

namespace Client

/-- A packet of the client `tid`. -/
def Utters (tid : TxnId) (p : Pkt) : Prop := p.msg.ofClient ∧ ∃ s, p.src = .client tid s

/-- A handler of a client sends the messages of a client, from its own sockets. -/
abbrev Speaks {α : Type} (env : ClientEnv) (x : ClientM α) : Prop := Sends (Utters env.tid) x

variable {env : ClientEnv} {ω : Choice}

theorem sendMessageToReplica_sends {s : Shard} {idx : ℕ} {m : Msg} (hm : m.ofClient) :
    Speaks env (sendMessageToReplica env s idx m) := by
  apply Sends.send
  intro p hp
  rw [List.mem_singleton.1 hp]
  exact ⟨hm, s, rfl⟩

theorem sendMessageToAll_sends {s : Shard} {m : Msg} (hm : m.ofClient) :
    Speaks env (sendMessageToAll env s m) := by
  apply Sends.send
  intro p hp
  obtain ⟨i, _, rfl⟩ := List.mem_map.1 hp
  exact ⟨hm, s, rfl⟩

theorem runTask_sends (t : Task) : Speaks env (runTask env ω t) := by
  cases t with
  | get s keys promise =>
      refine .bind (.update _) fun _ => .when (.bind ?_ fun _ => .update _)
      exact sendMessageToReplica_sends trivial
  | prepare s txn promise =>
      refine .bind (.update _) fun _ => .bind (.update _) fun _ => .bind ?_ fun _ =>
        .when (.update _)
      refine .ite ?_ (.when ?_)
      · exact sendMessageToAll_sends trivial
      · exact sendMessageToReplica_sends trivial
  | parallelModeCommit s participants promise =>
      refine .bind (.update _) fun _ => .when (.bind ?_ fun _ => .update _)
      exact sendMessageToReplica_sends trivial

theorem readNext_sends (l : List (Shard × List Key)) : Speaks env (readNext l) := by
  cases l with
  | nil =>
      unfold readNext
      exact .update _
  | cons p l => exact .bind (.update _) fun _ => .bind (.update _) fun _ => .update _

theorem invokeCommit_sends (state : LogEntryState) : Speaks env (invokeCommit env state) := by
  refine .bind (.read _) fun participants => .bind (.forM fun p _ => ?_) fun _ => .update _
  exact .bind (.update _) fun _ => sendMessageToReplica_sends trivial

theorem finish_sends (status : ℕ) : Speaks env (finish env status) :=
  .ite (.bind (.emit _) fun _ => invokeCommit_sends _)
    (.bind (.emit _) fun _ => invokeCommit_sends _)

theorem addPrepareTask_sends (s : Shard) : Speaks env (addPrepareTask env s) :=
  .bind (.read _) fun _ => .update _

theorem addParallelTask_sends (s : Shard) : Speaks env (addParallelTask env s) :=
  .bind (.read _) fun _ => .update _

theorem setParticipants_sends (s : Shard) (participants : List Shard) :
    Speaks env (setParticipants env s participants) := by
  unfold setParticipants modifyBuffer
  exact .update _

theorem setPrimaryShard_sends (s : Shard) (primary : Option Shard) :
    Speaks env (setPrimaryShard env s primary) := by
  unfold setPrimaryShard modifyBuffer
  exact .update _

theorem prepare_sends : Speaks env (prepare env) := by
  refine .bind (.read _) fun participants => .bind (.update _) fun _ => .ite ?_ (.ite ?_ ?_)
  · refine .bind (.deref _) fun primary => .bind ?_ fun _ => .pure _
    refine .bind (setParticipants_sends _ _) fun _ => .bind (.forM fun p _ => ?_) fun _ =>
      .bind (setPrimaryShard_sends _ _) fun _ => addPrepareTask_sends _
    refine .bind (.read _) fun txn => .bind (.forM fun _ _ => .update _) fun _ => ?_
    exact .forM fun _ _ => .update _
  · exact .pure _
  · refine .bind ?_ fun _ => .pure _
    refine .bind (.forM fun p _ => ?_) fun _ => .when ?_
    · exact .bind (setParticipants_sends _ _) fun _ => .bind (setPrimaryShard_sends _ _) fun _ =>
        .bind (addPrepareTask_sends _) fun _ => .when (addParallelTask_sends _)
    · exact .bind (.deref _) fun _ => .bind (setParticipants_sends _ _) fun _ =>
        addParallelTask_sends _

theorem round_sends (retryNum : ℕ) : Speaks env (round env retryNum) := by
  refine .bind (.update _) fun _ => .bind prepare_sends fun status => ?_
  cases status with
  | none => exact .pure _
  | some status => exact finish_sends status

theorem wake_sends : Speaks env (wake env) := by
  refine .bind (.read _) fun x => ?_
  split
  · exact .bind (.update _) fun _ => .ite (finish_sends _) (round_sends _)
  · refine .bind (.when (.forM fun _ _ => .update _)) fun _ => readNext_sends _
  · exact .pure _

theorem replyGet_sends (s : Shard) (f : Promise → Promise) : Speaks env (replyGet ω s f) := by
  refine .bind (.read _) fun p => ?_
  cases p with
  | none => exact .update _
  | some p => exact .bind (.update _) fun _ => .update _

theorem call_sends {x : ClientM Unit} (hx : Speaks env x) : Speaks env (call x) := by
  refine .bind (.read _) fun phase => ?_
  split
  · exact hx
  · exact .pure _

theorem handleAction_sends (a : Action) : Speaks env (handleAction env ω a) := by
  cases a with
  | get key =>
      refine call_sends (.bind (.update _) fun _ => .bind (.read _) fun txn => .ite (.pure _) ?_)
      exact .bind (.update _) fun _ => .bind (.update _) fun _ => .update _
  | multiGet keys =>
      refine call_sends (.bind (.forM fun _ _ => .update _) fun _ => .bind (.update _) fun _ => ?_)
      split
      · exact .update _
      · exact readNext_sends _
  | put key value => exact call_sends (.bind (.update _) fun _ => .update _)
  | commit =>
      refine call_sends (.bind (.read _) fun _ => .bind (.read _) fun _ => .bind (.emit _) fun _ => ?_)
      exact round_sends 0
  | abort => exact call_sends (.bind (.emit _) fun _ => invokeCommit_sends _)
  | wake => exact wake_sends
  | task i =>
      refine .bind (.read _) fun t => ?_
      cases t with
      | none => exact .pure _
      | some t => exact .bind (.update _) fun _ => runTask_sends t
  | prepareTimeout s =>
      refine .bind (.read _) fun req => ?_
      split
      · refine .bind (.update _) fun _ => .bind (.read _) fun p => ?_
        cases p with
        | none => exact .pure _
        | some p => exact .update _
      · exact .pure _
  | getTimeout s =>
      refine .bind (.read _) fun req => ?_
      split
      · exact .bind (.update _) fun _ => replyGet_sends _ _
      · exact .pure _
  | parallelModeCommitTimeout s =>
      unfold handleAction parallelModeCommitTimeout
      exact .update _

theorem handlePrepareTxnReply_sends (s : Shard) (msg : PrepareTransactionReply) :
    Speaks env (handlePrepareTxnReply env ω s msg) := by
  refine .bind (.read _) fun req => ?_
  split
  · exact .pure _
  · exact .crash
  · split
    · refine .bind (.bind (.read _) fun p => ?_) fun _ => .update _
      cases p with
      | none => exact .pure _
      | some p => exact .ite (.pure _) (.ite (.bind (.update _) fun _ => .update _) (.update _))
    · exact .update _

theorem handleMessage_sends (s : Shard) (m : Msg) : Speaks env (handleMessage env ω s m) := by
  unfold handleMessage
  split
  · exact .when (handlePrepareTxnReply_sends s _)
  · refine .when (.bind (.read _) fun req => ?_)
    split
    · exact .pure _
    · exact .crash
    · exact .bind (.update _) fun _ => replyGet_sends _ _
  · refine .when (.bind (.read _) fun req => ?_)
    split
    · exact .pure _
    · exact .bind (.update _) fun _ => .bind (.update _) fun _ => replyGet_sends _ _
  · exact .pure _

/-- **A step of a client** sends the messages of a client. -/
theorem handleInput_sends (env : ClientEnv) (ω : Choice) (input : Input Addr Msg Act) :
    Speaks env (handleInput env ω input) := by
  unfold handleInput
  split
  · exact handleMessage_sends _ _
  · exact handleAction_sends _
  · exact .pure _

end Client

/-! ### Coordinators -/

namespace Coordinator

/-- A handler of a coordinator sends the messages of a coordinator. -/
abbrev Speaks {α : Type} (x : CoordinatorM α) : Prop := Sends (fun p : Pkt => p.msg.ofCoordinator) x

variable {env : CoordinatorEnv} {ω : Choice}

theorem send_sends {src dst : Addr} {m : Msg} (hm : m.ofCoordinator) :
    Speaks (send [⟨src, dst, m⟩]) := by
  apply Sends.send
  intro p hp
  rw [List.mem_singleton.1 hp]
  exact hm

theorem notifyCommitDecision_sends (req : PendingCommit) :
    Speaks (notifyCommitDecision env req) := by
  apply Sends.send
  intro p hp
  obtain ⟨i, _, rfl⟩ := List.mem_map.1 hp
  trivial

theorem notifyReplicateResult_sends (req : PendingCommit) :
    Speaks (notifyReplicateResult env req) := by
  refine .bind (.emit _) fun _ => .bind (send_sends trivial) fun _ => .send fun p hp => ?_
  obtain ⟨i, _, rfl⟩ := List.mem_map.1 hp
  trivial

theorem record_sends (tid : TxnId) (result : CommitResult) (announced : Bool) :
    Speaks (record tid result announced) :=
  .bind (.update _) fun _ => .emit _

theorem announce_sends (req : PendingCommit) (result : CommitResult) :
    Speaks (announce env req result) :=
  .bind (record_sends _ _ _) fun _ => .bind (notifyReplicateResult_sends _) fun _ => .update _

theorem rejectCommit_sends (req : PendingCommit) : Speaks (rejectCommit env req) :=
  .bind (record_sends _ _ _) fun _ => .bind (notifyCommitDecision_sends _) fun _ => .update _

theorem tallyVote_sends (tid : TxnId) (req : PendingCommit) (free : PendingCommit → Bool) :
    Speaks (tallyVote env tid req free) :=
  .bind (.update _) fun _ => .when (.bind (notifyCommitDecision_sends _) fun _ =>
    .when (announce_sends _ _))

theorem addReplies_sends (tid : TxnId) (replica : ℕ) (qs : List Shard) :
    ∀ already req, Speaks (addReplies env tid replica qs already req) := by
  induction qs with
  | nil =>
      intro already req
      unfold addReplies setCommit
      exact .update _
  | cons q qs ih =>
      intro already req
      refine .ite (ih _ _) (.ite ?_ (ih _ _))
      exact .bind (.update _) fun _ => announce_sends _ _

theorem handleMessage_sends (m : Msg) : Speaks (handleMessage env ω m) := by
  unfold handleMessage
  split
  · refine .bind (.read _) fun _ => .ite (.pure _) (.bind (.read _) fun _ => .bind (.update _) fun _ =>
      .ite ?_ (rejectCommit_sends _))
    exact .bind (tallyVote_sends _ _ _) fun _ => send_sends trivial
  · refine .bind (.read _) fun _ => .ite (.pure _) (.bind (.read _) fun _ => .bind (.update _) fun _ => ?_)
    exact .when (announce_sends _ _)
  · refine .bind (.read _) fun req => ?_
    cases req with
    | none => exact .pure _
    | some req =>
        exact .bind (.update _) fun _ => .bind (record_sends _ _ _) fun _ =>
          .bind (send_sends trivial) fun _ => .when (.update _)
  · refine .bind (.read _) fun req => ?_
    cases req with
    | none => exact .pure _
    | some req => exact .ite (.pure _) (.bind (.update _) fun _ => .when (.update _))
  · exact .bind (.read _) fun _ => .ite (.pure _) (.bind (.read _) fun _ => addReplies_sends _ _ _ _ _)
  · refine .bind (.read _) fun _ => .ite (.pure _) (.bind (.read _) fun _ => .bind (.update _) fun _ => ?_)
    exact .ite (tallyVote_sends _ _ _) (rejectCommit_sends _)
  · refine .bind (.read _) fun req => ?_
    cases req with
    | none => exact .bind (.read _) fun _ => .ite (notifyReplicateResult_sends _) (.update _)
    | some req => exact .update _
  · refine .bind (.read _) fun req => ?_
    cases req with
    | none => exact .pure _
    | some req =>
        refine .ite (.pure _) (.ite ?_ ?_)
        · exact .bind (.update _) fun _ => .when (announce_sends _ _)
        · exact .bind (record_sends _ _ _) fun _ => .bind (notifyCommitDecision_sends _) fun _ =>
            .update _
  · refine .bind (.read _) fun req => ?_
    cases req with
    | none => exact .pure _
    | some req => exact .bind (.update _) fun _ => .when (announce_sends _ _)
  · exact .crash

/-- **A step of a coordinator** sends the messages of a coordinator. -/
theorem handleInput_sends (env : CoordinatorEnv) (ω : Choice) (input : Input Addr Msg Act) :
    Speaks (handleInput env ω input) := by
  unfold handleInput
  split
  · exact handleMessage_sends _
  · exact .pure _

end Coordinator

/-! ### Replicas -/

namespace Replica

/-- The messages of a replica, with votes in `V`. -/
def Utters (V : Vote → Prop) : Msg → Prop
  | .vote m => V m
  | m => m.ofReplica

/-- A handler of a replica sends the messages of a replica, and no vote but those in `V`. -/
abbrev Speaks {α : Type} (V : Vote → Prop) (x : ReplicaM α) : Prop :=
  Sends (fun p : Pkt => Utters V p.msg) x

/-- The vote `CascadeAbort` sends for a transaction. -/
def cascadeVote (env : ReplicaEnv) (tid : TxnId) : Vote where
  tid := tid
  vote := .prepared
  shard := env.shardId

variable {env : ReplicaEnv} {ω : Choice} {V : Vote → Prop}

theorem sendOne_sends {src dst : Addr} {m : Msg} (hm : Utters V m) :
    Speaks V (send [⟨src, dst, m⟩]) := by
  apply Sends.send
  intro p hp
  rw [List.mem_singleton.1 hp]
  exact hm

theorem sendMessage_sends {remote : Addr} {m : Msg} (hm : Utters V m) :
    Speaks V (sendMessage env remote m) := sendOne_sends hm

theorem sendMessageToAll_sends {m : Msg} (hm : Utters V m) :
    Speaks V (sendMessageToAll env m) := by
  apply Sends.send
  intro p hp
  obtain ⟨i, _, rfl⟩ := List.mem_map.1 hp
  exact hm

theorem sendMessageToCoordinators_sends {m : Msg} (hm : Utters V m) :
    Speaks V (sendMessageToCoordinators env m) := by
  apply Sends.send
  intro p hp
  obtain ⟨i, _, rfl⟩ := List.mem_map.1 hp
  exact hm

theorem activePtr_sends (tid : TxnId) : Speaks V (activePtr tid) := by
  refine .bind (.read _) fun p => ?_
  cases p with
  | some p => exact .pure _
  | none => exact .bind (.update _) fun _ => .pure _

theorem clientPtr_sends (tid : TxnId) : Speaks V (clientPtr tid) := by
  refine .bind (.read _) fun p => ?_
  cases p with
  | some p => exact .pure _
  | none => exact .bind (.update _) fun _ => .pure _

theorem prepareClientPtr_sends (tid : TxnId) : Speaks V (prepareClientPtr tid) := by
  refine .bind (.read _) fun p => ?_
  cases p with
  | some p => exact .pure _
  | none => exact .bind (.update _) fun _ => .pure _

theorem replicateTxn_sends (tid : TxnId) : Speaks V (replicateTxn env ω tid) := by
  refine .bind (.read _) fun _ => .bind (.deref _) fun req => .bind (.read _) fun _ =>
    .bind (sendMessageToAll_sends trivial) fun _ => .ite ?_ (.update _)
  split
  · exact .crash
  · exact .update _
  · exact .update _

theorem resendReplicateTxn_sends (tid : TxnId) : Speaks V (resendReplicateTxn env ω tid) :=
  .ite (.pure _) (replicateTxn_sends tid)

theorem invokeReplicateTxn_sends (entry : LogEntry) (hasPreCommit : Bool) :
    Speaks V (invokeReplicateTxn env ω entry hasPreCommit) := by
  refine .bind (.read _) fun req => ?_
  cases req with
  | none =>
      exact .bind (activePtr_sends _) fun _ => .bind (.deref _) fun _ => .bind (.update _) fun _ =>
        .ite (.pure _) (replicateTxn_sends _)
  | some req =>
      refine .ite ?_ (resendReplicateTxn_sends _)
      exact .bind (activePtr_sends _) fun _ => .bind (.deref _) fun _ => .bind (.update _) fun _ =>
        replicateTxn_sends _

theorem handleReplicateTransaction_sends (remote : Addr) (msg : ReplicateTransaction) :
    Speaks V (handleReplicateTransaction env ω remote msg) := by
  refine .bind (.update _) fun _ => .bind (.read _) fun _ => .bind (.when ?_) fun _ =>
    .bind (sendMessage_sends trivial) fun _ => .when (sendOne_sends rfl)
  exact .bind (.update _) fun _ => .bind (.emit _) fun _ => .bind (.update _) fun _ => .update _

theorem handleConsensus_sends (tid : TxnId) : Speaks V (handleConsensus env ω tid) := by
  refine .bind (activePtr_sends _) fun _ => .bind (.deref _) fun _ => .bind (.read _) fun _ =>
    .bind (.deref _) fun _ => .ite (.ite ?_ ?_) (.ite (.pure _) ?_)
  · exact .bind (sendOne_sends trivial) fun _ => .update _
  · exact .bind (.update _) fun _ => .update _
  · refine .bind (clientPtr_sends _) fun _ => .bind (.deref _) fun _ => .ite ?_ ?_
    · exact .bind (sendMessage_sends trivial) fun _ => .update _
    · exact .bind (.update _) fun _ => .bind (.update _) fun _ => .update _

theorem handleReplicateTransactionReply_sends (msg : ReplicateTransactionReply) :
    Speaks V (handleReplicateTransactionReply env ω msg) := by
  refine .bind (.read _) fun req => ?_
  cases req with
  | none => exact .pure _
  | some req =>
      refine .ite (.pure _) (.bind (.update _) fun _ => .ite ?_ (.pure _))
      exact .bind (.update _) fun _ => .bind (.emit _) fun _ => handleConsensus_sends _

theorem resendPrepareOk_sends (tid : TxnId) : Speaks V (resendPrepareOk env ω tid) := by
  refine .bind (.read _) fun req => ?_
  cases req with
  | none => exact .pure _
  | some req =>
      refine .bind (activePtr_sends _) fun _ => .bind (.deref _) fun _ => .ite (.when ?_) ?_
      · exact .bind (sendOne_sends trivial) fun _ => .update _
      · refine .bind (clientPtr_sends _) fun _ => .bind (.deref _) fun _ => .when ?_
        exact .bind (sendMessage_sends trivial) fun _ => .update _

theorem cascadeAbort_sends (hV : ∀ tid, V (cascadeVote env tid)) (fuel : ℕ) :
    ∀ tid, Speaks V (cascadeAbort env fuel tid) := by
  induction fuel with
  | zero => exact fun _ => .crash
  | succ fuel ih =>
      intro tid
      refine .bind (.update _) fun _ => .bind (.emit _) fun _ => .bind (.read _) fun req => ?_
      cases req with
      | none => exact .pure _
      | some req =>
          refine .bind (activePtr_sends _) fun _ => .bind (.deref _) fun txn => .forM fun out _ => ?_
          refine .bind (.read _) fun ptr => ?_
          cases ptr with
          | none => exact .update _
          | some ptr =>
              exact .bind (ih out) fun _ => sendMessageToCoordinators_sends (hV tid)

theorem notifyForFollowingDependenies_sends (tid : TxnId) :
    Speaks V (notifyForFollowingDependenies env tid) := by
  refine .bind (.read _) fun req => ?_
  cases req with
  | none => exact .pure _
  | some req =>
      refine .bind (activePtr_sends _) fun _ => .bind (.deref _) fun txn => .forM fun out _ => ?_
      refine .bind (.read _) fun ptr => ?_
      cases ptr with
      | none => exact .update _
      | some ptr =>
          exact .bind (.deref _) fun _ => .bind (.update _) fun _ => .when (sendOne_sends trivial)

theorem notifyCommitToReplica_sends (req : PendingTransaction) (msg : CommitMsg) :
    Speaks V (notifyCommitToReplica env ω req msg) := by
  refine .bind (.update _) fun _ => .ite (.forM fun p _ => sendOne_sends trivial) ?_
  exact .bind (sendMessageToAll_sends trivial) fun _ => .when (.update _)

theorem applyToStore_sends (msg : CommitMsg) : Speaks V (applyToStore msg) := by
  refine .bind (.update _) fun _ => .bind (activePtr_sends _) fun txn => ?_
  split
  · exact .bind (.update _) fun _ => .emit _
  · exact .bind (.deref _) fun _ => .bind (.update _) fun _ => .emit _
  · exact .pure _

theorem handleCommit_sends {msg : CommitMsg}
    (hV : msg.state.code ≠ CommitResult.commit.code → ∀ tid, V (cascadeVote env tid)) :
    Speaks V (handleCommit env ω msg) := by
  refine .bind (.read _) fun req => ?_
  cases req with
  | none => exact .pure _
  | some req =>
      refine .bind (.update _) fun _ => .bind (.ite (.update _) ?_) fun _ => .update _
      refine .bind (.read _) fun _ => .bind (.deref _) fun _ => .bind (.update _) fun _ =>
        .bind ?_ fun _ => .bind (activePtr_sends _) fun _ => .bind ?_ fun _ => ?_
      · exact .bind (.when (notifyCommitToReplica_sends _ _)) fun _ => .when (applyToStore_sends _)
      · unfold settleDependents
        split_ifs with hcommit
        · exact notifyForFollowingDependenies_sends _
        · exact .bind (.read _) fun _ => cascadeAbort_sends (hV hcommit) _ _
      · exact .bind (.update _) fun _ => .bind (.when (.bind (.deref _) fun _ => .pure _)) fun _ =>
          .bind (.update _) fun _ => .update _

theorem handleReplicateCommit_sends (msg : ReplicateCommit) :
    Speaks V (handleReplicateCommit env msg) := by
  refine .ite (.pure _) (.bind (.when (.update _)) fun _ => .bind (activePtr_sends _) fun ptr => ?_)
  cases ptr with
  | none => exact .pure _
  | some txn =>
      refine .bind ?_ fun _ => .update _
      unfold replicateOutcome
      split
      · exact .update _
      · exact .update _
      · exact .pure _

theorem readKey_sends (tid : TxnId) (key : Key) : Speaks V (readKey env tid key) := by
  refine .bind (.read _) fun rep => .ite (.ite ?_ (.pure _)) (.pure _)
  refine .bind (activePtr_sends _) fun ptr => ?_
  cases ptr with
  | none => exact .pure _
  | some dependent =>
      refine .bind (.update _) fun _ => .bind (.update _) fun _ => ?_
      split
      · exact .bind (.emit _) fun _ => .pure _
      · exact .pure _

theorem readKeys_sends (tid : TxnId) (keys : List Key) : Speaks V (readKeys env tid keys) := by
  induction keys with
  | nil => exact .pure _
  | cons key keys ih =>
      refine .bind (readKey_sends _ _) fun v => ?_
      cases v with
      | none => exact .pure _
      | some v => exact .bind ih fun _ => .pure _

theorem handleDecisionFromCoordinatorReplica_sends {msg : NotifyDecision}
    (hV : msg.state ≠ .prepared → ∀ tid, V (cascadeVote env tid)) :
    Speaks V (handleDecisionFromCoordinatorReplica env msg) := by
  refine .bind (.read _) fun req => ?_
  cases req with
  | none => exact .pure _
  | some req =>
      refine .bind ?_ fun _ => .bind (.bind (.read _) fun ptr => ?_) fun _ => .update _
      · unfold endConcurrencyControl
        split_ifs with hprepared
        · exact .update _
        · exact .bind (.read _) fun _ => .bind (cascadeAbort_sends (hV hprepared) _ _) fun _ =>
            .update _
      · cases ptr with
        | none => exact .pure _
        | some ptr => exact .bind (.deref _) fun _ => .pure _

theorem handleReplicateResult_sends (msg : NotifyReplicateResult) :
    Speaks V (handleReplicateResultFromCoordinatorReplica env ω msg) := by
  refine .bind (.bind (.read _) fun req => ?_) fun _ => handleCommit_sends fun hne => absurd rfl hne
  cases req with
  | none => exact .pure _
  | some req =>
      exact .bind (clientPtr_sends _) fun _ => .bind (.deref _) fun _ =>
        .bind (sendMessage_sends trivial) fun _ => .update _

theorem handleParallelModeCommit_sends (remote : Addr) (msg : ParallelModeCommit) :
    Speaks V (handleParallelModeCommit env ω remote msg) := by
  refine .bind (.read _) fun req => ?_
  cases req with
  | none => exact .bind (.update _) fun _ => sendOne_sends rfl
  | some req => exact .update _

theorem sendPrepare_sends (tid : TxnId) : Speaks V (sendPrepare env ω tid) := by
  refine .bind (.read _) fun _ => .bind (.deref _) fun req => .forM fun p _ => .ite ?_ (.update _)
  exact .bind (sendOne_sends trivial) fun _ => .update _

theorem handlePrepare_sends (remote : Addr) (msg : PrepareTransaction) :
    Speaks V (handlePrepare env ω remote msg) := by
  refine .bind (.update _) fun _ => .bind (.read _) fun req => ?_
  cases req with
  | none => exact .bind (.update _) fun _ => sendPrepare_sends _
  | some req => exact sendPrepare_sends _

theorem replyFinalDecision_sends (hV : ∀ tid, V (cascadeVote env tid)) (tid : TxnId) :
    Speaks V (replyFinalDecision env ω tid) := by
  refine .bind (.read _) fun _ => .bind (.deref _) fun req => .bind (prepareClientPtr_sends _)
    fun _ => .bind (.deref _) fun _ => .bind (sendMessage_sends trivial) fun _ =>
    .bind (.when ?_) fun _ => .when ?_
  · exact .bind (.update _) fun _ => .bind (sendMessageToAll_sends trivial) fun _ =>
      .when (.update _)
  · exact .bind (handleCommit_sends fun _ => hV) fun _ => .bind (.update _) fun _ => .update _

theorem handlePrepareTransactionReply_sends (hV : ∀ tid, V (cascadeVote env tid))
    (msg : PrepareTransactionReply) :
    Speaks V (handlePrepareTransactionReply env ω msg) := by
  refine .bind (.read _) fun req => ?_
  cases req with
  | none => exact .pure _
  | some req =>
      refine .ite (.bind (.update _) fun _ => ?_) (.ite (.ite (.pure _) ?_) ?_)
      · split
        · exact .pure _
        · exact .bind (.update _) fun _ => .bind (handleCommit_sends fun _ => hV) fun _ =>
            .bind (.update _) fun _ => .update _
      · refine .bind (.update _) fun _ => .ite (.pure _) (.bind (.update _) fun _ =>
          .ite ?_ (.pure _))
        exact .bind (.update _) fun _ => .bind (.emit _) fun _ => replyFinalDecision_sends hV _
      · exact .bind (.update _) fun _ => replyFinalDecision_sends hV _

theorem answerPrepare_sends (remote : Addr) (msg : PrepareTransaction)
    (reply : PrepareTransactionReply) : Speaks V (answerPrepare env remote msg reply) :=
  .ite (sendOne_sends trivial) (sendMessage_sends trivial)

theorem acceptPrepare_sends (remote : Addr) (txn : Transaction) :
    Speaks V (acceptPrepare env ω remote txn) := by
  refine .ite (.pure _) (.bind (.when (sendOne_sends trivial)) fun _ =>
    .bind (.when (sendMessage_sends trivial)) fun _ => .when ?_)
  exact .bind (.update _) fun _ => .bind (.read _) fun _ => .bind (.update _) fun _ =>
    .bind (.emit _) fun _ => invokeReplicateTxn_sends _ _

theorem prepareNew_sends (remote : Addr) (msg : PrepareTransaction) :
    Speaks V (prepareNew env ω remote msg) := by
  refine .bind (.update _) fun _ => .bind (.read _) fun _ => .bind (.read _) fun _ =>
    .bind (.update _) fun _ => .bind (.read _) fun _ => .bind (.update _) fun _ => .ite ?_ ?_
  · exact sendMessage_sends trivial
  · exact .bind (.when (.emit _)) fun _ => acceptPrepare_sends _ _

theorem handlePrepareTxn_sends (remote : Addr) (msg : PrepareTransaction) :
    Speaks V (handlePrepareTxn env ω remote msg) := by
  refine .bind (.read _) fun _ => .ite (handlePrepare_sends _ _) (.bind (.read _) fun _ =>
    .ite (.update _) (.bind (.read _) fun outcome => ?_))
  cases outcome with
  | some outcome => exact answerPrepare_sends _ _ _
  | none =>
      refine .bind (.read _) fun req => ?_
      cases req with
      | none => exact prepareNew_sends _ _
      | some req =>
          refine .ite ?_ (prepareNew_sends _ _)
          exact .bind (activePtr_sends _) fun _ => .bind (.deref _) fun _ =>
            answerPrepare_sends _ _ _

theorem handleTimer_sends (t : Timer) : Speaks V (handleTimer env ω t) := by
  cases t with
  | pendingTxn tid =>
      refine .bind (.read _) fun req => ?_
      cases req with
      | none => exact .pure _
      | some req =>
          dsimp only
          split
          · exact resendReplicateTxn_sends tid
          · exact resendPrepareOk_sends tid
          · exact .pure _
  | pendingPrepare tid =>
      refine .bind (.read _) fun req => ?_
      cases req with
      | none => exact .pure _
      | some req => exact .ite (sendPrepare_sends tid) (.pure _)

theorem handleMessage_sends (hV : ∀ tid, V (cascadeVote env tid)) (remote : Addr) (m : Msg) :
    Speaks V (handleMessage env ω remote m) := by
  unfold handleMessage
  split
  · exact handleReplicateTransaction_sends _ _
  · exact handleReplicateTransactionReply_sends _
  · exact handlePrepareTxn_sends _ _
  · exact handlePrepareTransactionReply_sends hV _
  · exact handleCommit_sends fun _ => hV
  · exact handleReplicateCommit_sends _
  · exact .bind (readKeys_sends _ _) fun _ => sendMessage_sends trivial
  · exact handleDecisionFromCoordinatorReplica_sends fun _ => hV
  · exact handleReplicateResult_sends _
  · exact handleParallelModeCommit_sends _ _
  · exact .crash

theorem handleInput_speaks (hV : ∀ tid, V (cascadeVote env tid)) (input : Input Addr Msg Act) :
    Speaks V (handleInput env ω input) := by
  unfold handleInput
  split
  · exact handleMessage_sends hV _ _
  · exact handleTimer_sends _
  · exact .pure _

/-- **A step of a replica** sends the messages of a replica. -/
theorem handleInput_sends (env : ReplicaEnv) (ω : Choice) (input : Input Addr Msg Act) :
    Sends (fun p : Pkt => p.msg.ofReplica) (handleInput env ω input) := by
  have hkind : (fun p : Pkt => Utters (fun m => m.timestamp = 0 ∧ m.primaryShard = 0) p.msg) =
      fun p => p.msg.ofReplica := by
    funext p
    cases p.msg <;> rfl
  rw [← hkind]
  exact handleInput_speaks (fun _ => ⟨rfl, rfl⟩) input

end Replica

end D2PC
