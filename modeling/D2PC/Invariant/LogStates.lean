import D2PC.System

/-!
# What a step does to the log

Only four places of `LRReplica` write to the log: the leader adds the entry of a transaction it
accepted, a follower copies one, `HandleCommit` writes the timestamp and the status, and in the
RC mode `HandleReplicateCommit` writes the status. Everything else keeps any property of the log.

* `Replica.KeepsLog` : a handler keeps a property of the log;
* `Replica.handleCommit_log` : the entries `HandleCommit` writes to;
* `Replica.handleInput_log` : a step keeps whatever its writes to the log keep.
-/

namespace D2PC

open Ctx Prog

namespace Replica

/-- The property `L` of the log is kept. -/
abbrev KeepsLog {α : Type} (L : Log → Prop) (p : ReplicaM α) : Prop :=
  Prog.Keeps (fun x : Ctx Replica Addr Msg Event => L x.state.log) p

variable {env : ReplicaEnv} {ω : Choice} {L : Log → Prop}

/-! ### Handlers that leave the log alone -/

theorem update_log {f : Replica → Replica} (hf : ∀ r, (f r).log = r.log) :
    KeepsLog L (update f : ReplicaM Unit) := by
  intro x hx
  show L (f x.state).log
  rw [hf]
  exact hx

theorem send_log (ps : List Pkt) : KeepsLog L (send ps : ReplicaM Unit) := fun _ hx => hx

theorem emit_log (e : Event) : KeepsLog L (emit e : ReplicaM Unit) := fun _ hx => hx

theorem read_log {α : Type} (f : Replica → α) : KeepsLog L (read f : ReplicaM α) := fun _ hx => hx

theorem modifyPending_log (tid : TxnId) (f : PendingTransaction → PendingTransaction) :
    KeepsLog L (modifyPending tid f) := by
  refine update_log fun r => ?_
  unfold mapPending
  split <;> rfl

theorem modifyActive_log (tid : TxnId) (f : Transaction → Transaction) :
    KeepsLog L (modifyActive tid f) := by
  refine update_log fun r => ?_
  unfold mapActive
  split <;> rfl

theorem modifyPrepare_log (tid : TxnId) (f : PendingPrepare → PendingPrepare) :
    KeepsLog L (modifyPrepare tid f) := by
  refine update_log fun r => ?_
  unfold mapPrepare
  split <;> rfl

theorem activePtr_log (tid : TxnId) : KeepsLog L (activePtr tid) := by
  refine .bind (read_log _) fun p => ?_
  cases p with
  | some p => exact .pure _
  | none => exact .bind (update_log fun _ => rfl) fun _ => .pure _

theorem clientPtr_log (tid : TxnId) : KeepsLog L (clientPtr tid) := by
  refine .bind (read_log _) fun p => ?_
  cases p with
  | some p => exact .pure _
  | none => exact .bind (update_log fun _ => rfl) fun _ => .pure _

theorem replicateTxn_log (tid : TxnId) : KeepsLog L (replicateTxn env ω tid) := by
  refine .bind (read_log _) fun _ => .bind (.deref _) fun req => .bind (read_log _) fun _ =>
    .bind (send_log _) fun _ => .ite ?_ (update_log fun _ => rfl)
  split
  · exact .crash
  · exact modifyPending_log _ _
  · exact modifyPending_log _ _

theorem resendReplicateTxn_log (tid : TxnId) : KeepsLog L (resendReplicateTxn env ω tid) :=
  .ite (.pure _) (replicateTxn_log tid)

theorem invokeReplicateTxn_log (entry : LogEntry) (hasPreCommit : Bool) :
    KeepsLog L (invokeReplicateTxn env ω entry hasPreCommit) := by
  refine .bind (read_log _) fun req => ?_
  cases req with
  | none =>
      exact .bind (activePtr_log _) fun _ => .bind (.deref _) fun _ =>
        .bind (update_log fun _ => rfl) fun _ => .ite (.pure _) (replicateTxn_log _)
  | some req =>
      refine .ite ?_ (resendReplicateTxn_log _)
      exact .bind (activePtr_log _) fun _ => .bind (.deref _) fun _ =>
        .bind (modifyPending_log _ _) fun _ => replicateTxn_log _

theorem handleConsensus_log (tid : TxnId) : KeepsLog L (handleConsensus env ω tid) := by
  refine .bind (activePtr_log _) fun _ => .bind (.deref _) fun _ => .bind (read_log _) fun _ =>
    .bind (.deref _) fun _ => .ite (.ite ?_ ?_) (.ite (.pure _) ?_)
  · exact .bind (send_log _) fun _ => modifyPending_log _ _
  · exact .bind (update_log fun _ => rfl) fun _ => update_log fun _ => rfl
  · refine .bind (clientPtr_log _) fun _ => .bind (.deref _) fun _ => .ite ?_ ?_
    · exact .bind (send_log _) fun _ => modifyPending_log _ _
    · exact .bind (update_log fun _ => rfl) fun _ => .bind (update_log fun _ => rfl) fun _ =>
        update_log fun _ => rfl

theorem handleReplicateTransactionReply_log (msg : ReplicateTransactionReply) :
    KeepsLog L (handleReplicateTransactionReply env ω msg) := by
  refine .bind (read_log _) fun req => ?_
  cases req with
  | none => exact .pure _
  | some req =>
      refine .ite (.pure _) (.bind (modifyPending_log _ _) fun _ => .ite ?_ (.pure _))
      exact .bind (modifyPending_log _ _) fun _ => .bind (emit_log _) fun _ => handleConsensus_log _

theorem resendPrepareOk_log (tid : TxnId) : KeepsLog L (resendPrepareOk env ω tid) := by
  refine .bind (read_log _) fun req => ?_
  cases req with
  | none => exact .pure _
  | some req =>
      refine .bind (activePtr_log _) fun _ => .bind (.deref _) fun _ => .ite (.when ?_) ?_
      · exact .bind (send_log _) fun _ => modifyPending_log _ _
      · refine .bind (clientPtr_log _) fun _ => .bind (.deref _) fun _ => .when ?_
        exact .bind (send_log _) fun _ => modifyPending_log _ _

theorem cascadeAbort_log (fuel : ℕ) : ∀ tid, KeepsLog L (cascadeAbort env fuel tid) := by
  induction fuel with
  | zero => exact fun _ => .crash
  | succ fuel ih =>
      intro tid
      refine .bind (update_log fun _ => rfl) fun _ => .bind (emit_log _) fun _ =>
        .bind (read_log _) fun req => ?_
      cases req with
      | none => exact .pure _
      | some req =>
          refine .bind (activePtr_log _) fun _ => .bind (.deref _) fun txn => .forM fun out _ => ?_
          refine .bind (read_log _) fun ptr => ?_
          cases ptr with
          | none => exact update_log fun _ => rfl
          | some ptr => exact .bind (ih out) fun _ => send_log _

theorem notifyForFollowingDependenies_log (tid : TxnId) :
    KeepsLog L (notifyForFollowingDependenies env tid) := by
  refine .bind (read_log _) fun req => ?_
  cases req with
  | none => exact .pure _
  | some req =>
      refine .bind (activePtr_log _) fun _ => .bind (.deref _) fun txn => .forM fun out _ => ?_
      refine .bind (read_log _) fun ptr => ?_
      cases ptr with
      | none => exact update_log fun _ => rfl
      | some ptr =>
          exact .bind (.deref _) fun _ => .bind (modifyActive_log _ _) fun _ => .when (send_log _)

theorem readKey_log (tid : TxnId) (key : Key) : KeepsLog L (readKey env tid key) := by
  refine .bind (read_log _) fun rep => .ite (.ite ?_ (.pure _)) (.pure _)
  refine .bind (activePtr_log _) fun ptr => ?_
  cases ptr with
  | none => exact .pure _
  | some dependent =>
      refine .bind (modifyActive_log _ _) fun _ => .bind (update_log fun _ => rfl) fun _ => ?_
      split
      · exact .bind (emit_log _) fun _ => .pure _
      · exact .pure _

theorem readKeys_log (tid : TxnId) (keys : List Key) : KeepsLog L (readKeys env tid keys) := by
  induction keys with
  | nil => exact .pure _
  | cons key keys ih =>
      refine .bind (readKey_log _ _) fun v => ?_
      cases v with
      | none => exact .pure _
      | some v => exact .bind ih fun _ => .pure _

theorem handleDecisionFromCoordinatorReplica_log (msg : NotifyDecision) :
    KeepsLog L (handleDecisionFromCoordinatorReplica env msg) := by
  refine .bind (read_log _) fun req => ?_
  cases req with
  | none => exact .pure _
  | some req =>
      refine .bind (.ite (update_log fun _ => rfl) ?_) fun _ =>
        .bind (.bind (read_log _) fun ptr => ?_) fun _ => update_log fun _ => rfl
      · exact .bind (read_log _) fun _ => .bind (cascadeAbort_log _ _) fun _ =>
          update_log fun _ => rfl
      · cases ptr with
        | none => exact .pure _
        | some ptr => exact .bind (.deref _) fun _ => .pure _

theorem handleParallelModeCommit_log (remote : Addr) (msg : ParallelModeCommit) :
    KeepsLog L (handleParallelModeCommit env ω remote msg) := by
  refine .bind (read_log _) fun req => ?_
  cases req with
  | none => exact .bind (update_log fun _ => rfl) fun _ => send_log _
  | some req => exact modifyPending_log _ _

theorem sendPrepare_log (tid : TxnId) : KeepsLog L (sendPrepare env ω tid) := by
  refine .bind (read_log _) fun _ => .bind (.deref _) fun req => .forM fun p _ =>
    .ite ?_ (update_log fun _ => rfl)
  exact .bind (send_log _) fun _ => modifyPrepare_log _ _

theorem handlePrepare_log (remote : Addr) (msg : PrepareTransaction) :
    KeepsLog L (handlePrepare env ω remote msg) := by
  refine .bind (update_log fun _ => rfl) fun _ => .bind (read_log _) fun req => ?_
  cases req with
  | none => exact .bind (update_log fun _ => rfl) fun _ => sendPrepare_log _
  | some req => exact sendPrepare_log _

theorem handleTimer_log (t : Timer) : KeepsLog L (handleTimer env ω t) := by
  cases t with
  | pendingTxn tid =>
      refine .bind (read_log _) fun req => ?_
      cases req with
      | none => exact .pure _
      | some req =>
          dsimp only
          split
          · exact resendReplicateTxn_log tid
          · exact resendPrepareOk_log tid
          · exact .pure _
  | pendingPrepare tid =>
      refine .bind (read_log _) fun req => ?_
      cases req with
      | none => exact .pure _
      | some req => exact .ite (sendPrepare_log tid) (.pure _)

/-! ### The leader adds, a follower copies -/

/-- The entries a leader adds keep `L`. -/
def Adds (L : Log → Prop) : Prop := ∀ l txn wset ts, L l → L (l.add 0 txn wset .prepareOk ts).2

theorem acceptPrepare_log (hadd : Adds L) (remote : Addr) (txn : Transaction) :
    KeepsLog L (acceptPrepare env ω remote txn) := by
  refine .ite (.pure _) (.bind (.when (send_log _)) fun _ => .bind (.when (send_log _)) fun _ =>
    .when ?_)
  refine .bind (update_log fun _ => rfl) fun _ => ?_
  intro x hx
  simp only [wp_bind, wp_read, wp_update, wp_emit]
  exact invokeReplicateTxn_log _ _ _ (hadd _ _ _ _ hx)

theorem prepareNew_log (hadd : Adds L) (remote : Addr) (msg : PrepareTransaction) :
    KeepsLog L (prepareNew env ω remote msg) := by
  refine .bind (update_log fun _ => rfl) fun _ => .bind (read_log _) fun _ =>
    .bind (read_log _) fun _ => .bind (update_log fun _ => rfl) fun _ => .bind (read_log _) fun _ =>
    .bind (update_log fun _ => rfl) fun _ => .ite (send_log _) ?_
  exact .bind (.when (emit_log _)) fun _ => acceptPrepare_log hadd _ _

theorem answerPrepare_log (remote : Addr) (msg : PrepareTransaction)
    (reply : PrepareTransactionReply) : KeepsLog L (answerPrepare env remote msg reply) :=
  .ite (send_log _) (send_log _)

theorem handlePrepareTxn_log (hadd : Adds L) (remote : Addr) (msg : PrepareTransaction) :
    KeepsLog L (handlePrepareTxn env ω remote msg) := by
  refine .bind (read_log _) fun _ => .ite (handlePrepare_log _ _) (.bind (read_log _) fun _ =>
    .ite (update_log fun _ => rfl) (.bind (read_log _) fun outcome => ?_))
  cases outcome with
  | some outcome => exact answerPrepare_log _ _ _
  | none =>
      refine .bind (read_log _) fun req => ?_
      cases req with
      | none => exact prepareNew_log hadd _ _
      | some req =>
          refine .ite ?_ (prepareNew_log hadd _ _)
          exact .bind (activePtr_log _) fun _ => .bind (.deref _) fun _ => answerPrepare_log _ _ _

theorem handleReplicateTransaction_log {msg : ReplicateTransaction}
    (hcopy : ∀ l, L l → L (l.addProto msg.txnLog)) (remote : Addr) :
    KeepsLog L (handleReplicateTransaction env ω remote msg) := by
  refine .bind (update_log fun _ => rfl) fun _ => .bind (read_log _) fun _ => .bind (.when ?_)
    fun _ => .bind (send_log _) fun _ => .when (send_log _)
  refine .bind (fun x hx => hcopy _ hx) fun _ => .bind (emit_log _) fun _ => ?_
  exact .bind (update_log fun _ => rfl) fun _ => update_log fun _ => rfl

/-! ### The decision -/

theorem handleReplicateCommit_log {msg : ReplicateCommit}
    (hset : env.cfg.mode = .rc → ∀ l, L l → L (l.setStatus msg.lsn msg.state)) :
    KeepsLog L (handleReplicateCommit env msg) := by
  refine .ite (.pure _) (.bind (fun x hx => ?_) fun _ => .bind (activePtr_log _) fun ptr => ?_)
  · rw [wp_when]
    exact ⟨fun hrc => hset (of_decide_eq_true hrc) _ hx, fun _ => hx⟩
  · cases ptr with
    | none => exact .pure _
    | some txn =>
        refine .bind ?_ fun _ => update_log fun _ => rfl
        unfold replicateOutcome
        split
        · exact update_log fun _ => rfl
        · exact update_log fun _ => rfl
        · exact .pure _

/-- The entries `HandleCommit` writes to: its own one gets the timestamp, and the one under the
number of the transaction the status. -/
structure Writes (L : Log → Prop) (msg : CommitMsg) (req : PendingTransaction) : Prop where
  ts : ∀ l, L l → L (l.setTs req.lsn msg.timestamp)
  status : req.sendConfirms = false → ∀ l, L l → L (l.setStatus req.tid msg.state)

theorem notifyCommitToReplica_log {msg : CommitMsg} {req : PendingTransaction}
    (hstatus : ∀ l, L l → L (l.setStatus req.tid msg.state)) :
    KeepsLog L (notifyCommitToReplica env ω req msg) := by
  refine .bind (fun x hx => hstatus _ hx) fun _ => .ite (.forM fun p _ => send_log _) ?_
  exact .bind (send_log _) fun _ => .when (modifyPending_log _ _)

theorem applyToStore_log (msg : CommitMsg) : KeepsLog L (applyToStore msg) := by
  refine .bind (modifyPending_log _ _) fun _ => .bind (activePtr_log _) fun txn => ?_
  split
  · exact .bind (update_log fun _ => rfl) fun _ => emit_log _
  · exact .bind (.deref _) fun _ => .bind (update_log fun _ => rfl) fun _ => emit_log _
  · exact .pure _

theorem settleDependents_log (msg : CommitMsg) : KeepsLog L (settleDependents env msg) :=
  .ite (notifyForFollowingDependenies_log _) (.bind (read_log _) fun _ => cascadeAbort_log _ _)

theorem retire_log (msg : CommitMsg) (txn : Option Transaction) :
    KeepsLog L (retire env msg txn) := by
  refine .bind (update_log fun _ => rfl) fun _ => .bind (.when ?_) fun _ =>
    .bind (update_log fun _ => rfl) fun _ => update_log fun _ => rfl
  exact .bind (.deref _) fun _ => .pure _

theorem commitPending_log {msg : CommitMsg} {req : PendingTransaction}
    (hreq : req.isParticipant = true → Writes L msg req) :
    KeepsLog L (commitPending env ω msg req) := by
  unfold commitPending
  split_ifs with hpart
  · exact update_log fun _ => rfl
  · have hwrites := hreq (Bool.eq_true_of_not_eq_false hpart)
    refine .bind (read_log _) fun _ => .bind (.deref _) fun _ => .bind (fun x hx => hwrites.ts _ hx)
      fun _ => .bind ?_ fun _ => .bind (activePtr_log _) fun _ =>
      .bind (settleDependents_log _) fun _ => retire_log _ _
    refine .bind (fun x hx => ?_) fun _ => .when (applyToStore_log _)
    rw [wp_when]
    refine ⟨fun hunsent => notifyCommitToReplica_log (hwrites.status ?_) x hx, fun _ => hx⟩
    simpa using hunsent

/-- **A commit** keeps what its writes keep. -/
theorem handleCommit_log {msg : CommitMsg} {x : Ctx Replica Addr Msg Event}
    (hreq : ∀ req, x.state.pendingTxns.lookup msg.tid = some req → req.isParticipant = true →
      Writes L msg req) (hx : L x.state.log) :
    wp (handleCommit env ω msg) (fun _ y => L y.state.log) (fun y => L y.state.log) x := by
  simp only [handleCommit, wp_bind, wp_read]
  cases hl : x.state.pendingTxns.lookup msg.tid with
  | none => exact hx
  | some req =>
      simp only [wp_bind, wp_update, wp_eraseClient]
      exact commitPending_log (hreq req hl) _ hx

/-! ### The commits of a step -/

/-- Before a final decision is carried out: the pending transactions are still `t`. -/
abbrev KeepsBoth {α : Type} (t : Table TxnId PendingTransaction) (L : Log → Prop)
    (p : ReplicaM α) : Prop :=
  Prog.Keeps (fun x : Ctx Replica Addr Msg Event => x.state.pendingTxns = t ∧ L x.state.log) p

theorem modifyPrepare_both {t : Table TxnId PendingTransaction} (tid : TxnId)
    (f : PendingPrepare → PendingPrepare) : KeepsBoth t L (modifyPrepare tid f) := by
  intro x hx
  rw [wp_modifyPrepare]
  unfold mapPrepare
  split
  · exact hx
  · exact hx

theorem prepareClientPtr_both {t : Table TxnId PendingTransaction} (tid : TxnId) :
    KeepsBoth t L (prepareClientPtr tid) := by
  refine .bind (fun _ hx => hx) fun p => ?_
  cases p with
  | some p => exact .pure _
  | none => exact .bind (fun _ hx => hx) fun _ => .pure _

/-- What follows a program that leaves the pending transactions alone. -/
theorem both_bind {α β : Type} {t : Table TxnId PendingTransaction} {p : ReplicaM α}
    {k : α → ReplicaM β} {x : Ctx Replica Addr Msg Event} (hp : KeepsBoth t L p)
    (hx : x.state.pendingTxns = t ∧ L x.state.log)
    (hk : ∀ a y, y.state.pendingTxns = t ∧ L y.state.log →
      wp (k a) (fun _ z => L z.state.log) (fun z => L z.state.log) y) :
    wp (p >>= k) (fun _ z => L z.state.log) (fun z => L z.state.log) x := by
  rw [wp_bind]
  exact wp_mono hk (fun _ hy => hy.2) (hp x hx)

theorem log_bind {β : Type} {p : ReplicaM Unit} {k : Unit → ReplicaM β}
    {x : Ctx Replica Addr Msg Event}
    (hp : wp p (fun _ z => L z.state.log) (fun z => L z.state.log) x) (hk : KeepsLog L (k ())) :
    wp (p >>= k) (fun _ z => L z.state.log) (fun z => L z.state.log) x := by
  rw [wp_bind]
  exact wp_mono (fun _ y hy => hk y hy) (fun _ hy => hy) hp

/-- The final decision of a prepare is carried out. -/
theorem replyFinalDecision_log {t : Table TxnId PendingTransaction} {tid : TxnId}
    {q : PendingPrepare} {x : Ctx Replica Addr Msg Event}
    (hq : x.state.pendingPrepares.lookup tid = some q)
    (hreq : ∀ req, t.lookup q.tid = some req → req.isParticipant = true → ∀ ts,
      Writes L { tid := q.tid, state := q.finalDecision, timestamp := ts } req)
    (hx : x.state.pendingTxns = t ∧ L x.state.log) :
    wp (replyFinalDecision env ω tid) (fun _ z => L z.state.log) (fun z => L z.state.log) x := by
  unfold replyFinalDecision
  rw [wp_bind, wp_read, hq, wp_bind, wp_deref_some]
  refine both_bind (prepareClientPtr_both _) hx fun ptr y hy => ?_
  refine both_bind (.deref _) hy fun remote y hy => ?_
  refine both_bind (fun _ hz => hz) hy fun _ y hy => both_bind (.when ?_) hy fun _ y hy => ?_
  · refine .bind (modifyPrepare_both _ _) fun _ => .bind (fun _ hz => hz) fun _ => ?_
    exact .when (modifyPrepare_both _ _)
  · rw [wp_when]
    refine ⟨fun _ => log_bind (handleCommit_log (fun req hl hpart => ?_) hy.2) ?_, fun _ => hy.2⟩
    · rw [hy.1] at hl
      exact hreq req hl hpart _
    · exact .bind (update_log fun _ => rfl) fun _ => update_log fun _ => rfl

/-- The writes of whatever final decision a reply brings about. -/
def FinalWrites (L : Log → Prop) (r : Replica) (q : PendingPrepare) : Prop :=
  ∀ req, r.pendingTxns.lookup q.tid = some req → req.isParticipant = true →
    ∀ state ts, state = .prepareOk ∨ state = .abort →
      Writes L { tid := q.tid, state := state, timestamp := ts } req

theorem consensus_final {q : PendingPrepare} {decision : LogEntryState}
    (h : reachConsensusOnFinalDecision env q = some decision) :
    decision = .prepareOk ∨ decision = .abort := by
  simp only [reachConsensusOnFinalDecision] at h
  split_ifs at h
  · exact .inl (Option.some.inj h).symm
  · exact .inr (Option.some.inj h).symm

/-- The prepare is still known when it was written to. -/
structure Handed (L : Log → Prop) (t : Table TxnId PendingTransaction) (tid tid' : TxnId)
    (x : Ctx Replica Addr Msg Event) : Prop where
  both : x.state.pendingTxns = t ∧ L x.state.log
  known : ∃ q, x.state.pendingPrepares.lookup tid = some q ∧ q.tid = tid'

theorem Handed.write {t : Table TxnId PendingTransaction} {tid tid' : TxnId}
    {x : Ctx Replica Addr Msg Event} (hx : Handed L t tid tid' x)
    {f : PendingPrepare → PendingPrepare} (hf : ∀ q, q.tid = tid' → (f q).tid = tid') :
    Handed L t tid tid' { x with state := mapPrepare tid f x.state } := by
  obtain ⟨q, hq, htid⟩ := hx.known
  rw [mapPrepare_some hq]
  exact ⟨hx.both, f q, AList.lookup_insert _, hf q htid⟩

/-- The decision is entered and carried out. -/
theorem Handed.reply {t : Table TxnId PendingTransaction} {tid tid' : TxnId}
    {x : Ctx Replica Addr Msg Event} (hx : Handed L t tid tid' x)
    {f : PendingPrepare → PendingPrepare} {decision : LogEntryState} {es : List Event}
    (hf : ∀ q, q.tid = tid' → (f q).tid = tid' ∧ (f q).finalDecision = decision)
    (hreq : ∀ req, t.lookup tid' = some req → req.isParticipant = true → ∀ ts,
      Writes L { tid := tid', state := decision, timestamp := ts } req) :
    wp (replyFinalDecision env ω tid) (fun _ z => L z.state.log) (fun z => L z.state.log)
      { x with state := mapPrepare tid f x.state, events := es } := by
  obtain ⟨q, hq, htid⟩ := hx.known
  obtain ⟨hsame, hdecision⟩ := hf q htid
  rw [mapPrepare_some hq]
  refine replyFinalDecision_log (AList.lookup_insert _) (fun req hl hpart ts => ?_) hx.both
  rw [hsame] at hl
  rw [hsame, hdecision]
  exact hreq req hl hpart ts

theorem handlePrepareTransactionReply_log {msg : PrepareTransactionReply}
    {x : Ctx Replica Addr Msg Event}
    (hreq : ∀ q, x.state.pendingPrepares.lookup msg.tid = some q → FinalWrites L x.state q)
    (hx : L x.state.log) :
    wp (handlePrepareTransactionReply env ω msg) (fun _ z => L z.state.log)
      (fun z => L z.state.log) x := by
  unfold handlePrepareTransactionReply
  rw [wp_bind, wp_read]
  cases hq : x.state.pendingPrepares.lookup msg.tid with
  | none => exact hx
  | some q =>
      have hfinal := hreq q hq
      have hhanded : Handed L x.state.pendingTxns msg.tid q.tid x := ⟨⟨rfl, hx⟩, q, hq, rfl⟩
      rw [wp_ite, wp_ite, wp_ite]
      refine ⟨fun _ => ?_, fun _ => ⟨fun _ => ⟨fun _ => hx, fun _ => ?_⟩, fun _ => ?_⟩⟩
      · -- the decision of another region
        rw [wp_bind, wp_modifyPrepare]
        have hfirst := hhanded.write (f := fun _ => { q with
          regionReplies := q.regionReplies.insert msg.replica msg.state
          timestamp := max q.timestamp msg.timestamp }) fun _ _ => rfl
        split
        · exact hfirst.both.2
        · rename_i decision hdecision
          rw [wp_bind, wp_modifyPrepare]
          have hsecond := hfirst.write (f := fun req => { req with
            timerArmed := false
            finalDecision := decision }) fun _ htid => htid
          refine log_bind (handleCommit_log (fun req hl hpart => ?_) hsecond.both.2) ?_
          · rw [hsecond.both.1] at hl
            exact hfinal req hl hpart decision _ (consensus_final hdecision)
          · exact .bind (update_log fun _ => rfl) fun _ => update_log fun _ => rfl
      · rw [wp_bind, wp_modifyPrepare]
        have hfirst := hhanded.write (f := fun req => { req with
          participantReplies := q.participantReplies.insert msg.shard msg.state
          timestamp := max req.timestamp msg.timestamp }) fun _ htid => htid
        simp only [wp_ite, wp_bind, wp_modifyPrepare, wp_pure, wp_emit]
        refine ⟨fun _ => hfirst.both.2, fun _ => ?_⟩
        have hsecond := hfirst.write (f := fun req => { req with
          participantReplies := (reachFinalDecision
            (q.participantReplies.insert msg.shard msg.state) q.participants).2 })
          fun _ htid => htid
        refine ⟨fun _ => hsecond.reply (fun _ htid => ⟨htid, rfl⟩) fun req hl hpart ts => ?_,
          fun _ => hsecond.both.2⟩
        exact hfinal req hl hpart .prepareOk ts (.inl rfl)
      · rw [wp_bind, wp_modifyPrepare]
        refine hhanded.reply (fun _ htid => ⟨htid, rfl⟩) fun req hl hpart ts => ?_
        exact hfinal req hl hpart .abort ts (.inr rfl)

/-- A `Commit` that a step may hand to `HandleCommit`: the one at hand, the announcement of a
coordinator, or the final decision of a prepare that was handed out. -/
def HandsCommit (r : Replica) : Input Addr Msg Act → CommitMsg → Prop
  | .recv ⟨_, _, .commit m⟩, msg => msg = m
  | .recv ⟨_, _, .notifyReplicateResult m⟩, msg =>
      msg = { tid := m.tid, state := .commit, timestamp := m.timestamp }
  | .recv ⟨_, _, .prepareTransactionReply m⟩, msg =>
      ∃ q, r.pendingPrepares.lookup m.tid = some q ∧ msg.tid = q.tid ∧
        (msg.state = .prepareOk ∨ msg.state = .abort)
  | _, _ => False

/-- The writes to the log that a step may make keep `L`. -/
structure StepWrites (env : ReplicaEnv) (L : Log → Prop) (r : Replica)
    (input : Input Addr Msg Act) : Prop where
  adds : ∀ src dst m, input = .recv ⟨src, dst, .prepareTransaction m⟩ → Adds L
  copies : ∀ src dst m, input = .recv ⟨src, dst, .replicateTransaction m⟩ →
    ∀ l, L l → L (l.addProto m.txnLog)
  commits : ∀ msg, r.HandsCommit input msg → ∀ req, r.pendingTxns.lookup msg.tid = some req →
    req.isParticipant = true → Writes L msg req
  follows : ∀ src dst m, input = .recv ⟨src, dst, .replicateCommit m⟩ → env.cfg.mode = .rc →
    ∀ l, L l → L (l.setStatus m.lsn m.state)

theorem handleReplicateResult_log {msg : NotifyReplicateResult} {x : Ctx Replica Addr Msg Event}
    (hreq : ∀ req, x.state.pendingTxns.lookup msg.tid = some req → req.isParticipant = true →
      Writes L { tid := msg.tid, state := .commit, timestamp := msg.timestamp } req)
    (hx : L x.state.log) :
    wp (handleReplicateResultFromCoordinatorReplica env ω msg) (fun _ z => L z.state.log)
      (fun z => L z.state.log) x := by
  have htell : KeepsBoth x.state.pendingTxns L
      (handleParallelCommitResult env msg.tid msg.timestamp .commit) := by
    refine .bind (fun _ hy => hy) fun req => ?_
    cases req with
    | none => exact .pure _
    | some req =>
        refine .bind (.bind (fun _ hy => hy) fun p => ?_) fun _ => .bind (.deref _) fun _ =>
          .bind (fun _ hy => hy) fun _ => fun _ hy => hy
        cases p with
        | some p => exact .pure _
        | none => exact .bind (fun _ hy => hy) fun _ => .pure _
  refine both_bind htell ⟨rfl, hx⟩ fun _ y hy => handleCommit_log (fun req hl hpart => ?_) hy.2
  rw [hy.1] at hl
  exact hreq req hl hpart

/-- **A step** keeps what its writes to the log keep. -/
theorem handleInput_log {r : Replica} {input : Input Addr Msg Act}
    (h : StepWrites env L r input) (hr : L r.log) :
    L (handleInput env ω input { state := r }).state.state.log := by
  refine wp_state (x := handleInput env ω input)
    (P := fun y : Ctx Replica Addr Msg Event => L y.state.log) ?_
  cases input with
  | act a =>
      cases a with
      | client a => exact hr
      | timer t => exact handleTimer_log t _ hr
  | recv p =>
      obtain ⟨src, dst, m⟩ := p
      show wp (handleMessage env ω src m) (fun _ y => L y.state.log) (fun y => L y.state.log) _
      cases m with
      | replicateTransaction m =>
          exact handleReplicateTransaction_log (h.copies src dst m rfl) _ _ hr
      | replicateTransactionReply m => exact handleReplicateTransactionReply_log _ _ hr
      | prepareTransaction m => exact handlePrepareTxn_log (h.adds src dst m rfl) _ _ _ hr
      | prepareTransactionReply m =>
          refine handlePrepareTransactionReply_log (fun q hq req hl hpart state ts hstate => ?_) hr
          exact h.commits { tid := q.tid, state := state, timestamp := ts } ⟨q, hq, rfl, hstate⟩ req
            hl hpart
      | commit m => exact handleCommit_log (h.commits m rfl) hr
      | replicateCommit m => exact handleReplicateCommit_log (h.follows src dst m rfl) _ hr
      | getData m =>
          have hread : KeepsLog L (handleRead env src m) :=
            .bind (readKeys_log _ _) fun _ => send_log _
          exact hread _ hr
      | notifyDecision m => exact handleDecisionFromCoordinatorReplica_log _ _ hr
      | notifyReplicateResult m => exact handleReplicateResult_log (h.commits _ rfl) hr
      | parallelModeCommit m => exact handleParallelModeCommit_log _ _ _ hr
      | _ => exact hr

end Replica

end D2PC
