import D2PC.Invariant.Moves
import D2PC.Properties.Atomicity
import D2PC.Properties.AtMostOnce

/-!
# The table of outcomes

A leader keeps the outcome of a transaction in `committedTxns` and answers a prepare that
comes again from there. The final outcome is entered after the store carried it out. The
decision of a coordinator enters `LOG_STATE_COMMIT` too, when the transaction is only
pre-committed, and even when it is aborted. And `LRClient` takes every state but
`LOG_STATE_PREPAREOK` for a failure, so that a recorded commit is understood as a refusal.

* `Heeded` : no pre-commit is recorded;
* `outcomes_truthful` : in every such run, in every mode, a recorded commit was applied to
  the store and a recorded abort was undone there, and what is answered from the table is
  understood;
* `precommit_recorded_as_commit` : runs without the condition.
-/

namespace D2PC

open Prog Ctx

/-! ### What the client understands -/

/-- What `LRClient` tells its continuation when a reply arrives: success or failure, or
nothing yet. -/
def Client.report (env : ClientEnv) (req : LRClient.PendingPrepare)
    (msg : PrepareTransactionReply) : Option Bool :=
  (respond env req msg).1.map fun call => decide (call.1 = 0)

/-- Success is reported for `LOG_STATE_PREPAREOK`. -/
theorem LogEntryState.reported_eq_zero_iff {state : LogEntryState} :
    state.reported = 0 ↔ state = .prepareOk := by
  unfold reported
  split_ifs with hstate
  · exact iff_of_true rfl hstate
  · exact iff_of_false (by decide) hstate

theorem Client.report_collect {env : ClientEnv} {req req' : LRClient.PendingPrepare}
    {msg : PrepareTransactionReply} {answered : Bool}
    (hcollect : collectReply env req msg = (answered, req')) :
    report env req msg = if answered then some (decide (req'.state = .prepareOk)) else none := by
  rw [report, respond, hcollect]
  cases answered with
  | true =>
      show some (decide (req'.state.reported = 0)) = _
      simp only [LogEntryState.reported_eq_zero_iff, if_true]
  | false => rfl

/-- The continuation gets the code `0` for success and `1` for failure. -/
theorem Client.handlePrepareTxnReply_report {env : ClientEnv} {ω : Choice} {s : Shard}
    {msg : PrepareTransactionReply} {req : LRClient.PendingPrepare}
    {c : Ctx Client Addr Msg Event} (hreq : c.state.pendingReqs.lookup s = some (.prepare req))
    {ok : Bool} (hok : report env req msg = some ok) :
    ∃ ts, handlePrepareTxnReply env ω s msg c = (do
      prepareCallback env ω s msg.shard (if ok then 0 else 1) ts
      erasePendingReq s : ClientM Unit) c := by
  cases hcollect : collectReply env req msg with
  | mk answered req' =>
      rw [report_collect hcollect] at hok
      cases answered with
      | false => cases hok
      | true =>
          cases hok
          refine ⟨req'.timestamp, ?_⟩
          simp only [handlePrepareTxnReply, respond, LogEntryState.reported, read_bind, hreq,
            hcollect, decide_eq_true_eq]

/-- A reply is entered. -/
def Client.entered (req : LRClient.PendingPrepare) (msg : PrepareTransactionReply) :
    LRClient.PendingPrepare :=
  { req with
    replicaReplies := req.replicaReplies.insert msg.replica msg.state
    timestamp := max req.timestamp msg.timestamp }

/-- In the modes that count replies: the other replicas have agreed, or the leader did after
it replicated the transaction. -/
def Client.outvoted (env : ClientEnv) (req : LRClient.PendingPrepare)
    (msg : PrepareTransactionReply) : Bool :=
  let ok := (countReplies (entered req msg)).2.1
  match env.cfg.mode with
  | .carousel =>
      if req.reachFaultTolerance then decide (req.state = .prepareOk)
      else decide (env.cfg.fastQuorumSize ≤ ok) &&
        decide (req.leader ∈ (entered req msg).replicaReplies)
  | .rc => decide (env.cfg.quorumSize ≤ ok)
  | _ => false

/-- In the modes that count replies: the replies that are no agreement are enough now, or the
leader has replicated the transaction. -/
def Client.completes (env : ClientEnv) (req : LRClient.PendingPrepare)
    (msg : PrepareTransactionReply) : Bool :=
  let refused := (countReplies (entered req msg)).2.2
  match env.cfg.mode with
  | .carousel => req.reachFaultTolerance || (decide (env.cfg.fastQuorumSize ≤ refused) &&
      decide (req.leader ∈ (entered req msg).replicaReplies))
  | .rc => decide (env.cfg.quorumSize ≤ refused)
  | _ => true

/-- What is told depends on the two, and on nothing else. -/
def Client.verdict (outvoted completes : Bool) : Option Bool :=
  if outvoted then some true else if completes then some false else none

theorem Client.countReplies_le (req : LRClient.PendingPrepare) :
    (countReplies req).2.1 ≤ (countReplies req).1 ∧
      (countReplies req).2.2 ≤ (countReplies req).1 :=
  ⟨List.count_le_length, Nat.sub_le ..⟩

/-- In the Carousel mode a reply is entered and the replies are counted, and only then it raises
the flag. -/
theorem Client.collectReply_carousel {env : ClientEnv} {req req' : LRClient.PendingPrepare}
    {msg : PrepareTransactionReply} (hmode : env.cfg.mode = .carousel) {done : Bool}
    (hcheck : carouselCheck env (entered req msg) = (done, req')) :
    collectReply env req msg = (done, if done = false ∧ msg.reachFaultTolerance = 1 then
      { req' with
        state := msg.state
        reachFaultTolerance := true
        timestamp := msg.timestamp } else req') := by
  unfold entered at hcheck
  simp only [collectReply, hmode, true_or, if_true, hcheck]
  cases done with
  | true => rw [if_neg fun h => Bool.noConfusion h.1]
  | false => simp only [true_and]

theorem Client.report_carousel {env : ClientEnv} {req : LRClient.PendingPrepare}
    {msg : PrepareTransactionReply} (hmode : env.cfg.mode = .carousel) :
    report env req msg = verdict (outvoted env req msg) (completes env req msg) := by
  have hle := countReplies_le (entered req msg)
  have hreport : report env req msg = if (carouselCheck env (entered req msg)).1 then
      some (decide ((carouselCheck env (entered req msg)).2.state = .prepareOk)) else none := by
    cases hcheck : carouselCheck env (entered req msg) with
    | mk done req' =>
        rw [report_collect (collectReply_carousel hmode hcheck)]
        cases done with
        | true => rfl
        | false => rfl
  simp only [hreport, outvoted, completes, hmode, carouselCheck]
  by_cases htol : req.reachFaultTolerance = true
  · rw [if_pos htol, if_pos (show (entered req msg).reachFaultTolerance = true from htol), htol,
      Bool.true_or]
    show some (decide (req.state = .prepareOk)) = _
    cases decide (req.state = .prepareOk) <;> rfl
  · rw [if_neg htol, if_neg (show ¬ (entered req msg).reachFaultTolerance = true from htol),
      Bool.eq_false_of_not_eq_true htol, Bool.false_or]
    by_cases hok : env.cfg.fastQuorumSize ≤ (countReplies (entered req msg)).2.1 ∧
        req.leader ∈ (entered req msg).replicaReplies
    · rw [if_pos (⟨hok.1.trans hle.1, hok⟩ : _ ∧ _ ∧ (entered req msg).leader ∈ _),
        decide_eq_true hok.1, decide_eq_true hok.2]
      rfl
    · rw [if_neg (fun h => hok h.2 : ¬ (_ ∧ _ ∧ (entered req msg).leader ∈ _)), ← Bool.decide_and,
        decide_eq_false hok]
      by_cases href : env.cfg.fastQuorumSize ≤ (countReplies (entered req msg)).2.2 ∧
          req.leader ∈ (entered req msg).replicaReplies
      · rw [if_pos (⟨href.1.trans hle.2, href⟩ : _ ∧ _ ∧ (entered req msg).leader ∈ _),
          decide_eq_true href.1, decide_eq_true href.2]
        rfl
      · rw [if_neg (fun h => href h.2 : ¬ (_ ∧ _ ∧ (entered req msg).leader ∈ _)), ← Bool.decide_and,
          decide_eq_false href]
        rfl

theorem Client.report_rc {env : ClientEnv} {req : LRClient.PendingPrepare}
    {msg : PrepareTransactionReply} (hmode : env.cfg.mode = .rc) :
    report env req msg = verdict (outvoted env req msg) (completes env req msg) := by
  have hle := countReplies_le (entered req msg)
  have hcollect : collectReply env req msg = rcCheck env (entered req msg) := by
    simp only [collectReply, hmode, or_true, if_true, reduceCtorEq, if_false]
    rfl
  simp only [report, respond, hcollect, outvoted, completes, hmode, rcCheck]
  by_cases hok : env.cfg.quorumSize ≤ (countReplies (entered req msg)).2.1
  · rw [if_pos ⟨hok.trans hle.1, hok⟩, decide_eq_true hok]
    rfl
  · rw [if_neg fun h => hok h.2, decide_eq_false hok]
    by_cases href : env.cfg.quorumSize ≤ (countReplies (entered req msg)).2.2
    · rw [if_pos ⟨href.trans hle.2, href⟩, decide_eq_true href]
      rfl
    · rw [if_neg fun h => href h.2, decide_eq_false href]
      rfl

/-- **A reply that is not an agreement** is passed on as a failure when the count allows it,
whatever else it says. -/
theorem Client.report_eq {env : ClientEnv} {req : LRClient.PendingPrepare}
    {msg : PrepareTransactionReply} (hmsg : msg.state ≠ .prepareOk) :
    report env req msg = verdict (outvoted env req msg) (completes env req msg) := by
  have hdirect : env.cfg.mode ≠ .carousel → env.cfg.mode ≠ .rc →
      report env req msg = some false := by
    intro hcar hrc
    have hcollect : collectReply env req msg =
        (true, { req with state := msg.state, timestamp := msg.timestamp }) :=
      if_neg fun h => h.elim hcar hrc
    rw [report_collect hcollect, if_pos rfl, decide_eq_false hmsg]
  cases hmode : env.cfg.mode with
  | carousel => exact report_carousel hmode
  | rc => exact report_rc hmode
  | fast =>
      rw [hdirect (by rw [hmode]; intro h; cases h) (by rw [hmode]; intro h; cases h), outvoted, completes, hmode]
      rfl
  | slow =>
      rw [hdirect (by rw [hmode]; intro h; cases h) (by rw [hmode]; intro h; cases h), outvoted, completes, hmode]
      rfl
  | parallel =>
      rw [hdirect (by rw [hmode]; intro h; cases h) (by rw [hmode]; intro h; cases h), outvoted, completes, hmode]
      rfl

/-! ### The condition -/

/-- The message is not the decision of a coordinator on a transaction that is pending. -/
def Replica.heeds (r : Replica) : Msg → Bool
  | .notifyDecision m => (r.pendingTxns.lookup m.tid).isNone
  | _ => true

/-- **No pre-commit is recorded**: no decision of a coordinator arrives at a replica where the
transaction is pending. -/
def Heeded : StepCond
  | w, .replica s i, _, .recv p => Replica.heeds (GlobalState.replica w s i) p.msg = true
  | _, _, _, _ => True

instance (w : GlobalState) (n : Node) (ω : Choice) (input : Input Addr Msg Act) :
    Decidable (Heeded w n ω input) :=
  match n, input with
  | .replica _ _, .recv _ => inferInstanceAs (Decidable (_ = true))
  | .replica _ _, .act _ => .isTrue trivial
  | .client _, _ => .isTrue trivial
  | .coordinator _, _ => .isTrue trivial

/-! ### The invariant -/

/-- The outcome in the table is what process `n` did to its store. -/
def Told (h : History) (n : Node) (tid : TxnId) (x : LogEntryState × ℕ) : Prop :=
  x.1 = .commit ∨ x.1 = .abort → (n, Event.applied tid x.1 x.2) ∈ h

namespace Replica

/-- Every outcome in the table is true, and no pending transaction but the one that is being
decided is carried out already. -/
structure TruthfulTo (h : History) (n : Node) (D : Option TxnId)
    (x : Ctx Replica Addr Msg Event) : Prop where
  records : ∀ tid y, x.state.committedTxns.lookup tid = some y → Told (past h n x) n tid y
  undecided : ∀ tid req, D ≠ some tid → x.state.pendingTxns.lookup tid = some req →
    req.reachCommitDecision = false

variable {env : ReplicaEnv} {r₀ : Replica} {input : Input Addr Msg Act} {D : Option TxnId}
  {x₀ x y : Ctx Replica Addr Msg Event} {h : History} {n : Node}

/-- Only the table of outcomes, the pending transactions and the events count. -/
theorem TruthfulTo.congr (hx : TruthfulTo h n D x)
    (hcommitted : y.state.committedTxns = x.state.committedTxns)
    (hpending : y.state.pendingTxns = x.state.pendingTxns)
    (hevents : ∃ es, y.events = x.events ++ es) : TruthfulTo h n D y := by
  refine ⟨fun tid z hz htold => ?_, fun tid req hD hreq => ?_⟩
  · rw [hcommitted] at hz
    obtain ⟨es, hes⟩ := hevents
    have hmem := hx.records tid z hz htold
    rw [past, hes, List.map_append, ← List.append_assoc]
    exact List.mem_append_left _ hmem
  · rw [hpending] at hreq
    exact hx.undecided tid req hD hreq

/-- A pending transaction is written. -/
theorem TruthfulTo.insert (hx : TruthfulTo h n D x) {tid : TxnId} {req : PendingTransaction}
    (hreq : D ≠ some tid → req.reachCommitDecision = false) :
    TruthfulTo h n D { x with state := { x.state with
      pendingTxns := x.state.pendingTxns.insert tid req } } := by
  refine ⟨hx.records, fun tid' req' hD hreq' => ?_⟩
  rw [Table.lookup_insert_eq] at hreq'
  split_ifs at hreq' with htid
  · cases hreq'
    exact hreq (htid ▸ hD)
  · exact hx.undecided tid' req' hD hreq'

/-- An outcome is entered. -/
theorem TruthfulTo.record (hx : TruthfulTo h n D x) {tid : TxnId} {z : LogEntryState × ℕ}
    (hz : Told (past h n x) n tid z) :
    TruthfulTo h n D { x with state := { x.state with
      committedTxns := x.state.committedTxns.insert tid z } } := by
  refine ⟨fun tid' z' hz' => ?_, hx.undecided⟩
  rw [Table.lookup_insert_eq] at hz'
  split_ifs at hz' with htid
  · cases hz'
    rw [htid]
    exact hz
  · exact hx.records tid' z' hz'

/-- **One move** keeps the table true. -/
theorem Move.truthful (hopen : ∀ tid req, r₀.pendingTxns.lookup tid = some req →
      req.reachCommitDecision = false)
    (hdec : ∀ src dst m, input = .recv ⟨src, dst, .notifyDecision m⟩ →
      r₀.pendingTxns.lookup m.tid = none)
    (hmove : Move env r₀ input D x y) (hx : TruthfulTo h n D x) : TruthfulTo h n D y := by
  cases hmove with
  | quiet r hr => exact hx.congr hr.committed hr.pending ⟨[], (List.append_nil _).symm⟩
  | event e he => exact hx.congr rfl rfl ⟨_, rfl⟩
  | copy => exact hx.congr rfl rfl ⟨_, rfl⟩
  | log => exact hx.congr rfl rfl ⟨_, rfl⟩
  | commit => exact hx.congr rfl rfl ⟨_, rfl⟩
  | abort => exact hx.congr rfl rfl ⟨_, rfl⟩
  | cascade => exact hx.congr rfl rfl ⟨_, rfl⟩
  | enter tid req _ _ _ hflag => exact hx.insert fun _ => hflag
  | place tid req _ _ _ hflag => exact hx.insert fun _ => hflag
  | repair tid req req' _ hreq _ _ hflag =>
      exact hx.insert fun hD => hflag.trans (hx.undecided tid req hD hreq)
  | touch tid req req' hreq ht =>
      exact hx.insert fun hD => ht.decision.trans (hx.undecided tid req hD hreq)
  | decide tid req hD hreq => exact hx.insert fun hne => absurd hD hne
  | drop tid =>
      refine ⟨hx.records, fun tid' req' hD hreq' => ?_⟩
      rw [Table.lookup_erase_eq] at hreq'
      split_ifs at hreq'
      exact hx.undecided tid' req' hD hreq'
  | record src dst m hm hpend => exact absurd (hdec src dst m hm) hpend
  | retire tid state ts hD hdone =>
      refine hx.record fun hstate => ?_
      rcases hdone hstate with hmem | ⟨req, hreq, hflag⟩
      · exact List.mem_append_right _ (List.mem_map.2 ⟨_, hmem, rfl⟩)
      · rw [hopen tid req hreq] at hflag
        cases hflag
  | _ => exact hx.congr rfl rfl ⟨[], (List.append_nil _).symm⟩

theorem Moves.truthful (hopen : ∀ tid req, r₀.pendingTxns.lookup tid = some req →
      req.reachCommitDecision = false)
    (hdec : ∀ src dst m, input = .recv ⟨src, dst, .notifyDecision m⟩ →
      r₀.pendingTxns.lookup m.tid = none)
    (hmoves : Moves env r₀ input D x₀ x) (hx : TruthfulTo h n D x₀) : TruthfulTo h n D x := by
  induction hmoves with
  | refl => exact hx
  | tail _ hmove ih => exact hmove.truthful hopen hdec ih

/-- The answer to a prepare whose outcome is recorded. -/
def recordedReply (env : ReplicaEnv) (m : PrepareTransaction) (out : LogEntryState × ℕ) :
    PrepareTransactionReply :=
  { tid := m.tid, state := out.1, shard := env.shardId, timestamp := out.2 }

/-- A prepare is answered from the table: one reply is sent, and nothing changes. -/
theorem handlePrepareTxn_recorded {ω : Choice} {remote : Addr} {r : Replica}
    {m : PrepareTransaction} {out : LogEntryState × ℕ} (hans : AnswersFrom env r m out) :
    ∃ src dst, handlePrepareTxn env ω remote m { state := r } = .done () {
      state := r
      sent := [⟨src, dst, .prepareTransactionReply (recordedReply env m out)⟩] } := by
  have hrun : handlePrepareTxn env ω remote m { state := r } =
      answerPrepare env remote m (recordedReply env m out) { state := r } := by
    have hhere : ¬ ((m.mode = .slow ∨ m.mode = .rc) ∧ m.primaryShard = env.shardId ∧
      m.tid ∉ r.pendingPrepares) := hans.here
    have hmark : ¬ r.inDependency.lookup m.tid = some (-1) := hans.unmarked
    have hout : r.committedTxns.lookup m.tid = some out := hans.decided
    simp only [handlePrepareTxn, read_bind, if_neg hhere, if_neg hmark, hout]
    rfl
  rw [hrun, answerPrepare]
  split_ifs
  · exact ⟨_, _, rfl⟩
  · exact ⟨_, _, rfl⟩

end Replica

/-! ### Every run -/

variable {cfg : Config} {w : GlobalState}

/-- Every outcome in the table of a replica is true, and a replica that runs has no pending
transaction that was carried out. -/
structure TruthfulAt (w : GlobalState) (s : Shard) (i : ℕ) : Prop where
  records : ∀ tid y, (w.replica s i).committedTxns.lookup tid = some y →
    Told w.history (.replica s i) tid y
  undecided : w.crashed (.replica s i) = false → ∀ tid req,
    (w.replica s i).pendingTxns.lookup tid = some req → req.reachCommitDecision = false

/-- The step of a replica. -/
theorem TruthfulAt.step {s : Shard} {i : ℕ} {ω : Choice} {input : Input Addr Msg Act}
    (hw : TruthfulAt w s i) (hen : cfg.system.Enabled w (.replica s i) input)
    (hc : Heeded w (.replica s i) ω input) :
    TruthfulAt (cfg.system.next w (.replica s i) ω input) s i := by
  have hlive : w.crashed (.replica s i) = false := by
    cases input with
    | recv p => exact hen.1
    | act a => exact hen
  have hopen := hw.undecided hlive
  have hdec : ∀ src dst m, input = .recv ⟨src, dst, .notifyDecision m⟩ →
      (w.replica s i).pendingTxns.lookup m.tid = none := by
    rintro src dst m rfl
    exact Option.isNone_iff_eq_none.1 hc
  have hstart : ∀ D, Replica.TruthfulTo w.history (.replica s i) D { state := w.replica s i } := by
    refine fun D => ⟨fun tid y hy => ?_, fun tid req _ hreq => hopen tid req hreq⟩
    rw [past_start]
    exact hw.records tid y hy
  obtain ⟨y, ⟨_, hend⟩ | ⟨hdead, D, hmoves⟩, hstate, _, hhist⟩ := Config.replica_outcome
    (Replica.handleInput_moves ⟨cfg, s, i⟩ ω input { state := w.replica s i })
  · rcases hend with hmoves | ⟨tid, hmoves, hgone⟩
    · have hy := hmoves.truthful hopen hdec (hstart none)
      refine ⟨fun t z hz => ?_, fun _ t req hreq => ?_⟩
      · rw [hhist]
        exact hy.records t z (hstate ▸ hz)
      · exact hy.undecided t req (fun h => by cases h) (hstate ▸ hreq)
    · have hy := hmoves.truthful hopen hdec (hstart (some tid))
      refine ⟨fun t z hz => ?_, fun _ t req hreq => ?_⟩
      · rw [hhist]
        exact hy.records t z (hstate ▸ hz)
      · have hreq' : y.state.pendingTxns.lookup t = some req := hstate ▸ hreq
        refine hy.undecided t req (fun heq => ?_) hreq'
        cases heq
        rw [hgone] at hreq'
        cases hreq'
  · have hy := hmoves.truthful hopen hdec (hstart D)
    refine ⟨fun t z hz => ?_, fun halive => ?_⟩
    · rw [hhist]
      exact hy.records t z (hstate ▸ hz)
    · cases halive.symm.trans hdead

theorem Config.truthful (hw : cfg.system.Reach Heeded w) (s : Shard) (i : ℕ) :
    TruthfulAt w s i := by
  refine hw.induct (J := fun w => TruthfulAt w s i) ?_ ?_
  · refine ⟨fun tid y hy => ?_, fun _ tid req hreq => ?_⟩
    · exact absurd hy (by simp [GlobalState.replica, Protocol.start, Config.system, Config.init])
    · exact absurd hreq (by simp [GlobalState.replica, Protocol.start, Config.system, Config.init])
  · intro (w : GlobalState) n ω input _ ih hen hc
    by_cases hn : Node.replica s i = n
    · subst hn
      exact ih.step hen hc
    · have hsame : GlobalState.replica (cfg.system.next w n ω input) s i =
          GlobalState.replica w s i := Config.replica_next_ne hn
      refine ⟨fun tid y hy htold => ?_, fun hlive tid req hreq => ?_⟩
      · exact List.mem_append_left _ (ih.records tid y (hsame ▸ hy) htold)
      · refine ih.undecided ?_ tid req (hsame ▸ hreq)
        have hcrash : (cfg.system.next w n ω input).crashed (.replica s i) =
            w.crashed (.replica s i) := Function.update_of_ne hn ..
        rw [← hcrash]
        exact hlive

/-- What the client makes of an answer from the table. -/
structure Understood (env : ClientEnv) (req : LRClient.PendingPrepare)
    (reply : PrepareTransactionReply) : Prop where
  commit : reply.state = .commit →
    (Client.report env req reply = some true ↔ Client.outvoted env req reply = true)
  abort : reply.state = .abort →
    (Client.report env req reply = some false ↔
      Client.outvoted env req reply = false ∧ Client.completes env req reply = true)

theorem understood (env : ClientEnv) (req : LRClient.PendingPrepare)
    (reply : PrepareTransactionReply) : Understood env req reply := by
  refine ⟨fun hstate => ?_, fun hstate => ?_⟩
  · rw [Client.report_eq (by rw [hstate]; intro h; cases h)]
    cases Client.outvoted env req reply <;> cases Client.completes env req reply <;> decide
  · rw [Client.report_eq (by rw [hstate]; intro h; cases h)]
    cases Client.outvoted env req reply <;> cases Client.completes env req reply <;> decide

/-- **The table tells the truth.** In every run, in every mode, in which no coordinator decides
on a pending transaction, a recorded commit was applied to the store and a recorded abort
undone there. An answer from the table is one reply with the recorded outcome; the client
reports a success for a commit only when the other replicas outvote it, and a failure for an
abort when they do not and the count is complete. -/
theorem outcomes_truthful (hw : cfg.system.Reach Heeded w) (s : Shard) (i : ℕ) :
    (∀ tid state ts, (w.replica s i).committedTxns.lookup tid = some (state, ts) →
      state = .commit ∨ state = .abort →
      (Node.replica s i, Event.applied tid state ts) ∈ w.history) ∧
    ∀ ω src dst m out, Replica.AnswersFrom ⟨cfg, s, i⟩ (w.replica s i) m out →
      (∃ src' dst', (cfg.system.next w (.replica s i) ω
        (.recv ⟨src, dst, .prepareTransaction m⟩)).net = w.net ++ [⟨src', dst',
          .prepareTransactionReply (Replica.recordedReply ⟨cfg, s, i⟩ m out)⟩]) ∧
      ∀ req, Understood ⟨cfg, m.tid⟩ req (Replica.recordedReply ⟨cfg, s, i⟩ m out) := by
  refine ⟨fun tid state ts hy hstate => (Config.truthful hw s i).records tid _ hy hstate,
    fun ω src dst m out hans => ⟨?_, fun req => understood _ req _⟩⟩
  obtain ⟨src', dst', hrun⟩ := Replica.handlePrepareTxn_recorded (ω := ω) (r := w.replica s i) hans
  refine ⟨src', dst', ?_⟩
  show w.net ++ (Replica.handlePrepareTxn ⟨cfg, s, i⟩ ω src m
    { state := w.replica s i }).state.sent = _
  rw [hrun]
  rfl

/-- The client waits in vain for the vote of shard `0` and aborts. -/
def givenUp : Commands :=
  [act 7 (.put "a" "1"), act 7 .commit, act 7 (.task 0), deliver 0,
    act 7 (.prepareTimeout 0), act 7 .wake, act 7 (.task 0),
    act 7 (.prepareTimeout 0), act 7 .wake, act 7 (.task 0),
    act 7 (.prepareTimeout 0), act 7 .wake, act 7 (.task 0),
    act 7 (.prepareTimeout 0), act 7 .wake, act 7 (.task 0),
    act 7 (.prepareTimeout 0), act 7 .wake, deliver 8]

theorem givenUp_runs : ((threeReplicas .fast 1).run Heeded givenUp).isSome := by
  decide +kernel

/-- The abort is recorded, and it was carried out. -/
theorem givenUp_recorded :
    ∃ w : GlobalState, (threeReplicas .fast 1).system.Reach Heeded w ∧
      (w.replica 0 0).committedTxns.lookup 7 = some (.abort, 0) ∧
      (Node.replica 0 0, Event.applied 7 .abort 0) ∈ w.history := by
  have hw := Config.reach_run givenUp_runs
  have habort : (GlobalState.replica (((threeReplicas .fast 1).run Heeded givenUp).get
      givenUp_runs) 0 0).committedTxns.lookup 7 = some (.abort, 0) := by
    decide +kernel
  exact ⟨_, hw, habort, (outcomes_truthful hw 0 0).1 7 .abort 0 habort (.inr rfl)⟩

/-- The coordinator decides to commit, and only the leader's vote has been heard. -/
def preCommitted : Commands :=
  [act 7 (.put "a" "1"), act 7 .commit, act 7 (.task 0), act 7 (.task 0), deliver 0, deliver 2,
    deliver 6, deliver 7]

theorem preCommitted_runs : ((threeReplicas .parallel 1).run anyStep preCommitted).isSome := by
  decide +kernel

/-- The prepare for shard `0` in the run `fastCommit`. -/
def committedPrepare : PrepareTransaction :=
  { tid := 7, wset := [("a", "1")], participants := [0, 1], primaryShard := 2 ^ 64 - 1
    mode := .fast }

/-- **A recorded commit is not a commit**, and it is not understood as one: the parallel mode
records a transaction that no store has committed, and in the fast mode the client takes the
answer from a true record for a failure. -/
theorem precommit_recorded_as_commit :
    (∃ w : GlobalState, (threeReplicas .parallel 1).system.Reach anyStep w ∧
      (w.replica 0 0).committedTxns.lookup 7 = some (.commit, 0) ∧
      ∀ ts, (Node.replica 0 0, Event.applied 7 .commit ts) ∉ w.history) ∧
    ∃ w : GlobalState, (threeReplicas .fast 2).system.Reach anyStep w ∧
      (⟨.client 7 0, .replica 0 0, .prepareTransaction committedPrepare⟩ : Pkt) ∈ w.net ∧
      Replica.AnswersFrom ⟨threeReplicas .fast 2, 0, 0⟩ (w.replica 0 0) committedPrepare
        (.commit, 0) ∧
      ∀ req, Client.report ⟨threeReplicas .fast 2, 7⟩ req (Replica.recordedReply
        ⟨threeReplicas .fast 2, 0, 0⟩ committedPrepare (.commit, 0)) = some false := by
  refine ⟨⟨_, Config.reach_run preCommitted_runs, by decide +kernel, ?_⟩,
    _, Config.reach_run fastCommit_runs, by decide +kernel, ⟨?_, by decide +kernel,
      by decide +kernel⟩, fun req => rfl⟩
  · have hnone : (((threeReplicas .parallel 1).run anyStep preCommitted).get
        preCommitted_runs).history.countP (fun e => Event.applies 7 e.2) = 0 := by
      decide +kernel
    exact fun ts hmem => List.countP_eq_zero.1 hnone _ hmem rfl
  · rintro ⟨hmode, -⟩
    rcases hmode with h | h <;> cases h

end D2PC
