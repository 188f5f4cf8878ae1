import D2PC.Invariant.Decisions
import D2PC.Invariant.Stores
import D2PC.Properties.Durability

/-!
# Atomic commitment

In the fast mode only the client decides, and its decision is safe in every run. In the
parallel mode a coordinator decides as well, and the two may disagree.

* `fast_atomic` : a commit has the consensus of all participants, and no leader aborts what
  another one commits;
* `parallel_atomic` : the same in the runs of the parallel mode in which the client does not
  give up what a coordinator announced, nor a leader commit what the client gave up, and aborts
  reach only what was given up;
* `lateRefusal_not_atomic` : a run in which it does.
-/

namespace D2PC

open Protocol Prog Ctx

variable {cfg : Config} {w : GlobalState} {tid : TxnId}

/-! ### The fast mode -/

/-- Nothing is announced outside the parallel mode. -/
theorem Config.announced_parallel (hdir : cfg.Direct) {C : StepCond} (hw : cfg.system.Reach C w)
    (ha : Announced w.history tid) : cfg.mode = .parallel ∧ Announceable cfg w.history tid := by
  obtain ⟨c, hc⟩ := ha
  have hok : CoordinatorOk cfg c w.history (w.coordinator c) :=
    (Config.invariant hdir hw).1 (.coordinator c)
  exact ⟨(hok.events _ hc).1, (hok.events _ hc).2.1⟩

/-- **Atomic commitment in the fast mode.** A leader applies a commit only if every participant
leader reached consensus, and no leader applies an abort, or aborts in a cascade, what
another one commits. -/
theorem fast_atomic (hmode : cfg.mode = .fast) (hw : cfg.system.Reach anyStep w)
    {s : Shard} {ts : ℕ}
    (hc : (cfg.leaderNode s, Event.applied tid .commit ts) ∈ w.history) :
    (∃ st, startOf w.history tid = some st ∧
      ∀ s' ∈ st.participants, Consensus cfg w.history s' tid) ∧
    ∀ s', (∀ ts', (cfg.leaderNode s', Event.applied tid .abort ts') ∉ w.history) ∧
      (cfg.leaderNode s', Event.cascaded tid) ∉ w.history := by
  have hdir : cfg.Direct := .inl hmode
  have hinv := (Config.invariant hdir hw).1
  have hevents : ∀ s e, (cfg.leaderNode s, e) ∈ w.history → ReplicaEventOk cfg s w.history e :=
    fun s e he => (show ReplicaOk cfg s (cfg.leader s) w.history _ from
      hinv (.replica s (cfg.leader s))).events e he
  have hclient : ClientOk cfg tid w.history (w.client tid) := hinv (.client tid)
  have hnone : ¬ Announced w.history tid := fun ha => by
    cases hmode.symm.trans (Config.announced_parallel hdir hw ha).1
  have hcommit : Decided w.history tid true := by
    rcases hevents s _ hc with ⟨_, hd | ha⟩ | ⟨hstate, _⟩
    · exact hd
    · exact absurd ha hnone
    · cases hstate
  refine ⟨?_, fun s' => ⟨fun ts' ha => ?_, fun hcas => ?_⟩⟩
  · rcases hclient.outcome hcommit with ha | ⟨st, hst, hall⟩
    · exact absurd ha hnone
    · refine ⟨st, hst, fun s' hs' => (hall s' hs').resolve_left fun hcar => ?_⟩
      cases hmode.symm.trans hcar
  · rcases hevents s' _ ha with ⟨hstate, _⟩ | ⟨_, hd⟩
    · cases hstate
    · exact hclient.once ⟨hcommit, hd⟩
  · have hd : Decided w.history tid false := hevents s' _ hcas (by rw [hmode]; decide)
    exact hclient.once ⟨hcommit, hd⟩

/-- Two shards prepare, agree and commit. -/
def fastCommit : Commands :=
  [act 7 (.put "a" "1"), act 7 (.put "b" "2"), act 7 .commit, act 7 (.task 0), act 7 (.task 0),
    deliver 0, deliver 1, deliver 2, deliver 3, deliver 6, deliver 7, deliver 8, deliver 9,
    deliver 10, deliver 11, deliver 12, deliver 13, act 7 .wake, deliver 14, deliver 15]

theorem fastCommit_runs : ((threeReplicas .fast 2).run anyStep fastCommit).isSome := by
  decide +kernel

theorem fastCommit_atomic :
    ∃ w : GlobalState, (threeReplicas .fast 2).system.Reach anyStep w ∧
      ((threeReplicas .fast 2).leaderNode 1, Event.applied 7 .commit 0) ∈ w.history ∧
      (∃ st, startOf w.history 7 = some st ∧
        ∀ s' ∈ st.participants, Consensus (threeReplicas .fast 2) w.history s' 7) ∧
      ∀ s' ts', ((threeReplicas .fast 2).leaderNode s', Event.applied 7 .abort ts') ∉
        w.history := by
  have hc : ((threeReplicas .fast 2).leaderNode 1, Event.applied 7 .commit 0) ∈
      (((threeReplicas .fast 2).run anyStep fastCommit).get fastCommit_runs).history := by
    decide +kernel
  have hatomic := fast_atomic rfl (Config.reach_run fastCommit_runs) hc
  exact ⟨_, Config.reach_run fastCommit_runs, hc, hatomic.1, fun s' => (hatomic.2 s').1⟩

/-! ### The parallel mode -/

/-- **One decider.** The client gives up only transactions that no coordinator announced, a
leader at which the transaction is pending hears of the announcement only before the client
gave up, and an abort reaches only transactions whose clients gave them up. -/
def oneDecider : StepCond := fun (w : GlobalState) n _ input =>
  match n, input with
  | .client tid, .act (.client .wake) =>
      (w.client tid).givesUp = true → ¬ Announced w.history tid
  | .replica s i, .recv ⟨_, _, .notifyReplicateResult m⟩ =>
      m.tid ∈ (w.replica s i).pendingTxns → ¬ Decided w.history m.tid false
  | .replica s i, .recv ⟨_, _, .commit m⟩ =>
      m.state ≠ .commit → ∀ req, (w.replica s i).pendingTxns.lookup m.tid = some req →
        req.isParticipant = true →
          ∀ d, Replica.Cascades (w.replica s i) m.tid d → Decided w.history d false
  | _, _ => True

/-- Nothing happens when the announced transaction is not pending. -/
theorem Replica.result_not_pending {env : ReplicaEnv} {ω : Choice} {msg : NotifyReplicateResult}
    {x : Ctx Replica Addr Msg Event} (hnot : msg.tid ∉ x.state.pendingTxns) :
    handleReplicateResultFromCoordinatorReplica env ω msg x = .done () x := by
  have hnone := AList.lookup_eq_none.2 hnot
  have hreply : handleParallelCommitResult env msg.tid msg.timestamp .commit x = .done () x := by
    simp only [handleParallelCommitResult, bind, Ctx.read, Prog.gets, hnone]
    rfl
  have hcommit : handleCommit env ω
      { tid := msg.tid, state := .commit, timestamp := msg.timestamp } x = .done () x := by
    simp only [handleCommit, bind, Ctx.read, Prog.gets, hnone]
    rfl
  simp only [handleReplicateResultFromCoordinatorReplica, bind, hreply, hcommit]

/-- What reaches a replica in the direct modes. -/
theorem Config.directInput (hdir : cfg.Direct) {C : StepCond} (hw : cfg.system.Reach C w)
    {n : Node} {input : Input Addr Msg Act} (hen : cfg.system.Enabled w n input) :
    Replica.DirectInput cfg input := by
  have hpkt := (Config.invariant hdir hw).2
  cases input with
  | act a => trivial
  | recv p =>
      obtain ⟨src, dst, msg⟩ := p
      cases msg with
      | prepareTransaction m =>
          obtain ⟨h₁, h₂, _⟩ := hpkt _ hen.2.1
          exact ⟨h₁, h₂⟩
      | notifyDecision m => exact (hpkt _ hen.2.1).1
      | _ => trivial

/-- A step of a replica is a sequence of operations for the transaction of its input. -/
theorem Config.step_ops (hdir : cfg.Direct) {C : StepCond} (hw : cfg.system.Reach C w)
    {s : Shard} {i : ℕ} (ω : Choice) {input : Input Addr Msg Act}
    (hen : cfg.system.Enabled w (.replica s i) input) :
    Replica.Ops ⟨cfg, s, i⟩ (Replica.inputTxn input) (Replica.Commits input)
      (Replica.Aborts input) { state := w.replica s i }
      (cfg.system.handle (.replica s i) ω input { state := w.replica s i }).state := by
  have hr : ReplicaOk cfg s i w.history (w.replica s i) :=
    (Config.invariant hdir hw).1 (.replica s i)
  exact Prog.wp_state (Replica.handleInput_ops (Config.directInput hdir hw hen) hr.prepares)

/-- What a replica records as a commit in one step comes from the client or from an
announcement. -/
theorem Config.commit_source (hdir : cfg.Direct) {C : StepCond} (hw : cfg.system.Reach C w)
    {s : Shard} {i : ℕ} {ω : Choice} {input : Input Addr Msg Act} {ts : ℕ}
    (hen : cfg.system.Enabled w (.replica s i) input)
    (he : .applied tid .commit ts ∈ (cfg.system.handle (.replica s i) ω input
      { state := w.replica s i }).state.events) :
    Decided w.history tid true ∨ ∃ src dst m, m.tid = tid ∧ tid ∈ (w.replica s i).pendingTxns ∧
      input = .recv ⟨src, dst, .notifyReplicateResult m⟩ := by
  have hpkt := (Config.invariant hdir hw).2
  have hops := Config.step_ops hdir hw ω hen
  rcases hops.applied_commit he with hold | ⟨hcommits, htid⟩
  · cases hold
  · unfold Replica.Commits at hcommits
    split at hcommits
    · rename_i src dst m
      have hp := hpkt _ hen.2.1
      rcases hp with ⟨_, hd⟩ | ⟨hstate, _⟩
      · rw [htid]
        exact .inl hd
      · rw [hcommits] at hstate
        cases hstate
    · rename_i src dst m
      refine .inr ⟨src, dst, m, htid.symm, ?_, rfl⟩
      by_contra hnot
      have hnot' : m.tid ∉ ({ state := w.replica s i } : Ctx Replica Addr Msg Event).state.pendingTxns :=
        by rwa [htid] at hnot
      have hidle : cfg.system.handle (.replica s i) ω (.recv ⟨src, dst, .notifyReplicateResult m⟩)
          { state := w.replica s i } = .done () { state := w.replica s i } :=
        Replica.result_not_pending hnot'
      rw [hidle] at he
      cases he
    · exact hcommits.elim

/-- No commit is applied of what the client gave up. -/
theorem Config.commit_not_aborted (hmode : cfg.mode = .parallel)
    (hw : cfg.system.Reach oneDecider w) {s : Shard} {i ts : ℕ}
    (hc : (Node.replica s i, Event.applied tid .commit ts) ∈ w.history) :
    ¬ Decided w.history tid false := by
  have hdir : cfg.Direct := .inr (.inl hmode)
  revert hc
  refine hw.induct (J := fun w => (Node.replica s i, Event.applied tid .commit ts) ∈ w.history →
    ¬ Decided w.history tid false) (fun hc => absurd hc List.not_mem_nil) ?_
  intro (w : GlobalState) n ω input hw ih hen hcond hc hd
  have hnode := (Config.invariant hdir hw).1
  have hclient : ClientOk cfg tid w.history (w.client tid) := hnode (.client tid)
  rw [Decided, Config.mem_next] at hd
  rw [Config.mem_next] at hc
  rcases hd with hd | ⟨rfl, hd⟩
  · rcases hc with hc | ⟨rfl, hc⟩
    · exact ih hc hd
    · rcases Config.commit_source hdir hw hen hc with htrue | ⟨_, _, m, rfl, hpend, rfl⟩
      · exact hclient.once ⟨htrue, hd⟩
      · exact hcond hpend hd
  · -- the client gives up a transaction that was committed somewhere
    have hc : (Node.replica s i, Event.applied tid .commit ts) ∈ w.history :=
      hc.resolve_right fun h => by cases h.1
    have hr : ReplicaOk cfg s i w.history (w.replica s i) := hnode (.replica s i)
    have hwhy : Decided w.history tid true ∨ Announced w.history tid := by
      rcases hr.events _ hc with ⟨_, hwhy⟩ | ⟨hstate, _⟩
      · exact hwhy
      · cases hstate
    have hgave : (w.client tid).Gave input (cfg.system.handle (.client tid) ω input
        { state := w.client tid }).state :=
      Prog.wp_state (Client.handleInput_abort ⟨cfg, tid⟩ ω (w.client tid) input)
    rcases hgave hd with hrun | ⟨rfl, hup⟩
    · have hphase := hclient.phase
      simp only [PhaseOk, hrun] at hphase
      rcases hwhy with htrue | hann
      · exact hphase.1.undecided _ htrue
      · obtain ⟨_, st, hst, _⟩ := Config.announced_parallel hdir hw hann
        rw [hphase.1.start] at hst
        cases hst
    · rcases hwhy with htrue | hann
      · have hclient' : ClientOk cfg tid _ _ :=
          (Config.invariant hdir (.step hw hen hcond)).1 (.client tid)
        refine hclient'.once ⟨?_, ?_⟩
        · rw [Decided, Config.mem_next]
          exact .inl htrue
        · rw [Decided, Config.mem_next]
          exact .inr ⟨rfl, hd⟩
      · exact hcond hup hann

/-- What a cascade aborts, its client gave up. -/
theorem Config.cascaded_given_up (hmode : cfg.mode = .parallel)
    (hw : cfg.system.Reach oneDecider w) {s : Shard} {i : ℕ}
    (hc : (Node.replica s i, Event.cascaded tid) ∈ w.history) : Decided w.history tid false := by
  have hdir : cfg.Direct := .inr (.inl hmode)
  revert hc
  refine hw.induct (J := fun w => (Node.replica s i, Event.cascaded tid) ∈ w.history →
    Decided w.history tid false) (fun hc => absurd hc List.not_mem_nil) ?_
  intro (w : GlobalState) n ω input hw ih hen hcond hc
  have hpkt := (Config.invariant hdir hw).2
  rw [Decided, Config.mem_next]
  refine .inl ?_
  rcases Config.mem_next.1 hc with hc | ⟨rfl, hc⟩
  · exact ih hc
  have hr : ReplicaOk cfg s i w.history (w.replica s i) :=
    (Config.invariant hdir hw).1 (.replica s i)
  have hprepared : ∀ src dst m, input = .recv ⟨src, dst, .notifyDecision m⟩ →
      m.state = .prepared := by
    rintro src dst m rfl
    exact (hpkt _ hen.2.1).2
  rcases Replica.handleInput_cascaded (Config.directInput hdir hw hen) hr.prepares hprepared hc with
    hold | ⟨rfl, haborts⟩ | hsweep
  · cases hold
  · -- the transaction of the message, which its client sent
    unfold Replica.Aborts at haborts
    split at haborts
    · exact ((hpkt _ hen.2.1).resolve_left fun h => haborts h.1).2
    · exact absurd (hprepared _ _ _ rfl) haborts
    · exact haborts.elim
  · unfold Replica.Sweeps at hsweep
    split at hsweep
    · obtain ⟨hstate, hreach, req, hreq, hpart⟩ := hsweep
      exact hcond hstate req hreq hpart tid hreach
    · exact hsweep.elim

/-- The outcome of `tid` is the same everywhere: no leader aborts, by itself or in a cascade, what
another one commits, and the client gives up only what no leader ever commits. -/
def Atomic (cfg : Config) (h : History) (tid : TxnId) : Prop :=
  (∀ s ts, (cfg.leaderNode s, Event.applied tid .commit ts) ∈ h →
    ∀ s', (∀ ts', (cfg.leaderNode s', Event.applied tid .abort ts') ∉ h) ∧
      (cfg.leaderNode s', Event.cascaded tid) ∉ h) ∧
  (Decided h tid false → ∀ s ts, (cfg.leaderNode s, Event.applied tid .commit ts) ∉ h)

/-- **Atomic commitment in the parallel mode**, in the runs with one decider. -/
theorem parallel_atomic (hmode : cfg.mode = .parallel) (hw : cfg.system.Reach oneDecider w)
    (tid : TxnId) : Atomic cfg w.history tid := by
  refine ⟨fun s ts hc s' => ⟨fun ts' ha => ?_, fun hcas => ?_⟩,
    fun hd s ts hc => Config.commit_not_aborted hmode hw hc hd⟩
  · have hr : ReplicaOk cfg s' (cfg.leader s') w.history (w.replica s' (cfg.leader s')) :=
      (Config.invariant (.inr (.inl hmode)) hw).1 (.replica s' (cfg.leader s'))
    rcases hr.events _ ha with ⟨hstate, _⟩ | ⟨_, hd⟩
    · cases hstate
    · exact Config.commit_not_aborted hmode hw hc hd
  · exact Config.commit_not_aborted hmode hw hc (Config.cascaded_given_up hmode hw hcas)

/-- One decider, in a run in which no leader is told to abort. -/
def agreeingInput (w : GlobalState) : Node → Input Addr Msg Act → Bool
  | .client tid, .act (.client .wake) =>
      decide ((w.client tid).givesUp = true → ¬ Announced w.history tid)
  | .replica s i, .recv ⟨_, _, .notifyReplicateResult m⟩ =>
      decide (m.tid ∈ (w.replica s i).pendingTxns → ¬ Decided w.history m.tid false)
  | .replica _ _, .recv ⟨_, _, .commit m⟩ => decide (m.state = .commit)
  | _, _ => true

def agreeing : StepCond := fun w n _ input => agreeingInput w n input = true

instance (w : GlobalState) (n : Node) (ω : Choice) (input : Input Addr Msg Act) :
    Decidable (agreeing w n ω input) :=
  inferInstanceAs (Decidable (_ = true))

theorem agreeing.agree {w : GlobalState} {n : Node} {ω : Choice} {input : Input Addr Msg Act}
    (h : agreeing w n ω input) : oneDecider w n ω input := by
  unfold agreeing agreeingInput at h
  unfold oneDecider
  split at h
  · exact of_decide_eq_true h
  · exact of_decide_eq_true h
  · exact fun hne => absurd (of_decide_eq_true h) hne
  · trivial

/-- Two shards prepare, the coordinator of the primary shard announces, and its leader
commits. -/
def announcedCommit : Commands :=
  [act 7 (.put "a" "1"), act 7 (.put "b" "2"), act 7 .commit, act 7 (.task 0), act 7 (.task 0),
    act 7 (.task 0), deliver 0, deliver 1, deliver 2, deliver 3, deliver 4, deliver 6, deliver 7,
    deliver 10, deliver 12, deliver 14, deliver 16, deliver 17, deliver 18, deliver 20, deliver 22,
    deliver 23]

/-- The client then hears of the outcome, and the other shard commits too. -/
def announcedToClient : Commands := announcedCommit ++ [deliver 27, act 7 .wake, deliver 32]

theorem announcedToClient_runs :
    ((threeReplicas .parallel 2).run agreeing announcedToClient).isSome := by
  decide +kernel

theorem announcedToClient_atomic :
    ∃ w : GlobalState, (threeReplicas .parallel 2).system.Reach oneDecider w ∧
      (Node.replica 0 0, Event.applied 7 .commit 0) ∈ w.history ∧
      (Node.replica 1 1, Event.applied 7 .commit 0) ∈ w.history ∧
      Atomic (threeReplicas .parallel 2) w.history 7 := by
  have hreach := (Config.reach_run announcedToClient_runs).mono fun _ _ _ _ => agreeing.agree
  refine ⟨_, hreach, ?_, ?_, parallel_atomic rfl hreach 7⟩
  · decide +kernel
  · decide +kernel

/-- The client sends its prepare to the primary shard a second time instead. That shard
answers `LOG_STATE_COMMIT`, which the client takes for a refusal: it aborts, and so does the
other shard. -/
def lateRefusal : Commands := announcedCommit ++ [deliver 0, deliver 31, act 7 .wake, deliver 33]

theorem lateRefusal_runs : ((threeReplicas .parallel 2).run anyStep lateRefusal).isSome := by
  decide +kernel

theorem lateRefusal_not_atomic :
    ¬ ∀ w : GlobalState, (threeReplicas .parallel 2).system.Reach anyStep w →
      ∀ tid, Atomic (threeReplicas .parallel 2) w.history tid := by
  intro hall
  have hatomic := hall _ (Config.reach_run lateRefusal_runs) 7
  refine (hatomic.1 0 0 ?_ 1).1 0 ?_
  · decide +kernel
  · decide +kernel

end D2PC
