import D2PC.Properties.Durability

/-!
# Agreement of the coordinators

The coordinator of the primary shard ships its `req->state` to the others. At consensus this
is `PREPARED`, and a coordinator that has the transaction pending takes every state but
`COMMIT` for an abort.

* `coordinators_agree` : in the runs in which a shipped state other than `COMMIT` meets no
  pending transaction, all recorded decisions agree and none is an abort that was announced;
* `shippedState_not_agreed` : a run in which it does.
-/

namespace D2PC

open Protocol Prog Ctx

/-- A transaction at consensus is not aborted. -/
def PendingCommit.Clean (req : PendingCommit) : Prop :=
  req.reachConsensus = true → req.state ≠ .abort

namespace Coordinator

/-- No abort was recorded, and none will be when a pending transaction is announced. -/
structure Clean (x : Ctx Coordinator Addr Msg Event) : Prop where
  pending : ∀ tid req, x.state.pendingCommits.lookup tid = some req → req.Clean
  results : ∀ tid r, x.state.commitResults.lookup tid = some r → r.1 ≠ .abort
  events : ∀ tid, .recorded tid .abort ∉ x.events

variable {env : CoordinatorEnv} {ω : Choice} {x : Ctx Coordinator Addr Msg Event} {tid : TxnId}
  {req : PendingCommit}

/-! ### The primitives -/

theorem Clean.send (hx : Clean x) (ps : List Pkt) : Clean { x with sent := x.sent ++ ps } :=
  ⟨hx.pending, hx.results, hx.events⟩

theorem Clean.setCommit (hx : Clean x) (tid : TxnId) (hreq : req.Clean) :
    Clean { x with state := { x.state with
      pendingCommits := x.state.pendingCommits.insert tid req } } := by
  refine ⟨fun tid' req' hl => ?_, hx.results, hx.events⟩
  rw [Table.lookup_insert_eq] at hl
  split_ifs at hl with heq
  · cases hl
    exact hreq
  · exact hx.pending tid' req' hl

theorem Clean.eraseCommit (hx : Clean x) (tid : TxnId) :
    Clean { x with state := { x.state with
      pendingCommits := x.state.pendingCommits.erase tid } } := by
  refine ⟨fun tid' req' hl => ?_, hx.results, hx.events⟩
  rw [Table.lookup_erase_eq] at hl
  split_ifs at hl with heq
  exact hx.pending tid' req' hl

theorem Clean.emit (hx : Clean x) {e : Event} (he : ∀ tid, e ≠ .recorded tid .abort) :
    Clean { x with events := x.events ++ [e] } := by
  refine ⟨hx.pending, hx.results, fun tid hmem => ?_⟩
  rcases List.mem_append.1 hmem with hold | hnew
  · exact hx.events tid hold
  · exact he tid (List.mem_singleton.1 hnew).symm

theorem record_clean (hx : Clean x) (tid : TxnId) {result : CommitResult}
    (hresult : result ≠ .abort) (announced : Bool) :
    wp (record tid result announced) (fun _ => Clean) Clean x := by
  have hx₁ : Clean { x with state := { x.state with
      commitResults := x.state.commitResults.insert tid (result, announced) } } := by
    refine ⟨hx.pending, fun tid' r hl => ?_, hx.events⟩
    rw [Table.lookup_insert_eq] at hl
    split_ifs at hl with heq
    · cases hl
      exact hresult
    · exact hx.results tid' r hl
  refine hx₁.emit fun tid' heq => ?_
  cases heq
  exact hresult rfl

theorem notifyReplicateResult_clean (hx : Clean x) (req : PendingCommit) :
    wp (notifyReplicateResult env req) (fun _ => Clean) Clean x := by
  simp only [notifyReplicateResult, wp_bind, wp_emit, wp_send]
  have hx₁ := hx.emit (e := .announced req.tid) fun _ h => by cases h
  exact (hx₁.send _).send _

theorem announce_clean (hx : Clean x) (req : PendingCommit) {result : CommitResult}
    (hresult : result ≠ .abort) : wp (announce env req result) (fun _ => Clean) Clean x := by
  simp only [announce, wp_bind]
  refine wp_mono (fun _ y hy => ?_) (fun _ hy => hy) (record_clean hx req.tid hresult true)
  refine wp_mono (fun _ z hz => ?_) (fun _ hz => hz) (notifyReplicateResult_clean hy req)
  exact hz.eraseCommit req.tid

/-! ### Votes -/

theorem newCommit_clean : (newCommit env ω tid).Clean := fun h => by cases h

theorem learnParticipants_clean (hreq : req.Clean) (participants : List Shard) :
    (learnParticipants req participants).Clean := by
  unfold learnParticipants
  split_ifs
  · exact hreq
  · exact hreq

theorem votedCommit_clean (hx : Clean x) (env : CoordinatorEnv) (ω : Choice) (tid : TxnId)
    (participants : List Shard) (primaryShard primaryCoordinator timestamp : ℕ) :
    (votedCommit env ω (x.state.pendingCommits.lookup tid) tid participants primaryShard
      primaryCoordinator timestamp).Clean := by
  have hpend := hx.pending tid
  revert hpend
  generalize x.state.pendingCommits.lookup tid = pending
  intro hpend
  cases pending with
  | none => exact fun h => by cases h
  | some req => exact learnParticipants_clean (hpend req rfl) participants

/-- Consensus is on `PREPARED`. -/
theorem collectVote_clean (hreq : req.Clean) :
    (collectVote req).2.Clean ∧ ((collectVote req).1 = true → (collectVote req).2.state ≠ .abort) := by
  have hsame : (reachConsensus req).2.state = req.state ∧
      (reachConsensus req).2.reachConsensus = req.reachConsensus := by
    unfold reachConsensus
    split_ifs
    · exact ⟨rfl, rfl⟩
    · exact ⟨rfl, rfl⟩
  simp only [collectVote]
  split_ifs with hreached
  · exact ⟨fun _ => (fun h => by cases h), fun _ h => by cases h⟩
  · refine ⟨fun hcons => ?_, fun htrue => absurd htrue hreached⟩
    rw [hsame.1]
    exact hreq (hsame.2.symm.trans hcons)

theorem tallyVote_clean (hx : Clean x) (tid : TxnId) (hreq : req.Clean)
    (free : PendingCommit → Bool) :
    wp (tallyVote env tid req free) (fun _ => Clean) Clean x := by
  obtain ⟨hclean, hstate⟩ := collectVote_clean hreq
  have hx₁ := hx.setCommit tid hclean
  simp only [tallyVote, wp_bind, setCommit, wp_update, wp_when, notifyCommitDecision, wp_send]
  exact ⟨fun hreached => ⟨fun _ => announce_clean (hx₁.send _) _ (hstate hreached),
    fun _ => hx₁.send _⟩, fun _ => hx₁⟩

theorem handleReplicateReplyAndVote_clean (hx : Clean x) {msg : ReplicateReplyAndVote}
    (hvote : msg.vote = .prepared) :
    wp (handleReplicateReplyAndVote env ω msg) (fun _ => Clean) Clean x := by
  simp only [handleReplicateReplyAndVote, wp_bind, wp_read, wp_ite, wp_pure, setCommit, wp_update]
  refine ⟨fun _ => hx, fun _ => ⟨fun _ => ?_, fun hnot => absurd hvote hnot⟩⟩
  have hreq := votedCommit_clean hx env ω msg.tid msg.participants msg.primaryShard
    msg.primaryCoordinator msg.timestamp
  refine wp_mono (fun _ y (hy : Clean y) => hy.send _) (fun _ hy => hy) ?_
  exact tallyVote_clean (hx.setCommit msg.tid hreq) msg.tid (by exact hreq) _

theorem handleVote_clean (hx : Clean x) {msg : Vote} (hvote : msg.vote = .prepared) :
    wp (handleVote env ω msg) (fun _ => Clean) Clean x := by
  simp only [handleVote, wp_bind, wp_read, wp_ite, wp_pure, setCommit, wp_update]
  refine ⟨fun _ => hx, fun _ => ⟨fun _ => ?_, fun hnot => absurd hvote hnot⟩⟩
  have hreq := votedCommit_clean hx env ω msg.tid msg.participants msg.primaryShard
    msg.primaryCoordinator msg.timestamp
  exact tallyVote_clean (hx.setCommit msg.tid hreq) msg.tid (by exact hreq) _

/-! ### The other messages -/

theorem handleBypassLeaderReply_clean (hx : Clean x) (msg : BypassLeaderReply) :
    wp (handleBypassLeaderReply env ω msg) (fun _ => Clean) Clean x := by
  have hreq : ((x.state.pendingCommits.lookup msg.tid).getD (newCommit env ω msg.tid)).Clean := by
    cases hl : x.state.pendingCommits.lookup msg.tid with
    | none => exact newCommit_clean
    | some req => exact hx.pending msg.tid req hl
  have hadd : ∀ req : PendingCommit, req.Clean → (addReply req msg).2.Clean := by
    intro req hreq
    unfold addReply
    dsimp only
    split_ifs
    · exact hreq
    · exact hreq
  have hcollect : ∀ new (req : PendingCommit), req.Clean → (collectReply new req).2.Clean := by
    intro new req hreq
    unfold collectReply
    split_ifs
    · exact hreq
    · exact hreq
  simp only [handleBypassLeaderReply, wp_bind, wp_read, wp_ite, wp_pure, setCommit, wp_update,
    wp_when]
  refine ⟨fun _ => hx, fun _ => ?_⟩
  generalize (x.state.pendingCommits.lookup msg.tid).getD (newCommit env ω msg.tid) = req
    at hreq ⊢
  have hx₁ := hx.setCommit msg.tid (hcollect (addReply req msg).1 _ (hadd req hreq))
  exact ⟨fun _ => announce_clean hx₁ _ (fun h => by cases h), fun _ => hx₁⟩

theorem handleNotifyDependenciesAreCleared_clean (hx : Clean x)
    (msg : NotifyDependenciesAreCleared) :
    wp (handleNotifyDependenciesAreCleared env msg) (fun _ => Clean) Clean x := by
  simp only [handleNotifyDependenciesAreCleared, wp_bind, wp_read]
  split
  · exact hx
  · rename_i req hreq
    have hclean := hx.pending msg.tid req hreq
    simp only [wp_bind, setCommit, wp_update, wp_when, Bool.and_eq_true]
    refine ⟨fun hflags => ?_, fun _ => hx.setCommit msg.tid (by exact hclean)⟩
    exact announce_clean (hx.setCommit msg.tid (by exact hclean)) _ (hclean hflags.1.2)

/-- A shipped state that is not a commit does no harm where nothing is pending. -/
theorem handleReplicateDecision_clean (hx : Clean x) {msg : ReplicateDecision}
    (hlate : msg.state = .commit ∨ msg.tid ∉ x.state.pendingCommits) :
    wp (handleReplicateDecision env msg) (fun _ => Clean) Clean x := by
  simp only [handleReplicateDecision, wp_bind, wp_read]
  split
  · exact hx
  · rename_i req hreq
    have hmem : msg.tid ∈ x.state.pendingCommits := by
      rw [← AList.lookup_isSome, hreq]
      rfl
    have hcommit := hlate.resolve_right (not_not.2 hmem)
    simp only [wp_bind, setCommit, wp_update, hcommit, if_true, wp_send, wp_when, eraseCommit]
    have hx₁ := hx.setCommit msg.tid (by exact fun _ => (fun h => by cases h) : PendingCommit.Clean { req with state := .commit })
    refine wp_mono (fun _ y hy => ?_) (fun _ hy => hy)
      (record_clean hx₁ msg.tid ((fun h => by cases h) : CommitResult.commit ≠ .abort) false)
    exact ⟨fun _ => (hy.send _).eraseCommit msg.tid, fun _ => hy.send _⟩

theorem handleReplyDecision_clean (hx : Clean x) (msg : ReplyDecision) :
    wp (handleReplyDecision msg) (fun _ => Clean) Clean x := by
  simp only [handleReplyDecision, wp_bind, wp_read]
  split
  · exact hx
  · rename_i req hreq
    simp only [wp_ite, wp_pure, wp_bind, setCommit, wp_update, wp_when, eraseCommit]
    have hclean : PendingCommit.Clean { req with
        commitDecisionReplies := insert msg.coordinatorId req.commitDecisionReplies } :=
      hx.pending msg.tid req hreq
    have hx₁ := hx.setCommit msg.tid hclean
    exact ⟨fun _ => hx, fun _ => ⟨fun _ => hx₁.eraseCommit msg.tid, fun _ => hx₁⟩⟩

theorem handleRequestCommitResult_clean (hx : Clean x) (msg : RequestCommitResult) :
    wp (handleRequestCommitResult env ω msg) (fun _ => Clean) Clean x := by
  simp only [handleRequestCommitResult, wp_bind, wp_read]
  split
  · simp only [wp_bind, wp_read, wp_ite, setCommit, wp_update]
    exact ⟨fun _ => notifyReplicateResult_clean hx _, fun _ => hx.setCommit msg.tid (fun h => by cases h)⟩
  · rename_i req hreq
    exact hx.setCommit msg.tid
      (by exact learnParticipants_clean (hx.pending msg.tid req hreq) msg.participants)

end Coordinator

/-! ### Whole runs -/

variable {cfg : Config} {w : GlobalState}

/-- **Late decisions.** A coordinator at which the transaction is pending is shipped no state
but `COMMIT`. -/
def shipsLate (w : GlobalState) : Node → Input Addr Msg Act → Bool
  | .coordinator c, .recv ⟨_, _, .replicateDecision m⟩ =>
      decide (m.state = .commit ∨ m.tid ∉ (w.coordinator c).pendingCommits)
  | _, _ => true

def lateDecisions : StepCond := fun w n _ input => shipsLate w n input = true

instance (w : GlobalState) (n : Node) (ω : Choice) (input : Input Addr Msg Act) :
    Decidable (lateDecisions w n ω input) :=
  inferInstanceAs (Decidable (_ = true))

/-- One step of a coordinator. -/
theorem Coordinator.handleInput_clean (hdir : cfg.Direct) (hw : cfg.system.Reach lateDecisions w)
    {c : ℕ} {ω : Choice} {input : Input Addr Msg Act}
    (hen : cfg.system.Enabled w (.coordinator c) input)
    (hcond : lateDecisions w (.coordinator c) ω input)
    (hx : Clean { state := w.coordinator c }) :
    wp (handleInput ⟨cfg, c⟩ ω input) (fun _ => Clean) Clean { state := w.coordinator c } := by
  have hpkt := (Config.invariant hdir hw).2
  cases input with
  | act a => exact hx
  | recv p =>
      obtain ⟨src, dst, msg⟩ := p
      have hp := hpkt _ hen.2.1
      cases msg with
      | replicateReplyAndVote m => exact handleReplicateReplyAndVote_clean hx hp.2.1
      | vote m => exact handleVote_clean hx hp.2.1
      | bypassLeaderReply m => exact handleBypassLeaderReply_clean hx m
      | replicateDecision m => exact handleReplicateDecision_clean hx (of_decide_eq_true hcond)
      | replyDecision m => exact handleReplyDecision_clean hx m
      | notifyDependenciesAreCleared m => exact handleNotifyDependenciesAreCleared_clean hx m
      | requestCommitResult m => exact handleRequestCommitResult_clean hx m
      | bypassLeaderReplyUnion m => exact hp.elim
      | notifyDecisionToPrimary m => exact hp.elim
      | _ => exact hx

/-- No coordinator ever records an abort. -/
theorem Config.coordinator_clean (hdir : cfg.Direct) (hw : cfg.system.Reach lateDecisions w)
    (c : ℕ) : Coordinator.Clean { state := w.coordinator c } ∧
      ∀ tid, (Node.coordinator c, Event.recorded tid .abort) ∉ w.history := by
  refine hw.induct (J := fun w => Coordinator.Clean { state := GlobalState.coordinator w c } ∧
    ∀ tid, (Node.coordinator c, Event.recorded tid .abort) ∉ w.history) ?_ ?_
  · refine ⟨⟨?_, ?_, fun _ => List.not_mem_nil⟩, fun _ => List.not_mem_nil⟩
    all_goals exact fun _ _ hl => absurd hl (by simp [Protocol.start, GlobalState.coordinator,
      Config.system, Config.init])
  intro (w : GlobalState) n ω input hw ih hen hcond
  by_cases hn : Node.coordinator c = n
  · subst hn
    have hclean := Prog.wp_state (Coordinator.handleInput_clean hdir hw hen hcond ih.1)
    have hstate : GlobalState.coordinator (cfg.system.next w (.coordinator c) ω input) c =
        (Coordinator.handleInput ⟨cfg, c⟩ ω input { state := w.coordinator c }).state.state :=
      Function.update_self ..
    rw [hstate]
    refine ⟨⟨hclean.pending, hclean.results, fun _ => List.not_mem_nil⟩, fun tid hmem => ?_⟩
    rcases Config.mem_next.1 hmem with hold | ⟨_, hnew⟩
    · exact ih.2 tid hold
    · exact hclean.events tid hnew
  · have hstate : GlobalState.coordinator (cfg.system.next w n ω input) c = w.coordinator c :=
      Function.update_of_ne hn ..
    rw [hstate]
    refine ⟨ih.1, fun tid hmem => ?_⟩
    rcases Config.mem_next.1 hmem with hold | ⟨heq, _⟩
    · exact ih.2 tid hold
    · exact hn heq

/-- The decisions recorded for a transaction are all aborts or all none, and what was announced
is not recorded as an abort. -/
def CoordinatorsAgree (w : GlobalState) : Prop :=
  (∀ c c' tid r r', (w.coordinator c).commitResults.lookup tid = some r →
    (w.coordinator c').commitResults.lookup tid = some r' → (r.1 = .abort ↔ r'.1 = .abort)) ∧
  ∀ c tid, Announced w.history tid → (Node.coordinator c, Event.recorded tid .abort) ∉ w.history

/-- **Coordinators agree**, in the runs with late decisions. -/
theorem coordinators_agree (hmode : cfg.mode = .parallel)
    (hw : cfg.system.Reach lateDecisions w) : CoordinatorsAgree w := by
  have hdir : cfg.Direct := .inr (.inl hmode)
  refine ⟨fun c c' tid r r' hr hr' => ?_, fun c tid _ => (Config.coordinator_clean hdir hw c).2 tid⟩
  have hnot := (Config.coordinator_clean hdir hw c).1.results tid r hr
  have hnot' := (Config.coordinator_clean hdir hw c').1.results tid r' hr'
  exact ⟨fun h => absurd h hnot, fun h => absurd h hnot'⟩

/-- A write of one key is announced, and the decision is shipped to the coordinators that have
nothing pending. -/
def shippedLate : Commands := parallelVote ++ [deliver 13, deliver 15]

theorem shippedLate_runs :
    ((threeReplicas .parallel 1).run lateDecisions shippedLate).isSome := by
  decide +kernel

theorem shippedLate_agree :
    ∃ w : GlobalState, (threeReplicas .parallel 1).system.Reach lateDecisions w ∧
      Announced w.history 7 ∧ (w.coordinator 0).commitResults.lookup 7 = some (.commit, true) ∧
      CoordinatorsAgree w := by
  refine ⟨_, Config.reach_run shippedLate_runs, ?_, ?_,
    coordinators_agree rfl (Config.reach_run shippedLate_runs)⟩
  · decide +kernel
  · decide +kernel

/-- The coordinators exchange votes, replies and decisions, and hear of cleared dependencies;
nothing else reaches them. -/
def exchanges : Node → Input Addr Msg Act → Bool
  | .coordinator _, .recv ⟨_, _, .replicateReplyAndVote _⟩ => true
  | .coordinator _, .recv ⟨_, _, .bypassLeaderReply _⟩ => true
  | .coordinator _, .recv ⟨_, _, .notifyDependenciesAreCleared _⟩ => true
  | .coordinator _, .recv ⟨_, _, .replicateDecision _⟩ => true
  | .coordinator _, .recv ⟨_, _, .replyDecision _⟩ => true
  | .coordinator _, .recv _ => false
  | _, _ => true

def exchangedOnly : StepCond := fun _ n _ input => exchanges n input = true

instance (w : GlobalState) (n : Node) (ω : Choice) (input : Input Addr Msg Act) :
    Decidable (exchangedOnly w n ω input) :=
  inferInstanceAs (Decidable (_ = true))

/-- The decision is shipped to coordinator 1 as well, which knows the transaction from the vote
of its replica and records an abort. -/
def shippedState : Commands := parallelVote ++ [deliver 14]

theorem shippedState_runs :
    ((threeReplicas .parallel 1).run exchangedOnly shippedState).isSome := by
  decide +kernel

theorem shippedState_not_agreed :
    ¬ ∀ w : GlobalState, (threeReplicas .parallel 1).system.Reach exchangedOnly w →
      CoordinatorsAgree w := by
  intro hall
  have hagree := hall _ (Config.reach_run shippedState_runs)
  refine hagree.2 1 7 ?_ ?_
  · decide +kernel
  · decide +kernel

end D2PC
