import D2PC.Invariant.Run
import D2PC.Invariant.Votes
import D2PC.Properties.Durability

/-!
# Is a refusal final?

A leader that refuses a transaction answers `LOG_STATE_ABORT` and forgets it: neither
`committedTxns` nor `pendingTxns` tells of the refusal. The next `PrepareTransaction` for it,
a duplicate or a retransmission, is validated anew, and may be accepted.

* `Config.votes` : in every mode and every run, what a leader replicates or answers with
  `LOG_STATE_PREPAREOK` it validated;
* `obstaclesAt` : what stands in the way of a transaction when it is refused;
* `steadyRefusal` : the prepares of a refused transaction arrive while some of that still stands;
* `refusal_final` : then it stays refused.
-/

namespace D2PC

open Prog Ctx

variable {cfg : Config} {w w' : GlobalState} {s : Shard} {tid : TxnId}

/-! ### Votes in every run -/

/-- No leader starts a round of the slow modes in which its own shard has no vote. -/
def ownRounds (cfg : Config) : StepCond := fun (w : GlobalState) n _ input =>
  match n with
  | .replica s i => Replica.OwnRound ⟨cfg, s, i⟩ (w.replica s i) input
  | _ => True

instance (cfg : Config) : ∀ w n ω input, Decidable (ownRounds cfg w n ω input) :=
  fun w n _ input => match n with
    | .replica s i => Replica.OwnRound.decidable ⟨cfg, s, i⟩ (GlobalState.replica w s i) input
    | .client _ => isTrue trivial
    | .coordinator _ => isTrue trivial

/-- What holds of each process. -/
def NodeVotes (cfg : Config) (h : History) : (n : Node) → Local n → Prop
  | .client _, _ => True
  | .replica s i, r => VoteOk cfg (fun _ => True) s i h r
  | .coordinator _, _ => True

theorem NodeVotes.init (n : Node) : NodeVotes cfg [] n (cfg.init n) := by
  cases n with
  | client tid => trivial
  | replica s i =>
      refine ⟨trivial, ?_, ?_, ?_, ?_⟩
      · exact fun lsn e he => absurd he (by simp [Config.init, Log.find])
      all_goals exact fun _ _ hl => absurd hl (by simp [Config.init])
  | coordinator c => trivial

theorem NodeVotes.frame {h : History} {n n' : Node} (es : List Event) {x : Local n}
    (hx : NodeVotes cfg h n x) : NodeVotes cfg (h ++ es.map (n', ·)) n x := by
  cases n with
  | client tid => trivial
  | replica s i => exact VoteOk.mono hx trivial
  | coordinator c => trivial

/-- A step of a replica, together with a fact that it keeps. -/
theorem Config.step_votes {K : History → Prop} {i : ℕ} {ω : Choice} {input : Input Addr Msg Act}
    (hnode : VoteOk cfg (fun _ => True) s i w.history (w.replica s i))
    (hpkt : ∀ p ∈ w.net, VotePkt cfg w.history p)
    (hen : cfg.system.Enabled w (.replica s i) input)
    (hown : Replica.OwnRound ⟨cfg, s, i⟩ (w.replica s i) input) (hk : K w.history)
    (hK : Unmoved (.replica s i) K)
    (hacc : ∀ src m, input = .recv ⟨src, .replica s i, .prepareTransaction m⟩ →
      Replica.accepts ⟨cfg, s, i⟩ ω (w.replica s i) m = true → ∀ h wset, K h →
      K (h ++ [(.replica s i, .validated m.tid wset)])) :
    wp (cfg.system.handle (.replica s i) ω input) (fun _ => VoteGood cfg K s i w.history)
      (VoteGood cfg K s i w.history) { state := w.replica s i } := by
  have hc : VoteGood cfg K s i w.history { state := w.replica s i } := Good.start (hnode.swap hk)
  refine Replica.handleInput_votes hK hc hown hacc fun p hp => ?_
  subst hp
  have hpast : past w.history (.replica s i)
      ({ state := w.replica s i } : Ctx Replica Addr Msg Event) = w.history := by
    simp [past]
  exact ⟨by rw [hpast]; exact hpkt p hen.2.1, Config.owner_replica hen.2.2⟩

/-- **No vote without validation**, in every run whose rounds are the leaders' own. -/
theorem Config.votes (hw : cfg.system.Reach (ownRounds cfg) w) :
    (∀ n, NodeVotes cfg w.history n (w.state n)) ∧ ∀ p ∈ w.net, VotePkt cfg w.history p := by
  refine hw.invariant NodeVotes.init (fun _ _ _ => VotePkt.mono)
    (fun _ _ _ es _ _ => NodeVotes.frame es) ?_
  intro w n ω input _ hnode hpkt hen hcond
  cases n with
  | client tid =>
      refine (Client.handleInput_sends ⟨cfg, tid⟩ ω input).good (fun _ _ => trivial)
        (fun _ _ => trivial) fun {p} _ hkind => ?_
      obtain ⟨src, dst, msg⟩ := p
      cases msg <;> first | exact hkind.1.elim | trivial
  | replica s i =>
      have hgood := Config.step_votes (K := fun _ => True) (ω := ω) (hnode (.replica s i)) hpkt hen
        hcond trivial (fun _ _ _ _ => trivial) fun _ _ _ _ _ _ _ => trivial
      have hconv : ∀ {x : Ctx Replica Addr Msg Event},
          VoteGood cfg (fun _ => True) s i w.history x →
          Ctx.Good (NodeVotes cfg · (.replica s i) ·) (VotePkt cfg) w.history (.replica s i) x :=
        fun hx => ⟨hx.node, fun p hp => (hx.sent p hp).votePkt⟩
      exact wp_mono (fun _ _ hx => hconv hx) (fun _ hx => hconv hx) hgood
  | coordinator c =>
      refine (Coordinator.handleInput_sends ⟨cfg, c⟩ ω input).good (fun _ _ => trivial)
        (fun _ _ => trivial) fun {p} _ hkind => ?_
      obtain ⟨src, dst, msg⟩ := p
      cases msg <;> first | exact hkind.elim | trivial

/-! ### Refusals -/

/-- The message replicates the transaction or answers `LOG_STATE_PREPAREOK` for it. -/
def affirms (tid : TxnId) : Msg → Bool
  | .replicateTransaction m => decide (m.txnLog.txnId = tid)
  | .prepareTransactionReply m => decide (m.tid = tid) && decide (m.state = .prepareOk)
  | _ => false

/-- The message answers `LOG_STATE_ABORT` for the transaction. -/
def denies (tid : TxnId) : Msg → Bool
  | .prepareTransactionReply m => decide (m.tid = tid) && decide (m.state = .abort)
  | _ => false

/-- What the leader of `s` sends in a step. -/
def Config.leaderSends (cfg : Config) (w : GlobalState) (s : Shard) (ω : Choice)
    (input : Input Addr Msg Act) : List Pkt :=
  (cfg.system.handle (cfg.leaderNode s) ω input { state := w.state (cfg.leaderNode s) }).state.sent

/-- In this step the leader of `s` refuses `tid`: a `PrepareTransaction` gets to the
concurrency control, which does not accept it. -/
def refusesAt (cfg : Config) (s : Shard) (tid : TxnId) (w : GlobalState) (ω : Choice) :
    Input Addr Msg Act → Bool
  | .recv ⟨_, _, .prepareTransaction m⟩ => decide (m.tid = tid) &&
      Replica.refuses ⟨cfg, s, cfg.leader s⟩ ω (w.replica s (cfg.leader s)) m
  | _ => false

/-- In this step the leader of `s` accepts `tid`. -/
def acceptsAt (cfg : Config) (s : Shard) (tid : TxnId) (w : GlobalState) (ω : Choice) :
    Input Addr Msg Act → Bool
  | .recv ⟨_, _, .prepareTransaction m⟩ => decide (m.tid = tid) &&
      Replica.accepts ⟨cfg, s, cfg.leader s⟩ ω (w.replica s (cfg.leader s)) m
  | _ => false

/-- The rounds are the leaders' own, and the leader of `s` does not accept `tid`. -/
def unaccepting (cfg : Config) (s : Shard) (tid : TxnId) : StepCond := fun w n ω input =>
  ownRounds cfg w n ω input ∧ (n = cfg.leaderNode s → acceptsAt cfg s tid w ω input = false)

/-- What stands in the way of `tid` when a `PrepareTransaction` for it arrives at the leader
of `s`. -/
def obstaclesAt (cfg : Config) (s : Shard) (tid : TxnId) (w : GlobalState) (ω : Choice)
    (input : Input Addr Msg Act) (o : Obstacle) : Bool :=
  match input with
  | .recv ⟨_, _, .prepareTransaction m⟩ =>
      (w.replica s (cfg.leader s)).store.stands ω.clock tid (Replica.offered m) o
  | _ => false

/-- The rounds are the leaders' own, and a `PrepareTransaction` for `tid` that gets to the
concurrency control of the leader of `s` arrives while `tid` is not prepared and one of the
obstacles still stands in its way. -/
def steadyRefusal (cfg : Config) (s : Shard) (tid : TxnId) (obstacles : Obstacle → Bool) :
    StepCond := fun (w : GlobalState) n ω input =>
  ownRounds cfg w n ω input ∧ (n = cfg.leaderNode s → ∀ src dst m,
    input = .recv ⟨src, dst, .prepareTransaction m⟩ → m.tid = tid →
      Replica.reachesControl ⟨cfg, s, cfg.leader s⟩ (w.replica s (cfg.leader s)) m = true →
        tid ∉ (w.replica s (cfg.leader s)).store.prepared ∧
          ∃ o, obstacles o = true ∧ obstaclesAt cfg s tid w ω input o = true)

/-- While an obstacle stands, the transaction is not accepted. -/
theorem steadyRefusal.unaccepting {obstacles : Obstacle → Bool} {n : Node} {ω : Choice}
    {input : Input Addr Msg Act} (h : steadyRefusal cfg s tid obstacles w n ω input) :
    unaccepting cfg s tid w n ω input := by
  refine ⟨h.1, fun hn => ?_⟩
  unfold acceptsAt
  split
  · rename_i src dst m
    by_cases htid : m.tid = tid
    · subst htid
      cases hreach : Replica.reachesControl ⟨cfg, s, cfg.leader s⟩
          (w.replica s (cfg.leader s)) m with
      | false => simp only [Replica.accepts, hreach, Bool.false_and, Bool.and_false]
      | true =>
          obtain ⟨hnew, o, _, hstands⟩ := h.2 hn src dst m rfl rfl hreach
          have hno : Replica.admits ⟨cfg, s, cfg.leader s⟩ ω (w.replica s (cfg.leader s)) m =
              false := by
            rw [Replica.admits_leader (decide_eq_true rfl)]
            exact TxnStore.not_admits_of_stands hstands hnew
          simp only [Replica.accepts, hno, Bool.and_false]
    · rw [decide_eq_false htid, Bool.false_and]
  · rfl

/-- A refused `PrepareTransaction` is answered with `LOG_STATE_ABORT`. -/
theorem refusal_answered {ω : Choice} {input : Input Addr Msg Act}
    (href : refusesAt cfg s tid w ω input = true) :
    ∃ p ∈ cfg.leaderSends w s ω input, denies tid p.msg = true := by
  unfold refusesAt at href
  split at href
  · rename_i src dst m
    simp only [Bool.and_eq_true, Replica.refuses, Bool.not_eq_true', Replica.reachesControl,
      decide_eq_true_eq, Option.isNone_iff_eq_none] at href
    obtain ⟨htid, ⟨⟨⟨hstart, hdep⟩, hcom⟩, hpend⟩, hadm⟩ := href
    have hwp : wp (Replica.handlePrepareTxn ⟨cfg, s, cfg.leader s⟩ ω src m)
        (fun _ c => ∃ p ∈ c.sent, denies tid p.msg = true)
        (fun c => ∃ p ∈ c.sent, denies tid p.msg = true)
        { state := w.replica s (cfg.leader s) } := by
      -- both ways to the concurrency control end in the refusal
      have hnew : wp (Replica.prepareNew ⟨cfg, s, cfg.leader s⟩ ω src m)
          (fun _ c => ∃ p ∈ c.sent, denies tid p.msg = true)
          (fun c => ∃ p ∈ c.sent, denies tid p.msg = true)
          { state := w.replica s (cfg.leader s) } := by
        simp only [Replica.prepareNew, wp_bind, wp_update, wp_read, Replica.wp_withStore, wp_ite,
          Replica.refusePrepare, Replica.wp_sendMessage]
        refine ⟨fun _ => ⟨_, List.mem_append_right _ (List.mem_singleton_self _), ?_⟩, fun hno => ?_⟩
        · simp [denies, htid]
        · exact absurd hadm hno
      have hstart' := of_decide_eq_false hstart
      simp only [Replica.handlePrepareTxn, wp_bind, wp_read, wp_ite, wp_update, hcom]
      refine ⟨fun h => absurd h hstart', fun _ => ⟨fun h => absurd h hdep, fun _ => ?_⟩⟩
      cases hreq : (w.replica s (cfg.leader s)).pendingTxns.lookup m.tid with
      | none =>
          dsimp only
          exact hnew
      | some req =>
          rw [hreq, Option.all_some, Bool.not_eq_true'] at hpend
          simp only [wp_ite, hpend]
          refine ⟨(fun h => by cases h), fun _ => ?_⟩
          exact hnew
    exact Prog.wp_state (P := fun c : Ctx Replica Addr Msg Event =>
      ∃ p ∈ c.sent, denies tid p.msg = true) hwp
  · cases href

/-- What the leader of `s` sends for a transaction it has not validated affirms nothing. -/
theorem Spoken.not_affirms {h : History} {p : Pkt} (hp : Spoken cfg s (cfg.leader s) h p)
    (hval : ¬ Validated cfg h s tid) : affirms tid p.msg = false := by
  obtain ⟨src, dst, msg⟩ := p
  cases msg with
  | replicateTransaction m =>
      refine decide_eq_false fun htid => hval ?_
      rw [← htid]
      exact hp.2.2
  | prepareTransactionReply m =>
      show (decide (m.tid = tid) && decide (m.state = .prepareOk)) = false
      by_contra hne
      simp only [Bool.not_eq_false, Bool.and_eq_true, decide_eq_true_eq] at hne
      rcases hp.2 hne.2 with hv | ⟨hno, _⟩
      · rw [hne.1] at hv
        exact hval hv
      · exact hno rfl
  | _ => rfl

/-- **One step.** A leader that has not validated `tid` and does not accept it now affirms
nothing, and has not validated it afterwards. -/
theorem Config.step_unvalidated (hw : cfg.system.Reach (ownRounds cfg) w)
    (hval : ¬ Validated cfg w.history s tid) {ω : Choice} {input : Input Addr Msg Act}
    (hen : cfg.system.Enabled w (cfg.leaderNode s) input)
    (hcond : unaccepting cfg s tid w (cfg.leaderNode s) ω input) :
    ¬ Validated cfg (cfg.system.next w (cfg.leaderNode s) ω input).history s tid ∧
      ∀ p ∈ cfg.leaderSends w s ω input, affirms tid p.msg = false := by
  obtain ⟨hnode, hpkt⟩ := Config.votes hw
  obtain ⟨hown, hacc⟩ := hcond
  have hK : Unmoved (cfg.leaderNode s) fun h => ¬ Validated cfg h s tid := by
    rintro h e he hnot ⟨wset, hmem⟩
    rcases List.mem_append.1 hmem with hold | hnew
    · exact hnot ⟨wset, hold⟩
    · exact he tid wset (Prod.mk.inj (List.mem_singleton.1 hnew)).2.symm
  have hgood := Prog.wp_state (Config.step_votes (ω := ω) (hnode (cfg.leaderNode s)) hpkt hen hown
    hval hK ?_)
  · have hfact := hgood.node.fact
    refine ⟨hfact, ?_⟩
    intro p hp
    exact (hgood.sent p hp).not_affirms hfact
  · intro src m hinput haccepts h wset hnot
    rintro ⟨wset', hmem⟩
    rcases List.mem_append.1 hmem with hold | hnew
    · exact hnot ⟨wset', hold⟩
    · -- another transaction is accepted
      have htid : m.tid = tid := by
        have heq := (Prod.mk.inj (List.mem_singleton.1 hnew)).2
        exact (Event.validated.inj heq).1.symm
      have hno := hacc rfl
      rw [hinput] at hno
      have hyes : acceptsAt cfg s tid w ω
          (.recv ⟨src, .replica s (cfg.leader s), .prepareTransaction m⟩) = true := by
        simp only [acceptsAt, htid, decide_true, Bool.true_and]
        exact haccepts
      rw [hyes] at hno
      cases hno

/-- What others record validates nothing at the leader of `s`. -/
theorem Config.next_unvalidated (hw : cfg.system.Reach (ownRounds cfg) w)
    (hval : ¬ Validated cfg w.history s tid) {n : Node} {ω : Choice} {input : Input Addr Msg Act}
    (hen : cfg.system.Enabled w n input) (hcond : unaccepting cfg s tid w n ω input) :
    ¬ Validated cfg (cfg.system.next w n ω input).history s tid := by
  by_cases hn : cfg.leaderNode s = n
  · subst hn
    exact (Config.step_unvalidated hw hval hen hcond).1
  · rintro ⟨wset, hmem⟩
    exact hval ⟨wset, (mem_frame hn).1 hmem⟩

/-- A refusal has an obstacle, if the store is consistent. -/
theorem exists_obstacleAt {ω : Choice} {input : Input Addr Msg Act}
    (hs : (w.replica s (cfg.leader s)).store.Consistent)
    (href : refusesAt cfg s tid w ω input = true) :
    ∃ o, obstaclesAt cfg s tid w ω input o = true := by
  unfold refusesAt at href
  split at href
  · rename_i src dst m
    simp only [Replica.refuses, Bool.and_eq_true, Bool.not_eq_true', decide_eq_true_eq] at href
    obtain ⟨rfl, _, hno⟩ := href
    rw [Replica.admits_leader (decide_eq_true rfl)] at hno
    exact TxnStore.exists_obstacle hs hno
  · cases href

/-- **A refusal is final** as long as what it was for is there. The leader of `s`, which has not
accepted `tid` before, refuses it; it then answers `LOG_STATE_ABORT`. In every run that goes on
from there, and in which every `PrepareTransaction` for `tid` that gets to the concurrency control
arrives while one of the obstacles of the refusal still stands, no step of the leader replicates
`tid` or answers `LOG_STATE_PREPAREOK` for it. -/
theorem refusal_final (hw : cfg.system.Reach (ownRounds cfg) w)
    (hval : ¬ Validated cfg w.history s tid) {ω : Choice} {input : Input Addr Msg Act}
    (hen : cfg.system.Enabled w (cfg.leaderNode s) input)
    (hown : ownRounds cfg w (cfg.leaderNode s) ω input)
    (href : refusesAt cfg s tid w ω input = true) :
    (∃ p ∈ cfg.leaderSends w s ω input, denies tid p.msg = true) ∧
      ((w.replica s (cfg.leader s)).store.Consistent →
        ∃ o, obstaclesAt cfg s tid w ω input o = true) ∧
      ∀ w', cfg.system.Later (steadyRefusal cfg s tid (obstaclesAt cfg s tid w ω input))
          (cfg.system.next w (cfg.leaderNode s) ω input) w' →
        ∀ ω' input', cfg.system.Enabled w' (cfg.leaderNode s) input' →
          steadyRefusal cfg s tid (obstaclesAt cfg s tid w ω input) w' (cfg.leaderNode s) ω'
            input' →
          ∀ p ∈ cfg.leaderSends w' s ω' input', affirms tid p.msg = false := by
  refine ⟨refusal_answered href, fun hs => exists_obstacleAt hs href,
    fun w' hlater ω' input' hen' hcond' => ?_⟩
  have hfirst : unaccepting cfg s tid w (cfg.leaderNode s) ω input := by
    refine ⟨hown, fun _ => ?_⟩
    unfold refusesAt at href
    unfold acceptsAt
    split
    · rename_i src dst m
      simp only [Replica.refuses, Bool.and_eq_true, Bool.not_eq_true'] at href
      simp only [Replica.accepts, href.2.2, Bool.and_false]
    · rfl
  have hinv : cfg.system.Reach (ownRounds cfg) w' ∧ ¬ Validated cfg w'.history s tid := by
    clear hen' hcond'
    induction hlater with
    | refl => exact ⟨.step hw hen hown, Config.next_unvalidated hw hval hen hfirst⟩
    | step _ hen₁ hcond₁ ih =>
        exact ⟨.step ih.1 hen₁ hcond₁.1,
          Config.next_unvalidated ih.1 ih.2 hen₁ hcond₁.unaccepting⟩
  exact (Config.step_unvalidated hinv.1 hinv.2 hen' hcond'.unaccepting).2

/-! ### A refused transaction comes again -/

/-- Two transactions write one key in the fast mode, and the leader has validated the first. -/
def rivalWrites : Commands :=
  [act 7 (.put "a" "1"), act 7 .commit, act 7 (.task 0), act 8 (.put "a" "2"), act 8 .commit,
    act 8 (.task 0), deliver 0]

theorem rivalWrites_runs : ((threeReplicas .fast 1).run (ownRounds (threeReplicas .fast 1))
    rivalWrites).isSome := by
  decide +kernel

/-- The second transaction, as its client sends it. -/
def prepareEight : Pkt :=
  ⟨.client 8 0, .replica 0 0, .prepareTransaction
    { tid := 8
      wset := [("a", "2")]
      participants := [0]
      primaryShard := 18446744073709551615
      mode := .fast }⟩

/-- The leader refuses it. -/
def refusedWrite : GlobalState :=
  (threeReplicas .fast 1).system.next
    (((threeReplicas .fast 1).run (ownRounds (threeReplicas .fast 1)) rivalWrites).get
      rivalWrites_runs) ((threeReplicas .fast 1).leaderNode 0) {} (.recv prepareEight)

/-- The first transaction commits. -/
def rivalCommits : Commands :=
  [deliver 2, deliver 3, deliver 4, deliver 7, deliver 8, deliver 9, act 7 .wake, deliver 10]

theorem rivalCommits_runs :
    ((threeReplicas .fast 1).system.exec anyStep refusedWrite rivalCommits).isSome := by
  decide +kernel

/-- The datagram is in the network before and after. -/
theorem rivalWrites_enabled : (threeReplicas .fast 1).system.Enabled
    (((threeReplicas .fast 1).run (ownRounds (threeReplicas .fast 1)) rivalWrites).get
      rivalWrites_runs) ((threeReplicas .fast 1).leaderNode 0) (.recv prepareEight) :=
  ⟨by decide +kernel, by decide +kernel, rfl⟩

theorem rivalCommits_enabled : (threeReplicas .fast 1).system.Enabled
    (((threeReplicas .fast 1).system.exec anyStep refusedWrite rivalCommits).get rivalCommits_runs)
    ((threeReplicas .fast 1).leaderNode 0) (.recv prepareEight) :=
  ⟨by decide +kernel, by decide +kernel, rfl⟩

/-- **The datagram is repeated after the rival has committed**: the leader replicates the
transaction that it refused. -/
theorem refusal_reversed :
    ∃ w : GlobalState, (threeReplicas .fast 1).system.Reach anyStep w ∧
      (threeReplicas .fast 1).system.Enabled w ((threeReplicas .fast 1).leaderNode 0)
        (.recv prepareEight) ∧
      (∃ p ∈ (threeReplicas .fast 1).leaderSends w 0 {} (.recv prepareEight),
        denies 8 p.msg = true) ∧
      ∃ w' : GlobalState, (threeReplicas .fast 1).system.Later anyStep
          ((threeReplicas .fast 1).system.next w ((threeReplicas .fast 1).leaderNode 0) {}
            (.recv prepareEight)) w' ∧
        (threeReplicas .fast 1).system.Enabled w' ((threeReplicas .fast 1).leaderNode 0)
          (.recv prepareEight) ∧
        ∃ p ∈ (threeReplicas .fast 1).leaderSends w' 0 {} (.recv prepareEight),
          affirms 8 p.msg = true := by
  have hw : (threeReplicas .fast 1).system.Reach anyStep
      (((threeReplicas .fast 1).run (ownRounds (threeReplicas .fast 1)) rivalWrites).get
        rivalWrites_runs) :=
    (Config.reach_run rivalWrites_runs).mono fun _ _ _ _ _ => trivial
  have hlater := Protocol.Later.exec .refl (Option.some_get rivalCommits_runs).symm
  refine ⟨_, hw, rivalWrites_enabled, ?_, _, hlater, rivalCommits_enabled, ?_⟩
  · decide +kernel
  · decide +kernel

/-- The event validates the transaction. -/
def Event.validates (tid : TxnId) : Event → Bool
  | .validated tid' _ => decide (tid' = tid)
  | _ => false

/-- Prepares of `tid` find it not prepared, and the obstacle in its way. -/
def standsAt (cfg : Config) (s : Shard) (tid : TxnId) (o : Obstacle) (w : GlobalState) (ω : Choice)
    (input : Input Addr Msg Act) : Bool :=
  match input with
  | .recv ⟨_, _, .prepareTransaction m⟩ => decide (m.tid = tid →
      tid ∉ (w.replica s (cfg.leader s)).store.prepared ∧ obstaclesAt cfg s tid w ω input o = true)
  | _ => true

/-- The obstacle stands in the way throughout. -/
def standing (cfg : Config) (s : Shard) (tid : TxnId) (o : Obstacle) : StepCond :=
  fun w n ω input => ownRounds cfg w n ω input ∧
    (n = cfg.leaderNode s → standsAt cfg s tid o w ω input = true)

instance (cfg : Config) (s : Shard) (tid : TxnId) (o : Obstacle) :
    ∀ w n ω input, Decidable (standing cfg s tid o w n ω input) :=
  fun _ _ _ _ => inferInstanceAs (Decidable (_ ∧ (_ → _ = true)))

theorem standing.steadyRefusal {obstacles : Obstacle → Bool} {o : Obstacle}
    (ho : obstacles o = true) {w : GlobalState} {n : Node} {ω : Choice} {input : Input Addr Msg Act}
    (h : standing cfg s tid o w n ω input) : steadyRefusal cfg s tid obstacles w n ω input := by
  refine ⟨h.1, ?_⟩
  rintro hn src dst m rfl htid _
  obtain ⟨hnew, hstands⟩ := of_decide_eq_true (h.2 hn) htid
  exact ⟨hnew, o, ho, hstands⟩

/-- The rival is replicated, and the datagram is repeated. -/
def refusedAgain : Commands := [deliver 2, deliver 3, deliver 1]

theorem refusedAgain_runs : ((threeReplicas .fast 1).system.exec
    (standing (threeReplicas .fast 1) 0 8 (.rival 7)) refusedWrite refusedAgain).isSome := by
  decide +kernel

theorem refusedAgain_enabled : (threeReplicas .fast 1).system.Enabled
    (((threeReplicas .fast 1).system.exec (standing (threeReplicas .fast 1) 0 8 (.rival 7))
      refusedWrite refusedAgain).get refusedAgain_runs)
    ((threeReplicas .fast 1).leaderNode 0) (.recv prepareEight) :=
  ⟨by decide +kernel, by decide +kernel, rfl⟩

/-- While the rival is prepared, the transaction is refused every time. -/
theorem refusedAgain_final :
    ∃ w w' : GlobalState,
      (threeReplicas .fast 1).system.Reach (ownRounds (threeReplicas .fast 1)) w ∧
      (threeReplicas .fast 1).system.Later (steadyRefusal (threeReplicas .fast 1) 0 8
          (obstaclesAt (threeReplicas .fast 1) 0 8 w {} (.recv prepareEight)))
        ((threeReplicas .fast 1).system.next w ((threeReplicas .fast 1).leaderNode 0) {}
          (.recv prepareEight)) w' ∧
      (∃ p ∈ (threeReplicas .fast 1).leaderSends w 0 {} (.recv prepareEight),
        denies 8 p.msg = true) ∧
      ∀ p ∈ (threeReplicas .fast 1).leaderSends w' 0 {} (.recv prepareEight),
        affirms 8 p.msg = false := by
  have hw := Config.reach_run rivalWrites_runs
  have hlater := Protocol.Later.exec .refl (Option.some_get refusedAgain_runs).symm
  have hevents : ∀ x ∈ (((threeReplicas .fast 1).run (ownRounds (threeReplicas .fast 1))
      rivalWrites).get rivalWrites_runs).history, x.2.validates 8 = false := by
    decide +kernel
  have hval : ¬ Validated (threeReplicas .fast 1)
      (((threeReplicas .fast 1).run (ownRounds (threeReplicas .fast 1)) rivalWrites).get
        rivalWrites_runs).history 0 8 := by
    rintro ⟨wset, hmem⟩
    exact absurd (hevents _ hmem) (by simp [Event.validates])
  have hrival : obstaclesAt (threeReplicas .fast 1) 0 8 (((threeReplicas .fast 1).run (ownRounds
      (threeReplicas .fast 1)) rivalWrites).get rivalWrites_runs) {} (.recv prepareEight)
        (.rival 7) = true := by
    decide +kernel
  have hcond : standing (threeReplicas .fast 1) 0 8 (.rival 7) (((threeReplicas .fast 1).system.exec
      (standing (threeReplicas .fast 1) 0 8 (.rival 7)) refusedWrite refusedAgain).get
        refusedAgain_runs) ((threeReplicas .fast 1).leaderNode 0) {} (.recv prepareEight) := by
    decide +kernel
  have hlater := hlater.mono fun _ _ _ _ => standing.steadyRefusal hrival
  obtain ⟨hdenied, _, hsteady⟩ := refusal_final (ω := {}) hw hval rivalWrites_enabled
    (by decide +kernel) (by decide +kernel)
  exact ⟨_, _, hw, hlater, hdenied,
    hsteady _ hlater {} _ refusedAgain_enabled (hcond.steadyRefusal hrival)⟩

end D2PC
