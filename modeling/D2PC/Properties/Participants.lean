import D2PC.Invariant.Lists
import D2PC.Properties.Residue

/-!
# The participants of a transaction

`SetParticipants` appends to the list a buffered transaction already has. After a timeout
`Commit` prepares again, and the messages of the second round name every participant twice; a
coordinator that compares the number of shards with the length of the list waits for ever. The
pieces a primary leader splits off in the slow modes name nobody.

* `Client.handleInput_participants` : a shard takes part exactly after a call touched it;
* `Coordinator.complete_reaches` : with a list without repetitions the tests of a coordinator
  succeed when everybody is heard of;
* `stable_participants` : in every run without a second round, in every mode, the messages of a
  client name the touched shards, each once, and so does what the coordinators know;
* `second_round_repeats` : a run with a timeout.
-/

namespace D2PC

open Prog Ctx

namespace Client

/-! ### What takes part -/

/-- The keys a call names. -/
def Action.keys : Action → List Key
  | .get key => [key]
  | .put key _ => [key]
  | .multiGet keys => keys
  | _ => []

/-- The keys the step of a client touches; a call in the middle of another one is none. -/
def touches (c : Client) (input : Input Addr Msg Act) : List Key :=
  match c.phase, input with
  | .running, .act (.client a) => a.keys
  | _, _ => []

variable {env : ClientEnv} {ω : Choice} {ps : List Shard}

/-- A handler that leaves the participants alone. -/
abbrev Steady (ps : List Shard) {α : Type} (p : ClientM α) : Prop :=
  Prog.Keeps (fun x => x.state.participants = ps) p

theorem steady_of_aside {α : Type} {p : ClientM α} (hp : ∀ x, Aside x p) : Steady ps p := by
  intro x hx
  exact wp_mono (fun _ _ hy => hy.participants.trans hx) (fun _ hy => hy.participants.trans hx)
    (hp x x (.refl x))

theorem update_steady {f : Client → Client} (hf : ∀ c, (f c).participants = c.participants) :
    Steady ps (update f) := by
  intro x hx
  exact (hf x.state).trans hx

theorem invokeCommit_steady (state : LogEntryState) : Steady ps (invokeCommit env state) := by
  refine .bind (.gets _) fun l => .bind (.forM fun p _ => ?_) fun _ => update_steady fun _ => rfl
  exact .bind (update_steady fun _ => rfl) fun _ => fun _ hx => hx

theorem finish_steady (status : ℕ) : Steady ps (finish env status) :=
  .ite (.bind (fun _ hx => hx) fun _ => invokeCommit_steady _)
    (.bind (fun _ hx => hx) fun _ => invokeCommit_steady _)

theorem addTask_steady (t : Promise → Task) : Steady ps (addTask t) := update_steady fun _ => rfl

theorem modifyBuffer_steady (s : Shard) (f : Transaction → Transaction) :
    Steady ps (modifyBuffer env s f) :=
  update_steady fun _ => rfl

theorem addPrepareTask_steady (s : Shard) : Steady ps (addPrepareTask env s) :=
  .bind (.gets _) fun _ => addTask_steady _

theorem addParallelTask_steady (s : Shard) : Steady ps (addParallelTask env s) :=
  .bind (.gets _) fun _ => addTask_steady _

theorem prepare_steady : Steady ps (prepare env) := by
  refine .bind (.gets _) fun l => .bind (update_steady fun _ => rfl) fun _ => .ite ?_ (.ite ?_ ?_)
  · refine .bind (.deref _) fun primary => .bind ?_ fun _ => .pure _
    refine .bind (modifyBuffer_steady _ _) fun _ => .bind (.forM fun p _ => ?_) fun _ =>
      .bind (modifyBuffer_steady _ _) fun _ => addPrepareTask_steady _
    refine .bind (.gets _) fun txn => .bind (.forM fun _ _ => modifyBuffer_steady _ _) fun _ => ?_
    exact .forM fun _ _ => modifyBuffer_steady _ _
  · exact .pure _
  · refine .bind ?_ fun _ => .pure _
    refine .bind (.forM fun p _ => ?_) fun _ => .when ?_
    · exact .bind (modifyBuffer_steady _ _) fun _ => .bind (modifyBuffer_steady _ _) fun _ =>
        .bind (addPrepareTask_steady _) fun _ => .when (addParallelTask_steady _)
    · exact .bind (.deref _) fun _ => .bind (modifyBuffer_steady _ _) fun _ =>
        addParallelTask_steady _

theorem round_steady (k : ℕ) : Steady ps (round env k) := by
  refine .bind (update_steady fun _ => rfl) fun _ => .bind prepare_steady fun status => ?_
  cases status with
  | none => exact .pure _
  | some status => exact finish_steady status

theorem readNext_steady (l : List (Shard × List Key)) : Steady ps (readNext l) := by
  cases l with
  | nil => exact update_steady fun _ => rfl
  | cons q l =>
      exact .bind (update_steady fun _ => rfl) fun _ => .bind (addTask_steady _) fun _ =>
        update_steady fun _ => rfl

theorem wake_steady : Steady ps (wake env) := by
  refine .bind (.gets _) fun x => ?_
  split
  · exact .bind (update_steady fun _ => rfl) fun _ => .ite (finish_steady _) (round_steady _)
  · exact .bind (.when (.forM fun _ _ => modifyBuffer_steady _ _)) fun _ => readNext_steady _
  · exact .pure _

theorem runTask_steady (t : Task) : Steady ps (runTask env ω t) := by
  cases t with
  | get s keys promise =>
      exact .bind (update_steady fun _ => rfl) fun _ => .when (.bind (fun _ hx => hx) fun _ =>
        update_steady fun _ => rfl)
  | prepare s txn promise =>
      refine .bind (update_steady fun _ => rfl) fun _ => .bind (update_steady fun _ => rfl)
        fun _ => .bind (.ite (fun _ hx => hx) (.when fun _ hx => hx)) fun _ =>
          .when (update_steady fun _ => rfl)
  | parallelModeCommit s participants promise =>
      exact .bind (update_steady fun _ => rfl) fun _ => .when (.bind (fun _ hx => hx) fun _ =>
        update_steady fun _ => rfl)

theorem handleTask_steady (i : ℕ) : Steady ps (handleTask env ω i) := by
  refine .bind (.gets _) fun o => ?_
  cases o with
  | none => exact .pure _
  | some t => exact .bind (update_steady fun _ => rfl) fun _ => runTask_steady t

/-- After a call, exactly the shards it named take part besides those before. -/
def Joined (cfg : Config) (ps : List Shard) (keys : List Key) (c : Client) : Prop :=
  ∀ q, q ∈ c.participants ↔ q ∈ ps ∨ q ∈ keys.map cfg.keyToShard

theorem Joined.of_eq {cfg : Config} {c : Client} (hc : c.participants = ps) :
    Joined cfg ps [] c := by
  intro q
  rw [hc, List.map_nil]
  exact ⟨.inl, fun h => h.resolve_right List.not_mem_nil⟩

theorem mem_addParticipant {q s : Shard} :
    (q ∈ if s ∈ ps then ps else ps ++ [s]) ↔ q ∈ ps ∨ q = s := by
  split_ifs with hs
  · exact ⟨.inl, fun h => h.elim id fun heq => heq ▸ hs⟩
  · rw [List.mem_append, List.mem_singleton]

/-- The calls, one by one. -/
theorem handleAction_joined {x : Ctx Client Addr Msg Event} (a : Action)
    (hrun : x.state.phase = .running) :
    wp (handleAction env ω a)
      (fun _ y => Joined env.cfg x.state.participants a.keys y.state)
      (fun y => Joined env.cfg x.state.participants a.keys y.state) x := by
  -- the actions that touch nothing
  have hsteady : ∀ {p : ClientM Unit}, Steady x.state.participants p → a.keys = [] →
      wp p (fun _ y => Joined env.cfg x.state.participants a.keys y.state)
        (fun y => Joined env.cfg x.state.participants a.keys y.state) x := by
    intro p hp hkeys
    rw [hkeys]
    exact wp_mono (fun _ _ hy => .of_eq hy) (fun _ hy => .of_eq hy) (hp x rfl)
  cases a with
  | get key =>
      simp only [handleAction, call, get, addParticipant, newPromise, addTask, wp_bind, wp_read,
        hrun, wp_update, wp_ite, wp_pure]
      have hjoin : Joined env.cfg x.state.participants [key] { x.state with
          participants := if env.cfg.keyToShard key ∈ x.state.participants
            then x.state.participants else x.state.participants ++ [env.cfg.keyToShard key] } := by
        intro q
        rw [List.map_singleton, List.mem_singleton]
        exact mem_addParticipant
      exact ⟨fun _ => hjoin, fun _ => hjoin⟩
  | put key value =>
      simp only [handleAction, call, put, addParticipant, modifyBuffer, wp_bind, wp_read, hrun,
        wp_update]
      intro q
      rw [Action.keys, List.map_singleton, List.mem_singleton]
      exact mem_addParticipant
  | multiGet keys =>
      simp only [handleAction, call, multiGet, wp_bind, wp_read, hrun]
      have hloop : ∀ (l : List Key) (y : Ctx Client Addr Msg Event),
          wp (l.forM fun key => addParticipant (env.cfg.keyToShard key))
            (fun _ z => Joined env.cfg y.state.participants l z.state)
            (fun z => Joined env.cfg y.state.participants l z.state) y := by
        intro l
        induction l with
        | nil => exact fun y => Joined.of_eq rfl
        | cons key l ih =>
            intro y
            rw [List.forM, wp_bind, addParticipant, wp_update]
            refine wp_mono (fun _ z hz => ?_) (fun z hz => ?_) (ih _)
            all_goals
              intro q
              rw [hz q, mem_addParticipant, List.map_cons, List.mem_cons, or_assoc]
      refine wp_mono (fun _ y hy => ?_) (fun _ hy => hy) (hloop keys x)
      simp only [newPromise, wp_update]
      cases askedShards env keys with
      | nil => exact hy
      | cons q rest =>
          refine wp_mono (fun _ z hz => ?_) (fun z hz => ?_) (readNext_steady _ _ rfl)
          all_goals
            intro q
            rw [hz]
            exact hy q
  | commit =>
      simp only [handleAction, call, wp_bind, wp_read, hrun]
      refine hsteady ?_ rfl
      exact .bind (.gets _) fun _ => .bind (.gets _) fun _ => .bind (fun _ hx => hx) fun _ =>
        round_steady _
  | abort =>
      simp only [handleAction, call, wp_bind, wp_read, hrun]
      exact hsteady (.bind (fun _ hx => hx) fun _ => invokeCommit_steady _) rfl
  | wake => exact hsteady wake_steady rfl
  | task i => exact hsteady (handleTask_steady i) rfl
  | prepareTimeout s => exact hsteady (steady_of_aside fun _ => prepareTimeoutCallback_aside) rfl
  | getTimeout s => exact hsteady (steady_of_aside fun _ => getDateTimeoutCallback_aside) rfl
  | parallelModeCommitTimeout s =>
      exact hsteady (steady_of_aside fun _ => parallelModeCommitTimeout_aside s) rfl

/-- A call in the middle of another one does nothing; the rest touches nothing. -/
theorem handleAction_steady {x : Ctx Client Addr Msg Event} (a : Action)
    (hbusy : x.state.phase ≠ .running) (hx : x.state.participants = ps) :
    wp (handleAction env ω a) (fun _ y => y.state.participants = ps)
      (fun y => y.state.participants = ps) x := by
  have hcall : ∀ p : ClientM Unit, wp (call p) (fun _ y => y.state.participants = ps)
      (fun y => y.state.participants = ps) x := by
    intro p
    simp only [call, wp_bind, wp_read]
    exact hx
  cases a with
  | get key => exact hcall _
  | put key value => exact hcall _
  | multiGet keys => exact hcall _
  | commit => exact hcall _
  | abort => exact hcall _
  | wake => exact wake_steady x hx
  | task i => exact handleTask_steady i x hx
  | prepareTimeout s => exact steady_of_aside (fun _ => prepareTimeoutCallback_aside) x hx
  | getTimeout s => exact steady_of_aside (fun _ => getDateTimeoutCallback_aside) x hx
  | parallelModeCommitTimeout s =>
      exact steady_of_aside (fun _ => parallelModeCommitTimeout_aside s) x hx

/-- **A step** of a client: exactly the shards it touches join. -/
theorem handleInput_participants (env : ClientEnv) (ω : Choice) (input : Input Addr Msg Act)
    (c : Client) : Joined env.cfg c.participants (c.touches input)
      (handleInput env ω input { state := c }).state.state := by
  cases input with
  | recv p =>
      obtain ⟨src, dst, msg⟩ := p
      have hnone : c.touches (.recv ⟨src, dst, msg⟩) = [] := by
        unfold touches
        split
        · rename_i heq
          cases heq
        · rfl
      rw [hnone]
      refine .of_eq ?_
      cases dst with
      | client t s =>
          exact wp_state
            (P := fun x : Ctx Client Addr Msg Event => x.state.participants = c.participants)
            (steady_of_aside (fun _ => handleMessage_aside msg) _ rfl)
      | _ => rfl
  | act a =>
      cases a with
      | timer t =>
          have hnone : c.touches (.act (.timer t)) = [] := by
            unfold touches
            split
            · rename_i heq
              cases heq
            · rfl
          rw [hnone]
          exact .of_eq rfl
      | client a =>
          by_cases hrun : c.phase = .running
          · have hkeys : c.touches (.act (.client a)) = a.keys := by
              simp only [touches, hrun]
            rw [hkeys]
            exact wp_state
              (P := fun x : Ctx Client Addr Msg Event =>
                Joined env.cfg c.participants a.keys x.state)
              (handleAction_joined a hrun)
          · have hnone : c.touches (.act (.client a)) = [] := by
              unfold touches
              split
              · rename_i hphase _
                exact absurd hphase hrun
              · rfl
            rw [hnone]
            exact .of_eq (wp_state
              (P := fun x : Ctx Client Addr Msg Event => x.state.participants = c.participants)
              (handleAction_steady a hrun rfl))

/-- Another round of `Commit` starts. -/
def retries (c : Client) : Bool :=
  match c.phase, c.promise.filter (·.done) with
  | .preparing k, some p =>
      !decide (p.getPrepareReply = replyOk ∨ p.getPrepareReply = replyAbort ∨
        p.getPrepareReply = replyFail ∨ commitRetries ≤ k + 1)
  | _, _ => false

theorem retries_of_retries {c : Client} (h : Retries c) : c.retries = true := by
  obtain ⟨k, p, hphase, hpromise, hstatus⟩ := h
  simp only [retries, hphase, hpromise, decide_eq_false hstatus, Bool.not_false]

end Client

/-! ### The tests of a coordinator -/

namespace Coordinator

/-- Everybody in the list is heard of, and nobody else: prepared, without a dependency and with
a majority of replies. -/
structure Complete (req : PendingCommit) : Prop where
  listed : req.participants ≠ []
  votes : ∀ q, q ∈ req.votes ↔ q ∈ req.participants
  prepared : ∀ q v, req.votes.lookup q = some v → v = .prepared
  dependencies : ∀ q, q ∈ req.dependencies ↔ q ∈ req.participants
  free : ∀ q, req.dependencies.lookup q ≠ some true
  replies : ∀ q, q ∈ req.replicateResults ↔ q ∈ req.participants
  tolerant : ∀ q l, req.replicateResults.lookup q = some l → req.majority ≤ l.length

theorem allPrepared_of_all {votes : Table Shard CommitResult} {ps : List Shard}
    (h : ∀ q ∈ ps, votes.lookup q = some .prepared) : allPrepared votes ps = (true, votes) := by
  induction ps with
  | nil => rfl
  | cons p ps ih =>
      rw [allPrepared, h p List.mem_cons_self]
      exact ih fun q hq => h q (List.mem_cons_of_mem _ hq)

/-- **The tests succeed** when everybody is heard of, if nobody is listed twice. -/
theorem complete_reaches {req : PendingCommit} (hnodup : req.participants.Nodup)
    (h : Complete req) : (reachConsensus req).1 = true ∧
      allParticipantsHaveNoPrecommitDependency req = true ∧ reachFaultTolerance req = true := by
  have hvotes := (Table.size_eq_length_iff (fun q hq => (h.votes q).1 hq) hnodup).2 fun q hq =>
    (h.votes q).2 hq
  have hdeps := (Table.size_eq_length_iff (fun q hq => (h.dependencies q).1 hq) hnodup).2
    fun q hq => (h.dependencies q).2 hq
  have hreplies := (Table.size_eq_length_iff (fun q hq => (h.replies q).1 hq) hnodup).2
    fun q hq => (h.replies q).2 hq
  refine ⟨?_, ?_, ?_⟩
  · rw [reachConsensus, if_neg (not_not.2 hvotes)]
    have hall : ∀ q ∈ req.participants, req.votes.lookup q = some .prepared := by
      intro q hq
      obtain ⟨v, hv⟩ := Option.isSome_iff_exists.1 (AList.lookup_isSome.2 ((h.votes q).2 hq))
      rw [hv, h.prepared q v hv]
    rw [allPrepared_of_all hall]
  · rw [allParticipantsHaveNoPrecommitDependency, Bool.and_eq_true, decide_eq_true_eq,
      List.all_eq_true]
    exact ⟨hdeps, fun q _ => decide_eq_true (h.free q)⟩
  · rw [reachFaultTolerance, Bool.and_eq_true, Bool.and_eq_true, decide_eq_true_eq,
      decide_eq_true_eq, List.all_eq_true]
    refine ⟨⟨List.length_pos_iff.2 h.listed, hreplies⟩, fun q hq => ?_⟩
    exact decide_eq_true (h.tolerant q.1 q.2 (Table.mem_toList.1 hq))

end Coordinator

/-! ### Every run -/

/-- **One round.** No client prepares a second time. -/
def oneRound : StepCond
  | w, .client tid, _, .act (.client .wake) => (GlobalState.client w tid).retries = false
  | _, _, _, _ => True

instance (w : GlobalState) (n : Node) (ω : Choice) (input : Input Addr Msg Act) :
    Decidable (oneRound w n ω input) :=
  match n, input with
  | .client _, .act (.client .wake) => inferInstanceAs (Decidable (_ = false))
  | .client _, .act (.client (.get _)) => .isTrue trivial
  | .client _, .act (.client (.put _ _)) => .isTrue trivial
  | .client _, .act (.client (.multiGet _)) => .isTrue trivial
  | .client _, .act (.client .commit) => .isTrue trivial
  | .client _, .act (.client .abort) => .isTrue trivial
  | .client _, .act (.client (.task _)) => .isTrue trivial
  | .client _, .act (.client (.prepareTimeout _)) => .isTrue trivial
  | .client _, .act (.client (.getTimeout _)) => .isTrue trivial
  | .client _, .act (.client (.parallelModeCommitTimeout _)) => .isTrue trivial
  | .client _, .act (.timer _) => .isTrue trivial
  | .client _, .recv _ => .isTrue trivial
  | .replica _ _, _ => .isTrue trivial
  | .coordinator _, _ => .isTrue trivial

theorem oneRound_wake (w : GlobalState) (tid : TxnId) (ω : Choice)
    (h : oneRound w (.client tid) ω (.act (.client .wake))) :
    ¬ Client.Retries (w.client tid) := by
  intro hretries
  have htrue := Client.retries_of_retries hretries
  have hfalse : (w.client tid).retries = false := h
  rw [hfalse] at htrue
  cases htrue

/-- The shards transaction `tid` touched in the run. -/
def touched (cfg : Config) (tid : TxnId) (tr : List RunStep) : List Shard :=
  (tr.flatMap fun x => if x.node = .client tid
    then (GlobalState.client x.before tid).touches x.input else []).map cfg.keyToShard

/-- A primary leader splits a prepare in the step. -/
def RunStep.splits (cfg : Config) (x : RunStep) : Prop :=
  ∃ s i src dst m, x.node = .replica s i ∧ x.input = .recv ⟨src, dst, .prepareTransaction m⟩ ∧
    Replica.Dispatched ⟨cfg, s, i⟩ (GlobalState.replica x.before s i) m

section Run

variable {cfg : Config} {w : GlobalState} {tr : List RunStep}

/-- Exactly the touched shards take part. -/
theorem mem_participants (hrun : cfg.system.Trace tr w) (tid : TxnId) (q : Shard) :
    q ∈ (w.client tid).participants ↔ q ∈ touched cfg tid tr := by
  induction hrun with
  | start => exact Iff.rfl
  | @step tr w n input ω hrun hen ih =>
      have hone : touched cfg tid (tr ++ [⟨w, n, ω, input⟩]) = touched cfg tid tr ++
          (if n = .client tid then (GlobalState.client w tid).touches input else []).map
            cfg.keyToShard := by
        simp only [touched, List.flatMap_append, List.flatMap_singleton, List.map_append]
      rw [hone, List.mem_append]
      by_cases hn : n = .client tid
      · subst hn
        rw [if_pos rfl, ← ih]
        have hstep := Client.handleInput_participants ⟨cfg, tid⟩ ω input (GlobalState.client w tid)
        have hnext : GlobalState.client (cfg.system.next w (.client tid) ω input) tid =
            (Client.handleInput ⟨cfg, tid⟩ ω input
              { state := GlobalState.client w tid }).state.state :=
          Function.update_self ..
        rw [hnext]
        exact hstep q
      · have hnext : GlobalState.client (cfg.system.next w n ω input) tid =
            GlobalState.client w tid := Function.update_of_ne (fun h => hn h.symm) ..
        rw [if_neg hn, hnext, ih]
        exact ⟨.inl, fun h => h.resolve_right List.not_mem_nil⟩

/-- A client that started takes part with the shards of its start. -/
theorem RoundOk.participants {once : Prop} {tid : TxnId} {h : History} {c : Client} {st : Start}
    (hc : RoundOk once cfg tid h c) (hst : startOf h tid = some st) :
    c.participants = st.participants ∧ st.participants.Nodup := by
  have hafter := hc.afterStart hst
  exact ⟨hafter.participants, hafter.plan.nodup⟩

/-- No prepare is split. -/
def whole (cfg : Config) : StepCond := fun w n ω input => ¬ RunStep.splits cfg ⟨w, n, ω, input⟩

/-- Nothing waits to be handed out. -/
def Unsplit (_ : History) : (n : Node) → Local n → Prop
  | .replica _ _, r => ∀ tid, (Replica.pendingPrepares r).lookup tid = none
  | _, _ => True

/-- A prepare is no piece. -/
def Unpieced (_ : History) (p : Pkt) : Prop :=
  ∀ m, p.msg = .prepareTransaction m → p.src ≠ .sendOnly

/-- Only a prepare that is split starts to wait. -/
theorem Replica.Moves.unsplit {env : ReplicaEnv} {r₀ : Replica} {input : Input Addr Msg Act}
    {D : Option TxnId} {x : Ctx Replica Addr Msg Event}
    (hno : ∀ src dst m, input = .recv ⟨src, dst, .prepareTransaction m⟩ → ¬ Dispatched env r₀ m)
    (hr : ∀ tid, r₀.pendingPrepares.lookup tid = none)
    (h : Moves env r₀ input D { state := r₀ } x) (tid : TxnId) :
    x.state.pendingPrepares.lookup tid = none := by
  induction h with
  | refl => exact hr tid
  | tail _ hmove ih =>
      cases hmove with
      | quiet r hr => exact (congrArg (AList.lookup tid) hr.prepares).trans ih
      | openPrepare src dst m req hm hdisp => exact absurd hdisp (hno src dst m hm)
      | touchPrepare t req req' hreq =>
          by_cases heq : tid = t
          · rw [← heq, ih] at hreq
            cases hreq
          · rw [Table.lookup_insert_eq, if_neg heq]
            exact ih
      | closePrepare t =>
          by_cases heq : tid = t
          · rw [heq]
            exact AList.lookup_erase ..
          · rw [AList.lookup_erase_ne heq]
            exact ih
      | _ => exact ih

/-- Where no prepare is split, no leader sends one. -/
theorem prepare_unsplit (hw : cfg.system.Reach (whole cfg) w) :
    (∀ n, Unsplit w.history n (w.state n)) ∧ ∀ p ∈ w.net, Unpieced w.history p := by
  refine hw.invariant (fun n => ?_) (fun _ _ _ hp => hp) (fun _ n _ _ _ _ hn => ?_) ?_
  · cases n with
    | replica s i => exact fun tid => rfl
    | client tid => trivial
    | coordinator c => trivial
  · cases n with
    | replica s i => exact hn
    | client tid => trivial
    | coordinator c => trivial
  · intro (w : GlobalState) n ω input hw hnode hpkt hen hc
    cases n with
    | client tid =>
        refine (Client.handleInput_sends ⟨cfg, tid⟩ ω input).good (fun _ _ => trivial)
          (fun _ _ => trivial) fun ⟨_, s, hsrc⟩ m _ => ?_
        rw [hsrc]
        intro h
        cases h
    | coordinator c =>
        refine (Coordinator.handleInput_sends ⟨cfg, c⟩ ω input).good (fun _ _ => trivial)
          (fun _ _ => trivial) fun {h p} hp m hm => ?_
        rw [hm] at hp
        exact hp.elim
    | replica s i =>
        have hno : ∀ src dst m, input = .recv ⟨src, dst, .prepareTransaction m⟩ →
            ¬ Replica.Dispatched ⟨cfg, s, i⟩ (w.replica s i) m :=
          fun src dst m hm hdisp => hc ⟨s, i, src, dst, m, rfl, hm, hdisp⟩
        have hr : ∀ tid, (w.replica s i).pendingPrepares.lookup tid = none := hnode (.replica s i)
        obtain ⟨D, hmoves⟩ := wp_state
          (Replica.handleInput_stopped ⟨cfg, s, i⟩ ω input { state := w.replica s i })
        refine wp_of_state ⟨hmoves.unsplit hno hr, fun p hp m hm => ?_⟩
        obtain ⟨tid, req, _, _, hknown, _⟩ := Replica.handleInput_handedOut hp hm
        rcases hknown with hknown | ⟨src, dst, m, hin, hdisp, _⟩
        · cases (hr tid).symm.trans hknown
        · exact absurd hdisp (hno src dst m hin)

/-- **Stable participants.** In every run in which no client prepares a second time, in every
mode, there is one list for each transaction, without repetitions and with exactly the shards
that the transaction touched, such that every `PrepareTransaction` of the client and, where
no leader splits a prepare, of anybody, and every `ParallelModeCommit` carries this list; what
a coordinator waits for is this list, or not known, and its three tests succeed as soon as
everybody is heard of. -/
theorem stable_participants (hrun : cfg.system.Trace tr w)
    (hround : ∀ x ∈ tr, oneRound x.before x.node x.choice x.input) (tid : TxnId) :
    ∃ l : List Shard, l.Nodup ∧ (∀ q, q ∈ l ↔ q ∈ touched cfg tid tr) ∧
      (∀ p ∈ w.net, ∀ m, p.msg = .prepareTransaction m → m.tid = tid →
        (p.src ≠ .sendOnly ∨ ∀ x ∈ tr, ¬ RunStep.splits cfg x) → m.participants = l) ∧
      (∀ p ∈ w.net, ∀ m, p.msg = .parallelModeCommit m → m.tid = tid → m.participants = l) ∧
      ∀ c req, (w.coordinator c).pendingCommits.lookup tid = some req →
        (req.participants = [] ∨ req.participants = l) ∧
        (Coordinator.Complete req → (Coordinator.reachConsensus req).1 = true ∧
          Coordinator.allParticipantsHaveNoPrecommitDependency req = true ∧
          Coordinator.reachFaultTolerance req = true) := by
  have hw := hrun.reach hround
  obtain ⟨hnodes, hrounds⟩ := Config.rounds (fun _ : True => oneRound_wake) hw
  obtain ⟨hlists, _⟩ := Config.lists oneRound_wake hw
  -- a transaction that started has the list of its start, the others need none
  have hstart : ∀ {st}, startOf w.history tid = some st →
      st.participants = (w.client tid).participants.dedup := by
    intro st hst
    obtain ⟨heq, hnodup⟩ := (hnodes tid).participants hst
    rw [heq, hnodup.dedup]
  refine ⟨(w.client tid).participants.dedup, List.nodup_dedup _, fun q => ?_, ?_, ?_, ?_⟩
  · rw [List.mem_dedup]
    exact mem_participants hrun tid q
  · rintro p hp m hm rfl hclient
    have hpkt := hrounds p hp
    simp only [RoundPkt, hm] at hpkt
    have hsrc : p.src ≠ .sendOnly := by
      rcases hclient with hsrc | hwhole
      · exact hsrc
      · exact (prepare_unsplit (hrun.reach hwhole)).2 p hp m hm
    obtain ⟨_, _, ⟨st, hst, _, hcarried⟩, _⟩ := hpkt.resolve_left hsrc
    exact (hcarried.same trivial).trans (hstart hst)
  · rintro p hp m hm rfl
    have hpkt := hrounds p hp
    simp only [RoundPkt, hm] at hpkt
    obtain ⟨st, hst, _, hsame⟩ := hpkt
    exact (hsame trivial).trans (hstart hst)
  · intro c req hreq
    have hc : Coordinator.ListsOk w.history (w.coordinator c) := hlists (.coordinator c)
    have hlist : req.participants = [] ∨
        req.participants = (w.client tid).participants.dedup := by
      rcases hc tid req hreq with hnil | ⟨st, hst, heq⟩
      · exact .inl hnil
      · exact .inr (heq.trans (hstart hst))
    refine ⟨hlist, fun hcomplete => Coordinator.complete_reaches ?_ hcomplete⟩
    rw [hlist.resolve_left hcomplete.listed]
    exact List.nodup_dedup _

end Run

/-- A transaction of the parallel mode, up to the vote of its shard. -/
def votedOnce : Commands :=
  [act 7 (.put "a" "1"), act 7 .commit, act 7 (.task 0), act 7 (.task 0), deliver 0, deliver 2,
    deliver 6]

theorem votedOnce_runs : ((threeReplicas .parallel 1).run oneRound votedOnce).isSome := by
  decide +kernel

theorem stable_participants_voted :
    ∃ (w : GlobalState) (l : List Shard),
      (threeReplicas .parallel 1).run oneRound votedOnce = some w ∧ l.Nodup ∧ (∀ q, q ∈ l ↔ q = 0) ∧
      ∃ req, (w.coordinator 0).pendingCommits.lookup 7 = some req ∧ req.participants ≠ [] ∧
        req.participants = l := by
  have hrun := Protocol.Trace.exec .start (Option.some_get votedOnce_runs).symm
  obtain ⟨l, hnodup, hmem, _, _, hreq⟩ := stable_participants hrun (by decide +kernel) 7
  have htouched : touched (threeReplicas .parallel 1) 7 ([] ++
      (threeReplicas .parallel 1).system.steps (threeReplicas .parallel 1).system.start
        votedOnce) = [0] := by
    decide +kernel
  have hpending : ((GlobalState.coordinator (((threeReplicas .parallel 1).run oneRound
      votedOnce).get votedOnce_runs) 0).pendingCommits.lookup 7).map (·.participants) =
        some [0] := by
    decide +kernel
  obtain ⟨req, hlook, hlist⟩ := Option.map_eq_some_iff.1 hpending
  have hne : req.participants ≠ [] := by
    rw [hlist]
    intro h
    cases h
  refine ⟨_, l, (Option.some_get votedOnce_runs).symm, hnodup, fun q => ?_, req, hlook, hne,
    (hreq 0 req hlook).1.resolve_left hne⟩
  rw [hmem, htouched, List.mem_singleton]

/-! ### A second round -/

/-- The client prepares again after a timeout, and the vote of its shard comes in. -/
def votedTwice : Commands :=
  [act 7 (.put "a" "1"), act 7 .commit, act 7 (.task 0), act 7 (.task 0),
    act 7 (.prepareTimeout 0), act 7 .wake, act 7 (.task 0), act 7 (.task 0), deliver 2, deliver 4,
    deliver 8]

theorem votedTwice_runs : ((threeReplicas .parallel 1).run anyStep votedTwice).isSome := by
  decide +kernel

/-- The lists the prepares of a transaction carry. -/
def preparedWith (w : GlobalState) : List (List Shard) :=
  w.net.filterMap fun p => match p.msg with
    | .prepareTransaction m => some m.participants
    | _ => none

/-- **A repetition.** The prepares of the two rounds carry different lists, and a coordinator
has the only vote there is and no consensus. -/
theorem second_round_repeats :
    ∃ w : GlobalState, (threeReplicas .parallel 1).run anyStep votedTwice = some w ∧
      preparedWith w = [[0], [0, 0]] ∧
      ∃ req, (w.coordinator 0).pendingCommits.lookup 7 = some req ∧ req.participants = [0, 0] ∧
        req.votes.toList = [(0, .prepared)] ∧ (Coordinator.reachConsensus req).1 = false := by
  have hpending : ((GlobalState.coordinator (((threeReplicas .parallel 1).run anyStep
      votedTwice).get votedTwice_runs) 0).pendingCommits.lookup 7).map (fun req =>
        (req.participants, req.votes.toList, (Coordinator.reachConsensus req).1)) =
        some ([0, 0], [(0, .prepared)], false) := by
    decide +kernel
  obtain ⟨req, hlook, hreq⟩ := Option.map_eq_some_iff.1 hpending
  simp only [Prod.mk.injEq] at hreq
  exact ⟨_, (Option.some_get votedTwice_runs).symm, by decide +kernel, req, hlook, hreq⟩

end D2PC
