import D2PC.Invariant.Client
import D2PC.Invariant.Coordinator
import D2PC.Invariant.Replica

/-!
# The invariant holds in every run

The steps of the processes put together: in the direct modes every process and every packet
of every reachable world satisfies the invariant. A replica outside the deployment receives
nothing, so that whoever logs or votes is one of the `n` replicas of a shard.

* `Config.invariant` : the invariant in every reachable world;
* `Config.replica_outcome` : a step of a replica, by what is known of its handler;
* `Config.replica_lt` : only replicas of the deployment record events.
-/

namespace D2PC

open Prog Ctx

variable {cfg : Config} {C : StepCond} {w : GlobalState}

/-! ### The start -/

theorem ClientOk.init (tid : TxnId) : ClientOk cfg tid [] {} := by
  refine ⟨⟨⟨rfl, nofun, fun _ => rfl, List.nodup_nil, ?_⟩, rfl, fun _ => rfl⟩, nofun, nofun⟩
  exact fun s txn htxn => absurd htxn (by simp)

theorem ReplicaOk.init (s : Shard) (i : ℕ) (ts : ℕ) (store : TxnStore) :
    ReplicaOk cfg s i [] { currentTs := ts, store := store } := by
  refine ⟨⟨?_, nofun, ?_⟩, ?_, ?_, ?_, ?_, fun _ => rfl, nofun⟩
  · exact fun lsn e he => absurd he (by simp [Log.find])
  · exact fun _ lsn e he => absurd he (by simp [Log.find])
  all_goals exact fun _ _ hl => absurd hl (by simp)

theorem CoordinatorOk.init (c : ℕ) : CoordinatorOk cfg c [] {} := by
  refine ⟨?_, ?_, fun _ h => by cases h⟩
  · exact fun _ _ hl => absurd hl (by simp)
  · exact fun _ hm => absurd hm (by simp)

theorem NodeOk.init (n : Node) : NodeOk cfg [] n (cfg.init n) := by
  cases n with
  | client tid => exact ClientOk.init tid
  | replica s i => exact ReplicaOk.init s i _ _
  | coordinator c => exact CoordinatorOk.init c

theorem NodeOk.frame {h : History} {n n' : Node} (hn : n ≠ n') (es : List Event) {x : Local n}
    (hx : NodeOk cfg h n x) : NodeOk cfg (h ++ es.map (n', ·)) n x := by
  cases n with
  | client tid => exact ClientOk.frame hx hn es
  | replica s i => exact ReplicaOk.frame hx hn es
  | coordinator c => exact CoordinatorOk.frame hx hn es

/-! ### Runs -/

/-- What a step adds to the history. -/
theorem Config.mem_next {n n' : Node} {ω : Choice} {input : Input Addr Msg Act} {e : Event} :
    (n', e) ∈ (cfg.system.next w n ω input).history ↔ (n', e) ∈ w.history ∨
      (n' = n ∧ e ∈ (cfg.system.handle n ω input { state := w.state n }).state.events) := by
  simp only [Protocol.next, List.mem_append, List.mem_map, Prod.mk.injEq]
  constructor
  · rintro (hold | ⟨e', he', rfl, rfl⟩)
    · exact .inl hold
    · exact .inr ⟨rfl, he'⟩
  · rintro (hold | ⟨rfl, he⟩)
    · exact .inl hold
    · exact .inr ⟨e, he, rfl, rfl⟩

/-- The replica that takes a step. -/
theorem Config.replica_next {s : Shard} {i : ℕ} {ω : Choice} {input : Input Addr Msg Act} :
    GlobalState.replica (cfg.system.next w (.replica s i) ω input) s i =
      (cfg.system.handle (.replica s i) ω input { state := w.replica s i }).state.state :=
  Function.update_self ..

/-- Every other replica. -/
theorem Config.replica_next_ne {n : Node} {s : Shard} {i : ℕ} {ω : Choice}
    {input : Input Addr Msg Act} (hn : Node.replica s i ≠ n) :
    GlobalState.replica (cfg.system.next w n ω input) s i = w.replica s i :=
  Function.update_of_ne hn ..

/-- A step of a replica, by what is known of its handler: it ends in a context `y` that satisfies
the one condition if the replica lives on, and the other if it dies. -/
theorem Config.replica_outcome {s : Shard} {i : ℕ} {ω : Choice} {input : Input Addr Msg Act}
    {Q D : Ctx Replica Addr Msg Event → Prop}
    (hwp : wp (Replica.handleInput ⟨cfg, s, i⟩ ω input) (fun _ => Q) D
      { state := w.replica s i }) :
    ∃ y, ((cfg.system.next w (.replica s i) ω input).crashed (.replica s i) = false ∧ Q y ∨
        (cfg.system.next w (.replica s i) ω input).crashed (.replica s i) = true ∧ D y) ∧
      GlobalState.replica (cfg.system.next w (.replica s i) ω input) s i = y.state ∧
      (cfg.system.next w (.replica s i) ω input).net = w.net ++ y.sent ∧
      (cfg.system.next w (.replica s i) ω input).history =
        w.history ++ y.events.map (Node.replica s i, ·) := by
  have hstate : GlobalState.replica (cfg.system.next w (.replica s i) ω input) s i =
      (Replica.handleInput ⟨cfg, s, i⟩ ω input { state := w.replica s i }).state.state :=
    Config.replica_next
  have hcrash : (cfg.system.next w (.replica s i) ω input).crashed (.replica s i) =
      (Replica.handleInput ⟨cfg, s, i⟩ ω input { state := w.replica s i }).isDead :=
    Function.update_self ..
  have hnet : (cfg.system.next w (.replica s i) ω input).net = w.net ++
      (Replica.handleInput ⟨cfg, s, i⟩ ω input { state := w.replica s i }).state.sent := rfl
  have hhist : (cfg.system.next w (.replica s i) ω input).history = w.history ++
      (Replica.handleInput ⟨cfg, s, i⟩ ω input { state := w.replica s i }).state.events.map
        (Node.replica s i, ·) := rfl
  rcases wp_cases hwp with ⟨_, y, hrun, hy⟩ | ⟨y, hrun, hy⟩
  · rw [hrun] at hstate hcrash hnet hhist
    exact ⟨y, .inl ⟨hcrash, hy⟩, hstate, hnet, hhist⟩
  · rw [hrun] at hstate hcrash hnet hhist
    exact ⟨y, .inr ⟨hcrash, hy⟩, hstate, hnet, hhist⟩

/-- What an address tells about the process that reads it. -/
theorem Config.owner_eq {a : Addr} {n : Node} (ho : cfg.owner a = some n) :
    (∃ tid s, a = .client tid s ∧ n = .client tid) ∨
      (∃ s i, a = .replica s i ∧ n = .replica s i ∧ s < cfg.nshards ∧ i < cfg.n) ∨
      ∃ i, a = .coordinator i ∧ n = .coordinator i ∧ i < cfg.n := by
  cases a with
  | client tid s =>
      simp only [Config.owner] at ho
      split_ifs at ho
      exact .inl ⟨tid, s, rfl, (Option.some.inj ho).symm⟩
  | replica s i =>
      simp only [Config.owner] at ho
      split_ifs at ho with hin
      exact .inr (.inl ⟨s, i, rfl, (Option.some.inj ho).symm, hin⟩)
  | coordinator i =>
      simp only [Config.owner] at ho
      split_ifs at ho with hin
      exact .inr (.inr ⟨i, rfl, (Option.some.inj ho).symm, hin⟩)
  | sendOnly => cases ho

theorem Config.owner_client {a : Addr} {tid : TxnId} (ho : cfg.owner a = some (.client tid)) :
    ∃ s, a = .client tid s := by
  rcases Config.owner_eq ho with ⟨tid', s, ha, hn⟩ | ⟨_, _, _, hn, _⟩ | ⟨_, _, hn, _⟩
  · cases hn
    exact ⟨s, ha⟩
  · cases hn
  · cases hn

theorem Config.owner_replica {a : Addr} {s : Shard} {i : ℕ}
    (ho : cfg.owner a = some (.replica s i)) : a = .replica s i := by
  rcases Config.owner_eq ho with ⟨_, _, _, hn⟩ | ⟨_, _, ha, hn, _⟩ | ⟨_, _, hn, _⟩
  · cases hn
  · cases hn
    exact ha
  · cases hn

theorem Config.owner_coordinator {a : Addr} {c : ℕ} (ho : cfg.owner a = some (.coordinator c)) :
    a = .coordinator c := by
  rcases Config.owner_eq ho with ⟨_, _, _, hn⟩ | ⟨_, _, _, hn, _⟩ | ⟨_, ha, hn, _⟩
  · cases hn
  · cases hn
  · cases hn
    exact ha

/-- **The invariant** of the direct modes, in every run. -/
theorem Config.invariant (hdir : cfg.Direct) (hw : cfg.system.Reach C w) :
    (∀ n, NodeOk cfg w.history n (w.state n)) ∧ ∀ p ∈ w.net, PacketOk cfg w.history p := by
  refine hw.invariant NodeOk.init (fun _ _ _ => PacketOk.mono)
    (fun _ _ _ es _ hn => NodeOk.frame hn es) ?_
  intro w n ω input _ hnode hpkt hen _
  cases n with
  | client tid =>
      refine Client.handleInput_good hdir (hnode (.client tid)) fun p hp => ?_
      subst hp
      refine ⟨hpkt p hen.2.1, ?_⟩
      rcases Config.owner_eq hen.2.2 with ⟨t, s, ha, hn⟩ | ⟨_, _, _, hn, _⟩ | ⟨_, _, hn, _⟩
      · cases hn
        exact ⟨s, ha⟩
      · cases hn
      · cases hn
  | replica s i =>
      refine Replica.handleInput_good hdir (hnode (.replica s (cfg.leader s)))
        (hnode (.replica s i)) fun p hp => ?_
      subst hp
      exact ⟨hpkt p hen.2.1, Config.owner_replica hen.2.2⟩
  | coordinator c =>
      refine Coordinator.handleInput_good (hnode (.coordinator c)) fun p hp => ?_
      subst hp
      exact ⟨hpkt p hen.2.1, Config.owner_coordinator hen.2.2⟩

/-- What a leader sends to itself, it has logged. -/
theorem Config.leader_found (hdir : cfg.Direct) (hw : cfg.system.Reach C w) {s : Shard}
    {src dst : Addr} {m : ReplicateTransaction} (hen : cfg.system.Enabled w (cfg.leaderNode s)
      (.recv ⟨src, dst, .replicateTransaction m⟩)) :
    ((w.replica s (cfg.leader s)).log.find m.txnLog.lsn).isSome := by
  obtain ⟨hnode, hpkt⟩ := Config.invariant hdir hw
  obtain ⟨s', j, _, hdst, _, ⟨e, he, _⟩, _⟩ := hpkt _ hen.2.1
  have hown : dst = .replica s (cfg.leader s) := Config.owner_replica hen.2.2
  cases hown.symm.trans hdst
  obtain ⟨e', he', _⟩ := (ReplicaOk.log (hnode (.replica s (cfg.leader s)))).kept _ _ he
  rw [GlobalState.replica, he']
  rfl

/-- A replica outside the deployment. -/
def Outside (cfg : Config) (s : Shard) (i : ℕ) : Prop := ¬ (s < cfg.nshards ∧ i < cfg.n)

/-- A replica that has nothing pending does not notice its timers. -/
theorem Replica.handleTimer_idle {env : ReplicaEnv} {ω : Choice} {t : Timer}
    {x : Ctx Replica Addr Msg Event} (hp : ∀ tid, x.state.pendingTxns.lookup tid = none)
    (hq : ∀ tid, x.state.pendingPrepares.lookup tid = none) :
    handleTimer env ω t x = .done () x := by
  cases t with
  | pendingTxn tid =>
      simp only [handleTimer, bind, Ctx.read, Prog.gets, hp]
      rfl
  | pendingPrepare tid =>
      simp only [handleTimer, bind, Ctx.read, Prog.gets, hq]
      rfl

theorem Config.outside_silent (hw : cfg.system.Reach C w) {s : Shard} {i : ℕ}
    (hout : Outside cfg s i) :
    w.state (.replica s i) = cfg.init (.replica s i) ∧ ∀ e, (Node.replica s i, e) ∉ w.history := by
  refine hw.induct (J := fun w => w.state (.replica s i) = cfg.init (.replica s i) ∧
    ∀ e, (Node.replica s i, e) ∉ w.history) ⟨rfl, fun _ => List.not_mem_nil⟩ ?_
  intro w n ω input _ ih hen _
  by_cases hn : Node.replica s i = n
  · subst hn
    have hidle : cfg.system.handle (.replica s i) ω input { state := w.state (.replica s i) } =
        .done () { state := w.state (.replica s i) } := by
      cases input with
      | recv p =>
          rcases Config.owner_eq hen.2.2 with ⟨_, _, _, hn⟩ | ⟨_, _, _, hn, hin⟩ | ⟨_, _, hn, _⟩
          · cases hn
          · cases hn
            exact absurd hin hout
          · cases hn
      | act a =>
          rw [ih.1]
          cases a with
          | client a => rfl
          | timer t => exact Replica.handleTimer_idle (fun _ => rfl) fun _ => rfl
    simp only [Protocol.next, hidle, Result.state, Function.update_self, List.map_nil,
      List.append_nil]
    exact ih
  · simp only [Protocol.next, Function.update_of_ne hn, mem_frame hn]
    exact ih

/-- Whoever records an event belongs to the deployment. -/
theorem Config.replica_lt (hw : cfg.system.Reach C w) {s : Shard} {i : ℕ} {e : Event}
    (he : (Node.replica s i, e) ∈ w.history) : s < cfg.nshards ∧ i < cfg.n := by
  by_contra hout
  exact (Config.outside_silent hw hout).2 e he

end D2PC
