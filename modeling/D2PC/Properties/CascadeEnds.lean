import D2PC.Properties.CascadeVotes

/-!
# Cascading aborts come to an end

`CascadeAbort` calls itself along the `out` lists of the active transactions and marks nothing as
visited. A read enters its transaction in the `out` list of an active one, which the leader has
prepared; if all reads of a transaction come before its first prepare, then every edge leads from
a transaction to one that is prepared later, and no edge leads back.

* `Replica.cascadeWith` : the recursion, with a continuation where the calls are nested too deep;
* `Replica.cascadeWith_agree` : with ranks that grow along the edges that never happens;
* `Replica.Moves.edges` : the edges a step can add;
* `Ranked`, `Config.trace_ranked` : the order of the first prepares ranks the edges, in every run;
* `cascade_terminates` : the active transactions form no cycle and every cascade ends.
-/

namespace D2PC

open Prog Ctx

namespace Replica

variable {env : ReplicaEnv} {x : Ctx Replica Addr Msg Event}

/-! ### The recursion -/

/-- One entry of an `out` list in `CascadeAbort` of `tid`, with `call` for the inner call. -/
def cascadeOut (env : ReplicaEnv) (call : TxnId → ReplicaM Unit) (tid out : TxnId) :
    ReplicaM Unit := do
  match ← read (·.activeTxns.lookup out) with
  | some _ =>
      call out
      sendMessageToCoordinators env (.vote { tid := tid, vote := .prepared, shard := env.shardId })
  | none => update fun s => { s with inDependency := s.inDependency.insert out (-1) }

/-- The loop of `CascadeAbort` over the `out` list, if the transaction is pending. -/
def cascadeOuts (env : ReplicaEnv) (call : TxnId → ReplicaM Unit) (tid : TxnId) :
    ReplicaM Unit := do
  match ← read (·.pendingTxns.lookup tid) with
  | none => pure ()
  | some _ =>
      let txn ← deref (← activePtr tid)
      txn.out.forM (cascadeOut env call tid)

/-- `CascadeAbort` with `call` for the inner calls. -/
def cascadeBody (env : ReplicaEnv) (call : TxnId → ReplicaM Unit) (tid : TxnId) :
    ReplicaM Unit := do
  withStore (·.abort tid)
  emit (.cascaded tid)
  cascadeOuts env call tid

/-- `CascadeAbort`, with `stop` in the place of the calls that are nested deeper than `fuel`. -/
def cascadeWith (env : ReplicaEnv) (stop : TxnId → ReplicaM Unit) : ℕ → TxnId → ReplicaM Unit
  | 0 => stop
  | fuel + 1 => cascadeBody env (cascadeWith env stop fuel)

/-- The process dies where the calls are nested too deep. -/
theorem cascadeAbort_eq_with (fuel : ℕ) :
    cascadeAbort env fuel = cascadeWith env (fun _ => crash) fuel := by
  induction fuel with
  | zero => rfl
  | succ fuel ih =>
      funext tid
      rw [cascadeWith, ← ih]
      rfl

/-- The tables a cascade walks through. -/
structure Walks (active : Table TxnId (Option Transaction))
    (pending : Table TxnId PendingTransaction) (x : Ctx Replica Addr Msg Event) : Prop where
  active : x.state.activeTxns = active
  pending : x.state.pendingTxns = pending

/-- A transaction is pending and there is no object for it. -/
def Dangling (active : Table TxnId (Option Transaction))
    (pending : Table TxnId PendingTransaction) : Prop :=
  ∃ T ∈ pending, ∀ txn, active.lookup T ≠ some (some txn)

section Walk

variable {active : Table TxnId (Option Transaction)} {pending : Table TxnId PendingTransaction}
  {call call' : TxnId → ReplicaM Unit}

/-- One entry of an `out` list. -/
theorem cascadeOut_agree {tid out : TxnId} (hx : Walks active pending x)
    (hcall : out ∈ active → ∀ y, Walks active pending y → call out y = call' out y ∧
      wp (call' out) (fun _ => Walks active pending) (fun _ => Dangling active pending) y) :
    cascadeOut env call tid out x = cascadeOut env call' tid out x ∧
      wp (cascadeOut env call' tid out) (fun _ => Walks active pending)
        (fun _ => Dangling active pending) x := by
  cases hout : active.lookup out with
  | none =>
      rw [← hx.active] at hout
      refine ⟨?_, ?_⟩
      · simp only [cascadeOut, read_bind, hout]
      · simp only [cascadeOut, wp_bind, wp_read, hout, wp_update]
        exact ⟨hx.active, hx.pending⟩
  | some ptr =>
      obtain ⟨heq, hwp⟩ := hcall (AList.lookup_isSome.1 (by rw [hout]; rfl)) x hx
      rw [← hx.active] at hout
      refine ⟨?_, ?_⟩
      · simp only [cascadeOut, read_bind, hout]
        simp only [bind, heq]
      · simp only [cascadeOut, wp_bind, wp_read, hout, wp_sendMessageToCoordinators]
        exact wp_mono (fun _ y hy => ⟨hy.active, hy.pending⟩) (fun _ hy => hy) hwp

/-- Loops whose inner calls agree on the active transactions in the `out` list agree. -/
theorem cascadeOuts_agree {tid : TxnId} (hx : Walks active pending x)
    (hcall : ∀ txn out, active.lookup tid = some (some txn) → out ∈ txn.out → out ∈ active →
      ∀ y, Walks active pending y → call out y = call' out y ∧
        wp (call' out) (fun _ => Walks active pending) (fun _ => Dangling active pending) y) :
    cascadeOuts env call tid x = cascadeOuts env call' tid x ∧
      wp (cascadeOuts env call' tid) (fun _ => Walks active pending)
        (fun _ => Dangling active pending) x := by
  have hpending : x.state.pendingTxns.lookup tid = pending.lookup tid := by rw [hx.pending]
  have hactive : x.state.activeTxns.lookup tid = active.lookup tid := by rw [hx.active]
  cases hreq : pending.lookup tid with
  | none =>
      rw [hreq] at hpending
      simp only [cascadeOuts, read_bind, wp_bind, wp_read, hpending, wp_pure]
      exact ⟨trivial, hx⟩
  | some req =>
      rw [hreq] at hpending
      -- without an object both die before the loop
      have hdangling : (∀ txn, active.lookup tid ≠ some (some txn)) → Dangling active pending :=
        fun hnone => ⟨tid, AList.lookup_isSome.1 (by rw [hreq]; rfl), hnone⟩
      have hloop : ∀ txn, active.lookup tid = some (some txn) →
          txn.out.forM (cascadeOut env call tid) x = txn.out.forM (cascadeOut env call' tid) x ∧
            wp (txn.out.forM (cascadeOut env call' tid)) (fun _ => Walks active pending)
              (fun _ => Dangling active pending) x := by
        intro txn htxn
        refine forM_agree (fun out hout y hy => ?_) hx
        exact cascadeOut_agree hy fun hin => hcall txn out htxn hout hin
      simp only [cascadeOuts, read_bind, wp_bind, wp_read, hpending]
      refine ⟨bind_agree ?_, ?_⟩
      · rw [wp_activePtr, hactive]
        refine ⟨fun p hp => bind_agree ?_, fun _ => rfl⟩
        rw [wp_deref]
        refine ⟨fun txn htxn => ?_, fun _ => trivial⟩
        exact (hloop txn (by rw [hp, htxn])).1
      · rw [wp_derefActive, hactive]
        refine ⟨fun txn htxn => (hloop txn htxn).2, fun hnull => hdangling ?_,
          fun hnone => hdangling ?_⟩
        · rw [hnull]
          intro _ h
          cases h
        · rw [hnone]
          intro _ h
          cases h

/-- Bodies whose inner calls agree on the active transactions in the `out` list agree. -/
theorem cascadeBody_agree {tid : TxnId} (hx : Walks active pending x)
    (hcall : ∀ txn out, active.lookup tid = some (some txn) → out ∈ txn.out → out ∈ active →
      ∀ y, Walks active pending y → call out y = call' out y ∧
        wp (call' out) (fun _ => Walks active pending) (fun _ => Dangling active pending) y) :
    cascadeBody env call tid x = cascadeBody env call' tid x ∧
      wp (cascadeBody env call' tid) (fun _ => Walks active pending)
        (fun _ => Dangling active pending) x :=
  cascadeOuts_agree (x := { x with
    state := { x.state with store := x.state.store.abort tid }
    events := x.events ++ [.cascaded tid] }) ⟨hx.active, hx.pending⟩ hcall

/-- **Enough fuel.** If ranks grow along the edges, the calls are not nested deeper than the number
of active transactions ranked above the first one. -/
theorem cascadeWith_agree {rank : TxnId → ℕ} {stop stop' : TxnId → ReplicaM Unit}
    (hrank : ∀ T txn R, active.lookup T = some (some txn) → R ∈ txn.out → rank T < rank R)
    (fuel : ℕ) : ∀ (fuel' : ℕ) (tid : TxnId) (x : Ctx Replica Addr Msg Event),
      Walks active pending x → active.above rank tid < fuel → active.above rank tid < fuel' →
        cascadeWith env stop fuel tid x = cascadeWith env stop' fuel' tid x ∧
          wp (cascadeWith env stop' fuel' tid) (fun _ => Walks active pending)
            (fun _ => Dangling active pending) x := by
  induction fuel with
  | zero => exact fun _ _ _ _ hlt => absurd hlt (Nat.not_lt_zero _)
  | succ fuel ih =>
      intro fuel' tid x hx hlt hlt'
      cases fuel' with
      | zero => exact absurd hlt' (Nat.not_lt_zero _)
      | succ fuel' =>
          refine cascadeBody_agree hx fun txn out htxn hout hactive y hy => ?_
          have habove := Table.above_lt hactive (hrank tid txn out htxn hout)
          exact ih fuel' out y hy (by omega) (by omega)

end Walk

/-! ### The edges a step adds -/

/-- There is an object for the transaction. -/
def Live (r : Replica) (T : TxnId) : Prop := ∃ txn, r.activeTxns.lookup T = some (some txn)

/-- The message at hand is a prepare of `T`. -/
def Prepares (input : Input Addr Msg Act) (T : TxnId) : Prop :=
  ∃ src dst m, input = .recv ⟨src, dst, .prepareTransaction m⟩ ∧ m.tid = T

/-- What a step that started in `r₀` adds to the objects and the edges: a prepare makes an object
without edges, and a read draws edges to its transaction from objects that were there. -/
structure Draws (r₀ : Replica) (input : Input Addr Msg Act) (r : Replica) : Prop where
  live : ∀ T, r.Live T → r₀.Live T ∨ Prepares input T
  edges : ∀ T R, r.Follows T R → r₀.Follows T R ∨ (r₀.Live T ∧ Reads input R)

variable {r₀ : Replica} {input : Input Addr Msg Act} {D : Option TxnId}
  {x₀ : Ctx Replica Addr Msg Event}

/-- No entry of a log is lost. -/
theorem Moves.found {lsn : ℕ} (hmoves : Moves env r₀ input D x₀ x)
    (hfound : (x₀.state.log.find lsn).isSome) : (x.state.log.find lsn).isSome := by
  induction hmoves with
  | refl => exact hfound
  | tail _ hmove ih =>
      cases hmove with
      | quiet r hr =>
          rw [hr.log]
          exact ih
      | copy => exact isSome_find_addProto ih
      | log => exact isSome_find_add ih
      | setTs => exact isSome_find_same (Log.same_setTs _ _ _) ih
      | setStatus => exact isSome_find_same (Log.same_setStatus _ _ _) ih
      | _ => exact ih

/-- **The edges.** A step that copies no entry only draws edges from objects that were there. -/
theorem Moves.draws (hmoves : Moves env r₀ input D { state := r₀ } x)
    (hknown : ∀ src dst m, input = .recv ⟨src, dst, .replicateTransaction m⟩ →
      (r₀.log.find m.txnLog.lsn).isSome) : Draws r₀ input x.state := by
  induction hmoves with
  | refl => exact ⟨fun _ => .inl, fun _ _ => .inl⟩
  | tail hmoves hmove ih =>
      cases hmove with
      | quiet r hr =>
          have hlive : ∀ T, r.Live T → r₀.Live T ∨ Prepares input T := by
            rintro T ⟨txn, htxn⟩
            have hlike := hr.active T
            rw [ActiveLike, htxn] at hlike
            obtain ⟨txn', htxn', -⟩ := Option.map_eq_some_iff.1 hlike.symm
            exact ih.live T ⟨txn', Option.join_eq_some_iff.1 htxn'⟩
          refine ⟨hlive, fun T R hR => ?_⟩
          rcases hr.outs T R hR with hold | hread
          · exact ih.edges T R hold
          · obtain ⟨txn, htxn, -⟩ := hR
            refine .inr ⟨(hlive T ⟨txn, htxn⟩).resolve_right ?_, hread⟩
            rintro ⟨_, _, _, hprepare, -⟩
            obtain ⟨_, _, _, hget, -⟩ := hread
            cases hprepare.symm.trans hget
      | forget tid =>
          have herase : ∀ {T : TxnId} {txn : Transaction} {t : Table TxnId (Option Transaction)},
              (t.erase tid).lookup T = some (some txn) → t.lookup T = some (some txn) := by
            intro T txn t htxn
            rw [Table.lookup_erase_eq] at htxn
            split_ifs at htxn
            exact htxn
          constructor
          · intro T hlive
            obtain ⟨txn, htxn⟩ := hlive
            exact ih.live T ⟨txn, herase htxn⟩
          · intro T R hread
            obtain ⟨txn, htxn, hR⟩ := hread
            exact ih.edges T R ⟨txn, herase htxn, hR⟩
      | copy src dst m _ _ hm hnew =>
          have hfound := Moves.found hmoves (hknown src dst m hm)
          rw [hnew] at hfound
          cases hfound
      | log remote dst m sent hm =>
          constructor
          · intro T hlive
            obtain ⟨txn, htxn⟩ := hlive
            simp only [Table.lookup_insert_eq] at htxn
            split_ifs at htxn with hT
            · exact .inr ⟨remote, dst, m, hm, hT.symm⟩
            · exact ih.live T ⟨txn, htxn⟩
          · intro T R hread
            obtain ⟨txn, htxn, hR⟩ := hread
            simp only [Table.lookup_insert_eq] at htxn
            split_ifs at htxn with hT
            · cases htxn
              exact absurd hR List.not_mem_nil
            · exact ih.edges T R ⟨txn, htxn, hR⟩
      | _ => exact ⟨ih.live, ih.edges⟩

end Replica

/-! ### Runs -/

/-- The transaction of the prepare that the leader of `s` handles in the step. -/
def RunStep.prepares (cfg : Config) (s : Shard) (x : RunStep) : Option TxnId :=
  match x.input with
  | .recv ⟨_, _, .prepareTransaction m⟩ => if x.node = cfg.leaderNode s then some m.tid else none
  | _ => none

/-- The transaction of the read that the leader of `s` handles in the step. -/
def RunStep.reads (cfg : Config) (s : Shard) (x : RunStep) : Option TxnId :=
  match x.input with
  | .recv ⟨_, _, .getData m⟩ => if x.node = cfg.leaderNode s then some m.tid else none
  | _ => none

/-- The leader of `s` handles all reads of a transaction before its first prepare. -/
def Config.ReadsFirst (cfg : Config) (s : Shard) (tr : List RunStep) : Prop :=
  tr.Pairwise fun x y => ∀ tid ∈ x.prepares cfg s, tid ∉ y.reads cfg s

instance (cfg : Config) (s : Shard) (tr : List RunStep) : Decidable (cfg.ReadsFirst s tr) :=
  inferInstanceAs (Decidable (List.Pairwise _ _))

/-- The transactions the leader of `s` prepared, in this order. -/
def Config.prepareOrder (cfg : Config) (s : Shard) (tr : List RunStep) : List TxnId :=
  tr.filterMap (RunStep.prepares cfg s)

/-- Every object is of a transaction in the list, and every edge leads to one that comes first
later in the list, or is not in it. -/
structure Ranked (order : List TxnId) (r : Replica) : Prop where
  known : ∀ T, r.Live T → T ∈ order
  ahead : ∀ T R, r.Follows T R → order.idxOf T < order.idxOf R

section Ranked

variable {order : List TxnId} {r r' : Replica} {input : Input Addr Msg Act}

/-- More prepares do not change the order of the first ones. -/
theorem Ranked.append (h : Ranked order r) (later : List TxnId) : Ranked (order ++ later) r := by
  refine ⟨fun T hT => List.mem_append_left _ (h.known T hT), fun T R hTR => ?_⟩
  have hlt := h.ahead T R hTR
  obtain ⟨txn, htxn, -⟩ := hTR
  rw [List.idxOf_append_of_mem (h.known T ⟨txn, htxn⟩), List.idxOf_append]
  split_ifs with hR
  · exact hlt
  · have hlast := List.idxOf_lt_length_iff.2 (h.known T ⟨txn, htxn⟩)
    omega

/-- A step: what is prepared is in the list, what is read is not. -/
theorem Ranked.draws (h : Ranked order r) (hdraws : Replica.Draws r input r')
    (hprepare : ∀ T, Replica.Prepares input T → T ∈ order)
    (hread : ∀ R, Replica.Reads input R → R ∉ order) : Ranked order r' := by
  refine ⟨fun T hT => (hdraws.live T hT).elim (h.known T) (hprepare T), fun T R hTR => ?_⟩
  rcases hdraws.edges T R hTR with hold | ⟨hT, hR⟩
  · exact h.ahead T R hold
  · rw [List.idxOf_eq_length_iff.2 (hread R hR)]
    exact List.idxOf_lt_length_iff.2 (h.known T hT)

/-- Ranks grow along chains of edges. -/
theorem Ranked.chain (h : Ranked order r) {T R : TxnId} (hTR : Relation.TransGen r.Follows T R) :
    order.idxOf T < order.idxOf R := by
  induction hTR with
  | single hedge => exact h.ahead _ _ hedge
  | tail _ hedge ih => exact ih.trans (h.ahead _ _ hedge)

end Ranked

section Runs

variable {cfg : Config} {w : GlobalState} {s : Shard} {tr : List RunStep}

/-- **The order of the first prepares** ranks the edges at a leader. -/
theorem Config.trace_ranked (hmode : cfg.mode = .parallel) (hrun : cfg.system.Trace tr w)
    (hfirst : cfg.ReadsFirst s tr) :
    Ranked (cfg.prepareOrder s tr) (w.replica s (cfg.leader s)) := by
  induction hrun with
  | start => exact ⟨fun T ⟨_, h⟩ => (by cases h), fun T R ⟨_, h, _⟩ => (by cases h)⟩
  | @step tr w n input ω hrun hen ih =>
      have hw : cfg.system.Reach anyStep w := hrun.reach fun _ _ => trivial
      obtain ⟨hbefore, -, hlast⟩ := List.pairwise_append.1 hfirst
      have hold := ih hbefore
      rw [Config.prepareOrder, List.filterMap_append]
      by_cases hn : cfg.leaderNode s = n
      · subst hn
        rw [Config.leaderNode, Config.replica_next]
        obtain ⟨D, hmoves⟩ := wp_state (Replica.handleInput_stopped ⟨cfg, s, cfg.leader s⟩ ω input
          { state := GlobalState.replica w s (cfg.leader s) })
        have hdraws := hmoves.draws fun src dst m hm => by
          subst hm
          exact Config.leader_found (.inr (.inl hmode)) hw hen
        refine (hold.append _).draws hdraws ?_ ?_
        · rintro T ⟨src, dst, m, rfl, rfl⟩
          exact List.mem_append_right _ (List.mem_filterMap.2
            ⟨_, List.mem_singleton_self _, if_pos rfl⟩)
        · rintro R ⟨src, dst, m, rfl, rfl⟩ hR
          rcases List.mem_append.1 hR with hR | hR
          · obtain ⟨x, hx, hprepared⟩ := List.mem_filterMap.1 hR
            exact hlast x hx _ (List.mem_singleton_self _) _ hprepared (if_pos rfl)
          · cases hR
      · rw [Config.leaderNode] at hn
        rw [Config.replica_next_ne hn]
        exact hold.append _

/-- **Cascades end.** In every run of the parallel mode in which the leader of `s` handles all
reads of a transaction before its first prepare, the `out` lists of its active transactions form
no cycle, and `CascadeAbort` of any transaction comes to an end: its outcome does not depend on
what happens in calls nested deeper than the number of active transactions, for there are none.
It returns, or dies at a pending transaction without an object. -/
theorem cascade_terminates (hmode : cfg.mode = .parallel) (hrun : cfg.system.Trace tr w)
    (hfirst : cfg.ReadsFirst s tr) :
    (∀ T, ¬ Relation.TransGen (w.replica s (cfg.leader s)).Follows T T) ∧
      ∀ (tid : TxnId) (x : Ctx Replica Addr Msg Event),
        x.state.activeTxns = (w.replica s (cfg.leader s)).activeTxns →
        ∃ y, (∀ fuel, Table.size x.state.activeTxns < fuel →
            Replica.cascadeAbort ⟨cfg, s, cfg.leader s⟩ fuel tid x = y ∧
            ∀ stop, Replica.cascadeWith ⟨cfg, s, cfg.leader s⟩ stop fuel tid x = y) ∧
          (y.isDead = true → ∃ T ∈ x.state.pendingTxns, ¬ x.state.Live T) := by
  have hranked := Config.trace_ranked hmode hrun hfirst
  refine ⟨fun T hT => lt_irrefl _ (hranked.chain hT), fun tid x hx => ?_⟩
  have hrank : ∀ T txn R, x.state.activeTxns.lookup T = some (some txn) → R ∈ txn.out →
      (cfg.prepareOrder s tr).idxOf T < (cfg.prepareOrder s tr).idxOf R := by
    intro T txn R htxn hR
    rw [hx] at htxn
    exact hranked.ahead T R ⟨txn, htxn, hR⟩
  have hwalks : Replica.Walks x.state.activeTxns x.state.pendingTxns x := ⟨rfl, rfl⟩
  have habove := Table.above_le_size x.state.activeTxns (cfg.prepareOrder s tr).idxOf tid
  have hagree : ∀ stop fuel, Table.size x.state.activeTxns < fuel →
      Replica.cascadeWith ⟨cfg, s, cfg.leader s⟩ stop fuel tid x =
        Replica.cascadeWith ⟨cfg, s, cfg.leader s⟩ (fun _ => crash)
          (Table.size x.state.activeTxns + 1) tid x ∧ _ :=
    fun stop fuel hfuel => Replica.cascadeWith_agree hrank fuel _ tid x hwalks (by omega) (by omega)
  refine ⟨_, fun fuel hfuel => ⟨?_, fun stop => (hagree stop fuel hfuel).1⟩, fun hdead => ?_⟩
  · rw [Replica.cascadeAbort_eq_with]
    exact (hagree _ fuel hfuel).1
  rcases wp_cases (hagree (fun _ => crash) _ (Nat.lt_succ_self _)).2 with
    ⟨_, _, hdone, -⟩ | ⟨_, -, T, hT, hnone⟩
  · rw [hdone] at hdead
    cases hdead
  · exact ⟨T, hT, fun ⟨txn, htxn⟩ => hnone txn htxn⟩

end Runs

/-! ### A read before a prepare -/

/-- What the leader knows when the client of `7` gives up. -/
def readBeforeGivenUp : Commands := readGivenUp.dropLast

theorem readBeforeGivenUp_runs : (loadedParallel.run anyStep readBeforeGivenUp).isSome := by
  decide +kernel

/-- The cascade of `7` calls that of `9`, and there it ends. -/
theorem cascade_terminates_read :
    ∃ (w : GlobalState) (y : Result (Ctx Replica Addr Msg Event) Unit),
      loadedParallel.run anyStep readBeforeGivenUp = some w ∧
      ((w.replica 0 0).activeTxns.lookup 7).map (·.map Transaction.out) = some (some [9]) ∧
      (∀ T, ¬ Relation.TransGen (w.replica 0 0).Follows T T) ∧
      ∀ fuel, Table.size (w.replica 0 0).activeTxns < fuel →
        Replica.cascadeAbort ⟨loadedParallel, 0, 0⟩ fuel 7 { state := w.replica 0 0 } = y := by
  have hrun := Protocol.Trace.exec .start (Option.some_get readBeforeGivenUp_runs).symm
  obtain ⟨hacyclic, hends⟩ := cascade_terminates (s := 0) rfl hrun (by decide +kernel)
  obtain ⟨y, hy, -⟩ := hends 7
    { state := GlobalState.replica ((loadedParallel.run anyStep readBeforeGivenUp).get
        readBeforeGivenUp_runs) 0 0 } rfl
  exact ⟨_, y, (Option.some_get readBeforeGivenUp_runs).symm, by decide +kernel, hacyclic,
    fun fuel hfuel => (hy fuel hfuel).1⟩

end D2PC
