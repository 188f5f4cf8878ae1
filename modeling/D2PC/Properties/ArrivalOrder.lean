import D2PC.Properties.Held
import D2PC.Properties.Durability

/-!
# The prepare and the request for the outcome, in either order

In the parallel mode the client of a transaction sends the leader of the primary shard its piece
and, at the same time, the request for the outcome. The request that comes first leaves a
placeholder, and `InvokeReplicateTxn` repairs every field of it but one: the transaction does not
take part any more, and its commit is ignored.

* `undisturbed` : the runs in which no step leads the transaction out of its stages;
* `Config.staged` : in these the leader has not accepted it, holds it, or has committed it;
* `announcement_settles` : then the announcement is carried out, `Settled`;
* `overtaken_not_settled` : the request overtakes the prepare, and the writes are lost.
-/

namespace D2PC

open Protocol Prog Ctx

/-- **No step at the leader disturbs the transaction.** -/
def undisturbed (cfg : Config) (s : Shard) (tid : TxnId) : StepCond :=
  fun (w : GlobalState) n ω input => n = cfg.leaderNode s →
    ¬ Replica.Disturbs ⟨cfg, s, cfg.leader s⟩ ω (w.replica s (cfg.leader s)) tid input

variable {cfg : Config} {w : GlobalState} {s : Shard} {tid : TxnId} {C : StepCond}

/-- The commit was applied, and the replicas were told. -/
structure Done (cfg : Config) (s : Shard) (tid : TxnId) (w : GlobalState) : Prop where
  applied : ∃ ts, (cfg.leaderNode s, Event.applied tid .commit ts) ∈ w.history
  told : Replica.Told ⟨cfg, s, cfg.leader s⟩ tid w.net

/-- **The stages of a transaction** at the leader of `s`. -/
inductive Staged (cfg : Config) (s : Shard) (tid : TxnId) (w : GlobalState) : Prop
  | unheard : Replica.Unheard tid (w.replica s (cfg.leader s)) →
      ¬ Validated cfg w.history s tid → Staged cfg s tid w
  | held (wset : Table Key Value) : Replica.Held tid wset (w.replica s (cfg.leader s)) →
      (cfg.leaderNode s, Event.validated tid wset) ∈ w.history → Staged cfg s tid w
  | closed : Replica.Closed tid (w.replica s (cfg.leader s)) → Done cfg s tid w → Staged cfg s tid w

theorem Done.next (h : Done cfg s tid w) (n : Node) (ω : Choice) (input : Input Addr Msg Act) :
    Done cfg s tid (cfg.system.next w n ω input) := by
  obtain ⟨ts, hts⟩ := h.applied
  exact ⟨⟨ts, Config.mem_next.2 (.inl hts)⟩, h.told.mono fun p hp => List.mem_append_left _ hp⟩

/-- The step that commits. -/
theorem Replica.Closes.done {ts : ℕ} {x y : Ctx Replica Addr Msg Event} {w' : GlobalState}
    (h : Replica.Closes ⟨cfg, s, cfg.leader s⟩ tid ts x y) (hnet : w'.net = w.net ++ y.sent)
    (hhist : w'.history = w.history ++ y.events.map (cfg.leaderNode s, ·)) : Done cfg s tid w' := by
  refine ⟨⟨ts, ?_⟩, h.told.mono fun p hp => ?_⟩
  · rw [hhist, h.events]
    exact List.mem_append_right _
      (List.mem_map_of_mem (List.mem_append_right _ (List.mem_singleton_self _)))
  · rw [hnet]
    exact List.mem_append_right _ hp

/-- The other processes do not touch it. -/
theorem Staged.other (h : Staged cfg s tid w) {n : Node} (hn : cfg.leaderNode s ≠ n) (ω : Choice)
    (input : Input Addr Msg Act) : Staged cfg s tid (cfg.system.next w n ω input) := by
  have hsame : GlobalState.replica (cfg.system.next w n ω input) s (cfg.leader s) =
      w.replica s (cfg.leader s) := Config.replica_next_ne hn
  cases h with
  | unheard hr hno =>
      refine .unheard (hsame.symm ▸ hr) ?_
      rintro ⟨wset, hmem⟩
      rcases Config.mem_next.1 hmem with hold | ⟨heq, _⟩
      · exact hno ⟨wset, hold⟩
      · exact hn heq
  | held wset hr hmem => exact .held wset (hsame.symm ▸ hr) (Config.mem_next.2 (.inl hmem))
  | closed hr hdone => exact .closed (hsame.symm ▸ hr) (hdone.next n ω input)

/-- What the invariants say of an input of the leader. -/
theorem Config.setting (hmode : cfg.mode = .parallel) (hw : cfg.system.Reach C w)
    {input : Input Addr Msg Act} (hen : cfg.system.Enabled w (cfg.leaderNode s) input) :
    Replica.Setting ⟨cfg, s, cfg.leader s⟩ (w.replica s (cfg.leader s)) input := by
  have hdir : cfg.Direct := .inr (.inl hmode)
  obtain ⟨hnode, hpkt⟩ := Config.invariant hdir hw
  have hr : ReplicaOk cfg s (cfg.leader s) w.history (w.replica s (cfg.leader s)) :=
    hnode (cfg.leaderNode s)
  refine ⟨decide_eq_true rfl, hmode, Config.directInput hdir hw hen, hr.prepares,
    fun tid req hreq => (hr.pending tid req hreq).id, ?_, ?_⟩
  · rintro src dst m rfl
    exact Config.leader_found hdir hw hen
  · rintro src dst m rfl
    exact (hpkt _ hen.2.1).2

/-- **The invariant of a run** that does not disturb the transaction. -/
theorem Config.staged (hmode : cfg.mode = .parallel) (hload : cfg.Loaded)
    (hw : cfg.system.Reach (undisturbed cfg s tid) w)
    (halive : w.crashed (cfg.leaderNode s) = false) : Staged cfg s tid w := by
  revert halive
  refine hw.induct (J := fun w => w.crashed (cfg.leaderNode s) = false → Staged cfg s tid w) ?_ ?_
  · intro _
    obtain ⟨hprep, hpre⟩ := hload s (cfg.leader s)
    refine .unheard ⟨rfl, rfl, rfl, ?_, ?_⟩ ?_
    · show AList.lookup tid (cfg.store s (cfg.leader s)).prepared = none
      rw [hprep]
      rfl
    · show AList.lookup tid (cfg.store s (cfg.leader s)).precommitted = none
      rw [hpre]
      rfl
    · rintro ⟨_, hmem⟩
      exact absurd hmem List.not_mem_nil
  · intro (w : GlobalState) n ω input hw ih hen hcond halive
    by_cases hn : cfg.leaderNode s = n
    · subst hn
      have hbefore : w.crashed (cfg.leaderNode s) = false := by
        cases input with
        | act a => exact hen
        | recv p => exact hen.1
      have hset := Config.setting hmode hw hen
      have hno := hcond rfl
      -- what the handler leaves, given that the leader is still alive
      have hstep : ∀ {Q : Ctx Replica Addr Msg Event → Prop},
          wp (Replica.handleInput ⟨cfg, s, cfg.leader s⟩ ω input) (fun _ => Q) (fun _ => True)
            { state := w.replica s (cfg.leader s) } →
          ∃ y, Q y ∧ GlobalState.replica (cfg.system.next w (cfg.leaderNode s) ω input) s
              (cfg.leader s) = y.state ∧
            (cfg.system.next w (cfg.leaderNode s) ω input).net = w.net ++ y.sent ∧
            (cfg.system.next w (cfg.leaderNode s) ω input).history =
              w.history ++ y.events.map (cfg.leaderNode s, ·) := by
        intro Q hwp
        obtain ⟨y, ⟨_, hQ⟩ | ⟨hdead, _⟩, hstate, hnet, hhist⟩ := Config.replica_outcome hwp
        · exact ⟨y, hQ, hstate, hnet, hhist⟩
        · cases halive.symm.trans hdead
      cases ih hbefore with
      | unheard hr hval =>
          obtain ⟨y, hy, hstate, _, hhist⟩ := hstep (hr.step hset hno)
          rcases hy with ⟨hr', hsame⟩ | ⟨wset, hr', hmem⟩
          · refine .unheard (hstate.symm ▸ hr') ?_
            rintro ⟨wset, hmem⟩
            rw [hhist] at hmem
            rcases List.mem_append.1 hmem with hold | hnew
            · exact hval ⟨wset, hold⟩
            · obtain ⟨e, he, heq⟩ := List.mem_map.1 hnew
              cases heq
              exact absurd (hsame wset he) List.not_mem_nil
          · refine .held wset (hstate.symm ▸ hr') ?_
            rw [hhist]
            exact List.mem_append_right _ (List.mem_map_of_mem hmem)
      | held wset hr hmem =>
          obtain ⟨y, hy, hstate, hnet, hhist⟩ := hstep (hr.step hset hno)
          rcases hy with hr' | ⟨ts, hclose⟩
          · exact .held wset (hstate.symm ▸ hr') (Config.mem_next.2 (.inl hmem))
          · exact .closed (hstate.symm ▸ hclose.closed hr.stored) (hclose.done hnet hhist)
      | closed hr hend =>
          obtain ⟨y, hr', hstate, _, _⟩ := hstep (hr.step hset hno)
          exact .closed (hstate.symm ▸ hr') (hend.next _ ω input)
    · exact (ih (by rwa [show (cfg.system.next w n ω input).crashed (cfg.leaderNode s) =
        w.crashed (cfg.leaderNode s) from Function.update_of_ne hn ..] at halive)).other hn ω input

/-! ### The announcement -/

/-- **What the handled announcement `m` leaves** at the leader of `s`, which was in the world `w`
before it. -/
structure Settled (cfg : Config) (s : Shard) (m : NotifyReplicateResult) (w w' : GlobalState) :
    Prop where
  alive : w'.crashed (cfg.leaderNode s) = false
  applied : ∃ ts, (cfg.leaderNode s, Event.applied m.tid .commit ts) ∈ w'.history
  /-- The writes that were not installed yet are installed now. -/
  installed : (∀ ts, (cfg.leaderNode s, Event.applied m.tid .commit ts) ∉ w.history) →
    (w'.replica s (cfg.leader s)).store.kv = (w.replica s (cfg.leader s)).store.kv.install
      (writesAt w.history m.tid s) m.tid m.timestamp ∧
    (w'.replica s (cfg.leader s)).activeTxns.lookup m.tid = none
  told : Replica.Told ⟨cfg, s, cfg.leader s⟩ m.tid w'.net
  pending : (w'.replica s (cfg.leader s)).pendingTxns.lookup m.tid = none
  active : ((w'.replica s (cfg.leader s)).activeTxns.lookup m.tid).join = none
  prepared : (w'.replica s (cfg.leader s)).store.prepared.lookup m.tid = none

/-- The announcement of a transaction means that the leader of every participant validated it. -/
theorem Config.announced_validated (hmode : cfg.mode = .parallel) (hw : cfg.system.Reach C w)
    {src dst : Addr} {m : NotifyReplicateResult}
    (hp : ⟨src, dst, .notifyReplicateResult m⟩ ∈ w.net) {st : Start}
    (hst : startOf w.history m.tid = some st) (hs : s ∈ st.participants) :
    Validated cfg w.history s m.tid := by
  have hany : cfg.system.Reach anyStep w := hw.mono fun _ _ _ _ _ => trivial
  obtain ⟨_, c, hc⟩ : PacketOk cfg w.history ⟨src, dst, .notifyReplicateResult m⟩ :=
    (Config.invariant (.inr (.inl hmode)) hany).2 _ hp
  obtain ⟨st', hst', _, _, hall⟩ := announcement_durable hmode hany hc
  obtain rfl := Option.some.inj (hst'.symm.trans hst)
  exact (hall s hs).1

/-- The writes the leader validated are those the client buffered. -/
theorem Config.validated_writes (hdir : cfg.Direct) (hw : cfg.system.Reach C w)
    {wset : Table Key Value} (hv : (cfg.leaderNode s, Event.validated tid wset) ∈ w.history) :
    wset = writesAt w.history tid s := by
  have hr : ReplicaOk cfg s (cfg.leader s) w.history (w.replica s (cfg.leader s)) :=
    (Config.invariant hdir hw).1 (cfg.leaderNode s)
  obtain ⟨st, hst, _, hwset⟩ : Piece w.history tid s wset := hr.events _ hv
  rw [writesAt, hst, hwset]
  rfl

/-- **The announcement settles the transaction**, in whichever order its prepare and the request
for its outcome arrived, unless a step disturbed it: the writes are installed, the followers are
told, and the tables are cleared. -/
theorem announcement_settles (hmode : cfg.mode = .parallel) (hload : cfg.Loaded)
    {m : NotifyReplicateResult} (hw : cfg.system.Reach (undisturbed cfg s m.tid) w)
    {src dst : Addr} {ω : Choice}
    (hen : cfg.system.Enabled w (cfg.leaderNode s) (.recv ⟨src, dst, .notifyReplicateResult m⟩))
    (hcond : undisturbed cfg s m.tid w (cfg.leaderNode s) ω
      (.recv ⟨src, dst, .notifyReplicateResult m⟩))
    {st : Start} (hst : startOf w.history m.tid = some st) (hs : s ∈ st.participants) :
    Settled cfg s m w (cfg.system.next w (cfg.leaderNode s) ω
      (.recv ⟨src, dst, .notifyReplicateResult m⟩)) := by
  have hdir : cfg.Direct := .inr (.inl hmode)
  have hno := hcond rfl
  cases Config.staged hmode hload hw hen.1 with
  | unheard _ hval => exact absurd (Config.announced_validated hmode hw hen.2.1 hst hs) hval
  | held wset hr hmem =>
      have hlive : Replica.ReadersLive m.tid (w.replica s (cfg.leader s)) := by
        by_contra hnull
        refine hno (.inr (.inr (.inr (.inr ⟨rfl, ?_, hnull⟩))))
        obtain ⟨req, hreq, hjoined⟩ := hr.pending
        rw [Replica.participates, hreq]
        exact hjoined.takesPart
      have hwp : wp (Replica.handleInput ⟨cfg, s, cfg.leader s⟩ ω
          (.recv ⟨src, dst, .notifyReplicateResult m⟩))
          (fun _ => Replica.Closes ⟨cfg, s, cfg.leader s⟩ m.tid m.timestamp
            { state := w.replica s (cfg.leader s) })
          (fun _ => ¬ Replica.ReadersLive m.tid (w.replica s (cfg.leader s)))
          { state := w.replica s (cfg.leader s) } := hr.announced hmode rfl
      obtain ⟨y, ⟨halive, hclose⟩ | ⟨_, hnull⟩, hstate, hnet, hhist⟩ := Config.replica_outcome hwp
      · obtain ⟨happlied, htold⟩ := hclose.done hnet hhist
        obtain ⟨txn, htxn, hwset⟩ := Option.map_eq_some_iff.1 hr.stored.entry
        have hkv := TxnStore.kv_commit (w.replica s (cfg.leader s)).store m.tid m.timestamp
        rw [htxn] at hkv
        have hinstalled : y.state.store.kv = (w.replica s (cfg.leader s)).store.kv.install
            (writesAt w.history m.tid s) m.tid m.timestamp := by
          rw [hclose.store, ← Config.validated_writes hdir hw hmem, ← hwset]
          exact hkv
        have hactive : (y.state.activeTxns.lookup m.tid).join = none := by
          rw [hclose.active]
          rfl
        have hprepared : y.state.store.prepared.lookup m.tid = none := by
          rw [hclose.store]
          exact hr.stored.commit_prepared m.timestamp
        exact ⟨halive, happlied, fun _ => ⟨hstate.symm ▸ hinstalled, hstate.symm ▸ hclose.active⟩,
          htold, hstate.symm ▸ hclose.pending, hstate.symm ▸ hactive, hstate.symm ▸ hprepared⟩
      · exact absurd hlive hnull
  | closed hr hend =>
      have hwp : wp (Replica.handleInput ⟨cfg, s, cfg.leader s⟩ ω
          (.recv ⟨src, dst, .notifyReplicateResult m⟩))
          (fun _ y => Replica.Closed m.tid y.state ∧ y.state.pendingTxns.lookup m.tid = none)
          (fun _ => False) { state := w.replica s (cfg.leader s) } := hr.announced rfl
      obtain ⟨y, ⟨halive, hclosed, hgone⟩ | ⟨_, hfalse⟩, hstate, _, _⟩ :=
        Config.replica_outcome hwp
      · obtain ⟨happlied, htold⟩ := hend.next (cfg.leaderNode s) ω
          (.recv ⟨src, dst, .notifyReplicateResult m⟩)
        refine ⟨halive, happlied, fun hnever => ?_, htold, hstate.symm ▸ hgone,
          hstate.symm ▸ hclosed.active, hstate.symm ▸ hclosed.prepared⟩
        obtain ⟨ts, hts⟩ := hend.applied
        exact absurd hts (hnever ts)
      · exact hfalse.elim

/-- Sends succeed, nothing aborts, nobody has read the writes, and the request for the outcome and
the end of the concurrency control come when they are expected. -/
def quietInput (r : Replica) (tid : TxnId) (ω : Choice) (input : Input Addr Msg Act) : Bool :=
  ω.sendOk 0 && match input with
    | .recv ⟨_, _, .parallelModeCommit m⟩ => decide (m.tid = tid →
        (r.pendingTxns.lookup tid).isSome ∨ (r.committedTxns.lookup tid).isSome)
    | .recv ⟨_, _, .notifyDecision m⟩ => decide (m.tid = tid → r.committedTxns.lookup tid = none)
    | .recv ⟨_, _, .commit m⟩ => decide (m.state = .commit)
    | .recv ⟨_, _, .notifyReplicateResult _⟩ =>
        decide (((r.activeTxns.lookup tid).join.map Transaction.out).getD ∅ = ∅)
    | _ => true

def quiet (cfg : Config) (s : Shard) (tid : TxnId) : StepCond := fun (w : GlobalState) n ω input =>
  n = cfg.leaderNode s → quietInput (w.replica s (cfg.leader s)) tid ω input = true

instance (cfg : Config) (s : Shard) (tid : TxnId) (w : GlobalState) (n : Node) (ω : Choice)
    (input : Input Addr Msg Act) : Decidable (quiet cfg s tid w n ω input) :=
  inferInstanceAs (Decidable (_ → _))

theorem quiet.undisturbed {n : Node} {ω : Choice} {input : Input Addr Msg Act}
    (h : quiet cfg s tid w n ω input) : undisturbed cfg s tid w n ω input := by
  intro hn hdisturbs
  obtain ⟨hok, hquiet⟩ := (Bool.and_eq_true _ _).mp (h hn)
  have hsent : ω.sendOk 0 ≠ false := by
    rw [hok]
    decide
  rcases hdisturbs with hover | hup | htwice | hsweep | hstumble
  · cases input with
    | act a => exact hover
    | recv p =>
        obtain ⟨src, dst, msg⟩ := p
        cases msg with
        | parallelModeCommit m =>
            obtain ⟨hm, hpend, hcom⟩ := hover
            have hseen := of_decide_eq_true hquiet hm
            rw [hpend, hcom] at hseen
            rcases hseen with h | h <;> cases h
        | _ => exact hover
  · cases input with
    | act a =>
        cases a with
        | client a => exact hup
        | timer t =>
            cases t with
            | pendingTxn d => exact hsent hup.2.1
            | pendingPrepare d => exact hup
    | recv p =>
        obtain ⟨src, dst, msg⟩ := p
        cases msg with
        | prepareTransaction m => exact hsent hup.2.1
        | replicateTransactionReply m => exact hsent hup.2.1
        | _ => exact hup
  · cases input with
    | act a => exact htwice
    | recv p =>
        obtain ⟨src, dst, msg⟩ := p
        cases msg with
        | notifyDecision m =>
            obtain ⟨hm, _, hcom⟩ := htwice
            rw [of_decide_eq_true hquiet hm] at hcom
            cases hcom
        | _ => exact htwice
  · cases input with
    | act a => exact hsweep
    | recv p =>
        obtain ⟨src, dst, msg⟩ := p
        cases msg with
        | commit m => exact hsweep.1 (of_decide_eq_true hquiet)
        | _ => exact hsweep
  · cases input with
    | act a => exact hstumble
    | recv p =>
        obtain ⟨src, dst, msg⟩ := p
        cases msg with
        | notifyReplicateResult m =>
            obtain ⟨_, _, hnull⟩ := hstumble
            refine hnull fun txn htxn out hout => ?_
            have hnone := of_decide_eq_true hquiet
            rw [htxn] at hnone
            rw [show txn.out = ∅ from hnone] at hout
            exact absurd hout (by simp)
        | _ => exact hstumble

/-- The prepare, the vote and the announcement, and then the request for the outcome. -/
def requestLast : Commands := parallelVote ++ [deliver 1]

theorem requestLast_runs :
    ((threeReplicas .parallel 1).run (quiet (threeReplicas .parallel 1) 0 7)
      requestLast).isSome := by
  decide +kernel

/-- The announcement of transaction 7, as the coordinator sends it. -/
def announcement7 : Pkt :=
  ⟨.sendOnly, .replica 0 0,
    .notifyReplicateResult { tid := 7, replicateSuccess := true, timestamp := 0 }⟩

/-- The announcement arrives when the leader knows of the request for the outcome. -/
theorem requestLast_settled :
    ∃ w w' : GlobalState,
      (threeReplicas .parallel 1).system.Reach (undisturbed (threeReplicas .parallel 1) 0 7) w ∧
      (w.replica 0 0).pendingTxns.lookup 7 ≠ none ∧
      (w'.replica 0 0).pendingTxns.lookup 7 = none ∧
      (w'.replica 0 0).store.prepared.lookup 7 = none ∧
      ∃ ts, (Node.replica 0 0, Event.applied 7 .commit ts) ∈ w'.history := by
  have hstart : (startOf (((threeReplicas .parallel 1).run (quiet (threeReplicas .parallel 1) 0 7)
      requestLast).get requestLast_runs).history 7).map Start.participants = some [0] := by
    decide +kernel
  have hpend : (GlobalState.replica (((threeReplicas .parallel 1).run
      (quiet (threeReplicas .parallel 1) 0 7) requestLast).get requestLast_runs)
        0 0).pendingTxns.lookup 7 ≠ none := by
    decide +kernel
  have hsent : announcement7 ∈ (((threeReplicas .parallel 1).run
      (quiet (threeReplicas .parallel 1) 0 7) requestLast).get requestLast_runs).net := by
    decide +kernel
  have halive : (((threeReplicas .parallel 1).run (quiet (threeReplicas .parallel 1) 0 7)
      requestLast).get requestLast_runs).crashed (.replica 0 0) = false := by
    decide +kernel
  have hquiet : quiet (threeReplicas .parallel 1) 0 7 (((threeReplicas .parallel 1).run
      (quiet (threeReplicas .parallel 1) 0 7) requestLast).get requestLast_runs) (.replica 0 0) {}
        (.recv announcement7) := by
    decide +kernel
  have hreach := (Config.reach_run requestLast_runs).mono fun _ _ _ _ => quiet.undisturbed
  obtain ⟨st, hst, hpart⟩ := Option.map_eq_some_iff.1 hstart
  have hsettled := announcement_settles (s := 0) rfl (fun _ _ => ⟨rfl, rfl⟩) hreach
    ⟨halive, hsent, rfl⟩ hquiet.undisturbed hst (hpart ▸ List.mem_singleton_self 0)
  exact ⟨_, _, hreach, hpend, hsettled.pending, hsettled.prepared, hsettled.applied⟩

/-! ### The request that overtakes the prepare -/

/-- The request for the outcome comes first, the prepare second, and then the announcement. -/
def requestFirst : Commands :=
  [act 7 (.put "a" "1"), act 7 .commit, act 7 (.task 0), act 7 (.task 0), deliver 1, deliver 0,
    deliver 3, deliver 4, deliver 7, deliver 9, deliver 11, deliver 12]

theorem requestFirst_runs : ((threeReplicas .parallel 1).run anyStep requestFirst).isSome := by
  decide +kernel

/-- **The writes are lost.** The announcement of a transaction whose prepare was overtaken by the
request for its outcome takes the placeholder away and leaves everything else. -/
theorem overtaken_not_settled :
    ∃ (w : GlobalState) (m : NotifyReplicateResult) (src dst : Addr),
      (threeReplicas .parallel 1).run anyStep requestFirst = some w ∧
      (threeReplicas .parallel 1).system.Reach anyStep w ∧
      (threeReplicas .parallel 1).system.Enabled w (.replica 0 0)
        (.recv ⟨src, dst, .notifyReplicateResult m⟩) ∧
      (∃ st, startOf w.history m.tid = some st ∧ st.primary = 0 ∧ 0 ∈ st.participants) ∧
      (GlobalState.replica ((threeReplicas .parallel 1).system.next w (.replica 0 0) {}
        (.recv ⟨src, dst, .notifyReplicateResult m⟩)) 0 0).store.kv.get "a" = none ∧
      ¬ Settled (threeReplicas .parallel 1) 0 m w ((threeReplicas .parallel 1).system.next w
        (.replica 0 0) {} (.recv ⟨src, dst, .notifyReplicateResult m⟩)) := by
  have hstart : (startOf (((threeReplicas .parallel 1).run anyStep
      requestFirst).get requestFirst_runs).history 7).map
        (fun st => (st.participants, st.primary)) = some ([0], 0) := by
    decide +kernel
  have hsent : announcement7 ∈ (((threeReplicas .parallel 1).run anyStep
      requestFirst).get requestFirst_runs).net := by
    decide +kernel
  have halive : (((threeReplicas .parallel 1).run anyStep requestFirst).get
      requestFirst_runs).crashed (.replica 0 0) = false := by
    decide +kernel
  have hlost : (GlobalState.replica ((threeReplicas .parallel 1).system.next
      (((threeReplicas .parallel 1).run anyStep requestFirst).get requestFirst_runs)
        (.replica 0 0) {} (.recv announcement7)) 0 0).store.kv.get "a" = none := by
    decide +kernel
  have hprepared : (GlobalState.replica ((threeReplicas .parallel 1).system.next
      (((threeReplicas .parallel 1).run anyStep requestFirst).get requestFirst_runs)
        (.replica 0 0) {} (.recv announcement7)) 0 0).store.prepared.lookup 7 ≠ none := by
    decide +kernel
  obtain ⟨st, hst, hshape⟩ := Option.map_eq_some_iff.1 hstart
  obtain ⟨hpart, hprim⟩ := Prod.mk.inj hshape
  exact ⟨_, _, _, _, (Option.some_get requestFirst_runs).symm, Config.reach_run requestFirst_runs,
    ⟨halive, hsent, rfl⟩, ⟨st, hst, hprim, hpart ▸ List.mem_singleton_self 0⟩, hlost,
    fun hsettled => hprepared hsettled.prepared⟩

end D2PC
