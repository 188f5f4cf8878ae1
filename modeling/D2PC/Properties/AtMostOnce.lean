import D2PC.Properties.Atomicity

/-!
# A leader applies a transaction at most once

In the fast mode the outcome of a transaction reaches its leader with a `Commit` of the
client. The leader then moves the transaction from `pendingTxns` to `committedTxns`, and from
there on every message about it finds it decided.

* `Replica.handleInput_finished` : no message about a finished transaction changes the store,
  the log, `pendingTxns` or `activeTxns`;
* `Replica.handleCommit_finishes` : a `Commit` applies the transaction once and finishes it;
* `applied_at_most_once` : both, in every run.
-/

namespace D2PC

open Protocol Prog Ctx

/-- The event is an application of the transaction to the store. -/
def Event.applies (tid : TxnId) : Event → Bool
  | .applied t _ _ => decide (t = tid)
  | _ => false

namespace Replica

variable {env : ReplicaEnv} {ω : Choice} {x₀ x : Ctx Replica Addr Msg Event} {T tid : TxnId}
  {C A : Prop}

/-! ### Stores without pre-commits -/

/-- Outside the parallel mode nothing is pre-committed. -/
theorem Ops.precommitted (h : Ops env T C A x₀ x) (hmode : env.cfg.mode ≠ .parallel)
    (hx₀ : tid ∉ x₀.state.store.precommitted) : tid ∉ x.state.store.precommitted := by
  have herase : ∀ {t : Table TxnId Transaction} {d : TxnId}, tid ∉ t → tid ∉ t.erase d :=
    fun hnot hmem => hnot (AList.mem_erase.1 hmem).2
  induction h with
  | refl => exact hx₀
  | tail _ hop ih =>
      cases hop with
      | prepare clock m doCheck =>
          obtain ⟨p, q, htables, _, hq⟩ :=
            TxnStore.prepare_tables _ clock T (Transaction.ofMessage m) doCheck
          show tid ∉ (TxnStore.prepare clock T (Transaction.ofMessage m) doCheck _).2.precommitted
          rw [htables.precommitted]
          rcases hq with rfl | rfl
          · exact ih
          · exact herase ih
      | preCommit hpar => exact absurd hpar hmode
      | commit hC ts =>
          show tid ∉ (TxnStore.commit T ts _).precommitted
          rw [TxnStore.commit_precommitted]
          exact herase ih
      | abort hA ts =>
          show tid ∉ (TxnStore.abort T _).precommitted
          rw [TxnStore.abort_precommitted]
          exact herase ih
      | cascade hA d hd =>
          show tid ∉ (TxnStore.abort d _).precommitted
          rw [TxnStore.abort_precommitted]
          exact herase ih
      | replicate hfollower s hs =>
          show tid ∉ s.precommitted
          rcases hs with rfl | ⟨ts, rfl⟩
          · rw [TxnStore.abort_precommitted]
            exact herase ih
          · rw [TxnStore.commit_precommitted]
            exact herase ih
      | _ => exact ih

/-! ### Steps for other transactions -/

/-- A transaction that was decided here and is not pending any more. -/
structure Finished (tid : TxnId) (r : Replica) : Prop where
  committed : tid ∈ r.committedTxns
  pending : r.pendingTxns.lookup tid = none
  prepared : r.store.prepared.lookup tid = none

theorem Ops.finished (h : Ops env T C A x₀ x) (hne : tid ≠ T) (hx₀ : Finished tid x₀.state) :
    Finished tid x.state := by
  induction h with
  | refl => exact hx₀
  | tail _ hop ih =>
      cases hop with
      | pending t ht => exact ⟨ih.committed, (ht tid hne).trans ih.pending, ih.prepared⟩
      | committed t ht =>
          refine ⟨?_, ih.pending, ih.prepared⟩
          show tid ∈ t
          rw [← AList.lookup_isSome, ht tid hne, AList.lookup_isSome]
          exact ih.committed
      | prepare clock m doCheck =>
          refine ⟨ih.committed, ih.pending, ?_⟩
          exact ((TxnStore.prepare_others _ clock T _ doCheck).prepared tid hne).trans ih.prepared
      | preCommit hpar req hreq =>
          exact ⟨ih.committed, ih.pending, TxnStore.preCommit_prepared_none ih.prepared req.tid⟩
      | commit hC ts =>
          exact ⟨ih.committed, ih.pending, TxnStore.commit_prepared_none ih.prepared T ts⟩
      | abort hA ts => exact ⟨ih.committed, ih.pending, TxnStore.abort_prepared_none ih.prepared T⟩
      | cascade hA d hd =>
          exact ⟨ih.committed, ih.pending, TxnStore.abort_prepared_none ih.prepared d⟩
      | replicate hfollower s hs =>
          refine ⟨ih.committed, ih.pending, ?_⟩
          rcases hs with rfl | ⟨ts, rfl⟩
          · exact TxnStore.abort_prepared_none ih.prepared T
          · exact TxnStore.commit_prepared_none ih.prepared T ts
      | _ => exact ⟨ih.committed, ih.pending, ih.prepared⟩

/-- Only the decision on a transaction applies it. -/
theorem Ops.applies (h : Ops env T C A x₀ x) (hno : tid = T → ¬ C ∧ ¬ A) :
    x.events.countP (Event.applies tid) = x₀.events.countP (Event.applies tid) := by
  induction h with
  | refl => rfl
  | tail _ hop ih =>
      rw [← ih]
      cases hop with
      | event e he =>
          rw [List.countP_append, List.countP_singleton]
          cases e with
          | applied => exact he.elim
          | _ => rfl
      | commit hC ts =>
          rw [List.countP_append, List.countP_singleton, if_neg, Nat.add_zero]
          intro heq
          exact (hno (of_decide_eq_true heq).symm).1 hC
      | abort hA ts =>
          rw [List.countP_append, List.countP_singleton, if_neg, Nat.add_zero]
          intro heq
          exact (hno (of_decide_eq_true heq).symm).2 hA
      | cascade hA d hd =>
          rw [List.countP_append, List.countP_singleton]
          rfl
      | _ => rfl

/-! ### Steps for a finished transaction -/

/-- The store, the log and the tables of transactions are as they were, and nothing was
recorded. -/
structure Untouched (x y : Ctx Replica Addr Msg Event) : Prop where
  store : y.state.store = x.state.store
  log : y.state.log = x.state.log
  pending : y.state.pendingTxns = x.state.pendingTxns
  active : y.state.activeTxns = x.state.activeTxns
  committed : y.state.committedTxns = x.state.committedTxns
  events : y.events = x.events

theorem Untouched.refl (x : Ctx Replica Addr Msg Event) : Untouched x x :=
  ⟨rfl, rfl, rfl, rfl, rfl, rfl⟩

theorem Untouched.finished {y : Ctx Replica Addr Msg Event} (h : Untouched x y)
    (hx : Finished tid x.state) : Finished tid y.state := by
  refine ⟨?_, ?_, ?_⟩
  · rw [h.committed]
    exact hx.committed
  · rw [h.pending]
    exact hx.pending
  · rw [h.store]
    exact hx.prepared

/-- Outside the parallel mode a read changes nothing. -/
theorem readKeys_untouched (hmode : env.cfg.mode ≠ .parallel) (keys : List Key) :
    wp (readKeys env tid keys) (fun _ => (· = x)) (· = x) x := by
  induction keys with
  | nil => exact rfl
  | cons key keys ih =>
      simp only [readKeys, readKey, wp_bind, wp_read, wp_ite, wp_pure, hmode, false_and,
        false_implies, true_and, not_false_eq_true, true_implies]
      refine ⟨fun _ => ?_, fun _ => trivial⟩
      exact wp_mono (fun _ y hy => hy) (fun _ hy => hy) ih

theorem handlePrepareTxn_finished (hfin : Finished tid x.state) {msg : PrepareTransaction}
    (hT : msg.tid = tid) (hdirect : msg.mode ≠ .slow ∧ msg.mode ≠ .rc) (remote : Addr) :
    wp (handlePrepareTxn env ω remote msg) (fun _ => Untouched x) (Untouched x) x := by
  subst hT
  obtain ⟨⟨state, timestamp⟩, hcommitted⟩ :=
    Option.isSome_iff_exists.1 (AList.lookup_isSome.2 hfin.committed)
  have hmode : ∀ P, ¬ ((msg.mode = .slow ∨ msg.mode = .rc) ∧ P) := fun P h =>
    h.1.elim hdirect.1 hdirect.2
  simp only [handlePrepareTxn, wp_bind, wp_read, if_neg (hmode _), wp_ite, wp_update]
  refine ⟨fun _ => ⟨rfl, rfl, rfl, rfl, rfl, rfl⟩, fun _ => ?_⟩
  rw [hcommitted]
  simp only [answerPrepare, wp_ite, wp_sendMessageToShard, wp_sendMessage]
  exact ⟨fun _ => ⟨rfl, rfl, rfl, rfl, rfl, rfl⟩, fun _ => ⟨rfl, rfl, rfl, rfl, rfl, rfl⟩⟩

/-- **A finished transaction stays finished.** Whatever arrives about it in the fast mode, and
whichever of its timers fires, the leader's store, log and tables do not change. The leader's
own replication message finds its entry in the log. -/
theorem handleInput_finished (hmode : env.cfg.mode = .fast) (hlead : env.isLeader = true)
    {input : Input Addr Msg Act} (hfin : Finished (inputTxn input) x.state)
    (hprep : ∀ tid, x.state.pendingPrepares.lookup tid = none)
    (hinput : DirectInput env.cfg input)
    (hlog : ∀ src dst m, input = .recv ⟨src, dst, .replicateTransaction m⟩ →
      (x.state.log.find m.txnLog.lsn).isSome)
    (hpar : ∀ src dst m, input ≠ .recv ⟨src, dst, .parallelModeCommit m⟩) :
    wp (handleInput env ω input) (fun _ => Untouched x) (Untouched x) x := by
  have hnotpar : env.cfg.mode ≠ .parallel := by rw [hmode]; decide
  have hrefl := Untouched.refl x
  cases input with
  | act a =>
      cases a with
      | client a => exact hrefl
      | timer t =>
          cases t with
          | pendingTxn tid =>
              have hnone : x.state.pendingTxns.lookup tid = none := hfin.pending
              simp only [handleInput, handleTimer, wp_bind, wp_read, hnone]
              exact hrefl
          | pendingPrepare tid =>
              simp only [handleInput, handleTimer, wp_bind, wp_read, hprep]
              exact hrefl
  | recv p =>
      obtain ⟨src, dst, msg⟩ := p
      cases msg with
      | prepareTransaction m => exact handlePrepareTxn_finished hfin rfl hinput src
      | prepareTransactionReply m =>
          simp only [handleInput, handleMessage, handlePrepareTransactionReply, wp_bind, wp_read,
            hprep]
          exact hrefl
      | replicateTransaction m =>
          have hsome : (x.state.log.find m.txnLog.lsn).isNone ≠ true := by
            obtain ⟨e, he⟩ := Option.isSome_iff_exists.1 (hlog src dst m rfl)
            rw [he]
            exact Bool.false_ne_true
          rw [handleInput, handleMessage, handleReplicateTransaction, wp_bind, wp_update, wp_bind,
            wp_read, wp_bind, wp_when]
          refine ⟨fun hnone => absurd hnone hsome, fun _ => ?_⟩
          simp only [wp_bind, wp_sendMessage, wp_when, wp_sendMessageToCoordinator]
          exact ⟨fun _ => ⟨rfl, rfl, rfl, rfl, rfl, rfl⟩, fun _ => ⟨rfl, rfl, rfl, rfl, rfl, rfl⟩⟩
      | replicateTransactionReply m =>
          have hnone : x.state.pendingTxns.lookup m.txnId = none := hfin.pending
          simp only [handleInput, handleMessage, handleReplicateTransactionReply, wp_bind, wp_read,
            hnone]
          exact hrefl
      | commit m =>
          have hnone : x.state.pendingTxns.lookup m.tid = none := hfin.pending
          simp only [handleInput, handleMessage, handleCommit, wp_bind, wp_read, hnone]
          exact hrefl
      | replicateCommit m =>
          have hrc : env.cfg.mode ≠ .rc := by rw [hmode]; decide
          simp only [handleInput, handleMessage, handleReplicateCommit, wp_ite, hlead, hrc, ne_eq,
            not_false_eq_true, and_self, wp_pure]
          exact ⟨fun _ => hrefl, fun hfalse => absurd trivial hfalse⟩
      | getData m =>
          simp only [handleInput, handleMessage, handleRead, wp_bind, wp_sendMessage]
          refine wp_mono (fun _ y hy => ?_) (fun y hy => ?_) (readKeys_untouched hnotpar m.keys)
          · rw [hy]
            exact ⟨rfl, rfl, rfl, rfl, rfl, rfl⟩
          · rw [hy]
            exact hrefl
      | notifyDecision m => exact absurd hinput hnotpar
      | notifyReplicateResult m =>
          have hnone : m.tid ∉ x.state.pendingTxns := AList.lookup_eq_none.1 hfin.pending
          simp only [handleInput, handleMessage, wp, result_not_pending hnone]
          exact hrefl
      | parallelModeCommit m => exact absurd rfl (hpar src dst m)
      | _ => exact hrefl

/-! ### The step that decides -/

/-- Applied at most once in this step, and then no longer prepared. -/
def OnceApplied (tid : TxnId) (x : Ctx Replica Addr Msg Event) : Prop :=
  x.events.countP (Event.applies tid) = 0 ∨
    (x.events.countP (Event.applies tid) = 1 ∧ x.state.store.prepared.lookup tid = none)

/-- What the rest of the handler may do to the store: only abort. -/
structure Drops (tid : TxnId) (x x' : Ctx Replica Addr Msg Event) : Prop where
  prepared : x.state.store.prepared.lookup tid = none → x'.state.store.prepared.lookup tid = none
  events : x'.events.countP (Event.applies tid) = x.events.countP (Event.applies tid)

theorem Drops.refl (x : Ctx Replica Addr Msg Event) : Drops tid x x := ⟨id, rfl⟩

theorem Drops.onceApplied {y : Ctx Replica Addr Msg Event} (hd : Drops tid x y)
    (hx : OnceApplied tid x) : OnceApplied tid y := by
  rcases hx with hzero | ⟨hone, hnone⟩
  · exact .inl (hd.events.trans hzero)
  · exact .inr ⟨hd.events.trans hone, hd.prepared hnone⟩

theorem applyToStore_once {msg : CommitMsg} (hT : msg.tid = tid)
    (hzero : x.events.countP (Event.applies tid) = 0)
    (hpre : tid ∉ x.state.store.precommitted) :
    wp (applyToStore msg) (fun _ => OnceApplied tid) (OnceApplied tid) x := by
  subst hT
  have hstore : ∀ f, (mapPending msg.tid f x.state).store = x.state.store := by
    intro f
    unfold mapPending
    split <;> rfl
  have hcount : ∀ state, (x.events ++ [Event.applied msg.tid state msg.timestamp]).countP
      (Event.applies msg.tid) = 1 := by
    intro state
    rw [List.countP_append, hzero]
    simp [Event.applies]
  refine wp_applyToStore (I := fun y => y.events = x.events ∧ y.state.store = x.state.store)
    ⟨rfl, hstore _⟩ (fun _ hz _ => hz) ?_ ?_ (fun _ z hz => ?_) (fun _ _ z hz => ?_)
  · rintro - z ⟨hevents, hsame⟩
    refine .inr ⟨hevents ▸ hcount .commit, ?_⟩
    show (TxnStore.commit msg.tid msg.timestamp z.state.store).prepared.lookup msg.tid = none
    rw [hsame, TxnStore.commit_prepared hpre]
    exact AList.lookup_erase msg.tid _
  · rintro - z ⟨hevents, hsame⟩
    refine .inr ⟨hevents ▸ hcount .abort, ?_⟩
    show (TxnStore.abort msg.tid z.state.store).prepared.lookup msg.tid = none
    rw [hsame, TxnStore.abort_prepared hpre]
    exact AList.lookup_erase msg.tid _
  · exact .inl (by rw [hz.1, hzero])
  · exact .inl (by rw [hz.1, hzero])

theorem carryOut_once {msg : CommitMsg} (hT : msg.tid = tid) (req : PendingTransaction)
    (hzero : x.events.countP (Event.applies tid) = 0)
    (hpre : tid ∉ x.state.store.precommitted) :
    wp (carryOut env ω msg req) (fun _ => OnceApplied tid) (OnceApplied tid) x := by
  have hnotify : wp (notifyCommitToReplica env ω req msg)
      (fun _ y => y.events = x.events ∧ y.state.store = x.state.store)
      (fun y => y.events = x.events ∧ y.state.store = x.state.store) x := by
    simp only [notifyCommitToReplica, wp_bind, wp_update, wp_ite, wp_sendMessageToAll, wp_when,
      wp_modifyPending]
    refine ⟨fun _ => wp_forM (fun _ _ y hy => hy) ⟨rfl, rfl⟩, fun _ => ⟨fun _ => ?_,
      fun _ => ⟨trivial, trivial⟩⟩⟩
    refine ⟨trivial, ?_⟩
    unfold mapPending
    split <;> rfl
  simp only [carryOut, wp_bind, wp_when]
  refine ⟨fun _ => ?_, fun _ => ⟨fun _ => applyToStore_once hT hzero hpre, fun _ => .inl hzero⟩⟩
  refine wp_mono (fun _ y hy => ⟨fun _ => applyToStore_once hT ?_ ?_, fun _ => .inl ?_⟩)
    (fun y hy => .inl ?_) hnotify
  · rw [hy.1, hzero]
  · rw [hy.2]
    exact hpre
  · rw [hy.1, hzero]
  · rw [hy.1, hzero]

/-- A cascade only aborts, and records it. -/
theorem cascadeAbort_keeps {I : TxnStore → List Event → Prop}
    (hI : ∀ st es d, I st es → I (st.abort d) (es ++ [.cascaded d])) (fuel : ℕ) :
    ∀ (d : TxnId) {y : Ctx Replica Addr Msg Event}, I y.state.store y.events →
      wp (cascadeAbort env fuel d) (fun _ z => I z.state.store z.events)
        (fun z => I z.state.store z.events) y := by
  induction fuel with
  | zero => exact fun d y hy => hy
  | succ fuel ih =>
      intro d y hy
      have hy₁ := hI _ _ d hy
      simp only [cascadeAbort, wp_bind, wp_withStore, wp_emit, wp_read]
      split
      · exact hy₁
      · simp only [wp_bind, wp_derefActive]
        refine ⟨fun txn _ => wp_forM (fun out _ z hz => ?_) hy₁, fun _ => hy₁, fun _ => hy₁⟩
        simp only [wp_bind, wp_read]
        split
        · simp only [wp_bind, wp_sendMessageToCoordinators]
          exact ih out hz
        · exact hz

/-- What follows the decision only aborts. -/
theorem settleDependents_keeps {I : TxnStore → List Event → Prop}
    (hI : ∀ st es d, I st es → I (st.abort d) (es ++ [.cascaded d])) (msg : CommitMsg)
    (hx : I x.state.store x.events) :
    wp (settleDependents env msg) (fun _ z => I z.state.store z.events)
      (fun z => I z.state.store z.events) x := by
  simp only [settleDependents, wp_ite, wp_bind, wp_read]
  refine ⟨fun _ => ?_, fun _ => cascadeAbort_keeps hI _ msg.tid hx⟩
  simp only [notifyForFollowingDependenies, wp_bind, wp_read]
  split
  · exact hx
  · simp only [wp_bind, wp_derefActive]
    refine ⟨fun txn _ => wp_forM (fun out _ z hz => ?_) hx, fun _ => hx, fun _ => hx⟩
    simp only [wp_bind, wp_read]
    split
    · have hstore : ∀ f, (Replica.mapActive out f z.state).store = z.state.store := by
        intro f
        unfold Replica.mapActive
        split <;> rfl
      simp only [wp_bind, wp_deref, wp_modifyActive, wp_when, wp_sendMessageToCoordinator, hstore]
      exact ⟨fun outTxn _ => ⟨fun _ => hz, fun _ => hz⟩, fun _ => hz⟩
    · exact hz

theorem settleDependents_drops (msg : CommitMsg) :
    wp (settleDependents env msg) (fun _ => Drops tid x) (Drops tid x) x := by
  refine wp_mono (fun _ z hz => ⟨hz.1, hz.2⟩) (fun z hz => ⟨hz.1, hz.2⟩)
    (settleDependents_keeps (I := fun st es =>
      (x.state.store.prepared.lookup tid = none → st.prepared.lookup tid = none) ∧
        es.countP (Event.applies tid) = x.events.countP (Event.applies tid)) ?_ msg ⟨id, rfl⟩)
  rintro st es d ⟨hnone, hcount⟩
  refine ⟨fun h => TxnStore.abort_prepared_none (hnone h) d, ?_⟩
  rw [List.countP_append, hcount]
  rfl

/-- **A `Commit` finishes the transaction** it applies; if the process dies on the way, the
transaction was applied at most once all the same. -/
theorem handleCommit_finishes (env : ReplicaEnv) (ω : Choice) {msg : CommitMsg}
    (hT : msg.tid = tid)
    (hzero : x.events.countP (Event.applies tid) = 0)
    (hpre : tid ∉ x.state.store.precommitted) :
    wp (handleCommit env ω msg)
      (fun _ y => y.events.countP (Event.applies tid) = 0 ∨
        (y.events.countP (Event.applies tid) = 1 ∧ Finished tid y.state))
      (OnceApplied tid) x := by
  subst hT
  simp only [handleCommit, wp_bind, wp_read]
  split
  · exact .inl hzero
  · rename_i req hreq
    simp only [wp_bind, wp_update, wp_eraseClient, commitPending, wp_ite, wp_erasePending, wp_read,
      wp_deref]
    refine ⟨fun _ => .inl hzero, fun _ => ⟨fun e _ => ?_, fun _ => .inl hzero⟩⟩
    have hretire : ∀ {y : Ctx Replica Addr Msg Event} (txn : Option Transaction),
        OnceApplied msg.tid y → wp (retire env msg txn)
          (fun _ z => z.events.countP (Event.applies msg.tid) = 0 ∨
            (z.events.countP (Event.applies msg.tid) = 1 ∧ Finished msg.tid
              { z.state with clientList := z.state.clientList.erase msg.tid }))
          (OnceApplied msg.tid) y := by
      intro y txn hy
      simp only [retire, wp_bind, wp_erasePending, wp_when, wp_deref, wp_pure, wp_eraseActive,
        wp_update]
      have hdone : y.events.countP (Event.applies msg.tid) = 1 →
          y.state.store.prepared.lookup msg.tid = none := fun hone =>
        (hy.resolve_left (by omega)).2
      have hfin : y.events.countP (Event.applies msg.tid) = 0 ∨
          (y.events.countP (Event.applies msg.tid) = 1 ∧ Finished msg.tid
            { y.state with
              pendingTxns := y.state.pendingTxns.erase msg.tid
              activeTxns := y.state.activeTxns.erase msg.tid
              committedTxns := y.state.committedTxns.insert msg.tid (msg.state, msg.timestamp)
              clientList := y.state.clientList.erase msg.tid }) := by
        rcases hy with hy | ⟨hone, hnone⟩
        · exact .inl hy
        · exact .inr ⟨hone, AList.mem_insert _ |>.2 (.inl rfl), AList.lookup_erase _ _, hnone⟩
      exact ⟨fun _ => ⟨fun _ _ => hfin, fun _ => hy⟩, fun _ => hfin⟩
    have hsettle : ∀ {y : Ctx Replica Addr Msg Event} (txn : Option Transaction),
        OnceApplied msg.tid y → wp (settleDependents env msg) (fun _ => wp (retire env msg txn)
          (fun _ z => z.events.countP (Event.applies msg.tid) = 0 ∨
            (z.events.countP (Event.applies msg.tid) = 1 ∧ Finished msg.tid
              { z.state with clientList := z.state.clientList.erase msg.tid }))
          (OnceApplied msg.tid)) (OnceApplied msg.tid) y := fun txn hy =>
      wp_mono (fun _ z hz => hretire txn (hz.onceApplied hy)) (fun _ hz => hz.onceApplied hy)
        (settleDependents_drops msg)
    refine wp_mono (fun _ y hy => ?_) (fun _ hy => hy) (carryOut_once rfl req hzero hpre)
    rw [wp_activePtr]
    exact ⟨fun p _ => hsettle p hy, fun _ => hsettle none hy⟩

end Replica

/-! ### Whole runs -/

variable {cfg : Config} {w : GlobalState} {tid : TxnId}

/-- How often the process applied the transaction. -/
def applications (n : Node) (tid : TxnId) (h : History) : ℕ :=
  h.countP fun p => decide (p.1 = n) && p.2.applies tid

theorem applications_next (n n' : Node) (ω : Choice) (input : Input Addr Msg Act) :
    applications n tid (cfg.system.next w n' ω input).history = applications n tid w.history +
      if n' = n then (cfg.system.handle n' ω input { state := w.state n' }).state.events.countP
        (Event.applies tid) else 0 := by
  simp only [applications, Protocol.next, List.countP_append, List.countP_map]
  congr 1
  split_ifs with hn
  · apply List.countP_congr
    intro e _
    simp [hn]
  · rw [List.countP_eq_zero]
    intro e _
    simp [hn]

/-- In the fast mode nothing is pre-committed. -/
theorem Config.not_precommitted (hmode : cfg.mode = .fast) (hload : cfg.Loaded)
    {C : StepCond} (hw : cfg.system.Reach C w) (s : Shard) (i : ℕ) :
    tid ∉ (w.replica s i).store.precommitted := by
  refine hw.induct (J := fun w : GlobalState => tid ∉ (w.replica s i).store.precommitted) ?_ ?_
  · show tid ∉ (cfg.store s i).precommitted
    rw [(hload s i).2]
    exact AList.notMem_empty tid
  · intro (w : GlobalState) n ω input hw ih hen _
    by_cases hn : Node.replica s i = n
    · subst hn
      have hops := Config.step_ops (.inl hmode) hw ω hen
      rw [Config.replica_next]
      exact hops.precommitted (by rw [hmode]; decide) ih
    · rw [Config.replica_next_ne hn]
      exact ih

/-- Nothing that arrives about a finished transaction changes anything. -/
theorem Config.finished_untouched (hmode : cfg.mode = .fast) {C : StepCond}
    (hw : cfg.system.Reach C w) {s : Shard} {input : Input Addr Msg Act}
    (hen : cfg.system.Enabled w (cfg.leaderNode s) input)
    (hfin : Replica.Finished (Replica.inputTxn input) (w.replica s (cfg.leader s))) (ω : Choice) :
    Replica.Untouched { state := w.replica s (cfg.leader s) }
      (cfg.system.handle (cfg.leaderNode s) ω input
        { state := w.replica s (cfg.leader s) }).state := by
  obtain ⟨hnode, hpkt⟩ := Config.invariant (.inl hmode) hw
  have hr : ReplicaOk cfg s (cfg.leader s) w.history (w.replica s (cfg.leader s)) :=
    hnode (cfg.leaderNode s)
  refine Prog.wp_state (Replica.handleInput_finished hmode (decide_eq_true rfl) hfin hr.prepares
    (Config.directInput (.inl hmode) hw hen) ?_ ?_)
  · rintro src dst m rfl
    exact Config.leader_found (.inl hmode) hw hen
  · rintro src dst m rfl
    cases hmode.symm.trans (hpkt _ hen.2.1).1

/-- Outside the parallel mode only a `Commit` decides. -/
theorem Config.undecided_input (hmode : cfg.mode = .fast) {C : StepCond}
    (hw : cfg.system.Reach C w) {n : Node} {input : Input Addr Msg Act}
    (hen : cfg.system.Enabled w n input)
    (hno : ∀ src dst m, input = .recv ⟨src, dst, .commit m⟩ → m.tid ≠ tid) :
    tid = Replica.inputTxn input → ¬ Replica.Commits input ∧ ¬ Replica.Aborts input := by
  have hpkt := (Config.invariant (.inl hmode) hw).2
  intro htid
  cases input with
  | act a => exact ⟨id, id⟩
  | recv p =>
      obtain ⟨src, dst, msg⟩ := p
      cases msg with
      | commit m => exact absurd htid.symm (hno src dst m rfl)
      | notifyReplicateResult m => cases hmode.symm.trans (hpkt _ hen.2.1).1
      | notifyDecision m => cases hmode.symm.trans (hpkt _ hen.2.1).1
      | _ => exact ⟨id, id⟩

/-- What is known of the leader of `s` and the transaction `tid`: it was not applied yet, or
it was applied once, and then it is finished unless the process died over it. -/
def AppliedOnce (cfg : Config) (s : Shard) (tid : TxnId) (w : GlobalState) : Prop :=
  applications (cfg.leaderNode s) tid w.history = 0 ∨
    (applications (cfg.leaderNode s) tid w.history = 1 ∧
      (w.replica s (cfg.leader s)).store.prepared.lookup tid = none ∧
      (w.crashed (cfg.leaderNode s) = false →
        Replica.Finished tid (w.replica s (cfg.leader s))))

/-- A step of the leader itself. -/
theorem AppliedOnce.leader_step (hmode : cfg.mode = .fast) (hload : cfg.Loaded) {C : StepCond}
    (hw : cfg.system.Reach C w) {s : Shard} {input : Input Addr Msg Act} (ω : Choice)
    (hen : cfg.system.Enabled w (cfg.leaderNode s) input) (ih : AppliedOnce cfg s tid w) :
    AppliedOnce cfg s tid (cfg.system.next w (cfg.leaderNode s) ω input) := by
  have hops := Config.step_ops (.inl hmode) hw ω hen
  have hcrash : (cfg.system.next w (cfg.leaderNode s) ω input).crashed (cfg.leaderNode s) =
      (cfg.system.handle (cfg.leaderNode s) ω input
        { state := w.state (cfg.leaderNode s) }).isDead := Function.update_self ..
  have halive : w.crashed (cfg.leaderNode s) = false := by
    cases input with
    | act a => exact hen
    | recv p => exact hen.1
  have hnext : GlobalState.replica (cfg.system.next w (cfg.leaderNode s) ω input) s (cfg.leader s) =
      (cfg.system.handle (cfg.leaderNode s) ω input
        { state := w.state (cfg.leaderNode s) }).state.state := Config.replica_next
  unfold AppliedOnce
  rw [applications_next, if_pos rfl, hcrash, hnext]
  rcases ih with hzero | ⟨hone, hnone, hfin⟩
  · rw [hzero, Nat.zero_add]
    by_cases hdecide : ∃ src dst m, input = .recv ⟨src, dst, .commit m⟩ ∧ m.tid = tid
    · -- the decision on the transaction itself
      obtain ⟨src, dst, m, rfl, hm⟩ := hdecide
      have hwp := Replica.handleCommit_finishes ⟨cfg, s, cfg.leader s⟩ ω
        (x := { state := w.replica s (cfg.leader s) }) hm rfl
        (Config.not_precommitted hmode hload hw s (cfg.leader s))
      rcases Prog.wp_cases hwp with ⟨_, y, hres, hy⟩ | ⟨y, hres, hy⟩
      · rw [show cfg.system.handle (cfg.leaderNode s) ω (.recv ⟨src, dst, .commit m⟩)
          { state := w.state (cfg.leaderNode s) } = _ from hres]
        exact hy.imp_right fun h => ⟨h.1, h.2.prepared, fun _ => h.2⟩
      · rw [show cfg.system.handle (cfg.leaderNode s) ω (.recv ⟨src, dst, .commit m⟩)
          { state := w.state (cfg.leaderNode s) } = _ from hres]
        exact hy.imp_right fun h => ⟨h.1, h.2, fun h => by cases h⟩
    · have hcount := hops.applies (Config.undecided_input hmode hw hen
        fun src dst m hin hm => hdecide ⟨src, dst, m, hin, hm⟩)
      exact .inl hcount
  · have hfin := hfin halive
    right
    by_cases hT : Replica.inputTxn input = tid
    · subst hT
      have hsame := Config.finished_untouched hmode hw hen hfin ω
      have hfin' := hsame.finished hfin
      refine ⟨?_, hfin'.prepared, fun _ => hfin'⟩
      rw [hone]
      exact congrArg (fun es => 1 + List.countP _ es) hsame.events
    · have hfin' := hops.finished (Ne.symm hT) hfin
      have hcount := hops.applies fun h => absurd h.symm hT
      refine ⟨?_, hfin'.prepared, fun _ => hfin'⟩
      rw [hone]
      exact congrArg (1 + ·) hcount

theorem Config.appliedOnce (hmode : cfg.mode = .fast) (hload : cfg.Loaded) {C : StepCond}
    (hw : cfg.system.Reach C w) (s : Shard) (tid : TxnId) : AppliedOnce cfg s tid w := by
  refine hw.induct (J := AppliedOnce cfg s tid) (.inl rfl) ?_
  intro (w : GlobalState) n ω input hw ih hen _
  by_cases hn : cfg.leaderNode s = n
  · subst hn
    exact ih.leader_step hmode hload hw ω hen
  · have hcrash : (cfg.system.next w n ω input).crashed (cfg.leaderNode s) =
        w.crashed (cfg.leaderNode s) := Function.update_of_ne hn ..
    unfold AppliedOnce
    rw [applications_next, if_neg (Ne.symm hn), Nat.add_zero, hcrash, Config.replica_next_ne hn]
    exact ih

/-- **At most once.** In every run of the fast mode a leader applies a transaction at most once;
from then on the transaction is not among the prepared ones, and nothing that arrives about it
(a `PrepareTransaction`, a `ReplicateTransactionReply`, a `Commit`, a read, the leader's own
replication messages, a timer) changes the leader's store, log, `pendingTxns` or
`activeTxns`. -/
theorem applied_at_most_once (hmode : cfg.mode = .fast) (hload : cfg.Loaded)
    (hw : cfg.system.Reach anyStep w) (s : Shard) (tid : TxnId) :
    applications (cfg.leaderNode s) tid w.history ≤ 1 ∧
    (applications (cfg.leaderNode s) tid w.history = 1 →
      tid ∉ (w.replica s (cfg.leader s)).store.prepared ∧
      ∀ ω input, cfg.system.Enabled w (cfg.leaderNode s) input →
        Replica.inputTxn input = tid →
        ∀ r, r = GlobalState.replica (cfg.system.next w (cfg.leaderNode s) ω input)
          s (cfg.leader s) →
          r.store = (w.replica s (cfg.leader s)).store ∧
          r.log = (w.replica s (cfg.leader s)).log ∧
          r.pendingTxns = (w.replica s (cfg.leader s)).pendingTxns ∧
          r.activeTxns = (w.replica s (cfg.leader s)).activeTxns) := by
  rcases Config.appliedOnce hmode hload hw s tid with hzero | ⟨hone, hnone, hfin⟩
  · rw [hzero]
    exact ⟨Nat.zero_le 1, fun h => absurd h Nat.zero_ne_one⟩
  · refine ⟨hone.le, fun _ => ⟨AList.lookup_eq_none.1 hnone, ?_⟩⟩
    rintro ω input hen rfl r rfl
    have halive : w.crashed (cfg.leaderNode s) = false := by
      cases input with
      | act a => exact hen
      | recv p => exact hen.1
    have hsame := Config.finished_untouched hmode hw hen (hfin halive) ω
    rw [Config.leaderNode, Config.replica_next]
    exact ⟨hsame.store, hsame.log, hsame.pending, hsame.active⟩

/-- After a commit the client's prepare arrives a second time. -/
def repeatedPrepare : Commands := fastCommit ++ [deliver 0, deliver 1]

theorem repeatedPrepare_runs :
    ((threeReplicas .fast 2).run anyStep repeatedPrepare).isSome := by
  decide +kernel

theorem repeatedPrepare_applied_once :
    ∃ w : GlobalState, (threeReplicas .fast 2).system.Reach anyStep w ∧
      applications ((threeReplicas .fast 2).leaderNode 1) 7 w.history = 1 ∧
      7 ∉ (w.replica 1 1).store.prepared := by
  have honce := applied_at_most_once rfl (fun _ _ => ⟨rfl, rfl⟩)
    (Config.reach_run repeatedPrepare_runs) 1 7
  have hone : applications ((threeReplicas .fast 2).leaderNode 1) 7
      (((threeReplicas .fast 2).run anyStep repeatedPrepare).get repeatedPrepare_runs).history =
        1 := by
    decide +kernel
  exact ⟨_, Config.reach_run repeatedPrepare_runs, hone, (honce.2 hone).1⟩

end D2PC
