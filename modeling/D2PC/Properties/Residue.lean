import D2PC.Store.Ownership
import D2PC.Invariant.Pending
import D2PC.Properties.AtMostOnce

/-!
# What an abort leaves behind

A participant that prepared a transaction waits for its outcome. The `Commit` of the client
is for a leader that has the transaction pending, the `ReplicateCommit` of the leader for a
follower that has it active; to the others it means nothing. A prepare that arrives after its
outcome is carried out as if none had come.

* `Replica.enters`, `Replica.clears` : the steps that prepare a transaction, and those that decide
  it;
* `Replica.strands` : the prepares that are refused, with some of their locks granted;
* `abort_no_residue` : where every step of the first kind is followed by one of the second, and
  none is of the third, nothing is left;
* `overtaken_residue` : a run in which an outcome overtakes its transaction.
-/

namespace D2PC

open Protocol Prog Ctx

namespace Replica

variable {env : ReplicaEnv} {ω : Choice} {x₀ x : Ctx Replica Addr Msg Event} {T tid : TxnId}
  {C A : Prop}

/-! ### Decisions -/

/-- Nothing is left in the store. -/
abbrev Clears (tid : TxnId) {α : Type} (p : ReplicaM α) (x : Ctx Replica Addr Msg Event) : Prop :=
  wp p (fun _ y => y.state.store.Clear tid) (fun y => y.state.store.Clear tid) x

theorem applyToStore_clears {msg : CommitMsg} (hstate : msg.state = .commit ∨ msg.state = .abort)
    (hsound : x.state.store.Sound msg.tid) {txn : Transaction}
    (hactive : x.state.activeTxns.lookup msg.tid = some (some txn)) :
    Clears msg.tid (applyToStore msg) x := by
  simp only [Clears, applyToStore, wp_bind, wp_modifyPending, wp_activePtr, active_mapPending,
    hactive]
  refine ⟨fun p hp => ?_, fun h => by cases h⟩
  cases hp
  rcases hstate with hst | hst
  · simp only [hst, wp_bind, wp_withStore, wp_emit, store_mapPending]
    exact hsound.commit_clear msg.timestamp
  · simp only [hst, wp_bind, wp_deref_some, wp_withStore, wp_emit, store_mapPending]
    exact hsound.abort_clear

theorem carryOut_clears {msg : CommitMsg} (hstate : msg.state = .commit ∨ msg.state = .abort)
    (hsound : x.state.store.Sound msg.tid) {txn : Transaction}
    (hactive : x.state.activeTxns.lookup msg.tid = some (some txn)) {req : PendingTransaction}
    (hopen : req.reachCommitDecision = false) : Clears msg.tid (carryOut env ω msg req) x := by
  have hnotify : wp (notifyCommitToReplica env ω req msg)
      (fun _ y => y.state.store = x.state.store ∧ y.state.activeTxns = x.state.activeTxns)
      (fun _ => False) x := by
    simp only [notifyCommitToReplica, wp_bind, wp_update, wp_ite, wp_sendMessageToAll, wp_when,
      wp_modifyPending, store_mapPending, active_mapPending]
    exact ⟨fun _ => wp_forM (fun _ _ y hy => hy) ⟨rfl, rfl⟩,
      fun _ => ⟨fun _ => ⟨trivial, trivial⟩, fun _ => ⟨trivial, trivial⟩⟩⟩
  have happly : ∀ {y : Ctx Replica Addr Msg Event}, y.state.store = x.state.store →
      y.state.activeTxns = x.state.activeTxns → Clears msg.tid (applyToStore msg) y := by
    intro y hstore hact
    have hsound' : y.state.store.Sound msg.tid := by
      rw [hstore]
      exact hsound
    have hactive' : y.state.activeTxns.lookup msg.tid = some (some txn) := by
      rw [hact]
      exact hactive
    exact applyToStore_clears hstate hsound' hactive'
  simp only [Clears, carryOut, wp_bind, wp_when, hopen]
  refine ⟨fun _ => ?_, fun _ => ⟨fun _ => happly rfl rfl, fun h => by cases h⟩⟩
  exact wp_mono (fun _ y hy => ⟨fun _ => happly hy.1 hy.2, fun h => by cases h⟩) (fun _ hy => hy.elim) hnotify

/-- **A `Commit` for a pending transaction** leaves nothing of it, wherever the process dies. -/
theorem handleCommit_clears {msg : CommitMsg} (hstate : msg.state = .commit ∨ msg.state = .abort)
    (hsound : x.state.store.Sound msg.tid) (hready : Ready msg.tid x.state)
    {req : PendingTransaction} (hreq : x.state.pendingTxns.lookup msg.tid = some req) :
    wp (handleCommit env ω msg) (fun _ y => y.state.store.Clear msg.tid ∧ Ready msg.tid y.state)
      (fun y => y.state.store.Clear msg.tid) x := by
  obtain ⟨hpart, hopen, _, hlog, ⟨txn, hactive⟩, _⟩ := hready req hreq
  obtain ⟨e, he⟩ := Option.isSome_iff_exists.1 hlog
  have hretire : ∀ {y : Ctx Replica Addr Msg Event} (p : Option Transaction),
      y.state.store.Clear msg.tid → wp (retire env msg p)
        (fun _ z => z.state.store.Clear msg.tid ∧ Ready msg.tid { z.state with
          clientList := z.state.clientList.erase msg.tid })
        (fun z => z.state.store.Clear msg.tid) y := by
    intro y p hy
    simp only [retire, wp_bind, wp_erasePending, wp_when, wp_deref, wp_pure, wp_eraseActive,
      wp_update]
    have hgone : Ready msg.tid { y.state with
        pendingTxns := y.state.pendingTxns.erase msg.tid
        activeTxns := y.state.activeTxns.erase msg.tid
        committedTxns := y.state.committedTxns.insert msg.tid (msg.state, msg.timestamp)
        clientList := y.state.clientList.erase msg.tid } :=
      .of_none (AList.lookup_erase _ _)
    exact ⟨fun _ => ⟨fun _ _ => ⟨hy, hgone⟩, fun _ => hy⟩, fun _ => ⟨hy, hgone⟩⟩
  have hsettle : ∀ {y : Ctx Replica Addr Msg Event} (p : Option Transaction),
      y.state.store.Clear msg.tid → wp (settleDependents env msg) (fun _ => wp (retire env msg p)
        (fun _ z => z.state.store.Clear msg.tid ∧ Ready msg.tid { z.state with
          clientList := z.state.clientList.erase msg.tid })
        (fun z => z.state.store.Clear msg.tid)) (fun z => z.state.store.Clear msg.tid) y :=
    fun p hy => wp_mono (fun _ z hz => hretire p hz) (fun _ hz => hz)
      (settleDependents_keeps (I := fun st _ => st.Clear msg.tid) (fun _ _ d h => h.abort d) msg hy)
  simp only [handleCommit, wp_bind, wp_read, hreq, wp_update, wp_eraseClient, commitPending, wp_ite,
    wp_erasePending, hpart, he, wp_deref_some]
  refine ⟨(fun h => by cases h), fun _ => ?_⟩
  have hcarry : ∀ {y : Ctx Replica Addr Msg Event}, y.state.store = x.state.store →
      y.state.activeTxns = x.state.activeTxns → Clears msg.tid (carryOut env ω msg req) y := by
    intro y hstore hact
    exact carryOut_clears hstate (hstore.symm ▸ hsound) (hact.symm ▸ hactive) hopen
  refine wp_mono (fun _ y hy => ?_) (fun _ hy => hy) (hcarry rfl rfl)
  rw [wp_activePtr]
  exact ⟨fun p _ => hsettle p hy, fun _ => hsettle none hy⟩

/-- What a follower does about an outcome. -/
theorem handleReplicateCommit_settles (hrc : env.cfg.mode ≠ .rc) {msg : ReplicateCommit}
    (hsound : x.state.store.Sound msg.tid) (hready : Ready msg.tid x.state)
    (hpend : env.isLeader = false → x.state.pendingTxns.lookup msg.tid = none) :
    wp (handleReplicateCommit env msg)
      (fun _ y => Ready msg.tid y.state ∧ (y.state.store = x.state.store ∨
        y.state.store.Clear msg.tid) ∧ (env.isLeader = false →
          (x.state.activeTxns.lookup msg.tid).join.isSome →
          (msg.state = .commit ∨ msg.state = .abort) → y.state.store.Clear msg.tid))
      (fun _ => False) x := by
  simp only [handleReplicateCommit, wp_ite, wp_bind, wp_when, hrc, wp_pure, wp_activePtr]
  refine ⟨fun hlead => ⟨hready, .inl trivial, fun hno => ?_⟩, fun hnot => ⟨(fun h => by cases h), fun _ => ?_⟩⟩
  · rw [hlead.1] at hno
    cases hno
  · have hfollower : env.isLeader = false := by
      by_contra hlead
      exact hnot ⟨Bool.of_not_eq_false hlead, hrc⟩
    refine ⟨fun p hp => ?_, fun hnone => ?_⟩
    · cases p with
      | none =>
          rw [hp]
          exact ⟨hready, .inl rfl, fun _ h => by cases h⟩
      | some txn =>
          have hgone : ∀ st, Ready msg.tid { x.state with
              store := st
              activeTxns := x.state.activeTxns.erase msg.tid } :=
            fun _ => .of_none (hpend hfollower)
          simp only [wp_bind, wp_eraseActive, replicateOutcome]
          split
          · have hclear := hsound.commit_clear msg.timestamp
            exact ⟨hgone _, .inr hclear, fun _ _ _ => hclear⟩
          · exact ⟨hgone _, .inr hsound.abort_clear, fun _ _ _ => hsound.abort_clear⟩
          · rename_i hcommit habort
            exact ⟨hgone _, .inl rfl, fun _ _ hst => (hst.elim hcommit habort).elim⟩
    · rw [hnone]
      exact ⟨(Calm.nullActive ⟨rfl, hready⟩ hnone).ready, .inl trivial, fun _ h => by cases h⟩

/-- A follower enters what its leader accepted. The leader finds its own entry in the log. -/
theorem handleReplicateTransaction_settles {msg : ReplicateTransaction}
    (hsound : x.state.store.Sound msg.txnLog.txnId) (hready : Ready msg.txnLog.txnId x.state)
    (hlead : env.isLeader = true → (x.state.log.find msg.txnLog.lsn).isSome) (remote : Addr) :
    wp (handleReplicateTransaction env ω remote msg)
      (fun _ y => Ready msg.txnLog.txnId y.state ∧ y.state.store.Sound msg.txnLog.txnId ∧
        ((x.state.log.find msg.txnLog.lsn).isNone = false → y.state.store = x.state.store))
      (fun _ => False) x := by
  rw [handleReplicateTransaction, wp_bind, wp_update, wp_bind, wp_read, wp_bind, wp_when]
  refine ⟨fun hnew => ?_, fun hold => ?_⟩
  · have hfollower : env.isLeader = false := by
      by_contra hyes
      obtain ⟨e, he⟩ := Option.isSome_iff_exists.1 (hlead (Bool.of_not_eq_false hyes))
      rw [he] at hnew
      cases hnew
    simp only [wp_bind, wp_update, wp_emit, wp_withStore, wp_sendMessage, wp_when,
      wp_sendMessageToCoordinator, hfollower]
    have hready' : ∀ txn st ts, Ready msg.txnLog.txnId { x.state with
        log := x.state.log.addProto msg.txnLog
        store := st
        currentTs := ts
        activeTxns := x.state.activeTxns.insert msg.txnLog.txnId (some txn) } := by
      intro txn st ts req hreq
      have hold := hready req hreq
      exact ⟨hold.takesPart, hold.undecided, hold.unconfirmed, isSome_find_addProto hold.entry,
        ⟨txn, AList.lookup_insert _⟩, hold.client⟩
    have hsound' := fun txn => hsound.prepare_unchecked ω.clock txn
    have hno : (x.state.log.find msg.txnLog.lsn).isNone ≠ false := by
      rw [hnew]
      intro h
      cases h
    exact ⟨fun _ => ⟨hready' _ _ _, hsound' _, fun h => absurd h hno⟩,
      fun _ => ⟨hready' _ _ _, hsound' _, fun h => absurd h hno⟩⟩
  · simp only [wp_bind, wp_sendMessage, wp_when, wp_sendMessageToCoordinator]
    have hready' : Ready msg.txnLog.txnId { x.state with
        currentTs := max x.state.currentTs msg.txnLog.timestamp } :=
      hready.congr rfl (fun _ h => h) rfl rfl
    exact ⟨fun _ => ⟨hready', hsound, fun _ => trivial⟩, fun _ => ⟨hready', hsound, fun _ => trivial⟩⟩

/-! ### One step -/

/-- This replica has its concurrency control check what it prepares. -/
def checks (env : ReplicaEnv) : Bool :=
  env.isLeader || decide (env.cfg.mode = .carousel) || decide (env.cfg.mode = .rc)

/-- The input prepares the transaction: a prepare that gets to the concurrency control and is
admitted or not checked, or an entry that is new to the log. -/
def enters (env : ReplicaEnv) (ω : Choice) (r : Replica) (tid : TxnId) : Input Addr Msg Act → Bool
  | .recv ⟨_, _, .prepareTransaction m⟩ => decide (m.tid = tid) && (reachesControl env r m &&
      (!checks env || r.store.admits ω.clock m.tid (offered m)))
  | .recv ⟨_, _, .replicateTransaction m⟩ =>
      decide (m.txnLog.txnId = tid) && (r.log.find m.txnLog.lsn).isNone
  | _ => false

/-- The input decides the transaction: a `Commit` that finds it pending, or an outcome that
finds it active at a follower. -/
def clears (env : ReplicaEnv) (r : Replica) (tid : TxnId) : Input Addr Msg Act → Bool
  | .recv ⟨_, _, .commit m⟩ => decide (m.tid = tid) && (r.pendingTxns.lookup tid).isSome
  | .recv ⟨_, _, .replicateCommit m⟩ =>
      decide (m.tid = tid) && (!env.isLeader && (r.activeTxns.lookup tid).join.isSome &&
        decide (m.state = .commit ∨ m.state = .abort))
  | _ => false

/-- The input is a prepare that is checked and refused, though some of its locks are granted. -/
def strands (env : ReplicaEnv) (ω : Choice) (r : Replica) (tid : TxnId) : Input Addr Msg Act → Bool
  | .recv ⟨_, _, .prepareTransaction m⟩ => decide (m.tid = tid) && (reachesControl env r m &&
      (checks env && r.store.grantsInVain ω.clock m.tid (offered m)))
  | _ => false

/-- What the concurrency control leaves is in order if no lock was granted in vain. -/
theorem controlled_sound {r : Replica} {msg : PrepareTransaction} (hsound : r.store.Sound msg.tid)
    (hvain : (checks env && r.store.grantsInVain ω.clock msg.tid (offered msg)) = false) :
    (controlled env ω r msg).Sound msg.tid := by
  have hcautious : r.store.Cautious (.prepare ω.clock msg.tid (offered msg) (checks env)) := by
    cases hcheck : checks env with
    | true =>
        rw [hcheck, Bool.true_and] at hvain
        exact TxnStore.cautious_of_not_grantsInVain hvain
    | false =>
        cases r.store with
        | occ s => trivial
        | lock s => trivial
  show (r.store.prepare ω.clock msg.tid _ (checks env)).2.Sound msg.tid
  rw [ofMessage_offered]
  exact ⟨TxnStore.prepare_precommitted hsound.precommitted _ _ _ _,
    TxnStore.prepare_owned_cautious hsound.owned hcautious⟩

/-- A prepare that enters nothing was refused. -/
theorem controlled_clear {r : Replica} {msg : PrepareTransaction}
    (hno : (!checks env || r.store.admits ω.clock msg.tid (offered msg)) = false)
    (hclear : r.store.prepared.lookup msg.tid = none) :
    (controlled env ω r msg).prepared.lookup msg.tid = none := by
  rw [Bool.or_eq_false_iff, Bool.not_eq_false'] at hno
  obtain ⟨hcheck, hrefused⟩ := hno
  show (r.store.prepare ω.clock msg.tid _ (checks env)).2.prepared.lookup msg.tid = none
  rw [ofMessage_offered, hcheck, TxnStore.prepare_refused, hclear]
  rw [Ne, TxnStore.prepare_ok_iff, hrefused]
  exact Bool.false_ne_true

/-- What a step does to the store, as far as the transaction is concerned. -/
structure Settles (env : ReplicaEnv) (ω : Choice) (tid : TxnId) (input : Input Addr Msg Act)
    (r r' : Replica) : Prop where
  sound : r'.store.Sound tid
  clear : clears env r tid input = true → r'.store.Clear tid
  kept : enters env ω r tid input = false → r.store.Clear tid → r'.store.Clear tid

/-- The store did not change, and the step does not decide. -/
theorem Settles.same {input : Input Addr Msg Act} {r r' : Replica} (hsound : r.store.Sound tid)
    (hstore : r'.store = r.store) (hno : clears env r tid input = false) :
    Settles env ω tid input r r' := by
  refine ⟨hstore ▸ hsound, fun h => ?_, fun _ hclear => hstore ▸ hclear⟩
  rw [hno] at h
  cases h

theorem Settles.of_clear {input : Input Addr Msg Act} {r r' : Replica} (h : r'.store.Clear tid) :
    Settles env ω tid input r r' :=
  ⟨h.toSound, fun _ => h, fun _ _ => h⟩

/-- A step that leaves the store alone. -/
theorem StaysCalm.settles {input : Input Addr Msg Act} {p : ReplicaM Unit}
    (hsound : x.state.store.Sound tid) (hno : clears env x.state tid input = false)
    (hp : StaysCalm tid x.state.store p x) :
    wp p (fun _ y => Settles env ω tid input x.state y.state ∧ Ready tid y.state)
      (fun y => Settles env ω tid input x.state y.state) x :=
  wp_mono (fun _ _ hy => ⟨.same hsound hy.store hno, hy.ready⟩) (fun _ hy => .same hsound hy.store hno)
    hp

theorem handlePrepareTxn_settles (hsound : x.state.store.Sound tid) (hready : Ready tid x.state)
    {msg : PrepareTransaction} (hT : msg.tid = tid) (hdirect : msg.mode ≠ .slow ∧ msg.mode ≠ .rc)
    {src dst : Addr}
    (hstrand : strands env ω x.state tid (.recv ⟨src, dst, .prepareTransaction msg⟩) = false) :
    wp (handlePrepareTxn env ω src msg)
      (fun _ y => Settles env ω tid (.recv ⟨src, dst, .prepareTransaction msg⟩) x.state y.state ∧
        Ready tid y.state)
      (fun y => Settles env ω tid (.recv ⟨src, dst, .prepareTransaction msg⟩) x.state y.state) x := by
  cases hreach : reachesControl env x.state msg with
  | false =>
      refine StaysCalm.settles hsound rfl (handlePrepareTxn_calm hready hT hdirect src ?_ ?_)
      · intro h
        rw [hreach] at h
        cases h
      · exact fun _ => rfl
  | true =>
      have hcalm := handlePrepareTxn_calm (ω := ω) hready hT hdirect src (fun _ => rfl) (fun h => by
        rw [hreach] at h
        cases h)
      have hsettles : ∀ {y : Ctx Replica Addr Msg Event},
          Calm tid (controlled env ω x.state msg) y →
          Settles env ω tid (.recv ⟨src, dst, .prepareTransaction msg⟩) x.state y.state := by
        intro y hy
        subst hT
        rw [strands, decide_eq_true rfl, Bool.true_and, hreach, Bool.true_and] at hstrand
        have hnew : y.state.store.Sound msg.tid := by
          rw [hy.store]
          exact controlled_sound hsound hstrand
        refine ⟨hnew, (fun h => by cases h), fun hno hclear => ⟨hnew, ?_⟩⟩
        rw [enters, decide_eq_true rfl, Bool.true_and, hreach, Bool.true_and] at hno
        rw [hy.store]
        exact controlled_clear hno hclear.prepared
      exact wp_mono (fun _ y hy => ⟨hsettles hy, hy.ready⟩) (fun _ hy => hsettles hy) hcalm

/-- What is known of an input when it arrives in the modes at hand. -/
structure Arrives (env : ReplicaEnv) (r : Replica) (input : Input Addr Msg Act) : Prop where
  direct : DirectInput env.cfg input
  prepares : ∀ tid, r.pendingPrepares.lookup tid = none
  pending : ∀ tid req, r.pendingTxns.lookup tid = some req →
    env.isLeader = true ∧ (r.log.find req.lsn).isSome
  outcome : ∀ src dst m, input = .recv ⟨src, dst, .commit m⟩ → m.state = .commit ∨ m.state = .abort
  entry : ∀ src dst m, input = .recv ⟨src, dst, .replicateTransaction m⟩ → env.isLeader = true →
    (r.log.find m.txnLog.lsn).isSome
  noParallel : ∀ src dst m, input ≠ .recv ⟨src, dst, .parallelModeCommit m⟩
  noResult : ∀ src dst m, input ≠ .recv ⟨src, dst, .notifyReplicateResult m⟩

/-- **A step for the transaction itself.** -/
theorem handleInput_settles (hpar : env.cfg.mode ≠ .parallel) (hrc : env.cfg.mode ≠ .rc)
    {input : Input Addr Msg Act} (hin : Arrives env x.state input) (hT : inputTxn input = tid)
    (hsound : x.state.store.Sound tid) (hready : Ready tid x.state)
    (hstrand : strands env ω x.state tid input = false) :
    wp (handleInput env ω input)
      (fun _ y => Settles env ω tid input x.state y.state ∧ Ready tid y.state)
      (fun y => Settles env ω tid input x.state y.state) x := by
  have hcalm : Calm tid x.state.store x := ⟨rfl, hready⟩
  have hskip : clears env x.state tid input = false →
      Settles env ω tid input x.state x.state ∧ Ready tid x.state := fun hno =>
    ⟨.same hsound rfl hno, hready⟩
  cases input with
  | act a =>
      cases a with
      | client a => exact hskip rfl
      | timer t =>
          refine StaysCalm.settles hsound rfl (handleTimer_calm hcalm hin.prepares ?_)
          cases t with
          | pendingTxn t => exact .inl (congrArg _ hT)
          | pendingPrepare t => exact .inr (congrArg _ hT)
  | recv p =>
      obtain ⟨src, dst, msg⟩ := p
      cases msg with
      | prepareTransaction m => exact handlePrepareTxn_settles hsound hready hT hin.direct hstrand
      | prepareTransactionReply m =>
          simp only [handleInput, handleMessage, handlePrepareTransactionReply, wp_bind, wp_read,
            hin.prepares]
          exact hskip rfl
      | replicateTransaction m =>
          obtain rfl : m.txnLog.txnId = tid := hT
          refine wp_mono (fun _ y hy => ⟨⟨hy.2.1, (fun h => by cases h), fun hno hclear => ?_⟩, hy.1⟩)
            (fun _ hy => hy.elim)
            (handleReplicateTransaction_settles hsound hready (hin.entry src dst m rfl) src)
          rw [enters, decide_eq_true rfl, Bool.true_and] at hno
          rw [hy.2.2 hno]
          exact hclear
      | replicateTransactionReply m =>
          exact StaysCalm.settles hsound rfl (handleReplicateTransactionReply_calm hcalm hT)
      | commit m =>
          obtain rfl : m.tid = tid := hT
          cases hreq : x.state.pendingTxns.lookup m.tid with
          | none =>
              simp only [handleInput, handleMessage, handleCommit, wp_bind, wp_read, hreq]
              exact hskip (by simp [clears, hreq])
          | some req =>
              exact wp_mono (fun _ y hy => ⟨.of_clear hy.1, hy.2⟩) (fun _ hy => .of_clear hy)
                (handleCommit_clears (hin.outcome src dst m rfl) hsound hready hreq)
      | replicateCommit m =>
          obtain rfl : m.tid = tid := hT
          refine wp_mono (fun _ y hy => ⟨?_, hy.1⟩) (fun _ hy => hy.elim)
            (handleReplicateCommit_settles hrc hsound hready fun hfollower => ?_)
          · obtain ⟨_, hstore, hdecided⟩ := hy
            refine ⟨?_, fun hyes => ?_, fun _ hclear => ?_⟩
            · exact hstore.elim (fun h => h ▸ hsound) fun h => h.toSound
            · simp only [clears, decide_true, Bool.true_and, Bool.and_eq_true, Bool.not_eq_true',
                decide_eq_true_eq] at hyes
              exact hdecided hyes.1.1 hyes.1.2 hyes.2
            · exact hstore.elim (fun h => h ▸ hclear) fun h => h
          · cases hreq : x.state.pendingTxns.lookup m.tid with
            | none => rfl
            | some req =>
                have hlead := (hin.pending _ _ hreq).1
                rw [hfollower] at hlead
                cases hlead
      | getData m =>
          refine StaysCalm.settles hsound rfl ?_
          simp only [handleInput, handleMessage, handleRead, StaysCalm, wp_bind, wp_sendMessage]
          refine wp_mono (fun _ y hy => ?_) (fun y hy => ?_) (readKeys_untouched hpar m.keys)
          · rw [hy]
            exact ⟨rfl, hready⟩
          · rw [hy]
            exact hcalm
      | notifyDecision m => exact absurd hin.direct hpar
      | notifyReplicateResult m => exact absurd rfl (hin.noResult src dst m)
      | parallelModeCommit m => exact absurd rfl (hin.noParallel src dst m)
      | _ => exact .same hsound rfl rfl

/-- An input decides only the transaction it is about. -/
theorem clears_inputTxn {r : Replica} {input : Input Addr Msg Act}
    (h : clears env r tid input = true) : inputTxn input = tid := by
  unfold clears at h
  split at h
  · simp only [Bool.and_eq_true, decide_eq_true_eq] at h
    exact h.1
  · simp only [Bool.and_eq_true, decide_eq_true_eq] at h
    exact h.1
  · cases h

/-- **A step for another transaction** does nothing to this one. -/
theorem Ops.settles (h : Ops env T C A x₀ x) (hpar : env.cfg.mode ≠ .parallel) (hne : tid ≠ T)
    (hsound : x₀.state.store.Sound tid) :
    x.state.store.Sound tid ∧ (x₀.state.store.Clear tid → x.state.store.Clear tid) := by
  induction h with
  | refl => exact ⟨hsound, id⟩
  | tail _ hop ih =>
      obtain ⟨hs, hc⟩ := ih
      cases hop with
      | prepare clock m doCheck =>
          exact ⟨hs.prepare_other hne clock _ doCheck, fun h₀ =>
            (hc h₀).prepare_other hne clock _ doCheck⟩
      | preCommit hmode => exact absurd hmode hpar
      | commit hC ts => exact ⟨hs.commit T ts, fun h₀ => (hc h₀).commit T ts⟩
      | abort hA ts => exact ⟨hs.abort T, fun h₀ => (hc h₀).abort T⟩
      | cascade hA d hd => exact ⟨hs.abort d, fun h₀ => (hc h₀).abort d⟩
      | replicate hfollower s hst =>
          rcases hst with rfl | ⟨ts, rfl⟩
          · exact ⟨hs.abort T, fun h₀ => (hc h₀).abort T⟩
          · exact ⟨hs.commit T ts, fun h₀ => (hc h₀).commit T ts⟩
      | _ => exact ⟨hs, hc⟩

end Replica

/-! ### Whole runs -/

/-- A server loads versions into a new store: no lock is held. -/
def Config.Unlocked (cfg : Config) : Prop :=
  ∀ s i st, cfg.store s i = .lock st → st.locks = {}

/-- A step of a run. -/
abbrev RunStep := Protocol.Step Node Addr Msg Act Choice Event Local

/-- In this step replica `i` of shard `s` prepares the transaction. -/
def RunStep.enters (cfg : Config) (s : Shard) (i : ℕ) (tid : TxnId) (x : RunStep) : Bool :=
  decide (x.node = .replica s i) &&
    Replica.enters ⟨cfg, s, i⟩ x.choice (GlobalState.replica x.before s i) tid x.input

/-- In this step replica `i` of shard `s` decides the transaction. -/
def RunStep.clears (cfg : Config) (s : Shard) (i : ℕ) (tid : TxnId) (x : RunStep) : Bool :=
  decide (x.node = .replica s i) &&
    Replica.clears ⟨cfg, s, i⟩ (GlobalState.replica x.before s i) tid x.input

/-- In this step replica `i` of shard `s` refuses the transaction and grants it a lock. -/
def RunStep.strands (cfg : Config) (s : Shard) (i : ℕ) (tid : TxnId) (x : RunStep) : Bool :=
  decide (x.node = .replica s i) &&
    Replica.strands ⟨cfg, s, i⟩ x.choice (GlobalState.replica x.before s i) tid x.input

variable {cfg : Config} {w : GlobalState} {tid : TxnId} {s : Shard} {i : ℕ}

/-- What the invariants say of an input. -/
theorem Config.arrives (hmode : cfg.mode = .fast ∨ cfg.mode = .carousel) {C : StepCond}
    (hw : cfg.system.Reach C w) {input : Input Addr Msg Act}
    (hen : cfg.system.Enabled w (.replica s i) input) :
    Replica.Arrives ⟨cfg, s, i⟩ (w.replica s i) input := by
  have hdir : cfg.Direct := hmode.imp_right .inr
  have hpar : cfg.mode ≠ .parallel := by
    rcases hmode with h | h <;> rw [h] <;> decide
  obtain ⟨hnode, hpkt⟩ := Config.invariant hdir hw
  have hr : ReplicaOk cfg s i w.history (w.replica s i) := hnode (.replica s i)
  refine ⟨Config.directInput hdir hw hen, hr.prepares, fun tid req hreq => ?_, ?_, ?_, ?_, ?_⟩
  · obtain ⟨hlead, _, _, hentry, _⟩ := hr.pending tid req hreq
    refine ⟨decide_eq_true hlead, ?_⟩
    obtain ⟨e, he, _⟩ := (hentry.resolve_left fun h => hpar h.1).1
    rw [he]
    rfl
  · rintro src dst m rfl
    exact (hpkt _ hen.2.1).imp And.left And.left
  · rintro src dst m rfl hlead
    obtain rfl : i = cfg.leader s := of_decide_eq_true hlead
    exact Config.leader_found hdir hw hen
  · rintro src dst m rfl
    exact hpar (hpkt _ hen.2.1).1
  · rintro src dst m rfl
    exact hpar (hpkt _ hen.2.1).1

/-- **A step of the replica**, for this transaction or another. -/
theorem Config.step_settles (hmode : cfg.mode = .fast ∨ cfg.mode = .carousel) {C : StepCond}
    (hw : cfg.system.Reach C w) {input : Input Addr Msg Act} {ω : Choice}
    (hen : cfg.system.Enabled w (.replica s i) input)
    (hsound : (w.replica s i).store.Sound tid) (hready : Replica.Ready tid (w.replica s i))
    (hstrand : Replica.strands ⟨cfg, s, i⟩ ω (w.replica s i) tid input = false) :
    let w' : GlobalState := cfg.system.next w (.replica s i) ω input
    Replica.Settles ⟨cfg, s, i⟩ ω tid input (w.replica s i) (w'.replica s i) ∧
      (w'.crashed (.replica s i) = false → Replica.Ready tid (w'.replica s i)) := by
  have hdir : cfg.Direct := hmode.imp_right .inr
  have hpar : cfg.mode ≠ .parallel := by
    rcases hmode with h | h <;> rw [h] <;> decide
  have hrc : cfg.mode ≠ .rc := by
    rcases hmode with h | h <;> rw [h] <;> decide
  intro w'
  have hnext : w'.replica s i = (cfg.system.handle (.replica s i) ω input
      { state := w.state (.replica s i) }).state.state := Config.replica_next
  by_cases hT : Replica.inputTxn input = tid
  · have hwp : wp (Replica.handleInput ⟨cfg, s, i⟩ ω input)
        (fun _ y => Replica.Settles ⟨cfg, s, i⟩ ω tid input (w.replica s i) y.state ∧
          Replica.Ready tid y.state)
        (fun y => Replica.Settles ⟨cfg, s, i⟩ ω tid input (w.replica s i) y.state)
        { state := w.replica s i } :=
      Replica.handleInput_settles hpar hrc (Config.arrives hmode hw hen) hT hsound hready hstrand
    obtain ⟨y, ⟨_, hy⟩ | ⟨hdead, hy⟩, hstate, _, _⟩ := Config.replica_outcome hwp
    · rw [show w'.replica s i = y.state from hstate]
      exact ⟨hy.1, fun _ => hy.2⟩
    · rw [show w'.replica s i = y.state from hstate]
      exact ⟨hy, fun halive => by cases halive.symm.trans hdead⟩
  · rw [hnext]
    have hops := Config.step_ops hdir hw ω hen
    obtain ⟨hs, hc⟩ := hops.settles hpar (Ne.symm hT) hsound
    refine ⟨⟨hs, fun h => absurd (Replica.clears_inputTxn h) hT, fun _ => hc⟩, fun _ => ?_⟩
    exact hops.ready (Ne.symm hT) hready

/-- A new store is in order. -/
theorem Config.sound_init (hload : cfg.Loaded) (hunlocked : cfg.Unlocked) :
    (cfg.store s i).Clear tid := by
  obtain ⟨hprep, hpre⟩ := hload s i
  refine ⟨⟨?_, ?_⟩, ?_⟩
  · rw [hpre]
    exact AList.notMem_empty tid
  · cases hst : cfg.store s i with
    | occ st => trivial
    | lock st =>
        have hvalid : ∀ key, (st.locks.lock key).Valid := fun key => by
          rw [hunlocked s i st hst]
          exact LockServer.after_valid [] key
        refine TxnStore.lawful_of_free hvalid (fun key => ?_) _
        rw [hunlocked s i st hst]
        exact Finset.notMem_empty tid
  · rw [hprep]
    rfl

/-- **The invariant of a run.** What the replica keeps for the transaction is in order, and
nothing is kept where every preparation was followed by a decision. -/
theorem Config.trace_settles (hmode : cfg.mode = .fast ∨ cfg.mode = .carousel) (hload : cfg.Loaded)
    (hunlocked : cfg.Unlocked) {tr : List RunStep} (hrun : cfg.system.Trace tr w)
    (hstrand : ∀ x ∈ tr, RunStep.strands cfg s i tid x = false) :
    (w.replica s i).store.Sound tid ∧
      (w.crashed (.replica s i) = false → Replica.Ready tid (w.replica s i)) ∧
      (Protocol.followed (RunStep.enters cfg s i tid) (RunStep.clears cfg s i tid) tr = true →
        (w.replica s i).store.Clear tid) := by
  induction hrun with
  | start =>
      have hclear : (cfg.store s i).Clear tid := Config.sound_init hload hunlocked
      exact ⟨hclear.toSound, fun _ => .of_none rfl, fun _ => hclear⟩
  | @step tr w n input ω hrun hen ih =>
      obtain ⟨hsound, hready, hclear⟩ := ih fun x hx => hstrand x (List.mem_append_left _ hx)
      have hw : cfg.system.Reach anyStep w := hrun.reach fun _ _ => trivial
      have hno := hstrand ⟨w, n, ω, input⟩ (List.mem_append_right _ (List.mem_singleton_self _))
      rw [Protocol.followed_concat]
      by_cases hn : Node.replica s i = n
      · subst hn
        have halive : w.crashed (.replica s i) = false := by
          cases input with
          | act a => exact hen
          | recv p => exact hen.1
        simp only [RunStep.strands, decide_true, Bool.true_and] at hno
        obtain ⟨hsettles, hready'⟩ := Config.step_settles hmode hw hen hsound (hready halive) hno
        refine ⟨hsettles.sound, hready', ?_⟩
        rintro ⟨henters, hclears | hfollowed⟩
        · simp only [RunStep.clears, decide_true, Bool.true_and] at hclears
          exact hsettles.clear hclears
        · simp only [RunStep.enters, decide_true, Bool.true_and] at henters
          exact hsettles.kept henters (hclear hfollowed)
      · -- the others do not touch it
        have hcrash : (cfg.system.next w n ω input).crashed (.replica s i) =
            w.crashed (.replica s i) := Function.update_of_ne hn ..
        rw [Config.replica_next_ne hn, hcrash]
        refine ⟨hsound, hready, ?_⟩
        rintro ⟨_, hclears | hfollowed⟩
        · simp only [RunStep.clears, Bool.and_eq_true, decide_eq_true_eq] at hclears
          exact absurd hclears.1.symm hn
        · exact hclear hfollowed

/-- **An abort leaves nothing behind** at a replica that hears of it in time. In every run of the
fast or the Carousel mode, for every transaction and every replica: if every step in which the
replica prepares the transaction is followed by one in which it decides it, and no prepare that
was refused had a lock granted, then the transaction is not among the prepared ones and holds no
lock. -/
theorem abort_no_residue (hmode : cfg.mode = .fast ∨ cfg.mode = .carousel) (hload : cfg.Loaded)
    (hunlocked : cfg.Unlocked) {tr : List RunStep} (hrun : cfg.system.Trace tr w)
    (hstrand : ∀ x ∈ tr, RunStep.strands cfg s i tid x = false)
    (hfollowed : Protocol.followed (RunStep.enters cfg s i tid) (RunStep.clears cfg s i tid) tr =
      true) :
    tid ∉ (w.replica s i).store.prepared ∧ ∀ key, ¬ (w.replica s i).store.lockedBy tid key := by
  have hclear := (Config.trace_settles hmode hload hunlocked hrun hstrand).2.2 hfollowed
  exact ⟨AList.lookup_eq_none.1 hclear.prepared, hclear.free⟩

/-! ### An outcome overtakes its transaction -/

/-- The client waits in vain for its leader five times, and aborts. -/
def timedOut : Commands :=
  [act 7 (.put "a" "1"), act 7 .commit, act 7 (.task 0), act 7 (.prepareTimeout 0), act 7 .wake,
    act 7 (.task 0), act 7 (.prepareTimeout 0), act 7 .wake, act 7 (.task 0),
    act 7 (.prepareTimeout 0), act 7 .wake, act 7 (.task 0), act 7 (.prepareTimeout 0), act 7 .wake,
    act 7 (.task 0), act 7 (.prepareTimeout 0), act 7 .wake]

/-- The `Commit` arrives first, then everything else. -/
def overtaken : Commands :=
  timedOut ++ [deliver 5, deliver 0, deliver 6, deliver 7, deliver 8, deliver 9, deliver 10,
    deliver 11, deliver 1, deliver 2, deliver 3, deliver 4, deliver 12, deliver 13, deliver 14,
    deliver 15, deliver 16]

/-- The schedule delivers every packet that was ever sent. -/
def deliversAll (cs : Commands) (w : GlobalState) : Bool :=
  (List.range w.net.length).all fun k => cs.any fun
    | .deliver j _ => decide (j = k)
    | .act _ _ _ => false

theorem overtaken_runs : ((threeReplicas .fast 1).run anyStep overtaken).isSome := by
  decide +kernel

/-- **The abort is lost.** The leader ignores the `Commit` for a transaction it does not know,
then prepares and replicates it, and keeps it for good. -/
theorem overtaken_residue :
    ∃ w : GlobalState, (threeReplicas .fast 1).run anyStep overtaken = some w ∧
      (startOf w.history 7).map Start.participants = some [0] ∧
      (Node.client 7, Event.decided false) ∈ w.history ∧ deliversAll overtaken w = true ∧
      7 ∈ (w.replica 0 0).store.prepared := by
  refine ⟨_, (Option.some_get overtaken_runs).symm, ?_, ?_, ?_, ?_⟩
  all_goals decide +kernel

/-- Three replicas with locking stores. -/
def lockingReplicas : Config := { threeReplicas .fast 1 with store := fun _ _ => .lock {} }

/-- The five prepares and all entries arrive first, then the `Commit`, then everything else. -/
def inTime : Commands :=
  timedOut ++ (([0, 1, 2, 3, 4] ++ List.range' 6 15 ++ [5] ++ List.range' 21 18).map fun k =>
    deliver k)

theorem inTime_runs : (lockingReplicas.run anyStep inTime).isSome := by
  decide +kernel

theorem inTime_no_residue :
    ∃ w : GlobalState, lockingReplicas.run anyStep inTime = some w ∧
      (startOf w.history 7).map Start.participants = some [0] ∧
      (Node.client 7, Event.decided false) ∈ w.history ∧ deliversAll inTime w = true ∧
      ∀ i < 3, 7 ∉ (w.replica 0 i).store.prepared ∧
        ∀ key, ¬ (w.replica 0 i).store.lockedBy 7 key := by
  have hrun := Protocol.Trace.exec .start (Option.some_get inTime_runs).symm
  have hload : lockingReplicas.Loaded := fun _ _ => ⟨rfl, rfl⟩
  have hunlocked : lockingReplicas.Unlocked := by
    intro s i st h
    cases h
    rfl
  refine ⟨_, (Option.some_get inTime_runs).symm, by decide +kernel, by decide +kernel,
    by decide +kernel, fun i hi => ?_⟩
  refine abort_no_residue (.inl rfl) hload hunlocked hrun ?_ ?_
  · revert i
    decide +kernel
  · revert i
    decide +kernel

end D2PC
