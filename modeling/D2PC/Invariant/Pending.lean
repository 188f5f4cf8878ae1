import D2PC.Invariant.Ops
import D2PC.Invariant.Votes

/-!
# Pending transactions

What a leader has when it has a transaction pending: an entry of its log, a pointer to the
transaction and the address of its client, and no outcome yet. A `Commit` carries out the
transaction only then. The handlers that do not decide keep this, and most of them leave the
store alone.

* `Replica.Joined`, `Replica.Ready` : the invariant of one transaction;
* `Replica.Calm` : it holds, and the store is a given one;
* `Replica.handlePrepareTxn_calm` and others : one lemma for each handler that does not decide;
* `Replica.Ops.ready` : a step for another transaction keeps it too.
-/

namespace D2PC

open Prog Ctx

namespace Replica

variable {env : ReplicaEnv} {ω : Choice} {x : Ctx Replica Addr Msg Event} {tid : TxnId}

/-! ### What a replica keeps for a transaction -/

/-- A pending transaction that takes part and has no outcome. -/
structure Joined (tid : TxnId) (r : Replica) (req : PendingTransaction) : Prop where
  takesPart : req.isParticipant = true
  undecided : req.reachCommitDecision = false
  unconfirmed : req.sendConfirms = false
  entry : (r.log.find req.lsn).isSome
  active : ∃ txn, r.activeTxns.lookup tid = some (some txn)
  client : ∃ a, r.clientList.lookup tid = some (some a)

/-- If the transaction is pending, it takes part. -/
def Ready (tid : TxnId) (r : Replica) : Prop :=
  ∀ req, r.pendingTxns.lookup tid = some req → Joined tid r req

/-- What no update of a pending transaction but its outcome changes. -/
theorem Joined.congr {r : Replica} {req req' : PendingTransaction} (h : Joined tid r req)
    (hpart : req'.isParticipant = req.isParticipant)
    (hopen : req'.reachCommitDecision = req.reachCommitDecision)
    (hconf : req'.sendConfirms = req.sendConfirms) (hlsn : req'.lsn = req.lsn) :
    Joined tid r req' :=
  ⟨hpart.trans h.takesPart, hopen.trans h.undecided, hconf.trans h.unconfirmed, hlsn ▸ h.entry,
    h.active, h.client⟩

theorem store_mapPending (tid : TxnId) (f : PendingTransaction → PendingTransaction) (r : Replica) :
    (mapPending tid f r).store = r.store := by
  unfold mapPending
  split <;> rfl

theorem active_mapPending (tid : TxnId) (f : PendingTransaction → PendingTransaction) (r : Replica) :
    (mapPending tid f r).activeTxns = r.activeTxns := by
  unfold mapPending
  split <;> rfl

/-- Only what is kept for the transaction counts. -/
theorem Ready.congr {r r' : Replica} (h : Ready tid r)
    (hpend : r'.pendingTxns.lookup tid = r.pendingTxns.lookup tid)
    (hlog : ∀ lsn, (r.log.find lsn).isSome → (r'.log.find lsn).isSome)
    (hactive : r'.activeTxns.lookup tid = r.activeTxns.lookup tid)
    (hclient : r'.clientList.lookup tid = r.clientList.lookup tid) : Ready tid r' := by
  intro req hreq
  rw [hpend] at hreq
  have hold := h req hreq
  exact ⟨hold.takesPart, hold.undecided, hold.unconfirmed, hlog _ hold.entry, hactive ▸ hold.active,
    hclient ▸ hold.client⟩

theorem Ready.of_none {r : Replica} (h : r.pendingTxns.lookup tid = none) : Ready tid r := by
  intro req hreq
  rw [h] at hreq
  cases hreq

theorem Ready.set {r : Replica} {req : PendingTransaction} (hreq : Joined tid r req) :
    Ready tid { r with pendingTxns := r.pendingTxns.insert tid req } := by
  intro req' hreq'
  rw [AList.lookup_insert] at hreq'
  cases hreq'
  exact ⟨hreq.takesPart, hreq.undecided, hreq.unconfirmed, hreq.entry, hreq.active, hreq.client⟩

theorem Ready.mapPending {r : Replica} (h : Ready tid r)
    {f : PendingTransaction → PendingTransaction}
    (hf : ∀ req, Joined tid r req → Joined tid r (f req)) :
    Ready tid (Replica.mapPending tid f r) := by
  unfold Replica.mapPending
  split
  · exact h
  · rename_i req hreq
    exact .set (hf req (h req hreq))

/-- The transaction is ready and the store is `st`: what the handlers that do not touch the
store keep. -/
structure Calm (tid : TxnId) (st : TxnStore) (x : Ctx Replica Addr Msg Event) : Prop where
  store : x.state.store = st
  ready : Ready tid x.state

section Calm

variable {st : TxnStore} (hx : Calm tid st x)
include hx

theorem Calm.send (ps : List Pkt) : Calm tid st { x with sent := x.sent ++ ps } :=
  ⟨hx.store, hx.ready⟩

theorem Calm.erasePending : Calm tid st { x with state := { x.state with
    pendingTxns := x.state.pendingTxns.erase tid } } :=
  ⟨hx.store, .of_none (AList.lookup_erase _ _)⟩

theorem Calm.eraseAll : Calm tid st { x with state := { x.state with
    pendingTxns := x.state.pendingTxns.erase tid
    activeTxns := x.state.activeTxns.erase tid
    clientList := x.state.clientList.erase tid } } :=
  ⟨hx.store, .of_none (AList.lookup_erase _ _)⟩

theorem Calm.eraseBoth : Calm tid st { x with state := { x.state with
    pendingTxns := x.state.pendingTxns.erase tid
    activeTxns := x.state.activeTxns.erase tid } } :=
  ⟨hx.store, .of_none (AList.lookup_erase _ _)⟩

/-- Without a pointer nothing is pending. -/
theorem Calm.nullActive (hnone : x.state.activeTxns.lookup tid = none) :
    Calm tid st { x with state := { x.state with
      activeTxns := x.state.activeTxns.insert tid none } } := by
  refine ⟨hx.store, fun req hreq => ?_⟩
  obtain ⟨txn, htxn⟩ := (hx.ready req hreq).active
  rw [hnone] at htxn
  cases htxn

theorem Calm.nullClient (hnone : x.state.clientList.lookup tid = none) :
    Calm tid st { x with state := { x.state with
      clientList := x.state.clientList.insert tid none } } := by
  refine ⟨hx.store, fun req hreq => ?_⟩
  obtain ⟨a, ha⟩ := (hx.ready req hreq).client
  rw [hnone] at ha
  cases ha

theorem Calm.mapPending {f : PendingTransaction → PendingTransaction}
    (hf : ∀ req, Joined tid x.state req → Joined tid x.state (f req)) :
    Calm tid st { x with state := Replica.mapPending tid f x.state } :=
  ⟨(store_mapPending _ _ _).trans hx.store, hx.ready.mapPending hf⟩

/-- The timer of a pending transaction changes. -/
theorem Calm.setTimer (t : Option ReplicaTimer) :
    Calm tid st { x with
      state := Replica.mapPending tid (fun req => { req with timer := t }) x.state } :=
  hx.mapPending fun _ h => h.congr rfl rfl rfl rfl

end Calm

/-! ### Handlers that do not touch the store -/

/-- A program that leaves the store alone and keeps a pending transaction ready. -/
abbrev StaysCalm (tid : TxnId) (st : TxnStore) {α : Type} (p : ReplicaM α)
    (x : Ctx Replica Addr Msg Event) : Prop :=
  wp p (fun _ => Calm tid st) (Calm tid st) x

section Handlers

variable {st : TxnStore}

theorem replicateTxn_calm (hx : Calm tid st x) : StaysCalm tid st (replicateTxn env ω tid) x := by
  simp only [StaysCalm, replicateTxn, wp_bind, wp_read, wp_deref, wp_sendMessageToAll, wp_ite,
    wp_erasePending]
  refine ⟨fun req _ => ⟨fun _ => ?_, fun _ => (hx.send _).erasePending⟩, fun _ => hx⟩
  split
  · exact hx.send _
  · exact (hx.send _).setTimer _
  · exact (hx.send _).setTimer _

theorem resendReplicateTxn_calm (hx : Calm tid st x) :
    StaysCalm tid st (resendReplicateTxn env ω tid) x := by
  simp only [StaysCalm, resendReplicateTxn, wp_ite, wp_pure]
  exact ⟨fun _ => hx, fun _ => replicateTxn_calm hx⟩

theorem invokeReplicateTxn_calm (hx : Calm tid st x) {entry : LogEntry} (hT : entry.txn = tid)
    (hentry : (x.state.log.find entry.id).isSome)
    (hclient : ∃ a, x.state.clientList.lookup tid = some (some a)) (pre : Bool) :
    StaysCalm tid st (invokeReplicateTxn env ω entry pre) x := by
  subst hT
  simp only [StaysCalm, invokeReplicateTxn, wp_bind, wp_read]
  split
  · simp only [wp_bind, wp_derefActive, wp_update, wp_ite, wp_pure]
    refine ⟨fun txn htxn => ?_, fun _ => hx, hx.nullActive⟩
    have hnew : ∀ req : PendingTransaction, req.isParticipant = true →
        req.reachCommitDecision = false → req.sendConfirms = false → req.lsn = entry.id →
        Calm entry.txn st { x with state := { x.state with
          pendingTxns := x.state.pendingTxns.insert entry.txn req } } := by
      intro req hpart hopen hconf hlsn
      exact ⟨hx.store, .set ⟨hpart, hopen, hconf, hlsn ▸ hentry, ⟨txn, htxn⟩, hclient⟩⟩
    exact ⟨fun _ => hnew _ rfl rfl rfl rfl, fun _ => replicateTxn_calm (hnew _ rfl rfl rfl rfl)⟩
  · simp only [wp_bind, wp_derefActive, wp_modifyPending, wp_ite]
    refine ⟨fun _ => ⟨fun txn _ => ?_, fun _ => hx, hx.nullActive⟩,
      fun _ => resendReplicateTxn_calm hx⟩
    refine replicateTxn_calm (hx.mapPending fun req h => ?_)
    exact ⟨h.takesPart, h.undecided, h.unconfirmed, hentry, h.active, h.client⟩

theorem handleConsensus_calm (hx : Calm tid st x) :
    StaysCalm tid st (handleConsensus env ω tid) x := by
  simp only [StaysCalm, handleConsensus, wp_bind, wp_derefActive, wp_read]
  refine ⟨fun txn _ => ?_, fun _ => hx, hx.nullActive⟩
  cases x.state.pendingTxns.lookup tid with
  | none => exact hx
  | some req =>
      simp only [wp_deref_some, wp_ite, wp_pure, wp_bind, wp_derefClient, wp_sendMessageToShard,
        wp_modifyPending, wp_erasePending, wp_eraseActive, wp_sendMessage, wp_eraseClient]
      exact ⟨fun _ => ⟨fun _ => (hx.send _).setTimer _, fun _ => hx.eraseBoth⟩, fun _ =>
        ⟨fun _ => hx, fun _ => ⟨fun a _ => ⟨fun _ => (hx.send _).setTimer _, fun _ => hx.eraseAll⟩,
          fun _ => hx, hx.nullClient⟩⟩⟩

theorem handleReplicateTransactionReply_calm (hx : Calm tid st x) {msg : ReplicateTransactionReply}
    (hT : msg.txnId = tid) :
    StaysCalm tid st (handleReplicateTransactionReply env ω msg) x := by
  subst hT
  simp only [StaysCalm, handleReplicateTransactionReply, wp_bind, wp_read]
  split
  · exact hx
  · simp only [wp_bind, wp_ite, wp_pure, wp_modifyPending, wp_emit]
    refine ⟨fun _ => hx, fun _ => ⟨fun _ => handleConsensus_calm ⟨?_, ?_⟩, fun _ => ?_⟩⟩
    · exact (store_mapPending ..).trans ((store_mapPending ..).trans hx.store)
    · refine Ready.mapPending (Ready.mapPending hx.ready ?_) ?_
      · exact fun _ h => h.congr rfl rfl rfl rfl
      · exact fun _ h => h.congr rfl rfl rfl rfl
    · exact hx.mapPending fun _ h => h.congr rfl rfl rfl rfl

theorem resendPrepareOk_calm (hx : Calm tid st x) :
    StaysCalm tid st (resendPrepareOk env ω tid) x := by
  simp only [StaysCalm, resendPrepareOk, wp_bind, wp_read]
  split
  · exact hx
  · simp only [wp_bind, wp_derefActive, wp_ite, wp_when, wp_derefClient, wp_sendMessageToShard,
      wp_sendMessage, wp_modifyPending]
    exact ⟨fun txn _ => ⟨fun _ => ⟨fun _ => (hx.send _).setTimer _, fun _ => hx⟩,
      fun _ => ⟨fun a _ => ⟨fun _ => (hx.send _).setTimer _, fun _ => hx⟩, fun _ => hx,
        hx.nullClient⟩⟩, fun _ => hx, hx.nullActive⟩

theorem handleTimer_calm (hx : Calm tid st x)
    (hprep : ∀ tid, x.state.pendingPrepares.lookup tid = none) {t : Timer}
    (hT : t = .pendingTxn tid ∨ t = .pendingPrepare tid) :
    StaysCalm tid st (handleTimer env ω t) x := by
  rcases hT with rfl | rfl
  · simp only [StaysCalm, handleTimer, wp_bind, wp_read]
    split
    · exact hx
    · split
      · exact resendReplicateTxn_calm hx
      · exact resendPrepareOk_calm hx
      · exact hx
  · simp only [StaysCalm, handleTimer, wp_bind, wp_read, hprep]
    exact hx

/-- The leader logs a transaction it accepted. -/
theorem logPrepare_calm (hx : Calm tid st x) (remote : Addr) {txn : Transaction}
    (hT : txn.id = tid) : StaysCalm tid st (logPrepare env ω remote txn) x := by
  subst hT
  simp only [StaysCalm, logPrepare, wp_bind, wp_update, wp_read, wp_emit]
  refine invokeReplicateTxn_calm ?_ rfl ?_ ⟨remote, AList.lookup_insert _⟩ _
  · refine ⟨hx.store, fun req hreq => ?_⟩
    have hold := hx.ready req hreq
    exact ⟨hold.takesPart, hold.undecided, hold.unconfirmed, isSome_find_add hold.entry,
      ⟨txn, AList.lookup_insert _⟩, remote, AList.lookup_insert _⟩
  · show ((x.state.log.add 0 txn.id txn.writeSet .prepareOk txn.commitTs.timestamp).2.find
      x.state.log.last).isSome
    rw [Log.find_add, if_pos rfl]
    rfl

theorem acceptPrepare_calm (hx : Calm tid st x) (remote : Addr) {txn : Transaction}
    (hT : txn.id = tid) : StaysCalm tid st (acceptPrepare env ω remote txn) x := by
  have hlog : ∀ {y : Ctx Replica Addr Msg Event}, Calm tid st y →
      StaysCalm tid st (when env.isLeader (logPrepare env ω remote txn)) y := by
    intro y hy
    rw [StaysCalm, wp_when]
    exact ⟨fun _ => logPrepare_calm hy remote hT, fun _ => hy⟩
  simp only [StaysCalm, acceptPrepare, wp_ite, wp_pure, wp_bind, wp_when, wp_sendMessageToShard,
    wp_sendMessage] at hlog ⊢
  exact ⟨fun _ => hx, fun _ => ⟨fun _ => ⟨fun _ => hlog ((hx.send _).send _),
    fun _ => hlog (hx.send _)⟩, fun _ => ⟨fun _ => hlog (hx.send _), fun _ => hlog hx⟩⟩⟩

theorem answerPrepare_calm (hx : Calm tid st x) (remote : Addr) (msg : PrepareTransaction)
    (reply : PrepareTransactionReply) : StaysCalm tid st (answerPrepare env remote msg reply) x := by
  simp only [StaysCalm, answerPrepare, wp_ite, wp_sendMessageToShard, wp_sendMessage]
  exact ⟨fun _ => hx.send _, fun _ => hx.send _⟩

end Handlers

/-! ### Prepares -/

/-- The store after a `PrepareTransaction` that gets to the concurrency control. -/
def controlled (env : ReplicaEnv) (ω : Choice) (r : Replica) (msg : PrepareTransaction) : TxnStore :=
  (r.store.prepareUpcall ω.clock msg.tid (transactionOf msg).serialize
    (env.isLeader || decide (env.cfg.mode = .carousel) || decide (env.cfg.mode = .rc))).2

theorem prepareNew_calm (hready : Ready tid x.state) {msg : PrepareTransaction} (hT : msg.tid = tid)
    (remote : Addr) :
    StaysCalm tid (controlled env ω x.state msg) (prepareNew env ω remote msg) x := by
  subst hT
  simp only [StaysCalm, prepareNew, wp_bind, wp_update, wp_read, wp_withStore, wp_ite,
    refusePrepare, wp_sendMessage, acceptChecked, wp_when, wp_emit]
  refine ⟨fun _ => ?_, fun _ => ⟨fun _ => ?_, fun _ => ?_⟩⟩
  · constructor
    · rfl
    · exact hready.congr rfl (fun _ h => h) rfl rfl
  · apply acceptPrepare_calm
    · constructor
      · rfl
      · exact hready.congr rfl (fun _ h => h) rfl rfl
    · rfl
  · apply acceptPrepare_calm
    · constructor
      · rfl
      · exact hready.congr rfl (fun _ h => h) rfl rfl
    · rfl

/-- A prepare runs the concurrency control or leaves the store alone. -/
theorem handlePrepareTxn_calm (hready : Ready tid x.state) {msg : PrepareTransaction}
    (hT : msg.tid = tid) (hdirect : msg.mode ≠ .slow ∧ msg.mode ≠ .rc) (remote : Addr)
    {st : TxnStore} (hcontrol : reachesControl env x.state msg = true →
      st = controlled env ω x.state msg)
    (hrest : reachesControl env x.state msg = false → st = x.state.store) :
    StaysCalm tid st (handlePrepareTxn env ω remote msg) x := by
  subst hT
  have hmode : ∀ P, ¬ ((msg.mode = .slow ∨ msg.mode = .rc) ∧ P) := fun P h =>
    h.1.elim hdirect.1 hdirect.2
  have hstart : startsRound env x.state msg = false := decide_eq_false (hmode _)
  simp only [StaysCalm, handlePrepareTxn, wp_bind, wp_read, if_neg (hmode _), wp_ite, wp_update]
  refine ⟨fun hdep => ?_, fun hdep => ?_⟩
  · have hst := hrest (by simp [reachesControl, hdep])
    exact ⟨hst.symm, hready.congr rfl (fun _ h => h) rfl rfl⟩
  · cases hcom : x.state.committedTxns.lookup msg.tid with
    | some y =>
        have hst := hrest (by simp [reachesControl, hcom])
        exact answerPrepare_calm ⟨hst.symm, hready⟩ remote msg _
    | none =>
        simp only [wp_bind, wp_read]
        cases hreq : x.state.pendingTxns.lookup msg.tid with
        | none =>
            rw [hcontrol (by simp [reachesControl, hstart, hdep, hcom, hreq])]
            exact prepareNew_calm hready rfl remote
        | some req =>
            simp only [wp_ite, wp_bind, wp_derefActive]
            refine ⟨fun hagreed => ?_, fun hopen => ?_⟩
            · have hst := hrest (by simp [reachesControl, hreq, hagreed])
              have hcalm : Calm msg.tid st x := ⟨hst.symm, hready⟩
              exact ⟨fun txn _ => answerPrepare_calm hcalm remote msg _, fun _ => hcalm,
                hcalm.nullActive⟩
            · rw [hcontrol (by simp [reachesControl, hstart, hdep, hcom, hreq, hopen])]
              exact prepareNew_calm hready rfl remote

/-! ### Steps for other transactions -/

/-- A pointer that is not null stays so when only counters change. -/
theorem isSome_activeLike {o o' : Option (Option Transaction)} (h : ActiveLike o o')
    (ho : ∃ txn, o = some (some txn)) : ∃ txn, o' = some (some txn) := by
  obtain ⟨txn, rfl⟩ := ho
  cases o' with
  | none => cases h
  | some p =>
      cases p with
      | none => cases h
      | some txn' => exact ⟨txn', rfl⟩

/-- **A step for another transaction** keeps this one ready. -/
theorem Ops.ready {x₀ : Ctx Replica Addr Msg Event} {T : TxnId} {C A : Prop}
    (h : Ops env T C A x₀ x) (hne : tid ≠ T) (hready : Ready tid x₀.state) : Ready tid x.state := by
  induction h with
  | refl => exact hready
  | tail _ hop ih =>
      cases hop with
      | pending t ht => exact ih.congr (ht tid hne) (fun _ h => h) rfl rfl
      | active t ht =>
          intro req hreq
          have hold := ih req hreq
          exact ⟨hold.takesPart, hold.undecided, hold.unconfirmed, hold.entry,
            isSome_activeLike (ht tid hne) hold.active, hold.client⟩
      | client t ht => exact ih.congr rfl (fun _ h => h) rfl (ht tid hne)
      | rest log ts deps hlog => exact ih.congr rfl hlog rfl rfl
      | send ps => exact ih
      | event e he => exact ih
      | _ => exact ih.congr rfl (fun _ h => h) rfl rfl

end Replica

end D2PC
