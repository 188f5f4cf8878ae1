import Mathlib.Logic.Relation
import D2PC.Invariant.Direct

/-!
# What a step of a replica can do

In the direct modes every message handler and timer of `LRReplica` is a sequence of
elementary operations on behalf of one transaction, the one the message or timer is about.
`Replica.Op` lists them: which tables are written and where, which operations of the store
are called, and what is recorded. A fact that every operation keeps is kept by every step,
whatever the branch taken and wherever the process dies.

* `Replica.Op`, `Replica.Ops` : one operation, and a sequence of them;
* `Replica.handleInput_ops` : a step is such a sequence;
* `Replica.Ops.rel` : what single operations keep, sequences keep.
-/

namespace D2PC

open Prog Ctx

/-- A transaction without its dependency counters. -/
def Transaction.core (t : Transaction) : Transaction := { t with inCount := 0, out := [] }

/-- Two entries of `activeTxns` that differ in null pointers and counters at most. -/
def ActiveLike (o o' : Option (Option Transaction)) : Prop :=
  o'.join.map Transaction.core = o.join.map Transaction.core

/-- The events that tell neither of an outcome nor of an abort. -/
def Event.Plain (tid : TxnId) : Event → Prop
  | .validated t _ | .consensus t => t = tid
  | .logged _ e => e.txn = tid
  | .served _ t _ => t = tid
  | _ => False

namespace Replica

/-- **One operation** on behalf of the transaction `T`. The step may install a commit if `C`
and may abort if `A`. -/
inductive Op (env : ReplicaEnv) (T : TxnId) (C A : Prop) :
    Ctx Replica Addr Msg Event → Ctx Replica Addr Msg Event → Prop
  | send (x) (ps : List Pkt) : Op env T C A x { x with sent := x.sent ++ ps }
  | event (x) (e : Event) (he : e.Plain T) :
      Op env T C A x { x with events := x.events ++ [e] }
  | pending (x) (t : Table TxnId PendingTransaction)
      (ht : ∀ T', T' ≠ T → t.lookup T' = x.state.pendingTxns.lookup T') :
      Op env T C A x { x with state := { x.state with pendingTxns := t } }
  | active (x) (t : Table TxnId (Option Transaction))
      (ht : ∀ T', T' ≠ T → ActiveLike (x.state.activeTxns.lookup T') (t.lookup T')) :
      Op env T C A x { x with state := { x.state with activeTxns := t } }
  | client (x) (t : Table TxnId (Option Addr))
      (ht : ∀ T', T' ≠ T → t.lookup T' = x.state.clientList.lookup T') :
      Op env T C A x { x with state := { x.state with clientList := t } }
  | committed (x) (t : Table TxnId (LogEntryState × ℕ))
      (ht : ∀ T', T' ≠ T → t.lookup T' = x.state.committedTxns.lookup T') :
      Op env T C A x { x with state := { x.state with committedTxns := t } }
  | rest (x) (log : Log) (ts : ℕ) (deps : Table TxnId ℤ)
      (hlog : ∀ lsn, (x.state.log.find lsn).isSome → (log.find lsn).isSome) :
      Op env T C A x { x with state := { x.state with
        log := log, currentTs := ts, inDependency := deps } }
  | prepare (x) (clock : Clock) (m : TransactionMessage) (doCheck : Bool) :
      Op env T C A x { x with state := { x.state with
        store := (x.state.store.prepareUpcall clock T m doCheck).2 } }
  | preCommit (x) (hmode : env.cfg.mode = .parallel) (req : PendingTransaction)
      (hreq : x.state.pendingTxns.lookup T = some req) :
      Op env T C A x { x with state := { x.state with store := x.state.store.preCommit req.tid } }
  | commit (x) (hC : C) (ts : ℕ) :
      Op env T C A x { x with
        state := { x.state with store := x.state.store.commit T ts }
        events := x.events ++ [.applied T .commit ts] }
  | abort (x) (hA : A) (ts : ℕ) :
      Op env T C A x { x with
        state := { x.state with store := x.state.store.abort T }
        events := x.events ++ [.applied T .abort ts] }
  | cascade (x) (hA : A) (d : TxnId) (hd : d = T ∨ ∃ T' txn,
      x.state.activeTxns.lookup T' = some (some txn) ∧ d ∈ txn.out) :
      Op env T C A x { x with
        state := { x.state with store := x.state.store.abort d }
        events := x.events ++ [.cascaded d] }
  | replicate (x) (hfollower : env.isLeader = false ∨ env.cfg.mode = .rc) (s : TxnStore)
      (hs : s = x.state.store.abort T ∨ ∃ ts, s = x.state.store.commit T ts) :
      Op env T C A x { x with state := { x.state with store := s } }

/-- A sequence of operations. -/
abbrev Ops (env : ReplicaEnv) (T : TxnId) (C A : Prop) :
    Ctx Replica Addr Msg Event → Ctx Replica Addr Msg Event → Prop :=
  Relation.ReflTransGen (Op env T C A)

variable {env : ReplicaEnv} {T : TxnId} {C A : Prop} {x₀ x : Ctx Replica Addr Msg Event}
  {ω : Choice}

/-- What single operations keep, sequences keep. -/
theorem Ops.rel {R : Ctx Replica Addr Msg Event → Prop} (hop : ∀ x x', Op env T C A x x' → R x → R x')
    (h : Ops env T C A x₀ x) (hx : R x₀) : R x := by
  induction h with
  | refl => exact hx
  | tail _ hstep ih => exact hop _ _ hstep ih

/-! ### The primitives -/

section Primitives

variable (hx : Ops env T C A x₀ x)
include hx

theorem Ops.send (ps : List Pkt) : Ops env T C A x₀ { x with sent := x.sent ++ ps } :=
  hx.tail (.send x ps)

theorem Ops.event (e : Event) (he : e.Plain T) :
    Ops env T C A x₀ { x with events := x.events ++ [e] } :=
  hx.tail (.event x e he)

theorem Ops.deps (deps : Table TxnId ℤ) :
    Ops env T C A x₀ { x with state := { x.state with inDependency := deps } } :=
  hx.tail (.rest x _ _ deps fun _ h => h)

theorem Ops.clock (ts : ℕ) :
    Ops env T C A x₀ { x with state := { x.state with currentTs := ts } } :=
  hx.tail (.rest x _ ts _ fun _ h => h)

theorem Ops.setPending (req : PendingTransaction) :
    Ops env T C A x₀ { x with state := { x.state with
      pendingTxns := x.state.pendingTxns.insert T req } } :=
  hx.tail (.pending x _ fun _ hne => AList.lookup_insert_ne hne)

theorem Ops.mapPending (f : PendingTransaction → PendingTransaction) :
    Ops env T C A x₀ { x with state := Replica.mapPending T f x.state } := by
  unfold Replica.mapPending
  split
  · exact hx
  · exact hx.setPending _

theorem Ops.erasePending :
    Ops env T C A x₀ { x with state := { x.state with
      pendingTxns := x.state.pendingTxns.erase T } } :=
  hx.tail (.pending x _ fun _ hne => AList.lookup_erase_ne hne)

theorem Ops.setActive (p : Option Transaction) :
    Ops env T C A x₀ { x with state := { x.state with
      activeTxns := x.state.activeTxns.insert T p } } := by
  refine hx.tail (.active x _ fun _ hne => ?_)
  rw [AList.lookup_insert_ne hne]
  exact rfl

theorem Ops.eraseActive :
    Ops env T C A x₀ { x with state := { x.state with
      activeTxns := x.state.activeTxns.erase T } } := by
  refine hx.tail (.active x _ fun _ hne => ?_)
  rw [AList.lookup_erase_ne hne]
  exact rfl

/-- A missing pointer becomes a null pointer. -/
theorem Ops.nullActive {tid : TxnId} (hnone : x.state.activeTxns.lookup tid = none) :
    Ops env T C A x₀ { x with state := { x.state with
      activeTxns := x.state.activeTxns.insert tid none } } := by
  refine hx.tail (.active x _ fun T' _ => ?_)
  rw [ActiveLike, Table.lookup_insert_eq]
  split_ifs with heq
  · rw [heq, hnone]
    rfl
  · rfl

/-- Counters of any transaction may change. -/
theorem Ops.mapActive (tid : TxnId) {f : Transaction → Transaction}
    (hf : ∀ t, (f t).core = t.core) :
    Ops env T C A x₀ { x with state := Replica.mapActive tid f x.state } := by
  unfold Replica.mapActive
  split
  · rename_i txn htxn
    refine hx.tail (.active x _ fun T' _ => ?_)
    rw [ActiveLike, Table.lookup_insert_eq]
    split_ifs with heq
    · rw [heq, htxn]
      simp only [Option.join_some, Option.map_some, hf]
    · rfl
  · exact hx

theorem Ops.setClient (a : Option Addr) :
    Ops env T C A x₀ { x with state := { x.state with
      clientList := x.state.clientList.insert T a } } :=
  hx.tail (.client x _ fun _ hne => AList.lookup_insert_ne hne)

theorem Ops.eraseClient :
    Ops env T C A x₀ { x with state := { x.state with
      clientList := x.state.clientList.erase T } } :=
  hx.tail (.client x _ fun _ hne => AList.lookup_erase_ne hne)

theorem Ops.setCommitted (y : LogEntryState × ℕ) :
    Ops env T C A x₀ { x with state := { x.state with
      committedTxns := x.state.committedTxns.insert T y } } :=
  hx.tail (.committed x _ fun _ hne => AList.lookup_insert_ne hne)

theorem Ops.replicate (hfollower : env.isLeader = false ∨ env.cfg.mode = .rc) {s : TxnStore}
    (hs : s = x.state.store.abort T ∨ ∃ ts, s = x.state.store.commit T ts) :
    Ops env T C A x₀ { x with state := { x.state with store := s } } :=
  hx.tail (.replicate x hfollower s hs)

theorem Ops.setLog {log : Log}
    (hlog : ∀ lsn, (x.state.log.find lsn).isSome → (log.find lsn).isSome) :
    Ops env T C A x₀ { x with state := { x.state with log := log } } :=
  hx.tail (.rest x log _ _ hlog)

end Primitives

/-- A program that is a sequence of operations. -/
abbrev Does (env : ReplicaEnv) (T : TxnId) (C A : Prop) (x₀ : Ctx Replica Addr Msg Event)
    {α : Type} (p : ReplicaM α) (x : Ctx Replica Addr Msg Event) : Prop :=
  wp p (fun _ => Ops env T C A x₀) (Ops env T C A x₀) x

/-! ### Replication -/

theorem replicateTxn_ops (hx : Ops env T C A x₀ x) : Does env T C A x₀ (replicateTxn env ω T) x := by
  simp only [Does, replicateTxn, wp_bind, wp_read, wp_deref, wp_sendMessageToAll, wp_ite,
    wp_erasePending]
  refine ⟨fun req _ => ⟨fun _ => ?_, fun _ => (hx.send _).erasePending⟩, fun _ => hx⟩
  split
  · exact hx.send _
  · exact (hx.send _).mapPending _
  · exact (hx.send _).mapPending _

theorem resendReplicateTxn_ops (hx : Ops env T C A x₀ x) :
    Does env T C A x₀ (resendReplicateTxn env ω T) x := by
  simp only [Does, resendReplicateTxn, wp_ite, wp_pure]
  exact ⟨fun _ => hx, fun _ => replicateTxn_ops hx⟩

theorem invokeReplicateTxn_ops (hx : Ops env T C A x₀ x) {entry : LogEntry} (hT : entry.txn = T)
    (pre : Bool) : Does env T C A x₀ (invokeReplicateTxn env ω entry pre) x := by
  subst hT
  simp only [Does, invokeReplicateTxn, wp_bind, wp_read]
  split
  · simp only [wp_bind, wp_derefActive, wp_update, wp_ite, wp_pure]
    exact ⟨fun txn _ => ⟨fun _ => hx.setPending _, fun _ => replicateTxn_ops (hx.setPending _)⟩,
      fun _ => hx, hx.nullActive⟩
  · simp only [wp_bind, wp_derefActive, wp_modifyPending, wp_ite]
    exact ⟨fun _ => ⟨fun txn _ => replicateTxn_ops (hx.mapPending _), fun _ => hx, hx.nullActive⟩,
      fun _ => resendReplicateTxn_ops hx⟩

/-! ### Logs only grow -/

theorem isSome_find_same {l l' : Log} (hlog : Log.Same l l') {lsn : ℕ} (h : (l.find lsn).isSome) :
    (l'.find lsn).isSome := by
  rcases hlog.find lsn with ⟨hnone, _⟩ | ⟨_, e', _, he', _⟩
  · rw [hnone] at h
    cases h
  · rw [he']
    rfl

theorem isSome_find_add {l : Log} {t : Transaction} {lsn : ℕ} (h : (l.find lsn).isSome) :
    ((l.add 0 t.id t.writeSet .prepareOk t.commitTs.timestamp).2.find lsn).isSome := by
  rw [Log.find_add]
  split_ifs
  · rfl
  · exact h

theorem isSome_find_addProto {l : Log} {e : LogEntryProto} {lsn : ℕ} (h : (l.find lsn).isSome) :
    ((l.addProto e).find lsn).isSome := by
  rw [Log.find_addProto]
  split_ifs
  · rfl
  · exact h

theorem handleReplicateTransaction_ops (hx : Ops env T C A x₀ x) {msg : ReplicateTransaction}
    (hT : msg.txnLog.txnId = T) (remote : Addr) :
    Does env T C A x₀ (handleReplicateTransaction env ω remote msg) x := by
  subst hT
  have hsend : ∀ {y}, Ops env msg.txnLog.txnId C A x₀ y → Does env msg.txnLog.txnId C A x₀ (do
      sendMessage env remote (.replicateTransactionReply
        { lsn := msg.txnLog.lsn, term := 0, replicaId := env.replicaId,
          txnId := msg.txnLog.txnId })
      when (env.cfg.mode = .parallel) do
        sendMessageToCoordinator env.replicaId (.replicateReplyAndVote
          { tid := msg.txnLog.txnId
            shard := env.shardId
            replica := env.replicaId
            vote := if msg.vote = .prepareOk then .prepared else .commit
            participants := msg.participants
            primaryShard := msg.primaryShard
            primaryCoordinator := msg.primaryCoordinator
            hasPreCommit := msg.hasPreCommit })) y := by
    intro y hy
    simp only [Does, wp_bind, wp_sendMessage, wp_when, wp_sendMessageToCoordinator]
    exact ⟨fun _ => (hy.send _).send _, fun _ => hy.send _⟩
  have hx₁ := hx.clock (max x.state.currentTs msg.txnLog.timestamp)
  rw [Does, handleReplicateTransaction, wp_bind, wp_update, wp_bind, wp_read, wp_bind, wp_when]
  refine ⟨fun _ => ?_, fun _ => hsend hx₁⟩
  simp only [wp_bind, wp_update, wp_emit, wp_withStore]
  have hx₂ := hx₁.setLog fun _ => isSome_find_addProto (e := msg.txnLog)
  have hx₃ := hx₂.event (.logged msg.txnLog.lsn (Log.ofProto msg.txnLog)) rfl
  exact hsend ((hx₃.setActive _).tail (.prepare _ _ _ _))

theorem handleConsensus_ops (hx : Ops env T C A x₀ x) :
    Does env T C A x₀ (handleConsensus env ω T) x := by
  simp only [Does, handleConsensus, wp_bind, wp_derefActive, wp_read]
  refine ⟨fun txn _ => ?_, fun _ => hx, hx.nullActive⟩
  cases x.state.pendingTxns.lookup T with
  | none => exact hx
  | some req =>
      simp only [wp_deref_some, wp_ite, wp_pure, wp_bind, wp_derefClient, wp_sendMessageToShard,
        wp_modifyPending, wp_erasePending, wp_eraseActive, wp_sendMessage, wp_eraseClient]
      exact ⟨fun _ => ⟨fun _ => (hx.send _).mapPending _, fun _ => hx.erasePending.eraseActive⟩,
        fun _ => ⟨fun _ => hx, fun _ => ⟨fun a _ => ⟨fun _ => (hx.send _).mapPending _,
          fun _ => hx.erasePending.eraseActive.eraseClient⟩, fun _ => hx, fun _ => hx.setClient _⟩⟩⟩

theorem handleReplicateTransactionReply_ops (hx : Ops env T C A x₀ x)
    {msg : ReplicateTransactionReply} (hT : msg.txnId = T) :
    Does env T C A x₀ (handleReplicateTransactionReply env ω msg) x := by
  subst hT
  simp only [Does, handleReplicateTransactionReply, wp_bind, wp_read]
  split
  · exact hx
  · simp only [wp_bind, wp_ite, wp_pure, wp_modifyPending, wp_emit]
    refine ⟨fun _ => hx, fun _ => ⟨fun _ => ?_, fun _ => hx.mapPending _⟩⟩
    exact handleConsensus_ops (((hx.mapPending _).mapPending _).event (.consensus msg.txnId) rfl)

theorem resendPrepareOk_ops (hx : Ops env T C A x₀ x) :
    Does env T C A x₀ (resendPrepareOk env ω T) x := by
  simp only [Does, resendPrepareOk, wp_bind, wp_read]
  split
  · exact hx
  · simp only [wp_bind, wp_derefActive, wp_ite, wp_when, wp_derefClient, wp_sendMessageToShard,
      wp_sendMessage, wp_modifyPending]
    exact ⟨fun txn _ => ⟨fun _ => ⟨fun _ => (hx.send _).mapPending _, fun _ => hx⟩,
      fun _ => ⟨fun a _ => ⟨fun _ => (hx.send _).mapPending _, fun _ => hx⟩, fun _ => hx,
        fun _ => hx.setClient _⟩⟩, fun _ => hx, hx.nullActive⟩

/-! ### The decision -/

/-- The pointers of a table that are not null. -/
def Keeps (t : Table TxnId (Option Transaction)) (x : Ctx Replica Addr Msg Event) : Prop :=
  ∀ d txn, x.state.activeTxns.lookup d = some (some txn) ↔ t.lookup d = some (some txn)

theorem Keeps.nullActive {t : Table TxnId (Option Transaction)} (hx : Keeps t x) {tid : TxnId}
    (hnone : x.state.activeTxns.lookup tid = none) :
    Keeps t { x with state := { x.state with
      activeTxns := x.state.activeTxns.insert tid none } } := by
  intro d txn
  rw [← hx d txn, Table.lookup_insert_eq]
  split_ifs with heq
  · rw [heq, hnone]
    exact ⟨(fun h => by cases h), fun h => by cases h⟩
  · exact Iff.rfl

/-- The cascade follows the `out` lists of the active transactions. -/
theorem cascadeAbort_ops (hA : A) {t : Table TxnId (Option Transaction)} (fuel : ℕ) :
    ∀ {x : Ctx Replica Addr Msg Event} {d : TxnId}, Ops env T C A x₀ x → Keeps t x →
      (d = T ∨ ∃ T' txn, t.lookup T' = some (some txn) ∧ d ∈ txn.out) →
      wp (cascadeAbort env fuel d) (fun _ x' => Ops env T C A x₀ x' ∧ Keeps t x')
        (Ops env T C A x₀) x := by
  induction fuel with
  | zero => exact fun hx _ _ => hx
  | succ fuel ih =>
      intro x d hx ht hd
      simp only [cascadeAbort, wp_bind, wp_withStore, wp_emit, wp_read]
      have hx₁ : Ops env T C A x₀ { x with
          state := { x.state with store := x.state.store.abort d }
          events := x.events ++ [.cascaded d] } := by
        refine hx.tail (.cascade x hA d (hd.imp_right ?_))
        rintro ⟨T', txn, hlook, hmem⟩
        exact ⟨T', txn, (ht T' txn).2 hlook, hmem⟩
      split
      · exact ⟨hx₁, ht⟩
      · simp only [wp_bind, wp_derefActive]
        refine ⟨fun txn htxn => ?_, fun _ => hx₁, hx₁.nullActive⟩
        refine wp_forM (fun out hout y hy => ?_) ⟨hx₁, ht⟩
        simp only [wp_bind, wp_read]
        split
        · simp only [wp_bind, wp_sendMessageToCoordinators]
          refine wp_mono (fun _ z hz => ⟨hz.1.send _, hz.2⟩) (fun _ hz => hz)
            (ih hy.1 hy.2 (.inr ⟨d, txn, (ht d txn).1 htxn, hout⟩))
        · exact ⟨hy.1.deps _, hy.2⟩

theorem notifyForFollowingDependenies_ops (hx : Ops env T C A x₀ x) (tid : TxnId) :
    Does env T C A x₀ (notifyForFollowingDependenies env tid) x := by
  simp only [Does, notifyForFollowingDependenies, wp_bind, wp_read]
  split
  · exact hx
  · simp only [wp_bind, wp_derefActive]
    refine ⟨fun txn _ => wp_forM (fun out _ y hy => ?_) hx, fun _ => hx, hx.nullActive⟩
    simp only [wp_bind, wp_read]
    split
    · simp only [wp_bind, wp_deref, wp_modifyActive, wp_when, wp_sendMessageToCoordinator]
      have hy₁ := hy.mapActive out (f := Transaction.decreaseIn) fun _ => rfl
      exact ⟨fun outTxn _ => ⟨fun _ => hy₁.send _, fun _ => hy₁⟩, fun _ => hy⟩
    · exact hy.deps _

theorem carryOut_ops (hx : Ops env T C A x₀ x) {msg : CommitMsg} (hT : msg.tid = T)
    (hC : msg.state = .commit → C) (hA : msg.state ≠ .commit → A) (req : PendingTransaction) :
    Does env T C A x₀ (carryOut env ω msg req) x := by
  subst hT
  have happly : ∀ {y}, Ops env msg.tid C A x₀ y → Does env msg.tid C A x₀ (applyToStore msg) y := by
    intro y hy
    refine wp_applyToStore (I := Ops env msg.tid C A x₀) (hy.mapPending _)
      (fun z hz hnone => hz.nullActive hnone)
      (fun hstate z hz => hz.tail (.commit z (hC hstate) msg.timestamp))
      (fun hstate z hz => hz.tail (.abort z (hA ?_) msg.timestamp)) (fun _ _ hz => hz)
      (fun _ _ _ hz => hz)
    rw [hstate]
    decide
  have hnotify : Does env msg.tid C A x₀ (notifyCommitToReplica env ω req msg) x := by
    simp only [Does, notifyCommitToReplica, wp_bind, wp_update, wp_ite, wp_sendMessageToAll,
      wp_when, wp_modifyPending]
    have hx₁ := hx.setLog fun _ => isSome_find_same (Log.same_setStatus x.state.log req.tid msg.state)
    refine ⟨fun _ => wp_forM (fun _ _ y hy => hy.send _) hx₁, fun _ =>
      ⟨fun _ => (hx₁.send _).mapPending _, fun _ => hx₁.send _⟩⟩
  simp only [Does, carryOut, wp_bind, wp_when]
  exact ⟨fun _ => wp_mono (fun _ y hy => ⟨fun _ => happly hy, fun _ => hy⟩) (fun _ hy => hy) hnotify,
    fun _ => ⟨fun _ => happly hx, fun _ => hx⟩⟩

theorem commitPending_ops (hx : Ops env T C A x₀ x) {msg : CommitMsg} (hT : msg.tid = T)
    (hC : msg.state = .commit → C) (hA : msg.state ≠ .commit → A) (req : PendingTransaction) :
    Does env T C A x₀ (commitPending env ω msg req) x := by
  have hsettle : ∀ {y}, Ops env T C A x₀ y → Does env T C A x₀ (settleDependents env msg) y := by
    intro y hy
    simp only [Does, settleDependents, wp_ite, wp_bind, wp_read]
    refine ⟨fun _ => notifyForFollowingDependenies_ops hy _, fun hne => ?_⟩
    have hstate : msg.state ≠ .commit := fun h => hne (by rw [h]; rfl)
    exact wp_mono (fun _ z hz => hz.1) (fun _ hz => hz)
      (cascadeAbort_ops (hA hstate) _ hy (fun _ _ => Iff.rfl) (.inl hT))
  have hretire : ∀ {y}, Ops env T C A x₀ y → ∀ txn, Does env T C A x₀ (retire env msg txn) y := by
    intro y hy txn
    subst hT
    simp only [Does, retire, wp_bind, wp_erasePending, wp_when, wp_deref, wp_pure, wp_eraseActive,
      wp_update]
    exact ⟨fun _ => ⟨fun _ _ => hy.erasePending.eraseActive.setCommitted _,
      fun _ => hy.erasePending⟩, fun _ => hy.erasePending.eraseActive.setCommitted _⟩
  simp only [Does, commitPending, wp_ite, wp_bind, wp_read, wp_deref, wp_update]
  refine ⟨fun _ => ?_, fun _ => ⟨fun e _ => ?_, fun _ => hx⟩⟩
  · subst hT
    exact hx.erasePending
  · have hx₁ := hx.setLog fun _ => isSome_find_same (Log.same_setTs x.state.log req.lsn msg.timestamp)
    refine wp_mono (fun _ y hy => ?_) (fun _ hy => hy) (carryOut_ops hx₁ hT hC hA req)
    rw [wp_activePtr]
    refine ⟨fun p _ => wp_mono (fun _ z hz => hretire hz _) (fun _ hz => hz) (hsettle hy),
      fun hnone => wp_mono (fun _ z hz => hretire hz _) (fun _ hz => hz)
        (hsettle (hy.nullActive hnone))⟩

theorem handleCommit_ops (hx : Ops env T C A x₀ x) {msg : CommitMsg} (hT : msg.tid = T)
    (hC : msg.state = .commit → C) (hA : msg.state ≠ .commit → A) :
    Does env T C A x₀ (handleCommit env ω msg) x := by
  simp only [Does, handleCommit, wp_bind, wp_read]
  split
  · exact hx
  · simp only [wp_bind, wp_update]
    refine wp_mono (fun _ y hy => ?_) (fun _ hy => hy)
      (commitPending_ops (hx.clock _) hT hC hA _)
    subst hT
    exact hy.eraseClient

theorem handleReplicateCommit_ops (hx : Ops env T C A x₀ x) {msg : ReplicateCommit}
    (hT : msg.tid = T) : Does env T C A x₀ (handleReplicateCommit env msg) x := by
  subst hT
  have hfollower : ¬ (env.isLeader = true ∧ env.cfg.mode ≠ .rc) →
      env.isLeader = false ∨ env.cfg.mode = .rc := by
    intro hnot
    by_cases hrc : env.cfg.mode = .rc
    · exact .inr hrc
    · exact .inl (Bool.eq_false_iff.2 fun hlead => hnot ⟨hlead, hrc⟩)
  by_cases hlead : env.isLeader = true ∧ env.cfg.mode ≠ .rc
  · rw [Does, handleReplicateCommit, if_pos hlead]
    exact hx
  · refine wp_handleReplicateCommit (I := Ops env msg.tid C A x₀) (fun h => absurd h hlead)
      (fun _ => hx.setLog fun _ => isSome_find_same (Log.same_setStatus ..)) (fun _ _ => hx)
      (fun z hz hnone => hz.nullActive hnone) (fun _ hz => hz) ?_
    rintro z st hz (rfl | rfl | rfl)
    · exact (hz.replicate (hfollower hlead) (.inr ⟨msg.timestamp, rfl⟩)).eraseActive
    · exact (hz.replicate (hfollower hlead) (.inl rfl)).eraseActive
    · exact hz.eraseActive

/-! ### Reads -/

theorem readKey_ops (hx : Ops env T C A x₀ x) (key : Key) :
    Does env T C A x₀ (readKey env T key) x := by
  simp only [Does, readKey, wp_bind, wp_read, wp_ite, wp_pure, wp_activePtr]
  refine ⟨fun _ => ⟨fun _ => ⟨fun p _ => ?_, fun hnone => hx.nullActive hnone⟩, fun _ => hx⟩,
    fun _ => hx⟩
  cases p with
  | none => exact hx
  | some dependent =>
      simp only [wp_bind, wp_modifyActive, wp_update]
      have hx₁ := (hx.mapActive (x.state.store.getUpcall env.cfg.mode T key).dependency
        (f := (·.addOut T)) fun _ => rfl).deps
      split
      · exact (hx₁ _).event _ rfl
      · exact hx₁ _

theorem readKeys_ops (keys : List Key) : ∀ {x : Ctx Replica Addr Msg Event},
    Ops env T C A x₀ x → Does env T C A x₀ (readKeys env T keys) x := by
  induction keys with
  | nil => exact fun hx => hx
  | cons key keys ih =>
      intro x hx
      simp only [Does, readKeys, wp_bind]
      refine wp_mono (fun v y hy => ?_) (fun _ hy => hy) (readKey_ops hx key)
      cases v with
      | none => exact hy
      | some v =>
          simp only [wp_bind, wp_pure]
          exact ih hy

theorem handleRead_ops (hx : Ops env T C A x₀ x) {msg : GetData} (hT : msg.tid = T)
    (remote : Addr) : Does env T C A x₀ (handleRead env remote msg) x := by
  subst hT
  simp only [Does, handleRead, wp_bind]
  exact wp_mono (fun _ y hy => hy.send _) (fun _ hy => hy) (readKeys_ops msg.keys hx)

/-! ### The parallel mode -/

theorem handleDecisionFromCoordinatorReplica_ops (hx : Ops env T C A x₀ x) {msg : NotifyDecision}
    (hT : msg.tid = T) (hmode : env.cfg.mode = .parallel) (hA : msg.state ≠ .prepared → A) :
    Does env T C A x₀ (handleDecisionFromCoordinatorReplica env msg) x := by
  subst hT
  simp only [Does, handleDecisionFromCoordinatorReplica, wp_bind, wp_read]
  split
  · exact hx
  · rename_i req hreq
    have hrest : ∀ {y}, Ops env msg.tid C A x₀ y → Does env msg.tid C A x₀ (do
        touchActive msg.tid
        update fun s => { s with
          committedTxns := s.committedTxns.insert msg.tid (.commit, msg.timestamp) }) y := by
      intro y hy
      simp only [Does, touchActive, wp_bind, wp_read, wp_update]
      split
      · exact hy.setCommitted _
      · simp only [wp_bind, wp_deref, wp_pure]
        exact ⟨fun _ _ => hy.setCommitted _, fun _ => hy⟩
    rw [wp_bind, endConcurrencyControl, wp_ite]
    refine ⟨fun _ => hrest (hx.tail (.preCommit x hmode req hreq)), fun hne => ?_⟩
    rw [wp_bind, wp_read, wp_bind]
    exact wp_mono (fun _ y hy => hrest hy.1.erasePending) (fun _ hy => hy)
      (cascadeAbort_ops (hA hne) _ hx (fun _ _ => Iff.rfl) (.inl rfl))

theorem handleReplicateResultFromCoordinatorReplica_ops (hx : Ops env T C A x₀ x)
    {msg : NotifyReplicateResult} (hT : msg.tid = T) (hC : C) :
    Does env T C A x₀ (handleReplicateResultFromCoordinatorReplica env ω msg) x := by
  subst hT
  simp only [Does, handleReplicateResultFromCoordinatorReplica, handleParallelCommitResult, wp_bind,
    wp_read]
  have hcommit : ∀ {y}, Ops env msg.tid C A x₀ y → Does env msg.tid C A x₀ (handleCommit env ω
      { tid := msg.tid, state := .commit, timestamp := msg.timestamp }) y := fun hy =>
    handleCommit_ops hy rfl (fun _ => hC) fun hne => absurd rfl hne
  split
  · exact hcommit hx
  · simp only [wp_bind, wp_derefClient, wp_sendMessage, wp_eraseClient]
    exact ⟨fun a _ => hcommit (hx.send _).eraseClient, fun _ => hx, fun _ => hx.setClient _⟩

theorem handleParallelModeCommit_ops (hx : Ops env T C A x₀ x) {msg : ParallelModeCommit}
    (hT : msg.tid = T) (remote : Addr) :
    Does env T C A x₀ (handleParallelModeCommit env ω remote msg) x := by
  subst hT
  simp only [Does, handleParallelModeCommit, wp_bind, wp_read]
  split
  · exact ((hx.setPending _).setClient _).send _
  · exact hx.mapPending _

/-! ### Prepare -/

theorem logPrepare_ops (hx : Ops env T C A x₀ x) {txn : Transaction} (hT : txn.id = T)
    (remote : Addr) : Does env T C A x₀ (logPrepare env ω remote txn) x := by
  subst hT
  simp only [Does, logPrepare, wp_bind, wp_update, wp_read, wp_emit]
  have hx₁ := (hx.setClient (some remote)).setActive (some txn)
  have hx₂ := hx₁.setLog fun _ => isSome_find_add (t := txn) (l := x.state.log)
  exact invokeReplicateTxn_ops (hx₂.event (.logged _ (x.state.log.add 0 txn.id txn.writeSet
    .prepareOk txn.commitTs.timestamp).1) rfl) rfl _

theorem prepareNew_ops (hx : Ops env T C A x₀ x) {msg : PrepareTransaction} (hT : msg.tid = T)
    (remote : Addr) : Does env T C A x₀ (prepareNew env ω remote msg) x := by
  subst hT
  have haccept : ∀ {y} {txn : Transaction}, Ops env msg.tid C A x₀ y → txn.id = msg.tid →
      Does env msg.tid C A x₀ (acceptPrepare env ω remote txn) y := by
    intro y txn hy htid
    simp only [Does, acceptPrepare, wp_ite, wp_pure, wp_bind, wp_when, wp_sendMessageToShard,
      wp_sendMessage]
    have hlog : ∀ {z}, Ops env msg.tid C A x₀ z → (env.isLeader = true →
        Does env msg.tid C A x₀ (logPrepare env ω remote txn) z) ∧
        (env.isLeader = false → Ops env msg.tid C A x₀ z) := fun hz =>
      ⟨fun _ => logPrepare_ops hz htid remote, fun _ => hz⟩
    exact ⟨fun _ => hy, fun _ => ⟨fun _ => ⟨fun _ => hlog ((hy.send _).send _),
      fun _ => hlog (hy.send _)⟩, fun _ => ⟨fun _ => hlog (hy.send _), fun _ => hlog hy⟩⟩⟩
  simp only [Does, prepareNew, wp_bind, wp_update, wp_read, wp_withStore, wp_ite]
  have hx₁ := ((hx.clock (x.state.currentTs + 1)).deps
    (x.state.inDependency.erase msg.tid))
  refine ⟨fun _ => (hx₁.tail (.prepare _ _ _ _)).tail (.send _ _), fun _ => ?_⟩
  simp only [acceptChecked, wp_bind, wp_when, wp_emit]
  refine ⟨fun _ => ?_, fun _ => ?_⟩
  · exact haccept ((hx₁.tail (.prepare _ _ _ _)).tail (.event _ _ rfl)) rfl
  · exact haccept (hx₁.tail (.prepare _ _ _ _)) rfl

theorem handlePrepareTxn_ops (hx : Ops env T C A x₀ x) {msg : PrepareTransaction}
    (hT : msg.tid = T) (hmode : msg.mode ≠ .slow ∧ msg.mode ≠ .rc) (remote : Addr) :
    Does env T C A x₀ (handlePrepareTxn env ω remote msg) x := by
  have hdirect : ∀ P, ¬ ((msg.mode = .slow ∨ msg.mode = .rc) ∧ P) := fun P h =>
    h.1.elim hmode.1 hmode.2
  simp only [Does, handlePrepareTxn, wp_bind, wp_read, if_neg (hdirect _), wp_ite, wp_update]
  refine ⟨fun _ => hx.deps _, fun _ => ?_⟩
  have hanswer : ∀ {y} (reply : PrepareTransactionReply), Ops env T C A x₀ y →
      Does env T C A x₀ (answerPrepare env remote msg reply) y := by
    intro y reply hy
    simp only [Does, answerPrepare, wp_ite, wp_sendMessageToShard, wp_sendMessage]
    exact ⟨fun _ => hy.send _, fun _ => hy.send _⟩
  split
  · exact hanswer _ hx
  · rw [wp_bind, wp_read]
    split
    · exact prepareNew_ops hx hT remote
    · simp only [wp_ite, wp_bind, wp_derefActive]
      exact ⟨fun _ => ⟨fun _ _ => hanswer _ hx, fun _ => hx, hx.nullActive⟩,
        fun _ => prepareNew_ops hx hT remote⟩

/-! ### Every step -/

theorem handleTimer_ops (hx : Ops env T C A x₀ x)
    (hprep : ∀ tid, x.state.pendingPrepares.lookup tid = none) {t : Timer}
    (hT : t = .pendingTxn T ∨ t = .pendingPrepare T) :
    Does env T C A x₀ (handleTimer env ω t) x := by
  rcases hT with rfl | rfl
  · simp only [Does, handleTimer, wp_bind, wp_read]
    split
    · exact hx
    · split
      · exact resendReplicateTxn_ops hx
      · exact resendPrepareOk_ops hx
      · exact hx
  · simp only [Does, handleTimer, wp_bind, wp_read, hprep]
    exact hx

/-- The transaction an input of a replica is about. -/
def inputTxn : Input Addr Msg Act → TxnId
  | .recv ⟨_, _, .getData m⟩ => m.tid
  | .recv ⟨_, _, .prepareTransaction m⟩ => m.tid
  | .recv ⟨_, _, .replicateTransaction m⟩ => m.txnLog.txnId
  | .recv ⟨_, _, .replicateTransactionReply m⟩ => m.txnId
  | .recv ⟨_, _, .replicateCommit m⟩ => m.tid
  | .recv ⟨_, _, .parallelModeCommit m⟩ => m.tid
  | .recv ⟨_, _, .commit m⟩ => m.tid
  | .recv ⟨_, _, .notifyDecision m⟩ => m.tid
  | .recv ⟨_, _, .notifyReplicateResult m⟩ => m.tid
  | .act (.timer (.pendingTxn tid)) => tid
  | .act (.timer (.pendingPrepare tid)) => tid
  | _ => 0

/-- The inputs that commit: the decision of the client, and the announcement of a
coordinator. -/
def Commits : Input Addr Msg Act → Prop
  | .recv ⟨_, _, .commit m⟩ => m.state = .commit
  | .recv ⟨_, _, .notifyReplicateResult _⟩ => True
  | _ => False

/-- The inputs that abort. -/
def Aborts : Input Addr Msg Act → Prop
  | .recv ⟨_, _, .commit m⟩ => m.state ≠ .commit
  | .recv ⟨_, _, .notifyDecision m⟩ => m.state ≠ .prepared
  | _ => False

/-- A prepare of the direct modes; only in the parallel mode coordinators decide. -/
def DirectInput (cfg : Config) : Input Addr Msg Act → Prop
  | .recv ⟨_, _, .prepareTransaction m⟩ => m.mode ≠ .slow ∧ m.mode ≠ .rc
  | .recv ⟨_, _, .notifyDecision _⟩ => cfg.mode = .parallel
  | _ => True

/-- **A step of a replica** in the direct modes is a sequence of operations on behalf of the
transaction its input is about. -/
theorem handleInput_ops {input : Input Addr Msg Act} (hinput : DirectInput env.cfg input)
    (hprep : ∀ tid, x.state.pendingPrepares.lookup tid = none) :
    Does env (inputTxn input) (Commits input) (Aborts input) x (handleInput env ω input) x := by
  have hx : Ops env (inputTxn input) (Commits input) (Aborts input) x x := .refl
  cases input with
  | act a =>
      cases a with
      | client a => exact hx
      | timer t =>
          cases t with
          | pendingTxn tid => exact handleTimer_ops hx hprep (.inl rfl)
          | pendingPrepare tid => exact handleTimer_ops hx hprep (.inr rfl)
  | recv p =>
      obtain ⟨src, dst, msg⟩ := p
      cases msg with
      | prepareTransaction m => exact handlePrepareTxn_ops hx rfl hinput src
      | prepareTransactionReply m =>
          simp only [Does, handleInput, handleMessage, handlePrepareTransactionReply, wp_bind,
            wp_read, hprep]
          exact hx
      | replicateTransaction m => exact handleReplicateTransaction_ops hx rfl src
      | replicateTransactionReply m => exact handleReplicateTransactionReply_ops hx rfl
      | replicateCommit m => exact handleReplicateCommit_ops hx rfl
      | parallelModeCommit m => exact handleParallelModeCommit_ops hx rfl src
      | commit m => exact handleCommit_ops hx rfl id id
      | getData m => exact handleRead_ops hx rfl src
      | notifyDecision m => exact handleDecisionFromCoordinatorReplica_ops hx rfl hinput id
      | notifyReplicateResult m =>
          exact handleReplicateResultFromCoordinatorReplica_ops hx rfl trivial
      | _ => exact hx

/-! ### What was recorded -/

/-- Only an input that commits records a commit, that of its own transaction. -/
theorem Ops.applied_commit (h : Ops env T C A x₀ x) {t : TxnId} {ts : ℕ}
    (he : .applied t .commit ts ∈ x.events) : .applied t .commit ts ∈ x₀.events ∨ (C ∧ t = T) := by
  induction h with
  | refl => exact .inl he
  | tail _ hop ih =>
      cases hop with
      | event e hplain =>
          rcases List.mem_append.1 he with hold | hnew
          · exact ih hold
          · rw [← List.mem_singleton.1 hnew] at hplain
            exact hplain.elim
      | commit hC ts' =>
          rcases List.mem_append.1 he with hold | hnew
          · exact ih hold
          · cases List.mem_singleton.1 hnew
            exact .inr ⟨hC, rfl⟩
      | abort hA ts' =>
          rcases List.mem_append.1 he with hold | hnew
          · exact ih hold
          · cases List.mem_singleton.1 hnew
      | cascade hA d hd =>
          rcases List.mem_append.1 he with hold | hnew
          · exact ih hold
          · cases List.mem_singleton.1 hnew
      | _ => exact ih he

/-- Only an input that aborts records a cascade. -/
theorem Ops.cascaded (h : Ops env T C A x₀ x) {t : TxnId} (he : .cascaded t ∈ x.events) :
    .cascaded t ∈ x₀.events ∨ A := by
  induction h with
  | refl => exact .inl he
  | tail _ hop ih =>
      cases hop with
      | event e hplain =>
          rcases List.mem_append.1 he with hold | hnew
          · exact ih hold
          · rw [← List.mem_singleton.1 hnew] at hplain
            exact hplain.elim
      | commit hC ts =>
          rcases List.mem_append.1 he with hold | hnew
          · exact ih hold
          · cases List.mem_singleton.1 hnew
      | abort hA ts => exact .inr hA
      | cascade hA d hd => exact .inr hA
      | _ => exact ih he

end Replica

end D2PC
