import D2PC.Invariant.Moves
import D2PC.Invariant.Pending
import D2PC.Store.Operations

/-!
# Which handlers write to the store

Most handlers of `LRReplica` never call the store of the replica. A prepare calls it for the
transaction it is about, and so does a decision; only an abort goes further, along the `out` lists
of the active transactions.

* `Replica.KeepsStore` : a fact about the store that a handler keeps;
* `Replica.handlePrepareTxn_store`, `Replica.handleCommit_store` and others : one lemma for each
  handler that does not abort;
* `Replica.Cascades`, `Replica.cascadeAbort_course` : an abort leaves the transactions alone that
  its cascade does not reach.
-/

namespace D2PC

open Prog Ctx

namespace Replica

variable {env : ReplicaEnv} {ω : Choice} {J : TxnStore → Prop}

/-- A handler that keeps a fact about the store, whether it returns or dies. -/
abbrev KeepsStore (J : TxnStore → Prop) {α : Type} (p : ReplicaM α) : Prop :=
  Preserves (fun r : Replica => J r.store) p

theorem store_mapActive (tid : TxnId) (f : Transaction → Transaction) (r : Replica) :
    (mapActive tid f r).store = r.store := by
  unfold mapActive
  split <;> rfl

theorem store_mapPrepare (tid : TxnId) (f : PendingPrepare → PendingPrepare) (r : Replica) :
    (mapPrepare tid f r).store = r.store := by
  unfold mapPrepare
  split <;> rfl

theorem modifyPending_store (tid : TxnId) (f : PendingTransaction → PendingTransaction) :
    KeepsStore J (modifyPending tid f) := .update fun r h => (store_mapPending tid f r).symm ▸ h

theorem modifyActive_store (tid : TxnId) (f : Transaction → Transaction) :
    KeepsStore J (modifyActive tid f) := .update fun r h => (store_mapActive tid f r).symm ▸ h

theorem modifyPrepare_store (tid : TxnId) (f : PendingPrepare → PendingPrepare) :
    KeepsStore J (modifyPrepare tid f) := .update fun r h => (store_mapPrepare tid f r).symm ▸ h

theorem erasePending_store (tid : TxnId) : KeepsStore J (erasePending tid) := .update fun _ h => h

theorem eraseActive_store (tid : TxnId) : KeepsStore J (eraseActive tid) := .update fun _ h => h

theorem eraseClient_store (tid : TxnId) : KeepsStore J (eraseClient tid) := .update fun _ h => h

theorem activePtr_store (tid : TxnId) : KeepsStore J (activePtr tid) := by
  refine .bind (.read _) fun p => ?_
  cases p with
  | some p => exact .pure _
  | none => exact .bind (.update fun _ h => h) fun _ => .pure _

theorem clientPtr_store (tid : TxnId) : KeepsStore J (clientPtr tid) := by
  refine .bind (.read _) fun p => ?_
  cases p with
  | some p => exact .pure _
  | none => exact .bind (.update fun _ h => h) fun _ => .pure _

/-! ### Replication -/

theorem replicateTxn_store (tid : TxnId) : KeepsStore J (replicateTxn env ω tid) := by
  refine .bind (.read _) fun _ => .bind (.deref _) fun req => .bind (.read _) fun _ =>
    .bind (.send _) fun _ => .ite ?_ (erasePending_store tid)
  split
  · exact .crash
  · exact modifyPending_store _ _
  · exact modifyPending_store _ _

theorem resendReplicateTxn_store (tid : TxnId) : KeepsStore J (resendReplicateTxn env ω tid) :=
  .ite (.pure _) (replicateTxn_store tid)

theorem invokeReplicateTxn_store (entry : LogEntry) (hasPreCommit : Bool) :
    KeepsStore J (invokeReplicateTxn env ω entry hasPreCommit) := by
  refine .bind (.read _) fun req => ?_
  cases req with
  | none =>
      exact .bind (activePtr_store _) fun _ => .bind (.deref _) fun _ =>
        .bind (.update fun _ h => h) fun _ => .ite (.pure _) (replicateTxn_store _)
  | some req =>
      refine .ite ?_ (resendReplicateTxn_store _)
      exact .bind (activePtr_store _) fun _ => .bind (.deref _) fun _ =>
        .bind (modifyPending_store _ _) fun _ => replicateTxn_store _

/-- An entry that is new to the log is prepared. -/
theorem handleReplicateTransaction_store (remote : Addr) {msg : ReplicateTransaction}
    (hJ : ∀ st m check, J st → J (st.prepareUpcall ω.clock msg.txnLog.txnId m check).2) :
    KeepsStore J (handleReplicateTransaction env ω remote msg) := by
  refine .bind (.update fun _ h => h) fun _ => .bind (.read _) fun _ => .bind (.when ?_) fun _ =>
    .bind (.send _) fun _ => .when (.send _)
  exact .bind (.update fun _ h => h) fun _ => .bind (.emit _) fun _ =>
    .bind (.update fun _ h => h) fun _ => .update fun r => hJ r.store _ _

theorem handleConsensus_store (tid : TxnId) : KeepsStore J (handleConsensus env ω tid) := by
  refine .bind (activePtr_store _) fun _ => .bind (.deref _) fun _ => .bind (.read _) fun _ =>
    .bind (.deref _) fun _ => .ite (.ite ?_ ?_) (.ite (.pure _) ?_)
  · exact .bind (.send _) fun _ => modifyPending_store _ _
  · exact .bind (erasePending_store _) fun _ => eraseActive_store _
  · refine .bind (clientPtr_store _) fun _ => .bind (.deref _) fun _ => .ite ?_ ?_
    · exact .bind (.send _) fun _ => modifyPending_store _ _
    · exact .bind (erasePending_store _) fun _ => .bind (eraseActive_store _) fun _ =>
        eraseClient_store _

theorem handleReplicateTransactionReply_store (msg : ReplicateTransactionReply) :
    KeepsStore J (handleReplicateTransactionReply env ω msg) := by
  refine .bind (.read _) fun req => ?_
  cases req with
  | none => exact .pure _
  | some req =>
      refine .ite (.pure _) (.bind (modifyPending_store _ _) fun _ => .ite ?_ (.pure _))
      exact .bind (modifyPending_store _ _) fun _ => .bind (.emit _) fun _ =>
        handleConsensus_store _

theorem resendPrepareOk_store (tid : TxnId) : KeepsStore J (resendPrepareOk env ω tid) := by
  refine .bind (.read _) fun req => ?_
  cases req with
  | none => exact .pure _
  | some req =>
      refine .bind (activePtr_store _) fun _ => .bind (.deref _) fun _ => .ite (.when ?_) ?_
      · exact .bind (.send _) fun _ => modifyPending_store _ _
      · refine .bind (clientPtr_store _) fun _ => .bind (.deref _) fun _ => .when ?_
        exact .bind (.send _) fun _ => modifyPending_store _ _

theorem sendPrepare_store (tid : TxnId) : KeepsStore J (sendPrepare env ω tid) := by
  refine .bind (.read _) fun _ => .bind (.deref _) fun req => .forM fun p _ => .ite ?_ ?_
  · exact .bind (.send _) fun _ => modifyPrepare_store _ _
  · exact .update fun _ h => h

theorem handleTimer_store (t : Timer) : KeepsStore J (handleTimer env ω t) := by
  cases t with
  | pendingTxn tid =>
      refine .bind (.read _) fun req => ?_
      cases req with
      | none => exact .pure _
      | some req =>
          dsimp only
          split
          · exact resendReplicateTxn_store tid
          · exact resendPrepareOk_store tid
          · exact .pure _
  | pendingPrepare tid =>
      refine .bind (.read _) fun req => ?_
      cases req with
      | none => exact .pure _
      | some req => exact .ite (sendPrepare_store tid) (.pure _)

/-! ### Commits -/

theorem notifyForFollowingDependenies_store (tid : TxnId) :
    KeepsStore J (notifyForFollowingDependenies env tid) := by
  refine .bind (.read _) fun req => ?_
  cases req with
  | none => exact .pure _
  | some req =>
      refine .bind (activePtr_store _) fun _ => .bind (.deref _) fun txn => .forM fun out _ => ?_
      refine .bind (.read _) fun ptr => ?_
      cases ptr with
      | none => exact .update fun _ h => h
      | some ptr =>
          exact .bind (.deref _) fun _ => .bind (modifyActive_store _ _) fun _ => .when (.send _)

theorem notifyCommitToReplica_store (req : PendingTransaction) (msg : CommitMsg) :
    KeepsStore J (notifyCommitToReplica env ω req msg) := by
  refine .bind (.update fun _ h => h) fun _ => .ite (.forM fun _ _ => .send _) ?_
  exact .bind (.send _) fun _ => .when (modifyPending_store _ _)

/-- A commit writes to the store once, for its own transaction. -/
theorem handleCommit_store {msg : CommitMsg} (hstate : msg.state = .commit)
    (hJ : ∀ st, J st → J (st.commit msg.tid msg.timestamp)) :
    KeepsStore J (handleCommit env ω msg) := by
  have happly : KeepsStore J (applyToStore msg) := by
    refine .bind (modifyPending_store _ _) fun _ => .bind (activePtr_store _) fun _ => ?_
    rw [hstate]
    exact .bind (.update fun r => hJ r.store) fun _ => .emit _
  have hsettle : KeepsStore J (settleDependents env msg) := by
    rw [settleDependents, if_pos (by rw [hstate]; rfl)]
    exact notifyForFollowingDependenies_store _
  refine .bind (.read _) fun req => ?_
  cases req with
  | none => exact .pure _
  | some req =>
      refine .bind (.update fun _ h => h) fun _ => .bind (.ite (erasePending_store _) ?_) fun _ =>
        eraseClient_store _
      refine .bind (.read _) fun _ => .bind (.deref _) fun _ =>
        .bind (.update fun _ h => h) fun _ => .bind ?_ fun _ =>
          .bind (activePtr_store _) fun _ => .bind hsettle fun _ => ?_
      · exact .bind (.when (notifyCommitToReplica_store req msg)) fun _ => .when happly
      · exact .bind (erasePending_store _) fun _ =>
          .bind (.when (.bind (.deref _) fun _ => .pure _)) fun _ =>
            .bind (eraseActive_store _) fun _ => .update fun _ h => h

theorem handleReplicateResult_store {msg : NotifyReplicateResult}
    (hJ : ∀ st, J st → J (st.commit msg.tid msg.timestamp)) :
    KeepsStore J (handleReplicateResultFromCoordinatorReplica env ω msg) := by
  refine .bind (.bind (.read _) fun req => ?_) fun _ => handleCommit_store rfl hJ
  cases req with
  | none => exact .pure _
  | some req =>
      exact .bind (clientPtr_store _) fun _ => .bind (.deref _) fun _ => .bind (.send _) fun _ =>
        eraseClient_store _

theorem handleParallelModeCommit_store (remote : Addr) (msg : ParallelModeCommit) :
    KeepsStore J (handleParallelModeCommit env ω remote msg) := by
  refine .bind (.read _) fun req => ?_
  cases req with
  | none => exact .bind (.update fun _ h => h) fun _ => .send _
  | some req => exact modifyPending_store _ _

/-! ### Reads -/

theorem readKey_store (tid : TxnId) (key : Key) : KeepsStore J (readKey env tid key) := by
  refine .bind (.read _) fun rep => .ite (.ite (.bind (activePtr_store _) fun p => ?_) (.pure _))
    (.pure _)
  cases p with
  | none => exact .pure _
  | some dependent =>
      refine .bind (modifyActive_store _ _) fun _ => .bind (.update fun _ h => h) fun _ => ?_
      cases dependent.writeSet.lookup key with
      | none => exact .pure _
      | some value => exact .bind (.emit _) fun _ => .pure _

theorem readKeys_store (tid : TxnId) (keys : List Key) : KeepsStore J (readKeys env tid keys) := by
  induction keys with
  | nil => exact .pure _
  | cons key keys ih =>
      refine .bind (readKey_store tid key) fun v => ?_
      cases v with
      | none => exact .pure _
      | some v => exact .bind ih fun _ => .pure _

theorem handleRead_store (remote : Addr) (msg : GetData) :
    KeepsStore J (handleRead env remote msg) :=
  .bind (readKeys_store _ _) fun _ => .send _

/-! ### Prepares -/

theorem acceptPrepare_store (remote : Addr) (txn : Transaction) :
    KeepsStore J (acceptPrepare env ω remote txn) := by
  refine .ite (.pure _) (.bind (.when (.send _)) fun _ => .bind (.when (.send _)) fun _ => .when ?_)
  exact .bind (.update fun _ h => h) fun _ => .bind (.read _) fun _ => .bind (.update fun _ h => h)
    fun _ => .bind (.emit _) fun _ => invokeReplicateTxn_store _ _

theorem answerPrepare_store (remote : Addr) (msg : PrepareTransaction)
    (reply : PrepareTransactionReply) : KeepsStore J (answerPrepare env remote msg reply) :=
  .ite (.send _) (.send _)

/-- A prepare calls the store at most once, for its own transaction. -/
theorem handlePrepareTxn_store (remote : Addr) {msg : PrepareTransaction}
    (hJ : ∀ st m check, J st → J (st.prepareUpcall ω.clock msg.tid m check).2) :
    KeepsStore J (handlePrepareTxn env ω remote msg) := by
  have hnew : KeepsStore J (prepareNew env ω remote msg) := by
    refine .bind (.update fun _ h => h) fun _ => .bind (.read _) fun _ => .bind (.read _) fun _ =>
      .bind (.update fun _ h => h) fun _ => .bind (.read _) fun _ =>
      .bind (.update fun r => hJ r.store _ _) fun _ => .ite (.send _) ?_
    exact .bind (.when (.emit _)) fun _ => acceptPrepare_store _ _
  refine .bind (.read _) fun _ => .ite ?_ (.bind (.read _) fun _ => .ite (.update fun _ h => h)
    (.bind (.read _) fun x => ?_))
  · refine .bind (.update fun _ h => h) fun _ => .bind (.read _) fun req => ?_
    cases req with
    | none => exact .bind (.update fun _ h => h) fun _ => sendPrepare_store _
    | some req => exact sendPrepare_store _
  · cases x with
    | some x => exact answerPrepare_store _ _ _
    | none =>
        refine .bind (.read _) fun req => ?_
        cases req with
        | none => exact hnew
        | some req =>
            exact .ite (.bind (activePtr_store _) fun _ => .bind (.deref _) fun _ =>
              answerPrepare_store _ _ _) hnew

/-! ### Aborts -/

/-- An abort of `T` goes on to abort `R`. -/
def Cascades (r : Replica) : TxnId → TxnId → Prop :=
  Relation.ReflTransGen fun T R => (r.pendingTxns.lookup T).isSome ∧ Follows r T R

/-- The transaction is left alone: in the store, and by the cascades that are recorded. -/
structure Spared (x₀ : Ctx Replica Addr Msg Event) (tid : TxnId)
    (x : Ctx Replica Addr Msg Event) : Prop where
  store : TxnStore.Apart tid x₀.state.store x.state.store
  unswept : .cascaded tid ∈ x.events → .cascaded tid ∈ x₀.events

/-- What counts for the course of a cascade. -/
structure SameCourse (x₀ : Ctx Replica Addr Msg Event) (tid : TxnId)
    (x : Ctx Replica Addr Msg Event) : Prop extends Spared x₀ tid x where
  pending : ∀ d, (x.state.pendingTxns.lookup d).isSome = (x₀.state.pendingTxns.lookup d).isSome
  active : Keeps x₀.state.activeTxns x

/-- The end of a cascade that leaves the transaction alone. -/
abbrev Spares (x₀ : Ctx Replica Addr Msg Event) (tid : TxnId) {α : Type} (p : ReplicaM α)
    (x : Ctx Replica Addr Msg Event) : Prop :=
  wp p (fun _ => SameCourse x₀ tid) (Spared x₀ tid) x

section SameCourse

variable {x₀ x : Ctx Replica Addr Msg Event} {tid : TxnId}

theorem SameCourse.start (x₀ : Ctx Replica Addr Msg Event) (tid : TxnId) : SameCourse x₀ tid x₀ :=
  ⟨⟨.refl tid _, id⟩, fun _ => rfl, fun _ _ => Iff.rfl⟩

theorem Spared.abort (hx : Spared x₀ tid x) {T : TxnId} (hne : T ≠ tid) {e : Event}
    (he : e ≠ .cascaded tid) :
    Spared x₀ tid { x with
      state := { x.state with store := x.state.store.abort T }
      events := x.events ++ [e] } := by
  refine ⟨hx.store.call (.abort T) fun h => hne (Option.some.inj h), fun hmem => ?_⟩
  rcases List.mem_append.1 hmem with hold | hnew
  · exact hx.unswept hold
  · exact absurd (List.mem_singleton.1 hnew).symm he

theorem SameCourse.mapPending (hx : SameCourse x₀ tid x) (T : TxnId)
    (f : PendingTransaction → PendingTransaction) :
    SameCourse x₀ tid { x with state := Replica.mapPending T f x.state } := by
  refine ⟨⟨?_, hx.unswept⟩, fun d => ?_, ?_⟩
  · rw [store_mapPending]
    exact hx.store
  · rw [← hx.pending d]
    unfold Replica.mapPending
    split
    · rfl
    · rename_i req hreq
      show (AList.lookup d (x.state.pendingTxns.insert T (f req))).isSome = _
      rw [Table.lookup_insert_eq]
      split_ifs with heq
      · rw [heq, hreq]
        rfl
      · rfl
  · intro d txn
    rw [active_mapPending]
    exact hx.active d txn

theorem SameCourse.nullActive (hx : SameCourse x₀ tid x) {T : TxnId}
    (hnone : x.state.activeTxns.lookup T = none) :
    SameCourse x₀ tid { x with state := { x.state with
      activeTxns := x.state.activeTxns.insert T none } } :=
  ⟨⟨hx.store, hx.unswept⟩, hx.pending, hx.active.nullActive hnone⟩

/-- **The cascade** from `T` leaves a transaction alone that it does not reach. -/
theorem cascadeAbort_course {T : TxnId} (hno : ¬ Cascades x₀.state T tid) (fuel : ℕ) :
    ∀ {x : Ctx Replica Addr Msg Event} {d : TxnId}, Cascades x₀.state T d → SameCourse x₀ tid x →
      Spares x₀ tid (cascadeAbort env fuel d) x := by
  induction fuel with
  | zero => exact fun _ hx => hx.toSpared
  | succ fuel ih =>
      intro x d hd hx
      have hne : d ≠ tid := by
        rintro rfl
        exact hno hd
      have he : Event.cascaded d ≠ .cascaded tid := fun h => hne (Event.cascaded.inj h)
      have hx₁ := hx.toSpared.abort hne he
      simp only [Spares, cascadeAbort, wp_bind, wp_withStore, wp_emit, wp_read]
      cases hpend : x.state.pendingTxns.lookup d with
      | none => exact ⟨hx₁, hx.pending, hx.active⟩
      | some req =>
          simp only [wp_bind, wp_derefActive]
          refine ⟨fun txn htxn => ?_, fun _ => hx₁, fun _ => ⟨hx₁.store, hx₁.unswept⟩⟩
          refine wp_forM (fun out hout y hy => ?_) ⟨hx₁, hx.pending, hx.active⟩
          simp only [wp_bind, wp_read]
          split
          · have hout' : Cascades x₀.state T out := by
              refine hd.tail ⟨?_, txn, (hx.active d txn).1 htxn, hout⟩
              rw [← hx.pending, hpend]
              rfl
            simp only [wp_bind, wp_sendMessageToCoordinators]
            refine wp_mono (fun _ z hz => ?_) (fun _ hz => hz) (ih hout' hy)
            exact ⟨⟨hz.store, hz.unswept⟩, hz.pending, hz.active⟩
          · exact ⟨⟨hy.store, hy.unswept⟩, hy.pending, hy.active⟩

theorem notifyCommitToReplica_course (hx : SameCourse x₀ tid x) (req : PendingTransaction)
    (msg : CommitMsg) : Spares x₀ tid (notifyCommitToReplica env ω req msg) x := by
  have hlog : ∀ (log : Log) (ps : List Pkt), SameCourse x₀ tid { x with
      state := { x.state with log := log }
      sent := ps } :=
    fun _ _ => ⟨⟨hx.store, hx.unswept⟩, hx.pending, hx.active⟩
  simp only [Spares, notifyCommitToReplica, wp_bind, wp_update, wp_ite, wp_sendMessageToAll,
    wp_when, wp_modifyPending]
  refine ⟨fun _ => ?_, fun _ => ⟨fun _ => ?_, fun _ => hlog _ _⟩⟩
  · exact wp_forM (fun _ _ y hy => ⟨⟨hy.store, hy.unswept⟩, hy.pending, hy.active⟩) (hlog _ _)
  · exact SameCourse.mapPending (hlog _ _) _ _

theorem carryOut_course (hx : SameCourse x₀ tid x) {msg : CommitMsg} (hne : msg.tid ≠ tid)
    (hstate : msg.state ≠ .commit) (req : PendingTransaction) :
    Spares x₀ tid (carryOut env ω msg req) x := by
  have happly : ∀ {y}, SameCourse x₀ tid y → Spares x₀ tid (applyToStore msg) y := by
    intro y hy
    apply wp_applyToStore (I := SameCourse x₀ tid)
    · exact hy.mapPending _ _
    · exact fun _ hz hnone => hz.nullActive hnone
    · exact fun h => absurd h hstate
    · exact fun _ _ hz => ⟨hz.toSpared.abort hne fun h => (by cases h), hz.pending, hz.active⟩
    · exact fun _ _ hz => hz.toSpared
    · exact fun _ _ _ hz => hz
  simp only [Spares, carryOut, wp_bind, wp_when]
  refine ⟨fun _ => ?_, fun _ => ⟨fun _ => happly hx, fun _ => hx⟩⟩
  exact wp_mono (fun _ y hy => ⟨fun _ => happly hy, fun _ => hy⟩) (fun _ hy => hy)
    (notifyCommitToReplica_course hx req msg)

/-- **An abort** leaves the transactions alone that its cascade does not reach. -/
theorem handleCommit_spares {msg : CommitMsg} (hstate : msg.state ≠ .commit) (hne : msg.tid ≠ tid)
    (hno : ∀ req, x.state.pendingTxns.lookup msg.tid = some req → req.isParticipant = true →
      ¬ Cascades x.state msg.tid tid) :
    wp (handleCommit env ω msg) (fun _ => Spared x tid) (Spared x tid) x := by
  have hsame : Spared x tid x := (SameCourse.start x tid).toSpared
  have hcode : msg.state.code ≠ CommitResult.commit.code := by
    intro h
    apply hstate
    cases hst : msg.state with
    | commit => rfl
    | _ =>
        rw [hst] at h
        exact absurd h (by decide)
  simp only [handleCommit, wp_bind, wp_read]
  cases hreq : x.state.pendingTxns.lookup msg.tid with
  | none => exact hsame
  | some req =>
      simp only [wp_bind, wp_update, wp_eraseClient, commitPending, wp_ite, wp_erasePending,
        wp_read]
      refine ⟨fun _ => ⟨hsame.store, hsame.unswept⟩, fun hpart => ?_⟩
      have hreach := hno req hreq (Bool.of_not_eq_false hpart)
      rw [wp_deref]
      refine ⟨fun e _ => ?_, fun _ => ⟨hsame.store, hsame.unswept⟩⟩
      have hretire : ∀ {y : Ctx Replica Addr Msg Event} (p : Option Transaction),
          SameCourse x tid y → wp (settleDependents env msg)
            (fun _ => wp (retire env msg p) (fun _ z => Spared x tid { z with
              state := { z.state with clientList := z.state.clientList.erase msg.tid } })
              (Spared x tid))
            (Spared x tid) y := by
        intro y p hy
        rw [settleDependents, if_neg hcode, wp_bind, wp_read]
        refine wp_mono (fun _ z hz => ?_) (fun _ hz => hz) (cascadeAbort_course hreach _ .refl hy)
        have hz₁ : Spared x tid z := hz.toSpared
        simp only [retire, wp_bind, wp_erasePending, wp_when, wp_deref, wp_pure, wp_eraseActive,
          wp_update]
        exact ⟨fun _ => ⟨fun _ _ => ⟨hz₁.store, hz₁.unswept⟩, fun _ => ⟨hz₁.store, hz₁.unswept⟩⟩,
          fun _ => ⟨hz₁.store, hz₁.unswept⟩⟩
      have hstart : SameCourse x tid { x with state := { x.state with
          log := x.state.log.setTs req.lsn msg.timestamp
          currentTs := max x.state.currentTs msg.timestamp } } :=
        ⟨⟨.refl tid _, id⟩, fun _ => rfl, fun _ _ => Iff.rfl⟩
      refine wp_mono (fun _ y hy => ?_) (fun _ hy => hy) (carryOut_course hstart hne hstate req)
      rw [wp_activePtr]
      exact ⟨fun p _ => hretire p hy, fun hnone => hretire none (hy.nullActive hnone)⟩

end SameCourse

/-- **A decision** leaves the transactions alone that its cascade does not reach. -/
theorem handleCommit_apart {x : Ctx Replica Addr Msg Event} {msg : CommitMsg} {tid : TxnId}
    (hne : msg.tid ≠ tid)
    (hno : ∀ req, x.state.pendingTxns.lookup msg.tid = some req → req.isParticipant = true →
      msg.state ≠ .commit → ¬ Cascades x.state msg.tid tid) :
    wp (handleCommit env ω msg)
      (fun _ y => TxnStore.Apart tid x.state.store y.state.store) (fun _ => True) x := by
  by_cases hstate : msg.state = .commit
  · have hkeep : KeepsStore (TxnStore.Apart tid x.state.store) (handleCommit env ω msg) := by
      apply handleCommit_store hstate
      intro st hst
      apply hst.call (.commit msg.tid msg.timestamp)
      intro h
      exact hne (Option.some.inj h)
    exact wp_mono (fun _ _ hy => hy) (fun _ _ => trivial) (hkeep x (.refl tid _))
  · exact wp_mono (fun _ _ hy => hy.store) (fun _ _ => trivial)
      (handleCommit_spares hstate hne fun req hreq hpart => hno req hreq hpart hstate)

/-- The end of the concurrency control is for one transaction. -/
theorem handleDecision_apart {x : Ctx Replica Addr Msg Event} {msg : NotifyDecision} {tid : TxnId}
    (hne : msg.tid ≠ tid) (hstate : msg.state = .prepared)
    (hid : ∀ req, x.state.pendingTxns.lookup msg.tid = some req → req.tid = msg.tid) :
    wp (handleDecisionFromCoordinatorReplica env msg)
      (fun _ y => TxnStore.Apart tid x.state.store y.state.store) (fun _ => True) x := by
  simp only [handleDecisionFromCoordinatorReplica, wp_bind, wp_read]
  cases hreq : x.state.pendingTxns.lookup msg.tid with
  | none => exact .refl tid _
  | some req =>
      have hapart : TxnStore.Apart tid x.state.store (x.state.store.preCommit req.tid) := by
        apply (TxnStore.Apart.refl tid x.state.store).call (.preCommit req.tid)
        intro h
        exact hne ((hid req hreq).symm.trans (Option.some.inj h))
      simp only [endConcurrencyControl, hstate, if_true, touchActive, wp_bind, wp_withStore,
        wp_read, wp_update]
      split
      · exact hapart
      · simp only [wp_bind, wp_deref, wp_pure]
        exact ⟨fun _ _ => hapart, fun _ => trivial⟩

/-- An abort reaches the transaction. -/
def Sweeps (r : Replica) (tid : TxnId) : Input Addr Msg Act → Prop
  | .recv ⟨_, _, .commit m⟩ => m.state ≠ .commit ∧ Cascades r m.tid tid ∧
      ∃ req, r.pendingTxns.lookup m.tid = some req ∧ req.isParticipant = true
  | _ => False

/-- **A step records the cascades** of the transactions that an abort reaches, in the direct
modes. -/
theorem handleInput_cascaded {x : Ctx Replica Addr Msg Event} {input : Input Addr Msg Act}
    (hinput : DirectInput env.cfg input)
    (hprep : ∀ tid, x.state.pendingPrepares.lookup tid = none)
    (hstate : ∀ src dst m, input = .recv ⟨src, dst, .notifyDecision m⟩ → m.state = .prepared)
    {d : TxnId} (hd : .cascaded d ∈ (handleInput env ω input x).state.events) :
    .cascaded d ∈ x.events ∨ (d = inputTxn input ∧ Aborts input) ∨ Sweeps x.state d input := by
  rcases (wp_state (handleInput_ops hinput hprep)).cascaded hd with hold | haborts
  · exact .inl hold
  unfold Aborts at haborts
  split at haborts
  · rename_i src dst m
    by_cases hown : d = m.tid
    · exact .inr (.inl ⟨hown, haborts⟩)
    by_cases hsweep : Sweeps x.state d (.recv ⟨src, dst, .commit m⟩)
    · exact .inr (.inr hsweep)
    · refine .inl ?_
      have hwp : wp (handleCommit env ω m) (fun _ => Spared x d) (Spared x d) x :=
        handleCommit_spares haborts (Ne.symm hown) fun req hreq hpart hreach =>
          hsweep ⟨haborts, hreach, req, hreq, hpart⟩
      exact (wp_state hwp).unswept hd
  · rename_i src dst m
    exact absurd (hstate src dst m rfl) haborts
  · exact haborts.elim

/-- **A step for another transaction** leaves this one alone in the store, unless an abort
reaches it. -/
theorem handleInput_apart {x : Ctx Replica Addr Msg Event} {tid : TxnId}
    (hlead : env.isLeader = true) (hmode : env.cfg.mode ≠ .rc) {input : Input Addr Msg Act}
    (hne : inputTxn input ≠ tid) (hsweep : ¬ Sweeps x.state tid input)
    (hprep : ∀ tid, x.state.pendingPrepares.lookup tid = none)
    (hid : ∀ tid req, x.state.pendingTxns.lookup tid = some req → req.tid = tid)
    (hstate : ∀ src dst m, input = .recv ⟨src, dst, .notifyDecision m⟩ → m.state = .prepared) :
    wp (handleInput env ω input)
      (fun _ y => TxnStore.Apart tid x.state.store y.state.store) (fun _ => True) x := by
  have hrefl : TxnStore.Apart tid x.state.store x.state.store := .refl tid _
  have hkeep : ∀ {p : ReplicaM Unit}, KeepsStore (TxnStore.Apart tid x.state.store) p →
      wp p (fun _ y => TxnStore.Apart tid x.state.store y.state.store) (fun _ => True) x := by
    intro p hp
    exact wp_mono (fun _ _ hy => hy) (fun _ _ => trivial) (hp x hrefl)
  have hcall : ∀ {T : TxnId}, T ≠ tid → ∀ st (op : TxnStore.Call), op.id? = some T →
      TxnStore.Apart tid x.state.store st → TxnStore.Apart tid x.state.store (st.call op) := by
    intro T hT st op hop hst
    apply hst.trans
    apply TxnStore.call_apart
    rw [hop]
    intro h
    exact hT (Option.some.inj h)
  cases input with
  | act a =>
      cases a with
      | client a => exact hrefl
      | timer t => exact hkeep (handleTimer_store t)
  | recv p =>
      obtain ⟨src, dst, msg⟩ := p
      cases msg with
      | prepareTransaction m =>
          apply hkeep
          apply handlePrepareTxn_store
          exact fun st txn check => hcall hne st (.prepare ω.clock m.tid _ check) rfl
      | prepareTransactionReply m =>
          simp only [handleInput, handleMessage, handlePrepareTransactionReply, wp_bind, wp_read,
            hprep]
          exact hrefl
      | replicateTransaction m =>
          apply hkeep
          apply handleReplicateTransaction_store
          exact fun st txn check => hcall hne st (.prepare ω.clock m.txnLog.txnId _ check) rfl
      | replicateTransactionReply m => exact hkeep (handleReplicateTransactionReply_store m)
      | replicateCommit m =>
          simp only [handleInput, handleMessage, handleReplicateCommit, hlead]
          rw [if_pos ⟨trivial, hmode⟩]
          exact hrefl
      | parallelModeCommit m => exact hkeep (handleParallelModeCommit_store src m)
      | commit m =>
          apply handleCommit_apart hne
          intro req hreq hpart hcom hreach
          exact hsweep ⟨hcom, hreach, req, hreq, hpart⟩
      | getData m => exact hkeep (handleRead_store src m)
      | notifyDecision m => exact handleDecision_apart hne (hstate src dst m rfl) (hid m.tid)
      | notifyReplicateResult m =>
          apply hkeep
          apply handleReplicateResult_store
          exact fun st => hcall hne st (.commit m.tid m.timestamp) rfl
      | _ => exact trivial

end Replica

end D2PC
