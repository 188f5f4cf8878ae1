import D2PC.Properties.Durability
import D2PC.Lib.Calls

/-!
# Followers and their leader

A follower hears of the leader's transactions through two kinds of messages that travel
independently. A `ReplicateCommit` that arrives before its `ReplicateTransaction` is dropped,
and nobody sends it again.

* `LeaderLog`, `Delivery`, `after` : what the leader decided, the messages about it, and the
  follower after a sequence of them;
* `unsettled`, `settled` : what a sequence of messages leaves open, and in which order it
  settles the rest;
* `Tracks` : the invariant. The follower's tables are a function of the messages delivered;
* `follower_converges_iff` : exactly the sequences after which the follower holds what the
  leader holds.
-/

namespace D2PC

/-! ### What the leader did -/

/-- The outcome of a transaction: its writes, and the decision with its timestamp. -/
structure Resolution where
  writes : Table Key Value
  state : LogEntryState
  timestamp : ℕ

namespace Resolution

/-- A leader carries out the decision. -/
def apply (o : Resolution) (tid : TxnId) (kv : VersionedKVStore) : VersionedKVStore :=
  if o.state = .commit then kv.install o.writes tid o.timestamp else kv

/-- The value the transaction commits for a key as of `ts`. -/
def writeAt (o : Resolution) (key : Key) (ts : ℕ) : Option Value :=
  if o.state = .commit ∧ o.timestamp = ts then o.writes.lookup key else none

/-- The decision is one the store carries out. -/
def Final (o : Resolution) : Prop := o.state = .commit ∨ o.state = .abort

instance (o : Resolution) : Decidable o.Final := inferInstanceAs (Decidable (_ ∨ _))

end Resolution

/-- A finite set of decided transactions, in the order in which the leader applied them, and
the transactions its log numbers stand for. -/
structure LeaderLog where
  txns : List TxnId
  slot : ℕ → TxnId
  outcome : TxnId → Resolution

namespace LeaderLog

/-- The transactions of a list are applied one after the other. -/
def applyAll (L : LeaderLog) (kv : VersionedKVStore) (tids : List TxnId) : VersionedKVStore :=
  tids.foldl (fun kv tid => (L.outcome tid).apply tid kv) kv

/-- The value that the first of the transactions to commit a write to the key as of `ts`
gives it. -/
def firstWrite (L : LeaderLog) (tids : List TxnId) (key : Key) (ts : ℕ) : Option Value :=
  tids.findSome? fun tid => (L.outcome tid).writeAt key ts

end LeaderLog

/-- The store holds no version of the key as of `t`. -/
def VersionedKVStore.Free (kv : VersionedKVStore) (key : Key) (t : Timestamp) : Prop :=
  ∀ v, ¬ kv.HasVersion key t v

theorem Resolution.hasVersion_apply {o : Resolution} {tid : TxnId} {kv : VersionedKVStore} {key : Key}
    {t : Timestamp} {v : Value} :
    (o.apply tid kv).HasVersion key t v ↔ kv.HasVersion key t v ∨
      (kv.Free key t ∧ t.id = 0 ∧ o.writeAt key t.timestamp = some v) := by
  unfold apply writeAt
  by_cases hstate : o.state = .commit
  · rw [if_pos hstate, VersionedKVStore.hasVersion_install]
    apply or_congr_right
    constructor
    · rintro ⟨rfl, hlook, hfree⟩
      exact ⟨hfree, rfl, by rw [if_pos ⟨hstate, rfl⟩, hlook]⟩
    · rintro ⟨hfree, hid, hlook⟩
      split_ifs at hlook with hts
      have ht : t = ⟨o.timestamp, 0⟩ := Timestamp.ext hts.2.symm hid
      subst ht
      exact ⟨rfl, hlook, hfree⟩
  · simp [hstate]

namespace LeaderLog

theorem firstWrite_cons (L : LeaderLog) (tid : TxnId) (l : List TxnId) (key : Key) (ts : ℕ) :
    L.firstWrite (tid :: l) key ts =
      ((L.outcome tid).writeAt key ts).or (L.firstWrite l key ts) := by
  unfold firstWrite
  rw [List.findSome?_cons]
  cases (L.outcome tid).writeAt key ts <;> rfl

theorem firstWrite_append (L : LeaderLog) (l l' : List TxnId) (key : Key) (ts : ℕ) :
    L.firstWrite (l ++ l') key ts = (L.firstWrite l key ts).or (L.firstWrite l' key ts) :=
  List.findSome?_append

/-- A transaction that is applied again adds nothing. -/
theorem firstWrite_again (L : LeaderLog) {l : List TxnId} {tid : TxnId} (h : tid ∈ l) (key : Key)
    (ts : ℕ) : L.firstWrite (l ++ [tid]) key ts = L.firstWrite l key ts := by
  rw [firstWrite_append]
  cases hl : L.firstWrite l key ts with
  | some v => rfl
  | none =>
      have hnone := List.findSome?_eq_none_iff.1 hl tid h
      simp [firstWrite, hnone]

/-- **The versions a list of transactions leaves**: the old ones, and at every free timestamp
what the first writer there committed. -/
theorem hasVersion_applyAll (L : LeaderLog) (tids : List TxnId) (kv : VersionedKVStore) (key : Key)
    (t : Timestamp) (v : Value) :
    (L.applyAll kv tids).HasVersion key t v ↔ kv.HasVersion key t v ∨
      (kv.Free key t ∧ t.id = 0 ∧ L.firstWrite tids key t.timestamp = some v) := by
  induction tids generalizing kv with
  | nil => simp [applyAll, firstWrite]
  | cons tid tids ih =>
      have hcons : L.applyAll kv (tid :: tids) = L.applyAll ((L.outcome tid).apply tid kv) tids := rfl
      rw [hcons, ih, firstWrite_cons]
      simp only [Resolution.hasVersion_apply, VersionedKVStore.Free]
      cases hw : (L.outcome tid).writeAt key t.timestamp with
      | none => simp
      | some w =>
          by_cases hid : t.id = 0
          · simp only [hid, Option.some.injEq, Option.some_or]
            constructor
            · rintro ((hold | ⟨hfree, _, rfl⟩) | ⟨hfree, _⟩)
              · exact .inl hold
              · exact .inr ⟨hfree, trivial, rfl⟩
              · by_cases hold : ∃ v', kv.HasVersion key t v'
                · obtain ⟨v', hv'⟩ := hold
                  exact absurd (.inl hv') (hfree v')
                · exact absurd (.inr ⟨fun v' hv' => hold ⟨v', hv'⟩, trivial, rfl⟩) (hfree w)
            · rintro (hold | ⟨hfree, _, rfl⟩)
              · exact .inl (.inl hold)
              · exact .inl (.inr ⟨hfree, trivial, rfl⟩)
          · simp [hid]

/-- Two lists of transactions leave the same versions when at every free timestamp their
first writers agree, and only then. -/
theorem applyAll_same_iff (L : LeaderLog) (kv : VersionedKVStore) (l l' : List TxnId) :
    (∀ key t v, (L.applyAll kv l).HasVersion key t v ↔ (L.applyAll kv l').HasVersion key t v) ↔
      ∀ key ts, kv.Free key ⟨ts, 0⟩ → L.firstWrite l key ts = L.firstWrite l' key ts := by
  simp only [hasVersion_applyAll]
  constructor
  · intro h key ts hfree
    refine Option.ext fun v => ?_
    have hv := h key ⟨ts, 0⟩ v
    simp only [hfree v, hfree, false_or, true_and] at hv
    exact hv
  · intro h key t v
    apply or_congr_right
    constructor
    · rintro ⟨hfree, hid, hv⟩
      have ht : t = ⟨t.timestamp, 0⟩ := Timestamp.ext rfl hid
      rw [ht] at hfree
      rw [h key t.timestamp hfree] at hv
      rw [ht]
      exact ⟨hfree, rfl, hv⟩
    · rintro ⟨hfree, hid, hv⟩
      have ht : t = ⟨t.timestamp, 0⟩ := Timestamp.ext rfl hid
      rw [ht] at hfree
      rw [← h key t.timestamp hfree] at hv
      rw [ht]
      exact ⟨hfree, rfl, hv⟩

end LeaderLog

/-! ### What the follower hears -/

/-- A message of the leader is delivered; `ω` is what the handler finds around it. -/
inductive Delivery where
  | replicate (ω : Choice) (remote : Addr) (m : ReplicateTransaction)
  | commit (ω : Choice) (remote : Addr) (m : ReplicateCommit)

namespace Delivery

/-- A `ReplicateTransaction` of the transaction. -/
def replicates (tid : TxnId) : Delivery → Bool
  | .replicate _ _ m => decide (m.txnLog.txnId = tid)
  | .commit .. => false

/-- A `ReplicateTransaction` with this log number. -/
def numbered (lsn : ℕ) : Delivery → Bool
  | .replicate _ _ m => decide (m.txnLog.lsn = lsn)
  | .commit .. => false

/-- A `ReplicateCommit` of the transaction. -/
def decides (tid : TxnId) : Delivery → Bool
  | .replicate .. => false
  | .commit _ _ m => decide (m.tid = tid)

end Delivery

namespace Replica

open Ctx Prog

/-- The handler a message runs. -/
def handleDelivery (env : ReplicaEnv) : Delivery → ReplicaM Unit
  | .replicate ω remote m => handleMessage env ω remote (.replicateTransaction m)
  | .commit ω remote m => handleMessage env ω remote (.replicateCommit m)

/-- A follower handles one message. -/
def hear (env : ReplicaEnv) (r : Replica) (d : Delivery) : Replica :=
  (handleDelivery env d { state := r }).state.state

/-- A follower after a sequence of messages. -/
def hearAll (env : ReplicaEnv) (r : Replica) (ds : List Delivery) : Replica :=
  Calls.run (hear env) r ds

end Replica

/-- `tid` was entered by a message whose log number was new, and no `ReplicateCommit` of it
follows; the numbers `seen` were delivered before. -/
def unsettled (tid : TxnId) : List ℕ → List Delivery → Bool
  | _, [] => false
  | seen, .commit .. :: ds => unsettled tid seen ds
  | seen, .replicate _ _ m :: ds =>
      (decide (m.txnLog.txnId = tid) && decide (m.txnLog.lsn ∉ seen) &&
        !(ds.any (Delivery.decides tid))) || unsettled tid (m.txnLog.lsn :: seen) ds

/-- The transactions in the order of their effective `ReplicateCommit` messages, those that a
`ReplicateTransaction` precedes; the transactions `seen` were replicated before. -/
def settled : List TxnId → List Delivery → List TxnId
  | _, [] => []
  | seen, .replicate _ _ m :: ds => settled (m.txnLog.txnId :: seen) ds
  | seen, .commit _ _ m :: ds =>
      if m.tid ∈ seen then m.tid :: settled seen ds else settled seen ds

theorem unsettled_commit (tid : TxnId) (seen : List ℕ) (ds : List Delivery) (ω : Choice)
    (remote : Addr) (m : ReplicateCommit) :
    unsettled tid seen (ds ++ [.commit ω remote m]) =
      (unsettled tid seen ds && decide (m.tid ≠ tid)) := by
  induction ds generalizing seen with
  | nil => rfl
  | cons d ds ih =>
      cases d with
      | commit ω' remote' m' => exact ih seen
      | replicate ω' remote' m' =>
          simp only [List.cons_append, unsettled, ih, List.any_append, List.any_cons, List.any_nil,
            Delivery.decides]
          by_cases htid : m.tid = tid <;> simp [htid]

theorem unsettled_replicate (tid : TxnId) (seen : List ℕ) (ds : List Delivery) (ω : Choice)
    (remote : Addr) (m : ReplicateTransaction) :
    unsettled tid seen (ds ++ [.replicate ω remote m]) =
      (unsettled tid seen ds || (decide (m.txnLog.txnId = tid) && decide (m.txnLog.lsn ∉ seen) &&
        !(ds.any (Delivery.numbered m.txnLog.lsn)))) := by
  induction ds generalizing seen with
  | nil => simp [unsettled]
  | cons d ds ih =>
      cases d with
      | commit ω' remote' m' => exact ih seen
      | replicate ω' remote' m' =>
          simp only [List.cons_append, unsettled, ih, List.any_append, List.any_cons, List.any_nil,
            Delivery.decides, Delivery.numbered, List.mem_cons, not_or]
          by_cases hlsn : m'.txnLog.lsn = m.txnLog.lsn
          · simp [hlsn]
          · simp [hlsn, Ne.symm hlsn, Bool.or_assoc]

theorem settled_replicate (seen : List TxnId) (ds : List Delivery) (ω : Choice) (remote : Addr)
    (m : ReplicateTransaction) :
    settled seen (ds ++ [.replicate ω remote m]) = settled seen ds := by
  induction ds generalizing seen with
  | nil => rfl
  | cons d ds ih =>
      cases d with
      | commit ω' remote' m' => simp only [List.cons_append, settled, ih]
      | replicate ω' remote' m' => simp only [List.cons_append, settled, ih]

theorem settled_commit (seen : List TxnId) (ds : List Delivery) (ω : Choice) (remote : Addr)
    (m : ReplicateCommit) :
    settled seen (ds ++ [.commit ω remote m]) = settled seen ds ++
      if m.tid ∈ seen ∨ ds.any (Delivery.replicates m.tid) = true then [m.tid] else [] := by
  induction ds generalizing seen with
  | nil => simp [settled]
  | cons d ds ih =>
      cases d with
      | commit ω' remote' m' =>
          simp only [List.cons_append, settled, ih, List.any_cons, Delivery.replicates,
            Bool.false_or]
          split_ifs <;> rfl
      | replicate ω' remote' m' =>
          simp only [List.cons_append, settled, ih, List.any_cons, Delivery.replicates,
            List.mem_cons, Bool.or_eq_true, decide_eq_true_eq, eq_comm (a := m.tid)]
          congr 2
          simp only [eq_iff_iff]
          tauto

theorem replicated_of_unsettled {tid : TxnId} {seen : List ℕ} {ds : List Delivery}
    (h : unsettled tid seen ds = true) : ds.any (Delivery.replicates tid) = true := by
  induction ds generalizing seen with
  | nil => exact h
  | cons d ds ih =>
      cases d with
      | commit ω remote m => exact ih h
      | replicate ω remote m =>
          simp only [unsettled, Bool.or_eq_true, Bool.and_eq_true] at h
          rw [List.any_cons, Bool.or_eq_true]
          rcases h with ⟨⟨htid, _⟩, _⟩ | h
          · exact .inl htid
          · exact .inr (ih h)

/-! ### The messages of one leader -/

namespace LeaderLog

/-- The message is one of the leader's: it is about one of the transactions, and carries what
the leader logged for it or decided about it. -/
def Sends (L : LeaderLog) : Delivery → Prop
  | .replicate _ _ m =>
      m.txnLog.txnId ∈ L.txns ∧ L.slot m.txnLog.lsn = m.txnLog.txnId ∧
        Table.ofList m.txnLog.wset = (L.outcome m.txnLog.txnId).writes
  | .commit _ _ m =>
      m.tid ∈ L.txns ∧ m.state = (L.outcome m.tid).state ∧ m.timestamp = (L.outcome m.tid).timestamp

instance (L : LeaderLog) (d : Delivery) : Decidable (L.Sends d) :=
  match d with
  | .replicate .. => inferInstanceAs (Decidable (_ ∧ _ ∧ _))
  | .commit .. => inferInstanceAs (Decidable (_ ∧ _ ∧ _))

/-- Both messages of every transaction are delivered, in any order and any number of times. -/
structure Delivered (L : LeaderLog) (ds : List Delivery) : Prop where
  sent : ∀ d ∈ ds, L.Sends d
  replicated : ∀ tid ∈ L.txns, ds.any (Delivery.replicates tid) = true
  decided : ∀ tid ∈ L.txns, ds.any (Delivery.decides tid) = true

/-- The follower has not heard of the transactions. -/
structure Unseen (L : LeaderLog) (r : Replica) : Prop where
  log : ∀ lsn, L.slot lsn ∈ L.txns → r.log.find lsn = none
  active : ∀ tid ∈ L.txns, ∀ txn, r.activeTxns.lookup tid ≠ some (some txn)
  prepared : ∀ tid ∈ L.txns, tid ∉ r.store.prepared
  precommitted : ∀ tid ∈ L.txns, tid ∉ r.store.precommitted

variable {L : LeaderLog} {ds : List Delivery}

/-- A log number stands for one transaction. -/
theorem replicated_of_numbered (hds : ∀ d ∈ ds, L.Sends d) {lsn : ℕ}
    (h : ds.any (Delivery.numbered lsn) = true) :
    ds.any (Delivery.replicates (L.slot lsn)) = true := by
  obtain ⟨d, hd, hlsn⟩ := List.any_eq_true.1 h
  refine List.any_eq_true.2 ⟨d, hd, ?_⟩
  have hsends := hds d hd
  cases d with
  | commit ω remote m => cases hlsn
  | replicate ω remote m =>
      rw [← of_decide_eq_true hlsn]
      exact decide_eq_true hsends.2.1.symm

/-- A replicated transaction is settled unless it is left open. -/
theorem mem_settled (hds : ∀ d ∈ ds, L.Sends d) {tid : TxnId}
    (hrep : ds.any (Delivery.replicates tid) = true) (hopen : unsettled tid [] ds = false) :
    tid ∈ settled [] ds := by
  induction ds using List.reverseRecOn with
  | nil => cases hrep
  | append_singleton ds d ih =>
      have hds' : ∀ d ∈ ds, L.Sends d := fun d hd => hds d (List.mem_append_left _ hd)
      cases d with
      | commit ω remote m =>
          simp only [List.any_append, List.any_cons, Delivery.replicates, List.any_nil,
            Bool.or_false] at hrep
          rw [settled_commit]
          rw [unsettled_commit, Bool.and_eq_false_iff] at hopen
          rcases hopen with hopen | htid
          · exact List.mem_append_left _ (ih hds' hrep hopen)
          · have heq : m.tid = tid := not_not.1 (of_decide_eq_false htid)
            rw [heq, if_pos (.inr hrep)]
            exact List.mem_append_right _ (List.mem_singleton_self tid)
      | replicate ω remote m =>
          rw [settled_replicate]
          rw [unsettled_replicate, Bool.or_eq_false_iff] at hopen
          refine ih hds' ?_ hopen.1
          rw [List.any_append, Bool.or_eq_true] at hrep
          rcases hrep with hrep | hrep
          · exact hrep
          · -- the log number is not new, so this transaction was replicated before
            have htid : m.txnLog.txnId = tid := by
              simpa [Delivery.replicates] using hrep
            have hsends := hds _ (List.mem_append_right ds (List.mem_singleton_self _))
            have hknown : ds.any (Delivery.numbered m.txnLog.lsn) = true := by
              simpa [htid] using hopen.2
            rw [← htid, ← hsends.2.1]
            exact replicated_of_numbered hds' hknown

end LeaderLog

/-! ### What a message does -/

namespace Replica

open Ctx Prog

variable {env : ReplicaEnv} {r : Replica}

/-- The active transactions a table of pointers holds. -/
def HasActive (active : Table TxnId (Option Transaction)) (tid : TxnId) : Prop :=
  ∃ txn, active.lookup tid = some (some txn)

theorem hear_eq_of_wp {r' : Replica} {d : Delivery}
    (h : wp (handleDelivery env d) (fun _ c => c.state = r') (fun c => c.state = r')
      { state := r }) : hear env r d = r' :=
  wp_state (P := fun c : Ctx Replica Addr Msg Event => c.state = r') h

/-- A log number heard before: only the clock may move. -/
theorem hear_known {m : ReplicateTransaction} (h : (r.log.find m.txnLog.lsn).isSome) (ω : Choice)
    (remote : Addr) :
    hear env r (.replicate ω remote m) =
      { r with currentTs := max r.currentTs m.txnLog.timestamp } := by
  apply hear_eq_of_wp
  have hnone : (r.log.find m.txnLog.lsn).isNone = false := by
    rw [Option.isNone_eq_false_iff]
    exact h
  simp only [handleDelivery, handleMessage, handleReplicateTransaction, wp_bind, wp_update, wp_read, wp_when, hnone,
    Bool.false_eq_true, false_implies, wp_sendMessage, wp_sendMessageToCoordinator, implies_true,
    and_self]

/-- A new log number: the transaction becomes active and is prepared without a check. -/
theorem hear_new (hfollower : env.isLeader = false) {m : ReplicateTransaction}
    (h : r.log.find m.txnLog.lsn = none) (ω : Choice) (remote : Addr) :
    ∃ txn : Transaction, txn.writeSet = Table.ofList m.txnLog.wset ∧
      hear env r (.replicate ω remote m) =
        { r with
          currentTs := max r.currentTs m.txnLog.timestamp
          log := r.log.addProto m.txnLog
          activeTxns := r.activeTxns.insert m.txnLog.txnId (some txn)
          store := (r.store.prepareUpcall ω.clock m.txnLog.txnId txn.serialize false).2 } := by
  let txn : Transaction :=
    { id := m.txnLog.txnId
      commitTs := ⟨m.txnLog.timestamp, m.replicaId⟩
      writeSet := Table.ofList m.txnLog.wset
      participants := m.participants }
  refine ⟨txn, rfl, ?_⟩
  apply hear_eq_of_wp
  simp only [handleDelivery, handleMessage, handleReplicateTransaction, wp_bind, wp_update, wp_read, wp_when, h,
    Option.isNone_none, true_implies, wp_emit, wp_withStore, hfollower, wp_sendMessage,
    wp_sendMessageToCoordinator, Bool.true_eq_false, false_implies, and_true]
  exact ⟨fun _ => rfl, fun _ => rfl⟩

/-- The store after a `ReplicateCommit`. -/
def settleStore (m : ReplicateCommit) (s : TxnStore) : TxnStore :=
  match m.state with
  | .commit => s.commit m.tid m.timestamp
  | .abort => s.abort m.tid
  | _ => s

theorem isSome_find_setStatus (l : Log) (id lsn : ℕ) (state : LogEntryState) :
    ((l.setStatus id state).find lsn).isSome = (l.find lsn).isSome := by
  rcases (Log.same_setStatus l id state).find lsn with ⟨h₁, h₂⟩ | ⟨e, e', h₁, h₂, _⟩
  · rw [h₁, h₂]
  · rw [h₁, h₂]
    rfl

/-- The log of a follower after a `ReplicateCommit`. -/
def settleLog (env : ReplicaEnv) (m : ReplicateCommit) (l : Log) : Log :=
  if env.cfg.mode = .rc then l.setStatus m.lsn m.state else l

theorem isSome_find_settleLog (env : ReplicaEnv) (m : ReplicateCommit) (l : Log) (lsn : ℕ) :
    ((settleLog env m l).find lsn).isSome = (l.find lsn).isSome := by
  unfold settleLog
  split_ifs
  · exact isSome_find_setStatus l m.lsn lsn m.state
  · rfl

/-- The decision about an active transaction is carried out. -/
theorem hear_commit_active (hfollower : env.isLeader = false) {m : ReplicateCommit}
    (h : HasActive r.activeTxns m.tid) (ω : Choice) (remote : Addr) :
    hear env r (.commit ω remote m) =
      { r with
        log := settleLog env m r.log
        activeTxns := r.activeTxns.erase m.tid
        store := settleStore m r.store } := by
  obtain ⟨txn, htxn⟩ := h
  apply hear_eq_of_wp
  by_cases hrc : env.cfg.mode = .rc
  · simp only [handleDelivery, handleMessage, handleReplicateCommit, wp_ite, wp_bind, wp_when, wp_update,
      hfollower, hrc, settleLog, settleStore, replicateOutcome, wp_activePtr, htxn]
    cases hs : m.state <;> simp
  · simp only [handleDelivery, handleMessage, handleReplicateCommit, wp_ite, wp_bind, wp_when, wp_update,
      hfollower, hrc, settleLog, settleStore, replicateOutcome, wp_activePtr, htxn]
    cases hs : m.state <;> simp

/-- The decision about a transaction that is not active is dropped. -/
theorem hear_commit_dropped (hfollower : env.isLeader = false) {m : ReplicateCommit}
    (h : ¬ HasActive r.activeTxns m.tid) (ω : Choice) (remote : Addr) :
    ∃ active, (∀ tid, HasActive active tid ↔ HasActive r.activeTxns tid) ∧
      hear env r (.commit ω remote m) =
        { r with log := settleLog env m r.log, activeTxns := active } := by
  rcases hlook : r.activeTxns.lookup m.tid with _ | _ | txn
  · refine ⟨r.activeTxns.insert m.tid none, fun tid => ?_, ?_⟩
    · unfold HasActive
      rw [Table.lookup_insert_eq]
      by_cases htid : tid = m.tid
      · rw [if_pos htid, htid, hlook]
        simp
      · rw [if_neg htid]
    · apply hear_eq_of_wp
      by_cases hrc : env.cfg.mode = .rc <;>
        simp [handleDelivery, handleMessage, handleReplicateCommit, hfollower, hrc, settleLog, wp_activePtr, hlook]
  · refine ⟨r.activeTxns, fun _ => Iff.rfl, ?_⟩
    apply hear_eq_of_wp
    by_cases hrc : env.cfg.mode = .rc <;>
      simp [handleDelivery, handleMessage, handleReplicateCommit, hfollower, hrc, settleLog, wp_activePtr, hlook]
  · exact absurd ⟨txn, hlook⟩ h

end Replica

/-! ### The invariant -/

open Replica

/-- **The invariant.** A follower that started as `r₀` and heard `ds`: which log numbers it
knows, which transactions are active and which prepared, and the versions it holds. -/
structure Tracks (L : LeaderLog) (r₀ : Replica) (ds : List Delivery) (r : Replica) : Prop where
  log : ∀ lsn, L.slot lsn ∈ L.txns →
    (r.log.find lsn).isSome = ds.any (Delivery.numbered lsn)
  active : ∀ tid ∈ L.txns, HasActive r.activeTxns tid ↔ unsettled tid [] ds = true
  prepared : ∀ tid ∈ L.txns, tid ∈ r.store.prepared ↔ unsettled tid [] ds = true ∨
    (¬ (L.outcome tid).Final ∧ ds.any (Delivery.replicates tid) = true)
  writes : ∀ tid ∈ L.txns, ∀ txn, r.store.prepared.lookup tid = some txn →
    txn.writeSet = (L.outcome tid).writes
  precommitted : ∀ tid ∈ L.txns, tid ∉ r.store.precommitted
  versions : ∀ key t v, r.store.kv.HasVersion key t v ↔
    (L.applyAll r₀.store.kv (settled [] ds)).HasVersion key t v

variable {L : LeaderLog} {env : ReplicaEnv} {r₀ r : Replica} {ds : List Delivery}

theorem LeaderLog.Unseen.tracks (h : L.Unseen r) : Tracks L r [] r where
  log lsn hlsn := by
    rw [h.log lsn hlsn]
    rfl
  active tid htid := by
    refine iff_of_false ?_ Bool.false_ne_true
    rintro ⟨txn, htxn⟩
    exact h.active tid htid txn htxn
  prepared tid htid := by
    refine iff_of_false (h.prepared tid htid) ?_
    rintro (h | ⟨_, h⟩) <;> cases h
  writes tid htid txn htxn := absurd (AList.lookup_isSome.1 (by rw [htxn]; rfl)) (h.prepared tid htid)
  precommitted := h.precommitted
  versions _ _ _ := Iff.rfl

/-- A `ReplicateTransaction` whose log number is known changes nothing. -/
theorem Tracks.known (h : Tracks L r₀ ds r) (hds : ∀ d ∈ ds, L.Sends d) {ω : Choice}
    {remote : Addr} {m : ReplicateTransaction} (hm : L.Sends (.replicate ω remote m))
    (hknown : ds.any (Delivery.numbered m.txnLog.lsn) = true) :
    Tracks L r₀ (ds ++ [.replicate ω remote m])
      { r with currentTs := max r.currentTs m.txnLog.timestamp } := by
  obtain ⟨_, hslot, _⟩ := hm
  have hopen : ∀ tid, unsettled tid [] (ds ++ [.replicate ω remote m]) = unsettled tid [] ds := by
    intro tid
    rw [unsettled_replicate, hknown]
    simp
  have hrep : ∀ tid, (ds ++ [Delivery.replicate ω remote m]).any (Delivery.replicates tid) =
      ds.any (Delivery.replicates tid) := by
    intro tid
    simp only [List.any_append, List.any_cons, List.any_nil, Bool.or_false, Delivery.replicates]
    by_cases htid : m.txnLog.txnId = tid
    · have hold := LeaderLog.replicated_of_numbered hds hknown
      rw [hslot, htid] at hold
      rw [hold, Bool.true_or]
    · rw [decide_eq_false htid, Bool.or_false]
  refine ⟨fun lsn hlsn => ?_, fun tid htid => ?_, fun tid htid => ?_, h.writes, h.precommitted, ?_⟩
  · simp only [List.any_append, List.any_cons, List.any_nil, Bool.or_false, Delivery.numbered]
    rw [h.log lsn hlsn]
    by_cases heq : m.txnLog.lsn = lsn
    · rw [heq] at hknown
      rw [hknown, Bool.true_or]
    · rw [decide_eq_false heq, Bool.or_false]
  · rw [hopen]
    exact h.active tid htid
  · rw [hopen, hrep]
    exact h.prepared tid htid
  · rw [settled_replicate]
    exact h.versions

/-- A `ReplicateTransaction` with a new log number opens its transaction. -/
theorem Tracks.opens (h : Tracks L r₀ ds r) {ω : Choice} {remote : Addr}
    {m : ReplicateTransaction} (hm : L.Sends (.replicate ω remote m))
    (hnew : ds.any (Delivery.numbered m.txnLog.lsn) = false) {txn : Transaction}
    (htxn : txn.writeSet = Table.ofList m.txnLog.wset) (clock : Clock) :
    Tracks L r₀ (ds ++ [.replicate ω remote m])
      { r with
        currentTs := max r.currentTs m.txnLog.timestamp
        log := r.log.addProto m.txnLog
        activeTxns := r.activeTxns.insert m.txnLog.txnId (some txn)
        store := (r.store.prepareUpcall clock m.txnLog.txnId txn.serialize false).2 } := by
  obtain ⟨_, _, hwrites⟩ := hm
  obtain ⟨hkv, hprep, hpre⟩ := r.store.prepare_unchecked clock m.txnLog.txnId
    (Transaction.ofMessage txn.serialize)
  have hopen : ∀ tid, unsettled tid [] (ds ++ [.replicate ω remote m]) =
      (unsettled tid [] ds || decide (m.txnLog.txnId = tid)) := by
    intro tid
    rw [unsettled_replicate, hnew]
    simp
  refine ⟨fun lsn hlsn => ?_, fun tid htid => ?_, fun tid htid => ?_, fun tid htid t ht => ?_,
    fun tid htid => ?_, fun key t v => ?_⟩
  · simp only [List.any_append, List.any_cons, List.any_nil, Bool.or_false, Delivery.numbered]
    rw [Log.find_addProto]
    by_cases heq : lsn = m.txnLog.lsn
    · rw [if_pos heq, decide_eq_true heq.symm, Bool.or_true]
      rfl
    · rw [if_neg heq, decide_eq_false (Ne.symm heq), Bool.or_false]
      exact h.log lsn hlsn
  · rw [hopen]
    unfold HasActive
    rw [Table.lookup_insert_eq]
    by_cases heq : tid = m.txnLog.txnId
    · rw [if_pos heq, decide_eq_true heq.symm, Bool.or_true]
      exact iff_of_true ⟨txn, rfl⟩ rfl
    · rw [if_neg heq, decide_eq_false (Ne.symm heq), Bool.or_false]
      exact h.active tid htid
  · rw [hopen]
    show tid ∈ (TxnStore.prepare _ _ _ _ _).2.prepared ↔ _
    rw [hprep]
    simp only [List.any_append, List.any_cons, List.any_nil, Bool.or_false, Delivery.replicates]
    by_cases heq : tid = m.txnLog.txnId
    · rw [decide_eq_true heq.symm, Bool.or_true]
      refine iff_of_true ?_ (.inl rfl)
      split_ifs with hmem
      · rw [heq]
        exact hmem
      · rw [heq]
        exact AList.mem_insert _ |>.2 (.inl rfl)
    · rw [decide_eq_false (Ne.symm heq), Bool.or_false, Bool.or_false, ← h.prepared tid htid]
      split_ifs
      · exact Iff.rfl
      · rw [AList.mem_insert]
        exact or_iff_right heq
  · change (TxnStore.prepare _ _ _ _ _).2.prepared.lookup tid = some t at ht
    rw [hprep] at ht
    split_ifs at ht with hmem
    · exact h.writes tid htid t ht
    · rw [Table.lookup_insert_eq] at ht
      split_ifs at ht with heq
      · cases ht
        rw [Transaction.ofMessage_serialize, heq, htxn]
        exact hwrites
      · exact h.writes tid htid t ht
  · show tid ∉ (TxnStore.prepare _ _ _ _ _).2.precommitted
    rw [hpre]
    exact h.precommitted tid htid
  · show (TxnStore.prepare _ _ _ _ _).2.kv.HasVersion key t v ↔ _
    rw [hkv, settled_replicate]
    exact h.versions key t v

/-- The messages about a transaction other than the decided one, before and after. -/
theorem replicated_commit (tid : TxnId) (ds : List Delivery) (ω : Choice) (remote : Addr)
    (m : ReplicateCommit) :
    (ds ++ [Delivery.commit ω remote m]).any (Delivery.replicates tid) =
      ds.any (Delivery.replicates tid) := by
  simp [Delivery.replicates]

theorem numbered_commit (lsn : ℕ) (ds : List Delivery) (ω : Choice) (remote : Addr)
    (m : ReplicateCommit) :
    (ds ++ [Delivery.commit ω remote m]).any (Delivery.numbered lsn) =
      ds.any (Delivery.numbered lsn) := by
  simp [Delivery.numbered]

/-- A dropped `ReplicateCommit`: its transaction was settled before, or never replicated. -/
theorem Tracks.dropped (h : Tracks L r₀ ds r) (hds : ∀ d ∈ ds, L.Sends d) {ω : Choice}
    {remote : Addr} {m : ReplicateCommit} (hopen : unsettled m.tid [] ds = false)
    {active : Table TxnId (Option Transaction)}
    (hactive : ∀ tid, HasActive active tid ↔ HasActive r.activeTxns tid) :
    Tracks L r₀ (ds ++ [.commit ω remote m])
      { r with log := settleLog env m r.log, activeTxns := active } := by
  have hsame : ∀ tid, unsettled tid [] (ds ++ [.commit ω remote m]) = unsettled tid [] ds := by
    intro tid
    rw [unsettled_commit]
    by_cases htid : m.tid = tid
    · rw [← htid, hopen, Bool.false_and]
    · rw [decide_eq_true htid, Bool.and_true]
  refine ⟨fun lsn hlsn => ?_, fun tid htid => ?_, fun tid htid => ?_, h.writes, h.precommitted,
    fun key t v => ?_⟩
  · rw [isSome_find_settleLog, numbered_commit]
    exact h.log lsn hlsn
  · rw [hsame, hactive]
    exact h.active tid htid
  · rw [hsame, replicated_commit]
    exact h.prepared tid htid
  · rw [h.versions, settled_commit]
    by_cases hrep : ds.any (Delivery.replicates m.tid) = true
    · rw [if_pos (.inr hrep)]
      have hmem := LeaderLog.mem_settled hds hrep hopen
      refine (L.applyAll_same_iff r₀.store.kv _ _).2 (fun key ts _ => ?_) key t v
      exact (L.firstWrite_again hmem key ts).symm
    · have hnot : ¬ (m.tid ∈ ([] : List TxnId) ∨ ds.any (Delivery.replicates m.tid) = true) := by
        rintro (hnil | hrep')
        · cases hnil
        · exact hrep hrep'
      rw [if_neg hnot, List.append_nil]

/-- What a follower's store holds after the decision about an open transaction. -/
theorem Tracks.settleStore (h : Tracks L r₀ ds r) {ω : Choice} {remote : Addr}
    {m : ReplicateCommit} (hm : L.Sends (.commit ω remote m))
    (hopen : unsettled m.tid [] ds = true) :
    (settleStore m r.store).prepared =
      (if (L.outcome m.tid).Final then r.store.prepared.erase m.tid else r.store.prepared) ∧
    (∀ tid ∈ L.txns, tid ∉ (settleStore m r.store).precommitted) ∧
    (settleStore m r.store).kv = (L.outcome m.tid).apply m.tid r.store.kv := by
  obtain ⟨htid, hstate, hts⟩ := hm
  have hpre := h.precommitted m.tid htid
  have herase : ∀ tid ∈ L.txns, tid ∉ r.store.precommitted.erase m.tid := fun tid htid' hmem =>
    h.precommitted tid htid' (AList.mem_erase.1 hmem).2
  obtain ⟨txn, htxn⟩ := Option.isSome_iff_exists.1
    (AList.lookup_isSome.2 ((h.prepared m.tid htid).2 (.inl hopen)))
  have hentry : r.store.entry m.tid = some txn := by
    rw [TxnStore.entry, AList.lookup_eq_none.2 hpre, htxn]
    rfl
  -- any other decision leaves the store alone
  have hother : m.state ≠ .commit → m.state ≠ .abort →
      r.store.prepared = (if (L.outcome m.tid).Final then r.store.prepared.erase m.tid
        else r.store.prepared) ∧
      (∀ tid ∈ L.txns, tid ∉ r.store.precommitted) ∧
      r.store.kv = (L.outcome m.tid).apply m.tid r.store.kv := by
    intro hcommit habort
    rw [hstate] at hcommit habort
    have hfinal : ¬ (L.outcome m.tid).Final := not_or.2 ⟨hcommit, habort⟩
    refine ⟨?_, h.precommitted, ?_⟩
    · rw [if_neg hfinal]
    · rw [Resolution.apply, if_neg hcommit]
  unfold Replica.settleStore
  cases hs : m.state with
  | commit =>
      have hcommit : (L.outcome m.tid).state = .commit := by rw [← hstate, hs]
      refine ⟨?_, ?_, ?_⟩
      · rw [if_pos (.inl hcommit)]
        exact TxnStore.commit_prepared hpre m.timestamp
      · show ∀ tid ∈ L.txns, tid ∉ (TxnStore.commit _ _ _).precommitted
        rw [TxnStore.commit_precommitted]
        exact herase
      · show (TxnStore.commit _ _ _).kv = _
        rw [TxnStore.kv_commit, hentry, Resolution.apply, if_pos hcommit, ← hts,
          ← h.writes m.tid htid txn htxn]
  | abort =>
      have habort : (L.outcome m.tid).state = .abort := by rw [← hstate, hs]
      refine ⟨?_, ?_, ?_⟩
      · rw [if_pos (.inr habort)]
        exact TxnStore.abort_prepared hpre
      · show ∀ tid ∈ L.txns, tid ∉ (TxnStore.abort _ _).precommitted
        rw [TxnStore.abort_precommitted]
        exact herase
      · rw [Resolution.apply, if_neg (by rw [habort]; intro h; cases h)]
        exact TxnStore.kv_abort r.store m.tid
  | apply => exact hother (by rw [hs]; intro h; cases h) (by rw [hs]; intro h; cases h)
  | prepareOk => exact hother (by rw [hs]; intro h; cases h) (by rw [hs]; intro h; cases h)
  | undecide => exact hother (by rw [hs]; intro h; cases h) (by rw [hs]; intro h; cases h)

/-- A `ReplicateCommit` settles its open transaction. -/
theorem Tracks.settles (h : Tracks L r₀ ds r) {ω : Choice} {remote : Addr} {m : ReplicateCommit}
    (hm : L.Sends (.commit ω remote m)) (hopen : unsettled m.tid [] ds = true) :
    Tracks L r₀ (ds ++ [.commit ω remote m])
      { r with
        log := settleLog env m r.log
        activeTxns := r.activeTxns.erase m.tid
        store := Replica.settleStore m r.store } := by
  obtain ⟨hprep, hpre, hkv⟩ := h.settleStore hm hopen
  have hrep := replicated_of_unsettled hopen
  refine ⟨fun lsn hlsn => ?_, fun tid htid => ?_, fun tid htid => ?_, fun tid htid t ht => ?_, hpre,
    fun key t v => ?_⟩
  · rw [isSome_find_settleLog, numbered_commit]
    exact h.log lsn hlsn
  · unfold HasActive
    rw [unsettled_commit, Table.lookup_erase_eq]
    by_cases heq : tid = m.tid
    · rw [if_pos heq, heq]
      simp
    · rw [if_neg heq, decide_eq_true (Ne.symm heq), Bool.and_true]
      exact h.active tid htid
  · show tid ∈ (Replica.settleStore m r.store).prepared ↔ _
    rw [hprep, unsettled_commit, replicated_commit]
    by_cases heq : tid = m.tid
    · subst heq
      rw [hrep]
      by_cases hfinal : (L.outcome m.tid).Final
      · simp [hfinal, AList.mem_erase]
      · simp [hfinal, (h.prepared m.tid htid).2 (.inl hopen)]
    · rw [decide_eq_true (Ne.symm heq), Bool.and_true, ← h.prepared tid htid]
      split_ifs
      · rw [AList.mem_erase]
        exact and_iff_right heq
      · exact Iff.rfl
  · change (Replica.settleStore m r.store).prepared.lookup tid = some t at ht
    rw [hprep] at ht
    split_ifs at ht
    · exact h.writes tid htid t (TxnStore.lookup_erase_some ht).2
    · exact h.writes tid htid t ht
  · show (Replica.settleStore m r.store).kv.HasVersion key t v ↔ _
    rw [settled_commit, if_pos (.inr hrep), LeaderLog.applyAll, List.foldl_append]
    show _ ↔ ((L.outcome m.tid).apply m.tid (L.applyAll r₀.store.kv (settled [] ds))).HasVersion _ _ _
    simp only [hkv, Resolution.hasVersion_apply, VersionedKVStore.Free, h.versions]

/-- **Every sequence of messages.** The follower's tables are what the messages make them. -/
theorem tracks_hearAll (hfollower : env.isLeader = false) (hr : L.Unseen r)
    (hds : ∀ d ∈ ds, L.Sends d) : Tracks L r ds (hearAll env r ds) := by
  induction ds using List.reverseRecOn with
  | nil => exact hr.tracks
  | append_singleton ds d ih =>
      have hds' : ∀ d ∈ ds, L.Sends d := fun d hd => hds d (List.mem_append_left _ hd)
      have hd : L.Sends d := hds d (List.mem_append_right ds (List.mem_singleton_self d))
      have h := ih hds'
      rw [hearAll, Calls.run_concat]
      change Tracks L r (ds ++ [d]) (hear env (hearAll env r ds) d)
      cases d with
      | replicate ω remote m =>
          have hlsn := h.log m.txnLog.lsn (by rw [hd.2.1]; exact hd.1)
          cases hnum : ds.any (Delivery.numbered m.txnLog.lsn) with
          | true =>
              rw [hear_known (hlsn.trans hnum)]
              exact h.known hds' hd hnum
          | false =>
              have hnone := Option.not_isSome_iff_eq_none.1
                (Bool.not_eq_true _ |>.mpr (hlsn.trans hnum))
              obtain ⟨txn, htxn, heq⟩ := hear_new hfollower hnone ω remote
              rw [heq]
              exact h.opens hd hnum htxn ω.clock
      | commit ω remote m =>
          cases hopen : unsettled m.tid [] ds with
          | true =>
              rw [hear_commit_active hfollower ((h.active m.tid hd.1).2 hopen)]
              exact h.settles hd hopen
          | false =>
              have hnot : ¬ HasActive (hearAll env r ds).activeTxns m.tid := by
                rw [h.active m.tid hd.1, hopen]
                exact Bool.false_ne_true
              obtain ⟨active, hactive, heq⟩ := hear_commit_dropped hfollower hnot ω remote
              rw [heq]
              exact h.dropped hds' hopen hactive

/-! ### Convergence -/

/-- The follower holds exactly the versions that the transactions left at the leader, which
started from the versions `kv`, and none of the transactions is prepared any more. -/
def Converged (L : LeaderLog) (kv : VersionedKVStore) (r : Replica) : Prop :=
  (∀ key t v, r.store.kv.HasVersion key t v ↔ (L.applyAll kv L.txns).HasVersion key t v) ∧
    ∀ tid ∈ L.txns, tid ∉ r.store.prepared

/-- The messages settle every transaction, and where several of them write one key at one
timestamp the first writer is the leader's. -/
structure Settles (L : LeaderLog) (kv : VersionedKVStore) (ds : List Delivery) : Prop where
  final : ∀ tid ∈ L.txns, (L.outcome tid).Final
  closed : ∀ tid ∈ L.txns, unsettled tid [] ds = false
  first : ∀ key ts, kv.Free key ⟨ts, 0⟩ →
    L.firstWrite (settled [] ds) key ts = L.firstWrite L.txns key ts

/-- **Convergence.** A follower that heard both messages of every transaction, in any order and
with any repetitions, ends with what the leader has if and only if every `ReplicateTransaction`
that was new to it was followed by a `ReplicateCommit`, every decision was a commit or an abort,
and concurrent writes at one timestamp were settled in the leader's order. -/
theorem follower_converges_iff (hfollower : env.isLeader = false) (hr : L.Unseen r)
    (hds : L.Delivered ds) :
    Converged L r.store.kv (hearAll env r ds) ↔ Settles L r.store.kv ds := by
  have h := tracks_hearAll hfollower hr hds.sent
  have hversions : (∀ key t v, (hearAll env r ds).store.kv.HasVersion key t v ↔
      (L.applyAll r.store.kv L.txns).HasVersion key t v) ↔
      ∀ key ts, r.store.kv.Free key ⟨ts, 0⟩ →
        L.firstWrite (settled [] ds) key ts = L.firstWrite L.txns key ts := by
    rw [← L.applyAll_same_iff]
    simp only [h.versions]
  constructor
  · rintro ⟨hsame, hnone⟩
    refine ⟨fun tid htid => ?_, fun tid htid => ?_, hversions.1 hsame⟩
    · by_contra hfinal
      exact hnone tid htid ((h.prepared tid htid).2 (.inr ⟨hfinal, hds.replicated tid htid⟩))
    · by_contra hopen
      rw [Bool.not_eq_false] at hopen
      exact hnone tid htid ((h.prepared tid htid).2 (.inl hopen))
  · intro hs
    refine ⟨hversions.2 hs.first, fun tid htid hmem => ?_⟩
    rcases (h.prepared tid htid).1 hmem with hopen | ⟨hfinal, _⟩
    · rw [hs.closed tid htid] at hopen
      cases hopen
    · exact hfinal (hs.final tid htid)

/-! ### One transaction -/

/-- A follower of a shard in the fast mode. -/
def oneFollower : ReplicaEnv where
  cfg := threeReplicas .fast 1
  shardId := 0
  replicaId := 1

/-- A follower that has heard nothing. -/
def newFollower : Replica where
  currentTs := 0
  store := .occ {}

/-- A leader that committed one write. -/
def oneCommit : LeaderLog where
  txns := [7]
  slot _ := 7
  outcome _ := ⟨Table.ofList [("a", "1")], .commit, 1⟩

/-- The two messages of the transaction. -/
def replicateSeven : Delivery :=
  .replicate {} (.replica 0 0)
    { txnLog := ⟨[("a", "1")], .prepareOk, 1, 0, 0, 7⟩
      term := 0
      replicaId := 0
      primaryCoordinator := 0
      participants := [0]
      primaryShard := 0
      vote := .prepareOk
      hasPreCommit := false }

def commitSeven : Delivery :=
  .commit {} (.replica 0 0) { tid := 7, lsn := 0, state := .commit, timestamp := 1 }

theorem oneCommit_unseen : oneCommit.Unseen newFollower where
  log _ _ := rfl
  active _ _ _ := fun h => by cases h
  prepared _ _ := AList.notMem_empty _
  precommitted _ _ := AList.notMem_empty _

/-- **A decision overtakes its transaction**: the follower drops it, keeps the transaction
prepared and never gets the version. -/
theorem overtaken_not_converged :
    oneFollower.isLeader = false ∧ oneCommit.Unseen newFollower ∧
      oneCommit.Delivered [commitSeven, replicateSeven] ∧
      ¬ Converged oneCommit newFollower.store.kv
        (hearAll oneFollower newFollower [commitSeven, replicateSeven]) := by
  refine ⟨by decide, oneCommit_unseen, ⟨by decide, by decide, by decide⟩, ?_⟩
  rintro ⟨_, hnone⟩
  exact hnone 7 (List.mem_singleton_self 7) (by decide)

/-- In the order in which they are sent, with both messages repeated. -/
theorem repeated_converged :
    Settles oneCommit newFollower.store.kv
        [replicateSeven, commitSeven, replicateSeven, commitSeven] ∧
      Converged oneCommit newFollower.store.kv
        (hearAll oneFollower newFollower
          [replicateSeven, commitSeven, replicateSeven, commitSeven]) := by
  have hdelivered : oneCommit.Delivered
      [replicateSeven, commitSeven, replicateSeven, commitSeven] :=
    ⟨by decide, by decide, by decide⟩
  have hsettles : Settles oneCommit newFollower.store.kv
      [replicateSeven, commitSeven, replicateSeven, commitSeven] := by
    refine ⟨by decide, by decide, fun key ts _ => ?_⟩
    show oneCommit.firstWrite ([7] ++ [7]) key ts = oneCommit.firstWrite [7] key ts
    exact oneCommit.firstWrite_again (List.mem_singleton_self 7) key ts
  exact ⟨hsettles, (follower_converges_iff (by decide) oneCommit_unseen hdelivered).2 hsettles⟩

end D2PC
