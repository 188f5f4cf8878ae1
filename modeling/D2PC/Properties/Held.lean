import D2PC.Invariant.Stores
import D2PC.Properties.Visibility

/-!
# From the prepare to the commit

What the leader of a shard keeps for a transaction in the parallel mode: nothing before it has
accepted the prepare, then the pending entry and the writes, at last only the outcome. An
announcement that finds the transaction held installs its writes, tells the followers and clears
every table.

* `Replica.Unheard`, `Replica.Held`, `Replica.Closed` : the three stages;
* `Replica.Disturbs` : the inputs that lead out of them;
* `Replica.Held.announced` : the announcement of a transaction that is held;
* `Replica.Unheard.input`, `Replica.Held.input`, `Replica.Closed.input` : the steps for the
  transaction itself, stage by stage.
-/

namespace D2PC

open Protocol Prog Ctx

namespace Replica

variable {env : ReplicaEnv} {ω : Choice} {x₀ x : Ctx Replica Addr Msg Event} {tid T : TxnId}
  {C A : Prop} {wset : Table Key Value}

/-! ### The stages -/

/-- Nothing is kept for the transaction. -/
structure Unheard (tid : TxnId) (r : Replica) : Prop where
  pending : r.pendingTxns.lookup tid = none
  active : (r.activeTxns.lookup tid).join = none
  undecided : r.committedTxns.lookup tid = none
  prepared : r.store.prepared.lookup tid = none
  precommitted : r.store.precommitted.lookup tid = none

/-- The store has the writes of the transaction: as prepared ones, and once a decision is on record
as pre-committed ones. -/
def Stored (tid : TxnId) (wset : Table Key Value) (r : Replica) : Prop :=
  (r.committedTxns.lookup tid = none ∧ r.store.precommitted.lookup tid = none ∧
    (r.store.prepared.lookup tid).map Transaction.writeSet = some wset) ∨
  ((r.committedTxns.lookup tid).isSome ∧ r.store.prepared.lookup tid = none ∧
    (r.store.precommitted.lookup tid).map Transaction.writeSet = some wset)

/-- The transaction is pending and takes part, and the store has its writes. -/
structure Held (tid : TxnId) (wset : Table Key Value) (r : Replica) : Prop where
  pending : ∃ req, r.pendingTxns.lookup tid = some req ∧ Joined tid r req
  stored : Stored tid wset r

/-- The transaction was committed. A request for its outcome may have come since. -/
structure Closed (tid : TxnId) (r : Replica) : Prop where
  active : (r.activeTxns.lookup tid).join = none
  decided : (r.committedTxns.lookup tid).isSome
  prepared : r.store.prepared.lookup tid = none
  placeholder : ∀ req, r.pendingTxns.lookup tid = some req → req.isParticipant = false ∧
    req.timer = none ∧ ∃ a, r.clientList.lookup tid = some (some a)

theorem Held.ready {r : Replica} (h : Held tid wset r) : Ready tid r := by
  intro req hreq
  obtain ⟨req', hreq', hjoined⟩ := h.pending
  rw [hreq] at hreq'
  cases hreq'
  exact hjoined

/-- The store operation `commit` finds the writes. -/
theorem Stored.entry {r : Replica} (h : Stored tid wset r) :
    (r.store.entry tid).map Transaction.writeSet = some wset := by
  unfold TxnStore.entry
  rcases h with ⟨_, hnone, hsome⟩ | ⟨_, _, hsome⟩
  · rw [hnone]
    exact hsome
  · obtain ⟨txn, htxn, hwset⟩ := Option.map_eq_some_iff.1 hsome
    rw [htxn]
    exact congrArg some hwset

/-- After the commit nothing of the transaction is prepared. -/
theorem Stored.commit_prepared {r : Replica} (h : Stored tid wset r) (ts : ℕ) :
    (r.store.commit tid ts).prepared.lookup tid = none := by
  rcases h with ⟨_, hnone, _⟩ | ⟨_, hnone, _⟩
  · rw [TxnStore.commit_prepared (AList.lookup_eq_none.1 hnone)]
    exact AList.lookup_erase _ _
  · exact TxnStore.commit_prepared_none hnone _ _

/-! ### What does not concern the transaction -/

/-- Everything that is kept for the transaction stays, but for counters and null pointers. -/
structure Unaffected (tid : TxnId) (r r' : Replica) : Prop where
  pending : r'.pendingTxns.lookup tid = r.pendingTxns.lookup tid
  active : ActiveLike (r.activeTxns.lookup tid) (r'.activeTxns.lookup tid)
  committed : r'.committedTxns.lookup tid = r.committedTxns.lookup tid
  client : r'.clientList.lookup tid = r.clientList.lookup tid
  log : ∀ lsn, (r.log.find lsn).isSome → (r'.log.find lsn).isSome
  store : TxnStore.Apart tid r.store r'.store

theorem Unaffected.refl (tid : TxnId) (r : Replica) : Unaffected tid r r :=
  ⟨rfl, rfl, rfl, rfl, fun _ h => h, .refl tid _⟩

section Unaffected

variable {r r' : Replica}

theorem Unheard.unaffected (h : Unheard tid r) (hr : Unaffected tid r r') : Unheard tid r' := by
  refine ⟨hr.pending.trans h.pending, ?_, hr.committed.trans h.undecided,
    hr.store.prepared.trans h.prepared, hr.store.precommitted.trans h.precommitted⟩
  have hactive := hr.active
  rw [ActiveLike, h.active] at hactive
  exact Option.map_eq_none_iff.1 hactive

theorem Stored.unaffected (h : Stored tid wset r) (hr : Unaffected tid r r') :
    Stored tid wset r' := by
  rw [Stored, hr.committed, hr.store.prepared, hr.store.precommitted]
  exact h

theorem Held.unaffected (h : Held tid wset r) (hr : Unaffected tid r r') : Held tid wset r' := by
  obtain ⟨req, hreq, hjoined⟩ := h.pending
  refine ⟨⟨req, hr.pending.trans hreq, hjoined.takesPart, hjoined.undecided, hjoined.unconfirmed,
    hr.log _ hjoined.entry, isSome_activeLike hr.active hjoined.active, ?_⟩,
    h.stored.unaffected hr⟩
  rw [hr.client]
  exact hjoined.client

theorem Closed.unaffected (h : Closed tid r) (hr : Unaffected tid r r') : Closed tid r' := by
  refine ⟨?_, ?_, hr.store.prepared.trans h.prepared, fun req hreq => ?_⟩
  · have hactive := hr.active
    rw [ActiveLike, h.active] at hactive
    exact Option.map_eq_none_iff.1 hactive
  · rw [hr.committed]
    exact h.decided
  · rw [hr.client]
    exact h.placeholder req (hr.pending.symm.trans hreq)

end Unaffected

/-- Operations for another transaction, if they leave this one alone in the store. -/
theorem Ops.unaffected (h : Ops env T C A x₀ x) (hne : tid ≠ T)
    (hstore : TxnStore.Apart tid x₀.state.store x.state.store) :
    Unaffected tid x₀.state x.state := by
  have htables : x.state.pendingTxns.lookup tid = x₀.state.pendingTxns.lookup tid ∧
      ActiveLike (x₀.state.activeTxns.lookup tid) (x.state.activeTxns.lookup tid) ∧
      x.state.committedTxns.lookup tid = x₀.state.committedTxns.lookup tid ∧
      x.state.clientList.lookup tid = x₀.state.clientList.lookup tid ∧
      ∀ lsn, (x₀.state.log.find lsn).isSome → (x.state.log.find lsn).isSome := by
    clear hstore
    induction h with
    | refl => exact ⟨rfl, rfl, rfl, rfl, fun _ h => h⟩
    | tail _ hop ih =>
        obtain ⟨hpend, hactive, hcom, hclient, hlog⟩ := ih
        cases hop with
        | pending t ht => exact ⟨(ht tid hne).trans hpend, hactive, hcom, hclient, hlog⟩
        | active t ht =>
            exact ⟨hpend, (show ActiveLike _ _ from ht tid hne).trans hactive, hcom, hclient, hlog⟩
        | committed t ht => exact ⟨hpend, hactive, (ht tid hne).trans hcom, hclient, hlog⟩
        | client t ht => exact ⟨hpend, hactive, hcom, (ht tid hne).trans hclient, hlog⟩
        | rest log ts deps hl =>
            exact ⟨hpend, hactive, hcom, hclient, fun lsn hlsn => hl lsn (hlog lsn hlsn)⟩
        | _ => exact ⟨hpend, hactive, hcom, hclient, hlog⟩
  obtain ⟨hpend, hactive, hcom, hclient, hlog⟩ := htables
  exact ⟨hpend, hactive, hcom, hclient, hlog, hstore⟩

/-! ### Reads and entries -/

/-- The step passes the transaction by: nothing of it changes, and it is not validated. -/
structure Passes (tid : TxnId) (x y : Ctx Replica Addr Msg Event) : Prop where
  kept : Unaffected tid x.state y.state
  validated : ∀ wset, .validated tid wset ∈ y.events → .validated tid wset ∈ x.events

theorem Unaffected.setActive {r r' : Replica} (h : Unaffected tid r r')
    {t : Table TxnId (Option Transaction)}
    (ht : ActiveLike (r'.activeTxns.lookup tid) (t.lookup tid)) :
    Unaffected tid r { r' with activeTxns := t } :=
  ⟨h.pending, (show ActiveLike _ _ from ht).trans h.active, h.committed, h.client, h.log, h.store⟩

theorem readKey_passes (hx : Passes tid x₀ x) (T : TxnId) (key : Key) :
    wp (readKey env T key) (fun _ => Passes tid x₀) (Passes tid x₀) x := by
  have hnull : ∀ d, x.state.activeTxns.lookup d = none → Passes tid x₀ { x with
      state := { x.state with activeTxns := x.state.activeTxns.insert d none } } := by
    intro d hnone
    refine ⟨hx.kept.setActive ?_, hx.validated⟩
    rw [Table.lookup_insert_eq]
    split_ifs with heq
    · rw [heq, hnone]
      rfl
    · rfl
  have hout : ∀ d deps, Passes tid x₀ { x with
      state := { Replica.mapActive d (·.addOut T) x.state with inDependency := deps } } := by
    intro d deps
    refine ⟨?_, hx.validated⟩
    unfold Replica.mapActive
    split
    · rename_i txn htxn
      have hkept := hx.kept.setActive (t := x.state.activeTxns.insert d (some (txn.addOut T))) (by
        rw [Table.lookup_insert_eq]
        split_ifs with heq
        · rw [heq, htxn]
          rfl
        · rfl)
      exact ⟨hkept.pending, hkept.active, hkept.committed, hkept.client, hkept.log, hkept.store⟩
    · exact ⟨hx.kept.pending, hx.kept.active, hx.kept.committed, hx.kept.client, hx.kept.log,
        hx.kept.store⟩
  simp only [readKey, wp_bind, wp_read, wp_ite, wp_pure, wp_activePtr]
  refine ⟨fun _ => ⟨fun _ => ⟨fun p _ => ?_, fun hnone => hnull _ hnone⟩, fun _ => hx⟩, fun _ => hx⟩
  cases p with
  | none => exact hx
  | some dependent =>
      simp only [wp_bind, wp_modifyActive, wp_update]
      split
      · simp only [wp_bind, wp_emit, wp_pure]
        refine ⟨(hout _ _).kept, fun wset hmem => ?_⟩
        rcases List.mem_append.1 hmem with hold | hnew
        · exact hx.validated wset hold
        · cases List.mem_singleton.1 hnew
      · exact hout _ _

theorem readKeys_passes (T : TxnId) (keys : List Key) :
    ∀ {x : Ctx Replica Addr Msg Event}, Passes tid x₀ x →
      wp (readKeys env T keys) (fun _ => Passes tid x₀) (Passes tid x₀) x := by
  induction keys with
  | nil => exact fun hx => hx
  | cons key keys ih =>
      intro x hx
      simp only [readKeys, wp_bind]
      refine wp_mono (fun v y hy => ?_) (fun _ hy => hy) (readKey_passes hx T key)
      cases v with
      | none => exact hy
      | some v =>
          simp only [wp_bind, wp_pure]
          exact wp_mono (fun _ _ hz => hz) (fun _ hz => hz) (ih hy)

theorem handleRead_passes (remote : Addr) (msg : GetData) :
    wp (handleRead env remote msg) (fun _ => Passes tid x) (fun _ => True) x := by
  simp only [handleRead, wp_bind, wp_sendMessage]
  refine wp_mono (fun _ y hy => ⟨hy.kept, hy.validated⟩) (fun _ _ => trivial)
    (readKeys_passes msg.tid msg.keys ?_)
  exact ⟨.refl tid _, fun _ h => h⟩

/-- A leader finds its own entries in the log. -/
theorem handleReplicateTransaction_passes {msg : ReplicateTransaction}
    (hfound : (x.state.log.find msg.txnLog.lsn).isSome) (remote : Addr) :
    wp (handleReplicateTransaction env ω remote msg) (fun _ => Passes tid x) (fun _ => True) x := by
  obtain ⟨e, he⟩ := Option.isSome_iff_exists.1 hfound
  rw [handleReplicateTransaction, wp_bind, wp_update, wp_bind, wp_read, wp_bind, wp_when]
  refine ⟨fun hnew => ?_, fun _ => ?_⟩
  · have hnone : (x.state.log.find msg.txnLog.lsn).isNone = true := hnew
    rw [he] at hnone
    cases hnone
  · simp only [wp_bind, wp_sendMessage, wp_when, wp_sendMessageToCoordinator]
    have hread : ∀ ts ps, Passes tid x { x with
        state := { x.state with currentTs := ts }
        sent := ps } := by
      intro ts ps
      exact ⟨⟨rfl, rfl, rfl, rfl, fun _ h => h, .refl tid _⟩, fun _ h => h⟩
    exact ⟨fun _ => hread _ _, fun _ => hread _ _⟩

/-! ### The commit of a transaction that is held -/

/-- None of the transactions that read the writes of this one has a null pointer. -/
def ReadersLive (tid : TxnId) (r : Replica) : Prop :=
  ∀ txn, r.activeTxns.lookup tid = some (some txn) → ∀ out ∈ txn.out,
    r.activeTxns.lookup out ≠ some none

/-- Every replica of the shard is told of the commit. -/
def Told (env : ReplicaEnv) (tid : TxnId) (ps : List Pkt) : Prop :=
  ∀ i < env.cfg.n, ∃ m, ⟨env.addr, .replica env.shardId i, .replicateCommit m⟩ ∈ ps ∧
    m.tid = tid ∧ m.state = .commit

theorem Told.mono {ps qs : List Pkt} (h : Told env tid ps) (hsub : ∀ p ∈ ps, p ∈ qs) :
    Told env tid qs := by
  intro i hi
  obtain ⟨m, hm, hmsg⟩ := h i hi
  exact ⟨m, hsub _ hm, hmsg⟩

/-- Between the two only messages were sent and dependencies counted. -/
structure Notified (x y : Ctx Replica Addr Msg Event) : Prop where
  store : y.state.store = x.state.store
  events : y.events = x.events
  sent : ∀ p ∈ x.sent, p ∈ y.sent
  null : ∀ o, y.state.activeTxns.lookup o = some none → x.state.activeTxns.lookup o = some none

theorem Notified.mapActive {y : Ctx Replica Addr Msg Event} (hy : Notified x y) (out : TxnId)
    (f : Transaction → Transaction) :
    Notified x { y with state := Replica.mapActive out f y.state } := by
  unfold Replica.mapActive
  split
  · refine ⟨hy.store, hy.events, hy.sent, fun o ho => hy.null o ?_⟩
    rw [Table.lookup_insert_eq] at ho
    split_ifs at ho with heq
    · cases ho
    · exact ho
  · exact hy

theorem notifyForFollowingDependenies_notified
    (hactive : ∃ txn, x.state.activeTxns.lookup tid = some (some txn)) :
    wp (notifyForFollowingDependenies env tid) (fun _ => Notified x)
      (fun _ => ¬ ReadersLive tid x.state) x := by
  have hx : Notified x x := ⟨rfl, rfl, fun _ hp => hp, fun _ ho => ho⟩
  obtain ⟨txn, htxn⟩ := hactive
  simp only [notifyForFollowingDependenies, wp_bind, wp_read]
  split
  · exact hx
  · simp only [wp_bind, wp_derefActive, htxn]
    refine ⟨fun t ht => ?_, (fun h => by cases h), fun h => by cases h⟩
    cases ht
    refine wp_forM (fun out hout y hy => ?_) hx
    simp only [wp_bind, wp_read]
    split
    · rename_i ptr hptr
      simp only [wp_bind, wp_deref, wp_modifyActive, wp_when, wp_sendMessageToCoordinator]
      refine ⟨fun outTxn _ => ⟨fun _ => ?_, fun _ => hy.mapActive _ _⟩, fun hnull => ?_⟩
      · have hdec := hy.mapActive out Transaction.decreaseIn
        exact ⟨hdec.store, hdec.events, fun p hp => List.mem_append_left _ (hdec.sent p hp),
          hdec.null⟩
      · intro hlive
        rw [hnull] at hptr
        exact hlive txn htxn out hout (hy.null out hptr)
    · exact ⟨hy.store, hy.events, hy.sent, hy.null⟩

/-- The followers are told and the store has the writes. -/
structure Carried (env : ReplicaEnv) (tid : TxnId) (ts : ℕ) (x y : Ctx Replica Addr Msg Event) :
    Prop where
  store : y.state.store = x.state.store.commit tid ts
  events : y.events = x.events ++ [.applied tid .commit ts]
  told : Told env tid y.sent

/-- What the commit of a transaction leaves. -/
structure Closes (env : ReplicaEnv) (tid : TxnId) (ts : ℕ) (x y : Ctx Replica Addr Msg Event) : Prop
    extends Carried env tid ts x y where
  pending : y.state.pendingTxns.lookup tid = none
  active : y.state.activeTxns.lookup tid = none
  decided : (y.state.committedTxns.lookup tid).isSome

theorem applyToStore_carries {msg : CommitMsg} (hstate : msg.state = .commit)
    (hactive : ∃ txn, x₀.state.activeTxns.lookup msg.tid = some (some txn))
    (hstore : x.state.store = x₀.state.store) (hevents : x.events = x₀.events)
    (hact : x.state.activeTxns = x₀.state.activeTxns) (htold : Told env msg.tid x.sent) :
    wp (applyToStore msg) (fun _ z => Carried env msg.tid msg.timestamp x₀ z ∧
      z.state.activeTxns = x₀.state.activeTxns) (fun _ => False) x := by
  obtain ⟨txn, htxn⟩ := hactive
  apply wp_applyToStore (I := fun u => u.state.store = x₀.state.store ∧ u.events = x₀.events ∧
    u.state.activeTxns = x₀.state.activeTxns ∧ u.sent = x.sent)
  · exact ⟨(store_mapPending _ _ _).trans hstore, hevents, (active_mapPending _ _ _).trans hact,
      rfl⟩
  · intro u hu hnone
    rw [hu.2.2.1, htxn] at hnone
    cases hnone
  · intro _ u hu
    obtain ⟨hs, he, ha, hsent⟩ := hu
    refine ⟨⟨congrArg (TxnStore.commit msg.tid msg.timestamp) hs, ?_, ?_⟩, ha⟩
    · show u.events ++ _ = _
      rw [he]
    · show Told env msg.tid u.sent
      rw [hsent]
      exact htold
  · intro h
    rw [hstate] at h
    cases h
  · intro h
    rw [hstate] at h
    cases h
  · intro h
    exact absurd hstate h

/-- The followers are told before the store is written. -/
theorem carryOut_carries (hrc : env.cfg.mode ≠ .rc) {msg : CommitMsg} (hstate : msg.state = .commit)
    {req : PendingTransaction} (hopen : req.reachCommitDecision = false)
    (hconf : req.sendConfirms = false)
    (hactive : ∃ txn, x₀.state.activeTxns.lookup msg.tid = some (some txn))
    (hstore : x.state.store = x₀.state.store) (hevents : x.events = x₀.events)
    (hact : x.state.activeTxns = x₀.state.activeTxns) :
    wp (carryOut env ω msg req) (fun _ z => Carried env msg.tid msg.timestamp x₀ z ∧
      z.state.activeTxns = x₀.state.activeTxns) (fun _ => False) x := by
  simp only [carryOut, notifyCommitToReplica, wp_bind, wp_when, hopen, hconf, wp_update, wp_ite,
    wp_sendMessageToAll, wp_modifyPending]
  refine ⟨fun _ => ⟨fun h => absurd h hrc, fun _ => ?_⟩, fun h => by cases h⟩
  have htold : Told env msg.tid (x.sent ++ (List.range env.cfg.n).map fun i =>
      ⟨env.addr, .replica env.shardId i, .replicateCommit
        { lsn := req.lsn, state := msg.state, tid := msg.tid, timestamp := msg.timestamp }⟩) := by
    intro i hi
    refine ⟨_, List.mem_append_right _ (List.mem_map.2 ⟨i, List.mem_range.2 hi, rfl⟩), rfl, hstate⟩
  constructor
  · intro _
    refine ⟨fun _ => ?_, fun h => by cases h⟩
    apply applyToStore_carries hstate hactive
    · exact (store_mapPending _ _ _).trans hstore
    · exact hevents
    · exact (active_mapPending _ _ _).trans hact
    · exact htold
  · intro _
    refine ⟨fun _ => ?_, fun h => by cases h⟩
    exact applyToStore_carries hstate hactive hstore hevents hact htold

theorem retire_closes (hpar : env.cfg.mode = .parallel) {msg : CommitMsg}
    (hx : Carried env msg.tid msg.timestamp x₀ x) (p : Option Transaction) :
    wp (retire env msg p) (fun _ z => Closes env msg.tid msg.timestamp x₀ { z with
      state := { z.state with clientList := z.state.clientList.erase msg.tid } })
      (fun _ => False) x := by
  simp only [retire, wp_bind, wp_erasePending, wp_when, hpar, wp_eraseActive, wp_update]
  refine ⟨fun h => absurd rfl (of_decide_eq_true h), fun _ => ?_⟩
  refine ⟨⟨hx.store, hx.events, hx.told⟩, AList.lookup_erase _ _, AList.lookup_erase _ _, ?_⟩
  rw [AList.lookup_insert]
  rfl

/-- **The commit of a transaction that takes part**: the writes are installed, the followers are
told, and the tables are cleared. -/
theorem handleCommit_closes (hpar : env.cfg.mode = .parallel) {msg : CommitMsg}
    (hstate : msg.state = .commit) {req : PendingTransaction}
    (hreq : x.state.pendingTxns.lookup msg.tid = some req) (hpart : req.isParticipant = true)
    (hopen : req.reachCommitDecision = false) (hconf : req.sendConfirms = false)
    (hentry : (x.state.log.find req.lsn).isSome)
    (hactive : ∃ txn, x.state.activeTxns.lookup msg.tid = some (some txn)) :
    wp (handleCommit env ω msg) (fun _ => Closes env msg.tid msg.timestamp x)
      (fun _ => ¬ ReadersLive msg.tid x.state) x := by
  obtain ⟨e, he⟩ := Option.isSome_iff_exists.1 hentry
  have hrc : env.cfg.mode ≠ .rc := by
    rw [hpar]
    decide
  have hsettle : ∀ {z : Ctx Replica Addr Msg Event} (p : Option Transaction),
      Carried env msg.tid msg.timestamp x z → z.state.activeTxns = x.state.activeTxns →
      wp (settleDependents env msg) (fun _ => wp (retire env msg p)
        (fun _ z => Closes env msg.tid msg.timestamp x { z with
          state := { z.state with clientList := z.state.clientList.erase msg.tid } })
        (fun _ => ¬ ReadersLive msg.tid x.state)) (fun _ => ¬ ReadersLive msg.tid x.state) z := by
    intro z p hz hact
    rw [settleDependents, if_pos (by rw [hstate]; rfl)]
    have hnotify : wp (notifyForFollowingDependenies env msg.tid) (fun _ => Notified z)
        (fun _ => ¬ ReadersLive msg.tid z.state) z := by
      apply notifyForFollowingDependenies_notified
      rw [hact]
      exact hactive
    refine wp_mono (fun _ y hy => ?_) (fun _ hlive => ?_) hnotify
    · refine wp_mono (fun _ _ h => h) (fun _ h => h.elim) (retire_closes hpar ?_ p)
      exact ⟨hy.store.trans hz.store, hy.events.trans hz.events, hz.told.mono hy.sent⟩
    · rw [ReadersLive, hact] at hlive
      exact hlive
  simp only [handleCommit, wp_bind, wp_read, hreq, wp_update, wp_eraseClient, commitPending, wp_ite,
    wp_erasePending, hpart, he, wp_deref_some]
  refine ⟨(fun h => by cases h), fun _ => ?_⟩
  refine wp_mono (fun _ z hz => ?_) (fun _ hz => hz.elim)
    (carryOut_carries hrc hstate hopen hconf hactive rfl rfl rfl)
  obtain ⟨hcarried, hact⟩ := hz
  rw [wp_activePtr]
  refine ⟨fun p _ => hsettle p hcarried hact, fun hnone => ?_⟩
  obtain ⟨txn, htxn⟩ := hactive
  rw [hact, htxn] at hnone
  cases hnone

/-- **The announcement of a transaction that is held.** -/
theorem Held.announced (h : Held tid wset x.state) (hpar : env.cfg.mode = .parallel)
    {msg : NotifyReplicateResult} (hT : msg.tid = tid) :
    wp (handleReplicateResultFromCoordinatorReplica env ω msg)
      (fun _ => Closes env tid msg.timestamp x) (fun _ => ¬ ReadersLive tid x.state) x := by
  subst hT
  obtain ⟨req, hreq, hjoined⟩ := h.pending
  obtain ⟨a, ha⟩ := hjoined.client
  simp only [handleReplicateResultFromCoordinatorReplica, handleParallelCommitResult, wp_bind,
    wp_read, hreq, wp_derefClient, ha, wp_sendMessage, wp_eraseClient]
  refine ⟨fun b _ => ?_, (fun h => by cases h), fun h => by cases h⟩
  refine wp_mono (fun _ z hz => ?_) (fun _ hlive => hlive)
    (handleCommit_closes hpar rfl hreq hjoined.takesPart hjoined.undecided hjoined.unconfirmed
      hjoined.entry hjoined.active)
  exact ⟨⟨hz.store, hz.events, hz.told⟩, hz.pending, hz.active, hz.decided⟩

/-! ### Handlers that leave a pending transaction pending -/

/-- The transaction is pending, with the given outcome on record. -/
def Awaits (tid : TxnId) (o : Option (LogEntryState × ℕ)) (r : Replica) : Prop :=
  (r.pendingTxns.lookup tid).isSome ∧ r.committedTxns.lookup tid = o

/-- A program that leaves the transaction pending. -/
abbrev StaysPending (tid : TxnId) (o : Option (LogEntryState × ℕ)) {α : Type} (p : ReplicaM α) :
    Prop :=
  Preserves (Awaits tid o) p

section Pending

variable {o : Option (LogEntryState × ℕ)}

theorem Awaits.insert {r : Replica} (h : Awaits tid o r) (d : TxnId) (req : PendingTransaction) :
    Awaits tid o { r with pendingTxns := r.pendingTxns.insert d req } := by
  refine ⟨?_, h.2⟩
  show (AList.lookup tid (r.pendingTxns.insert d req)).isSome
  rw [Table.lookup_insert_eq]
  split_ifs
  · rfl
  · exact h.1

theorem modifyPending_awaits (d : TxnId) (f : PendingTransaction → PendingTransaction) :
    StaysPending tid o (modifyPending d f) := by
  refine .update fun r hr => ?_
  unfold Replica.mapPending
  split
  · exact hr
  · exact hr.insert _ _

theorem activePtr_awaits (d : TxnId) : StaysPending tid o (activePtr d) := by
  refine .bind (.read _) fun p => ?_
  cases p with
  | some p => exact .pure _
  | none => exact .bind (.update fun _ hr => hr) fun _ => .pure _

theorem clientPtr_awaits (d : TxnId) : StaysPending tid o (clientPtr d) := by
  refine .bind (.read _) fun p => ?_
  cases p with
  | some p => exact .pure _
  | none => exact .bind (.update fun _ hr => hr) fun _ => .pure _

theorem resendPrepareOk_awaits (d : TxnId) : StaysPending tid o (resendPrepareOk env ω d) := by
  refine .bind (.read _) fun req => ?_
  cases req with
  | none => exact .pure _
  | some req =>
      refine .bind (activePtr_awaits _) fun _ => .bind (.deref _) fun _ => .ite (.when ?_) ?_
      · exact .bind (.send _) fun _ => modifyPending_awaits _ _
      · refine .bind (clientPtr_awaits _) fun _ => .bind (.deref _) fun _ => .when ?_
        exact .bind (.send _) fun _ => modifyPending_awaits _ _

section Sent

variable (hok : ω.sendOk 0 = true)
include hok

theorem replicateTxn_awaits (d : TxnId) : StaysPending tid o (replicateTxn env ω d) := by
  refine .bind (.read _) fun _ => .bind (.deref _) fun req => .bind (.read _) fun _ =>
    .bind (.send _) fun _ => ?_
  rw [if_pos hok]
  split
  · exact .crash
  · exact modifyPending_awaits _ _
  · exact modifyPending_awaits _ _

theorem resendReplicateTxn_awaits (d : TxnId) : StaysPending tid o (resendReplicateTxn env ω d) :=
  .ite (.pure _) (replicateTxn_awaits hok d)

theorem invokeReplicateTxn_awaits (entry : LogEntry) (hasPreCommit : Bool) :
    StaysPending tid o (invokeReplicateTxn env ω entry hasPreCommit) := by
  refine .bind (.read _) fun req => ?_
  cases req with
  | none =>
      exact .bind (activePtr_awaits _) fun _ => .bind (.deref _) fun _ =>
        .bind (.update fun _ hr => hr.insert _ _) fun _ =>
          .ite (.pure _) (replicateTxn_awaits hok _)
  | some req =>
      refine .ite ?_ (resendReplicateTxn_awaits hok _)
      exact .bind (activePtr_awaits _) fun _ => .bind (.deref _) fun _ =>
        .bind (modifyPending_awaits _ _) fun _ => replicateTxn_awaits hok _

theorem handleConsensus_awaits (d : TxnId) : StaysPending tid o (handleConsensus env ω d) := by
  refine .bind (activePtr_awaits _) fun _ => .bind (.deref _) fun _ => .bind (.read _) fun _ =>
    .bind (.deref _) fun _ => .ite ?_ (.ite (.pure _) ?_)
  · rw [if_pos hok]
    exact .bind (.send _) fun _ => modifyPending_awaits _ _
  · refine .bind (clientPtr_awaits _) fun _ => .bind (.deref _) fun _ => ?_
    rw [if_pos hok]
    exact .bind (.send _) fun _ => modifyPending_awaits _ _

theorem prepareNew_awaits (remote : Addr) (msg : PrepareTransaction) :
    StaysPending tid o (prepareNew env ω remote msg) := by
  refine .bind (.update fun _ hr => hr) fun _ => .bind (.read _) fun _ => .bind (.read _) fun _ =>
    .bind (.update fun _ hr => hr) fun _ => .bind (.read _) fun _ =>
    .bind (.update fun _ hr => hr) fun _ => .ite (.send _) ?_
  refine .bind (.when (.emit _)) fun _ => .ite (.pure _) (.bind (.when (.send _)) fun _ =>
    .bind (.when (.send _)) fun _ => .when ?_)
  exact .bind (.update fun _ hr => hr) fun _ => .bind (.read _) fun _ =>
    .bind (.update fun _ hr => hr) fun _ => .bind (.emit _) fun _ =>
      invokeReplicateTxn_awaits hok _ _

end Sent

/-- A pending transaction at the end of a handler that leaves the store alone. -/
theorem Held.of_calm {y : Ctx Replica Addr Msg Event} (h : Held tid wset x.state)
    (hcalm : Calm tid x.state.store y)
    (hawait : Awaits tid (x.state.committedTxns.lookup tid) y.state) : Held tid wset y.state := by
  obtain ⟨hpend, hcom⟩ := hawait
  obtain ⟨req, hreq⟩ := Option.isSome_iff_exists.1 hpend
  refine ⟨⟨req, hreq, hcalm.ready req hreq⟩, ?_⟩
  rw [Stored, hcom, hcalm.store]
  exact h.stored

theorem Held.awaits {r : Replica} (h : Held tid wset r) :
    Awaits tid (r.committedTxns.lookup tid) r := by
  obtain ⟨req, hreq, _⟩ := h.pending
  refine ⟨?_, rfl⟩
  rw [hreq]
  rfl

theorem Held.stays {p : ReplicaM Unit} (h : Held tid wset x.state)
    (hcalm : StaysCalm tid x.state.store p x)
    (hpend : StaysPending tid (x.state.committedTxns.lookup tid) p) :
    wp p (fun _ y => Held tid wset y.state) (fun _ => True) x :=
  wp_mono (fun _ _ hy => h.of_calm hy.1 hy.2) (fun _ _ => trivial)
    (wp_and hcalm (hpend x h.awaits))

end Pending

/-! ### What leads out of the stages -/

/-- The request for the outcome arrives before the prepare was accepted. -/
def Overtakes (r : Replica) (tid : TxnId) : Input Addr Msg Act → Prop
  | .recv ⟨_, _, .parallelModeCommit m⟩ => m.tid = tid ∧ r.pendingTxns.lookup tid = none ∧
      r.committedTxns.lookup tid = none
  | _ => False

/-- The reply is the one that makes a majority, and the client is to be answered. -/
def Completes (req : PendingTransaction) (msg : ReplicateTransactionReply) : Prop :=
  req.reachConsensus = false ∧ req.hasPreCommit = true ∧
    req.majority ≤
      Table.size (((req.quorum.lookup msg.term).getD ∅).insert msg.replicaId msg)

/-- A send fails, and the replica gives the transaction up. -/
def GivesUp (env : ReplicaEnv) (ω : Choice) (r : Replica) (tid : TxnId) :
    Input Addr Msg Act → Prop
  | .act (.timer (.pendingTxn d)) => d = tid ∧ ω.sendOk 0 = false ∧
      ∃ req, r.pendingTxns.lookup tid = some req ∧ req.timer = some (.resendReplicateTxn true)
  | .recv ⟨_, _, .prepareTransaction m⟩ => m.tid = tid ∧ ω.sendOk 0 = false ∧
      accepts env ω r m = true
  | .recv ⟨_, _, .replicateTransactionReply m⟩ => m.txnId = tid ∧ ω.sendOk 0 = false ∧
      ∃ req, r.pendingTxns.lookup tid = some req ∧ Completes req m
  | _ => False

/-- The concurrency control ends a second time. -/
def EndsTwice (r : Replica) (tid : TxnId) : Input Addr Msg Act → Prop
  | .recv ⟨_, _, .notifyDecision m⟩ => m.tid = tid ∧ (r.pendingTxns.lookup tid).isSome ∧
      (r.committedTxns.lookup tid).isSome
  | _ => False

/-- The announcement finds a reader with a null pointer. -/
def Stumbles (r : Replica) (tid : TxnId) : Input Addr Msg Act → Prop
  | .recv ⟨_, _, .notifyReplicateResult m⟩ => m.tid = tid ∧ r.participates tid = true ∧
      ¬ ReadersLive tid r
  | _ => False

/-- **The inputs that lead out of the stages.** -/
def Disturbs (env : ReplicaEnv) (ω : Choice) (r : Replica) (tid : TxnId)
    (input : Input Addr Msg Act) : Prop :=
  Overtakes r tid input ∨ GivesUp env ω r tid input ∨ EndsTwice r tid input ∨
    Sweeps r tid input ∨ Stumbles r tid input

/-- What the invariants say of the leader of a shard and of its input. -/
structure Setting (env : ReplicaEnv) (r : Replica) (input : Input Addr Msg Act) : Prop where
  leader : env.isLeader = true
  mode : env.cfg.mode = .parallel
  direct : DirectInput env.cfg input
  prepares : ∀ tid, r.pendingPrepares.lookup tid = none
  id : ∀ tid req, r.pendingTxns.lookup tid = some req → req.tid = tid
  entry : ∀ src dst m, input = .recv ⟨src, dst, .replicateTransaction m⟩ →
    (r.log.find m.txnLog.lsn).isSome
  decision : ∀ src dst m, input = .recv ⟨src, dst, .notifyDecision m⟩ → m.state = .prepared

/-! ### A transaction that is held -/

theorem Held.timer (h : Held tid wset x.state) {t : Timer}
    (hprep : ∀ tid, x.state.pendingPrepares.lookup tid = none)
    (hT : t = .pendingTxn tid ∨ t = .pendingPrepare tid)
    (hup : ¬ GivesUp env ω x.state tid (.act (.timer t))) :
    wp (handleTimer env ω t) (fun _ y => Held tid wset y.state) (fun _ => True) x := by
  have hcalm : Calm tid x.state.store x := ⟨rfl, h.ready⟩
  rcases hT with rfl | rfl
  · obtain ⟨req, hreq, _⟩ := h.pending
    simp only [handleTimer, wp_bind, wp_read, hreq]
    split
    · rename_i htimer
      have hok : ω.sendOk 0 = true := by
        apply Bool.of_not_eq_false
        intro hfail
        exact hup ⟨rfl, hfail, req, hreq, htimer⟩
      exact h.stays (resendReplicateTxn_calm hcalm) (resendReplicateTxn_awaits hok tid)
    · exact h.stays (resendPrepareOk_calm hcalm) (resendPrepareOk_awaits tid)
    · exact h
  · simp only [handleTimer, wp_bind, wp_read, hprep]
    exact h

/-- Unless a send fails, a prepare leaves its transaction pending. -/
theorem handlePrepareTxn_awaits {o : Option (LogEntryState × ℕ)} (hx : Awaits tid o x.state)
    {msg : PrepareTransaction} (hdirect : msg.mode ≠ .slow ∧ msg.mode ≠ .rc) (remote : Addr)
    (hok : reachesControl env x.state msg = true → ω.sendOk 0 = true) :
    wp (handlePrepareTxn env ω remote msg) (fun _ y => Awaits tid o y.state) (fun _ => True) x := by
  have hmode : ∀ P, ¬ ((msg.mode = .slow ∨ msg.mode = .rc) ∧ P) := fun P h =>
    h.1.elim hdirect.1 hdirect.2
  have hstart : startsRound env x.state msg = false := decide_eq_false (hmode _)
  have hnew : reachesControl env x.state msg = true →
      wp (prepareNew env ω remote msg) (fun _ y => Awaits tid o y.state) (fun _ => True) x := by
    intro hreach
    exact wp_mono (fun _ _ hy => hy) (fun _ _ => trivial)
      (prepareNew_awaits (hok hreach) remote msg x hx)
  have hanswer : ∀ {y : Ctx Replica Addr Msg Event} (reply : PrepareTransactionReply),
      Awaits tid o y.state →
      wp (answerPrepare env remote msg reply) (fun _ y => Awaits tid o y.state) (fun _ => True)
        y := by
    intro y reply hy
    simp only [answerPrepare, wp_ite, wp_sendMessageToShard, wp_sendMessage]
    exact ⟨fun _ => hy, fun _ => hy⟩
  simp only [handlePrepareTxn, wp_bind, wp_read, if_neg (hmode _), wp_ite, wp_update]
  refine ⟨fun _ => hx, fun hdep => ?_⟩
  cases hcom : x.state.committedTxns.lookup msg.tid with
  | some y => exact hanswer _ hx
  | none =>
      simp only [wp_bind, wp_read]
      cases hreq : x.state.pendingTxns.lookup msg.tid with
      | none => exact hnew (by simp [reachesControl, hstart, hdep, hcom, hreq])
      | some req =>
          simp only [wp_ite, wp_bind, wp_derefActive]
          refine ⟨fun _ => ⟨fun txn _ => hanswer _ hx, fun _ => trivial, fun _ => trivial⟩,
            fun hopen => ?_⟩
          exact hnew (by simp [reachesControl, hstart, hdep, hcom, hreq, hopen])

/-- A prepare that arrives again is admitted again, or answered. -/
theorem Held.prepare (h : Held tid wset x.state) {msg : PrepareTransaction} (hT : msg.tid = tid)
    (hdirect : msg.mode ≠ .slow ∧ msg.mode ≠ .rc) {src dst : Addr}
    (hup : ¬ GivesUp env ω x.state tid (.recv ⟨src, dst, .prepareTransaction msg⟩)) :
    wp (handlePrepareTxn env ω src msg) (fun _ y => Held tid wset y.state) (fun _ => True) x := by
  -- the store does not look at it again
  have hsame : reachesControl env x.state msg = true →
      x.state.store.prepareUpcall ω.clock msg.tid (transactionOf msg).serialize
        (env.isLeader || decide (env.cfg.mode = .carousel) || decide (env.cfg.mode = .rc)) =
        (true, x.state.store) := by
    intro hreach
    apply TxnStore.prepareUpcall_prepared
    simp only [reachesControl, Bool.and_eq_true] at hreach
    rcases h.stored with ⟨_, _, hsome⟩ | ⟨hcom, _⟩
    · rw [hT, ← AList.lookup_isSome]
      cases hlook : x.state.store.prepared.lookup tid with
      | none =>
          rw [hlook] at hsome
          cases hsome
      | some txn => rfl
    · rw [← hT, Option.isNone_iff_eq_none.1 hreach.1.2] at hcom
      cases hcom
  refine wp_mono (fun _ _ hy => h.of_calm hy.1 hy.2) (fun _ _ => trivial)
    (wp_and (handlePrepareTxn_calm h.ready hT hdirect src ?_ fun _ => rfl)
      (handlePrepareTxn_awaits h.awaits hdirect src ?_))
  · intro hreach
    rw [controlled, hsame hreach]
  · intro hreach
    apply Bool.of_not_eq_false
    intro hfail
    refine hup ⟨hT, hfail, ?_⟩
    rw [accepts, hreach, admits, hsame hreach]
    rfl

/-- Without pre-commits the client is not answered. -/
theorem handleConsensus_silent {o : Option (LogEntryState × ℕ)} (hpar : env.cfg.mode = .parallel)
    (hx : Awaits tid o x.state) {req : PendingTransaction}
    (hreq : x.state.pendingTxns.lookup tid = some req) (hpre : req.hasPreCommit = false) :
    wp (handleConsensus env ω tid) (fun _ y => Awaits tid o y.state) (fun _ => True) x := by
  have hslow : env.cfg.mode ≠ .slow := by
    rw [hpar]
    decide
  simp only [handleConsensus, wp_bind, wp_derefActive, wp_read, hreq, wp_deref_some, wp_ite,
    wp_pure]
  refine ⟨fun txn _ => ⟨fun h => absurd h hslow, fun _ => ⟨fun _ => hx, fun h => ?_⟩⟩,
    fun _ => trivial, fun _ => trivial⟩
  exact absurd ⟨hpar, hpre⟩ h

/-- A reply is counted, and at consensus the client may be answered. -/
theorem Held.reply (h : Held tid wset x.state) (hpar : env.cfg.mode = .parallel)
    {msg : ReplicateTransactionReply} (hT : msg.txnId = tid) {src dst : Addr}
    (hup : ¬ GivesUp env ω x.state tid (.recv ⟨src, dst, .replicateTransactionReply msg⟩)) :
    wp (handleReplicateTransactionReply env ω msg) (fun _ y => Held tid wset y.state)
      (fun _ => True) x := by
  have hcalm : Calm tid x.state.store x := ⟨rfl, h.ready⟩
  have hawaits : wp (handleReplicateTransactionReply env ω msg)
      (fun _ y => Awaits tid (x.state.committedTxns.lookup tid) y.state) (fun _ => True) x := by
    subst hT
    obtain ⟨req, hreq, _⟩ := h.pending
    have hset : ∀ {r : Replica} {req' : PendingTransaction}
        (f : PendingTransaction → PendingTransaction),
        r.pendingTxns.lookup msg.txnId = some req' →
        (Replica.mapPending msg.txnId f r).pendingTxns.lookup msg.txnId = some (f req') := by
      intro r req' f hr
      rw [mapPending_some hr]
      exact AList.lookup_insert _
    have hwaits : ∀ {r : Replica} (f : PendingTransaction → PendingTransaction),
        Awaits msg.txnId (x.state.committedTxns.lookup msg.txnId) r →
        Awaits msg.txnId (x.state.committedTxns.lookup msg.txnId)
          (Replica.mapPending msg.txnId f r) := by
      intro r f hr
      unfold Replica.mapPending
      split
      · exact hr
      · exact hr.insert _ _
    simp only [handleReplicateTransactionReply, wp_bind, wp_read, hreq, wp_ite, wp_pure,
      wp_modifyPending, wp_emit]
    refine ⟨fun _ => h.awaits, fun hopen => ⟨fun hmajor => ?_, fun _ => hwaits _ h.awaits⟩⟩
    cases hpre : req.hasPreCommit with
    | false =>
        refine handleConsensus_silent hpar (hwaits _ (hwaits _ h.awaits)) (hset _ (hset _ hreq)) ?_
        exact hpre
    | true =>
        have hok : ω.sendOk 0 = true := by
          apply Bool.of_not_eq_false
          intro hfail
          exact hup ⟨rfl, hfail, req, hreq, Bool.of_not_eq_true hopen, hpre, hmajor⟩
        exact wp_mono (fun _ _ hy => hy) (fun _ _ => trivial)
          (handleConsensus_awaits hok msg.txnId _ (hwaits _ (hwaits _ h.awaits)))
  exact wp_mono (fun _ _ hy => h.of_calm hy.1 hy.2) (fun _ _ => trivial)
    (wp_and (handleReplicateTransactionReply_calm hcalm hT) hawaits)

/-- The end of the concurrency control moves the writes to the pre-committed ones. -/
theorem Held.decision (h : Held tid wset x.state) {msg : NotifyDecision} (hT : msg.tid = tid)
    (hstate : msg.state = .prepared)
    (hid : ∀ req, x.state.pendingTxns.lookup tid = some req → req.tid = tid)
    (hcom : x.state.committedTxns.lookup tid = none) :
    wp (handleDecisionFromCoordinatorReplica env msg) (fun _ y => Held tid wset y.state)
      (fun _ => True) x := by
  subst hT
  obtain ⟨req, hreq, hjoined⟩ := h.pending
  have hstored : ∃ txn, x.state.store.prepared.lookup msg.tid = some txn ∧ txn.writeSet = wset := by
    rcases h.stored with ⟨_, _, hsome⟩ | ⟨hyes, _⟩
    · exact Option.map_eq_some_iff.1 hsome
    · rw [hcom] at hyes
      cases hyes
  obtain ⟨txn, htxn, hwset⟩ := hstored
  have hdone : Held msg.tid wset { x.state with
      store := x.state.store.preCommit msg.tid
      committedTxns := x.state.committedTxns.insert msg.tid (.commit, msg.timestamp) } := by
    refine ⟨⟨req, hreq, hjoined.takesPart, hjoined.undecided, hjoined.unconfirmed, hjoined.entry,
      hjoined.active, hjoined.client⟩, .inr ⟨?_, ?_, ?_⟩⟩
    · show (AList.lookup msg.tid (x.state.committedTxns.insert msg.tid _)).isSome
      rw [AList.lookup_insert]
      rfl
    · rw [TxnStore.preCommit_prepared]
      exact AList.lookup_erase _ _
    · rw [TxnStore.preCommit_precommitted, AList.lookup_insert, htxn]
      exact congrArg some hwset
  simp only [handleDecisionFromCoordinatorReplica, wp_bind, wp_read, hreq, endConcurrencyControl,
    hstate, if_true, wp_withStore, touchActive, wp_update, hid req hreq]
  split
  · exact hdone
  · simp only [wp_bind, wp_deref, wp_pure]
    exact ⟨fun _ _ => hdone, fun _ => trivial⟩

/-- **A step for a transaction that is held.** -/
theorem Held.input (h : Held tid wset x.state) {input : Input Addr Msg Act}
    (hset : Setting env x.state input) (hT : inputTxn input = tid)
    (hno : ¬ Disturbs env ω x.state tid input) :
    wp (handleInput env ω input)
      (fun _ y => Held tid wset y.state ∨ ∃ ts, Closes env tid ts x y) (fun _ => True) x := by
  have hstay : ∀ {p : ReplicaM Unit}, wp p (fun _ y => Held tid wset y.state) (fun _ => True) x →
      wp p (fun _ y => Held tid wset y.state ∨ ∃ ts, Closes env tid ts x y) (fun _ => True) x := by
    intro p hp
    exact wp_mono (fun _ _ hy => .inl hy) (fun _ hy => hy) hp
  have hpass : ∀ {p : ReplicaM Unit}, wp p (fun _ => Passes tid x) (fun _ => True) x →
      wp p (fun _ y => Held tid wset y.state ∨ ∃ ts, Closes env tid ts x y) (fun _ => True) x := by
    intro p hp
    exact wp_mono (fun _ y hy => .inl (h.unaffected hy.kept)) (fun _ hy => hy) hp
  have hup : ¬ GivesUp env ω x.state tid input := fun hg => hno (.inr (.inl hg))
  obtain ⟨req, hreq, hjoined⟩ := h.pending
  cases input with
  | act a =>
      cases a with
      | client a => exact .inl h
      | timer t =>
          refine hstay (h.timer hset.prepares ?_ hup)
          cases t with
          | pendingTxn d => exact .inl (congrArg Timer.pendingTxn hT)
          | pendingPrepare d => exact .inr (congrArg Timer.pendingPrepare hT)
  | recv p =>
      obtain ⟨src, dst, msg⟩ := p
      cases msg with
      | prepareTransaction m => exact hstay (h.prepare hT hset.direct hup)
      | prepareTransactionReply m =>
          simp only [handleInput, handleMessage, handlePrepareTransactionReply, wp_bind, wp_read,
            hset.prepares]
          exact .inl h
      | replicateTransaction m =>
          exact hpass (handleReplicateTransaction_passes (hset.entry src dst m rfl) src)
      | replicateTransactionReply m => exact hstay (h.reply hset.mode hT hup)
      | replicateCommit m =>
          have hrc : env.cfg.mode ≠ .rc := by
            rw [hset.mode]
            decide
          simp only [handleInput, handleMessage, handleReplicateCommit]
          rw [if_pos ⟨hset.leader, hrc⟩]
          exact .inl h
      | parallelModeCommit m =>
          obtain rfl : m.tid = tid := hT
          have hcalm : Calm m.tid x.state.store x := ⟨rfl, h.ready⟩
          simp only [handleInput, handleMessage, handleParallelModeCommit, wp_bind, wp_read, hreq]
          apply hstay
          apply h.stays
          · exact hcalm.mapPending fun _ hold => hold.congr rfl rfl rfl rfl
          · exact modifyPending_awaits _ _
      | commit m =>
          obtain rfl : m.tid = tid := hT
          by_cases hstate : m.state = .commit
          · exact wp_mono (fun _ _ hy => .inr ⟨_, hy⟩) (fun _ _ => trivial)
              (handleCommit_closes hset.mode hstate hreq hjoined.takesPart hjoined.undecided
                hjoined.unconfirmed hjoined.entry hjoined.active)
          · refine absurd (.inr (.inr (.inr (.inl ⟨hstate, .refl, req, hreq, ?_⟩)))) hno
            exact hjoined.takesPart
      | getData m => exact hpass (handleRead_passes src m)
      | notifyDecision m =>
          obtain rfl : m.tid = tid := hT
          refine hstay (h.decision rfl (hset.decision src dst m rfl) (hset.id m.tid) ?_)
          rw [← Option.not_isSome_iff_eq_none]
          intro hcom
          refine hno (.inr (.inr (.inl ⟨rfl, ?_, hcom⟩)))
          rw [hreq]
          rfl
      | notifyReplicateResult m =>
          exact wp_mono (fun _ _ hy => .inr ⟨_, hy⟩) (fun _ _ => trivial)
            (h.announced hset.mode hT)
      | _ => exact trivial

/-! ### A transaction that is unheard of -/

/-- Unless a send fails, the transaction is pending after its entry was logged. -/
theorem invokeReplicateTxn_enters (hok : ω.sendOk 0 = true) (entry : LogEntry) (pre : Bool) :
    wp (invokeReplicateTxn env ω entry pre)
      (fun _ y => Awaits entry.txn (x.state.committedTxns.lookup entry.txn) y.state)
      (fun _ => True) x := by
  have hend : ∀ {p : ReplicaM Unit} {y : Ctx Replica Addr Msg Event},
      StaysPending entry.txn (x.state.committedTxns.lookup entry.txn) p →
      Awaits entry.txn (x.state.committedTxns.lookup entry.txn) y.state →
      wp p (fun _ y => Awaits entry.txn (x.state.committedTxns.lookup entry.txn) y.state)
        (fun _ => True) y := by
    intro p y hp hy
    exact wp_mono (fun _ _ hz => hz) (fun _ _ => trivial) (hp y hy)
  cases hreq : x.state.pendingTxns.lookup entry.txn with
  | none =>
      simp only [invokeReplicateTxn, wp_bind, wp_read, hreq, wp_derefActive, wp_update]
      refine ⟨fun txn _ => ?_, fun _ => trivial, fun _ => trivial⟩
      refine hend (.ite (.pure _) (replicateTxn_awaits hok _)) ⟨?_, rfl⟩
      show (AList.lookup entry.txn (x.state.pendingTxns.insert entry.txn _)).isSome
      rw [AList.lookup_insert]
      rfl
  | some req =>
      refine hend (invokeReplicateTxn_awaits hok entry pre) ⟨?_, rfl⟩
      rw [hreq]
      rfl

/-- The leader logs what it accepted, and the transaction is pending. -/
theorem logPrepare_held (hok : ω.sendOk 0 = true) (remote : Addr) {txn : Transaction}
    (hid : txn.id = tid) (hpend : x.state.pendingTxns.lookup tid = none)
    (hstored : Stored tid wset x.state) {e : Event} (he : e ∈ x.events) :
    wp (logPrepare env ω remote txn) (fun _ y => Held tid wset y.state ∧ e ∈ y.events)
      (fun _ => True) x := by
  subst hid
  have hcalm : Calm txn.id x.state.store x := ⟨rfl, .of_none hpend⟩
  have henters : wp (logPrepare env ω remote txn)
      (fun _ y => Awaits txn.id (x.state.committedTxns.lookup txn.id) y.state) (fun _ => True)
      x := by
    simp only [logPrepare, wp_bind, wp_update, wp_read, wp_emit]
    exact invokeReplicateTxn_enters hok _ _
  refine wp_mono (fun _ y hy => ?_) (fun _ _ => trivial)
    (wp_and (wp_and (logPrepare_calm hcalm remote rfl) henters)
      (logPrepare_ops (C := False) (A := False) .refl rfl remote))
  obtain ⟨⟨hready, hpend', hcom⟩, hops⟩ := hy
  constructor
  · obtain ⟨req, hreq⟩ := Option.isSome_iff_exists.1 hpend'
    refine ⟨⟨req, hreq, hready.ready req hreq⟩, ?_⟩
    rw [Stored, hcom, hready.store]
    exact hstored
  · refine Ops.rel (R := fun y => e ∈ y.events) (fun u v hop hu => ?_) hops he
    cases hop with
    | event => exact List.mem_append_left _ hu
    | commit => exact List.mem_append_left _ hu
    | abort => exact List.mem_append_left _ hu
    | cascade => exact List.mem_append_left _ hu
    | _ => exact hu

/-- In the parallel mode the client of an accepted transaction is not answered yet. -/
theorem wp_acceptPrepare {Q : Unit → Ctx Replica Addr Msg Event → Prop}
    {D : Ctx Replica Addr Msg Event → Prop} (hpar : env.cfg.mode = .parallel)
    (hlead : env.isLeader = true) (remote : Addr) (txn : Transaction)
    (h : wp (logPrepare env ω remote txn) Q D x) : wp (acceptPrepare env ω remote txn) Q D x := by
  have hrc : env.cfg.mode ≠ .rc := by
    rw [hpar]
    decide
  have hcar : env.cfg.mode ≠ .carousel := by
    rw [hpar]
    decide
  simp only [acceptPrepare, wp_ite, wp_pure, wp_bind, wp_when]
  refine ⟨fun hmode => absurd hmode.1 hrc, fun _ => ⟨fun hmode => ?_, fun _ => ?_⟩⟩
  · exact absurd (of_decide_eq_true hmode) hrc
  · refine ⟨fun hmode => absurd (of_decide_eq_true hmode) hcar,
      fun _ => ⟨fun _ => h, fun hno => ?_⟩⟩
    rw [hlead] at hno
    cases hno

/-- What a prepare leaves of a transaction that was unheard of. -/
def Answered (tid : TxnId) (x y : Ctx Replica Addr Msg Event) : Prop :=
  (Unheard tid y.state ∧ ∀ wset, .validated tid wset ∈ y.events → .validated tid wset ∈ x.events) ∨
    ∃ wset, Held tid wset y.state ∧ .validated tid wset ∈ y.events

/-- A prepare that is refused leaves nothing; one that is accepted is held. -/
theorem Unheard.prepare (h : Unheard tid x.state) (hlead : env.isLeader = true)
    (hpar : env.cfg.mode = .parallel) {msg : PrepareTransaction} (hT : msg.tid = tid)
    (hdirect : msg.mode ≠ .slow ∧ msg.mode ≠ .rc) {src dst : Addr}
    (hup : ¬ GivesUp env ω x.state tid (.recv ⟨src, dst, .prepareTransaction msg⟩)) :
    wp (handlePrepareTxn env ω src msg) (fun _ => Answered tid x) (fun _ => True) x := by
  subst hT
  have hmode : ∀ P, ¬ ((msg.mode = .slow ∨ msg.mode = .rc) ∧ P) := fun P h =>
    h.1.elim hdirect.1 hdirect.2
  have hstart : startsRound env x.state msg = false := decide_eq_false (hmode _)
  simp only [handlePrepareTxn, wp_bind, wp_read, if_neg (hmode _), wp_ite, wp_update, h.undecided,
    h.pending]
  refine ⟨fun _ => .inl ⟨⟨h.pending, h.active, h.undecided, h.prepared, h.precommitted⟩,
    fun _ hmem => hmem⟩, fun hdep => ?_⟩
  have hreach : reachesControl env x.state msg = true := by
    simp [reachesControl, hstart, hdep, h.undecided, h.pending]
  have hnew : msg.tid ∉ x.state.store.prepared := AList.lookup_eq_none.1 h.prepared
  simp only [prepareNew, wp_bind, wp_update, wp_read, wp_withStore, wp_ite, refusePrepare,
    wp_sendMessage, acceptChecked, wp_when, wp_emit]
  refine ⟨fun hrefused => ?_, fun hadmitted => ⟨fun _ => ?_, fun hcheck => ?_⟩⟩
  · refine .inl ⟨⟨h.pending, h.active, h.undecided, ?_, ?_⟩, fun _ hmem => hmem⟩
    · show AList.lookup msg.tid (TxnStore.prepareUpcall _ _ _ _ _).2.prepared = none
      rw [TxnStore.prepareUpcall_refused hrefused]
      exact h.prepared
    · exact AList.lookup_eq_none.2 (TxnStore.prepare_precommitted
        (AList.lookup_eq_none.1 h.precommitted) _ _ _ _)
  · have hyes : admits env ω x.state msg = true := Bool.of_not_eq_false hadmitted
    have hok : ω.sendOk 0 = true := by
      apply Bool.of_not_eq_false
      intro hfail
      refine hup ⟨rfl, hfail, ?_⟩
      rw [accepts, hreach, hyes]
      rfl
    obtain ⟨hprep, hpre⟩ := TxnStore.prepareUpcall_admitted hnew hyes
    apply wp_acceptPrepare hpar hlead
    refine wp_mono (fun _ y hy => .inr ⟨(transactionOf msg).writeSet, hy.1, hy.2⟩) (fun _ hy => hy)
      (logPrepare_held hok src rfl h.pending (.inl ⟨h.undecided, ?_, ?_⟩)
        (List.mem_append_right _ (List.mem_singleton_self _)))
    · exact (congrArg (AList.lookup msg.tid) hpre).trans h.precommitted
    · refine (congrArg (fun t => (AList.lookup msg.tid t).map Transaction.writeSet) hprep).trans ?_
      rw [AList.lookup_insert, Transaction.ofMessage_serialize]
      rfl
  · rw [hlead, Bool.true_or, Bool.true_or] at hcheck
    cases hcheck

/-- **A step for a transaction that is unheard of.** -/
theorem Unheard.input (h : Unheard tid x.state) {input : Input Addr Msg Act}
    (hset : Setting env x.state input) (hT : inputTxn input = tid)
    (hno : ¬ Disturbs env ω x.state tid input) :
    wp (handleInput env ω input) (fun _ => Answered tid x) (fun _ => True) x := by
  have hskip : Answered tid x x := .inl ⟨h, fun _ hmem => hmem⟩
  have hpass : ∀ {p : ReplicaM Unit}, wp p (fun _ => Passes tid x) (fun _ => True) x →
      wp p (fun _ => Answered tid x) (fun _ => True) x := by
    intro p hp
    exact wp_mono (fun _ y hy => .inl ⟨h.unaffected hy.kept, hy.validated⟩) (fun _ hy => hy) hp
  cases input with
  | act a =>
      cases a with
      | client a => exact hskip
      | timer t =>
          cases t with
          | pendingTxn d =>
              obtain rfl : d = tid := hT
              simp only [handleInput, handleTimer, wp_bind, wp_read, h.pending]
              exact hskip
          | pendingPrepare d =>
              simp only [handleInput, handleTimer, wp_bind, wp_read, hset.prepares]
              exact hskip
  | recv p =>
      obtain ⟨src, dst, msg⟩ := p
      cases msg with
      | prepareTransaction m =>
          exact h.prepare hset.leader hset.mode hT hset.direct fun hg => hno (.inr (.inl hg))
      | prepareTransactionReply m =>
          simp only [handleInput, handleMessage, handlePrepareTransactionReply, wp_bind, wp_read,
            hset.prepares]
          exact hskip
      | replicateTransaction m =>
          exact hpass (handleReplicateTransaction_passes (hset.entry src dst m rfl) src)
      | replicateTransactionReply m =>
          obtain rfl : m.txnId = tid := hT
          simp only [handleInput, handleMessage, handleReplicateTransactionReply, wp_bind, wp_read,
            h.pending]
          exact hskip
      | replicateCommit m =>
          have hrc : env.cfg.mode ≠ .rc := by
            rw [hset.mode]
            decide
          simp only [handleInput, handleMessage, handleReplicateCommit]
          rw [if_pos ⟨hset.leader, hrc⟩]
          exact hskip
      | parallelModeCommit m =>
          obtain rfl : m.tid = tid := hT
          exact absurd (.inl ⟨rfl, h.pending, h.undecided⟩) hno
      | commit m =>
          obtain rfl : m.tid = tid := hT
          simp only [handleInput, handleMessage, handleCommit, wp_bind, wp_read, h.pending]
          exact hskip
      | getData m => exact hpass (handleRead_passes src m)
      | notifyDecision m =>
          obtain rfl : m.tid = tid := hT
          simp only [handleInput, handleMessage, handleDecisionFromCoordinatorReplica, wp_bind,
            wp_read, h.pending]
          exact hskip
      | notifyReplicateResult m =>
          obtain rfl : m.tid = tid := hT
          simp only [handleInput, handleMessage, handleReplicateResultFromCoordinatorReplica,
            handleParallelCommitResult, handleCommit, wp_bind, wp_read, h.pending, wp_pure]
          exact hskip
      | _ => exact trivial

/-! ### A transaction that was committed -/

theorem Closes.closed {ts : ℕ} {y : Ctx Replica Addr Msg Event} (h : Closes env tid ts x y)
    (hstored : Stored tid wset x.state) : Closed tid y.state := by
  refine ⟨?_, h.decided, ?_, fun req hreq => ?_⟩
  · rw [h.active]
    rfl
  · rw [h.store]
    exact hstored.commit_prepared ts
  · rw [h.pending] at hreq
    cases hreq

/-- A placeholder that is left goes with the next outcome. -/
theorem handleCommit_closed {msg : CommitMsg}
    (hactive : (x.state.activeTxns.lookup msg.tid).join = none)
    (hdecided : (x.state.committedTxns.lookup msg.tid).isSome)
    (hprepared : x.state.store.prepared.lookup msg.tid = none)
    (hpart : ∀ req, x.state.pendingTxns.lookup msg.tid = some req → req.isParticipant = false) :
    wp (handleCommit env ω msg)
      (fun _ y => Closed msg.tid y.state ∧ y.state.pendingTxns.lookup msg.tid = none)
      (fun _ => False) x := by
  have hclosed : ∀ {r : Replica}, r.activeTxns = x.state.activeTxns →
      r.committedTxns = x.state.committedTxns → r.store = x.state.store →
      r.pendingTxns.lookup msg.tid = none →
      Closed msg.tid r ∧ r.pendingTxns.lookup msg.tid = none := by
    intro r hact hcom hstore hgone
    refine ⟨⟨?_, ?_, ?_, fun req hreq => ?_⟩, hgone⟩
    · rw [hact]
      exact hactive
    · rw [hcom]
      exact hdecided
    · rw [hstore]
      exact hprepared
    · rw [hgone] at hreq
      cases hreq
  simp only [handleCommit, wp_bind, wp_read]
  cases hreq : x.state.pendingTxns.lookup msg.tid with
  | none => exact hclosed rfl rfl rfl hreq
  | some req =>
      simp only [wp_bind, wp_update, commitPending, hpart req hreq, if_true, wp_erasePending,
        wp_eraseClient]
      exact hclosed rfl rfl rfl (AList.lookup_erase _ _)

/-- **An announcement that comes again.** -/
theorem Closed.announced (h : Closed tid x.state) {msg : NotifyReplicateResult}
    (hT : msg.tid = tid) :
    wp (handleReplicateResultFromCoordinatorReplica env ω msg)
      (fun _ y => Closed tid y.state ∧ y.state.pendingTxns.lookup tid = none)
      (fun _ => False) x := by
  subst hT
  have hpart : ∀ req, x.state.pendingTxns.lookup msg.tid = some req → req.isParticipant = false :=
    fun req hreq => (h.placeholder req hreq).1
  simp only [handleReplicateResultFromCoordinatorReplica, handleParallelCommitResult, wp_bind,
    wp_read]
  cases hreq : x.state.pendingTxns.lookup msg.tid with
  | none => exact handleCommit_closed h.active h.decided h.prepared hpart
  | some req =>
      obtain ⟨_, _, a, ha⟩ := h.placeholder req hreq
      simp only [wp_bind, wp_derefClient, ha, wp_sendMessage, wp_eraseClient]
      refine ⟨fun b _ => ?_, (fun h => by cases h), fun h => by cases h⟩
      exact handleCommit_closed h.active h.decided h.prepared hpart

theorem Closed.mapPending {r : Replica} (h : Closed tid r)
    {f : PendingTransaction → PendingTransaction}
    (hf : ∀ req, (f req).isParticipant = req.isParticipant ∧ (f req).timer = req.timer) :
    Closed tid (Replica.mapPending tid f r) := by
  unfold Replica.mapPending
  split
  · exact h
  · rename_i req hreq
    refine ⟨h.active, h.decided, h.prepared, fun req' hreq' => ?_⟩
    have hnew : (r.pendingTxns.insert tid (f req)).lookup tid = some req' := hreq'
    rw [AList.lookup_insert] at hnew
    cases hnew
    obtain ⟨hpart, htimer, hclient⟩ := h.placeholder req hreq
    exact ⟨(hf req).1.trans hpart, (hf req).2.trans htimer, hclient⟩

/-- **A step for a transaction that was committed.** -/
theorem Closed.input (h : Closed tid x.state) {input : Input Addr Msg Act}
    (hset : Setting env x.state input) (hT : inputTxn input = tid)
    (hno : ¬ Disturbs env ω x.state tid input) :
    wp (handleInput env ω input) (fun _ y => Closed tid y.state) (fun _ => True) x := by
  have hpass : ∀ {p : ReplicaM Unit}, wp p (fun _ => Passes tid x) (fun _ => True) x →
      wp p (fun _ y => Closed tid y.state) (fun _ => True) x := by
    intro p hp
    exact wp_mono (fun _ y hy => h.unaffected hy.kept) (fun _ hy => hy) hp
  cases input with
  | act a =>
      cases a with
      | client a => exact h
      | timer t =>
          cases t with
          | pendingTxn d =>
              obtain rfl : d = tid := hT
              simp only [handleInput, handleTimer, wp_bind, wp_read]
              cases hreq : x.state.pendingTxns.lookup d with
              | none => exact h
              | some req =>
                  obtain ⟨_, htimer, _⟩ := h.placeholder req hreq
                  simp only [htimer]
                  exact h
          | pendingPrepare d =>
              simp only [handleInput, handleTimer, wp_bind, wp_read, hset.prepares]
              exact h
  | recv p =>
      obtain ⟨src, dst, msg⟩ := p
      cases msg with
      | prepareTransaction m =>
          obtain rfl : m.tid = tid := hT
          obtain ⟨y, hy⟩ := Option.isSome_iff_exists.1 h.decided
          have hmode : ∀ P, ¬ ((m.mode = .slow ∨ m.mode = .rc) ∧ P) := fun P h =>
            h.1.elim hset.direct.1 hset.direct.2
          simp only [handleInput, handleMessage, handlePrepareTxn, wp_bind, wp_read,
            if_neg (hmode _), wp_ite, wp_update, hy, answerPrepare, wp_sendMessageToShard,
            wp_sendMessage]
          exact ⟨fun _ => ⟨h.active, h.decided, h.prepared, h.placeholder⟩,
            fun _ => ⟨fun _ => h, fun _ => h⟩⟩
      | prepareTransactionReply m =>
          simp only [handleInput, handleMessage, handlePrepareTransactionReply, wp_bind, wp_read,
            hset.prepares]
          exact h
      | replicateTransaction m =>
          exact hpass (handleReplicateTransaction_passes (hset.entry src dst m rfl) src)
      | replicateTransactionReply m =>
          obtain rfl : m.txnId = tid := hT
          simp only [handleInput, handleMessage, handleReplicateTransactionReply, wp_bind, wp_read]
          cases hreq : x.state.pendingTxns.lookup m.txnId with
          | none => exact h
          | some req =>
              simp only [wp_ite, wp_pure, wp_bind, wp_modifyPending, wp_emit]
              refine ⟨fun _ => h, fun _ => ⟨fun _ => ?_, fun _ => h.mapPending fun _ => ⟨rfl, rfl⟩⟩⟩
              -- without a pointer the process dies
              simp only [handleConsensus, wp_bind, wp_derefActive, active_mapPending]
              refine ⟨fun txn htxn => ?_, fun _ => trivial, fun _ => trivial⟩
              have hactive := h.active
              rw [htxn] at hactive
              cases hactive
      | replicateCommit m =>
          have hrc : env.cfg.mode ≠ .rc := by
            rw [hset.mode]
            decide
          simp only [handleInput, handleMessage, handleReplicateCommit]
          rw [if_pos ⟨hset.leader, hrc⟩]
          exact h
      | parallelModeCommit m =>
          obtain rfl : m.tid = tid := hT
          simp only [handleInput, handleMessage, handleParallelModeCommit, wp_bind, wp_read]
          cases hreq : x.state.pendingTxns.lookup m.tid with
          | none =>
              simp only [wp_bind, wp_update, wp_sendMessageToCoordinator]
              refine ⟨h.active, h.decided, h.prepared, fun req hnew => ?_⟩
              have hnew' : (x.state.pendingTxns.insert m.tid
                  (Replica.placeholder env ω m.tid)).lookup m.tid =
                  some req := hnew
              rw [AList.lookup_insert] at hnew'
              cases hnew'
              exact ⟨rfl, rfl, src, AList.lookup_insert _⟩
          | some req =>
              simp only [wp_modifyPending]
              exact h.mapPending fun _ => ⟨rfl, rfl⟩
      | commit m =>
          obtain rfl : m.tid = tid := hT
          exact wp_mono (fun _ _ hy => hy.1) (fun _ hy => hy.elim) (handleCommit_closed h.active
            h.decided h.prepared fun req hreq => (h.placeholder req hreq).1)
      | getData m => exact hpass (handleRead_passes src m)
      | notifyDecision m =>
          obtain rfl : m.tid = tid := hT
          simp only [handleInput, handleMessage, handleDecisionFromCoordinatorReplica, wp_bind,
            wp_read]
          cases hreq : x.state.pendingTxns.lookup m.tid with
          | none => exact h
          | some req =>
              refine absurd (.inr (.inr (.inl ⟨rfl, ?_, h.decided⟩))) hno
              rw [hreq]
              rfl
      | notifyReplicateResult m =>
          exact wp_mono (fun _ _ hy => hy.1) (fun _ hy => hy.elim) (h.announced hT)
      | _ => exact trivial

/-! ### A step, whatever transaction it is for -/

/-- A sequence of operations validates its own transaction only. -/
theorem Ops.validated (h : Ops env T C A x₀ x) (hne : tid ≠ T)
    (hmem : .validated tid wset ∈ x.events) : .validated tid wset ∈ x₀.events := by
  induction h with
  | refl => exact hmem
  | tail _ hop ih =>
      cases hop with
      | event e he =>
          rcases List.mem_append.1 hmem with hold | hnew
          · exact ih hold
          · rw [← List.mem_singleton.1 hnew] at he
            exact absurd he hne
      | commit =>
          rcases List.mem_append.1 hmem with hold | hnew
          · exact ih hold
          · cases List.mem_singleton.1 hnew
      | abort =>
          rcases List.mem_append.1 hmem with hold | hnew
          · exact ih hold
          · cases List.mem_singleton.1 hnew
      | cascade =>
          rcases List.mem_append.1 hmem with hold | hnew
          · exact ih hold
          · cases List.mem_singleton.1 hnew
      | _ => exact ih hmem

/-- **A step for another transaction** passes this one by. -/
theorem handleInput_passes {input : Input Addr Msg Act} (hset : Setting env x.state input)
    (hT : inputTxn input ≠ tid) (hno : ¬ Disturbs env ω x.state tid input) :
    wp (handleInput env ω input) (fun _ => Passes tid x) (fun _ => True) x := by
  have hrc : env.cfg.mode ≠ .rc := by
    rw [hset.mode]
    decide
  have hapart := handleInput_apart (ω := ω) hset.leader hrc hT
    (fun hsweep => hno (.inr (.inr (.inr (.inl hsweep))))) hset.prepares hset.id hset.decision
  refine wp_mono (fun _ y hy => ?_) (fun _ _ => trivial)
    (wp_and hapart (handleInput_ops (ω := ω) hset.direct hset.prepares))
  obtain ⟨hstore, hops⟩ := hy
  exact ⟨hops.unaffected (Ne.symm hT) hstore, fun _ => hops.validated (Ne.symm hT)⟩

section Step

variable {input : Input Addr Msg Act}

theorem Unheard.step (h : Unheard tid x.state) (hset : Setting env x.state input)
    (hno : ¬ Disturbs env ω x.state tid input) :
    wp (handleInput env ω input) (fun _ => Answered tid x) (fun _ => True) x := by
  by_cases hT : inputTxn input = tid
  · exact h.input hset hT hno
  · exact wp_mono (fun _ y hy => .inl ⟨h.unaffected hy.kept, hy.validated⟩) (fun _ hy => hy)
      (handleInput_passes hset hT hno)

theorem Held.step (h : Held tid wset x.state) (hset : Setting env x.state input)
    (hno : ¬ Disturbs env ω x.state tid input) :
    wp (handleInput env ω input)
      (fun _ y => Held tid wset y.state ∨ ∃ ts, Closes env tid ts x y) (fun _ => True) x := by
  by_cases hT : inputTxn input = tid
  · exact h.input hset hT hno
  · exact wp_mono (fun _ y hy => .inl (h.unaffected hy.kept)) (fun _ hy => hy)
      (handleInput_passes hset hT hno)

theorem Closed.step (h : Closed tid x.state) (hset : Setting env x.state input)
    (hno : ¬ Disturbs env ω x.state tid input) :
    wp (handleInput env ω input) (fun _ y => Closed tid y.state) (fun _ => True) x := by
  by_cases hT : inputTxn input = tid
  · exact h.input hset hT hno
  · exact wp_mono (fun _ y hy => h.unaffected hy.kept) (fun _ hy => hy)
      (handleInput_passes hset hT hno)

end Step

end Replica

end D2PC
