import D2PC.Invariant.Rounds
import D2PC.Properties.Visibility

/-!
# Read and write sets on their way to the stores

A client encodes what it buffered for a shard in a `PrepareTransaction`; the leader decodes it,
hands it to its store in a `TransactionMessage`, enters its writes in the log, and sends the
entry to the followers, which decode it once more for their stores.

* `Replica.Entering`, `Replica.prepared_entering` : what a step of a replica can add to the
  prepared transactions, in every mode;
* `Replica.handleReplicateTransaction_copied` : what a follower adds for a new entry;
* `ClientPiece`, `Config.prepare_piece`, `Config.entry_piece` : the sets of the client, and what
  the two messages have of them;
* `sets_survive` : the store of the leader gets the sets of the client, and the stores of the
  followers its write set.
-/

namespace D2PC

open Prog Ctx

/-! ### The store of a replica -/

/-- A prepare enters the transaction it is given, or none. -/
theorem TxnStore.prepareUpcall_some {s : TxnStore} {clock : Clock} {id id' : TxnId}
    {txn : Transaction} {doCheck : Bool} {t : Transaction}
    (h : (s.prepareUpcall clock id txn.serialize doCheck).2.prepared.lookup id' = some t) :
    s.prepared.lookup id' = some t ∨
      (id' = id ∧ t.writeSet = txn.writeSet ∧ t.readSet = txn.readSet) := by
  have hupcall : (s.prepareUpcall clock id txn.serialize doCheck).2 =
      (s.prepare clock id { readSet := txn.readSet, writeSet := txn.writeSet } doCheck).2 := by
    rw [prepareUpcall, Transaction.ofMessage_serialize]
  obtain ⟨p, q, htables, hp, _⟩ := s.prepare_tables clock id
    { readSet := txn.readSet, writeSet := txn.writeSet } doCheck
  rw [hupcall, htables.prepared] at h
  rcases hp with rfl | rfl
  · exact .inl h
  · rw [Table.lookup_insert_eq] at h
    split_ifs at h with hid
    · cases h
      exact .inr ⟨hid, rfl, rfl⟩
    · exact .inl h

namespace Replica

/-- Where a prepared transaction comes from: it was prepared before the step, the concurrency
control got it from the prepare at hand, or it was decoded from the entry at hand. -/
inductive Entering (r₀ : Replica) (input : Input Addr Msg Act) (tid : TxnId) (t : Transaction) :
    Prop
  | old : r₀.store.prepared.lookup tid = some t → Entering r₀ input tid t
  | prepare (src dst : Addr) (m : PrepareTransaction) :
      input = .recv ⟨src, dst, .prepareTransaction m⟩ → tid = m.tid →
      t.writeSet = m.txn.writeSet → t.readSet = m.txn.readSet → Entering r₀ input tid t
  | copy (src dst : Addr) (m : ReplicateTransaction) :
      input = .recv ⟨src, dst, .replicateTransaction m⟩ → tid = m.txnLog.txnId →
      t.writeSet = Table.ofList m.txnLog.wset → Entering r₀ input tid t

variable {env : ReplicaEnv} {ω : Choice}

theorem Moves.entering {r₀ : Replica} {input : Input Addr Msg Act} {D : Option TxnId}
    {x₀ x : Ctx Replica Addr Msg Event} (hmoves : Moves env r₀ input D x₀ x)
    (hstart : x₀.state = r₀) : ∀ {tid t}, x.state.store.prepared.lookup tid = some t →
      Entering r₀ input tid t := by
  induction hmoves with
  | refl =>
      intro tid t h
      rw [hstart] at h
      exact .old h
  | tail _ hmove ih =>
      intro tid t h
      cases hmove with
      | quiet r hr =>
          rw [hr.store] at h
          exact ih h
      | copy src dst m clock txn hm _ hwset _ _ =>
          rcases TxnStore.prepareUpcall_some h with hold | ⟨hid, hw, _⟩
          · exact ih hold
          · exact .copy src dst m hm hid (hw.trans hwset)
      | prepare src dst m clock doCheck hm _ _ =>
          rcases TxnStore.prepareUpcall_some h with hold | ⟨hid, hw, hr⟩
          · exact ih hold
          · exact .prepare src dst m hm hid hw hr
      | preCommit _ => exact ih (TxnStore.preCommit_prepared_some h)
      | commit _ _ => exact ih (TxnStore.commit_prepared_some h)
      | abort _ _ => exact ih (TxnStore.abort_prepared_some h)
      | cascade _ => exact ih (TxnStore.abort_prepared_some h)
      | follow _ s hs =>
          rcases hs with rfl | ⟨ts, rfl⟩
          · exact ih (TxnStore.abort_prepared_some h)
          · exact ih (TxnStore.commit_prepared_some h)
      | _ => exact ih h

/-- **What a step prepares**, in every mode. -/
theorem prepared_entering (env : ReplicaEnv) (ω : Choice) (r : Replica)
    (input : Input Addr Msg Act) {tid : TxnId} {t : Transaction}
    (h : (handleInput env ω input { state := r }).state.state.store.prepared.lookup tid = some t) :
    Entering r input tid t := by
  obtain ⟨D, hmoves⟩ := wp_state (handleInput_stopped env ω input { state := r })
  exact hmoves.entering rfl h

/-- The transaction of the entry is prepared, with the writes of the entry. -/
def Copied (m : ReplicateTransaction) (r : Replica) : Prop :=
  ∃ t, r.store.prepared.lookup m.txnLog.txnId = some t ∧ t.writeSet = Table.ofList m.txnLog.wset

/-- A follower prepares the transaction of a new entry without a check. -/
theorem handleReplicateTransaction_copied {r : Replica} {remote : Addr} {m : ReplicateTransaction}
    (hfollow : env.isLeader = false) (hnew : r.log.find m.txnLog.lsn = none)
    (hprep : m.txnLog.txnId ∉ r.store.prepared) :
    Copied m (handleReplicateTransaction env ω remote m { state := r }).state.state := by
  have hlookup : ∀ txn : Transaction,
      (r.store.prepareUpcall ω.clock m.txnLog.txnId txn.serialize false).2.prepared.lookup
        m.txnLog.txnId = some { readSet := txn.readSet, writeSet := txn.writeSet } := by
    intro txn
    show (r.store.prepare ω.clock m.txnLog.txnId (Transaction.ofMessage txn.serialize)
      false).2.prepared.lookup _ = _
    rw [(r.store.prepare_unchecked ω.clock m.txnLog.txnId _).2.1, if_neg hprep,
      Transaction.ofMessage_serialize]
    exact AList.lookup_insert _
  refine wp_state (P := fun y : Ctx Replica Addr Msg Event => Copied m y.state) ?_
  simp only [handleReplicateTransaction, wp_bind, wp_update, wp_read, wp_when, hnew,
    Option.isNone_none, forall_const, wp_emit, wp_withStore, wp_sendMessage, hfollow]
  exact ⟨⟨fun _ => ⟨_, hlookup _, rfl⟩, fun _ => ⟨_, hlookup _, rfl⟩⟩, fun h => by cases h⟩

end Replica

/-! ### The sets of the client -/

/-- What the client of `tid` buffered for shard `s` when it started to commit, and still has. -/
structure ClientPiece (cfg : Config) (w : GlobalState) (tid : TxnId) (s : Shard)
    (piece : Transaction) : Prop where
  started : ∃ st, startOf w.history tid = some st ∧ s ∈ st.participants ∧ piece = st.piece tid s
  writes : ((w.client tid).buffered ⟨cfg, tid⟩ s).writeSet = piece.writeSet
  reads : ((w.client tid).buffered ⟨cfg, tid⟩ s).readSet = piece.readSet

section Run

variable {cfg : Config} {C : StepCond} {w : GlobalState}

theorem Config.Direct.not_gathers (hdir : cfg.Direct) : ¬ cfg.Gathers := by
  rintro (hslow | hrc)
  · rcases hdir with h | h | h
    all_goals cases h.symm.trans hslow
  · rcases hdir with h | h | h
    all_goals cases h.symm.trans hrc

/-- The buffers of a client are those of its start. -/
theorem Config.client_piece (hdir : cfg.Direct) (hw : cfg.system.Reach C w) {tid : TxnId}
    {st : Start} (hst : startOf w.history tid = some st) {s : Shard} (hs : s ∈ st.participants) :
    ClientPiece cfg w tid s (st.piece tid s) := by
  have hrounds : RoundOk False cfg tid w.history (w.client tid) :=
    (Config.rounds (fun h => h.elim) hw).1 tid
  obtain ⟨hwset, hrset⟩ := (hrounds.afterStart hst).pieces hdir.not_gathers s
  exact ⟨⟨st, hst, hs, rfl⟩, hwset, hrset⟩

/-- A prepare has the sets of its client. -/
theorem Config.prepare_piece (hdir : cfg.Direct) (hw : cfg.system.Reach C w) {src : Addr}
    {s : Shard} {i : ℕ} {m : PrepareTransaction}
    (hp : ⟨src, .replica s i, .prepareTransaction m⟩ ∈ w.net) :
    ∃ piece, ClientPiece cfg w m.tid s piece ∧ m.txn.writeSet = piece.writeSet ∧
      m.txn.readSet = piece.readSet := by
  obtain ⟨_, _, s', j, hsrc, hdst, _⟩ := (Config.invariant hdir hw).2 _ hp
  cases hdst
  have hround : RoundPkt False cfg w.history ⟨src, .replica s i, .prepareTransaction m⟩ :=
    (Config.rounds (fun h => h.elim) hw).2 _ hp
  rcases hround with hpiece | ⟨s', hsrc', ⟨st, hst, _, hcarried⟩, _⟩
  · cases hsrc.symm.trans hpiece
  · cases hsrc.symm.trans hsrc'
    obtain ⟨hwset, hrset⟩ := hcarried.own hdir.not_gathers
    exact ⟨_, Config.client_piece hdir hw hst hcarried.member, hwset, hrset⟩

/-- An entry the leader replicates has the write set of its client. -/
theorem Config.entry_piece (hdir : cfg.Direct) (hw : cfg.system.Reach C w) {src : Addr}
    {s : Shard} {i : ℕ} {m : ReplicateTransaction}
    (hp : ⟨src, .replica s i, .replicateTransaction m⟩ ∈ w.net) :
    ∃ piece, ClientPiece cfg w m.txnLog.txnId s piece ∧
      Table.ofList m.txnLog.wset = piece.writeSet := by
  obtain ⟨s', j, _, hdst, _, ⟨e, he, hsame⟩, _⟩ := (Config.invariant hdir hw).2 _ hp
  cases hdst
  have hevent : ReplicaEventOk cfg s w.history (.logged m.txnLog.lsn e) :=
    ReplicaOk.events ((Config.invariant hdir hw).1 (.replica s (cfg.leader s))) _ he
  obtain ⟨st, hst, hs, hwset⟩ := hevent.2.piece
  have htid : m.txnLog.txnId = e.txn := hsame.txn
  rw [← htid] at hst hwset
  exact ⟨_, Config.client_piece hdir hw hst hs, hsame.wset.trans hwset⟩

/-- **The sets survive.** In every run of the fast, parallel or Carousel mode, for every
transaction: when the leader of a shard handles a prepare and the transaction is prepared then
and was not before, its store has the write set and the read set the client buffered for that
shard; and when a follower handles the entry of the leader and has neither the entry nor the
transaction, its store has that write set afterwards. -/
theorem sets_survive (hdir : cfg.Direct) (hw : cfg.system.Reach C w) (s : Shard) (ω : Choice)
    (src : Addr) :
    (∀ m t, cfg.system.Enabled w (cfg.leaderNode s)
        (.recv ⟨src, .replica s (cfg.leader s), .prepareTransaction m⟩) →
      m.tid ∉ (w.replica s (cfg.leader s)).store.prepared →
      (GlobalState.replica (cfg.system.next w (cfg.leaderNode s) ω
        (.recv ⟨src, .replica s (cfg.leader s), .prepareTransaction m⟩)) s
        (cfg.leader s)).store.prepared.lookup m.tid = some t →
      ∃ piece, ClientPiece cfg w m.tid s piece ∧ t.writeSet = piece.writeSet ∧
        t.readSet = piece.readSet) ∧
    ∀ m i, i ≠ cfg.leader s → cfg.system.Enabled w (.replica s i)
        (.recv ⟨src, .replica s i, .replicateTransaction m⟩) →
      (w.replica s i).log.find m.txnLog.lsn = none →
      m.txnLog.txnId ∉ (w.replica s i).store.prepared →
      ∃ piece t, ClientPiece cfg w m.txnLog.txnId s piece ∧
        (GlobalState.replica (cfg.system.next w (.replica s i) ω
          (.recv ⟨src, .replica s i, .replicateTransaction m⟩)) s i).store.prepared.lookup
          m.txnLog.txnId = some t ∧ t.writeSet = piece.writeSet := by
  refine ⟨fun m t hen hnot ht => ?_, fun m i hfollow hen hnew hnot => ?_⟩
  · obtain ⟨piece, hpiece, hwset, hrset⟩ := Config.prepare_piece hdir hw hen.2.1
    rw [Config.leaderNode, Config.replica_next] at ht
    have hentering : Replica.Entering (w.replica s (cfg.leader s))
        (.recv ⟨src, .replica s (cfg.leader s), .prepareTransaction m⟩) m.tid t :=
      Replica.prepared_entering ⟨cfg, s, cfg.leader s⟩ ω _ _ ht
    refine ⟨piece, hpiece, ?_⟩
    cases hentering with
    | old hold =>
        rw [AList.lookup_eq_none.2 hnot] at hold
        cases hold
    | prepare _ _ _ hm _ hw hr =>
        cases hm
        exact ⟨hw.trans hwset, hr.trans hrset⟩
    | copy _ _ _ hm => cases hm
  · obtain ⟨piece, hpiece, hwset⟩ := Config.entry_piece hdir hw hen.2.1
    rw [Config.replica_next]
    have hcopied : Replica.Copied m (Replica.handleReplicateTransaction ⟨cfg, s, i⟩ ω src m
        { state := w.replica s i }).state.state :=
      Replica.handleReplicateTransaction_copied (decide_eq_false hfollow) hnew hnot
    obtain ⟨t, ht, htset⟩ := hcopied
    exact ⟨piece, t, hpiece, ht, htset.trans hwset⟩

end Run

/-! ### A read and a write -/

/-- The transaction `7` reads the loaded key, writes it, and is sent to the leader. -/
def readWrite : Commands :=
  [act 7 (.get "a"), act 7 (.task 0), deliver 0, deliver 1, act 7 .wake, act 7 (.put "a" "1"),
    act 7 .commit, act 7 (.task 0)]

theorem readWrite_runs : (loadedKey.run anyStep readWrite).isSome := by
  decide +kernel

/-- The prepare of `7`. -/
def readWritePrepare : PrepareTransaction where
  tid := 7
  wset := [("a", "1")]
  rset := [⟨"a", 0, 0⟩]
  participants := [0]
  primaryShard := 2 ^ 64 - 1
  mode := .fast

/-- The entry of `7`. -/
def readWriteEntry : ReplicateTransaction where
  txnLog :=
    { wset := [("a", "1")]
      state := .prepareOk
      timestamp := 1
      term := 0
      lsn := 0
      txnId := 7 }
  term := 0
  replicaId := 0
  primaryCoordinator := 0
  participants := [0]
  primaryShard := 2 ^ 64 - 1
  vote := .prepareOk
  hasPreCommit := false

theorem readWrite_prepared_runs : (loadedKey.run anyStep (readWrite ++ [deliver 2])).isSome := by
  decide +kernel

theorem sets_survive_read_write :
    (∃ (w : GlobalState) (t piece : Transaction), loadedKey.run anyStep readWrite = some w ∧
      (GlobalState.replica (loadedKey.system.next w (.replica 0 0) {}
        (.recv ⟨.client 7 0, .replica 0 0, .prepareTransaction readWritePrepare⟩)) 0
        0).store.prepared.lookup 7 = some t ∧
      ClientPiece loadedKey w 7 0 piece ∧ t.writeSet = piece.writeSet ∧
      t.readSet = piece.readSet) ∧
    ∃ (w : GlobalState) (t piece : Transaction),
      loadedKey.run anyStep (readWrite ++ [deliver 2]) = some w ∧
      (GlobalState.replica (loadedKey.system.next w (.replica 0 1) {}
        (.recv ⟨.replica 0 0, .replica 0 1, .replicateTransaction readWriteEntry⟩)) 0
        1).store.prepared.lookup 7 = some t ∧
      ClientPiece loadedKey w 7 0 piece ∧ t.writeSet = piece.writeSet := by
  constructor
  · have hsome : ((GlobalState.replica (loadedKey.system.next
        ((loadedKey.run anyStep readWrite).get readWrite_runs) (.replica 0 0) {}
        (.recv ⟨.client 7 0, .replica 0 0, .prepareTransaction readWritePrepare⟩)) 0
        0).store.prepared.lookup 7).isSome := by
      decide +kernel
    obtain ⟨t, ht⟩ := Option.isSome_iff_exists.1 hsome
    obtain ⟨piece, hpiece, hsets⟩ := (sets_survive (.inl rfl) (Config.reach_run readWrite_runs) 0 {}
      (.client 7 0)).1 readWritePrepare t ⟨by decide +kernel, by decide +kernel, rfl⟩
      (by decide +kernel) ht
    exact ⟨_, t, piece, (Option.some_get readWrite_runs).symm, ht, hpiece, hsets⟩
  · obtain ⟨piece, t, hpiece, ht, hwset⟩ := (sets_survive (.inl rfl)
      (Config.reach_run readWrite_prepared_runs) 0 {} (.replica 0 0)).2 readWriteEntry 1 (by decide)
      ⟨by decide +kernel, by decide +kernel, rfl⟩ (by decide +kernel) (by decide +kernel)
    exact ⟨_, t, piece, (Option.some_get readWrite_prepared_runs).symm, ht, hpiece, hwset⟩

end D2PC
