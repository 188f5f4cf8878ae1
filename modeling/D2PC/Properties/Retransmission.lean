import D2PC.Store.Idle
import D2PC.Invariant.Moves
import D2PC.Invariant.Kinds
import D2PC.Properties.Atomicity

/-!
# A prepare that comes again

`HandlePrepareTxn` recognises a transaction that is decided or at consensus. While the
transaction is being replicated a prepare that comes again is executed again: the store keeps
what it prepared, but the leader draws a new timestamp, replaces the active transaction and
logs a second entry. The followers hold the first entry, and the vote tells the second
timestamp.

* `prepare_again` : when such a prepare leaves the log, the store and the active transaction
  alone;
* `Once` : the steps that do not execute the prepare of a logged transaction, and do not
  answer from a record of `LOG_STATE_PREPAREOK`;
* `repeated_prepare` : the first, and in every run of such steps, in every mode, the timestamp
  a leader reports is that of the entry it replicates;
* `repeated_prepare_redated` : a run without the condition.
-/

namespace D2PC

open Prog Ctx

namespace Replica

/-! ### One prepare -/

/-- The log, the store and the active transaction are as before. -/
structure Undisturbed (tid : TxnId) (r r' : Replica) : Prop where
  log : r'.log = r.log
  store : TxnStore.Same r.store r'.store
  active : r'.activeTxns.lookup tid = r.activeTxns.lookup tid

theorem Undisturbed.refl (tid : TxnId) (r : Replica) : Undisturbed tid r r :=
  ⟨rfl, TxnStore.Same.refl _, rfl⟩

/-- The prepare leaves no trace: it is not executed; or its transaction is refused (in the RC
mode: or the vote cannot be sent), and neither the tables nor the locks have anything to do
for it. -/
def Traceless (env : ReplicaEnv) (ω : Choice) (r : Replica) (m : PrepareTransaction) : Prop :=
  Executes env r m →
    (r.store.admits ω.clock m.tid (offered m) = false ∨
      env.cfg.mode = .rc ∧ ω.sendOk 1 = false) ∧
    r.store.idle ω.clock m.tid (offered m) = true

variable {env : ReplicaEnv} {ω : Choice} {remote : Addr} {m : PrepareTransaction} {r : Replica}

theorem mapPrepare_undisturbed (tid tid' : TxnId) (f : PendingPrepare → PendingPrepare)
    {r' : Replica} (h : Undisturbed tid r r') : Undisturbed tid r (mapPrepare tid' f r') := by
  unfold mapPrepare
  split
  · exact h
  · exact ⟨h.log, h.store, h.active⟩

/-- What is handed out to the participants is not touched here. -/
theorem handlePrepare_undisturbed (tid : TxnId) {x : Ctx Replica Addr Msg Event}
    (hx : Undisturbed tid r x.state) :
    wp (handlePrepare env ω remote m) (fun _ y => Undisturbed tid r y.state)
      (fun y => Undisturbed tid r y.state) x := by
  have hsend : ∀ {y : Ctx Replica Addr Msg Event}, Undisturbed tid r y.state →
      wp (sendPrepare env ω m.tid) (fun _ z => Undisturbed tid r z.state)
        (fun z => Undisturbed tid r z.state) y := by
    intro y hy
    simp only [sendPrepare, wp_bind, wp_read, wp_deref]
    refine ⟨fun req _ => wp_forM (fun p _ z hz => ?_) hy, fun _ => hy⟩
    simp only [wp_ite, wp_bind, wp_sendMessageToShard, wp_modifyPrepare, wp_erasePrepare]
    exact ⟨fun _ => mapPrepare_undisturbed tid m.tid _ hz, fun _ => ⟨hz.log, hz.store, hz.active⟩⟩
  simp only [handlePrepare, wp_bind, wp_update, wp_read]
  split
  · exact hsend ⟨hx.log, hx.store, hx.active⟩
  · exact hsend ⟨hx.log, hx.store, hx.active⟩

/-- Replication does not number entries. -/
theorem invokeReplicateTxn_last {entry : LogEntry} {pre : Bool} {k : ℕ} :
    Prog.Keeps (fun x : Ctx Replica Addr Msg Event => x.state.log.last = k)
      (invokeReplicateTxn env ω entry pre) := by
  have hmap : ∀ tid f (r : Replica), (mapPending tid f r).log = r.log := by
    intro tid f r
    unfold mapPending
    split <;> rfl
  have hrep : ∀ tid, Prog.Keeps (fun x : Ctx Replica Addr Msg Event => x.state.log.last = k)
      (replicateTxn env ω tid) := by
    intro tid x hx
    simp only [replicateTxn, wp_bind, wp_read, wp_deref, wp_sendMessageToAll, wp_ite,
      wp_erasePending]
    refine ⟨fun req _ => ⟨fun _ => ?_, fun _ => hx⟩, fun _ => hx⟩
    split
    · exact hx
    · rw [wp_modifyPending, hmap]
      exact hx
    · rw [wp_modifyPending, hmap]
      exact hx
  intro x hx
  simp only [invokeReplicateTxn, wp_bind, wp_read]
  split
  · simp only [wp_bind, wp_derefActive, wp_update, wp_ite, wp_pure]
    exact ⟨fun txn _ => ⟨fun _ => hx, fun _ => hrep _ _ hx⟩, fun _ => hx, fun _ => hx⟩
  · simp only [wp_bind, wp_derefActive, wp_modifyPending, wp_ite, resendReplicateTxn, wp_pure]
    refine ⟨fun _ => ⟨fun txn _ => hrep _ _ ?_, fun _ => hx, fun _ => hx⟩, fun _ =>
      ⟨fun _ => hx, fun _ => hrep _ _ hx⟩⟩
    show (mapPending _ _ x.state).log.last = k
    rw [hmap]
    exact hx

/-- A prepare that is not executed. -/
theorem handlePrepareTxn_passed {req : PendingTransaction}
    (hreq : r.pendingTxns.lookup m.tid = some req) (hopen : req.reachConsensus = false)
    (hnot : ¬ Executes env r m) :
    wp (handlePrepareTxn env ω remote m) (fun _ y => Undisturbed m.tid r y.state)
      (fun y => Undisturbed m.tid r y.state) { state := r } := by
  have hsame := Undisturbed.refl m.tid r
  simp only [handlePrepareTxn, wp_bind, wp_read, wp_ite, wp_update]
  refine ⟨fun _ => handlePrepare_undisturbed m.tid hsame, fun hhere => ⟨fun _ => ?_,
    fun hmark => ?_⟩⟩
  · exact ⟨rfl, TxnStore.Same.refl _, rfl⟩
  · split
    · simp only [answerPrepare, wp_ite, wp_sendMessageToShard, wp_sendMessage]
      exact ⟨fun _ => hsame, fun _ => hsame⟩
    · rename_i hout
      refine absurd ⟨hhere, hmark, hout, fun req' hreq' => ?_⟩ hnot
      obtain rfl : req = req' := Option.some.inj (hreq.symm.trans hreq')
      exact hopen

/-- A prepare that is executed is given to the concurrency control. -/
theorem handlePrepareTxn_executed (hexec : Executes env r m) :
    handlePrepareTxn env ω remote m { state := r } = prepareNew env ω remote m { state := r } := by
  have hhere : ¬ ((m.mode = .slow ∨ m.mode = .rc) ∧ m.primaryShard = env.shardId ∧
    m.tid ∉ r.pendingPrepares) := hexec.here
  have hmark : ¬ r.inDependency.lookup m.tid = some (-1) := hexec.unmarked
  have hout : r.committedTxns.lookup m.tid = none := hexec.undecided
  simp only [handlePrepareTxn, read_bind, if_neg hhere, if_neg hmark, hout]
  cases hreq : r.pendingTxns.lookup m.tid with
  | none => rfl
  | some req =>
      have hopen : ¬ req.reachConsensus = true := by
        rw [hexec.waiting req hreq]
        intro h
        cases h
      simp only [if_neg hopen]

/-- In the RC mode nothing happens when the vote cannot be sent. -/
theorem acceptChecked_unsent (hrc : env.cfg.mode = .rc ∧ ω.sendOk 1 = false) {txn : Transaction}
    {doCheck : Bool} {x : Ctx Replica Addr Msg Event} :
    wp (acceptChecked env ω remote txn doCheck) (fun _ y => y.state = x.state)
      (fun _ => False) x := by
  simp only [acceptChecked, acceptPrepare, if_pos hrc, wp_bind, wp_when, wp_emit, wp_pure]
  exact ⟨fun _ => trivial, fun _ => trivial⟩

/-- Else the leader numbers an entry before anything can go wrong. -/
theorem acceptChecked_logged (hlead : env.isLeader = true)
    (hsent : ¬ (env.cfg.mode = .rc ∧ ω.sendOk 1 = false)) {txn : Transaction} {doCheck : Bool}
    {k : ℕ} {x : Ctx Replica Addr Msg Event} (hx : x.state.log.last = k) :
    wp (acceptChecked env ω remote txn doCheck) (fun _ y => y.state.log.last = k + 1)
      (fun y => y.state.log.last = k + 1) x := by
  have hlog : ∀ {y : Ctx Replica Addr Msg Event}, y.state.log.last = k →
      wp (logPrepare env ω remote txn) (fun _ z => z.state.log.last = k + 1)
        (fun z => z.state.log.last = k + 1) y := by
    intro y hy
    simp only [logPrepare, wp_bind, wp_update, wp_read, wp_emit]
    refine invokeReplicateTxn_last _ ?_
    show y.state.log.last + 1 = k + 1
    rw [hy]
  simp only [acceptChecked, acceptPrepare, if_neg hsent, wp_bind, wp_when, wp_emit, hlead,
    wp_sendMessageToShard, wp_sendMessage]
  refine ⟨fun _ => ⟨fun _ => ⟨fun _ => ?_, fun _ => ?_⟩, fun _ => ⟨fun _ => ?_, fun _ => ?_⟩⟩,
    fun _ => ⟨fun _ => ⟨fun _ => ?_, fun _ => ?_⟩, fun _ => ⟨fun _ => ?_, fun _ => ?_⟩⟩⟩ <;>
  exact ⟨fun _ => hlog hx, fun h => by cases h⟩

/-- What a leader that executes a prepare does to its store, log and active transactions. -/
theorem prepareNew_leader (hlead : env.isLeader = true) :
    wp (prepareNew env ω remote m)
      (fun _ y => if (r.store.prepareUpcall ω.clock m.tid (executed env r m).serialize true).1 =
            false ∨ env.cfg.mode = .rc ∧ ω.sendOk 1 = false then
          y.state.log = r.log ∧ y.state.activeTxns = r.activeTxns ∧ y.state.store =
            (r.store.prepareUpcall ω.clock m.tid (executed env r m).serialize true).2
        else y.state.log.last = r.log.last + 1)
      (fun y => (r.store.prepareUpcall ω.clock m.tid (executed env r m).serialize true).1 ≠
          false ∧ ¬ (env.cfg.mode = .rc ∧ ω.sendOk 1 = false) ∧
        y.state.log.last = r.log.last + 1) { state := r } := by
  have hcheck : (env.isLeader || decide (env.cfg.mode = .carousel) ||
      decide (env.cfg.mode = .rc)) = true := by
    rw [hlead]
    rfl
  simp only [prepareNew, wp_bind, wp_update, wp_read, wp_withStore, wp_ite, hcheck]
  refine ⟨fun hrefused => ?_, fun (hok : ¬ (r.store.prepareUpcall ω.clock m.tid
    (executed env r m).serialize true).1 = false) => ?_⟩
  · rw [refusePrepare, wp_sendMessage, if_pos (.inl hrefused)]
    exact ⟨rfl, rfl, rfl⟩
  · by_cases hrc : env.cfg.mode = .rc ∧ ω.sendOk 1 = false
    · refine wp_mono (fun _ y hy => ?_) (fun _ hy => hy.elim) (acceptChecked_unsent hrc)
      rw [if_pos (.inr hrc), hy]
      exact ⟨rfl, rfl, rfl⟩
    · refine wp_mono (fun _ y hy => ?_) (fun y hy => ⟨hok, hrc, hy⟩)
        (acceptChecked_logged hlead hrc rfl)
      rw [if_neg (not_or.2 ⟨hok, hrc⟩)]
      exact hy

/-- What an executed prepare asks of the store, and what it does to it. -/
theorem prepareUpcall_executed (env : ReplicaEnv) (ω : Choice) (r : Replica)
    (m : PrepareTransaction) :
    (r.store.prepareUpcall ω.clock m.tid (executed env r m).serialize true).1 =
        r.store.admits ω.clock m.tid (offered m) ∧
      (TxnStore.Same r.store
          (r.store.prepareUpcall ω.clock m.tid (executed env r m).serialize true).2 ↔
        r.store.idle ω.clock m.tid (offered m) = true) := by
  have hsets : Transaction.ofMessage (executed env r m).serialize = offered m :=
    Transaction.ofMessage_serialize _
  rw [TxnStore.prepareUpcall_iff, TxnStore.prepareUpcall_same_iff, hsets]
  exact ⟨rfl, Iff.rfl⟩

/-- **A prepare that comes again** while the transaction is replicated leaves the log, the
store and the active transaction alone exactly when it leaves no trace. -/
theorem prepare_again (hlead : env.isLeader = true) {req : PendingTransaction}
    (hreq : r.pendingTxns.lookup m.tid = some req) (hopen : req.reachConsensus = false) :
    Undisturbed m.tid r (handlePrepareTxn env ω remote m { state := r }).state.state ↔
      Traceless env ω r m := by
  obtain ⟨hadmits, hidle⟩ := prepareUpcall_executed env ω r m
  by_cases hexec : Executes env r m
  · rw [handlePrepareTxn_executed hexec]
    rcases wp_cases (prepareNew_leader hlead) with ⟨_, y, hrun, hy⟩ | ⟨y, hrun, hok, hsent, hy⟩
    · rw [hrun]
      show Undisturbed m.tid r y.state ↔ _
      split_ifs at hy with hleft
      · obtain ⟨hlog, hactive, hstore⟩ := hy
        rw [hadmits] at hleft
        refine ⟨fun h _ => ⟨hleft, hidle.1 (hstore ▸ h.store)⟩, fun h =>
          ⟨hlog, ?_, by rw [hactive]⟩⟩
        rw [hstore]
        exact hidle.2 (h hexec).2
      · rw [hadmits] at hleft
        refine ⟨fun h => ?_, fun h => absurd (h hexec).1 hleft⟩
        rw [h.log] at hy
        exact absurd hy (Nat.ne_of_lt (Nat.lt_succ_self _))
    · rw [hrun]
      show Undisturbed m.tid r y.state ↔ _
      rw [hadmits] at hok
      refine ⟨fun h => ?_, fun h => absurd (h hexec).1 (not_or.2 ⟨hok, hsent⟩)⟩
      rw [h.log] at hy
      exact absurd hy (Nat.ne_of_lt (Nat.lt_succ_self _))
  · exact ⟨fun _ hexec' => absurd hexec' hexec, fun _ =>
      wp_state (handlePrepareTxn_passed hreq hopen hexec)⟩

end Replica

/-! ### What is told about an entry -/

/-- The leader of shard `s` logged the transaction with this timestamp. -/
def Entered (cfg : Config) (h : History) (s : Shard) (tid : TxnId) (ts : ℕ) : Prop :=
  ∃ lsn e, (cfg.leaderNode s, Event.logged lsn e) ∈ h ∧ e.txn = tid ∧ e.ts = ts

/-- The entry is the one the leader of shard `s` logged under this number. -/
def Filed (cfg : Config) (h : History) (s : Shard) (p : LogEntryProto) : Prop :=
  ∃ e, (cfg.leaderNode s, Event.logged p.lsn e) ∈ h ∧ e.txn = p.txnId ∧ e.ts = p.timestamp

/-- A leader reports `LOG_STATE_PREPAREOK`: to the client over its main socket, in the slow
modes to the primary shard over another one. -/
structure Reported (cfg : Config) (p : Pkt) (r : PrepareTransactionReply) : Prop where
  msg : p.msg = .prepareTransactionReply r
  state : r.state = .prepareOk
  src : p.src = if cfg.mode = .slow ∨ cfg.mode = .rc then .sendOnly
    else .replica r.shard (cfg.leader r.shard)

/-- What holds of a packet: nothing is replicated in the RC mode, and else the timestamps in
replicated entries and, if prepares are executed `once`, in reports are those the leader
logged. -/
def DatedPacket (once : Prop) (cfg : Config) (h : History) (p : Pkt) : Prop :=
  match p.msg with
  | .replicateTransaction m =>
      cfg.mode ≠ .rc ∧ ∃ s i, p.dst = .replica s i ∧ Filed cfg h s m.txnLog
  | .prepareTransactionReply r =>
      once → cfg.mode ≠ .rc → Reported cfg p r → Entered cfg h r.shard r.tid r.timestamp
  | _ => True

section Mono

variable {once : Prop} {cfg : Config} {h es : History} {s : Shard} {tid : TxnId} {ts : ℕ}

theorem Entered.mono (hent : Entered cfg h s tid ts) : Entered cfg (h ++ es) s tid ts := by
  obtain ⟨lsn, e, he, htid, hts⟩ := hent
  exact ⟨lsn, e, mem_mono he, htid, hts⟩

theorem Filed.mono {p : LogEntryProto} (hp : Filed cfg h s p) : Filed cfg (h ++ es) s p := by
  obtain ⟨e, he, htid, hts⟩ := hp
  exact ⟨e, mem_mono he, htid, hts⟩

theorem Filed.entered {p : LogEntryProto} (hp : Filed cfg h s p) :
    Entered cfg h s p.txnId p.timestamp := by
  obtain ⟨e, he, htid, hts⟩ := hp
  exact ⟨p.lsn, e, he, htid, hts⟩

theorem DatedPacket.mono {p : Pkt} (hp : DatedPacket once cfg h p) : DatedPacket once cfg (h ++ es) p := by
  obtain ⟨src, dst, msg⟩ := p
  cases msg with
  | replicateTransaction m =>
      obtain ⟨hmode, s, i, hdst, hfiled⟩ := hp
      exact ⟨hmode, s, i, hdst, hfiled.mono⟩
  | prepareTransactionReply r => exact fun ho hmode hrep => (hp ho hmode hrep).mono
  | _ => trivial

/-- A message that carries neither. -/
theorem DatedPacket.of_casual {p : Pkt} (hp : p.msg.casual) : DatedPacket once cfg h p := by
  obtain ⟨src, dst, msg⟩ := p
  cases msg with
  | replicateTransaction m => exact hp.elim
  | prepareTransactionReply r => exact hp.elim
  | _ => trivial

/-- A reply that is not a report. -/
theorem DatedPacket.of_reply {p : Pkt} {r : PrepareTransactionReply}
    (hp : p.msg = .prepareTransactionReply r)
    (hr : once → cfg.mode ≠ .rc → Reported cfg p r → Entered cfg h r.shard r.tid r.timestamp) :
    DatedPacket once cfg h p := by
  simp only [DatedPacket, hp]
  exact hr

end Mono

/-! ### The invariant of a replica -/

/-- The number of the entry is used: the decision will be written there, or the entry is
replicated. -/
def PendingTransaction.Bound (req : PendingTransaction) : Prop :=
  req.isParticipant = true ∨ ∃ b, req.timer = some (.resendReplicateTxn b)

/-- What holds of replica `i` of shard `s` while it runs, but for a transaction that is being
decided. -/
structure Dated (cfg : Config) (s : Shard) (i : ℕ) (h : History) (D : Option TxnId)
    (r : Replica) : Prop where
  active : ∀ tid txn, r.activeTxns.lookup tid = some (some txn) →
    Entered cfg h s tid txn.commitTs.timestamp
  numbers : ∀ lsn e, r.log.find lsn = some e → e.id = lsn
  kept : i = cfg.leader s → ∀ lsn e, (cfg.leaderNode s, Event.logged lsn e) ∈ h →
    ∃ e', r.log.find lsn = some e' ∧ e'.txn = e.txn
  below : i = cfg.leader s → ∀ lsn e, r.log.find lsn = some e → lsn < r.log.last
  entries : ∀ tid req, r.pendingTxns.lookup tid = some req → req.Bound →
    ∃ e, r.log.find req.lsn = some e ∧ e.txn = tid
  stamped : ∀ tid req b e, D ≠ some tid → r.pendingTxns.lookup tid = some req →
    req.timer = some (.resendReplicateTxn b) → r.log.find req.lsn = some e →
    ∃ e', (cfg.leaderNode s, Event.logged req.lsn e') ∈ h ∧ e'.txn = e.txn ∧ e'.ts = e.ts
  voted : ∀ tid req b, r.pendingTxns.lookup tid = some req →
    req.timer = some (.resendPrepareOk b) → req.reachConsensus = true

namespace Dated

variable {cfg : Config} {s : Shard} {i : ℕ} {h h' : History} {D : Option TxnId} {r r' : Replica}

/-- The history grows, but the leader logs nothing. -/
theorem grow (hr : Dated cfg s i h D r) (hsub : ∀ x ∈ h, x ∈ h')
    (hold : i = cfg.leader s → ∀ lsn e, (cfg.leaderNode s, Event.logged lsn e) ∈ h' →
      (cfg.leaderNode s, Event.logged lsn e) ∈ h) : Dated cfg s i h' D r where
  active := fun tid txn htxn => by
    obtain ⟨lsn, e, he, heq⟩ := hr.active tid txn htxn
    exact ⟨lsn, e, hsub _ he, heq⟩
  numbers := hr.numbers
  kept := fun hi lsn e he => hr.kept hi lsn e (hold hi lsn e he)
  below := hr.below
  entries := hr.entries
  stamped := fun tid req b e hD hreq hb he => by
    obtain ⟨e', he', heq⟩ := hr.stamped tid req b e hD hreq hb he
    exact ⟨e', hsub _ he', heq⟩
  voted := hr.voted

/-- Only the log, the pending and the active transactions count. -/
theorem congr (hr : Dated cfg s i h D r) (hlog : r'.log = r.log)
    (hpend : r'.pendingTxns = r.pendingTxns)
    (hactive : ∀ tid txn, r'.activeTxns.lookup tid = some (some txn) →
      Entered cfg h s tid txn.commitTs.timestamp) : Dated cfg s i h D r' where
  active := hactive
  numbers := hlog ▸ hr.numbers
  kept := hlog ▸ hr.kept
  below := hlog ▸ hr.below
  entries := hlog ▸ hpend ▸ hr.entries
  stamped := hlog ▸ hpend ▸ hr.stamped
  voted := hpend ▸ hr.voted

/-- A pending transaction is written. -/
theorem insert (hr : Dated cfg s i h D r) {tid : TxnId} {req : PendingTransaction}
    (hentry : req.Bound → ∃ e, r.log.find req.lsn = some e ∧ e.txn = tid)
    (hstamp : ∀ b e, D ≠ some tid → req.timer = some (.resendReplicateTxn b) →
      r.log.find req.lsn = some e →
      ∃ e', (cfg.leaderNode s, Event.logged req.lsn e') ∈ h ∧ e'.txn = e.txn ∧ e'.ts = e.ts)
    (hvote : ∀ b, req.timer = some (.resendPrepareOk b) → req.reachConsensus = true) :
    Dated cfg s i h D { r with pendingTxns := r.pendingTxns.insert tid req } where
  active := hr.active
  numbers := hr.numbers
  kept := hr.kept
  below := hr.below
  entries := fun tid' req' hreq' hb => by
    rw [Table.lookup_insert_eq] at hreq'
    split_ifs at hreq' with heq
    · cases hreq'
      rw [heq]
      exact hentry hb
    · exact hr.entries tid' req' hreq' hb
  stamped := fun tid' req' b e hD hreq' hb he => by
    rw [Table.lookup_insert_eq] at hreq'
    split_ifs at hreq' with heq
    · cases hreq'
      exact hstamp b e (heq ▸ hD) hb he
    · exact hr.stamped tid' req' b e hD hreq' hb he
  voted := fun tid' req' b hreq' hb => by
    rw [Table.lookup_insert_eq] at hreq'
    split_ifs at hreq' with heq
    · cases hreq'
      exact hvote b hb
    · exact hr.voted tid' req' b hreq' hb

/-- A pending transaction is forgotten. -/
theorem drop (hr : Dated cfg s i h D r) (tid : TxnId) :
    Dated cfg s i h D { r with pendingTxns := r.pendingTxns.erase tid } := by
  have hold : ∀ {t req}, (r.pendingTxns.erase tid).lookup t = some req →
      r.pendingTxns.lookup t = some req := by
    intro t req hreq
    rw [Table.lookup_erase_eq] at hreq
    split_ifs at hreq
    exact hreq
  exact ⟨hr.active, hr.numbers, hr.kept, hr.below, fun t req hreq => hr.entries t req (hold hreq),
    fun t req b e hD hreq => hr.stamped t req b e hD (hold hreq),
    fun t req b hreq => hr.voted t req b (hold hreq)⟩

/-- An entry of the log is rewritten; its timestamp changes only if nobody replicates it. -/
theorem modify (hr : Dated cfg s i h D r) {lsn : ℕ} {f : LogEntry → LogEntry}
    (hid : ∀ e, (f e).id = e.id) (htxn : ∀ e, (f e).txn = e.txn)
    (hts : (∀ e, (f e).ts = e.ts) ∨ ∀ tid req b, D ≠ some tid →
      r.pendingTxns.lookup tid = some req → req.timer = some (.resendReplicateTxn b) →
      req.lsn ≠ lsn) : Dated cfg s i h D { r with log := r.log.modify lsn f } := by
  have hback : ∀ {k e}, (r.log.modify lsn f).find k = some e →
      ∃ e₀, r.log.find k = some e₀ ∧ e.id = e₀.id ∧ e.txn = e₀.txn ∧ (k ≠ lsn → e = e₀) ∧
        (k = lsn → e = f e₀) := by
    intro k e he
    rw [Log.find_modify] at he
    split_ifs at he with hk
    · obtain ⟨e₀, he₀, rfl⟩ := Option.map_eq_some_iff.1 he
      exact ⟨e₀, hk ▸ he₀, hid e₀, htxn e₀, fun hne => absurd hk hne, fun _ => rfl⟩
    · exact ⟨e, he, rfl, rfl, fun _ => rfl, fun heq => absurd heq hk⟩
  have hforth : ∀ {k e}, r.log.find k = some e →
      ∃ e', (r.log.modify lsn f).find k = some e' ∧ e'.txn = e.txn := by
    intro k e he
    rw [Log.find_modify]
    split_ifs with hk
    · rw [← hk, he]
      exact ⟨f e, rfl, htxn e⟩
    · exact ⟨e, he, rfl⟩
  have hlast : (r.log.modify lsn f).last = r.log.last := by
    unfold Log.modify
    split <;> rfl
  refine ⟨hr.active, fun k e he => ?_, fun hi k e he => ?_, fun hi k e he => ?_,
    fun tid req hreq hb => ?_, fun tid req b e hD hreq hb he => ?_, hr.voted⟩
  · obtain ⟨e₀, he₀, hide, _⟩ := hback he
    exact hide.trans (hr.numbers k e₀ he₀)
  · obtain ⟨e₁, he₁, htxn₁⟩ := hr.kept hi k e he
    obtain ⟨e₂, he₂, htxn₂⟩ := hforth he₁
    exact ⟨e₂, he₂, htxn₂.trans htxn₁⟩
  · obtain ⟨e₀, he₀, _⟩ := hback he
    show k < (r.log.modify lsn f).last
    rw [hlast]
    exact hr.below hi k e₀ he₀
  · obtain ⟨e, he, heq⟩ := hr.entries tid req hreq hb
    obtain ⟨e', he', heq'⟩ := hforth he
    exact ⟨e', he', heq'.trans heq⟩
  · obtain ⟨e₀, he₀, _, htxn₀, hother, hsame⟩ := hback he
    obtain ⟨e', hmem, htxn', hts'⟩ := hr.stamped tid req b e₀ hD hreq hb he₀
    refine ⟨e', hmem, htxn'.trans htxn₀.symm, hts'.trans ?_⟩
    by_cases hk : req.lsn = lsn
    · rcases hts with hts | hts
      · rw [hsame hk, hts]
      · exact absurd hk (hts tid req b hD hreq hb)
    · rw [hother hk]

/-- The leader has every entry it filed. -/
theorem follower (hr : Dated cfg s i h D r) {p : LogEntryProto} (hfiled : Filed cfg h s p)
    (hnew : r.log.find p.lsn = none) : i ≠ cfg.leader s := by
  intro hi
  obtain ⟨e, he, _⟩ := hfiled
  obtain ⟨e', he', _⟩ := hr.kept hi p.lsn e he
  rw [hnew] at he'
  cases he'

/-- A follower copies an entry of the leader. -/
theorem copy (hr : Dated cfg s i h D r) {p : LogEntryProto} (hfiled : Filed cfg h s p)
    (hnew : r.log.find p.lsn = none) {txn : Transaction}
    (hts : txn.commitTs.timestamp = p.timestamp) {store : TxnStore} :
    i ≠ cfg.leader s ∧ Dated cfg s i h D { r with
      log := r.log.addProto p
      activeTxns := r.activeTxns.insert p.txnId (some txn)
      store := store } := by
  have hfollow : i ≠ cfg.leader s := hr.follower hfiled hnew
  have hold : ∀ {k e}, r.log.find k = some e → (r.log.addProto p).find k = some e := by
    intro k e he
    rw [Log.find_addProto, if_neg fun hk => ?_]
    · exact he
    · rw [hk, hnew] at he
      cases he
  have hentry : ∀ {tid req}, r.pendingTxns.lookup tid = some req → req.Bound →
      ∃ e, r.log.find req.lsn = some e ∧ e.txn = tid := fun hreq => hr.entries _ _ hreq
  refine ⟨hfollow, fun tid txn' htxn' => ?_, fun k e he => ?_, fun hi => absurd hi hfollow,
    fun hi => absurd hi hfollow, fun tid req hreq hb => ?_, fun tid req b e hD hreq hb he => ?_,
    hr.voted⟩
  · rw [Table.lookup_insert_eq] at htxn'
    split_ifs at htxn' with heq
    · cases htxn'
      rw [heq, hts]
      exact hfiled.entered
    · exact hr.active tid txn' htxn'
  · rw [Log.find_addProto] at he
    split_ifs at he with hk
    · cases he
      exact hk.symm
    · exact hr.numbers k e he
  · obtain ⟨e, he, heq⟩ := hentry hreq hb
    exact ⟨e, hold he, heq⟩
  · obtain ⟨e₀, he₀, _⟩ := hentry hreq (.inr ⟨b, hb⟩)
    obtain rfl : e₀ = e := Option.some.inj ((hold he₀).symm.trans he)
    exact hr.stamped tid req b e₀ hD hreq hb he₀

/-- The leader logs a transaction. -/
theorem log (hr : Dated cfg s i h D r) (hi : i = cfg.leader s) {txn : Transaction}
    {clients : Table TxnId (Option Addr)} :
    Dated cfg s i (h ++ [(.replica s i, .logged (Replica.entryOf r.log txn).1.id
      (Replica.entryOf r.log txn).1)]) D { r with
        clientList := clients
        activeTxns := r.activeTxns.insert txn.id (some txn)
        log := (Replica.entryOf r.log txn).2 } := by
  subst hi
  have hfind : ∀ k, (Replica.entryOf r.log txn).2.find k =
      if k = r.log.last then some (Replica.entryOf r.log txn).1 else r.log.find k :=
    fun k => Log.find_add ..
  have hold : ∀ {k e}, r.log.find k = some e →
      (Replica.entryOf r.log txn).2.find k = some e := by
    intro k e he
    rw [hfind, if_neg (Nat.ne_of_lt (hr.below rfl k e he))]
    exact he
  refine ⟨fun tid txn' htxn' => ?_, fun k e he => ?_, fun _ k e he => ?_, fun _ k e he => ?_,
    fun tid req hreq hb => ?_, fun tid req b e hD hreq hb he => ?_, hr.voted⟩
  · rw [Table.lookup_insert_eq] at htxn'
    split_ifs at htxn' with heq
    · cases htxn'
      exact ⟨_, _, List.mem_append_right _ (List.mem_singleton.2 rfl), heq.symm, rfl⟩
    · exact (hr.active tid txn' htxn').mono
  · rw [hfind] at he
    split_ifs at he with hk
    · cases he
      exact hk.symm
    · exact hr.numbers k e he
  · rcases List.mem_append.1 he with hmem | hmem
    · obtain ⟨e', he', heq⟩ := hr.kept rfl k e hmem
      exact ⟨e', hold he', heq⟩
    · cases List.mem_singleton.1 hmem
      exact ⟨_, (hfind _).trans (if_pos rfl), rfl⟩
  · show k < r.log.last + 1
    rw [hfind] at he
    split_ifs at he with hk
    · omega
    · have := hr.below rfl k e he
      omega
  · obtain ⟨e, he, heq⟩ := hr.entries tid req hreq hb
    exact ⟨e, hold he, heq⟩
  · obtain ⟨e₀, he₀, _⟩ := hr.entries tid req hreq (.inr ⟨b, hb⟩)
    obtain rfl : e₀ = e := Option.some.inj ((hold he₀).symm.trans he)
    obtain ⟨e', hmem, heq⟩ := hr.stamped tid req b e₀ hD hreq hb he₀
    exact ⟨e', mem_mono hmem, heq⟩

end Dated

/-! ### One step -/

/-- A step that started in `r₀` so far: the replica is dated, what it logged is the prepare at
hand, and what it sent is dated. -/
structure Dating (once : Prop) (cfg : Config) (s : Shard) (i : ℕ) (h : History) (r₀ : Replica)
    (input : Input Addr Msg Act) (D : Option TxnId) (x : Ctx Replica Addr Msg Event) : Prop where
  node : Dated cfg s i (past h (.replica s i) x) D x.state
  fresh : i = cfg.leader s → ∀ lsn e, .logged lsn e ∈ x.events →
    ∃ src dst m, input = .recv ⟨src, dst, .prepareTransaction m⟩ ∧
      Replica.Executes ⟨cfg, s, i⟩ r₀ m ∧ e.txn = m.tid ∧
      e.ts = (Replica.executed ⟨cfg, s, i⟩ r₀ m).commitTs.timestamp
  sent : ∀ p ∈ x.sent, DatedPacket once cfg (past h (.replica s i) x) p

namespace Dating

variable {once : Prop} {cfg : Config} {s : Shard} {i : ℕ} {h : History} {r₀ : Replica}
  {input : Input Addr Msg Act} {D : Option TxnId} {x : Ctx Replica Addr Msg Event}

theorem update (hx : Dating once cfg s i h r₀ input D x) {r : Replica}
    (hr : Dated cfg s i (past h (.replica s i) x) D r) :
    Dating once cfg s i h r₀ input D { x with state := r } :=
  ⟨hr, hx.fresh, hx.sent⟩

theorem send (hx : Dating once cfg s i h r₀ input D x) {ps : List Pkt}
    (hps : ∀ p ∈ ps, p ∈ x.sent ∨ DatedPacket once cfg (past h (.replica s i) x) p) :
    Dating once cfg s i h r₀ input D { x with sent := ps } :=
  ⟨hx.node, hx.fresh, fun p hp => (hps p hp).elim (hx.sent p) id⟩

/-- More is sent. -/
theorem more (hx : Dating once cfg s i h r₀ input D x) {ps : List Pkt}
    (hps : ∀ p ∈ ps, DatedPacket once cfg (past h (.replica s i) x) p) :
    Dating once cfg s i h r₀ input D { x with sent := x.sent ++ ps } :=
  hx.send fun p hp => (List.mem_append.1 hp).imp_right (hps p)

/-- The state changes and an event is recorded that is not about the log. -/
theorem record (hx : Dating once cfg s i h r₀ input D x) {r : Replica} {e : Event}
    (hr : Dated cfg s i (past h (.replica s i) x) D r)
    (he : i = cfg.leader s → ∀ lsn l, e ≠ .logged lsn l) :
    Dating once cfg s i h r₀ input D { x with state := r, events := x.events ++ [e] } := by
  have hpast : past h (.replica s i) { x with state := r, events := x.events ++ [e] } =
      past h (.replica s i) x ++ [(.replica s i, e)] := past_emit e
  refine ⟨?_, fun hi lsn l hl => ?_, fun p hp => ?_⟩
  · rw [hpast]
    refine hr.grow (fun _ hmem => mem_mono hmem) fun hi lsn l hl => ?_
    rcases List.mem_append.1 hl with hold | hnew
    · exact hold
    · have heq : Event.logged lsn l = e := congrArg Prod.snd (List.mem_singleton.1 hnew)
      exact absurd heq.symm (he hi lsn l)
  · rcases List.mem_append.1 hl with hold | hnew
    · exact hx.fresh hi lsn l hold
    · exact absurd (List.mem_singleton.1 hnew).symm (he hi lsn l)
  · rw [hpast]
    exact (hx.sent p hp).mono

/-- Before consensus the timer of a pending transaction resends the entry. -/
theorem sending (hx : Dating once cfg s i h r₀ input D x) {tid : TxnId}
    {req : PendingTransaction} (hreq : x.state.pendingTxns.lookup tid = some req)
    (hopen : req.reachConsensus = false ∨ ∃ b, req.timer = some (.resendReplicateTxn b))
    (htimer : req.timer ≠ none) : ∃ b, req.timer = some (.resendReplicateTxn b) := by
  rcases hopen with hopen | hsending
  · cases ht : req.timer with
    | none => exact absurd ht htimer
    | some t =>
        cases t with
        | resendReplicateTxn b => exact ⟨b, rfl⟩
        | resendPrepareOk b =>
            rw [hx.node.voted tid req b hreq ht] at hopen
            cases hopen
  · exact hsending

/-- The entry a pending transaction replicates is its own. -/
theorem replicated_txn (hx : Dating once cfg s i h r₀ input D x) {tid : TxnId}
    {req : PendingTransaction} (hreq : x.state.pendingTxns.lookup tid = some req)
    (hopen : req.reachConsensus = false ∨ ∃ b, req.timer = some (.resendReplicateTxn b))
    (htimer : req.timer ≠ none) : (x.state.log.entryToProto req.lsn).txnId = tid := by
  obtain ⟨e, he, htxn⟩ := hx.node.entries tid req hreq (.inr (hx.sending hreq hopen htimer))
  simp only [Log.entryToProto, he, Option.getD_some]
  exact htxn

/-- It is the one the leader filed. -/
theorem replicated (hx : Dating once cfg s i h r₀ input none x) {tid : TxnId}
    {req : PendingTransaction} (hreq : x.state.pendingTxns.lookup tid = some req)
    (hopen : req.reachConsensus = false ∨ ∃ b, req.timer = some (.resendReplicateTxn b))
    (htimer : req.timer ≠ none) :
    Filed cfg (past h (.replica s i) x) s (x.state.log.entryToProto req.lsn) := by
  obtain ⟨b, hb⟩ := hx.sending hreq hopen htimer
  obtain ⟨e, he, _⟩ := hx.node.entries tid req hreq (.inr ⟨b, hb⟩)
  obtain ⟨e', hmem, htxn, hts⟩ := hx.node.stamped tid req b e (fun h => by cases h) hreq hb he
  have hid := hx.node.numbers _ e he
  simp only [Filed, Log.entryToProto, he, Option.getD_some, hid]
  exact ⟨e', hmem, htxn, hts⟩

/-- The leader logs the transaction of the prepare at hand. -/
theorem log (hx : Dating once cfg s i h r₀ input D x) (hi : i = cfg.leader s) {txn : Transaction}
    (htxn : ∃ src dst m, input = .recv ⟨src, dst, .prepareTransaction m⟩ ∧
      Replica.Executes ⟨cfg, s, i⟩ r₀ m ∧ txn.id = m.tid ∧
      txn.commitTs.timestamp = (Replica.executed ⟨cfg, s, i⟩ r₀ m).commitTs.timestamp)
    {clients : Table TxnId (Option Addr)} {sent : List Pkt}
    (hsent : ∀ p ∈ sent, p ∈ x.sent ∨ ∃ r, p.msg = .prepareTransactionReply r ∧
      r.tid = txn.id ∧ r.shard = s ∧ r.timestamp = txn.commitTs.timestamp) :
    Dating once cfg s i h r₀ input D {
      state := { x.state with
        clientList := clients
        activeTxns := x.state.activeTxns.insert txn.id (some txn)
        log := (Replica.entryOf x.state.log txn).2 }
      sent := sent
      events := x.events ++ [.logged (Replica.entryOf x.state.log txn).1.id
        (Replica.entryOf x.state.log txn).1] } := by
  have hmem : (cfg.leaderNode s, Event.logged (Replica.entryOf x.state.log txn).1.id
      (Replica.entryOf x.state.log txn).1) ∈ past h (.replica s i) x ++ [(.replica s i,
        .logged (Replica.entryOf x.state.log txn).1.id (Replica.entryOf x.state.log txn).1)] := by
    rw [Config.leaderNode, ← hi]
    exact List.mem_append_right _ (List.mem_singleton.2 rfl)
  refine ⟨?_, fun _ lsn l hl => ?_, fun p hp => ?_⟩
  · rw [past_emit]
    exact hx.node.log hi
  · rcases List.mem_append.1 hl with hold | hnew
    · exact hx.fresh hi lsn l hold
    · cases List.mem_singleton.1 hnew
      exact htxn
  · rw [past_emit]
    rcases hsent p hp with hold | ⟨r, hr, htid, hshard, hts⟩
    · exact (hx.sent p hold).mono
    · refine .of_reply hr fun _ _ _ => ?_
      rw [hshard]
      exact ⟨_, _, hmem, htid.symm, hts.symm⟩

/-- **One move** keeps everything dated. -/
theorem move {y : Ctx Replica Addr Msg Event}
    (hcopy : ∀ src dst m, input = .recv ⟨src, dst, .replicateTransaction m⟩ →
      Filed cfg h s m.txnLog)
    (hanswer : once → ∀ src dst m z, input = .recv ⟨src, dst, .prepareTransaction m⟩ →
      Replica.AnswersFrom ⟨cfg, s, i⟩ r₀ m z → z.1 ≠ .prepareOk)
    (hround : cfg.Direct → ∀ tid, r₀.pendingPrepares.lookup tid = none)
    (hx : Dating once cfg s i h r₀ input D x) (hmove : Replica.Move ⟨cfg, s, i⟩ r₀ input D x y) :
    Dating once cfg s i h r₀ input D y := by
  have hleader : (ReplicaEnv.mk cfg s i).isLeader = true ↔ i = cfg.leader s := decide_eq_true_iff
  cases hmove with
  | send ps hps => exact hx.more fun p hp => .of_casual (hps p hp)
  | event e he =>
      refine hx.record hx.node fun _ lsn l heq => ?_
      rw [heq] at he
      exact he
  | quiet r hr =>
      refine hx.update (hx.node.congr hr.log hr.pending fun tid txn htxn => ?_)
      have hlike := hr.active tid
      rw [ActiveLike, htxn] at hlike
      obtain ⟨txn', htxn', hcore⟩ := Option.map_eq_some_iff.1 hlike.symm
      have hts : txn'.core.commitTs = txn.core.commitTs := by rw [hcore]
      rw [show txn.commitTs = txn'.commitTs from hts.symm]
      exact hx.node.active tid txn' (Option.join_eq_some_iff.1 htxn')
  | forget tid =>
      refine hx.update (hx.node.congr rfl rfl fun t txn htxn => ?_)
      rw [Table.lookup_erase_eq] at htxn
      split_ifs at htxn
      exact hx.node.active t txn htxn
  | copy src dst m clock txn hm hnew hwset hts hlist =>
      obtain ⟨hfollow, hdated⟩ := hx.node.copy (hcopy src dst m hm).mono hnew hts
      exact hx.record hdated fun hi => absurd hi hfollow
  | log remote dst m sent hm hexec hlead hsent =>
      exact hx.log (hleader.1 hlead) ⟨remote, dst, m, hm, hexec, rfl, rfl⟩ hsent
  | setTs tid req ts hD hreq hpart =>
      refine hx.update (hx.node.modify (fun _ => rfl) (fun _ => rfl) (.inr ?_))
      intro tid' req' b hD' hreq' hb heq
      obtain ⟨e, he, htxn⟩ := hx.node.entries tid req hreq (.inl hpart)
      obtain ⟨e', he', htxn'⟩ := hx.node.entries tid' req' hreq' (.inr ⟨b, hb⟩)
      rw [heq, he] at he'
      cases he'
      exact hD' (hD.trans (congrArg some (htxn.symm.trans htxn')))
  | setStatus lsn state =>
      exact hx.update (hx.node.modify (fun _ => rfl) (fun _ => rfl) (.inl fun _ => rfl))
  | enter tid req hlead hnone hentry hopen htimer hlist =>
      obtain ⟨e, he, htxn, hlogged⟩ := hentry
      refine hx.update (hx.node.insert (fun _ => ⟨e, he, htxn⟩) (fun b e' _ _ he' => ?_)
        fun b hb => absurd hb (htimer b))
      cases he.symm.trans he'
      refine ⟨e, List.mem_append_right _ (List.mem_map.2 ⟨_, hlogged, ?_⟩), rfl, rfl⟩
      rw [Config.leaderNode, ← hleader.1 hlead]
  | repair tid req req' hlead hreq hnone hentry hopen htimer hlist =>
      obtain ⟨e, he, htxn, hlogged⟩ := hentry
      refine hx.update (hx.node.insert (fun _ => ⟨e, he, htxn⟩) (fun b e' _ _ he' => ?_)
        fun b hb => absurd hb (htimer b))
      cases he.symm.trans he'
      refine ⟨e, List.mem_append_right _ (List.mem_map.2 ⟨_, hlogged, ?_⟩), rfl, rfl⟩
      rw [Config.leaderNode, ← hleader.1 hlead]
  | place tid req hnone htimer hpart hopen hlist =>
      refine hx.update (hx.node.insert (fun hb => ?_) (fun b e _ hb => ?_) fun b hb => ?_)
      · rcases hb with hb | ⟨b, hb⟩
        · rw [hpart] at hb
          cases hb
        · rw [htimer] at hb
          cases hb
      · rw [htimer] at hb
        cases hb
      · rw [htimer] at hb
        cases hb
  | touch tid req req' hreq ht =>
      refine hx.update (hx.node.insert (fun hb => ?_) (fun b e hD hb he => ?_) fun b hb => ?_)
      · rw [ht.lsn]
        refine hx.node.entries tid req hreq ?_
        rcases hb with hb | ⟨b, hb⟩
        · exact .inl (ht.takesPart ▸ hb)
        · exact .inr (ht.replicating b hb)
      · obtain ⟨b', hb'⟩ := ht.replicating b hb
        rw [ht.lsn] at he ⊢
        exact hx.node.stamped tid req b' e hD hreq hb' he
      · refine ht.consensus ?_
        rcases ht.reporting b hb with ⟨b', hb'⟩ | hcons
        · exact hx.node.voted tid req b' hreq hb'
        · exact hcons
  | decide tid req hD hreq =>
      exact hx.update (hx.node.insert (hx.node.entries tid req hreq)
        (fun b e hne => absurd hD hne) fun b hb => hx.node.voted tid req b hreq hb)
  | drop tid => exact hx.update (hx.node.drop tid)
  | commit tid ts => exact hx.record (hx.node.congr rfl rfl hx.node.active) fun _ _ _ h => by cases h
  | abort tid ts => exact hx.record (hx.node.congr rfl rfl hx.node.active) fun _ _ _ h => by cases h
  | cascade tid => exact hx.record (hx.node.congr rfl rfl hx.node.active) fun _ _ _ h => by cases h
  | replicate tid req ps hD hmode hreq hopen htimer hps =>
      subst hD
      refine hx.more fun p hp => ?_
      obtain ⟨j, m, rfl, hlog, _⟩ := hps p hp
      refine ⟨hmode, s, j, rfl, ?_⟩
      rw [hlog]
      exact hx.replicated hreq hopen htimer
  | relay src dst m hm =>
      refine hx.more fun p hp => ?_
      rw [List.mem_singleton.1 hp]
      cases m with
      | replicateReplyAndVote v => trivial
      | requestCommitResult q => trivial
      | _ => exact hm.elim
  | report tid txn src dst r htxn htid hshard hsrc hts =>
      refine hx.more fun p hp => ?_
      rw [List.mem_singleton.1 hp]
      refine .of_reply rfl fun _ _ _ => ?_
      rw [hshard, htid, hts]
      exact hx.node.active tid txn htxn
  | vote sent hfollow hsent =>
      refine hx.send fun p hp => (hsent p hp).imp_right fun hvote => ?_
      obtain ⟨hmode, r, hr⟩ := hvote
      refine .of_reply hr fun _ hrc hrep => ?_
      rcases hmode with ⟨hcar, hsrc⟩ | hmode
      · have haddr := hsrc.symm.trans hrep.src
        rw [if_neg (show ¬ (cfg.mode = .slow ∨ cfg.mode = .rc) by
          rw [show cfg.mode = .carousel from hcar]
          rintro (h | h) <;> cases h)] at haddr
        cases haddr
        exact absurd (hleader.2 rfl) (Bool.eq_false_iff.1 hfollow)
      · exact absurd hmode hrc
  | refuse dst r hr =>
      refine hx.more fun p hp => ?_
      rw [List.mem_singleton.1 hp]
      refine .of_reply rfl fun _ _ hrep => ?_
      cases hr.symm.trans hrep.state
  | answer remote dst m z p r hm hans hp hstate =>
      refine hx.more fun q hq => ?_
      rw [List.mem_singleton.1 hq]
      refine .of_reply hp fun ho _ hrep => ?_
      exact absurd (hstate.symm.trans hrep.state) (hanswer ho remote dst m z hm hans)
  | final ps tid hknown hps =>
      refine hx.more fun p hp => ?_
      obtain ⟨hsrc, r, hr⟩ := hps p hp
      refine .of_reply hr fun _ hrc hrep => ?_
      cases hmode : cfg.mode with
      | fast => exact absurd (hround (.inl hmode) tid) hknown
      | parallel => exact absurd (hround (.inr (.inl hmode)) tid) hknown
      | carousel => exact absurd (hround (.inr (.inr hmode)) tid) hknown
      | slow =>
          have haddr := hsrc.symm.trans hrep.src
          rw [if_pos (.inl hmode)] at haddr
          cases haddr
      | rc => exact absurd hmode hrc
  | piece tid req t j m hreq hpiece =>
      refine hx.more fun p hp => ?_
      rw [List.mem_singleton.1 hp]
      trivial
  | _ => exact hx.update (hx.node.congr rfl rfl hx.node.active)

theorem moves {x₀ : Ctx Replica Addr Msg Event}
    (hcopy : ∀ src dst m, input = .recv ⟨src, dst, .replicateTransaction m⟩ →
      Filed cfg h s m.txnLog)
    (hanswer : once → ∀ src dst m z, input = .recv ⟨src, dst, .prepareTransaction m⟩ →
      Replica.AnswersFrom ⟨cfg, s, i⟩ r₀ m z → z.1 ≠ .prepareOk)
    (hround : cfg.Direct → ∀ tid, r₀.pendingPrepares.lookup tid = none)
    (hx₀ : Dating once cfg s i h r₀ input D x₀) (hmoves : Replica.Moves ⟨cfg, s, i⟩ r₀ input D x₀ x) :
    Dating once cfg s i h r₀ input D x := by
  induction hmoves with
  | refl => exact hx₀
  | tail _ hmove ih => exact ih.move hcopy hanswer hround hmove

end Dating

/-- Every transaction has one timestamp in the log of its leader. -/
def OneDate (cfg : Config) (h : History) (s : Shard) : Prop :=
  ∀ tid ts ts', Entered cfg h s tid ts → Entered cfg h s tid ts' → ts = ts'

section Step

variable {once : Prop} {cfg : Config} {s : Shard} {i : ℕ} {h : History} {r₀ : Replica}
  {input : Input Addr Msg Act} {D : Option TxnId} {x : Ctx Replica Addr Msg Event}

/-- A step of the leader that executes the prepare of no logged transaction keeps that. -/
theorem Dating.oneDate (hx : Dating once cfg s i h r₀ input D x) (hi : i = cfg.leader s)
    (hold : OneDate cfg h s) (hstart : Dated cfg s i h none r₀)
    (honce : ∀ src dst m, input = .recv ⟨src, dst, .prepareTransaction m⟩ →
      Replica.Executes ⟨cfg, s, i⟩ r₀ m → ∀ lsn e, r₀.log.find lsn = some e → e.txn ≠ m.tid) :
    OneDate cfg (past h (.replica s i) x) s := by
  -- an entry is an old one, or that of the prepare at hand
  have hcase : ∀ {tid ts}, Entered cfg (past h (.replica s i) x) s tid ts →
      Entered cfg h s tid ts ∨ ∃ src dst m, input = .recv ⟨src, dst, .prepareTransaction m⟩ ∧
        Replica.Executes ⟨cfg, s, i⟩ r₀ m ∧ tid = m.tid ∧
        ts = (Replica.executed ⟨cfg, s, i⟩ r₀ m).commitTs.timestamp := by
    rintro _ _ ⟨lsn, e, he, rfl, rfl⟩
    rcases List.mem_append.1 he with hmem | hmem
    · exact .inl ⟨lsn, e, hmem, rfl, rfl⟩
    · obtain ⟨l, hl, heq⟩ := List.mem_map.1 hmem
      have hlogged : l = .logged lsn e := congrArg Prod.snd heq
      exact .inr (hx.fresh hi lsn e (hlogged ▸ hl))
  have hnew : ∀ {src dst m ts}, input = .recv ⟨src, dst, .prepareTransaction m⟩ →
      Replica.Executes ⟨cfg, s, i⟩ r₀ m → ¬ Entered cfg h s m.tid ts := by
    rintro src dst m ts hm hexec ⟨lsn, e, he, htid, _⟩
    obtain ⟨e', he', htxn⟩ := hstart.kept hi lsn e he
    exact honce src dst m hm hexec lsn e' he' (htxn.trans htid)
  intro tid ts ts' hts hts'
  rcases hcase hts with h₁ | ⟨src, dst, m, hm, hexec, htid, rfl⟩
  · rcases hcase hts' with h₂ | ⟨src, dst, m, hm, hexec, htid, _⟩
    · exact hold tid ts ts' h₁ h₂
    · exact absurd (htid ▸ h₁) (hnew hm hexec)
  · rcases hcase hts' with h₂ | ⟨src', dst', m', hm', _, _, rfl⟩
    · exact absurd (htid ▸ h₂) (hnew hm hexec)
    · cases hm.symm.trans hm'
      rfl

end Step

/-! ### The condition -/

namespace Replica

instance (env : ReplicaEnv) (r : Replica) (m : PrepareTransaction) :
    Decidable (Dispatched env r m) :=
  inferInstanceAs (Decidable (_ ∧ _ ∧ _))

instance (env : ReplicaEnv) (r : Replica) (m : PrepareTransaction) :
    Decidable (Executes env r m) :=
  decidable_of_iff (¬ Dispatched env r m ∧ r.inDependency.lookup m.tid ≠ some (-1) ∧
      r.committedTxns.lookup m.tid = none ∧
      ∀ req ∈ (r.pendingTxns.lookup m.tid).toList, req.reachConsensus = false)
    ⟨fun h => ⟨h.1, h.2.1, h.2.2.1, fun req hreq => h.2.2.2 req (Option.mem_toList.2 hreq)⟩,
      fun h => ⟨h.here, h.unmarked, h.undecided, fun req hreq =>
        h.waiting req (Option.mem_toList.1 hreq)⟩⟩

/-- The prepare is not executed for a transaction the leader has logged, and not answered from
a record of `LOG_STATE_PREPAREOK`. -/
def takesOnce (env : ReplicaEnv) (r : Replica) : Msg → Bool
  | .prepareTransaction m =>
      (!(env.isLeader && decide (Executes env r m)) ||
        r.log.entries.toList.all fun p => decide (p.2.txn ≠ m.tid)) &&
      (decide (Dispatched env r m) || decide (r.inDependency.lookup m.tid = some (-1)) ||
        decide ((r.committedTxns.lookup m.tid).map Prod.fst ≠ some .prepareOk))
  | _ => true

theorem takesOnce_prepare {env : ReplicaEnv} {r : Replica} {m : PrepareTransaction}
    (h : takesOnce env r (.prepareTransaction m) = true) :
    (env.isLeader = true → Executes env r m → ∀ lsn e, r.log.find lsn = some e → e.txn ≠ m.tid) ∧
      ∀ z, AnswersFrom env r m z → z.1 ≠ .prepareOk := by
  simp only [takesOnce, Bool.and_eq_true, Bool.or_eq_true, Bool.not_eq_true', Bool.and_eq_false_iff,
    decide_eq_false_iff_not, List.all_eq_true, decide_eq_true_eq] at h
  refine ⟨fun hlead hexec lsn e he => ?_, fun z hans hz => ?_⟩
  · rcases h.1 with (hnot | hnot) | hall
    · rw [hlead] at hnot
      cases hnot
    · exact absurd hexec hnot
    · exact hall (lsn, e) (Table.mem_toList.2 he)
  · rcases h.2 with (hdisp | hmark) | hne
    · exact hans.here hdisp
    · exact hans.unmarked hmark
    · rw [hans.decided, Option.map_some, hz] at hne
      exact hne rfl

end Replica

/-- **Prepares are executed once.** -/
def Config.Once (cfg : Config) : StepCond
  | w, .replica s i, _, .recv p =>
      Replica.takesOnce ⟨cfg, s, i⟩ (GlobalState.replica w s i) p.msg = true
  | _, _, _, _ => True

instance (cfg : Config) (w : GlobalState) (n : Node) (ω : Choice) (input : Input Addr Msg Act) :
    Decidable (cfg.Once w n ω input) :=
  match n, input with
  | .replica _ _, .recv _ => inferInstanceAs (Decidable (_ = true))
  | .replica _ _, .act _ => .isTrue trivial
  | .client _, _ => .isTrue trivial
  | .coordinator _, _ => .isTrue trivial

/-! ### Every run -/

/-- What holds of a leader for ever, if prepares are executed once. -/
def DatedNode (once : Prop) (cfg : Config) (h : History) : (n : Node) → Local n → Prop
  | .replica s i, _ => once → i = cfg.leader s → OneDate cfg h s
  | _, _ => True

/-- What holds of a replica while it runs. -/
def DatedLive (cfg : Config) (h : History) : (n : Node) → Local n → Prop
  | .replica s i, r => Dated cfg s i h none r
  | _, _ => True

variable {once : Prop} {cfg : Config} {C : StepCond} {w : GlobalState}

theorem Dated.init (s : Shard) (i : ℕ) : Dated cfg s i [] none (cfg.init (.replica s i)) where
  active := fun tid txn htxn => by cases htxn
  numbers := fun lsn e he => by cases he
  kept := fun _ lsn e he => absurd he List.not_mem_nil
  below := fun _ lsn e he => by cases he
  entries := fun tid req hreq => by cases hreq
  stamped := fun tid req b e _ hreq => by cases hreq
  voted := fun tid req b hreq => by cases hreq

theorem DatedNode.frame {h : History} {n n' : Node} (es : List Event) {x : Local n}
    (hn : n ≠ n') (hx : DatedNode once cfg h n x) : DatedNode once cfg (h ++ es.map (n', ·)) n x := by
  cases n with
  | client tid => trivial
  | coordinator c => trivial
  | replica s i =>
      intro ho hi tid ts ts' hts hts'
      have hback : ∀ {t}, Entered cfg (h ++ es.map (n', ·)) s tid t → Entered cfg h s tid t := by
        rintro t ⟨lsn, e, he, heq⟩
        refine ⟨lsn, e, (mem_frame ?_).1 he, heq⟩
        rw [Config.leaderNode, ← hi]
        exact hn
      exact hx ho hi tid ts ts' (hback hts) (hback hts')

theorem DatedLive.frame {h : History} {n n' : Node} (es : List Event) {x : Local n}
    (hn : n ≠ n') (hx : DatedLive cfg h n x) : DatedLive cfg (h ++ es.map (n', ·)) n x := by
  cases n with
  | client tid => trivial
  | coordinator c => trivial
  | replica s i =>
      refine Dated.grow hx (fun _ hmem => mem_mono hmem) fun hi lsn e he => (mem_frame ?_).1 he
      rw [Config.leaderNode, ← hi]
      exact hn

theorem Msg.ofClient.dated {p : Pkt} {h : History} (hp : p.msg.ofClient) :
    DatedPacket once cfg h p := by
  obtain ⟨src, dst, msg⟩ := p
  cases msg with
  | replicateTransaction m => exact hp.elim
  | prepareTransactionReply r => exact hp.elim
  | _ => trivial

theorem Msg.ofCoordinator.dated {p : Pkt} {h : History} (hp : p.msg.ofCoordinator) :
    DatedPacket once cfg h p := by
  obtain ⟨src, dst, msg⟩ := p
  cases msg with
  | replicateTransaction m => exact hp.elim
  | prepareTransactionReply r => exact hp.elim
  | _ => trivial

/-- An entry that arrives was filed by the leader of this shard. -/
theorem filed_of_recv {s : Shard} {i : ℕ} {src dst : Addr} {m : ReplicateTransaction}
    (hpkt : ∀ p ∈ w.net, DatedPacket once cfg w.history p)
    (hen : cfg.system.Enabled w (.replica s i) (.recv ⟨src, dst, .replicateTransaction m⟩)) :
    Filed cfg w.history s m.txnLog := by
  obtain ⟨_, s', i', hdst, hfiled⟩ := hpkt _ hen.2.1
  obtain rfl : dst = .replica s' i' := hdst
  have hown : Addr.replica s' i' = .replica s i := Config.owner_replica hen.2.2
  cases hown
  exact hfiled

/-- The moves of a step in a run. -/
theorem Dating.of_moves {s : Shard} {i : ℕ} {ω : Choice} {input : Input Addr Msg Act}
    (hw : cfg.system.Reach C w) (hstart : Dated cfg s i w.history none (w.replica s i))
    (hpkt : ∀ p ∈ w.net, DatedPacket once cfg w.history p)
    (hen : cfg.system.Enabled w (.replica s i) input)
    (hc : once → cfg.Once w (.replica s i) ω input) {D : Option TxnId}
    {x : Ctx Replica Addr Msg Event}
    (hmoves : Replica.Moves ⟨cfg, s, i⟩ (w.replica s i) input D { state := w.replica s i } x) :
    Dating once cfg s i w.history (w.replica s i) input D x := by
  have hcopy : ∀ src dst m, input = .recv ⟨src, dst, .replicateTransaction m⟩ →
      Filed cfg w.history s m.txnLog := by
    rintro src dst m rfl
    exact filed_of_recv hpkt hen
  have hprep : once → ∀ src dst m, input = .recv ⟨src, dst, .prepareTransaction m⟩ →
      Replica.takesOnce ⟨cfg, s, i⟩ (w.replica s i) (.prepareTransaction m) = true := by
    rintro ho src dst m rfl
    exact hc ho
  have hround : cfg.Direct → ∀ tid, (w.replica s i).pendingPrepares.lookup tid = none :=
    fun hdir => ReplicaOk.prepares ((Config.invariant hdir hw).1 (.replica s i))
  refine Dating.moves hcopy (fun ho src dst m z hm => (Replica.takesOnce_prepare
    (hprep ho src dst m hm)).2 z) hround ⟨?_, fun _ lsn e he => absurd he List.not_mem_nil,
    fun p hp => absurd hp List.not_mem_nil⟩ hmoves
  rw [past_start]
  exact ⟨hstart.active, hstart.numbers, hstart.kept, hstart.below, hstart.entries,
    fun tid req b e _ => hstart.stamped tid req b e (fun h => by cases h), hstart.voted⟩

/-- The step of a replica. -/
theorem dated_step {s : Shard} {i : ℕ} {ω : Choice} {input : Input Addr Msg Act}
    (hw : cfg.system.Reach C w) (hnode : ∀ n, DatedNode once cfg w.history n (w.state n))
    (hlive : DatedLive cfg w.history (.replica s i) (w.state (.replica s i)))
    (hpkt : ∀ p ∈ w.net, DatedPacket once cfg w.history p)
    (hen : cfg.system.Enabled w (.replica s i) input)
    (hc : once → cfg.Once w (.replica s i) ω input) :
    wp (Replica.handleInput ⟨cfg, s, i⟩ ω input)
      (fun _ => Good (fun h r => DatedNode once cfg h (.replica s i) r ∧
        DatedLive cfg h (.replica s i) r) (DatedPacket once cfg) w.history (.replica s i))
      (Good (DatedNode once cfg · (.replica s i) ·) (DatedPacket once cfg) w.history
        (.replica s i)) { state := w.replica s i } := by
  have hstart : Dated cfg s i w.history none (w.replica s i) := hlive
  have hdate : ∀ {D x}, Dating once cfg s i w.history (w.replica s i) input D x →
      DatedNode once cfg (past w.history (.replica s i) x) (.replica s i) x.state := by
    intro D x hx ho hi
    refine hx.oneDate hi (hnode (.replica s i) ho hi) hstart fun src dst m hm hexec => ?_
    subst hm
    exact (Replica.takesOnce_prepare (hc ho)).1 (decide_eq_true hi) hexec
  refine wp_mono (fun _ y hy => ?_) (fun y hy => ?_)
    (Replica.handleInput_moves ⟨cfg, s, i⟩ ω input { state := w.replica s i })
  · rcases hy with hmoves | ⟨tid, hmoves, hgone⟩
    · have hx := Dating.of_moves hw hstart hpkt hen hc hmoves
      exact ⟨⟨hdate hx, hx.node⟩, hx.sent⟩
    · -- the transaction that was decided is pending no more
      have hx := Dating.of_moves hw hstart hpkt hen hc hmoves
      refine ⟨⟨hdate hx, ?_⟩, hx.sent⟩
      refine ⟨hx.node.active, hx.node.numbers, hx.node.kept, hx.node.below, hx.node.entries,
        fun t req b e _ hreq => hx.node.stamped t req b e (fun heq => ?_) hreq, hx.node.voted⟩
      cases heq
      rw [hgone] at hreq
      cases hreq
  · obtain ⟨D, hmoves⟩ := hy
    have hx := Dating.of_moves hw hstart hpkt hen hc hmoves
    exact ⟨hdate hx, hx.sent⟩

/-- **The invariant** of every run; `once` may be assumed where prepares are executed once. -/
theorem Config.dated
    (honce : once → ∀ (w : GlobalState) n ω input, C w n ω input → cfg.Once w n ω input)
    (hw : cfg.system.Reach C w) :
    (∀ n, DatedNode once cfg w.history n (w.state n)) ∧
      (∀ n, w.crashed n = false → DatedLive cfg w.history n (w.state n)) ∧
        ∀ p ∈ w.net, DatedPacket once cfg w.history p := by
  refine hw.invariant_live (fun n => ?_) (fun _ _ _ => DatedPacket.mono)
    (fun _ _ _ es _ => DatedNode.frame es) (fun _ _ _ es _ => DatedLive.frame es) ?_
  · cases n with
    | client tid => exact ⟨trivial, trivial⟩
    | coordinator c => exact ⟨trivial, trivial⟩
    | replica s i =>
        refine ⟨fun _ _ tid ts ts' hts => ?_, Dated.init s i⟩
        obtain ⟨lsn, e, he, _⟩ := hts
        exact absurd he List.not_mem_nil
  · intro (w : GlobalState) n ω input hw hnode hlive hpkt hen hc
    cases n with
    | client tid =>
        exact (Client.handleInput_sends ⟨cfg, tid⟩ ω input).good (fun _ _ => ⟨trivial, trivial⟩)
          (fun _ _ => trivial) fun hp => Msg.ofClient.dated hp.1
    | coordinator c =>
        exact (Coordinator.handleInput_sends ⟨cfg, c⟩ ω input).good
          (fun _ _ => ⟨trivial, trivial⟩) (fun _ _ => trivial) Msg.ofCoordinator.dated
    | replica s i => exact dated_step hw hnode hlive hpkt hen fun ho => honce ho w _ ω input hc

/-- **A prepare that comes again.** While the transaction is replicated it leaves the log, the
store and the active transaction of a leader alone exactly when it leaves no trace. In every
run, in every mode, in which no prepare of a logged transaction is executed and none is
answered from a record of `LOG_STATE_PREPAREOK`, the timestamp a leader reports for a
transaction is that of every entry it sends to its followers. -/
theorem repeated_prepare (cfg : Config) :
    (∀ env ω remote m r req, env.isLeader = true →
      r.pendingTxns.lookup m.tid = some req → req.reachConsensus = false →
      (Replica.Undisturbed m.tid r
        (Replica.handlePrepareTxn env ω remote m { state := r }).state.state ↔
        Replica.Traceless env ω r m)) ∧
    ∀ w : GlobalState, cfg.system.Reach cfg.Once w →
      ∀ p ∈ w.net, ∀ r, Reported cfg p r → ∀ q ∈ w.net, ∀ m i,
        q.msg = .replicateTransaction m → q.dst = .replica r.shard i →
        m.txnLog.txnId = r.tid → r.timestamp = m.txnLog.timestamp := by
  refine ⟨fun env ω remote m r req hlead hreq hopen => Replica.prepare_again hlead hreq hopen,
    fun w hw p hp r hrep q hq m i hm hdst htid => ?_⟩
  obtain ⟨hnode, _, hpkt⟩ := Config.dated (fun _ : True => fun _ _ _ _ hc => hc) hw
  have hent := hpkt q hq
  simp only [DatedPacket, hm] at hent
  obtain ⟨hmode, s, j, hdst', hfiled⟩ := hent
  cases hdst.symm.trans hdst'
  have hrepd := hpkt p hp
  simp only [DatedPacket, hrep.msg] at hrepd
  have hone : OneDate cfg w.history r.shard :=
    hnode (.replica r.shard (cfg.leader r.shard)) trivial rfl
  exact hone r.tid _ _ (hrepd trivial hmode hrep) (htid ▸ hfiled.entered)

theorem fastVote_once :
    ((threeReplicas .fast 1).run (threeReplicas .fast 1).Once fastVote).isSome := by
  decide +kernel

/-- What the leader of shard `0` replicates in these runs. -/
def firstEntry : ReplicateTransaction :=
  { txnLog := ⟨[("a", "1")], .prepareOk, 1, 0, 0, 7⟩
    term := 0
    replicaId := 0
    primaryCoordinator := 0
    participants := [0]
    primaryShard := 2 ^ 64 - 1
    vote := .prepareOk
    hasPreCommit := false }

/-- What it reports when it drew the timestamp `ts` last. -/
def reportAt (ts : ℕ) : PrepareTransactionReply :=
  { tid := 7, state := .prepareOk, shard := 0, timestamp := ts }

theorem reportAt_reported (ts : ℕ) (dst : Addr) :
    Reported (threeReplicas .fast 1) ⟨.replica 0 0, dst, .prepareTransactionReply (reportAt ts)⟩
      (reportAt ts) :=
  ⟨rfl, rfl, rfl⟩

/-- A prepare that is executed once is reported with the timestamp of its entry. -/
theorem repeated_prepare_fastVote :
    ∃ w : GlobalState, (threeReplicas .fast 1).system.Reach (threeReplicas .fast 1).Once w ∧
      ∃ p ∈ w.net, ∃ r, Reported (threeReplicas .fast 1) p r ∧ ∃ q ∈ w.net, ∃ m i,
        q.msg = .replicateTransaction m ∧ q.dst = .replica r.shard i ∧
        m.txnLog.txnId = r.tid ∧ r.timestamp = m.txnLog.timestamp := by
  have hw := Config.reach_run fastVote_once
  have hp : (⟨.replica 0 0, .client 7 0, .prepareTransactionReply (reportAt 1)⟩ : Pkt) ∈
      (((threeReplicas .fast 1).run (threeReplicas .fast 1).Once fastVote).get
        fastVote_once).net := by
    decide +kernel
  have hq : (⟨.replica 0 0, .replica 0 1, .replicateTransaction firstEntry⟩ : Pkt) ∈
      (((threeReplicas .fast 1).run (threeReplicas .fast 1).Once fastVote).get
        fastVote_once).net := by
    decide +kernel
  have hrep := reportAt_reported 1 (.client 7 0)
  exact ⟨_, hw, _, hp, _, hrep, _, hq, firstEntry, 1, rfl, rfl, rfl,
    (repeated_prepare _).2 _ hw _ hp _ hrep _ hq firstEntry 1 rfl rfl rfl⟩

/-- The prepare comes twice before the first reply of a follower. -/
def preparedTwice : Commands :=
  [act 7 (.put "a" "1"), act 7 .commit, act 7 (.task 0), deliver 0, deliver 0, deliver 1,
    deliver 2, deliver 7, deliver 8]

theorem preparedTwice_runs : ((threeReplicas .fast 1).run anyStep preparedTwice).isSome := by
  decide +kernel

theorem preparedOnce_runs :
    ((threeReplicas .fast 1).run anyStep (preparedTwice.take 4)).isSome := by
  decide +kernel

/-- **The second prepare is executed too**: the leader logs a second entry, and then reports
the second timestamp for the first entry. -/
theorem repeated_prepare_redated :
    (∃ w : GlobalState, (threeReplicas .fast 1).system.Reach anyStep w ∧
      ∃ p ∈ w.net, p.dst = .replica 0 0 ∧ ∃ m, p.msg = .prepareTransaction m ∧
        ((w.replica 0 0).pendingTxns.lookup m.tid).map (·.reachConsensus) = some false ∧
        ¬ Replica.Undisturbed m.tid (w.replica 0 0) (Replica.handlePrepareTxn
          ⟨threeReplicas .fast 1, 0, 0⟩ {} p.src m { state := w.replica 0 0 }).state.state) ∧
    ∃ w : GlobalState, (threeReplicas .fast 1).system.Reach anyStep w ∧
      ∃ p ∈ w.net, ∃ r, Reported (threeReplicas .fast 1) p r ∧ ∃ q ∈ w.net, ∃ m i,
        q.msg = .replicateTransaction m ∧ q.dst = .replica r.shard i ∧
        m.txnLog.txnId = r.tid ∧ r.timestamp ≠ m.txnLog.timestamp := by
  constructor
  · have hp : (⟨.client 7 0, .replica 0 0, .prepareTransaction
        { tid := 7, wset := [("a", "1")], participants := [0], primaryShard := 2 ^ 64 - 1
          mode := .fast }⟩ : Pkt) ∈ (((threeReplicas .fast 1).run anyStep
            (preparedTwice.take 4)).get preparedOnce_runs).net := by
      decide +kernel
    refine ⟨_, Config.reach_run preparedOnce_runs, _, hp, rfl, _, rfl, by decide +kernel,
      fun hsame => ?_⟩
    have hlast := congrArg Log.last hsame.log
    revert hlast
    decide +kernel
  · have hp : (⟨.replica 0 0, .client 7 0, .prepareTransactionReply (reportAt 2)⟩ : Pkt) ∈
        (((threeReplicas .fast 1).run anyStep preparedTwice).get preparedTwice_runs).net := by
      decide +kernel
    have hq : (⟨.replica 0 0, .replica 0 1, .replicateTransaction firstEntry⟩ : Pkt) ∈
        (((threeReplicas .fast 1).run anyStep preparedTwice).get preparedTwice_runs).net := by
      decide +kernel
    exact ⟨_, Config.reach_run preparedTwice_runs, _, hp, _, reportAt_reported 2 (.client 7 0),
      _, hq, firstEntry, 1, rfl, rfl, rfl, by decide⟩

end D2PC
