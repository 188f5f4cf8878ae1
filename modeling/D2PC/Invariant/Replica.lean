import D2PC.Invariant.Direct

/-!
# Replicas keep the invariant

One lemma for each handler of `LRReplica` and each function it calls: from a good context it
ends in a good context, whether it returns or dies. The replication handlers carry the
argument: an entry keeps its number, its transaction and its write set, so a reply that
names a transaction is backed by an entry in the log of its sender even though followers
compare numbers only.
-/

namespace D2PC

open Prog Ctx

section Frames

variable {cfg : Config} {s : Shard} {i : ℕ} {h es : History} {l l' : Log} {tid : TxnId}
  {req : PendingTransaction} {txn : Transaction} {r : Replica}

/-! ### Frames -/

theorem LogOk.same (hl : LogOk cfg s i h l) (hs : Log.Same l l') : LogOk cfg s i h l' := by
  refine ⟨fun lsn e he => ?_, fun lsn e₀ he₀ => ?_, fun hi lsn e he => ?_⟩
  · rcases hs.find lsn with ⟨_, hnone⟩ | ⟨e₁, e₂, h₁, h₂, hsame⟩
    · rw [hnone] at he; cases he
    · rw [h₂] at he
      cases he
      obtain ⟨hid, e₀, he₀, hsame₀⟩ := hl.own lsn e₁ h₁
      exact ⟨hsame.id.trans hid, e₀, he₀, hsame₀.trans hsame⟩
  · obtain ⟨e, he, hsame₀⟩ := hl.kept lsn e₀ he₀
    rcases hs.find lsn with ⟨hnone, _⟩ | ⟨e₁, e₂, h₁, h₂, hsame⟩
    · rw [hnone] at he; cases he
    · rw [h₁] at he
      cases he
      exact ⟨e₂, h₂, hsame₀.trans hsame⟩
  · rw [hs.last]
    rcases hs.find lsn with ⟨_, hnone⟩ | ⟨e₁, _, h₁, _, _⟩
    · rw [hnone] at he; cases he
    · exact hl.last hi lsn e₁ h₁

/-- The entry of a pending transaction only has to keep its transaction. -/
theorem PendingOk.log (hp : PendingOk cfg s i h l tid req)
    (hs : ∀ lsn e, l.find lsn = some e → ∃ e', l'.find lsn = some e' ∧ e'.txn = e.txn) :
    PendingOk cfg s i h l' tid req := by
  refine ⟨hp.leader, hp.id, hp.majority, ?_, hp.consensus, hp.timer, hp.quorum⟩
  rcases hp.entry with hph | ⟨⟨e, he, htid⟩, hshape⟩
  · exact .inl hph
  · obtain ⟨e', he', htxn⟩ := hs _ e he
    exact .inr ⟨⟨e', he', htxn.trans htid⟩, hshape⟩

theorem PendingOk.mono (hp : PendingOk cfg s i h l tid req) :
    PendingOk cfg s i (h ++ es) l tid req := by
  refine ⟨hp.leader, hp.id, hp.majority, ?_, fun hc => (hp.consensus hc).mono,
    fun b hb => (hp.timer b hb).mono, fun term msgs ht j m hj => (hp.quorum term msgs ht j m hj).mono⟩
  exact hp.entry.imp (fun hph => hph) fun hentry => ⟨hentry.1, hentry.2.mono⟩

theorem ActiveOk.mono (ha : ActiveOk cfg s i h tid txn) : ActiveOk cfg s i (h ++ es) tid txn :=
  ⟨fun hi => (ha.accepted hi).mono, fun hi => (ha.shape hi).mono, ha.out⟩

theorem ReplicaEventOk.mono {e : Event} (he : ReplicaEventOk cfg s h e) :
    ReplicaEventOk cfg s (h ++ es) e := by
  cases e with
  | validated tid wset => exact Piece.mono he
  | logged lsn e => exact ⟨he.1, he.2.mono⟩
  | consensus tid => exact Quorum.mono he
  | applied tid state ts =>
      exact Or.imp (fun h => ⟨h.1, h.2.imp Decided.mono Announced.mono⟩)
        (fun h => ⟨h.1, h.2.mono⟩) he
  | cascaded tid => exact fun hm => (he hm).mono
  | _ => trivial

/-- A pending transaction that is in the log keeps that when its timer is set. -/
theorem PendingOk.setTimer {l : Log} (hp : PendingOk cfg s i h l tid req)
    (hentry : req.timer ≠ none ∨ req.hasPreCommit = true ∨ cfg.mode ≠ .parallel)
    {t : ReplicaTimer} (ht : ∀ b, t = .resendPrepareOk b → Consensus cfg h s tid) :
    PendingOk cfg s i h l tid { req with timer := some t } := by
  refine ⟨hp.leader, hp.id, hp.majority, ?_, hp.consensus, fun b hb => ht b (Option.some.inj hb),
    hp.quorum⟩
  rcases hp.entry with ⟨hmode, htimer, hpre⟩ | hin
  · rcases hentry with hne | hne | hne
    · exact absurd htimer hne
    · rw [hpre] at hne; cases hne
    · exact absurd hmode hne
  · exact .inr hin

/-- **The history grows** by events that tell the truth and add nothing to the own log. -/
theorem ReplicaOk.extend (hr : ReplicaOk cfg s i h r)
    (hlog : ∀ lsn e, (Node.replica s i, Event.logged lsn e) ∉ es)
    (hes : ∀ e, (Node.replica s i, e) ∈ es → ReplicaEventOk cfg s (h ++ es) e) :
    ReplicaOk cfg s i (h ++ es) r := by
  refine ⟨⟨fun lsn e he => ?_, fun lsn e₀ he₀ => ?_, hr.log.last⟩,
    fun tid req hreq => (hr.pending tid req hreq).mono,
    fun tid txn htxn => (hr.active tid txn htxn).mono,
    hr.committed, hr.clients, hr.prepares, fun e he => ?_⟩
  · obtain ⟨hid, e₀, he₀, hsame⟩ := hr.log.own lsn e he
    exact ⟨hid, e₀, mem_mono he₀, hsame⟩
  · rcases List.mem_append.1 he₀ with hold | hnew
    · exact hr.log.kept lsn e₀ hold
    · exact absurd hnew (hlog lsn e₀)
  · rcases List.mem_append.1 he with hold | hnew
    · exact (hr.events e hold).mono
    · exact hes e hnew

/-- What others record does not matter. -/
theorem ReplicaOk.frame (hr : ReplicaOk cfg s i h r) {n : Node} (hn : Node.replica s i ≠ n)
    (es : List Event) : ReplicaOk cfg s i (h ++ es.map (n, ·)) r := by
  have hother : ∀ e, (Node.replica s i, e) ∉ es.map (n, ·) := by
    intro e he
    obtain ⟨_, _, heq⟩ := List.mem_map.1 he
    exact hn (Prod.mk.inj heq).1.symm
  exact hr.extend (fun lsn e he => hother _ he) fun e he => absurd he (hother e)

/-- An own event that is no log entry. -/
theorem ReplicaOk.emit (hr : ReplicaOk cfg s i h r) {e : Event} (hlog : ∀ lsn e', e ≠ .logged lsn e')
    (he : ReplicaEventOk cfg s (h ++ [(Node.replica s i, e)]) e) :
    ReplicaOk cfg s i (h ++ [(Node.replica s i, e)]) r := by
  refine hr.extend (fun lsn e' hmem => ?_) fun e' hmem => ?_
  · rw [List.mem_singleton] at hmem
    exact hlog lsn e' (Prod.mk.inj hmem).2.symm
  · rw [List.mem_singleton] at hmem
    obtain ⟨_, rfl⟩ := Prod.mk.inj hmem
    exact he

/-- An update of the state or the timestamp of log entries. -/
theorem ReplicaOk.setLog (hr : ReplicaOk cfg s i h r) (hs : Log.Same r.log l') :
    ReplicaOk cfg s i h { r with log := l' } := by
  refine ⟨hr.log.same hs, fun tid req hreq => (hr.pending tid req hreq).log fun lsn e he => ?_,
    hr.active, hr.committed, hr.clients, hr.prepares, hr.events⟩
  rcases hs.find lsn with ⟨hnone, _⟩ | ⟨e₁, e₂, h₁, h₂, hsame⟩
  · rw [hnone] at he; cases he
  · rw [h₁] at he
    cases he
    exact ⟨e₂, h₂, hsame.txn⟩

theorem ReplicaOk.setPending {t : TxnId} {q : PendingTransaction} (hr : ReplicaOk cfg s i h r) (hp : PendingOk cfg s i h r.log t q) :
    ReplicaOk cfg s i h { r with pendingTxns := r.pendingTxns.insert t q } := by
  refine ⟨hr.log, fun tid' req' hreq => ?_, hr.active, hr.committed, hr.clients, hr.prepares,
    hr.events⟩
  rw [Table.lookup_insert_eq] at hreq
  split_ifs at hreq with htid
  · cases hreq
    rw [htid]
    exact hp
  · exact hr.pending tid' req' hreq

/-- Writing to a pending transaction, if it is there. -/
theorem ReplicaOk.mapPending {t : TxnId} (hr : ReplicaOk cfg s i h r)
    {f : PendingTransaction → PendingTransaction}
    (hf : ∀ req, r.pendingTxns.lookup t = some req → PendingOk cfg s i h r.log t (f req)) :
    ReplicaOk cfg s i h (r.mapPending t f) := by
  unfold Replica.mapPending
  cases hreq : r.pendingTxns.lookup t with
  | none => exact hr
  | some req => exact hr.setPending (hf req hreq)

theorem ReplicaOk.erasePending (hr : ReplicaOk cfg s i h r) (tid : TxnId) :
    ReplicaOk cfg s i h { r with pendingTxns := r.pendingTxns.erase tid } := by
  refine ⟨hr.log, fun tid' req' hreq => ?_, hr.active, hr.committed, hr.clients, hr.prepares,
    hr.events⟩
  rw [Table.lookup_erase_eq] at hreq
  split_ifs at hreq
  exact hr.pending tid' req' hreq

/-- A null pointer, or an active transaction that is fine. -/
theorem ReplicaOk.setActive {t : TxnId} (hr : ReplicaOk cfg s i h r) {p : Option Transaction}
    (hp : ∀ txn, p = some txn → ActiveOk cfg s i h t txn) :
    ReplicaOk cfg s i h { r with activeTxns := r.activeTxns.insert t p } := by
  refine ⟨hr.log, hr.pending, fun tid' txn htxn => ?_, hr.committed, hr.clients, hr.prepares,
    hr.events⟩
  rw [Table.lookup_insert_eq] at htxn
  split_ifs at htxn with htid
  · rw [htid]
    exact hp txn (Option.some.inj htxn)
  · exact hr.active tid' txn htxn

theorem ReplicaOk.nullActive (hr : ReplicaOk cfg s i h r) (tid : TxnId) :
    ReplicaOk cfg s i h { r with activeTxns := r.activeTxns.insert tid none } :=
  hr.setActive fun _ htxn => by cases htxn

theorem ReplicaOk.eraseActive (hr : ReplicaOk cfg s i h r) (tid : TxnId) :
    ReplicaOk cfg s i h { r with activeTxns := r.activeTxns.erase tid } := by
  refine ⟨hr.log, hr.pending, fun tid' txn htxn => ?_, hr.committed, hr.clients, hr.prepares,
    hr.events⟩
  rw [Table.lookup_erase_eq] at htxn
  split_ifs at htxn
  exact hr.active tid' txn htxn

theorem ReplicaOk.setClient {t : TxnId} (hr : ReplicaOk cfg s i h r) {p : Option Addr}
    (hp : ∀ a, p = some a → a = .client t s) :
    ReplicaOk cfg s i h { r with clientList := r.clientList.insert t p } := by
  refine ⟨hr.log, hr.pending, hr.active, hr.committed, fun tid' a ha => ?_, hr.prepares,
    hr.events⟩
  rw [Table.lookup_insert_eq] at ha
  split_ifs at ha with htid
  · rw [htid]
    exact hp a (Option.some.inj ha)
  · exact hr.clients tid' a ha

theorem ReplicaOk.nullClient (hr : ReplicaOk cfg s i h r) (tid : TxnId) :
    ReplicaOk cfg s i h { r with clientList := r.clientList.insert tid none } :=
  hr.setClient fun _ ha => by cases ha

theorem ReplicaOk.eraseClient (hr : ReplicaOk cfg s i h r) (tid : TxnId) :
    ReplicaOk cfg s i h { r with clientList := r.clientList.erase tid } := by
  refine ⟨hr.log, hr.pending, hr.active, hr.committed, fun tid' a ha => ?_, hr.prepares,
    hr.events⟩
  rw [Table.lookup_erase_eq] at ha
  split_ifs at ha
  exact hr.clients tid' a ha

theorem ReplicaOk.setCommitted {t : TxnId} (hr : ReplicaOk cfg s i h r) {x : LogEntryState × ℕ}
    (hx : x.1 = .commit ∨ x.1 = .abort) :
    ReplicaOk cfg s i h { r with committedTxns := r.committedTxns.insert t x } := by
  refine ⟨hr.log, hr.pending, hr.active, fun tid' y hy => ?_, hr.clients, hr.prepares,
    hr.events⟩
  rw [Table.lookup_insert_eq] at hy
  split_ifs at hy
  · cases hy
    exact hx
  · exact hr.committed tid' y hy

/-- The timestamp, the dependency counters and the store are free. -/
theorem ReplicaOk.rest (hr : ReplicaOk cfg s i h r) (ts : ℕ) (deps : Table TxnId ℤ)
    (store : TxnStore) :
    ReplicaOk cfg s i h { r with currentTs := ts, inDependency := deps, store := store } :=
  ⟨hr.log, hr.pending, hr.active, hr.committed, hr.clients, hr.prepares, hr.events⟩

/-- Two entries recorded under one number are for one transaction. -/
theorem ReplicaOk.logged_txn (hr : ReplicaOk cfg s i h r) {lsn : ℕ} {e e' : LogEntry}
    (he : (Node.replica s i, Event.logged lsn e) ∈ h)
    (he' : (Node.replica s i, Event.logged lsn e') ∈ h) : e.txn = e'.txn := by
  obtain ⟨f, hf, hsame⟩ := hr.log.kept lsn e he
  obtain ⟨f', hf', hsame'⟩ := hr.log.kept lsn e' he'
  rw [hf] at hf'
  cases hf'
  exact hsame.txn.symm.trans hsame'.txn

/-- **A new entry** in the log, recorded in the history. -/
theorem ReplicaOk.addEntry {m : Log} (hr : ReplicaOk cfg s i h r) {e : LogEntry}
    (hfind : ∀ lsn, m.find lsn = if lsn = e.id then some e else r.log.find lsn)
    (hnew : r.log.find e.id = none)
    (hlast : i = cfg.leader s → r.log.last ≤ m.last ∧ e.id < m.last)
    (he : Entry cfg (h ++ [(Node.replica s i, .logged e.id e)]) s e) :
    ReplicaOk cfg s i (h ++ [(Node.replica s i, .logged e.id e)]) { r with log := m } := by
  refine ⟨⟨fun lsn e' he' => ?_, fun lsn e₀ he₀ => ?_, fun hi lsn e' he' => ?_⟩,
    fun tid req hreq => ((hr.pending tid req hreq).mono).log fun lsn e' he' => ?_,
    fun tid txn htxn => (hr.active tid txn htxn).mono,
    hr.committed, hr.clients, hr.prepares, fun e' he' => ?_⟩
  · rw [hfind] at he'
    split_ifs at he' with hlsn
    · cases he'
      exact ⟨hlsn.symm, e, by simp [hlsn], .refl e⟩
    · obtain ⟨hid, e₀, he₀, hsame⟩ := hr.log.own lsn e' he'
      exact ⟨hid, e₀, mem_mono he₀, hsame⟩
  · rcases List.mem_append.1 he₀ with hold | hnew'
    · obtain ⟨e', he', hsame⟩ := hr.log.kept lsn e₀ hold
      refine ⟨e', ?_, hsame⟩
      rw [hfind, if_neg, he']
      rintro rfl
      rw [hnew] at he'
      cases he'
    · rw [List.mem_singleton] at hnew'
      obtain ⟨_, heq⟩ := Prod.mk.inj hnew'
      cases heq
      exact ⟨e, by rw [hfind, if_pos rfl], .refl e⟩
  · rw [hfind] at he'
    split_ifs at he' with hlsn
    · rw [hlsn]
      exact (hlast hi).2
    · exact lt_of_lt_of_le (hr.log.last hi lsn e' he') (hlast hi).1
  · refine ⟨e', ?_, rfl⟩
    rw [hfind, if_neg, he']
    rintro rfl
    rw [hnew] at he'
    cases he'
  · rcases List.mem_append.1 he' with hold | hnew'
    · exact (hr.events e' hold).mono
    · rw [List.mem_singleton] at hnew'
      obtain ⟨_, rfl⟩ := Prod.mk.inj hnew'
      exact ⟨rfl, he⟩

end Frames

/-- A replica that keeps the invariant. -/
abbrev ReplicaGood (cfg : Config) (s : Shard) (i : ℕ) (h : History) :
    Ctx Replica Addr Msg Event → Prop :=
  Ctx.Good (ReplicaOk cfg s i) (PacketOk cfg) h (.replica s i)

namespace Replica

variable {cfg : Config} {s : Shard} {i : ℕ} {h : History} {c : Ctx Replica Addr Msg Event}
  {ω : Choice} {tid : TxnId} {req : PendingTransaction}

/-! ### Replication -/

/-- What the leader sends for a transaction that is in its log. -/
theorem replicateTransaction_ok {r : Replica} (hr : ReplicaOk cfg s i h r)
    (hp : PendingOk cfg s i h r.log tid req) (htimer : req.timer ≠ none) (j : ℕ) :
    PacketOk cfg h ⟨.replica s i, .replica s j, .replicateTransaction
      { txnLog := r.log.entryToProto req.lsn
        term := 0
        replicaId := i
        primaryCoordinator := req.primaryShard % cfg.n
        participants := req.participants
        primaryShard := req.primaryShard
        vote := .prepareOk
        hasPreCommit := req.hasPreCommit }⟩ := by
  obtain ⟨_, hnone, _⟩ | ⟨⟨e, he, htid⟩, hshape⟩ := hp.entry
  · exact absurd hnone htimer
  have hlead := hp.leader
  obtain ⟨hid, e₀, he₀, hsame⟩ := hr.log.own req.lsn e he
  have hlsn : (r.log.entryToProto req.lsn).lsn = req.lsn := by
    simp only [Log.entryToProto, he, Option.getD_some, hid]
  have htxn : (r.log.entryToProto req.lsn).txnId = tid := by
    simp only [Log.entryToProto, he, Option.getD_some, htid]
  refine ⟨s, j, by rw [hlead], rfl, rfl, ⟨e₀, ?_, ?_⟩, ?_, rfl⟩
  · rw [hlsn, Config.leaderNode, ← hlead]
    exact he₀
  · rw [Log.ofProto_entryToProto he]
    exact hsame
  · rw [htxn]
    exact hshape

theorem replicateTxn_good (hc : ReplicaGood cfg s i h c)
    (hreq : c.state.pendingTxns.lookup tid = some req) (htimer : req.timer ≠ none) :
    wp (replicateTxn ⟨cfg, s, i⟩ ω tid) (fun _ => ReplicaGood cfg s i h)
      (ReplicaGood cfg s i h) c := by
  have hp := hc.node.pending tid req hreq
  have hsend : ∀ p ∈ (List.range cfg.n).map fun j => (⟨.replica s i, .replica s j,
      .replicateTransaction
        { txnLog := c.state.log.entryToProto req.lsn
          term := 0
          replicaId := i
          primaryCoordinator := req.primaryShard % cfg.n
          participants := req.participants
          primaryShard := req.primaryShard
          vote := .prepareOk
          hasPreCommit := req.hasPreCommit }⟩ : Pkt), PacketOk cfg (past h (.replica s i) c) p := by
    intro p hpmem
    obtain ⟨j, _, rfl⟩ := List.mem_map.1 hpmem
    exact replicateTransaction_ok hc.node hp htimer j
  have hc' := hc.send hsend
  have hkeep : ∀ {t}, (∀ b, t = .resendPrepareOk b →
      Consensus cfg (past h (.replica s i) c) s tid) → ReplicaOk cfg s i (past h (.replica s i) c)
        (mapPending tid (fun req => { req with timer := some t }) c.state) := by
    intro t ht
    rw [mapPending_some hreq]
    exact hc.node.setPending (hp.setTimer (.inl htimer) ht)
  simp only [replicateTxn, wp_bind, wp_read, hreq, wp_deref_some, wp_sendMessageToAll, wp_ite,
    wp_erasePending]
  refine ⟨fun _ => ?_, fun _ => hc'.update (hc'.node.erasePending tid)⟩
  rcases ht : req.timer with _ | (b | b)
  · exact absurd ht htimer
  · exact hc'.update (hkeep (fun _ h => by cases h))
  · exact hc'.update (hkeep fun _ _ => hp.timer b ht)

theorem resendReplicateTxn_good (hc : ReplicaGood cfg s i h c)
    (hreq : c.state.pendingTxns.lookup tid = some req) (htimer : req.timer ≠ none) :
    wp (resendReplicateTxn ⟨cfg, s, i⟩ ω tid) (fun _ => ReplicaGood cfg s i h)
      (ReplicaGood cfg s i h) c := by
  simp only [resendReplicateTxn, wp_ite, wp_pure]
  exact ⟨fun _ => hc, fun _ => replicateTxn_good hc hreq htimer⟩

theorem invokeReplicateTxn_good (hmode : cfg.mode ≠ .rc) (hc : ReplicaGood cfg s i h c)
    {entry e : LogEntry} {txn : Transaction} {pre : Bool} (hi : i = cfg.leader s)
    (he : c.state.log.find entry.id = some e) (htxn : e.txn = entry.txn)
    (hactive : c.state.activeTxns.lookup entry.txn = some (some txn)) :
    wp (invokeReplicateTxn ⟨cfg, s, i⟩ ω entry pre) (fun _ => ReplicaGood cfg s i h)
      (ReplicaGood cfg s i h) c := by
  have hshape := (hc.node.active _ _ hactive).shape hi
  simp only [invokeReplicateTxn, wp_bind, wp_read]
  cases hreq : c.state.pendingTxns.lookup entry.txn with
  | none =>
      simp only [wp_bind, wp_derefActive, hactive, Option.some.injEq, forall_eq', reduceCtorEq,
        false_implies, and_true, wp_update, if_neg hmode]
      refine replicateTxn_good (hc.update (hc.node.setPending ⟨hi, rfl, rfl,
        .inr ⟨⟨e, he, htxn⟩, hshape⟩, (fun h => by cases h), (fun _ h => by cases h),
        (fun _ _ h => by cases h)⟩)) (AList.lookup_insert _) (by simp)
  | some req =>
      simp only [ne_eq, hmode, not_false_eq_true, true_and, wp_ite]
      refine ⟨fun _ => ?_, fun htimer => resendReplicateTxn_good hc hreq htimer⟩
      simp only [wp_bind, wp_derefActive, hactive, Option.some.injEq, forall_eq', reduceCtorEq,
        false_implies, and_true, wp_modifyPending, mapPending_some hreq]
      have hp := hc.node.pending _ _ hreq
      exact replicateTxn_good (hc.update (hc.node.setPending ⟨hi, hp.id, rfl,
        .inr ⟨⟨e, he, htxn⟩, hshape⟩, hp.consensus, (fun _ h => by cases h), hp.quorum⟩))
        (AList.lookup_insert _) (by simp)

/-- The entry in a `ReplicateTransaction`. -/
theorem entry_of_packet {r : Replica} (hlead : ReplicaOk cfg s (cfg.leader s) h r)
    {msg : ReplicateTransaction} {e : LogEntry}
    (he : (cfg.leaderNode s, Event.logged msg.txnLog.lsn e) ∈ h)
    (hsame : e.Same (Log.ofProto msg.txnLog)) :
    Entry cfg h s (Log.ofProto msg.txnLog) ∧ Accepted cfg h s msg.txnLog.txnId := by
  obtain ⟨hid, hentry⟩ := hlead.events _ he
  refine ⟨⟨⟨e, he, hsame⟩, ?_, ?_⟩, ⟨e.wset, ?_⟩, ⟨_, e, he, hsame.txn.symm⟩⟩
  · rw [hsame.txn, hsame.wset]
    exact hentry.validated
  · rw [hsame.txn, hsame.wset]
    exact hentry.piece
  · have htxn : msg.txnLog.txnId = e.txn := hsame.txn
    rw [htxn]
    exact hentry.validated

/-- The replica already has an entry under the number of the message: it is for the same
transaction, since both come from the log of the leader. -/
theorem loggedAt_of_found {r r' : Replica} (hlead : ReplicaOk cfg s (cfg.leader s) h r')
    (hr : ReplicaOk cfg s i h r) {msg : ReplicateTransaction} {e f : LogEntry}
    (he : (cfg.leaderNode s, Event.logged msg.txnLog.lsn e) ∈ h)
    (hsame : e.Same (Log.ofProto msg.txnLog)) (hf : r.log.find msg.txnLog.lsn = some f) :
    LoggedAt h s i msg.txnLog.txnId := by
  obtain ⟨_, f₀, hf₀, _⟩ := hr.log.own _ f hf
  obtain ⟨hid, hentry⟩ := hr.events _ hf₀
  obtain ⟨f₁, hf₁, hsame₁⟩ := hentry.logged
  rw [hid] at hf₁
  refine ⟨_, f₀, hf₀, ?_⟩
  calc f₀.txn = f₁.txn := hsame₁.txn
    _ = e.txn := hlead.logged_txn hf₁ he
    _ = msg.txnLog.txnId := hsame.txn.symm

/-- The reply and, in the parallel mode, the vote for a logged transaction. -/
theorem reply_good (hc : ReplicaGood cfg s i h c) {src : Addr} {msg : ReplicateTransaction}
    (hp : PacketOk cfg (past h (.replica s i) c) ⟨src, .replica s i, .replicateTransaction msg⟩)
    (hacc : Accepted cfg (past h (.replica s i) c) s msg.txnLog.txnId)
    (hlog : LoggedAt (past h (.replica s i) c) s i msg.txnLog.txnId)
    (hmem : Member (past h (.replica s i) c) msg.txnLog.txnId s) :
    (cfg.mode = .parallel → ReplicaGood cfg s i h { c with sent := c.sent ++ [⟨.replica s i, src,
      .replicateTransactionReply
        { lsn := msg.txnLog.lsn, term := 0, replicaId := i, txnId := msg.txnLog.txnId }⟩] ++
      [⟨.sendOnly, .coordinator i, .replicateReplyAndVote
        { tid := msg.txnLog.txnId
          shard := s
          replica := i
          vote := if msg.vote = .prepareOk then .prepared else .commit
          participants := msg.participants
          primaryShard := msg.primaryShard
          primaryCoordinator := msg.primaryCoordinator
          hasPreCommit := msg.hasPreCommit }⟩] }) ∧
    (¬ cfg.mode = .parallel → ReplicaGood cfg s i h { c with sent := c.sent ++ [⟨.replica s i, src,
      .replicateTransactionReply
        { lsn := msg.txnLog.lsn, term := 0, replicaId := i, txnId := msg.txnLog.txnId }⟩] }) := by
  obtain ⟨s', j, hsrc, hdst, hvote, _, hshape, hcoord⟩ := hp
  simp only [Addr.replica.injEq] at hdst
  obtain ⟨rfl, rfl⟩ := hdst
  have hreply : ReplicaGood cfg s i h { c with sent := c.sent ++ [⟨.replica s i, src,
      .replicateTransactionReply
        { lsn := msg.txnLog.lsn, term := 0, replicaId := i, txnId := msg.txnLog.txnId }⟩] } := by
    refine hc.send fun p hpmem => ?_
    rw [List.mem_singleton] at hpmem
    rw [hpmem]
    exact ⟨s, hsrc, hlog⟩
  refine ⟨fun hmode => hreply.send fun p hpmem => ?_, fun _ => hreply⟩
  rw [List.mem_singleton] at hpmem
  rw [hpmem]
  exact ⟨hmode, if_pos hvote, hacc, hlog, hmem, hshape, hcoord⟩

theorem handleReplicateTransaction_good {r' : Replica}
    (hlead : ReplicaOk cfg s (cfg.leader s) h r') {src : Addr} {r : Replica}
    (hr : ReplicaOk cfg s i h r) {msg : ReplicateTransaction}
    (hp : PacketOk cfg h ⟨src, .replica s i, .replicateTransaction msg⟩) :
    wp (handleReplicateTransaction ⟨cfg, s, i⟩ ω src msg) (fun _ => ReplicaGood cfg s i h)
      (ReplicaGood cfg s i h) { state := r } := by
  obtain ⟨s', j, hsrc, hdst', hvote, ⟨e, he, hsame⟩, hshape, hcoord⟩ := id hp
  simp only [Addr.replica.injEq] at hdst'
  obtain ⟨rfl, rfl⟩ := hdst'
  obtain ⟨hentry, hacc⟩ := entry_of_packet hlead he hsame
  have hmem : Member h msg.txnLog.txnId s := hentry.piece.member
  simp only [handleReplicateTransaction, wp_bind, wp_update, wp_read, wp_when, wp_emit,
    wp_withStore, wp_sendMessage, wp_sendMessageToCoordinator, Option.isNone_iff_eq_none,
    Option.isNone_eq_false_iff, decide_eq_true_eq, decide_eq_false_iff_not]
  constructor
  · intro hnone
    -- the leader has every entry it sent, so this is a follower
    have hi : i ≠ cfg.leader s := by
      rintro rfl
      obtain ⟨f, hf, _⟩ := hr.log.kept _ e he
      rw [hnone] at hf
      cases hf
    have hr₁ := ((hr.rest (max r.currentTs msg.txnLog.timestamp) r.inDependency r.store).addEntry
      (Log.find_addProto r.log msg.txnLog) hnone (fun hlead => absurd hlead hi)
      hentry.mono).setActive (t := msg.txnLog.txnId)
      (p := some { id := msg.txnLog.txnId, commitTs := ⟨msg.txnLog.timestamp, msg.replicaId⟩,
                   writeSet := Table.ofList msg.txnLog.wset, participants := msg.participants })
      fun txn htxn => ⟨fun h => absurd h hi, fun h => absurd h hi, fun _ => by cases htxn; rfl⟩
    refine reply_good (c := ⟨_, [], [_]⟩) ⟨hr₁.rest _ _ _, by simp⟩ hp.mono hacc.mono ?_ hmem.mono
    exact ⟨_, _, List.mem_append_right _ (List.mem_singleton.2 rfl), rfl⟩
  · intro hsome
    obtain ⟨f, hf⟩ := Option.isSome_iff_exists.1 hsome
    refine reply_good (c := ⟨_, [], []⟩) (Good.start (hr.rest _ _ _)) ?_ ?_ ?_ ?_
    all_goals simp only [past, List.map_nil, List.append_nil]
    · exact hp
    · exact hacc
    · exact loggedAt_of_found hlead hr he hsame hf
    · exact hmem

/-- The answer of the leader to the client of a transaction at consensus. -/
theorem prepareOk_ok {reply : PrepareTransactionReply} {src remote : Addr}
    (hremote : remote = .client tid s) (htid : reply.tid = tid) (hshard : reply.shard = s)
    (hcons : Consensus cfg h s tid) :
    PacketOk cfg h ⟨src, remote, .prepareTransactionReply reply⟩ := by
  subst htid hshard
  exact ⟨hremote, fun _ => .inr hcons⟩

theorem handleConsensus_good (hslow : cfg.mode ≠ .slow) (hc : ReplicaGood cfg s i h c)
    (hreq : c.state.pendingTxns.lookup tid = some req)
    (hcons : Consensus cfg (past h (.replica s i) c) s tid) :
    wp (handleConsensus ⟨cfg, s, i⟩ ω tid) (fun _ => ReplicaGood cfg s i h)
      (ReplicaGood cfg s i h) c := by
  have hp := hc.node.pending tid req hreq
  simp only [handleConsensus, wp_bind, wp_derefActive, wp_derefClient, wp_deref_some, wp_read,
    hreq, hslow, if_false, wp_ite, wp_pure, wp_sendMessage, wp_modifyPending, mapPending_some hreq,
    wp_erasePending, wp_eraseActive, wp_eraseClient]
  refine ⟨fun txn _ => ⟨fun _ => hc, fun hpre => ⟨fun remote hremote => ⟨fun _ => ?_, fun _ => ?_⟩,
    fun _ => hc, fun _ => hc.update (hc.node.nullClient tid)⟩⟩, fun _ => hc,
    fun _ => hc.update (hc.node.nullActive tid)⟩
  · refine (hc.send_one ?_).update (hc.node.setPending (hp.setTimer ?_ fun _ _ => hcons))
    · exact prepareOk_ok (hc.node.clients tid remote hremote) rfl rfl hcons
    by_cases hmode : cfg.mode = .parallel
    · have hflag : req.hasPreCommit = true := by
        cases hf : req.hasPreCommit with
        | true => rfl
        | false => exact absurd ⟨hmode, hf⟩ hpre
      exact .inr (.inl hflag)
    · exact .inr (.inr hmode)
  · have h₁ := hc.update (hc.node.erasePending tid)
    have h₂ := h₁.update (h₁.node.eraseActive tid)
    exact h₂.update (h₂.node.eraseClient tid)

/-- A table of replies, one of each replica that logged the transaction. -/
theorem quorum_of_table {msgs : Table ℕ ReplicateTransactionReply} {k : ℕ}
    (hmsgs : ∀ j m, msgs.lookup j = some m → LoggedAt h s j tid) (hk : k ≤ msgs.size) :
    Quorum h s tid k := by
  refine ⟨msgs.keys.toFinset, ?_, fun j hj => ?_⟩
  · rw [List.toFinset_card_of_nodup msgs.keys_nodup, ← Table.size_eq_keys_length]
    exact hk
  · have hmem : j ∈ msgs := AList.mem_keys.2 (List.mem_toFinset.1 hj)
    obtain ⟨m, hm⟩ := Option.isSome_iff_exists.1 (AList.lookup_isSome.2 hmem)
    exact hmsgs j m hm

theorem handleReplicateTransactionReply_good (hslow : cfg.mode ≠ .slow)
    (hc : ReplicaGood cfg s i h c) {src : Addr} {msg : ReplicateTransactionReply}
    (hp : PacketOk cfg (past h (.replica s i) c)
      ⟨src, .replica s i, .replicateTransactionReply msg⟩) :
    wp (handleReplicateTransactionReply ⟨cfg, s, i⟩ ω msg) (fun _ => ReplicaGood cfg s i h)
      (ReplicaGood cfg s i h) c := by
  obtain ⟨s', hdst, hlog⟩ := hp
  simp only [Addr.replica.injEq] at hdst
  obtain ⟨rfl, hi⟩ := hdst
  simp only [handleReplicateTransactionReply, wp_bind, wp_read]
  cases hreq : c.state.pendingTxns.lookup msg.txnId with
  | none => exact hc
  | some req =>
      have hpend := hc.node.pending _ req hreq
      simp only [wp_ite, wp_pure]
      refine ⟨fun _ => hc, fun hnew => ?_⟩
      -- every reply collected so far is backed by a log entry
      have hmsgs : ∀ j m, (((req.quorum.lookup msg.term).getD ∅).insert msg.replicaId msg).lookup j =
          some m → LoggedAt (past h (.replica s i) c) s j msg.txnId := by
        intro j m hj
        rw [Table.lookup_insert_eq] at hj
        split_ifs at hj with hjid
        · rw [hjid]
          exact hlog
        · cases hq : req.quorum.lookup msg.term with
          | none => rw [hq] at hj; cases hj
          | some old => rw [hq] at hj; exact hpend.quorum _ old hq j m hj
      have hpend' : PendingOk cfg s i (past h (.replica s i) c) c.state.log msg.txnId
          { req with
            quorum := req.quorum.insert msg.term
              (((req.quorum.lookup msg.term).getD ∅).insert msg.replicaId msg) } := by
        refine ⟨hpend.leader, hpend.id, hpend.majority, hpend.entry, hpend.consensus, hpend.timer,
          fun term msgs hterm => ?_⟩
        rw [Table.lookup_insert_eq] at hterm
        split_ifs at hterm with hid
        · cases hterm
          exact hmsgs
        · exact hpend.quorum term msgs hterm
      have hc₁ := hc.update (hc.node.setPending hpend')
      simp only [wp_bind, wp_modifyPending, mapPending_some hreq, wp_ite, wp_pure, wp_emit]
      refine ⟨fun hmaj => ?_, fun _ => hc₁⟩
      have hquorum : Quorum (past h (.replica s i) c) s msg.txnId cfg.quorumSize :=
        quorum_of_table hmsgs (hpend.majority ▸ hmaj)
      rw [mapPending_some (AList.lookup_insert _)]
      have hc₂ := hc₁.emit (fun _ _ _ => PacketOk.mono)
        (hc₁.node.emit (e := .consensus msg.txnId) (fun _ _ h => by cases h) hquorum.mono)
      have hcons : Consensus cfg (past h (.replica s i)
          { c with events := c.events ++ [.consensus msg.txnId] }) s msg.txnId := by
        rw [Consensus, Config.leaderNode, ← hi]
        exact mem_past_emit _
      have hpend₂ := hc₂.node.pending _ _ (AList.lookup_insert _)
      refine handleConsensus_good hslow (hc₂.update (hc₂.node.setPending ?_))
        (AList.lookup_insert _) hcons
      exact ⟨hpend₂.leader, hpend₂.id, hpend₂.majority, hpend₂.entry, fun _ => hcons, hpend₂.timer,
        hpend₂.quorum⟩

theorem resendPrepareOk_good (hslow : cfg.mode ≠ .slow) (hc : ReplicaGood cfg s i h c) {b : Bool}
    (hreq : c.state.pendingTxns.lookup tid = some req)
    (htimer : req.timer = some (.resendPrepareOk b)) :
    wp (resendPrepareOk ⟨cfg, s, i⟩ ω tid) (fun _ => ReplicaGood cfg s i h)
      (ReplicaGood cfg s i h) c := by
  have hp := hc.node.pending tid req hreq
  have hcons := hp.timer b htimer
  simp only [resendPrepareOk, wp_bind, wp_read, hreq, wp_derefActive, wp_derefClient, hslow,
    if_false, wp_when, wp_sendMessage, wp_modifyPending, mapPending_some hreq]
  refine ⟨fun txn _ => ⟨fun remote hremote => ⟨fun _ => ?_, fun _ => hc⟩, fun _ => hc,
    fun _ => hc.update (hc.node.nullClient tid)⟩, fun _ => hc,
    fun _ => hc.update (hc.node.nullActive tid)⟩
  refine (hc.send_one ?_).update (hc.node.setPending (hp.setTimer (.inl ?_) fun _ _ => hcons))
  · exact prepareOk_ok (hc.node.clients tid remote hremote) rfl rfl hcons
  · rw [htimer]
    intro h
    cases h

/-! ### The decision -/

/-- `CascadeAbort` records what it aborts; outside the parallel mode nothing was read from
the transaction, and its client has decided to abort. -/
theorem cascadeAbort_good {K : History → Prop} (hK : Stable K) (fuel : ℕ) :
    ∀ {c : Ctx Replica Addr Msg Event} {tid : TxnId}, ReplicaGood cfg s i h c →
      K (past h (.replica s i) c) →
      (cfg.mode ≠ .parallel → Decided (past h (.replica s i) c) tid false) →
      wp (cascadeAbort ⟨cfg, s, i⟩ fuel tid)
        (fun _ c' => ReplicaGood cfg s i h c' ∧ K (past h (.replica s i) c'))
        (ReplicaGood cfg s i h) c := by
  induction fuel generalizing K with
  | zero => exact fun hc _ _ => hc
  | succ fuel ih =>
      intro c tid hc hk hmode
      have hc₀ := hc.update (hc.node.rest c.state.currentTs c.state.inDependency
        (c.state.store.abort tid))
      have hc₁ := hc₀.emit (fun _ _ _ => PacketOk.mono)
        (hc₀.node.emit (e := .cascaded tid) (fun _ _ h => by cases h) fun hm => (hmode hm).mono)
      have hk₁ : K (past h (.replica s i) { c with events := c.events ++ [.cascaded tid] }) := by
        rw [past_emit]
        exact hK _ _ hk
      simp only [cascadeAbort, wp_bind, wp_withStore, wp_emit, wp_read]
      cases hreq : c.state.pendingTxns.lookup tid with
      | none => exact ⟨hc₁, hk₁⟩
      | some req =>
          simp only [wp_bind, wp_derefActive]
          refine ⟨fun txn htxn => ?_, fun _ => hc₁, fun _ => hc₁.update (hc₁.node.nullActive tid)⟩
          have hactive := hc₁.node.active tid txn htxn
          by_cases hpar : cfg.mode = .parallel
          · have hacc := hactive.accepted (hc₁.node.pending tid req hreq).leader
            have hK' : Stable fun h => K h ∧ Accepted cfg h s tid :=
              fun h es hh => ⟨hK h es hh.1, hh.2.mono⟩
            refine wp_mono (fun _ c' hc' => ⟨hc'.1, hc'.2.1⟩) (fun _ hd => hd) (wp_forM
              (I := fun c' => ReplicaGood cfg s i h c' ∧ (K (past h (.replica s i) c') ∧
                Accepted cfg (past h (.replica s i) c') s tid)) ?_ ⟨hc₁, hk₁, hacc⟩)
            intro out _ c' hc'
            simp only [wp_bind, wp_read]
            cases hout : c'.state.activeTxns.lookup out with
            | some ptr =>
                simp only [wp_bind, wp_sendMessageToCoordinators]
                refine wp_mono (fun _ c'' hc'' => ⟨hc''.1.send fun p hp => ?_, hc''.2⟩)
                  (fun _ hd => hd) (ih hK' hc'.1 hc'.2 fun hm => absurd hpar hm)
                obtain ⟨j, _, rfl⟩ := List.mem_map.1 hp
                exact ⟨hpar, rfl, rfl, hc''.2.2⟩
            | none => exact ⟨hc'.1.update (hc'.1.node.rest _ _ _), hc'.2⟩
          · rw [hactive.out hpar]
            exact ⟨hc₁, hk₁⟩

/-- Outside the parallel mode there is nobody to notify; in it the coordinators are. -/
theorem notifyForFollowingDependenies_good (hc : ReplicaGood cfg s i h c) :
    wp (notifyForFollowingDependenies ⟨cfg, s, i⟩ tid) (fun _ => ReplicaGood cfg s i h)
      (ReplicaGood cfg s i h) c := by
  simp only [notifyForFollowingDependenies, wp_bind, wp_read]
  cases hreq : c.state.pendingTxns.lookup tid with
  | none => exact hc
  | some req =>
      simp only [wp_bind, wp_derefActive]
      refine ⟨fun txn htxn => ?_, fun _ => hc, fun _ => hc.update (hc.node.nullActive tid)⟩
      by_cases hpar : cfg.mode = .parallel
      · refine wp_forM (fun out _ c' hc' => ?_) hc
        simp only [wp_bind, wp_read]
        cases hout : c'.state.activeTxns.lookup out with
        | some ptr =>
            cases ptr with
            | none => exact hc'
            | some outTxn =>
                have hact := hc'.node.active out outTxn hout
                have hc'' := hc'.update (hc'.node.setActive (t := out)
                  (p := some outTxn.decreaseIn) fun t ht => by
                    cases ht
                    exact ⟨hact.accepted, hact.shape, hact.out⟩)
                simp only [wp_bind, wp_deref_some, wp_modifyActive, mapActive_some hout, wp_when,
                  wp_sendMessageToCoordinator]
                exact ⟨fun _ => hc''.send_one hpar, fun _ => hc''⟩
        | none => exact hc'.update (hc'.node.rest _ _ _)
      · rw [(hc.node.active tid txn htxn).out hpar]
        exact hc

/-- The state of a commit message comes from the client or from an announcement. -/
def Justified (h : History) (msg : CommitMsg) : Prop :=
  (msg.state = .commit ∧ (Decided h msg.tid true ∨ Announced h msg.tid)) ∨
    (msg.state = .abort ∧ Decided h msg.tid false)

theorem Justified.mono {h es : History} {msg : CommitMsg} (hj : Justified h msg) :
    Justified (h ++ es) msg :=
  hj.imp (fun hj => ⟨hj.1, hj.2.imp Decided.mono Announced.mono⟩) fun hj => ⟨hj.1, hj.2.mono⟩

theorem notifyCommitToReplica_good (hc : ReplicaGood cfg s i h c) (msg : CommitMsg) :
    wp (notifyCommitToReplica ⟨cfg, s, i⟩ ω req msg)
      (fun _ c' => ReplicaGood cfg s i h c' ∧ c'.events = c.events)
      (ReplicaGood cfg s i h) c := by
  have hc₁ := hc.update (hc.node.setLog (Log.same_setStatus c.state.log req.tid msg.state))
  simp only [notifyCommitToReplica, wp_bind, wp_update, wp_ite, wp_sendMessageToAll, wp_when,
    wp_modifyPending]
  refine ⟨fun _ => wp_forM (I := fun c' => ReplicaGood cfg s i h c' ∧ c'.events = c.events)
    (fun p _ c' hc' => ⟨hc'.1.send_one trivial, hc'.2⟩) ⟨hc₁, rfl⟩, fun _ => ?_⟩
  have hc₂ : ReplicaGood cfg s i h _ := hc₁.send fun p (hp : p ∈ (List.range cfg.n).map fun j =>
      ⟨.replica s i, .replica s j, .replicateCommit
        { lsn := req.lsn, state := msg.state, tid := msg.tid, timestamp := msg.timestamp }⟩) => by
      obtain ⟨j, _, rfl⟩ := List.mem_map.1 hp
      trivial
  refine ⟨fun _ => ⟨hc₂.update (hc₂.node.mapPending fun req hreq => ?_), trivial⟩,
    fun _ => ⟨hc₂, trivial⟩⟩
  have hp := hc₂.node.pending _ req hreq
  exact ⟨hp.leader, hp.id, hp.majority, hp.entry, hp.consensus, hp.timer, hp.quorum⟩

theorem applyToStore_good (hc : ReplicaGood cfg s i h c) {msg : CommitMsg}
    (hj : Justified (past h (.replica s i) c) msg) :
    wp (applyToStore msg) (fun _ c' => ReplicaGood cfg s i h c' ∧
      Justified (past h (.replica s i) c') msg) (ReplicaGood cfg s i h) c := by
  have hc₀ := hc.update (hc.node.mapPending (t := msg.tid)
    (f := fun req => { req with reachCommitDecision := true }) fun req hreq => by
      have hp := hc.node.pending _ req hreq
      exact ⟨hp.leader, hp.id, hp.majority, hp.entry, hp.consensus, hp.timer, hp.quorum⟩)
  -- the store changes and the outcome is recorded
  have happly : ∀ {c' : Ctx Replica Addr Msg Event} (f : TxnStore → TxnStore),
      ReplicaGood cfg s i h c' → Justified (past h (.replica s i) c') msg →
      ReplicaGood cfg s i h { c' with
        state := { c'.state with store := f c'.state.store }
        events := c'.events ++ [.applied msg.tid msg.state msg.timestamp] } ∧
      Justified (past h (.replica s i)
        { c' with events := c'.events ++ [.applied msg.tid msg.state msg.timestamp] }) msg := by
    intro c' f hc' hj'
    have hc₁ := hc'.update (hc'.node.rest c'.state.currentTs c'.state.inDependency
      (f c'.state.store))
    refine ⟨hc₁.emit (fun _ _ _ => PacketOk.mono) (hc₁.node.emit (fun _ _ h => by cases h) hj'.mono), ?_⟩
    rw [past_emit]
    exact hj'.mono
  refine wp_applyToStore (I := fun z => ReplicaGood cfg s i h z ∧
    Justified (past h (.replica s i) z) msg) ⟨hc₀, hj⟩ ?_ ?_ ?_ (fun _ _ hz => hz.1)
    (fun _ _ _ hz => hz)
  · rintro z ⟨hz, hjz⟩ _
    exact ⟨hz.update (hz.node.nullActive msg.tid), hjz⟩
  · rintro hstate z ⟨hz, hjz⟩
    rw [← hstate]
    exact happly _ hz hjz
  · rintro hstate z ⟨hz, hjz⟩
    rw [← hstate]
    exact happly _ hz hjz

theorem settleDependents_good (hc : ReplicaGood cfg s i h c) {msg : CommitMsg}
    (hj : Justified (past h (.replica s i) c) msg) :
    wp (settleDependents ⟨cfg, s, i⟩ msg) (fun _ => ReplicaGood cfg s i h)
      (ReplicaGood cfg s i h) c := by
  simp only [settleDependents, wp_ite, wp_bind, wp_read]
  refine ⟨fun _ => notifyForFollowingDependenies_good hc, fun hcode => ?_⟩
  refine wp_mono (fun _ c' hc' => hc'.1) (fun _ hd => hd)
    (cascadeAbort_good (K := fun _ => True) (fun _ _ _ => trivial) _ hc trivial fun _ => ?_)
  rcases hj with ⟨hst, _⟩ | ⟨_, hdec⟩
  · rw [hst] at hcode
    exact absurd rfl hcode
  · exact hdec

theorem retire_good (hc : ReplicaGood cfg s i h c) {msg : CommitMsg} {txn : Option Transaction}
    (hstate : msg.state = .commit ∨ msg.state = .abort) :
    wp (retire ⟨cfg, s, i⟩ msg txn) (fun _ => ReplicaGood cfg s i h)
      (ReplicaGood cfg s i h) c := by
  have h₁ := hc.update (hc.node.erasePending msg.tid)
  have h₂ := h₁.update (h₁.node.eraseActive msg.tid)
  have h₃ := h₂.update (h₂.node.setCommitted (t := msg.tid) (x := (msg.state, msg.timestamp))
    hstate)
  simp only [retire, wp_bind, wp_erasePending, wp_when, wp_deref, wp_pure, wp_eraseActive,
    wp_update]
  exact ⟨fun _ => ⟨fun _ _ => h₃, fun _ => h₁⟩, fun _ => h₃⟩

theorem carryOut_good (hc : ReplicaGood cfg s i h c) {msg : CommitMsg}
    (hj : Justified (past h (.replica s i) c) msg) :
    wp (carryOut ⟨cfg, s, i⟩ ω msg req) (fun _ c' => ReplicaGood cfg s i h c' ∧
      Justified (past h (.replica s i) c') msg) (ReplicaGood cfg s i h) c := by
  have happly : ∀ {c' : Ctx Replica Addr Msg Event}, ReplicaGood cfg s i h c' →
      Justified (past h (.replica s i) c') msg →
      wp (when (!req.reachCommitDecision) (applyToStore msg))
        (fun _ c'' => ReplicaGood cfg s i h c'' ∧ Justified (past h (.replica s i) c'') msg)
        (ReplicaGood cfg s i h) c' := by
    intro c' hc' hj'
    rw [wp_when]
    exact ⟨fun _ => applyToStore_good hc' hj', fun _ => ⟨hc', hj'⟩⟩
  rw [carryOut, wp_bind, wp_when]
  refine ⟨fun _ => ?_, fun _ => happly hc hj⟩
  refine wp_mono (fun _ c' hc' => happly hc'.1 ?_) (fun _ hd => hd)
    (notifyCommitToReplica_good hc msg)
  simp only [past, hc'.2]
  exact hj

theorem commitPending_good (hc : ReplicaGood cfg s i h c) {msg : CommitMsg}
    (hj : Justified (past h (.replica s i) c) msg) :
    wp (commitPending ⟨cfg, s, i⟩ ω msg req) (fun _ => ReplicaGood cfg s i h)
      (ReplicaGood cfg s i h) c := by
  have hstate : msg.state = .commit ∨ msg.state = .abort := hj.imp And.left And.left
  have hend : ∀ {c' : Ctx Replica Addr Msg Event} (ptr : Option Transaction),
      ReplicaGood cfg s i h c' → Justified (past h (.replica s i) c') msg →
      wp (settleDependents ⟨cfg, s, i⟩ msg) (fun _ c'' => wp (retire ⟨cfg, s, i⟩ msg ptr)
        (fun _ => ReplicaGood cfg s i h) (ReplicaGood cfg s i h) c'') (ReplicaGood cfg s i h) c' :=
    fun ptr hc' hj' => wp_mono (fun _ _ hc'' => retire_good hc'' hstate) (fun _ hd => hd)
      (settleDependents_good hc' hj')
  simp only [commitPending, wp_ite, wp_bind, wp_erasePending, wp_read, wp_deref, wp_update,
    wp_activePtr]
  refine ⟨fun _ => hc.update (hc.node.erasePending msg.tid), fun _ => ⟨fun e _ => ?_,
    fun _ => hc⟩⟩
  have hc₁ := hc.update (hc.node.setLog (Log.same_setTs c.state.log req.lsn msg.timestamp))
  refine wp_mono (fun _ c' hc' => ⟨fun ptr _ => hend ptr hc'.1 hc'.2, fun _ => ?_⟩)
    (fun _ hd => hd) (carryOut_good hc₁ hj)
  exact hend none (hc'.1.update (hc'.1.node.nullActive msg.tid)) hc'.2

theorem handleCommit_good (hc : ReplicaGood cfg s i h c) {msg : CommitMsg}
    (hj : Justified (past h (.replica s i) c) msg) :
    wp (handleCommit ⟨cfg, s, i⟩ ω msg) (fun _ => ReplicaGood cfg s i h)
      (ReplicaGood cfg s i h) c := by
  simp only [handleCommit, wp_bind, wp_read]
  cases hreq : c.state.pendingTxns.lookup msg.tid with
  | none => exact hc
  | some req =>
      simp only [wp_bind, wp_update, wp_eraseClient]
      exact wp_mono (fun _ c' hc' => hc'.update (hc'.node.eraseClient msg.tid)) (fun _ hd => hd)
        (commitPending_good (hc.update (hc.node.rest _ _ _)) hj)

/-- A follower only changes its store and its active transactions. -/
theorem handleReplicateCommit_good (hc : ReplicaGood cfg s i h c) (msg : ReplicateCommit) :
    wp (handleReplicateCommit ⟨cfg, s, i⟩ msg) (fun _ => ReplicaGood cfg s i h)
      (ReplicaGood cfg s i h) c := by
  refine wp_handleReplicateCommit (I := ReplicaGood cfg s i h) (fun _ => hc)
    (fun _ => hc.update (hc.node.setLog (Log.same_setStatus c.state.log msg.lsn msg.state)))
    (fun _ _ => hc) (fun z hz _ => hz.update (hz.node.nullActive msg.tid)) (fun _ hz => hz) ?_
  intro z st hz _
  have hrest := hz.update (hz.node.rest z.state.currentTs z.state.inDependency st)
  exact hrest.update (hrest.node.eraseActive msg.tid)

/-! ### Reads -/

theorem readKey_good (hc : ReplicaGood cfg s i h c) (key : Key) :
    wp (readKey ⟨cfg, s, i⟩ tid key) (fun _ => ReplicaGood cfg s i h)
      (ReplicaGood cfg s i h) c := by
  simp only [readKey, wp_bind, wp_read, wp_ite, wp_pure, wp_activePtr]
  refine ⟨fun _ => ⟨fun hpar => ⟨fun p hp => ?_, fun _ => hc.update (hc.node.nullActive _)⟩,
    fun _ => hc⟩, fun _ => hc⟩
  cases p with
  | none => exact hc
  | some dependent =>
      have hact := hc.node.active _ dependent hp
      have hc₁ := hc.update (hc.node.setActive (t := _) (p := some (dependent.addOut tid))
        fun txn htxn => by
          cases htxn
          exact ⟨hact.accepted, hact.shape, fun hm => absurd hpar.1 hm⟩)
      have hc₂ := hc₁.update (hc₁.node.rest c.state.currentTs
        (c.state.inDependency.insert tid ((c.state.inDependency.lookup tid).getD 0 + 1))
        c.state.store)
      simp only [wp_bind, wp_modifyActive, mapActive_some hp, wp_update]
      cases dependent.writeSet.lookup key with
      | none => exact hc₂
      | some value =>
          exact hc₂.emit (fun _ _ _ => PacketOk.mono) (hc₂.node.emit (fun _ _ h => by cases h) trivial)

theorem readKeys_good (keys : List Key) : ∀ {c : Ctx Replica Addr Msg Event},
    ReplicaGood cfg s i h c → wp (readKeys ⟨cfg, s, i⟩ tid keys) (fun _ => ReplicaGood cfg s i h)
      (ReplicaGood cfg s i h) c := by
  induction keys with
  | nil => exact fun hc => hc
  | cons key keys ih =>
      intro c hc
      simp only [readKeys, wp_bind]
      refine wp_mono (fun v c' hc' => ?_) (fun _ hd => hd) (readKey_good hc key)
      cases v with
      | none => exact hc'
      | some v =>
          rw [wp_bind]
          exact wp_mono (fun _ _ hc'' => hc'') (fun _ hd => hd) (ih hc')

theorem handleRead_good (hc : ReplicaGood cfg s i h c) (remote : Addr) (msg : GetData) :
    wp (handleRead ⟨cfg, s, i⟩ remote msg) (fun _ => ReplicaGood cfg s i h)
      (ReplicaGood cfg s i h) c := by
  simp only [handleRead, wp_bind]
  exact wp_mono (fun _ c' hc' => hc'.send_one trivial) (fun _ hd => hd) (readKeys_good msg.keys hc)

/-! ### The parallel mode -/

theorem handleDecisionFromCoordinatorReplica_good (hpar : cfg.mode = .parallel)
    (hc : ReplicaGood cfg s i h c) (msg : NotifyDecision) :
    wp (handleDecisionFromCoordinatorReplica ⟨cfg, s, i⟩ msg) (fun _ => ReplicaGood cfg s i h)
      (ReplicaGood cfg s i h) c := by
  have htail : ∀ {c' : Ctx Replica Addr Msg Event}, ReplicaGood cfg s i h c' →
      wp (touchActive msg.tid) (fun _ c'' => ReplicaGood cfg s i h { c'' with
        state := { c''.state with
          committedTxns := c''.state.committedTxns.insert msg.tid (.commit, msg.timestamp) } })
        (ReplicaGood cfg s i h) c' := by
    intro c' hc'
    have hdone := hc'.update (hc'.node.setCommitted (t := msg.tid)
      (x := (.commit, msg.timestamp)) (.inl rfl))
    simp only [touchActive, wp_bind, wp_read]
    cases c'.state.activeTxns.lookup msg.tid with
    | none => exact hdone
    | some ptr =>
        simp only [wp_bind, wp_deref, wp_pure]
        exact ⟨fun _ _ => hdone, fun _ => hc'⟩
  simp only [handleDecisionFromCoordinatorReplica, wp_bind, wp_read]
  cases hreq : c.state.pendingTxns.lookup msg.tid with
  | none => exact hc
  | some req =>
      simp only [wp_bind, wp_update, endConcurrencyControl, wp_ite, wp_withStore, wp_read,
        wp_erasePending]
      refine ⟨fun _ => htail (hc.update (hc.node.rest _ _ _)), fun _ => ?_⟩
      refine wp_mono (fun _ c' hc' => htail (hc'.1.update (hc'.1.node.erasePending msg.tid)))
        (fun _ hd => hd) (cascadeAbort_good (K := fun _ => True) (fun _ _ _ => trivial) _ hc trivial
          fun hm => absurd hpar hm)

theorem handleReplicateResultFromCoordinatorReplica_good (hc : ReplicaGood cfg s i h c)
    {msg : NotifyReplicateResult} (hann : Announced (past h (.replica s i) c) msg.tid) :
    wp (handleReplicateResultFromCoordinatorReplica ⟨cfg, s, i⟩ ω msg)
      (fun _ => ReplicaGood cfg s i h) (ReplicaGood cfg s i h) c := by
  have hj : Justified (past h (.replica s i) c)
      { tid := msg.tid, state := .commit, timestamp := msg.timestamp } := .inl ⟨rfl, .inr hann⟩
  simp only [handleReplicateResultFromCoordinatorReplica, wp_bind, handleParallelCommitResult,
    wp_read]
  cases hreq : c.state.pendingTxns.lookup msg.tid with
  | none => exact handleCommit_good hc hj
  | some req =>
      simp only [wp_bind, wp_derefClient, wp_sendMessage, wp_eraseClient]
      refine ⟨fun a ha => ?_, fun _ => hc, fun _ => hc.update (hc.node.nullClient msg.tid)⟩
      have hc₁ := hc.send_one (p := ⟨.replica s i, a, .parallelModeCommitReply
        { tid := msg.tid, state := .commit, timestamp := msg.timestamp }⟩) ⟨rfl, hann⟩
      exact handleCommit_good (hc₁.update (hc₁.node.eraseClient msg.tid)) hj

theorem handleParallelModeCommit_good (hc : ReplicaGood cfg s i h c) {src : Addr}
    {msg : ParallelModeCommit}
    (hp : PacketOk cfg (past h (.replica s i) c) ⟨src, .replica s i, .parallelModeCommit msg⟩) :
    wp (handleParallelModeCommit ⟨cfg, s, i⟩ ω src msg) (fun _ => ReplicaGood cfg s i h)
      (ReplicaGood cfg s i h) c := by
  obtain ⟨hpar, s', hsrc, hdst, hshape⟩ := hp
  simp only [Addr.replica.injEq] at hdst
  obtain ⟨rfl, hi⟩ := hdst
  simp only [handleParallelModeCommit, wp_bind, wp_read]
  cases hreq : c.state.pendingTxns.lookup msg.tid with
  | none =>
      simp only [wp_bind, wp_update, wp_sendMessageToCoordinator]
      have hc₁ := hc.update (hc.node.setPending (t := msg.tid)
        (q := placeholder ⟨cfg, s, i⟩ ω msg.tid)
        ⟨hi, rfl, rfl, .inl ⟨hpar, rfl, rfl⟩, (fun h => by cases h), (fun _ h => by cases h),
          fun _ _ h => by cases h⟩)
      have hc₂ := hc₁.update (hc₁.node.setClient (t := msg.tid) (p := some src) fun a ha => by
        cases ha
        exact hsrc)
      exact hc₂.send_one ⟨hpar, i, s, rfl, hi, hshape⟩
  | some req =>
      simp only [wp_modifyPending, mapPending_some hreq]
      have hpend := hc.node.pending _ req hreq
      exact hc.update (hc.node.setPending ⟨hpend.leader, hpend.id, hpend.majority, hpend.entry,
        hpend.consensus, hpend.timer, hpend.quorum⟩)

/-! ### Prepare -/

/-- Nothing is pending at a primary shard in the direct modes. -/
theorem handlePrepareTransactionReply_good (hc : ReplicaGood cfg s i h c)
    (msg : PrepareTransactionReply) :
    wp (handlePrepareTransactionReply ⟨cfg, s, i⟩ ω msg) (fun _ => ReplicaGood cfg s i h)
      (ReplicaGood cfg s i h) c := by
  simp only [handlePrepareTransactionReply, wp_bind, wp_read, hc.node.prepares]
  exact hc

/-- **A new entry.** The leader logs a transaction that it has validated. -/
theorem logPrepare_good (hmode : cfg.mode ≠ .rc) (hc : ReplicaGood cfg s i h c)
    {src : Addr} {txn : Transaction} (hi : i = cfg.leader s) (hsrc : src = .client txn.id s)
    (hval : (Node.replica s i, Event.validated txn.id txn.writeSet) ∈ past h (.replica s i) c)
    (hshape : Shape (past h (.replica s i) c) txn.id txn.participants txn.primaryShard)
    (hpiece : Piece (past h (.replica s i) c) txn.id s txn.writeSet) (hout : txn.out = []) :
    wp (logPrepare ⟨cfg, s, i⟩ ω src txn) (fun _ => ReplicaGood cfg s i h)
      (ReplicaGood cfg s i h) c := by
  have hnode : cfg.leaderNode s = .replica s i := by rw [Config.leaderNode, hi]
  have hnew : c.state.log.find c.state.log.last = none := by
    cases hf : c.state.log.find c.state.log.last with
    | none => rfl
    | some e => exact absurd (hc.node.log.last hi _ e hf) (lt_irrefl _)
  obtain ⟨entry, hentry⟩ : ∃ entry : LogEntry,
      entry = ⟨0, c.state.log.last, txn.id, txn.commitTs.timestamp, .prepareOk, txn.writeSet⟩ :=
    ⟨_, rfl⟩
  have hlogged : (Node.replica s i, Event.logged entry.id entry) ∈
      past h (.replica s i) c ++ [(.replica s i, .logged entry.id entry)] :=
    List.mem_append_right _ (List.mem_singleton.2 rfl)
  have hadd := hc.node.addEntry (e := entry) (m := (c.state.log.add 0 txn.id txn.writeSet
    .prepareOk txn.commitTs.timestamp).2) (fun lsn => by rw [Log.find_add, hentry])
    (by rw [hentry]; exact hnew)
    (fun _ => by rw [hentry]; exact ⟨Nat.le_succ _, Nat.lt_succ_self _⟩)
    ⟨⟨entry, by rw [hnode]; exact hlogged, .refl entry⟩, by
      rw [hnode, hentry]
      exact mem_mono hval, by rw [hentry]; exact hpiece.mono⟩
  have hacc : Accepted cfg (past h (.replica s i) c ++ [(.replica s i, .logged entry.id entry)]) s
      txn.id := by
    refine ⟨⟨txn.writeSet, by rw [hnode]; exact mem_mono hval⟩, entry.id, entry, ?_, ?_⟩
    · rw [← hi]
      exact hlogged
    · rw [hentry]
  have hactive := (hadd.setClient (t := txn.id) (p := some src) fun a ha => by
    cases ha
    exact hsrc).setActive (t := txn.id) (p := some txn) fun t ht => by
      cases ht
      exact ⟨fun _ => hacc, fun _ => hshape.mono, fun _ => hout⟩
  simp only [logPrepare, wp_bind, wp_update, wp_read, wp_emit, Log.add]
  subst hentry
  exact invokeReplicateTxn_good hmode (hc.record (fun _ _ _ => PacketOk.mono) hactive) hi
    (AList.lookup_insert _) rfl (show _ = some (some txn) from AList.lookup_insert _)

theorem acceptPrepare_good (hmode : cfg.mode ≠ .rc) (hc : ReplicaGood cfg s i h c)
    {src : Addr} {txn : Transaction} (hsrc : src = .client txn.id s)
    (hval : i = cfg.leader s →
      (Node.replica s i, Event.validated txn.id txn.writeSet) ∈ past h (.replica s i) c)
    (hshape : Shape (past h (.replica s i) c) txn.id txn.participants txn.primaryShard)
    (hpiece : Piece (past h (.replica s i) c) txn.id s txn.writeSet) (hout : txn.out = []) :
    wp (acceptPrepare ⟨cfg, s, i⟩ ω src txn) (fun _ => ReplicaGood cfg s i h)
      (ReplicaGood cfg s i h) c := by
  have htail : ∀ {c' : Ctx Replica Addr Msg Event}, ReplicaGood cfg s i h c' →
      c'.events = c.events →
      wp (when (ReplicaEnv.isLeader ⟨cfg, s, i⟩) (logPrepare ⟨cfg, s, i⟩ ω src txn))
        (fun _ => ReplicaGood cfg s i h) (ReplicaGood cfg s i h) c' := by
    intro c' hc' hev
    have hpast : past h (.replica s i) c' = past h (.replica s i) c := by rw [past, past, hev]
    simp only [wp_when, ReplicaEnv.isLeader, decide_eq_true_eq, decide_eq_false_iff_not]
    refine ⟨fun hi => logPrepare_good hmode hc' hi hsrc ?_ ?_ ?_ hout, fun _ => hc'⟩
    · rw [hpast]; exact hval hi
    · rw [hpast]; exact hshape
    · rw [hpast]; exact hpiece
  simp only [acceptPrepare, hmode, false_and, if_false, wp_bind, decide_false]
  rw [wp_when]
  refine ⟨(fun h => by cases h), fun _ => ?_⟩
  rw [wp_when, wp_sendMessage]
  refine ⟨fun hcar => htail (hc.send_one ⟨hsrc, fun _ => .inl ?_⟩) rfl, fun _ => htail hc rfl⟩
  exact of_decide_eq_true hcar

theorem acceptChecked_good (hmode : cfg.mode ≠ .rc) (hc : ReplicaGood cfg s i h c)
    {src : Addr} {txn : Transaction} {doCheck : Bool} (hsrc : src = .client txn.id s)
    (hcheck : i = cfg.leader s → doCheck = true)
    (hshape : Shape (past h (.replica s i) c) txn.id txn.participants txn.primaryShard)
    (hpiece : Piece (past h (.replica s i) c) txn.id s txn.writeSet) (hout : txn.out = []) :
    wp (acceptChecked ⟨cfg, s, i⟩ ω src txn doCheck) (fun _ => ReplicaGood cfg s i h)
      (ReplicaGood cfg s i h) c := by
  simp only [acceptChecked, wp_bind, wp_when, wp_emit]
  refine ⟨fun _ => ?_, fun hno => ?_⟩
  · refine acceptPrepare_good hmode (hc.emit (fun _ _ _ => PacketOk.mono)
      (hc.node.emit (e := .validated txn.id txn.writeSet) (fun _ _ h => by cases h) hpiece.mono))
      hsrc (fun _ => mem_past_emit _) ?_ ?_ hout
    · rw [past_emit]; exact hshape.mono
    · rw [past_emit]; exact hpiece.mono
  · refine acceptPrepare_good hmode hc hsrc (fun hi => ?_) hshape hpiece hout
    rw [hcheck hi] at hno
    cases hno

theorem prepareNew_good (hmode : cfg.mode ≠ .rc) (hc : ReplicaGood cfg s i h c) {src : Addr}
    {msg : PrepareTransaction} (hsrc : src = .client msg.tid s)
    (hshape : Shape (past h (.replica s i) c) msg.tid msg.participants msg.primaryShard)
    (hpiece : Piece (past h (.replica s i) c) msg.tid s (Table.ofList msg.wset)) :
    wp (prepareNew ⟨cfg, s, i⟩ ω src msg) (fun _ => ReplicaGood cfg s i h)
      (ReplicaGood cfg s i h) c := by
  simp only [prepareNew, wp_bind, wp_update, wp_read, wp_withStore, wp_ite, refusePrepare,
    wp_sendMessage]
  have hc₁ := fun ts deps st => hc.update (hc.node.rest ts deps st)
  refine ⟨fun _ => (hc₁ _ _ _).send_one ⟨hsrc, fun h => by cases h⟩, fun _ => ?_⟩
  refine acceptChecked_good hmode (hc₁ _ _ _) hsrc (fun hi => ?_) hshape hpiece rfl
  simp [ReplicaEnv.isLeader, hi]

theorem handlePrepareTxn_good (hdir : cfg.Direct) (hc : ReplicaGood cfg s i h c) {src : Addr}
    {msg : PrepareTransaction}
    (hp : PacketOk cfg (past h (.replica s i) c) ⟨src, .replica s i, .prepareTransaction msg⟩) :
    wp (handlePrepareTxn ⟨cfg, s, i⟩ ω src msg) (fun _ => ReplicaGood cfg s i h)
      (ReplicaGood cfg s i h) c := by
  obtain ⟨hslow, hrc, s', j, hsrc, hdst, _, hpiece, hshape⟩ := hp
  simp only [Addr.replica.injEq] at hdst
  obtain ⟨rfl, rfl⟩ := hdst
  have hmode : cfg.mode ≠ .rc := by rcases hdir with hm | hm | hm <;> rw [hm] <;> decide
  have hmode' : cfg.mode ≠ .slow := by rcases hdir with hm | hm | hm <;> rw [hm] <;> decide
  simp only [handlePrepareTxn, wp_bind, wp_read, hslow, hrc, or_self, false_and, if_false, wp_ite,
    wp_update, answerPrepare, hmode']
  refine ⟨fun _ => hc.update (hc.node.rest _ _ _), fun _ => ?_⟩
  cases hcom : c.state.committedTxns.lookup msg.tid with
  | some x =>
      refine hc.send_one ⟨hsrc, fun hst => ?_⟩
      rcases hc.node.committed _ x hcom with hx | hx <;> rw [hx] at hst <;> cases hst
  | none =>
      simp only [wp_bind, wp_read]
      cases hreq : c.state.pendingTxns.lookup msg.tid with
      | none => exact prepareNew_good hmode hc hsrc hshape hpiece
      | some req =>
          simp only [wp_ite, wp_bind, wp_derefActive, wp_sendMessage]
          refine ⟨fun hcons => ⟨fun txn _ => hc.send_one ⟨hsrc, fun _ => .inr ?_⟩, fun _ => hc,
            fun _ => hc.update (hc.node.nullActive msg.tid)⟩, fun _ =>
            prepareNew_good hmode hc hsrc hshape hpiece⟩
          exact (hc.node.pending _ req hreq).consensus hcons

/-! ### Dispatch -/

theorem handleTimer_good (hslow : cfg.mode ≠ .slow) (hc : ReplicaGood cfg s i h c) (t : Timer) :
    wp (handleTimer ⟨cfg, s, i⟩ ω t) (fun _ => ReplicaGood cfg s i h)
      (ReplicaGood cfg s i h) c := by
  cases t with
  | pendingTxn tid =>
      simp only [handleTimer, wp_bind, wp_read]
      cases hreq : c.state.pendingTxns.lookup tid with
      | none => exact hc
      | some req =>
          rcases ht : req.timer with _ | (_ | _) | (_ | _) <;> simp only [ht]
          · exact hc
          · exact hc
          · exact resendReplicateTxn_good hc hreq (by rw [ht]; intro h; cases h)
          · exact hc
          · exact resendPrepareOk_good hslow hc hreq ht
  | pendingPrepare tid =>
      simp only [handleTimer, wp_bind, wp_read, hc.node.prepares]
      exact hc

/-- **A step of a replica** keeps the invariant. -/
theorem handleInput_good (hdir : cfg.Direct) {r r' : Replica}
    (hlead : ReplicaOk cfg s (cfg.leader s) h r') (hr : ReplicaOk cfg s i h r)
    {input : Input Addr Msg Act}
    (hp : ∀ p, input = .recv p → PacketOk cfg h p ∧ p.dst = .replica s i) :
    wp (handleInput ⟨cfg, s, i⟩ ω input) (fun _ => ReplicaGood cfg s i h)
      (ReplicaGood cfg s i h) { state := r } := by
  have hslow : cfg.mode ≠ .slow := by rcases hdir with hm | hm | hm <;> rw [hm] <;> decide
  have hc : ReplicaGood cfg s i h { state := r } := Good.start hr
  have hpast : past h (.replica s i) ({ state := r } : Ctx Replica Addr Msg Event) = h := by
    simp [past]
  cases input with
  | act a =>
      cases a with
      | client a => exact hc
      | timer t => exact handleTimer_good hslow hc t
  | recv p =>
      obtain ⟨hok, hdst⟩ := hp p rfl
      obtain ⟨src, dst, msg⟩ := p
      obtain rfl : dst = .replica s i := hdst
      rw [← hpast] at hok
      cases msg with
      | prepareTransaction m => exact handlePrepareTxn_good hdir hc hok
      | prepareTransactionReply m => exact handlePrepareTransactionReply_good hc m
      | replicateTransaction m =>
          rw [hpast] at hok
          exact handleReplicateTransaction_good hlead hr hok
      | replicateTransactionReply m => exact handleReplicateTransactionReply_good hslow hc hok
      | replicateCommit m => exact handleReplicateCommit_good hc m
      | parallelModeCommit m => exact handleParallelModeCommit_good hc hok
      | commit m =>
          exact handleCommit_good hc (hok.imp (fun hd => ⟨hd.1, .inl hd.2⟩) fun hd => hd)
      | getData m => exact handleRead_good hc src m
      | notifyDecision m => exact handleDecisionFromCoordinatorReplica_good hok.1 hc m
      | notifyReplicateResult m =>
          exact handleReplicateResultFromCoordinatorReplica_good hc hok.2
      | getDataReply m => exact hc
      | parallelModeCommitReply m => exact hc
      | replicateReplyAndVote m => exact hc
      | bypassLeaderReply m => exact hc
      | bypassLeaderReplyUnion m => exact hc
      | notifyDependenciesAreCleared m => exact hc
      | replicateDecision m => exact hc
      | replyDecision m => exact hc
      | vote m => exact hc
      | notifyDecisionToPrimary m => exact hc
      | requestCommitResult m => exact hc

end Replica

end D2PC
