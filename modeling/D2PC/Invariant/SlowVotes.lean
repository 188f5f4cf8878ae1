import D2PC.Invariant.Gathering
import D2PC.Invariant.Votes
import D2PC.Properties.Retransmission

/-!
# The replicas in the slow mode

A leader that reported `LOG_STATE_PREPAREOK` to the primary shard has the transaction pending at
consensus until it forgets it with an outcome, and only the leader of the primary shard, in a round
of the participants, answers the client. Nobody speaks to a coordinator.

* `Replica.Voted` : pending at consensus, or decided;
* `Replica.Plain` : what holds of a replica between its steps;
* `Replica.Steady` : what holds within a step, of the state, the packets and the events;
* `Replica.handleInput_steady` : every step.
-/

namespace D2PC

open Prog Ctx

namespace Replica

/-! ### The invariant -/

/-- The transaction is pending at consensus, or decided. -/
def Voted (r : Replica) (tid : TxnId) : Prop :=
  (∃ req, r.pendingTxns.lookup tid = some req ∧ req.reachConsensus = true) ∨ tid ∈ r.committedTxns

/-- **Between the steps** of a replica in the slow mode: no transaction reads the writes of
another, pending ones are those of a leader that takes part, and an open round is one of the
participants (`member`) or answers nobody. -/
structure Plain (env : ReplicaEnv) (member : TxnId → Prop) (r : Replica) : Prop where
  alone : ∀ tid txn, r.activeTxns.lookup tid = some (some txn) → txn.out = []
  leads : ∀ tid req, r.pendingTxns.lookup tid = some req →
    env.isLeader = true ∧ req.isParticipant = true
  timed : ∀ tid req b, r.pendingTxns.lookup tid = some req →
    req.timer = some (.resendReplicateTxn b) → req.reachConsensus = false
  opened : ∀ tid req, r.pendingPrepares.lookup tid = some req → env.isLeader = true ∧
    req.tid = tid ∧ ((member tid ∧ env.shardId ∈ req.participants) ∨
      r.prepareClientList.lookup tid = some (some .sendOnly))
  own : ∀ tid req, r.pendingPrepares.lookup tid = some req →
    req.participantReplies.lookup env.shardId = some .prepareOk → r.Voted tid
  askers : ∀ tid a, r.prepareClientList.lookup tid = some (some a) →
    a = .sendOnly ∨ ∃ t s, a = .client t s

/-- What a replica sends in the slow mode. A client is told that its transaction is prepared where
`fin` holds. -/
def Said (env : ReplicaEnv) (member fin : TxnId → Prop) (p : Pkt) : Prop :=
  (∀ c, p.src ≠ .coordinator c) ∧ (∀ c, p.dst ≠ .coordinator c) ∧
    match p.msg with
    | .prepareTransaction _ => ∃ q, p.dst = .replica q (env.cfg.leader q)
    | .prepareTransactionReply m => m.state = .prepareOk →
        (∀ t s, p.dst = .client t s → env.isLeader = true ∧ member m.tid ∧ fin m.tid) ∧
        ∀ s i, p.dst = .replica s i → m.shard = env.shardId ∧ env.isLeader = true
    | _ => True

/-- What holds even of a replica that died. -/
structure Weak (env : ReplicaEnv) (member fin k : TxnId → Prop)
    (x : Ctx Replica Addr Msg Event) : Prop where
  sent : ∀ p ∈ x.sent, Said env member fin p
  applied : ∀ tid ts, .applied tid .commit ts ∈ x.events → k tid
  decided : ∀ tid, fin tid → .finalDecision tid ∈ x.events

/-- **Within a step** that began in `r₀`: who voted stays so, votes are those of transactions at
consensus, and what is decided is aborted in the store or has the reason `k`. -/
structure Steady (env : ReplicaEnv) (member : TxnId → Prop) (r₀ : Replica) (fin k : TxnId → Prop)
    (x : Ctx Replica Addr Msg Event) : Prop extends Weak env member fin k x where
  plain : Plain env member x.state
  kept : ∀ tid, Voted r₀ tid → x.state.Voted tid
  backed : ∀ p ∈ x.sent, ∀ m s i, p.msg = .prepareTransactionReply m → m.state = .prepareOk →
    p.dst = .replica s i → x.state.Voted m.tid
  done : ∀ tid ∈ x.state.committedTxns,
    tid ∈ r₀.committedTxns ∨ .cascaded tid ∈ x.events ∨ k tid

variable {env : ReplicaEnv} {member fin fin' k : TxnId → Prop} {r r' r₀ : Replica} {ω : Choice}
  {x : Ctx Replica Addr Msg Event} {tid : TxnId}

/-- The tables the invariant speaks of are the same. -/
structure SamePlain (r r' : Replica) : Prop where
  active : r'.activeTxns = r.activeTxns
  pending : r'.pendingTxns = r.pendingTxns
  prepares : r'.pendingPrepares = r.pendingPrepares
  askers : r'.prepareClientList = r.prepareClientList
  committed : r'.committedTxns = r.committedTxns

theorem Voted.congr (hpending : r'.pendingTxns = r.pendingTxns)
    (hcommitted : r'.committedTxns = r.committedTxns) (h : r.Voted tid) : r'.Voted tid := by
  rw [Voted, hpending, hcommitted]
  exact h

theorem Plain.congr (h : Plain env member r) (hs : SamePlain r r') : Plain env member r' := by
  refine ⟨hs.active ▸ h.alone, hs.pending ▸ h.leads, hs.pending ▸ h.timed, ?_, ?_,
    hs.askers ▸ h.askers⟩
  · rw [hs.prepares, hs.askers]
    exact h.opened
  · rw [hs.prepares]
    exact fun tid req hreq hown => (h.own tid req hreq hown).congr hs.pending hs.committed

theorem Steady.dead (hx : Steady env member r₀ fin k x) (r : Replica) :
    Weak env member fin k { x with state := r } :=
  ⟨hx.sent, hx.applied, hx.decided⟩

theorem Steady.update (hx : Steady env member r₀ fin k x) (hplain : Plain env member r)
    (hvoted : ∀ tid, x.state.Voted tid → r.Voted tid)
    (hcommitted : r.committedTxns = x.state.committedTxns) :
    Steady env member r₀ fin k { x with state := r } :=
  ⟨hx.dead _, hplain, fun tid h => hvoted tid (hx.kept tid h),
    fun p hp m s i hm hok hdst => hvoted _ (hx.backed p hp m s i hm hok hdst),
    fun tid htid => hx.done tid (hcommitted ▸ htid)⟩

theorem Steady.same (hx : Steady env member r₀ fin k x) (hs : SamePlain x.state r) :
    Steady env member r₀ fin k { x with state := r } :=
  hx.update (hx.plain.congr hs) (fun _ h => h.congr hs.pending hs.committed) hs.committed

/-- Packets that are no votes. -/
theorem Steady.send (hx : Steady env member r₀ fin k x) {ps : List Pkt}
    (hps : ∀ p ∈ ps, Said env member fin p)
    (hvotes : ∀ p ∈ ps, ∀ m s i, p.msg = .prepareTransactionReply m → m.state = .prepareOk →
      p.dst = .replica s i → x.state.Voted m.tid) :
    Steady env member r₀ fin k { x with sent := x.sent ++ ps } := by
  refine ⟨⟨fun p hp => ?_, hx.applied, hx.decided⟩, hx.plain, hx.kept, fun p hp => ?_, hx.done⟩
  · exact (List.mem_append.1 hp).elim (hx.sent p) (hps p)
  · exact (List.mem_append.1 hp).elim (hx.backed p) (hvotes p)

theorem Steady.emit (hx : Steady env member r₀ fin k x) {e : Event}
    (he : ∀ tid ts, e = .applied tid .commit ts → k tid) :
    Steady env member r₀ fin k { x with events := x.events ++ [e] } := by
  refine ⟨⟨hx.sent, fun tid ts h => ?_,
    fun tid htid => List.mem_append_left _ (hx.decided tid htid)⟩, hx.plain, hx.kept, hx.backed, fun tid htid => ?_⟩
  · rcases List.mem_append.1 h with hold | hnew
    · exact hx.applied tid ts hold
    · exact he tid ts (List.mem_singleton.1 hnew).symm
  · exact (hx.done tid htid).imp_right (Or.imp_left (List.mem_append_left _))

/-! ### Primitives -/

/-- A handler that keeps the invariant. -/
abbrev Steadies {α : Type} (env : ReplicaEnv) (member : TxnId → Prop) (r₀ : Replica)
    (fin k : TxnId → Prop) (h : ReplicaM α) : Prop :=
  Prog.Keeps (Steady env member r₀ fin k) h

/-- A write to the other tables. -/
theorem update_steady {f : Replica → Replica} (hf : ∀ r, SamePlain r (f r)) :
    Steadies env member r₀ fin k (update f) :=
  fun _ hx => hx.same (hf _)

theorem withStore_steady (f : TxnStore → TxnStore) :
    Steadies env member r₀ fin k (withStore f) :=
  update_steady fun _ => ⟨rfl, rfl, rfl, rfl, rfl⟩

theorem emit_steady {e : Event} (he : ∀ tid ts, e = .applied tid .commit ts → k tid) :
    Steadies env member r₀ fin k (emit e) :=
  fun _ hx => hx.emit he

/-- Only null pointers and transactions that nobody read from are entered. -/
theorem Plain.setActive (h : Plain env member r) {active : Table TxnId (Option Transaction)}
    (hactive : ∀ tid txn, active.lookup tid = some (some txn) →
      r.activeTxns.lookup tid = some (some txn) ∨ txn.out = []) :
    Plain env member { r with activeTxns := active } :=
  ⟨fun tid txn htxn => (hactive tid txn htxn).elim (h.alone tid txn) id, h.leads, h.timed,
    h.opened, fun tid req hreq hown => h.own tid req hreq hown, h.askers⟩

theorem Steady.setActive (hx : Steady env member r₀ fin k x)
    {active : Table TxnId (Option Transaction)}
    (hactive : ∀ tid txn, active.lookup tid = some (some txn) →
      x.state.activeTxns.lookup tid = some (some txn) ∨ txn.out = []) :
    Steady env member r₀ fin k { x with state := { x.state with activeTxns := active } } :=
  hx.update (hx.plain.setActive hactive) (fun _ h => h) rfl

theorem activePtr_steady (tid : TxnId) : Steadies env member r₀ fin k (activePtr tid) := by
  intro x hx
  rw [wp_activePtr]
  refine ⟨fun _ _ => hx, fun _ => hx.setActive fun t txn htxn => ?_⟩
  rw [Table.lookup_insert_eq] at htxn
  split_ifs at htxn
  · cases htxn
  · exact .inl htxn

theorem eraseActive_steady (tid : TxnId) : Steadies env member r₀ fin k (eraseActive tid) := by
  intro x hx
  refine hx.setActive fun t txn htxn => ?_
  rw [Table.lookup_erase_eq] at htxn
  split_ifs at htxn
  exact .inl htxn

/-- A pending transaction stays what the invariant says of it. -/
theorem Steady.setPending (hx : Steady env member r₀ fin k x) {req : PendingTransaction}
    (hreq : x.state.pendingTxns.lookup tid = some req) {req' : PendingTransaction}
    (hpart : req'.isParticipant = req.isParticipant)
    (hreach : req.reachConsensus = true → req'.reachConsensus = true)
    (htimer : ∀ b, req'.timer = some (.resendReplicateTxn b) → req'.reachConsensus = false) :
    Steady env member r₀ fin k { x with state := { x.state with
      pendingTxns := x.state.pendingTxns.insert tid req' } } := by
  have hvoted : ∀ t, x.state.Voted t →
      Voted { x.state with pendingTxns := x.state.pendingTxns.insert tid req' } t := by
    rintro t (⟨q, hq, hc⟩ | hdone)
    · by_cases ht : t = tid
      · subst ht
        rw [hreq] at hq
        cases hq
        exact .inl ⟨req', by rw [Table.lookup_insert_eq, if_pos rfl], hreach hc⟩
      · exact .inl ⟨q, by rw [Table.lookup_insert_eq, if_neg ht]; exact hq, hc⟩
    · exact .inr hdone
  refine hx.update ⟨hx.plain.alone, fun t q hq => ?_, fun t q b hq hb => ?_, hx.plain.opened,
    fun t q hq hown => hvoted t (hx.plain.own t q hq hown), hx.plain.askers⟩ hvoted rfl
  · rw [Table.lookup_insert_eq] at hq
    split_ifs at hq with ht
    · cases hq
      obtain ⟨hlead, hp⟩ := hx.plain.leads tid req hreq
      exact ⟨hlead, hpart.trans hp⟩
    · exact hx.plain.leads t q hq
  · rw [Table.lookup_insert_eq] at hq
    split_ifs at hq with ht
    · cases hq
      exact htimer b hb
    · exact hx.plain.timed t q b hq hb

/-- Writes that leave the consensus and the timer alone. -/
theorem modifyPending_steady {f : PendingTransaction → PendingTransaction}
    (hf : ∀ req, (f req).isParticipant = req.isParticipant ∧
      (f req).reachConsensus = req.reachConsensus ∧
        ∀ b, (f req).timer = some (.resendReplicateTxn b) → ∃ b,
          req.timer = some (.resendReplicateTxn b)) :
    Steadies env member r₀ fin k (modifyPending tid f) := by
  intro x hx
  rw [wp_modifyPending, mapPending]
  split
  · exact hx
  · rename_i req hreq
    obtain ⟨hpart, hreach, htimer⟩ := hf req
    refine hx.setPending hreq hpart (fun h => hreach.trans h) fun b hb => ?_
    obtain ⟨b', hb'⟩ := htimer b hb
    rw [hreach]
    exact hx.plain.timed tid req b' hreq hb'

/-- A message that is neither a piece nor a vote. -/
def Idle (m : Msg) : Prop :=
  match m with
  | .prepareTransaction _ | .prepareTransactionReply _ => False
  | _ => True

theorem send_steady {ps : List Pkt} (hps : ∀ p ∈ ps, Idle p.msg ∧
    (∀ c, p.src ≠ .coordinator c) ∧ ∀ c, p.dst ≠ .coordinator c) :
    Steadies env member r₀ fin k (send ps) := by
  intro x hx
  refine hx.send (fun p hp => ?_) fun p hp m s i hm => ?_
  · obtain ⟨hidle, hsrc, hdst⟩ := hps p hp
    refine ⟨hsrc, hdst, ?_⟩
    cases hm : p.msg with
    | prepareTransaction m =>
      rw [hm] at hidle
      exact hidle.elim
    | prepareTransactionReply m =>
      rw [hm] at hidle
      exact hidle.elim
    | _ => trivial
  · have hidle := (hps p hp).1
    rw [hm] at hidle
    exact hidle.elim

theorem sendMessage_steady {remote : Addr} {m : Msg} (hm : Idle m)
    (hremote : ∀ c, remote ≠ .coordinator c) :
    Steadies env member r₀ fin k (sendMessage env remote m) := by
  refine send_steady fun p hp => ?_
  rw [List.mem_singleton.1 hp]
  exact ⟨hm, (fun _ h => by cases h), hremote⟩

theorem sendMessageToAll_steady {m : Msg} (hm : Idle m) :
    Steadies env member r₀ fin k (sendMessageToAll env m) := by
  refine send_steady fun p hp => ?_
  obtain ⟨i, _, rfl⟩ := List.mem_map.1 hp
  exact ⟨hm, (fun _ h => by cases h), fun _ h => by cases h⟩

/-- A report to the leader of the primary shard. -/
theorem Steady.report (hx : Steady env member r₀ fin k x) (shard : Shard) (idx : ℕ)
    (m : PrepareTransactionReply) (hm : m.state = .prepareOk →
      m.shard = env.shardId ∧ env.isLeader = true ∧ x.state.Voted m.tid) :
    Steady env member r₀ fin k { x with sent := x.sent ++
      [⟨.sendOnly, .replica shard idx, .prepareTransactionReply m⟩] } := by
  refine hx.send (fun p hp => ?_) fun p hp m' s i hm' hok _ => ?_
  · rw [List.mem_singleton.1 hp]
    exact ⟨nofun, nofun, fun hok => ⟨fun _ _ => nofun, fun _ _ _ => ⟨(hm hok).1, (hm hok).2.1⟩⟩⟩
  · rw [List.mem_singleton.1 hp] at hm'
    cases hm'
    exact (hm hok).2.2

/-! ### Replication -/

/-- The transaction is not at consensus. -/
def Unreached (r : Replica) (tid : TxnId) : Prop :=
  ∀ req, r.pendingTxns.lookup tid = some req → req.reachConsensus = false

/-- A transaction that is not at consensus may be forgotten. -/
theorem Steady.dropPending (hx : Steady env member r₀ fin k x) (hopen : x.state.Unreached tid) :
    Steady env member r₀ fin k { x with state := { x.state with
      pendingTxns := x.state.pendingTxns.erase tid } } := by
  have hvoted : ∀ t, x.state.Voted t →
      Voted { x.state with pendingTxns := x.state.pendingTxns.erase tid } t := by
    rintro t (⟨q, hq, hc⟩ | hdone)
    · by_cases ht : t = tid
      · subst ht
        rw [hopen q hq] at hc
        cases hc
      · exact .inl ⟨q, by rw [Table.lookup_erase_eq, if_neg ht]; exact hq, hc⟩
    · exact .inr hdone
  refine hx.update ⟨hx.plain.alone, fun t q hq => ?_, fun t q b hq hb => ?_, hx.plain.opened,
    fun t q hq hown => hvoted t (hx.plain.own t q hq hown), hx.plain.askers⟩ hvoted rfl
  · exact hx.plain.leads t q (lookup_of_erase hq)
  · exact hx.plain.timed t q b (lookup_of_erase hq) hb

theorem replicateTxn_steady (hopen : x.state.Unreached tid) (hx : Steady env member r₀ fin k x) :
    wp (replicateTxn env ω tid) (fun _ => Steady env member r₀ fin k)
      (Weak env member fin k) x := by
  rw [replicateTxn, wp_bind, wp_read, wp_bind, wp_deref]
  refine ⟨fun req hreq => ?_, fun _ => hx.toWeak⟩
  rw [wp_bind, wp_read, wp_bind]
  have hsent : ∀ m, Steady env member r₀ fin k { x with sent := (x.sent ++
      (List.range env.cfg.n).map fun i =>
        ⟨env.addr, .replica env.shardId i, .replicateTransaction m⟩) } :=
    fun m => sendMessageToAll_steady (m := .replicateTransaction m) trivial x hx
  rw [wp_sendMessageToAll, wp_ite]
  refine ⟨fun _ => ?_, fun _ => (hsent _).dropPending hopen⟩
  split
  · exact (hsent _).toWeak
  · rename_i b htimer
    rw [wp_modifyPending, mapPending_some hreq]
    exact (hsent _).setPending hreq rfl (fun h => h) fun _ _ => hopen req hreq
  · rw [wp_modifyPending, mapPending_some hreq]
    exact (hsent _).setPending hreq rfl (fun h => h) fun _ _ => hopen req hreq

/-- A transaction is entered, or the entry of one that is not at consensus is replaced. -/
theorem invokeReplicateTxn_steady (hmode : env.cfg.mode ≠ .rc) (hlead : env.isLeader = true)
    {entry : LogEntry} {hasPreCommit : Bool} (hopen : x.state.Unreached entry.txn)
    (hx : Steady env member r₀ fin k x) :
    wp (invokeReplicateTxn env ω entry hasPreCommit) (fun _ => Steady env member r₀ fin k)
      (Weak env member fin k) x := by
  rw [invokeReplicateTxn, wp_bind, wp_read]
  split
  · rename_i hnone
    simp only [wp_bind, wp_derefActive, wp_update, if_neg hmode]
    refine ⟨fun txn _ => ?_, fun _ => hx.toWeak, fun _ => hx.dead _⟩
    have hvoted : ∀ req t, x.state.Voted t → Voted { x.state with
        pendingTxns := x.state.pendingTxns.insert entry.txn req } t := by
      rintro req t (⟨q, hq, hc⟩ | hdone)
      · refine .inl ⟨q, ?_, hc⟩
        rw [Table.lookup_insert_eq, if_neg]
        · exact hq
        · rintro rfl
          rw [hnone] at hq
          cases hq
      · exact .inr hdone
    refine replicateTxn_steady (fun req hreq => ?_) (hx.update ⟨hx.plain.alone, fun t q hq => ?_,
      fun t q b hq hb => ?_, hx.plain.opened,
      fun t q hq hown => hvoted _ t (hx.plain.own t q hq hown), hx.plain.askers⟩ (hvoted _) rfl)
    · rw [Table.lookup_insert_eq, if_pos rfl] at hreq
      rw [← Option.some.inj hreq]
    · rw [Table.lookup_insert_eq] at hq
      split_ifs at hq
      · rw [← Option.some.inj hq]
        exact ⟨hlead, rfl⟩
      · exact hx.plain.leads t q hq
    · rw [Table.lookup_insert_eq] at hq
      split_ifs at hq
      · rw [← Option.some.inj hq]
      · exact hx.plain.timed t q b hq hb
  · rename_i req hreq
    rw [wp_ite]
    refine ⟨fun _ => ?_, fun _ => ?_⟩
    · simp only [wp_bind, wp_derefActive, wp_modifyPending, mapPending_some hreq]
      refine ⟨fun txn _ => ?_, fun _ => hx.toWeak, fun _ => hx.dead _⟩
      refine replicateTxn_steady (fun req' hreq' => ?_)
        (hx.setPending hreq rfl (fun h => h) fun _ _ => hopen req hreq)
      rw [Table.lookup_insert_eq, if_pos rfl] at hreq'
      rw [← Option.some.inj hreq']
      exact hopen req hreq
    · rw [resendReplicateTxn, if_neg hmode]
      exact replicateTxn_steady hopen hx

theorem handleReplicateTransaction_steady (hslow : env.cfg.mode = .slow) {remote : Addr}
    (hremote : ∀ c, remote ≠ .coordinator c) (msg : ReplicateTransaction) :
    Steadies env member r₀ fin k (handleReplicateTransaction env ω remote msg) := by
  refine .bind (update_steady fun _ => ⟨rfl, rfl, rfl, rfl, rfl⟩) fun _ => .bind (.gets _)
    fun log => .bind (.when ?_) fun _ => .bind (sendMessage_steady trivial hremote) fun _ => ?_
  · refine .bind (update_steady fun _ => ⟨rfl, rfl, rfl, rfl, rfl⟩) fun _ =>
      .bind (emit_steady (fun _ _ h => by cases h)) fun _ => .bind (fun x hx => ?_) fun _ => withStore_steady _
    refine hx.setActive fun t txn htxn => ?_
    rw [Table.lookup_insert_eq] at htxn
    split_ifs at htxn
    · cases htxn
      exact .inr rfl
    · exact .inl htxn
  · rw [hslow]
    exact .pure _

/-- **Consensus.** The transaction is reported, or forgotten if that fails. -/
theorem handleConsensus_steady (hslow : env.cfg.mode = .slow) {y : Ctx Replica Addr Msg Event}
    {req req' : PendingTransaction} (hx : Steady env member r₀ fin k x)
    (hreq : x.state.pendingTxns.lookup tid = some req) (hopen : req.reachConsensus = false)
    (hpart : req'.isParticipant = req.isParticipant) (hreach : req'.reachConsensus = true)
    (hstate : y.state = { x.state with pendingTxns := x.state.pendingTxns.insert tid req' })
    (hsent : y.sent = x.sent) (hevents : y.events = x.events ++ [.consensus tid]) :
    wp (handleConsensus env ω tid) (fun _ => Steady env member r₀ fin k)
      (Weak env member fin k) y := by
  obtain ⟨state, sent, events⟩ := y
  obtain rfl : state = _ := hstate
  obtain rfl : sent = _ := hsent
  obtain rfl : events = _ := hevents
  have hx₁ : Steady env member r₀ fin k { x with events := x.events ++ [.consensus tid] } :=
    hx.emit (fun _ _ h => by cases h)
  have hweak : ∀ r : Replica, Weak env member fin k
      { x with state := r, events := x.events ++ [.consensus tid] } :=
    hx₁.dead
  have hfound : ∀ q : PendingTransaction, ({ x.state with
      pendingTxns := x.state.pendingTxns.insert tid q } : Replica).pendingTxns.lookup tid =
        some q := fun q => AList.lookup_insert _
  have hlead := (hx.plain.leads tid req hreq).1
  -- with the timer for the report the transaction counts as voted
  have hset : ∀ q : PendingTransaction, q.isParticipant = req.isParticipant →
      q.reachConsensus = true → (∀ b, q.timer ≠ some (.resendReplicateTxn b)) →
        Steady env member r₀ fin k { x with
          state := { x.state with pendingTxns := x.state.pendingTxns.insert tid q }
          events := x.events ++ [.consensus tid] } := fun q hp hc ht =>
    hx₁.setPending hreq hp (fun _ => hc) fun b hb => absurd hb (ht b)
  simp only [handleConsensus, wp_bind, wp_derefActive, wp_read, hfound, wp_deref_some, hslow,
    if_true, wp_ite, wp_sendMessageToShard, wp_modifyPending, wp_erasePending, wp_eraseActive]
  refine ⟨fun txn _ => ⟨fun _ => ?_, fun _ => ?_⟩, fun _ => hweak _, fun _ => hweak _⟩
  · rw [mapPending_some (hfound _), AList.insert_insert]
    refine (hset { req' with timer := some (.resendPrepareOk false) } hpart hreach (fun _ h => by cases h)).report
      _ _ _ fun _ => ⟨rfl, hlead, .inl ⟨_, AList.lookup_insert _, hreach⟩⟩
  · have hopen' : x.state.Unreached tid := fun q hq => by
      rw [hreq] at hq
      rw [← Option.some.inj hq]
      exact hopen
    rw [Table.erase_insert]
    exact eraseActive_steady tid _ (hx₁.dropPending hopen')

/-- The transaction at hand reaches consensus. -/
theorem handleReplicateTransactionReply_steady (hslow : env.cfg.mode = .slow)
    (msg : ReplicateTransactionReply) (hx : Steady env member r₀ fin k x) :
    wp (handleReplicateTransactionReply env ω msg) (fun _ => Steady env member r₀ fin k)
      (Weak env member fin k) x := by
  rw [handleReplicateTransactionReply, wp_bind, wp_read]
  split
  · exact hx
  · rename_i req hreq
    rw [wp_ite]
    refine ⟨fun _ => hx, fun hopen => ?_⟩
    have hopen : req.reachConsensus = false := eq_false_of_ne_true hopen
    have hfound : ∀ q : PendingTransaction, ({ x.state with
        pendingTxns := x.state.pendingTxns.insert msg.txnId q } : Replica).pendingTxns.lookup
          msg.txnId = some q := fun q => AList.lookup_insert _
    rw [wp_bind, wp_modifyPending, mapPending_some hreq, wp_ite]
    refine ⟨fun _ => ?_, fun _ => hx.setPending hreq rfl (fun h => h)
      fun b hb => hx.plain.timed _ req b hreq hb⟩
    rw [wp_bind, wp_modifyPending, mapPending_some (hfound _), AList.insert_insert, wp_bind,
      wp_emit]
    refine handleConsensus_steady hslow hx hreq hopen ?_ ?_ (Eq.refl _) rfl rfl
    · rfl
    · rfl

/-- A vote is repeated. -/
theorem resendPrepareOk_steady (hslow : env.cfg.mode = .slow)
    (hreach : ∀ req, x.state.pendingTxns.lookup tid = some req → req.reachConsensus = true)
    (hx : Steady env member r₀ fin k x) :
    wp (resendPrepareOk env ω tid) (fun _ => Steady env member r₀ fin k)
      (Weak env member fin k) x := by
  rw [resendPrepareOk, wp_bind, wp_read]
  split
  · exact hx
  · rename_i req hreq
    simp only [wp_bind, wp_derefActive, hslow, if_true, wp_when, wp_sendMessageToShard,
      wp_modifyPending]
    refine ⟨fun txn _ => ⟨fun _ => ?_, fun _ => hx⟩, fun _ => hx.toWeak,
      fun _ => hx.dead _⟩
    have hrep := hx.report req.primaryShard (req.primaryShard % env.cfg.n)
      { tid, state := .prepareOk, timestamp := txn.commitTs.timestamp, shard := env.shardId }
      fun _ => ⟨rfl, (hx.plain.leads tid req hreq).1, .inl ⟨req, hreq, hreach req hreq⟩⟩
    rw [mapPending_some hreq]
    exact hrep.setPending hreq rfl (fun h => h) (fun _ h => by cases h)

/-- The timer of a pending transaction. -/
theorem handleTimer_pendingTxn_steady (hslow : env.cfg.mode = .slow)
    (hvoted : ∀ req b, x.state.pendingTxns.lookup tid = some req →
      req.timer = some (.resendPrepareOk b) → req.reachConsensus = true)
    (hx : Steady env member r₀ fin k x) :
    wp (handleTimer env ω (.pendingTxn tid)) (fun _ => Steady env member r₀ fin k)
      (Weak env member fin k) x := by
  rw [handleTimer, wp_bind, wp_read]
  split
  · exact hx
  · rename_i req hreq
    split
    · rename_i htimer
      rw [resendReplicateTxn, if_neg (by rw [hslow]; intro h; cases h)]
      refine replicateTxn_steady (fun q hq => ?_) hx
      rw [hreq] at hq
      rw [← Option.some.inj hq]
      exact hx.plain.timed tid req true hreq htimer
    · rename_i htimer
      refine resendPrepareOk_steady hslow (fun q hq => ?_) hx
      rw [hreq] at hq
      rw [← Option.some.inj hq]
      exact hvoted req true hreq htimer
    · exact hx

/-! ### The decision -/

/-- An abort of the transaction; nobody read from it. -/
theorem cascadeAbort_steady (fuel : ℕ) (hx : Steady env member r₀ fin k x) :
    wp (cascadeAbort env (fuel + 1) tid)
      (fun _ y => Steady env member r₀ fin k y ∧ .cascaded tid ∈ y.events)
      (fun y => Weak env member fin k y ∧ .cascaded tid ∈ y.events) x := by
  have hx₁ := (withStore_steady (·.abort tid) x hx).emit (e := .cascaded tid) (fun _ _ h => by cases h)
  have hmem : .cascaded tid ∈ x.events ++ [.cascaded tid] :=
    List.mem_append_right _ (List.mem_singleton_self _)
  rw [cascadeAbort, wp_bind, wp_withStore, wp_bind, wp_emit, wp_bind, wp_read]
  split
  · exact ⟨hx₁, hmem⟩
  · simp only [wp_bind, wp_derefActive]
    refine ⟨fun txn htxn => ?_, fun _ => ⟨hx₁.toWeak, hmem⟩, fun _ => ⟨hx₁.dead _, hmem⟩⟩
    rw [hx₁.plain.alone tid txn htxn]
    exact ⟨hx₁, hmem⟩

theorem notifyForFollowingDependenies_steady (hx : Steady env member r₀ fin k x) :
    wp (notifyForFollowingDependenies env tid) (fun _ => Steady env member r₀ fin k)
      (Weak env member fin k) x := by
  rw [notifyForFollowingDependenies, wp_bind, wp_read]
  split
  · exact hx
  · simp only [wp_bind, wp_derefActive]
    refine ⟨fun txn htxn => ?_, fun _ => hx.toWeak, fun _ => hx.dead _⟩
    rw [hx.plain.alone tid txn htxn]
    exact hx

/-- Those who read the writes of the transaction are nobody: it is aborted, or has the reason. -/
theorem settleDependents_steady {msg : CommitMsg} (hmsg : msg.state = .commit → k msg.tid)
    (hx : Steady env member r₀ fin k x) :
    wp (settleDependents env msg)
      (fun _ y => Steady env member r₀ fin k y ∧ (.cascaded msg.tid ∈ y.events ∨ k msg.tid))
      (fun y => Weak env member fin k y ∧ (.cascaded msg.tid ∈ y.events ∨ k msg.tid)) x := by
  rw [settleDependents, wp_ite]
  refine ⟨fun hcode => ?_, fun _ => ?_⟩
  · have hk : k msg.tid := hmsg (by revert hcode; cases msg.state <;> decide)
    exact wp_mono (fun _ _ hy => ⟨hy, .inr hk⟩) (fun _ hy => ⟨hy, .inr hk⟩)
      (notifyForFollowingDependenies_steady hx)
  · rw [wp_bind, wp_read]
    exact wp_mono (fun _ _ hy => ⟨hy.1, .inl hy.2⟩) (fun _ hy => ⟨hy.1, .inl hy.2⟩)
      (cascadeAbort_steady _ hx)

theorem notifyCommitToReplica_steady (hslow : env.cfg.mode = .slow) (req : PendingTransaction)
    (msg : CommitMsg) :
    Steadies env member r₀ fin k (notifyCommitToReplica env ω req msg) := by
  refine .bind (update_steady fun _ => ⟨rfl, rfl, rfl, rfl, rfl⟩) fun _ => ?_
  rw [if_neg (by rw [hslow]; intro h; cases h)]
  exact .bind (sendMessageToAll_steady trivial) fun _ => .when
    (modifyPending_steady fun req => ⟨rfl, rfl, fun b hb => ⟨b, hb⟩⟩)

theorem applyToStore_steady {msg : CommitMsg} (hmsg : msg.state = .commit → k msg.tid) :
    Steadies env member r₀ fin k (applyToStore msg) := by
  refine .bind (modifyPending_steady fun req => ⟨rfl, rfl, fun b hb => ⟨b, hb⟩⟩) fun _ =>
    .bind (activePtr_steady _) fun txn => ?_
  split
  · rename_i hstate
    refine .bind (withStore_steady _) fun _ => emit_steady fun tid ts heq => ?_
    cases heq
    exact hmsg hstate
  · exact .bind (.deref _) fun _ => .bind (withStore_steady _) fun _ => emit_steady (fun _ _ h => by cases h)
  · exact .pure _

theorem carryOut_steady (hslow : env.cfg.mode = .slow) {msg : CommitMsg}
    (hmsg : msg.state = .commit → k msg.tid) (req : PendingTransaction) :
    Steadies env member r₀ fin k (carryOut env ω msg req) :=
  .bind (.when (notifyCommitToReplica_steady hslow req msg)) fun _ =>
    .when (applyToStore_steady hmsg)

/-- Nothing is looked up where there is neither a commit nor an abort to carry out. -/
theorem carryOut_lives (hslow : env.cfg.mode = .slow) {msg : CommitMsg}
    (hstate : msg.state = .prepareOk) (req : PendingTransaction) :
    wp (carryOut env ω msg req) (fun _ _ => True) (fun _ => False) x := by
  have hstore : ∀ y : Ctx Replica Addr Msg Event, wp (when (!req.reachCommitDecision)
      (applyToStore msg)) (fun _ _ => True) (fun _ => False) y := by
    intro y
    simp only [applyToStore, wp_when, wp_bind, wp_modifyPending, wp_activePtr, hstate, wp_pure]
    exact ⟨fun _ => ⟨fun _ _ => trivial, fun _ => trivial⟩, fun _ => trivial⟩
  rw [carryOut, notifyCommitToReplica, wp_bind, wp_when]
  refine ⟨fun _ => ?_, fun _ => ?_⟩
  · rw [wp_bind, wp_update, if_neg (by rw [hslow]; intro h; cases h), wp_bind, wp_sendMessageToAll, wp_when]
    exact ⟨fun _ => hstore _, fun _ => hstore _⟩
  · exact hstore _

/-- The transaction is forgotten, and its outcome is kept. -/
theorem Steady.retire (hx : Steady env member r₀ fin k x) {outcome : LogEntryState × ℕ}
    (hdone : .cascaded tid ∈ x.events ∨ k tid) :
    Steady env member r₀ fin k { x with state := { x.state with
      pendingTxns := x.state.pendingTxns.erase tid
      activeTxns := x.state.activeTxns.erase tid
      committedTxns := x.state.committedTxns.insert tid outcome } } := by
  have hvoted : ∀ t, x.state.Voted t → Voted { x.state with
      pendingTxns := x.state.pendingTxns.erase tid
      activeTxns := x.state.activeTxns.erase tid
      committedTxns := x.state.committedTxns.insert tid outcome } t := by
    rintro t (⟨q, hq, hc⟩ | hdone)
    · by_cases ht : t = tid
      · exact .inr ((AList.mem_insert _).2 (.inl ht))
      · exact .inl ⟨q, by rw [Table.lookup_erase_eq, if_neg ht]; exact hq, hc⟩
    · exact .inr ((AList.mem_insert _).2 (.inr hdone))
  refine ⟨hx.dead _, ⟨fun t txn htxn => ?_, fun t q hq => ?_, fun t q b hq hb => ?_,
    hx.plain.opened, fun t q hq hown => hvoted t (hx.plain.own t q hq hown), hx.plain.askers⟩,
    fun t h => hvoted t (hx.kept t h),
    fun p hp m s i hm hok hdst => hvoted _ (hx.backed p hp m s i hm hok hdst), fun t ht => ?_⟩
  · exact hx.plain.alone t txn (lookup_of_erase htxn)
  · exact hx.plain.leads t q (lookup_of_erase hq)
  · exact hx.plain.timed t q b (lookup_of_erase hq) hb
  · rcases (AList.mem_insert _).1 ht with rfl | hold
    · exact .inr hdone
    · exact hx.done t hold

theorem retire_steady (hslow : env.cfg.mode = .slow) {msg : CommitMsg} (txn : Option Transaction)
    (hx : Steady env member r₀ fin k x) (hdone : .cascaded msg.tid ∈ x.events ∨ k msg.tid) :
    wp (retire env msg txn)
      (fun _ y => Steady env member r₀ fin k y ∧ msg.tid ∈ y.state.committedTxns)
      (fun y => Weak env member fin k y ∧ (.cascaded msg.tid ∈ y.events ∨ k msg.tid)) x := by
  rw [retire, wp_bind, wp_erasePending, wp_bind, wp_when, hslow]
  simp only [wp_bind, wp_deref, wp_eraseActive, wp_update, wp_pure]
  exact ⟨fun _ => ⟨fun _ _ => ⟨hx.retire hdone, (AList.mem_insert _).2 (.inl rfl)⟩,
    fun _ => ⟨hx.dead _, hdone⟩⟩, fun h => by cases h⟩

/-- **`HandleCommit` of a leader**: a pending transaction is aborted unless there is the reason,
also where the state is `LOG_STATE_PREPAREOK`. -/
theorem commitPending_steady (hslow : env.cfg.mode = .slow) {msg : CommitMsg}
    (hmsg : msg.state = .commit → k msg.tid) (hx : Steady env member r₀ fin k x)
    {req : PendingTransaction} (hpart : req.isParticipant = true) :
    wp (commitPending env ω msg req)
      (fun _ y => Steady env member r₀ fin k y ∧ msg.tid ∈ y.state.committedTxns)
      (fun y => Weak env member fin k y ∧ (msg.state = .prepareOk →
        x.state.log.find req.lsn ≠ none → .cascaded msg.tid ∈ y.events ∨ k msg.tid)) x := by
  rw [commitPending, if_neg (by rw [hpart]; intro h; cases h), wp_bind, wp_read, wp_bind, wp_deref]
  refine ⟨fun e he => ?_, fun hnone => ⟨hx.toWeak, fun _ hlog => absurd hnone hlog⟩⟩
  rw [wp_bind, wp_update, wp_bind]
  have hcarry : ∀ y : Ctx Replica Addr Msg Event, Steady env member r₀ fin k y →
      wp (carryOut env ω msg req) (fun _ => Steady env member r₀ fin k)
        (fun z => Weak env member fin k z ∧ msg.state ≠ .prepareOk) y := by
    intro y hy
    by_cases hstate : msg.state = .prepareOk
    · exact wp_mono (fun _ _ hz => hz.1) (fun _ hz => hz.2.elim)
        (wp_and (carryOut_steady hslow hmsg req y hy) (carryOut_lives hslow hstate req))
    · exact wp_mono (fun _ _ hz => hz) (fun _ hz => ⟨hz.toWeak, hstate⟩)
        (carryOut_steady hslow hmsg req y hy)
  refine wp_mono (fun _ y hy => ?_) (fun _ hy => ⟨hy.1, fun hstate => absurd hstate hy.2⟩)
    (hcarry _ (hx.same ⟨rfl, rfl, rfl, rfl, rfl⟩))
  have hsettle : ∀ (txn : Option Transaction) (z : Ctx Replica Addr Msg Event),
      Steady env member r₀ fin k z → wp (do settleDependents env msg; retire env msg txn)
        (fun _ y => Steady env member r₀ fin k y ∧ msg.tid ∈ y.state.committedTxns)
        (fun y => Weak env member fin k y ∧ (msg.state = .prepareOk →
          x.state.log.find req.lsn ≠ none → .cascaded msg.tid ∈ y.events ∨ k msg.tid)) z := by
    intro txn z hz
    rw [wp_bind]
    refine wp_mono (fun _ y hy => ?_) (fun _ hy => ⟨hy.1, fun _ _ => hy.2⟩)
      (settleDependents_steady hmsg hz)
    exact wp_mono (fun _ _ hy => hy) (fun _ hy => ⟨hy.1, fun _ _ => hy.2⟩)
      (retire_steady hslow txn hy.1 hy.2)
  rw [wp_bind, wp_activePtr]
  refine ⟨fun txn _ => hsettle txn y hy,
    fun _ => hsettle none _ (hy.setActive fun t txn htxn => ?_)⟩
  rw [Table.lookup_insert_eq] at htxn
  split_ifs at htxn
  · cases htxn
  · exact .inl htxn

/-- The outcome of a transaction that is pending is settled, or the leader dies. -/
theorem handleCommit_steady (hslow : env.cfg.mode = .slow) {msg : CommitMsg}
    (hmsg : msg.state = .commit → k msg.tid) (hx : Steady env member r₀ fin k x) :
    wp (handleCommit env ω msg)
      (fun _ y => Steady env member r₀ fin k y ∧
        (msg.tid ∈ x.state.pendingTxns → msg.tid ∈ y.state.committedTxns))
      (fun y => Weak env member fin k y ∧ (msg.state = .prepareOk →
        ∀ req, x.state.pendingTxns.lookup msg.tid = some req → x.state.log.find req.lsn ≠ none →
          .cascaded msg.tid ∈ y.events ∨ k msg.tid)) x := by
  rw [handleCommit, wp_bind, wp_read]
  split
  · rename_i hnone
    refine ⟨hx, fun hmem => ?_⟩
    rw [← AList.lookup_isSome, hnone] at hmem
    cases hmem
  · rename_i req hreq
    have hx₁ : Steady env member r₀ fin k { x with
        state := { x.state with currentTs := max x.state.currentTs msg.timestamp } } :=
      hx.same ⟨rfl, rfl, rfl, rfl, rfl⟩
    rw [wp_bind, wp_update, wp_bind]
    refine wp_mono (fun _ y hy => ?_) (fun y hy => ?_)
      (commitPending_steady hslow hmsg hx₁ (hx.plain.leads _ req hreq).2)
    · rw [wp_eraseClient]
      exact ⟨hy.1.same ⟨rfl, rfl, rfl, rfl, rfl⟩, fun _ => hy.2⟩
    · refine ⟨hy.1, fun hstate q hq hlog => ?_⟩
      rw [hreq] at hq
      cases hq
      exact hy.2 hstate hlog

theorem handleReplicateCommit_steady (hslow : env.cfg.mode = .slow) (msg : ReplicateCommit) :
    Steadies env member r₀ fin k (handleReplicateCommit env msg) := by
  refine .ite (.pure _) (.bind ?_ fun _ => .bind (activePtr_steady _) fun p => ?_)
  · rw [hslow]
    exact .pure _
  · cases p with
    | none => exact .pure _
    | some txn =>
        refine .bind ?_ fun _ => eraseActive_steady _
        unfold replicateOutcome
        split
        · exact withStore_steady _
        · exact withStore_steady _
        · exact .pure _

/-! ### Reads -/

theorem readKey_steady (hslow : env.cfg.mode = .slow) (tid : TxnId) (key : Key) :
    Steadies env member r₀ fin k (readKey env tid key) := by
  refine .bind (.gets _) fun rep => .ite ?_ (.pure _)
  rw [if_neg (by rw [hslow]; nofun)]
  exact .pure _

theorem readKeys_steady (hslow : env.cfg.mode = .slow) (tid : TxnId) (keys : List Key) :
    Steadies env member r₀ fin k (readKeys env tid keys) := by
  induction keys with
  | nil => exact .pure _
  | cons key keys ih =>
      refine .bind (readKey_steady hslow tid key) fun v => ?_
      cases v with
      | none => exact .pure _
      | some v => exact .bind ih fun _ => .pure _

theorem handleRead_steady (hslow : env.cfg.mode = .slow) {remote : Addr}
    (hremote : ∀ c, remote ≠ .coordinator c) (msg : GetData) :
    Steadies env member r₀ fin k (handleRead env remote msg) :=
  .bind (readKeys_steady hslow _ _) fun _ => sendMessage_steady trivial hremote

/-! ### The round -/

/-- The rounds and the askers change. -/
theorem Steady.setRounds (hx : Steady env member r₀ fin k x)
    {prepares : Table TxnId PendingPrepare} {askers : Table TxnId (Option Addr)}
    (hopened : ∀ tid req, prepares.lookup tid = some req → env.isLeader = true ∧
      req.tid = tid ∧ ((member tid ∧ env.shardId ∈ req.participants) ∨
        askers.lookup tid = some (some .sendOnly)))
    (hown : ∀ tid req, prepares.lookup tid = some req →
      req.participantReplies.lookup env.shardId = some .prepareOk → x.state.Voted tid)
    (haskers : ∀ tid a, askers.lookup tid = some (some a) →
      a = .sendOnly ∨ ∃ t s, a = .client t s) :
    Steady env member r₀ fin k { x with state := { x.state with
      pendingPrepares := prepares, prepareClientList := askers } } :=
  hx.update ⟨hx.plain.alone, hx.plain.leads, hx.plain.timed, hopened, hown, haskers⟩
    (fun _ h => h) rfl

/-- A write to an open round that leaves its participants alone. -/
theorem Steady.setPrepare (hx : Steady env member r₀ fin k x) {req req' : PendingPrepare}
    (hreq : x.state.pendingPrepares.lookup tid = some req) (htid : req'.tid = req.tid)
    (hparts : req'.participants = req.participants)
    (hown : req'.participantReplies.lookup env.shardId = some .prepareOk → x.state.Voted tid) :
    Steady env member r₀ fin k { x with state := { x.state with
      pendingPrepares := x.state.pendingPrepares.insert tid req' } } := by
  refine hx.setRounds (fun t q hq => ?_) (fun t q hq ho => ?_) hx.plain.askers
  · rw [Table.lookup_insert_eq] at hq
    split_ifs at hq with ht
    · cases hq
      obtain ⟨hlead, hid, hround⟩ := hx.plain.opened tid req hreq
      rw [hparts, htid, ht]
      exact ⟨hlead, hid, hround⟩
    · exact hx.plain.opened t q hq
  · rw [Table.lookup_insert_eq] at hq
    split_ifs at hq with ht
    · cases hq
      rw [ht]
      exact hown ho
    · exact hx.plain.own t q hq ho

theorem erasePrepare_steady : Steadies env member r₀ fin k (erasePrepare tid) := fun _ hx =>
  hx.setRounds (fun t q hq => hx.plain.opened t q (lookup_of_erase hq))
    (fun t q hq => hx.plain.own t q (lookup_of_erase hq)) hx.plain.askers

/-- The pieces go to leaders. -/
theorem sendPrepare_steady (hslow : env.cfg.mode = .slow) :
    Steadies env member r₀ fin k (sendPrepare env ω tid) := by
  refine .bind (.gets _) fun _ => .bind (.deref _) fun req => .forM fun p _ => ?_
  rw [hslow, if_pos rfl]
  refine .ite (.bind (fun x hx => ?_) fun _ => fun y hy => ?_) erasePrepare_steady
  · refine hx.send (fun q hq => ?_) fun q hq m s i hm => ?_
    · rw [List.mem_singleton.1 hq]
      exact ⟨(fun _ h => by cases h), (fun _ h => by cases h), p.1.1, rfl⟩
    · rw [List.mem_singleton.1 hq] at hm
      cases hm
  · rw [wp_modifyPrepare, mapPrepare]
    split
    · exact hy
    · rename_i req hreq
      exact hy.setPrepare hreq rfl rfl fun ho => hy.plain.own tid req hreq ho

/-- A round begins for a client and the participants, or for nobody. -/
theorem handlePrepare_steady (hslow : env.cfg.mode = .slow) (hlead : env.isLeader = true)
    {remote : Addr} {msg : PrepareTransaction} (hremote : remote = .sendOnly ∨
      (∃ t s, remote = .client t s) ∧ member msg.tid ∧ env.shardId ∈ msg.participants)
    (hnew : x.state.pendingPrepares.lookup msg.tid = none) (hx : Steady env member r₀ fin k x) :
    wp (handlePrepare env ω remote msg) (fun _ => Steady env member r₀ fin k)
      (Weak env member fin k) x := by
  rw [handlePrepare, wp_bind, wp_update, wp_bind, wp_read]
  split
  · rw [wp_bind, wp_update]
    refine wp_mono (fun _ _ hy => hy) (fun _ hy => hy.toWeak) (sendPrepare_steady hslow _
      (hx.setRounds (fun t q hq => ?_) (fun t q hq ho => ?_) fun t a ha => ?_))
    · rw [Table.lookup_insert_eq] at hq
      split_ifs at hq with ht
      · cases hq
        refine ⟨hlead, ht.symm, ?_⟩
        rw [ht]
        rcases hremote with rfl | ⟨_, hmember⟩
        · exact .inr (AList.lookup_insert _)
        · exact .inl hmember
      · obtain ⟨hlead, hid, hround⟩ := hx.plain.opened t q hq
        refine ⟨hlead, hid, hround.imp_right fun hnobody => ?_⟩
        rw [Table.lookup_insert_eq, if_neg ht]
        exact hnobody
    · rw [Table.lookup_insert_eq] at hq
      split_ifs at hq with ht
      · cases hq
        cases ho
      · exact hx.plain.own t q hq ho
    · rw [Table.lookup_insert_eq] at ha
      split_ifs at ha with ht
      · cases ha
        exact hremote.imp_right fun h => h.1
      · exact hx.plain.askers t a ha
  · rename_i hsome
    rw [hnew] at hsome
    cases hsome

/-! ### Prepare -/

/-- An answer that is no vote, or a vote for a transaction that is at consensus or decided. -/
theorem answerPrepare_steady (hslow : env.cfg.mode = .slow) {remote : Addr}
    {msg : PrepareTransaction} {reply : PrepareTransactionReply}
    (hreply : reply.state = .prepareOk → reply.shard = env.shardId ∧ env.isLeader = true ∧ x.state.Voted reply.tid)
    (hx : Steady env member r₀ fin k x) :
    wp (answerPrepare env remote msg reply) (fun _ => Steady env member r₀ fin k)
      (Steady env member r₀ fin k) x := by
  rw [answerPrepare, if_pos hslow]
  exact hx.report _ _ _ hreply

theorem refusePrepare_steady {remote : Addr} (hremote : ∀ c, remote ≠ .coordinator c)
    (msg : PrepareTransaction) : Steadies env member r₀ fin k (refusePrepare env remote msg) := by
  intro x hx
  refine hx.send (fun p hp => ?_) fun p hp m s i hm hok => ?_
  · rw [List.mem_singleton.1 hp]
    exact ⟨nofun, hremote, nofun⟩
  · rw [List.mem_singleton.1 hp] at hm
    cases hm
    cases hok

/-- The leader enters an accepted transaction. -/
theorem logPrepare_steady (hmode : env.cfg.mode ≠ .rc) (hlead : env.isLeader = true)
    {remote : Addr} {txn : Transaction} (hout : txn.out = []) (hopen : x.state.Unreached txn.id)
    (hx : Steady env member r₀ fin k x) :
    wp (logPrepare env ω remote txn) (fun _ => Steady env member r₀ fin k)
      (Weak env member fin k) x := by
  have hx₁ : Steady env member r₀ fin k { x with state := { x.state with
      activeTxns := x.state.activeTxns.insert txn.id (some txn) } } := by
    refine hx.setActive fun t txn' htxn => ?_
    rw [Table.lookup_insert_eq] at htxn
    split_ifs at htxn
    · cases htxn
      exact .inr hout
    · exact .inl htxn
  have hset : ∀ (r : Replica) (lsn : ℕ) (e : LogEntry), SamePlain { x.state with
      activeTxns := x.state.activeTxns.insert txn.id (some txn) } r →
      Steady env member r₀ fin k { x with state := r, events := x.events ++ [.logged lsn e] } :=
    fun r lsn e hr => (hx₁.same hr).emit (fun _ _ h => by cases h)
  simp only [logPrepare, wp_bind, wp_update, wp_read, wp_emit]
  exact invokeReplicateTxn_steady hmode hlead hopen (hset _ _ _ ⟨rfl, rfl, rfl, rfl, rfl⟩)

theorem acceptChecked_steady (hslow : env.cfg.mode = .slow) (hlead : env.isLeader = true)
    {remote : Addr} {txn : Transaction} (hout : txn.out = []) (hopen : x.state.Unreached txn.id)
    (doCheck : Bool) (hx : Steady env member r₀ fin k x) :
    wp (acceptChecked env ω remote txn doCheck) (fun _ => Steady env member r₀ fin k)
      (Weak env member fin k) x := by
  have haccept : ∀ y : Ctx Replica Addr Msg Event, y.state.Unreached txn.id →
      Steady env member r₀ fin k y → wp (acceptPrepare env ω remote txn)
        (fun _ => Steady env member r₀ fin k) (Weak env member fin k) y := by
    intro y hopen hy
    simp only [acceptPrepare, hslow, hlead, reduceCtorEq, false_and, if_false, decide_false,
      wp_bind, wp_when, false_implies, true_and, and_true, forall_const]
    exact logPrepare_steady (by rw [hslow]; intro h; cases h) hlead hout hopen hy
  rw [acceptChecked, wp_bind, wp_when]
  exact ⟨fun _ => haccept _ hopen (hx.emit (fun _ _ h => by cases h)), fun _ => haccept _ hopen hx⟩

/-- The concurrency control of the leader. -/
theorem prepareNew_steady (hslow : env.cfg.mode = .slow) (hlead : env.isLeader = true)
    {remote : Addr} (hremote : ∀ c, remote ≠ .coordinator c) {msg : PrepareTransaction}
    (hopen : x.state.Unreached msg.tid) (hx : Steady env member r₀ fin k x) :
    wp (prepareNew env ω remote msg) (fun _ => Steady env member r₀ fin k)
      (Weak env member fin k) x := by
  have hset : ∀ r : Replica, SamePlain x.state r →
      Steady env member r₀ fin k { x with state := r } := fun r hr => hx.same hr
  have hkeep : ∀ r : Replica, r.pendingTxns = x.state.pendingTxns → r.Unreached msg.tid :=
    fun r hr req hreq => hopen req (hr ▸ hreq)
  simp only [prepareNew, wp_bind, wp_update, wp_read, wp_withStore, wp_ite]
  refine ⟨fun _ => ?_, fun _ => ?_⟩
  · exact wp_mono (fun _ _ hy => hy) (fun _ hy => hy.toWeak)
      (refusePrepare_steady hremote msg _ (hset _ ⟨rfl, rfl, rfl, rfl, rfl⟩))
  · exact acceptChecked_steady hslow hlead rfl (hkeep _ rfl) _
      (hset _ ⟨rfl, rfl, rfl, rfl, rfl⟩)

/-- The source of a prepare: nobody, or a client that tells the primary shard who takes part. -/
def Asker (env : ReplicaEnv) (member : TxnId → Prop) (remote : Addr) (msg : PrepareTransaction) :
    Prop :=
  remote = .sendOnly ∨
    (∃ t s, remote = .client t s) ∧ member msg.tid ∧ env.shardId ∈ msg.participants

theorem Asker.ne_coordinator {remote : Addr} {msg : PrepareTransaction}
    (h : Asker env member remote msg) (c : ℕ) : remote ≠ .coordinator c := by
  rcases h with rfl | ⟨⟨t, s, rfl⟩, _⟩
  · intro h
    cases h
  · intro h
    cases h

theorem handlePrepareTxn_steady (hslow : env.cfg.mode = .slow) (hlead : env.isLeader = true)
    {remote : Addr} {msg : PrepareTransaction} (hremote : Asker env member remote msg)
    (hx : Steady env member r₀ fin k x) :
    wp (handlePrepareTxn env ω remote msg) (fun _ => Steady env member r₀ fin k)
      (Weak env member fin k) x := by
  rw [handlePrepareTxn, wp_bind, wp_read, wp_ite]
  refine ⟨fun hround => ?_, fun _ => ?_⟩
  · exact handlePrepare_steady hslow hlead hremote (AList.lookup_eq_none.2 hround.2.2) hx
  rw [wp_bind, wp_read, wp_ite]
  refine ⟨fun _ => hx.same ⟨rfl, rfl, rfl, rfl, rfl⟩, fun _ => ?_⟩
  rw [wp_bind, wp_read]
  split
  · rename_i state timestamp hdone
    exact wp_mono (fun _ _ hy => hy) (fun _ hy => hy.toWeak) (answerPrepare_steady hslow
      (fun _ => ⟨rfl, hlead, .inr (AList.lookup_isSome.1 (by rw [hdone]; rfl))⟩) hx)
  · rw [wp_bind, wp_read]
    split
    · rename_i hnone
      refine prepareNew_steady hslow hlead hremote.ne_coordinator (fun req hreq => ?_) hx
      rw [hnone] at hreq
      cases hreq
    · rename_i req hreq
      rw [wp_ite]
      refine ⟨fun hreach => ?_, fun hopen => ?_⟩
      · simp only [wp_bind, wp_derefActive]
        refine ⟨fun txn _ => ?_, fun _ => hx.toWeak, fun _ => hx.dead _⟩
        exact wp_mono (fun _ _ hy => hy) (fun _ hy => hy.toWeak) (answerPrepare_steady hslow
          (fun _ => ⟨rfl, hlead, .inl ⟨req, hreq, hreach⟩⟩) hx)
      · refine prepareNew_steady hslow hlead hremote.ne_coordinator (fun q hq => ?_) hx
        rw [hreq] at hq
        rw [← Option.some.inj hq]
        exact eq_false_of_ne_true hopen

/-! ### The final decision -/

/-- What holds of a transaction whose client is told that it is prepared. -/
def Disclosed (r₀ : Replica) (k : TxnId → Prop) (events : List Event) (tid : TxnId) : Prop :=
  .finalDecision tid ∈ events ∧ (tid ∈ r₀.committedTxns ∨ .cascaded tid ∈ events ∨ k tid)

theorem Weak.weaken (hx : Weak env member fin k x) (hfin : ∀ tid, fin tid → fin' tid)
    (hdecided : ∀ tid, fin' tid → .finalDecision tid ∈ x.events) : Weak env member fin' k x := by
  refine ⟨fun p hp => ?_, hx.applied, hdecided⟩
  obtain ⟨hsrc, hdst, hmsg⟩ := hx.sent p hp
  refine ⟨hsrc, hdst, ?_⟩
  cases hm : p.msg with
  | prepareTransactionReply m =>
      rw [hm] at hmsg
      refine fun hok => ⟨fun t s hd => ?_, (hmsg hok).2⟩
      obtain ⟨hlead, hmember, htold⟩ := (hmsg hok).1 t s hd
      exact ⟨hlead, hmember, hfin _ htold⟩
  | prepareTransaction m =>
      rw [hm] at hmsg
      exact hmsg
  | _ => trivial

theorem Weak.disclosed (hx : Weak env member fin k x)
    (hfin : ∀ tid, fin tid → tid ∈ r₀.committedTxns ∨ .cascaded tid ∈ x.events ∨ k tid) :
    Weak env member (Disclosed r₀ k x.events) k x :=
  hx.weaken (fun tid h => ⟨hx.decided tid h, hfin tid h⟩) fun _ h => h.1

theorem Steady.disclosed (hx : Steady env member r₀ fin k x)
    (hfin : ∀ tid, fin tid → tid ∈ r₀.committedTxns ∨ .cascaded tid ∈ x.events ∨ k tid) :
    Steady env member r₀ (Disclosed r₀ k x.events) k x :=
  ⟨hx.toWeak.disclosed hfin, hx.plain, hx.kept, hx.backed, hx.done⟩

/-- Nobody has been told. -/
theorem Weak.disclosed_none (hx : Weak env member (fun _ => False) k x) :
    Weak env member (Disclosed r₀ k x.events) k x := hx.disclosed (fun _ h => by cases h)

theorem Steady.disclosed_none (hx : Steady env member r₀ (fun _ => False) k x) :
    Steady env member r₀ (Disclosed r₀ k x.events) k x := hx.disclosed (fun _ h => by cases h)

/-- The round of the transaction is over. -/
theorem Steady.endRound (hx : Steady env member r₀ fin k x) (tid : TxnId) :
    Steady env member r₀ fin k { x with state := { x.state with
      pendingPrepares := x.state.pendingPrepares.erase tid
      prepareClientList := x.state.prepareClientList.erase tid } } := by
  refine hx.setRounds (fun t q hq => ?_)
    (fun t q hq => hx.plain.own t q (lookup_of_erase hq))
    fun t a ha => hx.plain.askers t a (lookup_of_erase ha)
  obtain ⟨hlead, hid, hround⟩ := hx.plain.opened t q (lookup_of_erase hq)
  refine ⟨hlead, hid, hround.imp_right fun hnobody => ?_⟩
  rw [Table.lookup_erase_eq] at hq ⊢
  split_ifs at hq with ht
  rw [if_neg ht]
  exact hnobody

/-- An asker that is missing or null kills the process. -/
theorem wp_derefAsker {Q : Addr → Ctx Replica Addr Msg Event → Prop}
    {D : Ctx Replica Addr Msg Event → Prop} (tid : TxnId) :
    wp (prepareClientPtr tid) (fun p => wp (deref p) Q D) D x ↔
      (∀ a, x.state.prepareClientList.lookup tid = some (some a) → Q a x) ∧
      (x.state.prepareClientList.lookup tid = some none → D x) ∧
      (x.state.prepareClientList.lookup tid = none → D { x with state := { x.state with
        prepareClientList := x.state.prepareClientList.insert tid none } }) := by
  simp only [prepareClientPtr, wp_bind, wp_read]
  rcases x.state.prepareClientList.lookup tid with _ | _ | a <;> simp

/-- Who is told that the transaction is prepared. -/
def Heard (env : ReplicaEnv) (req : PendingPrepare) (tid : TxnId) : Prop :=
  tid = req.tid ∧ req.finalDecision = .prepareOk ∧ env.shardId ∈ req.participants

/-- The answer to the asker. -/
theorem Steady.answer (hx : Steady env member r₀ (fun _ => False) k x) {req : PendingPrepare}
    (hreq : x.state.pendingPrepares.lookup tid = some req)
    (hdecided : req.finalDecision = .prepareOk → .finalDecision tid ∈ x.events)
    {remote : Addr} (hremote : x.state.prepareClientList.lookup tid = some (some remote))
    {m : PrepareTransactionReply} (hm : m.tid = tid) (hstate : m.state = req.finalDecision) :
    Steady env member r₀ (Heard env req) k { x with sent := x.sent ++
      [⟨env.addr, remote, .prepareTransactionReply m⟩] } := by
  obtain ⟨hlead, htid, hround⟩ := hx.plain.opened tid req hreq
  have hx₁ : Steady env member r₀ (Heard env req) k x := by
    refine ⟨hx.toWeak.weaken (fun _ h => h.elim) fun t ht => ?_, hx.plain, hx.kept, hx.backed,
      hx.done⟩
    rw [ht.1, htid]
    exact hdecided ht.2.1
  have hasker := hx.plain.askers tid remote hremote
  refine hx₁.send (fun p hp => ?_) fun p hp _ s i _ _ hdst => ?_
  · rw [List.mem_singleton.1 hp]
    refine ⟨(fun _ h => by cases h), ?_, fun hok => ⟨fun t s hdst => ?_, fun s i hdst => ?_⟩⟩
    · rcases hasker with rfl | ⟨t, s, rfl⟩
      · intro _ h
        cases h
      · intro _ h
        cases h
    · rcases hround with ⟨hmember, hparts⟩ | hnobody
      · rw [hm]
        exact ⟨hlead, hmember, htid.symm, hstate.symm.trans hok, hparts⟩
      · rw [hremote, show remote = _ from hdst] at hnobody
        cases hnobody
    · rcases hasker with rfl | ⟨t, s, rfl⟩
      · cases hdst
      · cases hdst
  · rw [List.mem_singleton.1 hp] at hdst
    rcases hasker with rfl | ⟨t, s, rfl⟩
    · cases hdst
    · cases hdst

/-- **The client is answered**, and the own shard decides: a transaction that the own shard voted
for is aborted. -/
theorem replyFinalDecision_steady (hslow : env.cfg.mode = .slow) {req : PendingPrepare}
    (hreq : x.state.pendingPrepares.lookup tid = some req) (hstate : req.finalDecision ≠ .commit)
    (hdecided : req.finalDecision = .prepareOk → .finalDecision tid ∈ x.events)
    (hvoted : env.shardId ∈ req.participants → req.finalDecision = .prepareOk →
      tid ∈ r₀.committedTxns ∨
        ∃ q, x.state.pendingTxns.lookup tid = some q ∧ x.state.log.find q.lsn ≠ none)
    (hx : Steady env member r₀ (fun _ => False) k x) :
    wp (replyFinalDecision env ω tid)
      (fun _ y => Steady env member r₀ (Disclosed r₀ k y.events) k y)
      (fun y => Weak env member (Disclosed r₀ k y.events) k y) x := by
  obtain ⟨hlead, htid, hround⟩ := hx.plain.opened tid req hreq
  have hdead : ∀ r : Replica, Weak env member (Disclosed r₀ k x.events) k { x with state := r } :=
    fun r => (hx.dead r).disclosed_none
  rw [replyFinalDecision, wp_bind, wp_read, wp_bind, hreq, wp_deref_some, wp_bind]
  simp only [wp_bind, htid, wp_derefAsker]
  refine ⟨fun remote hremote => ?_, fun _ => hdead _, fun _ => hdead _⟩
  have hsent := hx.answer hreq hdecided hremote (m := {
    tid := tid, state := req.finalDecision, timestamp := req.timestamp, shard := env.shardId
    replica := env.replicaId }) rfl rfl
  simp only [wp_sendMessage, wp_when, hslow, reduceCtorEq, decide_false, decide_true, false_implies,
    true_and, and_true, forall_const]
  rw [wp_bind]
  refine wp_mono (fun _ y hy => ?_) (fun y hy => ?_)
    (handleCommit_steady hslow (fun hcommit => absurd hcommit hstate) hsent)
  · obtain ⟨hy, hdone⟩ := hy
    refine (hy.endRound tid).disclosed fun t ht => ?_
    rw [ht.1, htid]
    rcases hvoted ht.2.2 ht.2.1 with hold | ⟨q, hq, _⟩
    · exact .inl hold
    · exact hy.done tid (hdone (AList.lookup_isSome.1 (by rw [hq]; rfl)))
  · obtain ⟨hy, hdone⟩ := hy
    refine hy.disclosed fun t ht => ?_
    rw [ht.1, htid]
    rcases hvoted ht.2.2 ht.2.1 with hold | ⟨q, hq, hlog⟩
    · exact .inl hold
    · exact .inr (hdone ht.2.1 q hq hlog)

theorem reachConsensusOnFinalDecision_ne_commit {req : PendingPrepare} {decision : LogEntryState}
    (h : reachConsensusOnFinalDecision env req = some decision) : decision ≠ .commit := by
  simp only [reachConsensusOnFinalDecision] at h
  split_ifs at h
  · rw [← Option.some.inj h]
    intro h
    cases h
  · rw [← Option.some.inj h]
    intro h
    cases h

/-- **A reply at the primary shard.** -/
theorem handlePrepareTransactionReply_steady (hslow : env.cfg.mode = .slow)
    {msg : PrepareTransactionReply}
    (hvote : env.isLeader = true → msg.state = .prepareOk → msg.shard = env.shardId →
      x.state.Voted msg.tid)
    (hlogged : ∀ q, x.state.pendingTxns.lookup msg.tid = some q → x.state.log.find q.lsn ≠ none)
    (hx : Steady env member x.state (fun _ => False) k x) :
    wp (handlePrepareTransactionReply env ω msg)
      (fun _ y => Steady env member x.state (Disclosed x.state k y.events) k y)
      (fun y => Weak env member (Disclosed x.state k y.events) k y) x := by
  rw [handlePrepareTransactionReply, wp_bind, wp_read]
  split
  · exact hx.disclosed_none
  rename_i req hreq
  obtain ⟨hlead, htid, hround⟩ := hx.plain.opened msg.tid req hreq
  have hown := hx.plain.own msg.tid req hreq
  have hreplied : (req.participantReplies.insert msg.shard msg.state).lookup env.shardId =
      some .prepareOk → msg.state = .prepareOk → x.state.Voted msg.tid := by
    intro ho hok
    rw [Table.lookup_insert_eq] at ho
    split_ifs at ho with hs
    · exact hvote hlead hok hs.symm
    · exact hown ho
  have hset : ∀ q : PendingPrepare, q.tid = req.tid → q.participants = req.participants →
      (q.participantReplies.lookup env.shardId = some .prepareOk → x.state.Voted msg.tid) →
      Steady env member x.state (fun _ => False) k { x with state := { x.state with
        pendingPrepares := x.state.pendingPrepares.insert msg.tid q } } :=
    fun q hid hparts ho => hx.setPrepare hreq hid hparts ho
  have hfound : ∀ q : PendingPrepare, AList.lookup msg.tid ({ x.state with
      pendingPrepares := x.state.pendingPrepares.insert msg.tid q } : Replica).pendingPrepares =
        some q := fun q => AList.lookup_insert _
  rw [wp_ite]
  refine ⟨fun _ => ?_, fun _ => ?_⟩
  · -- the decision of another region
    rw [wp_bind, wp_modifyPrepare, mapPrepare_some hreq]
    split
    · rw [wp_pure]
      refine Steady.disclosed_none ?_
      exact hset _ rfl rfl hown
    · rename_i decision hdecision
      rw [wp_bind, wp_modifyPrepare, mapPrepare_some (hfound _), AList.insert_insert, wp_bind]
      refine wp_mono (fun _ y hy => ?_) (fun y hy => hy.1.disclosed_none)
        (handleCommit_steady hslow (fun hcommit =>
          absurd hcommit (reachConsensusOnFinalDecision_ne_commit hdecision)) (hset _ rfl rfl hown))
      exact (hy.1.endRound req.tid).disclosed_none
  · rw [wp_ite]
    refine ⟨fun hok => ?_, fun _ => ?_⟩
    · rw [wp_ite]
      refine ⟨fun _ => hx.disclosed_none, fun _ => ?_⟩
      rw [wp_bind, wp_modifyPrepare, mapPrepare_some hreq, wp_ite]
      refine ⟨fun _ => ?_, fun _ => ?_⟩
      · rw [wp_pure]
        refine Steady.disclosed_none ?_
        exact hset _ rfl rfl fun ho => hreplied ho hok
      · obtain ⟨hall, hkept⟩ := reachFinalDecision_spec
          (req.participantReplies.insert msg.shard msg.state) req.participants
        rw [wp_bind, wp_modifyPrepare, mapPrepare_some (hfound _), AList.insert_insert, wp_ite]
        refine ⟨fun hreached => ?_, fun _ => ?_⟩
        · rw [wp_bind, wp_modifyPrepare, mapPrepare_some (hfound _), AList.insert_insert, wp_bind,
            wp_emit]
          have hx₁ : ∀ q : PendingPrepare, q.tid = req.tid → q.participants = req.participants →
              q.participantReplies = (reachFinalDecision
                (req.participantReplies.insert msg.shard msg.state) req.participants).2 →
              Steady env member x.state (fun _ => False) k { x with
                state := { x.state with
                  pendingPrepares := x.state.pendingPrepares.insert msg.tid q }
                events := x.events ++ [.finalDecision msg.tid] } := fun q hid hparts hreplies =>
            (hset q hid hparts fun ho => hreplied (hkept _ (hreplies ▸ ho)) hok).emit (fun _ _ h => by cases h)
          refine replyFinalDecision_steady hslow (hfound _) (fun h => by cases h)
            (fun _ => List.mem_append_right _ (List.mem_singleton_self _)) (fun hmem _ => ?_)
            (hx₁ _ rfl rfl rfl)
          rcases hreplied (hall hreached _ hmem) hok with ⟨q, hq, _⟩ | hdone
          · exact .inr ⟨q, hq, hlogged q hq⟩
          · exact .inl hdone
        · rw [wp_pure]
          refine Steady.disclosed_none ?_
          exact hset _ rfl rfl fun ho => hreplied (hkept _ ho) hok
    · rw [wp_bind, wp_modifyPrepare, mapPrepare_some hreq]
      exact replyFinalDecision_steady hslow (hfound _) (fun h => by cases h) (fun h => by cases h) (fun _ h => by cases h)
        (hset _ rfl rfl hown)

/-! ### A step -/

/-- What a replica may be given in the slow mode. -/
def Admits (env : ReplicaEnv) (member k : TxnId → Prop) (r : Replica) (src : Addr) : Msg → Prop
  | .prepareTransaction m => env.isLeader = true ∧ Asker env member src m
  | .prepareTransactionReply m => env.isLeader = true → m.state = .prepareOk →
      m.shard = env.shardId → r.Voted m.tid
  | .commit m => m.state = .commit → k m.tid
  | .notifyDecision _ | .notifyReplicateResult _ | .parallelModeCommit _ => False
  | _ => True

/-- **Every message** keeps the invariant, and who is told that its transaction is prepared gets
it aborted here, unless there is the reason. -/
theorem handleMessage_steady (hslow : env.cfg.mode = .slow) {src : Addr} {msg : Msg}
    (hsrc : ∀ c, src ≠ .coordinator c) (hmsg : Admits env member k x.state src msg)
    (hlogged : ∀ tid q, x.state.pendingTxns.lookup tid = some q → x.state.log.find q.lsn ≠ none)
    (hx : Steady env member x.state (fun _ => False) k x) :
    wp (handleMessage env ω src msg)
      (fun _ y => Steady env member x.state (Disclosed x.state k y.events) k y)
      (fun y => Weak env member (Disclosed x.state k y.events) k y) x := by
  -- only the replies answer a client
  have hquiet : ∀ {p : ReplicaM Unit}, wp p
      (fun _ => Steady env member x.state (fun _ => False) k)
      (Weak env member (fun _ => False) k) x → wp p
      (fun _ y => Steady env member x.state (Disclosed x.state k y.events) k y)
      (fun y => Weak env member (Disclosed x.state k y.events) k y) x := fun h =>
    wp_mono (fun _ _ hy => hy.disclosed_none) (fun _ hy => hy.disclosed_none) h
  have hkeep : ∀ {p : ReplicaM Unit}, Steadies env member x.state (fun _ => False) k p →
      wp p (fun _ y => Steady env member x.state (Disclosed x.state k y.events) k y)
        (fun y => Weak env member (Disclosed x.state k y.events) k y) x := fun h =>
    hquiet (wp_mono (fun _ _ hy => hy) (fun _ hy => hy.toWeak) (h x hx))
  cases msg with
  | replicateTransaction m => exact hkeep (handleReplicateTransaction_steady hslow hsrc m)
  | replicateTransactionReply m => exact hquiet (handleReplicateTransactionReply_steady hslow m hx)
  | prepareTransaction m => exact hquiet (handlePrepareTxn_steady hslow hmsg.1 hmsg.2 hx)
  | prepareTransactionReply m =>
      exact handlePrepareTransactionReply_steady hslow hmsg (hlogged m.tid) hx
  | commit m =>
      exact hquiet (wp_mono (fun _ _ hy => hy.1) (fun _ hy => hy.1)
        (handleCommit_steady hslow hmsg hx))
  | replicateCommit m => exact hkeep (handleReplicateCommit_steady hslow m)
  | getData m => exact hkeep (handleRead_steady hslow hsrc m)
  | notifyDecision m => exact hmsg.elim
  | notifyReplicateResult m => exact hmsg.elim
  | parallelModeCommit m => exact hmsg.elim
  | _ => exact hx.toWeak.disclosed_none

theorem handleTimer_steady (hslow : env.cfg.mode = .slow) (t : Timer)
    (hvoted : ∀ tid req b, x.state.pendingTxns.lookup tid = some req →
      req.timer = some (.resendPrepareOk b) → req.reachConsensus = true)
    (hx : Steady env member r₀ fin k x) :
    wp (handleTimer env ω t) (fun _ => Steady env member r₀ fin k) (Weak env member fin k) x := by
  cases t with
  | pendingTxn tid => exact handleTimer_pendingTxn_steady hslow (hvoted tid) hx
  | pendingPrepare tid =>
      rw [handleTimer, wp_bind, wp_read]
      split
      · exact hx
      · rw [wp_ite]
        exact ⟨fun _ => wp_mono (fun _ _ hy => hy) (fun _ hy => hy.toWeak)
          (sendPrepare_steady hslow x hx), fun _ => hx⟩

end Replica

end D2PC
