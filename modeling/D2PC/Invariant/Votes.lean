import D2PC.Invariant.History
import D2PC.Invariant.Kinds
import D2PC.Store.Obstacles

/-!
# No vote without validation

In every mode, what a leader replicates and what it answers with `LOG_STATE_PREPAREOK` it has
validated. A refused transaction leaves nothing behind that could later be taken for a vote: a
log entry, a pending transaction other than the placeholder of `HandleParallelModeCommit`, or a
reply in flight.

The one way around it is a round of the slow modes in which the primary shard does not take
part itself: there `ReachFinalDecision` does not ask for its own vote (`OwnRound`).

* `VoteOk`, `VotePkt` : the invariant of a replica and of a packet. It carries a further fact
  `K` about the history along, which handlers called in the middle of others need;
* `Spoken` : what holds of the packets a replica sends;
* `Replica.handleInput_votes` : a step of a replica keeps the invariant.
-/

namespace D2PC

open Prog Ctx

/-- What holds of a packet: the leader of the shard it speaks for validated the transaction. -/
def VotePkt (cfg : Config) (h : History) (p : Pkt) : Prop :=
  match p.msg with
  | .replicateTransaction m =>
      ∃ s j j', p.src = .replica s j ∧ p.dst = .replica s j' ∧ Validated cfg h s m.txnLog.txnId
  | .replicateTransactionReply m => ∃ s j, p.dst = .replica s j ∧ Validated cfg h s m.txnId
  | .prepareTransactionReply m =>
      m.state = .prepareOk → m.replica = cfg.leader m.shard → Validated cfg h m.shard m.tid
  | _ => True

theorem VotePkt.mono {cfg : Config} {h es : History} {p : Pkt} (hp : VotePkt cfg h p) :
    VotePkt cfg (h ++ es) p := by
  obtain ⟨src, dst, msg⟩ := p
  cases msg with
  | replicateTransaction m =>
      obtain ⟨s, j, j', h₁, h₂, h₃⟩ := hp
      exact ⟨s, j, j', h₁, h₂, h₃.mono⟩
  | replicateTransactionReply m =>
      obtain ⟨s, j, h₁, h₂⟩ := hp
      exact ⟨s, j, h₁, h₂.mono⟩
  | prepareTransactionReply m => exact fun hst hr => (hp hst hr).mono
  | _ => trivial

/-- What holds of a packet that replica `i` of shard `s` sends: the leader speaks only for
transactions it validated, and whoever else answers `LOG_STATE_PREPAREOK` on its own gives its
own number. -/
def Spoken (cfg : Config) (s : Shard) (i : ℕ) (h : History) (p : Pkt) : Prop :=
  match p.msg with
  | .replicateTransaction m =>
      p.src = .replica s i ∧ (∃ j, p.dst = .replica s j) ∧ Validated cfg h s m.txnLog.txnId
  | .replicateTransactionReply m => (∃ j, p.dst = .replica s j) ∧ Validated cfg h s m.txnId
  | .prepareTransactionReply m => m.shard = s ∧
      (m.state = .prepareOk → Validated cfg h s m.tid ∨ (i ≠ cfg.leader s ∧ m.replica = i))
  | _ => True

theorem Spoken.mono {cfg : Config} {s : Shard} {i : ℕ} {h es : History} {p : Pkt}
    (hp : Spoken cfg s i h p) : Spoken cfg s i (h ++ es) p := by
  obtain ⟨src, dst, msg⟩ := p
  cases msg with
  | replicateTransaction m => exact ⟨hp.1, hp.2.1, hp.2.2.mono⟩
  | replicateTransactionReply m => exact ⟨hp.1, hp.2.mono⟩
  | prepareTransactionReply m => exact ⟨hp.1, fun hst => (hp.2 hst).imp_left Validated.mono⟩
  | _ => trivial

theorem Spoken.votePkt {cfg : Config} {s : Shard} {i : ℕ} {h : History} {p : Pkt}
    (hp : Spoken cfg s i h p) : VotePkt cfg h p := by
  obtain ⟨src, dst, msg⟩ := p
  cases msg with
  | replicateTransaction m =>
      obtain ⟨hsrc, ⟨j, hdst⟩, hval⟩ := hp
      exact ⟨s, i, j, hsrc, hdst, hval⟩
  | replicateTransactionReply m =>
      obtain ⟨⟨j, hdst⟩, hval⟩ := hp
      exact ⟨s, j, hdst, hval⟩
  | prepareTransactionReply m =>
      obtain ⟨hshard, hvote⟩ := hp
      intro hst hleader
      rw [hshard] at hleader ⊢
      rcases hvote hst with hval | ⟨hne, hrep⟩
      · exact hval
      · rw [hrep] at hleader
        exact absurd hleader hne
  | _ => trivial

/-- A pending transaction. Until the leader validated it, it is a placeholder: no participant,
no consensus and nothing to send again. -/
structure PendingVote (cfg : Config) (s : Shard) (h : History) (l : Log) (tid : TxnId)
    (req : PendingTransaction) : Prop where
  consensus : req.reachConsensus = true → Validated cfg h s tid
  participant : req.isParticipant = true → Validated cfg h s tid
  resend : ∀ b, req.timer = some (.resendReplicateTxn b) → ∃ e, l.find req.lsn = some e
  prepareOk : ∀ b, req.timer = some (.resendPrepareOk b) → req.reachConsensus = true

/-- A round of the slow modes at the leader of the primary shard: the own vote is needed. -/
structure RoundVote (cfg : Config) (s : Shard) (h : History) (tid : TxnId) (req : PendingPrepare) :
    Prop where
  own : s ∈ req.participants
  vote : req.participantReplies.lookup s = some .prepareOk → Validated cfg h s tid

/-- Nothing that the process `n` records ends the fact `K`, except perhaps a validation. -/
def Unmoved (n : Node) (K : History → Prop) : Prop :=
  ∀ h e, (∀ tid wset, e ≠ Event.validated tid wset) → K h → K (h ++ [(n, e)])

/-- What holds of replica `i` of shard `s`, together with the fact `K`. -/
structure VoteOk (cfg : Config) (K : History → Prop) (s : Shard) (i : ℕ) (h : History)
    (r : Replica) : Prop where
  fact : K h
  log : ∀ lsn e, r.log.find lsn = some e → Validated cfg h s e.txn
  pending : ∀ tid req, r.pendingTxns.lookup tid = some req → PendingVote cfg s h r.log tid req
  committed : ∀ tid ts, r.committedTxns.lookup tid = some (.prepareOk, ts) → Validated cfg h s tid
  rounds : ∀ tid req, r.pendingPrepares.lookup tid = some req → req.tid = tid ∧
    (i = cfg.leader s → RoundVote cfg s h tid req)

/-! ### Frames -/

section Frames

variable {cfg : Config} {K K' : History → Prop} {s : Shard} {i : ℕ} {h es : History} {r r' : Replica}
  {l l' : Log} {tid : TxnId} {req : PendingTransaction}

theorem PendingVote.mono (hp : PendingVote cfg s h l tid req) :
    PendingVote cfg s (h ++ es) l tid req :=
  ⟨fun hc => (hp.consensus hc).mono, fun hc => (hp.participant hc).mono, hp.resend, hp.prepareOk⟩

theorem PendingVote.log (hp : PendingVote cfg s h l tid req)
    (hs : ∀ lsn e, l.find lsn = some e → ∃ e', l'.find lsn = some e') :
    PendingVote cfg s h l' tid req := by
  refine ⟨hp.consensus, hp.participant, fun b hb => ?_, hp.prepareOk⟩
  obtain ⟨e, he⟩ := hp.resend b hb
  exact hs req.lsn e he

theorem RoundVote.mono {q : PendingPrepare} (hq : RoundVote cfg s h tid q) :
    RoundVote cfg s (h ++ es) tid q :=
  ⟨hq.own, fun hv => (hq.vote hv).mono⟩

theorem VoteOk.mono (hr : VoteOk cfg K s i h r) (hk : K (h ++ es)) :
    VoteOk cfg K s i (h ++ es) r where
  fact := hk
  log lsn e he := (hr.log lsn e he).mono
  pending tid req hreq := (hr.pending tid req hreq).mono
  committed tid ts hx := (hr.committed tid ts hx).mono
  rounds tid q hq := ⟨(hr.rounds tid q hq).1, fun hi => ((hr.rounds tid q hq).2 hi).mono⟩

/-- Another fact. -/
theorem VoteOk.swap (hr : VoteOk cfg K s i h r) (hk : K' h) : VoteOk cfg K' s i h r :=
  ⟨hk, hr.log, hr.pending, hr.committed, hr.rounds⟩

/-- Everything but the log, the pending and decided transactions and the rounds is free. -/
theorem VoteOk.congr (hr : VoteOk cfg K s i h r) (hlog : r'.log = r.log)
    (hpending : r'.pendingTxns = r.pendingTxns) (hcommitted : r'.committedTxns = r.committedTxns)
    (hrounds : r'.pendingPrepares = r.pendingPrepares) : VoteOk cfg K s i h r' where
  fact := hr.fact
  log := by rw [hlog]; exact hr.log
  pending := by rw [hlog, hpending]; exact hr.pending
  committed := by rw [hcommitted]; exact hr.committed
  rounds := by rw [hrounds]; exact hr.rounds

theorem VoteOk.setLog (hr : VoteOk cfg K s i h r) (hs : Log.Same r.log l') :
    VoteOk cfg K s i h { r with log := l' } := by
  refine ⟨hr.fact, fun lsn e he => ?_, fun tid req hreq => (hr.pending tid req hreq).log
    fun lsn e he => ?_, hr.committed, hr.rounds⟩
  · rcases hs.find lsn with ⟨_, hnone⟩ | ⟨e₁, e₂, h₁, h₂, hsame⟩
    · rw [hnone] at he; cases he
    · rw [h₂] at he
      cases he
      rw [hsame.txn]
      exact hr.log lsn e₁ h₁
  · rcases hs.find lsn with ⟨hnone, _⟩ | ⟨e₁, e₂, h₁, h₂, hsame⟩
    · rw [hnone] at he; cases he
    · exact ⟨e₂, h₂⟩

/-- A new entry for a validated transaction. -/
theorem VoteOk.addEntry (hr : VoteOk cfg K s i h r) {e : LogEntry} {id : ℕ}
    (hfind : ∀ lsn, l'.find lsn = if lsn = id then some e else r.log.find lsn)
    (he : Validated cfg h s e.txn) : VoteOk cfg K s i h { r with log := l' } := by
  refine ⟨hr.fact, fun lsn e' he' => ?_, fun tid req hreq => (hr.pending tid req hreq).log
    fun lsn e' he' => ?_, hr.committed, hr.rounds⟩
  · rw [hfind] at he'
    split_ifs at he' with hlsn
    · cases he'
      exact he
    · exact hr.log lsn e' he'
  · rw [hfind]
    split_ifs
    · exact ⟨e, rfl⟩
    · exact ⟨e', he'⟩

theorem VoteOk.setPending {t : TxnId} {q : PendingTransaction} (hr : VoteOk cfg K s i h r)
    (hq : PendingVote cfg s h r.log t q) :
    VoteOk cfg K s i h { r with pendingTxns := r.pendingTxns.insert t q } := by
  refine ⟨hr.fact, hr.log, fun tid' req' hreq => ?_, hr.committed, hr.rounds⟩
  rw [Table.lookup_insert_eq] at hreq
  split_ifs at hreq with htid
  · cases hreq
    rw [htid]
    exact hq
  · exact hr.pending tid' req' hreq

theorem VoteOk.mapPending {t : TxnId} (hr : VoteOk cfg K s i h r)
    {f : PendingTransaction → PendingTransaction}
    (hf : ∀ req, r.pendingTxns.lookup t = some req → PendingVote cfg s h r.log t (f req)) :
    VoteOk cfg K s i h (r.mapPending t f) := by
  unfold Replica.mapPending
  cases hreq : r.pendingTxns.lookup t with
  | none => exact hr
  | some req => exact hr.setPending (hf req hreq)

theorem VoteOk.erasePending (hr : VoteOk cfg K s i h r) (tid : TxnId) :
    VoteOk cfg K s i h { r with pendingTxns := r.pendingTxns.erase tid } := by
  refine ⟨hr.fact, hr.log, fun tid' req' hreq => ?_, hr.committed, hr.rounds⟩
  rw [Table.lookup_erase_eq] at hreq
  split_ifs at hreq
  exact hr.pending tid' req' hreq

theorem VoteOk.setCommitted {t : TxnId} {x : LogEntryState × ℕ} (hr : VoteOk cfg K s i h r)
    (hx : x.1 = .prepareOk → Validated cfg h s t) :
    VoteOk cfg K s i h { r with committedTxns := r.committedTxns.insert t x } := by
  refine ⟨hr.fact, hr.log, hr.pending, fun tid' ts hts => ?_, hr.rounds⟩
  rw [Table.lookup_insert_eq] at hts
  split_ifs at hts with htid
  · rw [htid]
    cases hts
    exact hx rfl
  · exact hr.committed tid' ts hts

theorem VoteOk.setRound {t : TxnId} {q : PendingPrepare} (hr : VoteOk cfg K s i h r)
    (hid : q.tid = t) (hq : i = cfg.leader s → RoundVote cfg s h t q) :
    VoteOk cfg K s i h { r with pendingPrepares := r.pendingPrepares.insert t q } := by
  refine ⟨hr.fact, hr.log, hr.pending, hr.committed, fun tid' q' hq' => ?_⟩
  rw [Table.lookup_insert_eq] at hq'
  split_ifs at hq' with htid
  · cases hq'
    rw [htid]
    exact ⟨hid, hq⟩
  · exact hr.rounds tid' q' hq'

theorem VoteOk.mapRound {t : TxnId} {f : PendingPrepare → PendingPrepare}
    (hr : VoteOk cfg K s i h r)
    (hf : ∀ q, r.pendingPrepares.lookup t = some q → (f q).tid = t ∧
      (i = cfg.leader s → RoundVote cfg s h t (f q))) :
    VoteOk cfg K s i h (r.mapPrepare t f) := by
  unfold Replica.mapPrepare
  cases hq : r.pendingPrepares.lookup t with
  | none => exact hr
  | some q => exact hr.setRound (hf q hq).1 (hf q hq).2

theorem VoteOk.eraseRound (hr : VoteOk cfg K s i h r) (tid : TxnId) :
    VoteOk cfg K s i h { r with pendingPrepares := r.pendingPrepares.erase tid } := by
  refine ⟨hr.fact, hr.log, hr.pending, hr.committed, fun tid' q' hq' => ?_⟩
  rw [Table.lookup_erase_eq] at hq'
  split_ifs at hq'
  exact hr.rounds tid' q' hq'

end Frames

/-- A replica that keeps the invariant. -/
abbrev VoteGood (cfg : Config) (K : History → Prop) (s : Shard) (i : ℕ) (h : History) :
    Ctx Replica Addr Msg Event → Prop :=
  Ctx.Good (VoteOk cfg K s i) (Spoken cfg s i) h (.replica s i)

section Good

variable {cfg : Config} {K K' : History → Prop} {s : Shard} {i : ℕ} {h : History}
  {c : Ctx Replica Addr Msg Event}

theorem VoteGood.swap (hc : VoteGood cfg K s i h c) (hk : K' (past h (.replica s i) c)) :
    VoteGood cfg K' s i h c :=
  ⟨hc.node.swap hk, hc.sent⟩

theorem VoteGood.congr (hc : VoteGood cfg K s i h c) {r : Replica} (hlog : r.log = c.state.log)
    (hpending : r.pendingTxns = c.state.pendingTxns)
    (hcommitted : r.committedTxns = c.state.committedTxns)
    (hrounds : r.pendingPrepares = c.state.pendingPrepares) :
    VoteGood cfg K s i h { c with state := r } :=
  hc.update (hc.node.congr hlog hpending hcommitted hrounds)

/-- Recording an event keeps everything, if it keeps the fact. -/
theorem VoteGood.record (hc : VoteGood cfg K s i h c) {e : Event}
    (hk : K (past h (.replica s i) c ++ [(Node.replica s i, e)])) :
    VoteGood cfg K s i h { c with events := c.events ++ [e] } :=
  Ctx.Good.emit (fun _ _ _ => Spoken.mono) hc (hc.node.mono hk)

theorem VoteGood.emit (hK : Unmoved (.replica s i) K) (hc : VoteGood cfg K s i h c) {e : Event}
    (he : ∀ tid wset, e ≠ .validated tid wset) :
    VoteGood cfg K s i h { c with events := c.events ++ [e] } :=
  VoteGood.record hc (hK _ e he hc.node.fact)

end Good

namespace Replica

variable {cfg : Config} {K : History → Prop} {s : Shard} {i : ℕ} {h : History}
  {c : Ctx Replica Addr Msg Event} {ω : Choice} {tid : TxnId} {req : PendingTransaction}

/-- A handler that keeps the invariant from wherever it is called. -/
abbrev KeepsVotes (cfg : Config) (K : History → Prop) (s : Shard) (i : ℕ) (h : History) {α : Type}
    (x : ReplicaM α) : Prop :=
  Prog.Keeps (VoteGood cfg K s i h) x

/-! ### The primitives -/

theorem update_votes {f : Replica → Replica} (hlog : ∀ r, (f r).log = r.log)
    (hpending : ∀ r, (f r).pendingTxns = r.pendingTxns)
    (hcommitted : ∀ r, (f r).committedTxns = r.committedTxns)
    (hrounds : ∀ r, (f r).pendingPrepares = r.pendingPrepares) :
    KeepsVotes cfg K s i h (update f) :=
  fun _ hc => hc.congr (hlog _) (hpending _) (hcommitted _) (hrounds _)

theorem emit_votes (hK : Unmoved (.replica s i) K) {e : Event}
    (he : ∀ tid wset, e ≠ .validated tid wset) : KeepsVotes cfg K s i h (emit e) :=
  fun _ hc => VoteGood.emit hK hc he

theorem read_votes {α : Type} (f : Replica → α) : KeepsVotes cfg K s i h (read f) :=
  fun _ hc => hc

/-- A message that is no vote. -/
theorem send_votes {ps : List Pkt} (hps : ∀ p ∈ ps, ∀ h, Spoken cfg s i h p) :
    KeepsVotes cfg K s i h (send ps) :=
  fun _ hc => hc.send fun p hp => hps p hp _

theorem sendMessage_votes {remote : Addr} {m : Msg} (hm : ∀ h src dst, Spoken cfg s i h ⟨src, dst, m⟩) :
    KeepsVotes cfg K s i h (sendMessage ⟨cfg, s, i⟩ remote m) := by
  refine send_votes fun p hp h' => ?_
  rw [List.mem_singleton.1 hp]
  exact hm _ _ _

theorem sendMessageToAll_votes {m : Msg} (hm : ∀ h src dst, Spoken cfg s i h ⟨src, dst, m⟩) :
    KeepsVotes cfg K s i h (sendMessageToAll ⟨cfg, s, i⟩ m) := by
  refine send_votes fun p hp h' => ?_
  obtain ⟨j, _, rfl⟩ := List.mem_map.1 hp
  exact hm _ _ _

theorem sendMessageToShard_votes {shard : Shard} {idx : ℕ} {m : Msg}
    (hm : ∀ h src dst, Spoken cfg s i h ⟨src, dst, m⟩) :
    KeepsVotes cfg K s i h (sendMessageToShard shard idx m) := by
  refine send_votes fun p hp h' => ?_
  rw [List.mem_singleton.1 hp]
  exact hm _ _ _

theorem sendMessageToCoordinator_votes {idx : ℕ} {m : Msg}
    (hm : ∀ h src dst, Spoken cfg s i h ⟨src, dst, m⟩) :
    KeepsVotes cfg K s i h (sendMessageToCoordinator idx m) := by
  refine send_votes fun p hp h' => ?_
  rw [List.mem_singleton.1 hp]
  exact hm _ _ _

theorem sendMessageToCoordinators_votes {m : Msg} (hm : ∀ h src dst, Spoken cfg s i h ⟨src, dst, m⟩) :
    KeepsVotes cfg K s i h (sendMessageToCoordinators ⟨cfg, s, i⟩ m) := by
  refine send_votes fun p hp h' => ?_
  obtain ⟨j, _, rfl⟩ := List.mem_map.1 hp
  exact hm _ _ _

theorem activePtr_votes (tid : TxnId) : KeepsVotes cfg K s i h (activePtr tid) := by
  refine .bind (read_votes _) fun p => ?_
  cases p with
  | none =>
      refine .bind (update_votes ?_ ?_ ?_ ?_) fun _ => .pure _
      all_goals exact fun _ => rfl
  | some p => exact .pure p

theorem clientPtr_votes (tid : TxnId) : KeepsVotes cfg K s i h (clientPtr tid) := by
  refine .bind (read_votes _) fun p => ?_
  cases p with
  | none =>
      refine .bind (update_votes ?_ ?_ ?_ ?_) fun _ => .pure _
      all_goals exact fun _ => rfl
  | some p => exact .pure p

theorem withStore_votes (f : TxnStore → TxnStore) : KeepsVotes cfg K s i h (withStore f) :=
  update_votes (fun _ => rfl) (fun _ => rfl) (fun _ => rfl) fun _ => rfl

theorem modifyActive_votes (tid : TxnId) (f : Transaction → Transaction) :
    KeepsVotes cfg K s i h (modifyActive tid f) := by
  intro c hc
  show VoteGood cfg K s i h { c with state := mapActive tid f c.state }
  unfold mapActive
  split
  · exact hc.congr rfl rfl rfl rfl
  · exact hc

theorem erasePending_votes (tid : TxnId) : KeepsVotes cfg K s i h (erasePending tid) :=
  fun _ hc => hc.update (hc.node.erasePending tid)

theorem eraseActive_votes (tid : TxnId) : KeepsVotes cfg K s i h (eraseActive tid) :=
  update_votes (fun _ => rfl) (fun _ => rfl) (fun _ => rfl) fun _ => rfl

theorem eraseClient_votes (tid : TxnId) : KeepsVotes cfg K s i h (eraseClient tid) :=
  update_votes (fun _ => rfl) (fun _ => rfl) (fun _ => rfl) fun _ => rfl

/-- A write to a pending transaction that leaves its vote alone. -/
theorem modifyPending_votes {f : PendingTransaction → PendingTransaction}
    (hf : ∀ {h l t req}, PendingVote cfg s h l t req → PendingVote cfg s h l t (f req))
    (tid : TxnId) : KeepsVotes cfg K s i h (modifyPending tid f) :=
  fun _ hc => hc.update (hc.node.mapPending fun req hreq => hf (hc.node.pending tid req hreq))

/-! ### Replication -/

theorem replicateTxn_votes (hc : VoteGood cfg K s i h c)
    (hreq : c.state.pendingTxns.lookup tid = some req) {e : LogEntry}
    (he : c.state.log.find req.lsn = some e) :
    wp (replicateTxn ⟨cfg, s, i⟩ ω tid) (fun _ => VoteGood cfg K s i h) (VoteGood cfg K s i h) c := by
  have hp := hc.node.pending tid req hreq
  have hval : Validated cfg (past h (.replica s i) c) s (c.state.log.entryToProto req.lsn).txnId := by
    have htxn : (c.state.log.entryToProto req.lsn).txnId = e.txn := by
      simp only [Log.entryToProto, he, Option.getD_some]
    rw [htxn]
    exact hc.node.log _ e he
  simp only [replicateTxn, wp_bind, wp_read, hreq, wp_deref_some, wp_sendMessageToAll, wp_ite,
    wp_erasePending]
  obtain ⟨m, hm⟩ : ∃ m : ReplicateTransaction, m =
      { txnLog := c.state.log.entryToProto req.lsn
        term := 0
        replicaId := i
        primaryCoordinator := req.primaryShard % cfg.n
        participants := req.participants
        primaryShard := req.primaryShard
        vote := .prepareOk
        hasPreCommit := req.hasPreCommit } := ⟨_, rfl⟩
  rw [← hm]
  have hc' : VoteGood cfg K s i h { c with sent := c.sent ++ (List.range cfg.n).map fun j =>
      ⟨.replica s i, .replica s j, .replicateTransaction m⟩ } := by
    refine hc.send fun p hpmem => ?_
    obtain ⟨j, _, rfl⟩ := List.mem_map.1 hpmem
    refine ⟨rfl, ⟨j, rfl⟩, ?_⟩
    rw [hm]
    exact hval
  refine ⟨fun _ => ?_, fun _ => hc'.update (hc'.node.erasePending tid)⟩
  rcases ht : req.timer with _ | (b | b)
  · exact hc'
  · refine hc'.update (hc'.node.mapPending fun req' hreq' => ?_)
    have hp' := hc.node.pending tid req' hreq'
    have heq : req' = req := Option.some.inj (hreq'.symm.trans hreq)
    subst heq
    exact ⟨hp'.consensus, hp'.participant, fun _ _ => ⟨e, he⟩, fun _ h => by cases h⟩
  · refine hc'.update (hc'.node.mapPending fun req' hreq' => ?_)
    have hp' := hc.node.pending tid req' hreq'
    have heq : req' = req := Option.some.inj (hreq'.symm.trans hreq)
    subst heq
    exact ⟨hp'.consensus, hp'.participant, (fun _ h => by cases h), fun _ _ => hp'.prepareOk b ht⟩

theorem resendReplicateTxn_votes (hc : VoteGood cfg K s i h c)
    (hreq : c.state.pendingTxns.lookup tid = some req) {b : Bool}
    (htimer : cfg.mode ≠ .rc → req.timer = some (.resendReplicateTxn b)) :
    wp (resendReplicateTxn ⟨cfg, s, i⟩ ω tid) (fun _ => VoteGood cfg K s i h)
      (VoteGood cfg K s i h) c := by
  simp only [resendReplicateTxn, wp_ite, wp_pure]
  refine ⟨fun _ => hc, fun hmode => ?_⟩
  obtain ⟨e, he⟩ := (hc.node.pending tid req hreq).resend b (htimer hmode)
  exact replicateTxn_votes hc hreq he

/-- The leader replicates an entry it has just logged. -/
theorem invokeReplicateTxn_votes (hc : VoteGood cfg K s i h c) {entry e : LogEntry} {pre : Bool}
    (he : c.state.log.find entry.id = some e)
    (hval : Validated cfg (past h (.replica s i) c) s entry.txn)
    (hnew : ∀ req, c.state.pendingTxns.lookup entry.txn = some req → req.reachConsensus = false) :
    wp (invokeReplicateTxn ⟨cfg, s, i⟩ ω entry pre) (fun _ => VoteGood cfg K s i h)
      (VoteGood cfg K s i h) c := by
  have hnull := hc.congr (r := { c.state with
    activeTxns := c.state.activeTxns.insert entry.txn none }) rfl rfl rfl rfl
  simp only [invokeReplicateTxn, wp_bind, wp_read]
  cases hreq : c.state.pendingTxns.lookup entry.txn with
  | none =>
      simp only [wp_bind, wp_derefActive, wp_update, wp_ite, wp_pure]
      refine ⟨fun txn _ => ?_, fun _ => hc, fun _ => hnull⟩
      have hset : ∀ {q : PendingTransaction}, q.lsn = entry.id → q.reachConsensus = false →
          (∀ b, q.timer ≠ some (.resendPrepareOk b)) →
          VoteGood cfg K s i h { c with state := { c.state with
            pendingTxns := c.state.pendingTxns.insert entry.txn q } } := by
        intro q hlsn hcons htimer
        refine hc.update (hc.node.setPending ⟨fun _ => hval, fun _ => hval, fun _ _ => ⟨e, ?_⟩,
          fun b hb => absurd hb (htimer b)⟩)
        rw [hlsn]
        exact he
      have htimer : ∀ b, (if cfg.mode = .rc then none else
          some (ReplicaTimer.resendReplicateTxn false)) ≠ some (.resendPrepareOk b) := by
        intro b
        split_ifs <;> exact fun h => by cases h
      refine ⟨fun _ => hset rfl rfl htimer, fun _ => ?_⟩
      exact replicateTxn_votes (hset rfl rfl htimer) (AList.lookup_insert _) he
  | some req =>
      simp only [wp_ite, wp_bind, wp_derefActive, wp_modifyPending]
      have hp := hc.node.pending _ req hreq
      refine ⟨fun _ => ⟨fun txn _ => ?_, fun _ => hc, fun _ => hnull⟩, fun hnot => ?_⟩
      · rw [mapPending_some hreq]
        refine replicateTxn_votes (hc.update (hc.node.setPending ?_)) (AList.lookup_insert _) he
        exact ⟨hp.consensus, hp.participant, fun _ _ => ⟨e, he⟩, fun _ h => by cases h⟩
      · -- without consensus the timer can only be that of the replication
        rcases ht : req.timer with _ | (b | b)
        · refine resendReplicateTxn_votes hc hreq (b := true) fun hmode => ?_
          exact absurd ⟨hmode, ht⟩ hnot
        · exact resendReplicateTxn_votes hc hreq fun _ => ht
        · have htrue := hp.prepareOk b ht
          rw [hnew req hreq] at htrue
          cases htrue

theorem handleReplicateTransaction_votes (hK : Unmoved (.replica s i) K) (hc : VoteGood cfg K s i h c) {src : Addr}
    {m : ReplicateTransaction}
    (hp : VotePkt cfg (past h (.replica s i) c) ⟨src, .replica s i, .replicateTransaction m⟩) :
    wp (handleReplicateTransaction ⟨cfg, s, i⟩ ω src m) (fun _ => VoteGood cfg K s i h)
      (VoteGood cfg K s i h) c := by
  obtain ⟨s', j, j', hsrc, hdst, hval⟩ := hp
  simp only [Addr.replica.injEq] at hdst
  obtain ⟨rfl, rfl⟩ := hdst
  -- the reply goes back to the shard
  have hreply : ∀ {c' : Ctx Replica Addr Msg Event}, VoteGood cfg K s i h c' →
      Validated cfg (past h (.replica s i) c') s m.txnLog.txnId →
      wp (do
        sendMessage ⟨cfg, s, i⟩ src (.replicateTransactionReply
          { lsn := m.txnLog.lsn, term := 0, replicaId := i, txnId := m.txnLog.txnId })
        when (cfg.mode = .parallel) do
          sendMessageToCoordinator i (.replicateReplyAndVote
            { tid := m.txnLog.txnId
              shard := s
              replica := i
              vote := if m.vote = .prepareOk then .prepared else .commit
              participants := m.participants
              primaryShard := m.primaryShard
              primaryCoordinator := m.primaryCoordinator
              hasPreCommit := m.hasPreCommit })) (fun _ => VoteGood cfg K s i h)
        (VoteGood cfg K s i h) c' := by
    intro c' hc' hval'
    rw [wp_bind, wp_sendMessage]
    have hsent := hc'.send_one (p := ⟨.replica s i, src, .replicateTransactionReply
      { lsn := m.txnLog.lsn, term := 0, replicaId := i, txnId := m.txnLog.txnId }⟩)
      ⟨⟨j, hsrc⟩, hval'⟩
    rw [wp_when, wp_sendMessageToCoordinator]
    exact ⟨fun _ => hsent.send_one trivial, fun _ => hsent⟩
  simp only [handleReplicateTransaction, wp_bind, wp_update, wp_read]
  rw [wp_when]
  have hclock := hc.congr (r := { c.state with
    currentTs := max c.state.currentTs m.txnLog.timestamp }) rfl rfl rfl rfl
  refine ⟨fun _ => ?_, fun _ => hreply hclock hval⟩
  simp only [wp_bind, wp_update, wp_emit, wp_withStore]
  have hadd := hclock.update (hclock.node.addEntry (Log.find_addProto c.state.log m.txnLog)
    (by exact hval))
  have hemit := VoteGood.emit hK hadd (e := .logged m.txnLog.lsn (Log.ofProto m.txnLog)) (fun _ _ h => by cases h)
  refine hreply (hemit.congr rfl rfl rfl rfl) ?_
  have hpast : past h (.replica s i) { c with
      events := c.events ++ [.logged m.txnLog.lsn (Log.ofProto m.txnLog)] } =
      past h (.replica s i) c ++ [(Node.replica s i, Event.logged m.txnLog.lsn (Log.ofProto m.txnLog))] :=
    past_emit _
  exact hpast ▸ hval.mono

/-- The answer `LOG_STATE_PREPAREOK` for a validated transaction. -/
theorem prepareOk_votes {reply : PrepareTransactionReply} {src dst : Addr} {h : History}
    (htid : reply.tid = tid) (hshard : reply.shard = s) (hval : Validated cfg h s tid) :
    Spoken cfg s i h ⟨src, dst, .prepareTransactionReply reply⟩ := by
  subst htid
  exact ⟨hshard, fun _ => .inl hval⟩

theorem handleConsensus_votes (hc : VoteGood cfg K s i h c)
    (hreq : c.state.pendingTxns.lookup tid = some req) (hcons : req.reachConsensus = true) :
    wp (handleConsensus ⟨cfg, s, i⟩ ω tid) (fun _ => VoteGood cfg K s i h)
      (VoteGood cfg K s i h) c := by
  have hp := hc.node.pending tid req hreq
  have hval := hp.consensus hcons
  have htimer : ∀ b, PendingVote cfg s (past h (.replica s i) c) c.state.log tid
      { req with timer := some (.resendPrepareOk b) } := fun b =>
    ⟨hp.consensus, hp.participant, (fun _ h => by cases h), fun _ _ => hcons⟩
  have hforget := hc.update (hc.node.erasePending tid)
  simp only [handleConsensus, wp_bind, wp_derefActive, wp_derefClient, wp_deref_some, wp_read, hreq,
    wp_ite, wp_pure, wp_sendMessage, wp_sendMessageToShard, wp_modifyPending, mapPending_some hreq,
    wp_erasePending, wp_eraseActive, wp_eraseClient]
  refine ⟨fun txn _ => ⟨fun _ => ⟨fun _ => ?_, fun _ => ?_⟩, fun _ => ⟨fun _ => hc, fun _ =>
    ⟨fun remote _ => ⟨fun _ => ?_, fun _ => ?_⟩, fun _ => hc, fun _ => ?_⟩⟩⟩, fun _ => hc, fun _ => ?_⟩
  · exact (hc.send_one (prepareOk_votes rfl rfl hval)).update (hc.node.setPending (htimer false))
  · exact VoteGood.congr hforget rfl rfl rfl rfl
  · exact (hc.send_one (prepareOk_votes rfl rfl hval)).update (hc.node.setPending (htimer true))
  · exact VoteGood.congr hforget rfl rfl rfl rfl
  · exact hc.congr rfl rfl rfl rfl
  · exact hc.congr rfl rfl rfl rfl

theorem handleReplicateTransactionReply_votes (hK : Unmoved (.replica s i) K) (hc : VoteGood cfg K s i h c)
    {src : Addr} {m : ReplicateTransactionReply}
    (hp : VotePkt cfg (past h (.replica s i) c)
      ⟨src, .replica s i, .replicateTransactionReply m⟩) :
    wp (handleReplicateTransactionReply ⟨cfg, s, i⟩ ω m) (fun _ => VoteGood cfg K s i h)
      (VoteGood cfg K s i h) c := by
  obtain ⟨s', j, hdst, hval⟩ := hp
  simp only [Addr.replica.injEq] at hdst
  obtain ⟨rfl, _⟩ := hdst
  simp only [handleReplicateTransactionReply, wp_bind, wp_read]
  cases hreq : c.state.pendingTxns.lookup m.txnId with
  | none => exact hc
  | some req =>
      have hpend := hc.node.pending _ req hreq
      simp only [wp_ite, wp_pure, wp_bind, wp_modifyPending, mapPending_some hreq, wp_emit]
      refine ⟨fun _ => hc, fun _ => ?_⟩
      have hc₁ : ∀ q, VoteGood cfg K s i h { c with state := { c.state with
          pendingTxns := c.state.pendingTxns.insert m.txnId { req with quorum := q } } } := fun q =>
        hc.update (hc.node.setPending ⟨hpend.consensus, hpend.participant, hpend.resend,
          hpend.prepareOk⟩)
      refine ⟨fun _ => ?_, fun _ => hc₁ _⟩
      rw [mapPending_some (AList.lookup_insert _)]
      have hc₂ := (hc₁ _).update ((hc₁ (req.quorum.insert m.term
        (((req.quorum.lookup m.term).getD ∅).insert m.replicaId m))).node.setPending
          (t := m.txnId) (q := { req with
            quorum := req.quorum.insert m.term
              (((req.quorum.lookup m.term).getD ∅).insert m.replicaId m)
            reachConsensus := true
            finalResult := .prepareOk })
          ⟨fun _ => hval, hpend.participant, hpend.resend, fun _ _ => rfl⟩)
      exact handleConsensus_votes (VoteGood.emit hK hc₂ (fun _ _ h => by cases h)) (AList.lookup_insert _) rfl

theorem resendPrepareOk_votes (hc : VoteGood cfg K s i h c)
    (hreq : c.state.pendingTxns.lookup tid = some req) {b : Bool}
    (htimer : req.timer = some (.resendPrepareOk b)) :
    wp (resendPrepareOk ⟨cfg, s, i⟩ ω tid) (fun _ => VoteGood cfg K s i h)
      (VoteGood cfg K s i h) c := by
  have hp := hc.node.pending tid req hreq
  have hcons := hp.prepareOk b htimer
  have hval := hp.consensus hcons
  have hset := hc.node.setPending (t := tid) (q := { req with timer := some (.resendPrepareOk true) })
    ⟨hp.consensus, hp.participant, (fun _ h => by cases h), fun _ _ => hcons⟩
  simp only [resendPrepareOk, wp_bind, wp_read, hreq, wp_derefActive, wp_derefClient, wp_ite, wp_when,
    wp_sendMessage, wp_sendMessageToShard, wp_modifyPending, mapPending_some hreq]
  refine ⟨fun txn _ => ⟨fun _ => ⟨fun _ => ?_, fun _ => hc⟩, fun _ => ⟨fun remote _ =>
    ⟨fun _ => ?_, fun _ => hc⟩, fun _ => hc, fun _ => ?_⟩⟩, fun _ => hc, fun _ => ?_⟩
  · exact (hc.send_one (prepareOk_votes rfl rfl hval)).update hset
  · exact (hc.send_one (prepareOk_votes rfl rfl hval)).update hset
  · exact hc.congr rfl rfl rfl rfl
  · exact hc.congr rfl rfl rfl rfl

/-! ### The decision -/

theorem cascadeAbort_votes (hK : Unmoved (.replica s i) K) (fuel : ℕ) :
    ∀ tid, KeepsVotes cfg K s i h (cascadeAbort ⟨cfg, s, i⟩ fuel tid) := by
  induction fuel with
  | zero => exact fun _ => .crash
  | succ fuel ih =>
      intro tid
      refine .bind (withStore_votes _) fun _ => .bind (emit_votes hK (fun _ _ h => by cases h)) fun _ =>
        .bind (read_votes _) fun req => ?_
      cases req with
      | none => exact .pure _
      | some req =>
          refine .bind (activePtr_votes tid) fun p => .bind (.deref _) fun txn => .forM fun out _ => ?_
          refine .bind (read_votes _) fun ptr => ?_
          cases ptr with
          | some ptr =>
              refine .bind (ih out) fun _ => ?_
              exact sendMessageToCoordinators_votes fun _ _ _ => trivial
          | none =>
              apply update_votes
              all_goals exact fun _ => rfl

theorem notifyForFollowingDependenies_votes (tid : TxnId) :
    KeepsVotes cfg K s i h (notifyForFollowingDependenies ⟨cfg, s, i⟩ tid) := by
  refine .bind (read_votes _) fun req => ?_
  cases req with
  | none => exact .pure _
  | some req =>
      refine .bind (activePtr_votes tid) fun p => .bind (.deref _) fun txn => .forM fun out _ => ?_
      refine .bind (read_votes _) fun ptr => ?_
      cases ptr with
      | some ptr =>
          refine .bind (.deref _) fun _ => .bind (modifyActive_votes _ _) fun _ => .when ?_
          exact sendMessageToCoordinator_votes fun _ _ _ => trivial
      | none =>
          apply update_votes
          all_goals exact fun _ => rfl

theorem notifyCommitToReplica_votes (req : PendingTransaction) (msg : CommitMsg) :
    KeepsVotes cfg K s i h (notifyCommitToReplica ⟨cfg, s, i⟩ ω req msg) := by
  refine .bind ?_ fun _ => .ite (.forM fun p _ => ?_) (.bind ?_ fun _ => .when ?_)
  · exact fun c hc => hc.update (hc.node.setLog (Log.same_setStatus c.state.log req.tid msg.state))
  · exact sendMessageToShard_votes fun _ _ _ => trivial
  · exact sendMessageToAll_votes fun _ _ _ => trivial
  · refine modifyPending_votes ?_ _
    exact fun hp => ⟨hp.consensus, hp.participant, hp.resend, hp.prepareOk⟩

theorem applyToStore_votes (hK : Unmoved (.replica s i) K) (msg : CommitMsg) :
    KeepsVotes cfg K s i h (applyToStore msg) := by
  refine .bind ?_ fun _ => .bind (activePtr_votes _) fun txn => ?_
  · refine modifyPending_votes ?_ _
    exact fun hp => ⟨hp.consensus, hp.participant, hp.resend, hp.prepareOk⟩
  · split
    · exact .bind (withStore_votes _) fun _ => emit_votes hK (fun _ _ h => by cases h)
    · exact .bind (.deref _) fun _ => .bind (withStore_votes _) fun _ => emit_votes hK (fun _ _ h => by cases h)
    · exact .pure _

theorem settleDependents_votes (hK : Unmoved (.replica s i) K) (msg : CommitMsg) :
    KeepsVotes cfg K s i h (settleDependents ⟨cfg, s, i⟩ msg) :=
  .ite (notifyForFollowingDependenies_votes _)
    (.bind (read_votes _) fun _ => cascadeAbort_votes hK _ _)

/-- The outcome that is kept may be `LOG_STATE_PREPAREOK`, for a validated transaction. -/
theorem retire_votes {msg : CommitMsg} (txn : Option Transaction)
    (hval : ∀ h, K h → msg.state = .prepareOk → Validated cfg h s msg.tid) :
    KeepsVotes cfg K s i h (retire ⟨cfg, s, i⟩ msg txn) := by
  refine .bind (erasePending_votes _) fun _ => .bind (.when ?_) fun _ =>
    .bind (eraseActive_votes _) fun _ => ?_
  · exact .bind (.deref _) fun _ => .pure _
  · exact fun c hc => hc.update (hc.node.setCommitted (hval _ hc.node.fact))

theorem carryOut_votes (hK : Unmoved (.replica s i) K) (msg : CommitMsg) (req : PendingTransaction) :
    KeepsVotes cfg K s i h (carryOut ⟨cfg, s, i⟩ ω msg req) :=
  .bind (.when (notifyCommitToReplica_votes _ _)) fun _ => .when (applyToStore_votes hK _)

theorem commitPending_votes (hK : Unmoved (.replica s i) K) {msg : CommitMsg} {req : PendingTransaction}
    (hval : req.isParticipant = true → ∀ h, K h → msg.state = .prepareOk →
      Validated cfg h s msg.tid) :
    KeepsVotes cfg K s i h (commitPending ⟨cfg, s, i⟩ ω msg req) := by
  unfold commitPending
  split_ifs with hpart
  · exact erasePending_votes _
  · refine .bind (read_votes _) fun log => .bind (.deref _) fun _ => .bind ?_ fun _ =>
      .bind (carryOut_votes hK _ _) fun _ => .bind (activePtr_votes _) fun txn =>
      .bind (settleDependents_votes hK _) fun _ => retire_votes _ ?_
    · exact fun c hc => hc.update (hc.node.setLog (Log.same_setTs c.state.log req.lsn msg.timestamp))
    · exact hval (Bool.not_eq_false _ ▸ hpart)

theorem handleCommit_votes (hK : Unmoved (.replica s i) K) (msg : CommitMsg) :
    KeepsVotes cfg K s i h (handleCommit ⟨cfg, s, i⟩ ω msg) := by
  intro c hc
  simp only [handleCommit, wp_bind, wp_read]
  cases hreq : c.state.pendingTxns.lookup msg.tid with
  | none => exact hc
  | some req =>
      have hpend := hc.node.pending _ req hreq
      -- the validation of a participant is remembered through the call
      have hK' : Unmoved (.replica s i) fun h => K h ∧ (req.isParticipant = true →
          Validated cfg h s msg.tid) :=
        fun h e he hh => ⟨hK h e he hh.1, fun hpart => (hh.2 hpart).mono⟩
      have hc' : VoteGood cfg (fun h => K h ∧ (req.isParticipant = true →
          Validated cfg h s msg.tid)) s i h c := hc.swap ⟨hc.node.fact, hpend.participant⟩
      have hkeeps : KeepsVotes cfg (fun h => K h ∧ (req.isParticipant = true →
          Validated cfg h s msg.tid)) s i h (do
            update fun s => { s with currentTs := max s.currentTs msg.timestamp }
            commitPending ⟨cfg, s, i⟩ ω msg req
            eraseClient msg.tid) := by
        refine .bind (update_votes ?_ ?_ ?_ ?_) fun _ => .bind ?_ fun _ => eraseClient_votes _
        · exact fun _ => rfl
        · exact fun _ => rfl
        · exact fun _ => rfl
        · exact fun _ => rfl
        · exact commitPending_votes hK' fun hpart h hk _ => hk.2 hpart
      exact wp_mono (fun _ _ hc₁ => hc₁.swap hc₁.node.fact.1) (fun _ hc₁ => hc₁.swap hc₁.node.fact.1)
        (hkeeps c hc')

theorem handleReplicateCommit_votes (msg : ReplicateCommit) :
    KeepsVotes cfg K s i h (handleReplicateCommit ⟨cfg, s, i⟩ msg) := by
  refine .ite (.pure _) (.bind (.when ?_) fun _ => .bind (activePtr_votes _) fun p => ?_)
  · exact fun c hc => hc.update (hc.node.setLog (Log.same_setStatus c.state.log msg.lsn msg.state))
  · cases p with
    | none => exact .pure _
    | some txn =>
        refine .bind ?_ fun _ => eraseActive_votes _
        unfold replicateOutcome
        split
        · exact withStore_votes _
        · exact withStore_votes _
        · exact .pure _

/-! ### Reads -/

theorem readKey_votes (hK : Unmoved (.replica s i) K) (tid : TxnId) (key : Key) :
    KeepsVotes cfg K s i h (readKey ⟨cfg, s, i⟩ tid key) := by
  refine .bind (read_votes _) fun rep => .ite (.ite (.bind (activePtr_votes _) fun p => ?_)
    (.pure _)) (.pure _)
  cases p with
  | none => exact .pure _
  | some dependent =>
      refine .bind (modifyActive_votes _ _) fun _ => .bind (update_votes ?_ ?_ ?_ ?_) fun _ => ?_
      · exact fun _ => rfl
      · exact fun _ => rfl
      · exact fun _ => rfl
      · exact fun _ => rfl
      · split
        · exact .bind (emit_votes hK (fun _ _ h => by cases h)) fun _ => .pure _
        · exact .pure _

theorem readKeys_votes (hK : Unmoved (.replica s i) K) (tid : TxnId) (keys : List Key) :
    KeepsVotes cfg K s i h (readKeys ⟨cfg, s, i⟩ tid keys) := by
  induction keys with
  | nil => exact .pure _
  | cons key keys ih =>
      refine .bind (readKey_votes hK tid key) fun v => ?_
      cases v with
      | none => exact .pure _
      | some v => exact .bind ih fun _ => .pure _

theorem handleRead_votes (hK : Unmoved (.replica s i) K) (remote : Addr) (msg : GetData) :
    KeepsVotes cfg K s i h (handleRead ⟨cfg, s, i⟩ remote msg) :=
  .bind (readKeys_votes hK _ _) fun _ => sendMessage_votes fun _ _ _ => trivial

/-! ### The parallel mode -/

theorem handleDecisionFromCoordinatorReplica_votes (hK : Unmoved (.replica s i) K) (msg : NotifyDecision) :
    KeepsVotes cfg K s i h (handleDecisionFromCoordinatorReplica ⟨cfg, s, i⟩ msg) := by
  refine .bind (read_votes _) fun req => ?_
  cases req with
  | none => exact .pure _
  | some req =>
      refine .bind (.ite (withStore_votes _) (.bind (read_votes _) fun _ =>
        .bind (cascadeAbort_votes hK _ _) fun _ => erasePending_votes _)) fun _ =>
        .bind (.bind (read_votes _) fun p => ?_) fun _ => ?_
      · cases p with
        | none => exact .pure _
        | some p => exact .bind (.deref _) fun _ => .pure _
      · exact fun c hc => hc.update (hc.node.setCommitted (fun h => by cases h))

theorem handleParallelCommitResult_votes (tid : TxnId) (timestamp : ℕ) (res : LogEntryState) :
    KeepsVotes cfg K s i h (handleParallelCommitResult ⟨cfg, s, i⟩ tid timestamp res) := by
  refine .bind (read_votes _) fun req => ?_
  cases req with
  | none => exact .pure _
  | some req =>
      refine .bind (clientPtr_votes _) fun _ => .bind (.deref _) fun _ => .bind ?_ fun _ =>
        eraseClient_votes _
      exact sendMessage_votes fun _ _ _ => trivial

theorem handleParallelModeCommit_votes (remote : Addr) (msg : ParallelModeCommit) :
    KeepsVotes cfg K s i h (handleParallelModeCommit ⟨cfg, s, i⟩ ω remote msg) := by
  refine .bind (read_votes _) fun req => ?_
  cases req with
  | none =>
      refine .bind ?_ fun _ => sendMessageToCoordinator_votes fun _ _ _ => trivial
      intro c hc
      have hset := hc.update (hc.node.setPending (t := msg.tid)
        (q := placeholder ⟨cfg, s, i⟩ ω msg.tid) ⟨nofun, nofun, nofun, nofun⟩)
      exact VoteGood.congr hset rfl rfl rfl rfl
  | some req =>
      refine modifyPending_votes ?_ _
      exact fun hp => ⟨hp.consensus, hp.participant, hp.resend, hp.prepareOk⟩

/-! ### Rounds of the slow modes -/

/-- A write to a round that leaves the votes and the participants alone. -/
theorem modifyPrepare_votes {f : PendingPrepare → PendingPrepare} (hid : ∀ q, (f q).tid = q.tid)
    (hparticipants : ∀ q, (f q).participants = q.participants)
    (hreplies : ∀ q, (f q).participantReplies = q.participantReplies) (tid : TxnId) :
    KeepsVotes cfg K s i h (modifyPrepare tid f) := by
  refine fun c hc => hc.update (hc.node.mapRound fun q hq => ?_)
  obtain ⟨htid, hround⟩ := hc.node.rounds tid q hq
  refine ⟨(hid q).trans htid, fun hi => ⟨?_, ?_⟩⟩
  · rw [hparticipants]
    exact (hround hi).own
  · rw [hreplies]
    exact (hround hi).vote

theorem erasePrepare_votes (tid : TxnId) : KeepsVotes cfg K s i h (erasePrepare tid) :=
  fun _ hc => hc.update (hc.node.eraseRound tid)

theorem erasePrepareClient_votes (tid : TxnId) : KeepsVotes cfg K s i h (erasePrepareClient tid) :=
  update_votes (fun _ => rfl) (fun _ => rfl) (fun _ => rfl) fun _ => rfl

theorem sendPrepare_votes (tid : TxnId) : KeepsVotes cfg K s i h (sendPrepare ⟨cfg, s, i⟩ ω tid) := by
  refine .bind (read_votes _) fun _ => .bind (.deref _) fun req => .forM fun p _ => .ite ?_ ?_
  · refine .bind (sendMessageToShard_votes fun _ _ _ => trivial) fun _ =>
      modifyPrepare_votes ?_ ?_ ?_ _
    all_goals exact fun _ => rfl
  · exact erasePrepare_votes _

/-- The message starts a round: `HandlePrepareTxn` passes it on to `HandlePrepare`. -/
def startsRound (env : ReplicaEnv) (r : Replica) (msg : PrepareTransaction) : Bool :=
  decide ((msg.mode = .slow ∨ msg.mode = .rc) ∧ msg.primaryShard = env.shardId ∧
    msg.tid ∉ r.pendingPrepares)

theorem handlePrepare_votes (remote : Addr) {msg : PrepareTransaction}
    (hown : i = cfg.leader s → s ∈ msg.participants) :
    KeepsVotes cfg K s i h (handlePrepare ⟨cfg, s, i⟩ ω remote msg) := by
  refine .bind (update_votes ?_ ?_ ?_ ?_) fun _ => .bind (read_votes _) fun req => ?_
  · exact fun _ => rfl
  · exact fun _ => rfl
  · exact fun _ => rfl
  · exact fun _ => rfl
  cases req with
  | none =>
      refine .bind ?_ fun _ => sendPrepare_votes _
      exact fun c hc => hc.update (hc.node.setRound rfl fun hi => ⟨hown hi, fun h => by cases h⟩)
  | some req => exact sendPrepare_votes _

/-- `ReachFinalDecision` holds only if every participant replied `LOG_STATE_PREPAREOK`, and it
enters no such reply. -/
theorem reachFinalDecision_spec (replies : Table Shard LogEntryState) (ps : List Shard) :
    ((reachFinalDecision replies ps).1 = true → ∀ p ∈ ps, replies.lookup p = some .prepareOk) ∧
      ∀ q, (reachFinalDecision replies ps).2.lookup q = some .prepareOk →
        replies.lookup q = some .prepareOk := by
  induction ps with
  | nil => exact ⟨fun _ => (fun _ h => by cases h), fun _ hq => hq⟩
  | cons p ps ih =>
      simp only [reachFinalDecision]
      cases hp : replies.lookup p with
      | none =>
          refine ⟨(fun h => by cases h), fun q hq => ?_⟩
          rw [Table.lookup_insert_eq] at hq
          split_ifs at hq with heq
          · cases hq
          · exact hq
      | some st =>
          by_cases hst : st = .prepareOk
          · simp only [hst, if_true]
            refine ⟨fun hall q hq => ?_, ih.2⟩
            rcases List.mem_cons.1 hq with rfl | hq
            · rw [hp, hst]
            · exact ih.1 hall q hq
          · simp only [hst, if_false]
            exact ⟨(fun h => by cases h), fun _ hq => hq⟩

/-- The answer to the client of a round, and the decision at the primary shard. -/
theorem replyFinalDecision_votes (hK : Unmoved (.replica s i) K) (hc : VoteGood cfg K s i h c) {q : PendingPrepare}
    (hq : c.state.pendingPrepares.lookup tid = some q)
    (hval : q.finalDecision = .prepareOk → i = cfg.leader s →
      Validated cfg (past h (.replica s i) c) s tid) :
    wp (replyFinalDecision ⟨cfg, s, i⟩ ω tid) (fun _ => VoteGood cfg K s i h)
      (VoteGood cfg K s i h) c := by
  have htid := (hc.node.rounds tid q hq).1
  simp only [replyFinalDecision, wp_bind, wp_read, hq, wp_deref_some]
  refine wp_mono (fun p c₁ hc₁ => ?_) (fun _ hd => hd.1) (show wp (prepareClientPtr q.tid)
    (fun _ c₁ => VoteGood cfg K s i h c₁ ∧ c₁.events = c.events)
    (fun c₁ => VoteGood cfg K s i h c₁ ∧ c₁.events = c.events) c from ?_)
  · obtain ⟨hc₁, hevents⟩ := hc₁
    have hpast : past h (.replica s i) c₁ = past h (.replica s i) c := by rw [past, past, hevents]
    -- the reply speaks for the leader only if the leader validated
    have hreply : ∀ dst, Spoken cfg s i (past h (.replica s i) c) ⟨.replica s i, dst,
        .prepareTransactionReply
          { tid := q.tid
            state := q.finalDecision
            timestamp := q.timestamp
            shard := s
            replica := i }⟩ := by
      intro dst
      refine ⟨rfl, fun hst => ?_⟩
      by_cases hi : i = cfg.leader s
      · rw [htid]
        exact .inl (hval hst hi)
      · exact .inr ⟨hi, rfl⟩
    have hrest : KeepsVotes cfg K s i h (when (decide (cfg.mode = .slow)) do
        handleCommit ⟨cfg, s, i⟩ ω
          { tid := q.tid, state := q.finalDecision, timestamp := q.timestamp }
        erasePrepare q.tid
        erasePrepareClient q.tid) :=
      .when (.bind (handleCommit_votes hK _) fun _ => .bind (erasePrepare_votes _) fun _ =>
        erasePrepareClient_votes _)
    rw [wp_deref]
    refine ⟨fun remote _ => ?_, fun _ => hc₁⟩
    have hc₂ := hc₁.send_one (hpast ▸ hreply remote)
    rw [wp_sendMessage, wp_when]
    refine ⟨fun _ => ?_, fun _ => hrest _ hc₂⟩
    simp only [wp_bind, wp_modifyPrepare, wp_sendMessageToAll]
    have hc₃ := modifyPrepare_votes (f := fun req => { req with
      regionReplies := req.regionReplies.insert i req.finalDecision }) (fun _ => rfl) (fun _ => rfl)
      (fun _ => rfl) tid _ hc₂
    have hc₄ : VoteGood cfg K s i h _ := Good.send hc₃ fun p (hp : p ∈ (List.range cfg.n).map fun j =>
        ⟨.replica s i, .replica s j, .prepareTransactionReply
          { tid := q.tid
            state := q.finalDecision
            timestamp := q.timestamp
            shard := s
            replica := i }⟩) => by
        obtain ⟨j, _, rfl⟩ := List.mem_map.1 hp
        exact hpast ▸ hreply _
    refine wp_mono (fun _ c₅ hc₅ => hrest c₅ hc₅) (fun _ hd => hd) (Prog.Keeps.when ?_ _ hc₄)
    refine modifyPrepare_votes ?_ ?_ ?_ _
    all_goals exact fun _ => rfl
  · simp only [prepareClientPtr, wp_bind, wp_read]
    cases c.state.prepareClientList.lookup q.tid with
    | none => exact ⟨hc.congr rfl rfl rfl rfl, rfl⟩
    | some p => exact ⟨hc, rfl⟩

/-- A reply of a participant is entered. -/
theorem PendingPrepare.roundVote_reply {h : History} {tid : TxnId} {q : PendingPrepare}
    {m : PrepareTransactionReply} (hround : RoundVote cfg s h tid q) (hi : i = cfg.leader s)
    (htid : m.tid = tid) (hown : ¬ (m.shard = s ∧ m.replica ≠ i)) (hok : m.state = .prepareOk)
    (hp : m.state = .prepareOk → m.replica = cfg.leader m.shard → Validated cfg h m.shard m.tid)
    (ts : ℕ) :
    RoundVote cfg s h tid { q with
      participantReplies := q.participantReplies.insert m.shard m.state
      timestamp := ts } := by
  refine ⟨hround.own, fun hv => ?_⟩
  rw [Table.lookup_insert_eq] at hv
  split_ifs at hv with hs
  · have hrep : m.replica = i := by
      by_contra hne
      exact hown ⟨hs.symm, hne⟩
    have hval := hp hok (by rw [hrep, hi, hs])
    rw [← hs, htid] at hval
    exact hval
  · exact hround.vote hv

theorem handlePrepareTransactionReply_votes (hK : Unmoved (.replica s i) K) (hc : VoteGood cfg K s i h c)
    {src : Addr} {m : PrepareTransactionReply}
    (hp : VotePkt cfg (past h (.replica s i) c)
      ⟨src, .replica s i, .prepareTransactionReply m⟩) :
    wp (handlePrepareTransactionReply ⟨cfg, s, i⟩ ω m) (fun _ => VoteGood cfg K s i h)
      (VoteGood cfg K s i h) c := by
  simp only [handlePrepareTransactionReply, wp_bind, wp_read]
  cases hq : c.state.pendingPrepares.lookup m.tid with
  | none => exact hc
  | some q =>
      obtain ⟨htid, hround⟩ := hc.node.rounds _ q hq
      simp only [wp_ite, wp_pure]
      refine ⟨fun _ => ?_, fun hown => ⟨fun hok => ⟨fun _ => hc, fun _ => ?_⟩, fun hok => ?_⟩⟩
      · -- the decision of another region
        simp only [wp_bind, wp_modifyPrepare, mapPrepare_some hq]
        have hc₁ := hc.update (hc.node.setRound (t := m.tid) (q := { q with
          regionReplies := q.regionReplies.insert m.replica m.state
          timestamp := max q.timestamp m.timestamp }) htid
          fun hi => ⟨(hround hi).own, (hround hi).vote⟩)
        split
        · exact hc₁
        · refine Prog.Keeps.bind (modifyPrepare_votes ?_ ?_ ?_ _) (fun _ =>
            .bind (handleCommit_votes hK _) fun _ => .bind (erasePrepare_votes _) fun _ =>
              erasePrepareClient_votes _) _ hc₁
          all_goals exact fun _ => rfl
      · -- the vote of a participant
        simp only [wp_bind, wp_modifyPrepare, mapPrepare_some hq]
        have hvote : i = cfg.leader s → RoundVote cfg s (past h (.replica s i) c) m.tid { q with
            participantReplies := q.participantReplies.insert m.shard m.state
            timestamp := max q.timestamp m.timestamp } := fun hi =>
          PendingPrepare.roundVote_reply (hround hi) hi rfl hown hok hp _
        have hc₁ := hc.update (hc.node.setRound (t := m.tid) (q := { q with
          participantReplies := q.participantReplies.insert m.shard m.state
          timestamp := max q.timestamp m.timestamp }) htid hvote)
        simp only [wp_ite, wp_pure]
        refine ⟨fun _ => hc₁, fun _ => ?_⟩
        obtain ⟨hall, hkept⟩ := reachFinalDecision_spec
          (q.participantReplies.insert m.shard m.state) q.participants
        rw [wp_bind, wp_modifyPrepare, mapPrepare_some (AList.lookup_insert _), wp_ite]
        have hc₂ := hc₁.update (hc₁.node.setRound (t := m.tid) (q := { q with
          participantReplies := (reachFinalDecision
            (q.participantReplies.insert m.shard m.state) q.participants).2
          timestamp := max q.timestamp m.timestamp }) htid
          fun hi => ⟨(hvote hi).own, fun hv => (hvote hi).vote (hkept s hv)⟩)
        refine ⟨fun hreached => ?_, fun _ => hc₂⟩
        rw [wp_bind, wp_modifyPrepare, mapPrepare_some (AList.lookup_insert _), wp_bind, wp_emit]
        have hc₃ := hc₂.update (hc₂.node.setRound (t := m.tid) (q := { q with
          participantReplies := (reachFinalDecision
            (q.participantReplies.insert m.shard m.state) q.participants).2
          timestamp := max q.timestamp m.timestamp
          timerArmed := false
          finalDecision := .prepareOk }) htid
          fun hi => ⟨(hvote hi).own, fun hv => (hvote hi).vote (hkept s hv)⟩)
        refine replyFinalDecision_votes hK (VoteGood.emit hK hc₃ (fun _ _ h => by cases h))
          (AList.lookup_insert _) fun _ hi => ?_
        -- the own vote is among those of all participants
        have hval := (hvote hi).vote (hall hreached s (hvote hi).own)
        rw [past_emit]
        exact hval.mono
      · simp only [wp_bind, wp_modifyPrepare, mapPrepare_some hq]
        have hc₁ := hc.update (hc.node.setRound (t := m.tid) (q := { q with
          finalDecision := .abort }) htid fun hi => ⟨(hround hi).own, (hround hi).vote⟩)
        exact replyFinalDecision_votes hK hc₁ (AList.lookup_insert _) (fun h => by cases h)

/-! ### Prepare -/

theorem logPrepare_votes (hK : Unmoved (.replica s i) K) (hc : VoteGood cfg K s i h c) {src : Addr}
    {txn : Transaction} (hval : Validated cfg (past h (.replica s i) c) s txn.id)
    (hnew : ∀ req, c.state.pendingTxns.lookup txn.id = some req → req.reachConsensus = false) :
    wp (logPrepare ⟨cfg, s, i⟩ ω src txn) (fun _ => VoteGood cfg K s i h)
      (VoteGood cfg K s i h) c := by
  simp only [logPrepare, wp_bind, wp_update, wp_read, wp_emit]
  have hc₁ := hc.congr (r := { c.state with
    clientList := c.state.clientList.insert txn.id (some src)
    activeTxns := c.state.activeTxns.insert txn.id (some txn) }) rfl rfl rfl rfl
  have hadd := hc₁.update (hc₁.node.addEntry (Log.find_add c.state.log 0 txn.id txn.writeSet
    .prepareOk txn.commitTs.timestamp) hval)
  refine invokeReplicateTxn_votes (VoteGood.emit hK hadd (e := .logged _ _) (fun _ _ h => by cases h)) (AList.lookup_insert _) ?_ hnew
  rw [past_emit]
  exact hval.mono

theorem acceptPrepare_votes (hK : Unmoved (.replica s i) K) (hc : VoteGood cfg K s i h c) {src : Addr}
    {txn : Transaction}
    (hval : i = cfg.leader s → Validated cfg (past h (.replica s i) c) s txn.id)
    (hnew : ∀ req, c.state.pendingTxns.lookup txn.id = some req → req.reachConsensus = false) :
    wp (acceptPrepare ⟨cfg, s, i⟩ ω src txn) (fun _ => VoteGood cfg K s i h)
      (VoteGood cfg K s i h) c := by
  have hreply : ∀ from' dst, Spoken cfg s i (past h (.replica s i) c) ⟨from', dst,
      .prepareTransactionReply
        { tid := txn.id
          state := .prepareOk
          timestamp := txn.commitTs.timestamp
          shard := s
          replica := i }⟩ := by
    intro from' dst
    refine ⟨rfl, fun _ => ?_⟩
    by_cases hi : i = cfg.leader s
    · exact .inl (hval hi)
    · exact .inr ⟨hi, rfl⟩
  -- the leader logs the transaction after the reply
  have htail : ∀ ps, VoteGood cfg K s i h { c with sent := ps } →
      wp (when (ReplicaEnv.isLeader ⟨cfg, s, i⟩) (logPrepare ⟨cfg, s, i⟩ ω src txn))
        (fun _ => VoteGood cfg K s i h) (VoteGood cfg K s i h) { c with sent := ps } := by
    intro ps hps
    simp only [wp_when, ReplicaEnv.isLeader, decide_eq_true_eq]
    exact ⟨fun hi => logPrepare_votes hK hps (hval hi) hnew, fun _ => hps⟩
  have hcarousel : ∀ ps, VoteGood cfg K s i h { c with sent := ps } →
      wp (when (decide (cfg.mode = .carousel)) (sendMessage ⟨cfg, s, i⟩ src
        (.prepareTransactionReply
          { tid := txn.id
            state := .prepareOk
            timestamp := txn.commitTs.timestamp
            shard := s
            replica := i })))
        (fun _ => wp (when (ReplicaEnv.isLeader ⟨cfg, s, i⟩) (logPrepare ⟨cfg, s, i⟩ ω src txn))
          (fun _ => VoteGood cfg K s i h) (VoteGood cfg K s i h)) (VoteGood cfg K s i h)
        { c with sent := ps } := by
    intro ps hps
    rw [wp_when, wp_sendMessage]
    exact ⟨fun _ => htail _ (hps.send_one (hreply _ _)), fun _ => htail ps hps⟩
  simp only [acceptPrepare, wp_ite, wp_pure, wp_bind]
  refine ⟨fun _ => hc, fun _ => ?_⟩
  rw [wp_when, wp_sendMessageToShard]
  exact ⟨fun _ => hcarousel _ (hc.send_one (hreply _ _)), fun _ => hcarousel c.sent hc⟩

/-- The store accepts the transaction. -/
def admits (env : ReplicaEnv) (ω : Choice) (r : Replica) (msg : PrepareTransaction) : Bool :=
  (r.store.prepareUpcall ω.clock msg.tid (transactionOf msg).serialize
    (env.isLeader || decide (env.cfg.mode = .carousel) || decide (env.cfg.mode = .rc))).1

/-- What the store gets of the transaction. -/
def offered (msg : PrepareTransaction) : Transaction where
  readSet := (transactionOf msg).readSet
  writeSet := (transactionOf msg).writeSet

theorem ofMessage_offered (msg : PrepareTransaction) :
    Transaction.ofMessage (transactionOf msg).serialize = offered msg :=
  Transaction.ofMessage_serialize _

/-- A leader's store accepts what it admits. -/
theorem admits_leader {env : ReplicaEnv} (hlead : env.isLeader = true) (ω : Choice) (r : Replica)
    (msg : PrepareTransaction) :
    admits env ω r msg = r.store.admits ω.clock msg.tid (offered msg) := by
  rw [admits, hlead, Bool.true_or, Bool.true_or, TxnStore.prepareUpcall_iff, ofMessage_offered]

/-- `HandlePrepareTxn` gets to the concurrency control. -/
def reachesControl (env : ReplicaEnv) (r : Replica) (msg : PrepareTransaction) : Bool :=
  !startsRound env r msg && decide (r.inDependency.lookup msg.tid ≠ some (-1)) &&
    (r.committedTxns.lookup msg.tid).isNone &&
    (r.pendingTxns.lookup msg.tid).all fun req => !req.reachConsensus

/-- The replica validates the transaction of the message. -/
def accepts (env : ReplicaEnv) (ω : Choice) (r : Replica) (msg : PrepareTransaction) : Bool :=
  reachesControl env r msg && admits env ω r msg

/-- The replica refuses the transaction of the message. -/
def refuses (env : ReplicaEnv) (ω : Choice) (r : Replica) (msg : PrepareTransaction) : Bool :=
  reachesControl env r msg && !admits env ω r msg

theorem prepareNew_votes (hK : Unmoved (.replica s i) K) (hc : VoteGood cfg K s i h c) {src : Addr}
    {msg : PrepareTransaction}
    (hacc : admits ⟨cfg, s, i⟩ ω c.state msg = true → ∀ h wset, K h →
      K (h ++ [(Node.replica s i, Event.validated msg.tid wset)]))
    (hnew : ∀ req, c.state.pendingTxns.lookup msg.tid = some req → req.reachConsensus = false) :
    wp (prepareNew ⟨cfg, s, i⟩ ω src msg) (fun _ => VoteGood cfg K s i h)
      (VoteGood cfg K s i h) c := by
  simp only [prepareNew, wp_bind, wp_update, wp_read, wp_withStore, wp_ite, refusePrepare,
    wp_sendMessage]
  have hc₁ := fun ts deps st => hc.congr (r := { c.state with
    currentTs := ts
    inDependency := deps
    store := st }) rfl rfl rfl rfl
  refine ⟨fun _ => (hc₁ _ _ _).send_one ⟨rfl, fun h => by cases h⟩, fun hadm => ?_⟩
  rw [Bool.not_eq_false] at hadm
  simp only [acceptChecked, wp_bind, wp_when, wp_emit]
  refine ⟨fun _ => ?_, fun hno => ?_⟩
  · refine acceptPrepare_votes hK ?_ (fun hi => ?_) hnew
    · exact VoteGood.record (hc₁ _ _ _) (hacc hadm _ _ hc.node.fact)
    refine ⟨Table.ofList msg.wset, ?_⟩
    rw [Config.leaderNode, ← hi]
    exact mem_past_emit _
  · refine acceptPrepare_votes hK (hc₁ _ _ _) (fun hi => ?_) hnew
    simp [ReplicaEnv.isLeader, hi] at hno

theorem handlePrepareTxn_votes (hK : Unmoved (.replica s i) K) (hc : VoteGood cfg K s i h c)
    {src : Addr} {msg : PrepareTransaction}
    (hown : startsRound ⟨cfg, s, i⟩ c.state msg = true → i = cfg.leader s → s ∈ msg.participants)
    (hacc : accepts ⟨cfg, s, i⟩ ω c.state msg = true → ∀ h wset, K h →
      K (h ++ [(Node.replica s i, Event.validated msg.tid wset)])) :
    wp (handlePrepareTxn ⟨cfg, s, i⟩ ω src msg) (fun _ => VoteGood cfg K s i h)
      (VoteGood cfg K s i h) c := by
  simp only [handlePrepareTxn, wp_bind, wp_read, wp_ite, wp_update]
  refine ⟨fun hstart => handlePrepare_votes src (hown (decide_eq_true hstart)) c hc,
    fun hstart => ⟨fun _ => hc.congr rfl rfl rfl rfl, fun hdep => ?_⟩⟩
  -- an answer goes to the client or to the leader of the primary shard
  have hanswer : ∀ {reply : PrepareTransactionReply}, reply.tid = msg.tid → reply.shard = s →
      (reply.state = .prepareOk → Validated cfg (past h (.replica s i) c) s msg.tid) →
      wp (answerPrepare ⟨cfg, s, i⟩ src msg reply) (fun _ => VoteGood cfg K s i h)
        (VoteGood cfg K s i h) c := by
    intro reply htid hshard hval
    have hpkt : ∀ from' dst, Spoken cfg s i (past h (.replica s i) c)
        ⟨from', dst, .prepareTransactionReply reply⟩ := by
      intro from' dst
      refine ⟨hshard, fun hst => .inl ?_⟩
      rw [htid]
      exact hval hst
    simp only [answerPrepare, wp_ite, wp_sendMessage, wp_sendMessageToShard]
    exact ⟨fun _ => hc.send_one (hpkt _ _), fun _ => hc.send_one (hpkt _ _)⟩
  cases hcom : c.state.committedTxns.lookup msg.tid with
  | some x =>
      obtain ⟨state, timestamp⟩ := x
      refine hanswer rfl rfl fun hst => ?_
      obtain rfl : state = .prepareOk := hst
      exact hc.node.committed _ timestamp hcom
  | none =>
      have hcontrol : (c.state.pendingTxns.lookup msg.tid).all (fun req => !req.reachConsensus) =
          true → admits ⟨cfg, s, i⟩ ω c.state msg = true → ∀ h wset, K h →
          K (h ++ [(Node.replica s i, Event.validated msg.tid wset)]) := by
        intro hpend hadm
        apply hacc
        simp [accepts, reachesControl, startsRound, hstart, hdep, hcom, hpend, hadm]
      simp only [wp_bind, wp_read]
      cases hreq : c.state.pendingTxns.lookup msg.tid with
      | none =>
          rw [hreq] at hcontrol
          refine prepareNew_votes hK hc (hcontrol rfl) fun req hreq' => ?_
          rw [hreq] at hreq'
          cases hreq'
      | some req =>
          simp only [wp_ite, wp_bind, wp_derefActive]
          refine ⟨fun hcons => ⟨fun txn _ => hanswer rfl rfl fun _ => ?_, fun _ => hc,
            fun _ => hc.congr rfl rfl rfl rfl⟩, fun hcons => ?_⟩
          · exact (hc.node.pending _ req hreq).consensus hcons
          · rw [Bool.not_eq_true] at hcons
            refine prepareNew_votes hK hc (hcontrol ?_) fun req' hreq' => ?_
            · rw [hreq, Option.all_some, hcons]
              rfl
            · rw [hreq] at hreq'
              cases hreq'
              exact hcons

/-! ### Dispatch -/

theorem handleTimer_votes (hc : VoteGood cfg K s i h c) (t : Timer) :
    wp (handleTimer ⟨cfg, s, i⟩ ω t) (fun _ => VoteGood cfg K s i h) (VoteGood cfg K s i h) c := by
  cases t with
  | pendingTxn tid =>
      simp only [handleTimer, wp_bind, wp_read]
      cases hreq : c.state.pendingTxns.lookup tid with
      | none => exact hc
      | some req =>
          rcases ht : req.timer with _ | (_ | _) | (_ | _) <;> simp only [ht]
          · exact hc
          · exact hc
          · exact resendReplicateTxn_votes hc hreq fun _ => ht
          · exact hc
          · exact resendPrepareOk_votes hc hreq ht
  | pendingPrepare tid =>
      simp only [handleTimer, wp_bind, wp_read]
      cases c.state.pendingPrepares.lookup tid with
      | none => exact hc
      | some req =>
          simp only [wp_ite, wp_pure]
          exact ⟨fun _ => sendPrepare_votes tid c hc, fun _ => hc⟩

/-- The input starts no round in which the primary shard has no vote. -/
def OwnRound (env : ReplicaEnv) (r : Replica) : Input Addr Msg Act → Prop
  | .recv ⟨_, _, .prepareTransaction m⟩ =>
      startsRound env r m = true → env.isLeader = true → env.shardId ∈ m.participants
  | _ => True

/-- The same, as a test. -/
def ownRound (env : ReplicaEnv) (r : Replica) : Input Addr Msg Act → Bool
  | .recv ⟨_, _, .prepareTransaction m⟩ =>
      decide (startsRound env r m = true → env.isLeader = true → env.shardId ∈ m.participants)
  | _ => true

theorem ownRound_iff (env : ReplicaEnv) (r : Replica) (input : Input Addr Msg Act) :
    ownRound env r input = true ↔ OwnRound env r input := by
  unfold ownRound OwnRound
  split
  · exact decide_eq_true_iff
  · exact iff_of_true rfl trivial

instance OwnRound.decidable (env : ReplicaEnv) (r : Replica) (input : Input Addr Msg Act) :
    Decidable (OwnRound env r input) :=
  decidable_of_iff _ (ownRound_iff env r input)

/-- **A step of a replica** keeps the invariant, and the fact `K` if an accepted transaction
does. -/
theorem handleInput_votes (hK : Unmoved (.replica s i) K) (hc : VoteGood cfg K s i h c)
    {input : Input Addr Msg Act} (hown : OwnRound ⟨cfg, s, i⟩ c.state input)
    (hacc : ∀ src m, input = .recv ⟨src, .replica s i, .prepareTransaction m⟩ →
      accepts ⟨cfg, s, i⟩ ω c.state m = true → ∀ h wset, K h →
      K (h ++ [(Node.replica s i, Event.validated m.tid wset)]))
    (hp : ∀ p, input = .recv p → VotePkt cfg (past h (.replica s i) c) p ∧ p.dst = .replica s i) :
    wp (handleInput ⟨cfg, s, i⟩ ω input) (fun _ => VoteGood cfg K s i h)
      (VoteGood cfg K s i h) c := by
  cases input with
  | act a =>
      cases a with
      | client a => exact hc
      | timer t => exact handleTimer_votes hc t
  | recv p =>
      obtain ⟨hok, hdst⟩ := hp p rfl
      obtain ⟨src, dst, msg⟩ := p
      obtain rfl : dst = .replica s i := hdst
      cases msg with
      | prepareTransaction m =>
          refine handlePrepareTxn_votes hK hc (fun hstart hi => hown hstart ?_) (hacc src m rfl)
          simp [ReplicaEnv.isLeader, hi]
      | prepareTransactionReply m => exact handlePrepareTransactionReply_votes hK hc hok
      | replicateTransaction m => exact handleReplicateTransaction_votes hK hc hok
      | replicateTransactionReply m => exact handleReplicateTransactionReply_votes hK hc hok
      | replicateCommit m => exact handleReplicateCommit_votes m c hc
      | parallelModeCommit m => exact handleParallelModeCommit_votes src m c hc
      | commit m => exact handleCommit_votes hK m c hc
      | getData m => exact handleRead_votes hK src m c hc
      | notifyDecision m => exact handleDecisionFromCoordinatorReplica_votes hK m c hc
      | notifyReplicateResult m =>
          exact Prog.Keeps.bind (handleParallelCommitResult_votes _ _ _)
            (fun _ => handleCommit_votes hK _) c hc
      | getDataReply m => exact hc
      | parallelModeCommitReply m => exact hc
      | replicateReplyAndVote m => exact hc
      | bypassLeaderReply m => exact hc
      | bypassLeaderReplyUnion m => exact hc
      | notifyDependenciesAreCleared m => exact hc
      | replicateDecision m => exact hc
      | replyDecision m => exact hc
      | vote m => exact hc
      | notifyDecisionToPrimary m => exact hc
      | requestCommitResult m => exact hc

end Replica

end D2PC
