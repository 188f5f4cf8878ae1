import D2PC.Invariant.Rounds
import D2PC.Properties.Retransmission

/-!
# Where a list of participants comes from

A coordinator compares the number of shards it heard of with the length of a list of
participants. The list was built by the client and travels with the prepare to a leader, with
the entry to the followers and with their votes to the coordinators; or with
`ParallelModeCommit`. Nobody changes it on the way, and some messages leave it out.

* `Listed` : no list, or that of the start;
* `Config.lists` : in the runs without a second round every list in a message, at a replica and
  at a coordinator is `Listed`, in every mode.
-/

namespace D2PC

open Prog Ctx

/-- No participants are named, or those the client started with. -/
def Listed (h : History) (tid : TxnId) (participants : List Shard) : Prop :=
  participants = [] ∨ ∃ st, startOf h tid = some st ∧ participants = st.participants

theorem Listed.mono {h es : History} {tid : TxnId} {participants : List Shard}
    (hl : Listed h tid participants) : Listed (h ++ es) tid participants :=
  hl.imp_right fun ⟨st, hst, heq⟩ => ⟨st, startOf_mono hst, heq⟩

/-- The messages that name participants. -/
def ListPkt (h : History) (p : Pkt) : Prop :=
  match p.msg with
  | .prepareTransaction m => Listed h m.tid m.participants
  | .parallelModeCommit m => Listed h m.tid m.participants
  | .replicateTransaction m => Listed h m.txnLog.txnId m.participants
  | .replicateReplyAndVote m => Listed h m.tid m.participants
  | .requestCommitResult m => Listed h m.tid m.participants
  | .vote m => Listed h m.tid m.participants
  | .notifyDecisionToPrimary m => Listed h m.tid m.participants
  | _ => True

theorem ListPkt.mono {h es : History} {p : Pkt} (hp : ListPkt h p) : ListPkt (h ++ es) p := by
  obtain ⟨src, dst, msg⟩ := p
  cases msg with
  | prepareTransaction m => exact Listed.mono hp
  | parallelModeCommit m => exact Listed.mono hp
  | replicateTransaction m => exact Listed.mono hp
  | replicateReplyAndVote m => exact Listed.mono hp
  | requestCommitResult m => exact Listed.mono hp
  | vote m => exact Listed.mono hp
  | notifyDecisionToPrimary m => exact Listed.mono hp
  | _ => trivial

/-! ### Replicas -/

/-- The lists a replica holds. -/
structure Replica.ListsOk (h : History) (r : Replica) : Prop where
  active : ∀ tid txn, r.activeTxns.lookup tid = some (some txn) → Listed h tid txn.participants
  pending : ∀ tid req, r.pendingTxns.lookup tid = some req → Listed h tid req.participants

namespace Replica

variable {cfg : Config} {s : Shard} {i : ℕ} {h es : History} {r r₀ : Replica}
  {input : Input Addr Msg Act} {D : Option TxnId} {x y : Ctx Replica Addr Msg Event}

theorem ListsOk.mono (hr : ListsOk h r) : ListsOk (h ++ es) r :=
  ⟨fun tid txn htxn => (hr.active tid txn htxn).mono,
    fun tid req hreq => (hr.pending tid req hreq).mono⟩

/-- A transaction enters the table of active ones. -/
theorem ListsOk.insertActive (hr : ListsOk h r) {tid : TxnId} {txn : Transaction}
    (htxn : Listed h tid txn.participants) {T : TxnId} {t : Transaction}
    (ht : (r.activeTxns.insert tid (some txn)).lookup T = some (some t)) :
    Listed h T t.participants := by
  rw [Table.lookup_insert_eq] at ht
  split_ifs at ht with heq
  · cases ht
    rw [heq]
    exact htxn
  · exact hr.active T t ht

theorem ListsOk.insertPending (hr : ListsOk h r) {tid : TxnId} {req : PendingTransaction}
    (hreq : Listed h tid req.participants) {T : TxnId} {q : PendingTransaction}
    (hq : (r.pendingTxns.insert tid req).lookup T = some q) : Listed h T q.participants := by
  rw [Table.lookup_insert_eq] at hq
  split_ifs at hq with heq
  · cases hq
    rw [heq]
    exact hreq
  · exact hr.pending T q hq

/-- The pieces of the slow modes name no participants. -/
theorem prepareMessages_unlisted {env : ReplicaEnv} {req : PendingPrepare} {q : Shard}
    {m : PrepareTransaction} (hm : (q, m) ∈ (prepareMessages env req).toList) :
    m.participants = [] := by
  -- every write to the table of pieces keeps the field as it is
  have hkeep : ∀ {α : Type} (l : List α) (key : α → Shard)
      (f : Table Shard PrepareTransaction → α → PrepareTransaction)
      (t : Table Shard PrepareTransaction),
      (∀ t a, (∀ q m, t.lookup q = some m → m.participants = []) → (f t a).participants = []) →
      (∀ q m, t.lookup q = some m → m.participants = []) →
      ∀ q m, (l.foldl (fun t a => t.insert (key a) (f t a)) t).lookup q = some m →
        m.participants = [] := by
    intro α l key f t hf ht
    induction l generalizing t with
    | nil => exact ht
    | cons a l ih =>
        refine ih _ fun q m hlook => ?_
        rw [Table.lookup_insert_eq] at hlook
        split_ifs at hlook
        · cases hlook
          exact hf t a ht
        · exact ht q m hlook
  have hget : ∀ {t : Table Shard PrepareTransaction} {q : Shard},
      (∀ q m, t.lookup q = some m → m.participants = []) →
      ((t.lookup q).getD { tid := 0 }).participants = [] := by
    intro t q ht
    cases hq : t.lookup q with
    | none => rfl
    | some m => exact ht q m hq
  refine hkeep req.txn.readSet.toList (fun r => keyToShard env.cfg.nshards r.1) (fun t r =>
    let m := (t.lookup (keyToShard env.cfg.nshards r.1)).getD { tid := 0 }
    { m with rset := m.rset ++ [⟨r.1, r.2.id, r.2.timestamp⟩] }) _
    (fun t r ht => hget ht) ?_ q m (Table.mem_toList.1 hm)
  refine hkeep req.txn.writeSet.toList (fun w => keyToShard env.cfg.nshards w.1) (fun t w =>
    let m := (t.lookup (keyToShard env.cfg.nshards w.1)).getD { tid := 0 }
    { m with wset := m.wset ++ [(w.2, "")] }) _ (fun t w ht => hget ht) ?_
  exact hkeep _ _ _ _ (fun _ _ _ => rfl) fun q m hlook => (by cases hlook)

/-- The lists in the message at hand. -/
def Given (h : History) (input : Input Addr Msg Act) : Prop :=
  ∀ p, input = .recv p → ListPkt h p

/-- The lists of a replica in the middle of a step, and those in what it sent. -/
structure Listing (h : History) (x : Ctx Replica Addr Msg Event) : Prop where
  node : ListsOk h x.state
  sent : ∀ p ∈ x.sent, ListPkt h p

theorem Listing.update (hx : Listing h x) (hr : ListsOk h r) : Listing h { x with state := r } :=
  ⟨hr, hx.sent⟩

theorem Listing.send (hx : Listing h x) {ps : List Pkt}
    (hps : ∀ p ∈ ps, p ∈ x.sent ∨ ListPkt h p) : Listing h { x with sent := ps } :=
  ⟨hx.node, fun p hp => (hps p hp).elim (hx.sent p) id⟩

theorem Listing.more (hx : Listing h x) {ps : List Pkt} (hps : ∀ p ∈ ps, ListPkt h p) :
    Listing h { x with sent := x.sent ++ ps } :=
  hx.send fun p hp => (List.mem_append.1 hp).imp_right (hps p)

/-- A message that names nobody. -/
theorem listPkt_of_casual {p : Pkt} (hp : p.msg.casual) : ListPkt h p := by
  obtain ⟨src, dst, msg⟩ := p
  cases msg with
  | prepareTransaction m => exact hp.elim
  | replicateTransaction m => exact hp.elim
  | replicateReplyAndVote m => exact hp.elim
  | requestCommitResult m => exact hp.elim
  | parallelModeCommit m => exact hp.elim
  | notifyDecisionToPrimary m => exact hp.elim
  | vote m => exact .inl hp
  | _ => trivial

theorem listPkt_of_reply {p : Pkt} {v : PrepareTransactionReply}
    (hp : p.msg = .prepareTransactionReply v) : ListPkt h p := by
  simp only [ListPkt, hp]

/-- **One move** of a replica. -/
theorem Listing.move (hin : Given h input) (hx : Listing h x)
    (htxn : ∀ tid req, x.state.pendingTxns.lookup tid = some req →
      (req.reachConsensus = false ∨ ∃ b, req.timer = some (.resendReplicateTxn b)) →
      req.timer ≠ none → (x.state.log.entryToProto req.lsn).txnId = tid)
    (hmove : Move ⟨cfg, s, i⟩ r₀ input D x y) : Listing h y := by
  have hr := hx.node
  cases hmove with
  | send ps hps => exact hx.more fun p hp => listPkt_of_casual (hps p hp)
  | quiet r hquiet =>
      refine hx.update ⟨fun tid txn htxn => ?_, hquiet.pending ▸ hr.pending⟩
      have hlike := hquiet.active tid
      rw [ActiveLike, htxn] at hlike
      obtain ⟨txn', htxn', hcore⟩ := Option.map_eq_some_iff.1 hlike.symm
      have hsame : txn'.core.participants = txn.core.participants := by rw [hcore]
      rw [show txn.participants = txn'.participants from hsame.symm]
      exact hr.active tid txn' (Option.join_eq_some_iff.1 htxn')
  | forget tid =>
      refine hx.update ⟨fun T t ht => ?_, hr.pending⟩
      rw [Table.lookup_erase_eq] at ht
      split_ifs at ht
      exact hr.active T t ht
  | copy src dst m clock txn hm hnew hwset hts hlist =>
      have hgiven : Listed h m.txnLog.txnId m.participants := hin _ hm
      exact ⟨⟨fun T t => hr.insertActive (hlist ▸ hgiven), hr.pending⟩, hx.sent⟩
  | log remote dst m sent hm hexec hlead hsent =>
      have hgiven : Listed h m.tid m.participants := hin _ hm
      refine ⟨⟨fun T t => hr.insertActive hgiven, hr.pending⟩, fun p hp => ?_⟩
      rcases hsent p hp with hold | ⟨v, hv, _⟩
      · exact hx.sent p hold
      · exact listPkt_of_reply hv
  | enter tid req hlead hnone hentry hopen htimer hlist =>
      obtain ⟨txn, htxn, heq⟩ := hlist
      exact hx.update ⟨hr.active, fun T q => hr.insertPending (heq ▸ hr.active tid txn htxn)⟩
  | repair tid req req' hlead hreq hnone hentry hopen htimer hlist =>
      obtain ⟨txn, htxn, heq⟩ := hlist
      exact hx.update ⟨hr.active, fun T q => hr.insertPending (heq ▸ hr.active tid txn htxn)⟩
  | place tid req hnone htimer hpart hopen hlist =>
      exact hx.update ⟨hr.active, fun T q => hr.insertPending (.inl hlist)⟩
  | touch tid req req' hreq ht =>
      exact hx.update ⟨hr.active, fun T q =>
        hr.insertPending (ht.participants ▸ hr.pending tid req hreq)⟩
  | decide tid req hD hreq =>
      have hsame : Listed h tid { req with reachCommitDecision := true }.participants :=
        hr.pending tid req hreq
      exact hx.update ⟨hr.active, fun T q => hr.insertPending hsame⟩
  | drop tid =>
      refine hx.update ⟨hr.active, fun T q hq => ?_⟩
      rw [Table.lookup_erase_eq] at hq
      split_ifs at hq
      exact hr.pending T q hq
  | replicate tid req ps hD hmode hreq hopen htimer hps =>
      refine hx.more fun p hp => ?_
      obtain ⟨j, m, rfl, hlog, hlist⟩ := hps p hp
      show Listed h m.txnLog.txnId m.participants
      rw [hlog, hlist, htxn tid req hreq hopen htimer]
      exact hr.pending tid req hreq
  | relay src dst m hm =>
      refine hx.more fun p hp => ?_
      rw [List.mem_singleton.1 hp]
      cases m with
      | replicateReplyAndVote v =>
          obtain ⟨src, dst, m, rfl, htid, hlist⟩ := hm
          have hgiven : Listed h m.txnLog.txnId m.participants := hin _ rfl
          show Listed h v.tid v.participants
          rw [htid, hlist]
          exact hgiven
      | requestCommitResult v =>
          obtain ⟨src, dst, m, rfl, htid, hlist⟩ := hm
          have hgiven : Listed h m.tid m.participants := hin _ rfl
          show Listed h v.tid v.participants
          rw [htid, hlist]
          exact hgiven
      | _ => exact hm.elim
  | report tid txn src dst v htxn htid hshard hsrc hts =>
      refine hx.more fun p hp => ?_
      rw [List.mem_singleton.1 hp]
      exact listPkt_of_reply rfl
  | vote sent hfollow hsent =>
      refine hx.send fun p hp => (hsent p hp).imp_right fun hvote => ?_
      obtain ⟨_, v, hv⟩ := hvote
      exact listPkt_of_reply hv
  | refuse dst v hv =>
      refine hx.more fun p hp => ?_
      rw [List.mem_singleton.1 hp]
      exact listPkt_of_reply rfl
  | answer remote dst m z p v hm hans hp hstate =>
      refine hx.more fun q hq => ?_
      rw [List.mem_singleton.1 hq]
      exact listPkt_of_reply hp
  | final ps tid hknown hps =>
      refine hx.more fun p hp => ?_
      obtain ⟨_, v, hv⟩ := hps p hp
      exact listPkt_of_reply hv
  | piece tid req q j m hreq hpiece =>
      refine hx.more fun p hp => ?_
      rw [List.mem_singleton.1 hp]
      exact .inl (prepareMessages_unlisted hpiece)
  | _ => exact ⟨⟨hr.active, hr.pending⟩, hx.sent⟩

end Replica

/-! ### Coordinators -/

namespace Coordinator

/-- The lists a coordinator holds. -/
def ListsOk (h : History) (c : Coordinator) : Prop :=
  ∀ tid req, c.pendingCommits.lookup tid = some req → Listed h tid req.participants

variable {h : History} {env : CoordinatorEnv} {ω : Choice} {tid : TxnId} {req : PendingCommit}

/-- A handler that keeps the lists. -/
abbrev KeepsLists (h : History) {α : Type} (p : CoordinatorM α) : Prop :=
  Prog.Keeps (fun x => ListsOk h x.state) p

theorem setCommit_lists (hreq : Listed h tid req.participants) :
    KeepsLists h (setCommit tid req) := by
  intro x hx T q hq
  rw [Table.lookup_insert_eq] at hq
  split_ifs at hq with heq
  · cases hq
    rw [heq]
    exact hreq
  · exact hx T q hq

theorem eraseCommit_lists : KeepsLists h (eraseCommit tid) := by
  intro x hx T q hq
  rw [Table.lookup_erase_eq] at hq
  split_ifs at hq
  exact hx T q hq

theorem record_lists (result : CommitResult) (announced : Bool) :
    KeepsLists h (record tid result announced) := fun _ hx => hx

theorem announce_lists (result : CommitResult) : KeepsLists h (announce env req result) :=
  .bind (record_lists _ _) fun _ => .bind (fun _ hx => hx) fun _ => eraseCommit_lists

theorem rejectCommit_lists : KeepsLists h (rejectCommit env req) :=
  .bind (record_lists _ _) fun _ => .bind (fun _ hx => hx) fun _ => eraseCommit_lists

theorem collectVote_participants (req : PendingCommit) :
    (collectVote req).2.participants = req.participants := by
  simp only [collectVote, reachConsensus]
  split_ifs
  · rfl
  · rfl
  · rfl
  · rfl

theorem collectReply_participants (new : Bool) (req : PendingCommit) :
    (collectReply new req).2.participants = req.participants := by
  unfold collectReply
  split_ifs <;> rfl

theorem addReply_participants (req : PendingCommit) (reply : BypassLeaderReply) :
    (addReply req reply).2.participants = req.participants := by
  simp only [addReply]
  split_ifs
  · rfl
  · rfl

theorem tallyVote_lists (hreq : Listed h tid req.participants) (free : PendingCommit → Bool) :
    KeepsLists h (tallyVote env tid req free) := by
  have hlist : Listed h tid (collectVote req).2.participants := by
    rw [collectVote_participants]
    exact hreq
  refine .bind (setCommit_lists hlist) fun _ => .when (.bind (fun _ hx => hx) fun _ => .when ?_)
  exact announce_lists _

theorem learnParticipants_listed {participants : List Shard} (hreq : Listed h tid req.participants)
    (hnew : Listed h tid participants) :
    Listed h tid (learnParticipants req participants).participants := by
  unfold learnParticipants
  split_ifs
  · exact hnew
  · exact hreq

theorem votedCommit_listed (env : CoordinatorEnv) (ω : Choice) {pending : Option PendingCommit} {participants : List Shard}
    (hold : ∀ req, pending = some req → Listed h tid req.participants)
    (hnew : Listed h tid participants) (p q ts : ℕ) :
    Listed h tid (votedCommit env ω pending tid participants p q ts).participants := by
  cases pending with
  | none => exact hnew
  | some req => exact learnParticipants_listed (hold req rfl) hnew

/-- A pending commit, or a new one. -/
theorem getD_listed {pending : Option PendingCommit}
    (hold : ∀ req, pending = some req → Listed h tid req.participants) :
    Listed h tid (pending.getD (newCommit env ω tid)).participants := by
  cases pending with
  | none => exact .inl rfl
  | some req => exact hold req rfl

theorem addReplies_lists (replica : ℕ) (qs : List Shard) :
    ∀ (already : Bool) {req : PendingCommit}, Listed h tid req.participants →
      KeepsLists h (addReplies env tid replica qs already req) := by
  induction qs with
  | nil => exact fun _ _ hreq => setCommit_lists hreq
  | cons q qs ih =>
      intro already req hreq
      have hcollect : ∀ req' : PendingCommit, req'.participants = req.participants →
          Listed h tid (collectReply true req').2.participants := by
        intro req' hsame
        rw [collectReply_participants, hsame]
        exact hreq
      simp only [addReplies]
      refine .ite (ih _ hreq) (.ite (.bind (setCommit_lists (hcollect _ rfl)) fun _ =>
        announce_lists _) (ih _ (hcollect _ rfl)))

/-- **A message** keeps the lists of a coordinator. -/
theorem handleMessage_lists {src dst : Addr} {msg : Msg} (hmsg : ListPkt h ⟨src, dst, msg⟩) :
    KeepsLists h (handleMessage env ω msg) := by
  intro x hx
  cases msg with
  | replicateReplyAndVote m =>
      simp only [handleMessage, handleReplicateReplyAndVote, wp_bind, wp_read, wp_ite, wp_pure]
      refine ⟨fun _ => hx, fun _ => ?_⟩
      have hreq := votedCommit_listed env ω (hx m.tid) hmsg m.primaryShard
        m.primaryCoordinator m.timestamp
      refine wp_mono (fun _ y hy => ⟨fun _ => ?_, fun _ => rejectCommit_lists _ hy⟩)
        (fun _ hy => hy) (setCommit_lists hreq _ hx)
      refine tallyVote_lists ?_ _ _ hy
      exact hreq
  | bypassLeaderReply m =>
      simp only [handleMessage, handleBypassLeaderReply, wp_bind, wp_read, wp_ite, wp_pure]
      refine ⟨fun _ => hx, fun _ => ?_⟩
      have hreq : Listed h m.tid (collectReply (addReply ((x.state.pendingCommits.lookup
          m.tid).getD (newCommit env ω m.tid)) m).1 (addReply ((x.state.pendingCommits.lookup
          m.tid).getD (newCommit env ω m.tid)) m).2).2.participants := by
        rw [collectReply_participants, addReply_participants]
        exact getD_listed (hx m.tid)
      refine wp_mono (fun _ y hy => ?_) (fun _ hy => hy) (setCommit_lists hreq _ hx)
      rw [wp_when]
      exact ⟨fun _ => announce_lists _ _ hy, fun _ => hy⟩
  | bypassLeaderReplyUnion m =>
      simp only [handleMessage, handleBypassLeaderReplyUnion, wp_bind, wp_read, wp_ite, wp_pure]
      exact ⟨fun _ => hx, fun _ => addReplies_lists _ _ _ (getD_listed (hx m.tid)) _ hx⟩
  | replicateDecision m =>
      simp only [handleMessage, handleReplicateDecision, wp_bind, wp_read]
      cases hreq : x.state.pendingCommits.lookup m.tid with
      | none => exact hx
      | some req =>
          have hlist : Listed h m.tid { req with state := m.state }.participants :=
            hx m.tid req hreq
          simp only [wp_bind]
          refine wp_mono (fun _ y hy => ?_) (fun _ hy => hy) (setCommit_lists hlist _ hx)
          simp only [record, wp_bind, wp_update, wp_emit, wp_send, wp_when]
          exact ⟨fun _ => eraseCommit_lists _ hy, fun _ => hy⟩
  | replyDecision m =>
      simp only [handleMessage, handleReplyDecision, wp_bind, wp_read]
      cases hreq : x.state.pendingCommits.lookup m.tid with
      | none => exact hx
      | some req =>
          simp only [wp_ite, wp_pure, wp_bind, wp_when]
          refine ⟨fun _ => hx, fun _ => ?_⟩
          refine wp_mono (fun _ y hy => ⟨fun _ => eraseCommit_lists _ hy, fun _ => hy⟩)
            (fun _ hy => hy) (setCommit_lists ?_ _ hx)
          exact hx m.tid req hreq
  | vote m =>
      simp only [handleMessage, handleVote, wp_bind, wp_read, wp_ite, wp_pure]
      refine ⟨fun _ => hx, fun _ => ?_⟩
      have hreq := votedCommit_listed env ω (hx m.tid) hmsg m.primaryShard
        m.primaryCoordinator m.timestamp
      refine wp_mono (fun _ y hy => ⟨fun _ => ?_, fun _ => rejectCommit_lists _ hy⟩)
        (fun _ hy => hy) (setCommit_lists hreq _ hx)
      refine tallyVote_lists ?_ _ _ hy
      exact hreq
  | requestCommitResult m =>
      simp only [handleMessage, handleRequestCommitResult, wp_bind, wp_read]
      cases hreq : x.state.pendingCommits.lookup m.tid with
      | none =>
          simp only [wp_bind, wp_read, wp_ite]
          refine ⟨fun _ => hx, fun _ => setCommit_lists ?_ _ hx⟩
          exact hmsg
      | some req =>
          refine setCommit_lists ?_ _ hx
          exact learnParticipants_listed (hx m.tid req hreq) hmsg
  | notifyDecisionToPrimary m =>
      simp only [handleMessage, handleNotifyDecision, wp_bind, wp_read]
      cases hreq : x.state.pendingCommits.lookup m.tid with
      | none => exact hx
      | some req =>
          have hold := hx m.tid req hreq
          have hlist : Listed h m.tid (if req.participants = [] then
              { req with
                reachConsensus := true
                state := m.state
                primaryShard := m.primaryShard
                participants := m.participants }
              else { req with reachConsensus := true, state := m.state }).participants := by
            split_ifs
            · exact hmsg
            · exact hold
          simp only [wp_ite, wp_pure, wp_bind]
          refine ⟨fun _ => hx, fun _ => ⟨fun _ => ?_, fun _ => ?_⟩⟩
          · refine wp_mono (fun _ y hy => ?_) (fun _ hy => hy) (setCommit_lists ?_ _ hx)
            swap
            · exact hlist
            rw [wp_when]
            exact ⟨fun _ => announce_lists _ _ hy, fun _ => hy⟩
          · exact eraseCommit_lists _ hx
  | notifyDependenciesAreCleared m =>
      simp only [handleMessage, handleNotifyDependenciesAreCleared, wp_bind, wp_read]
      cases hreq : x.state.pendingCommits.lookup m.tid with
      | none => exact hx
      | some req =>
          simp only [wp_bind, wp_when]
          refine wp_mono (fun _ y hy => ⟨fun _ => announce_lists _ _ hy, fun _ => hy⟩)
            (fun _ hy => hy) (setCommit_lists ?_ _ hx)
          exact hx m.tid req hreq
  | _ => exact hx

end Coordinator

/-! ### Every run -/

/-- The lists of a process. -/
def ListNode (h : History) : (n : Node) → Local n → Prop
  | .replica _ _, r => Replica.ListsOk h r
  | .coordinator _, c => Coordinator.ListsOk h c
  | .client _, _ => True

section Run

variable {cfg : Config} {C : StepCond} {w : GlobalState}

theorem ListNode.init (n : Node) : ListNode [] n (cfg.init n) := by
  cases n with
  | client tid => trivial
  | replica s i => exact ⟨fun tid txn htxn => (by cases htxn), fun tid req hreq => by cases hreq⟩
  | coordinator c => exact fun tid req hreq => by cases hreq

theorem ListNode.mono {h es : History} {n : Node} {x : Local n} (hx : ListNode h n x) :
    ListNode (h ++ es) n x := by
  cases n with
  | client tid => trivial
  | replica s i => exact Replica.ListsOk.mono hx
  | coordinator c => exact fun tid req hreq => (hx tid req hreq).mono

/-- What a client names is what it started with. -/
theorem RoundPkt.listPkt {h : History} {tid : TxnId} {p : Pkt} (hp : RoundPkt True cfg h p)
    (hkind : Client.Utters tid p) : ListPkt h p := by
  obtain ⟨src, dst, msg⟩ := p
  obtain ⟨hmsg, s, rfl⟩ := hkind
  cases msg with
  | prepareTransaction m =>
      rcases hp with hsrc | ⟨_, _, ⟨st, hst, _, hcarried⟩, _⟩
      · cases hsrc
      · exact .inr ⟨st, hst, hcarried.same trivial⟩
  | parallelModeCommit m =>
      obtain ⟨st, hst, _, hsame⟩ := hp
      exact .inr ⟨st, hst, hsame trivial⟩
  | replicateTransaction m => exact hmsg.elim
  | replicateReplyAndVote m => exact hmsg.elim
  | requestCommitResult m => exact hmsg.elim
  | vote m => exact hmsg.elim
  | notifyDecisionToPrimary m => exact hmsg.elim
  | _ => trivial

theorem Msg.ofCoordinator.listPkt {h : History} {p : Pkt} (hp : p.msg.ofCoordinator) :
    ListPkt h p := by
  obtain ⟨src, dst, msg⟩ := p
  cases msg with
  | prepareTransaction m => exact hp.elim
  | parallelModeCommit m => exact hp.elim
  | replicateTransaction m => exact hp.elim
  | replicateReplyAndVote m => exact hp.elim
  | requestCommitResult m => exact hp.elim
  | vote m => exact hp.elim
  | notifyDecisionToPrimary m => exact hp.elim
  | _ => trivial

/-- The step of a replica. -/
theorem lists_step {s : Shard} {i : ℕ} {ω : Choice} {input : Input Addr Msg Act}
    (hw : cfg.system.Reach C w) (hr : Replica.ListsOk w.history (w.replica s i))
    (hpkt : ∀ p ∈ w.net, ListPkt w.history p) (hen : cfg.system.Enabled w (.replica s i) input) :
    Replica.Listing w.history
      (Replica.handleInput ⟨cfg, s, i⟩ ω input { state := w.replica s i }).state := by
  have hin : Replica.Given w.history input := by
    rintro p rfl
    exact hpkt p hen.2.1
  have halive : w.crashed (.replica s i) = false := by
    cases input with
    | recv p => exact hen.1
    | act a => exact hen
  obtain ⟨_, hlive, hdated⟩ := Config.dated (fun ho : False => ho.elim) hw
  obtain ⟨D, hmoves⟩ := wp_state
    (Replica.handleInput_stopped ⟨cfg, s, i⟩ ω input { state := w.replica s i })
  generalize (Replica.handleInput ⟨cfg, s, i⟩ ω input { state := w.replica s i }).state = y
    at hmoves
  induction hmoves with
  | refl => exact ⟨hr, fun p hp => absurd hp List.not_mem_nil⟩
  | tail hbefore hmove ih =>
      refine ih.move hin (fun tid req hreq hopen htimer => ?_) hmove
      have hx := Dating.of_moves hw (hlive (.replica s i) halive) hdated hen (ω := ω)
        (fun ho => ho.elim) hbefore
      exact hx.replicated_txn hreq hopen htimer

/-- **The lists** in the runs without a second round. -/
theorem Config.lists
    (honce : ∀ (w : GlobalState) tid ω, C w (.client tid) ω (.act (.client .wake)) →
      ¬ Client.Retries (w.client tid))
    (hw : cfg.system.Reach C w) :
    (∀ n, ListNode w.history n (w.state n)) ∧ ∀ p ∈ w.net, ListPkt w.history p := by
  refine hw.invariant ListNode.init (fun _ _ _ => ListPkt.mono)
    (fun _ _ _ _ _ _ => ListNode.mono) ?_
  intro (w : GlobalState) n ω input hw hnode hpkt hen hc
  cases n with
  | client tid =>
      have hround := (Config.rounds (fun _ : True => honce) hw).1 tid
      have hwake : True → input = .act (.client .wake) → ¬ Client.Retries (w.client tid) := by
        rintro _ rfl
        exact honce w tid ω hc
      have hgood := wp_state (Client.handleInput_rounds (ω := ω) hround hwake)
      refine wp_of_state ⟨trivial, fun p hp => ?_⟩
      exact (hgood.sent p hp).listPkt ((Client.handleInput_sends ⟨cfg, tid⟩ ω input).sent hp)
  | replica s i =>
      have hstep := lists_step (ω := ω) hw (hnode (.replica s i)) hpkt hen
      exact wp_of_state ⟨hstep.node.mono, fun p hp => (hstep.sent p hp).mono⟩
  | coordinator c =>
      have hkind := Coordinator.handleInput_sends ⟨cfg, c⟩ ω input
      have hkeep : Prog.wp (Coordinator.handleInput ⟨cfg, c⟩ ω input)
          (fun _ x => Coordinator.ListsOk w.history x.state)
          (fun x => Coordinator.ListsOk w.history x.state) { state := w.coordinator c } := by
        cases input with
        | recv p =>
            exact Coordinator.handleMessage_lists (hpkt p hen.2.1) _ (hnode (.coordinator c))
        | act a => exact hnode (.coordinator c)
      have hnew : Coordinator.ListsOk w.history
          (Coordinator.handleInput ⟨cfg, c⟩ ω input { state := w.coordinator c }).state.state :=
        wp_state hkeep
      exact wp_of_state ⟨ListNode.mono (n := .coordinator c) hnew, fun p hp =>
        (hkind.sent hp).listPkt⟩

end Run

end D2PC
