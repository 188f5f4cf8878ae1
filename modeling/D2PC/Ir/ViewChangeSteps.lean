import D2PC.Ir.ViewChange

/-!
# The handlers of view changes

A replica that enters a later view sends its record to the leader of it, which merges the records
once it has those of a quorum. Consensus operations are handled in normal status only: that is what
`Ready` says, and not what the code ensures.

* `collectDoViewChange_ok` : the leader counts a message, and merges once it has `f` of them;
* `replica_recv_good`, `replica_act_good` : the steps of a replica.
-/

namespace D2PC.Ir

open Prog Ctx

variable {σ Op Res : Type}

/-- The messages for the view, this one included. -/
def quorumWith (r : Replica σ Op Res) (msg : DoViewChange Op Res) : Table ℕ (DoViewChange Op Res) :=
  (r.doViewChangeQuorum.add msg.newView msg.replicaIdx msg).getMessages msg.newView

variable {cfg : Config} {h : History Op Res} {i j u latest : ℕ} {R : Record Op Res}
variable {r : Replica σ Op Res} {msg : DoViewChange Op Res}

variable [DecidableEq Res]

/-! ### Collecting messages -/

section Collect

variable {dep : Deployment σ Op Res}

/-- What a message for the leader tells of its sender. -/
def Credible (cfg : Config) (h : History Op Res) (i : ℕ) (msg : DoViewChange Op Res) : Prop :=
  msg.replicaIdx ≠ i ∧ msg.replicaIdx < cfg.n ∧ ∃ R, msg.record = some R ∧
    Contributed h msg.replicaIdx msg.newView msg.latestNormalView R

omit [DecidableEq Res] in
theorem Credible.mono (hmsg : Credible cfg h i msg) (es : History Op Res) :
    Credible cfg (h ++ es) i msg := by
  obtain ⟨hne, hlt, R, hR, hc⟩ := hmsg
  exact ⟨hne, hlt, R, hR, hc.mono es⟩

/-- The messages collected, this one included. -/
theorem ReplicaOk.collected_add (hr : ReplicaOk cfg h i r) (hmsg : Credible cfg h i msg) {u' : ℕ}
    {m : DoViewChange Op Res}
    (hl : ((r.doViewChangeQuorum.add msg.newView msg.replicaIdx msg).getMessages u').lookup j =
      some m) : j ≠ i ∧ j < cfg.n ∧ m.replicaIdx = j ∧ m.newView = u' ∧
        ∃ R, m.record = some R ∧ Contributed h j u' m.latestNormalView R := by
  rw [QuorumSet.getMessages_add] at hl
  split_ifs at hl with heq
  · rw [Table.lookup_insert_eq] at hl
    split_ifs at hl with hj
    · cases hl
      rw [heq, hj]
      obtain ⟨hne, hlt, hc⟩ := hmsg
      exact ⟨hne, hlt, rfl, rfl, hc⟩
    · rw [← heq] at hl
      exact hr.collected u' j m hl
  · exact hr.collected u' j m hl

theorem ahead_add (hr : ReplicaOk cfg h i r) (hview : r.view = msg.newView) {u' : ℕ}
    (hu' : r.view < u') :
    (r.doViewChangeQuorum.add msg.newView msg.replicaIdx msg).getMessages u' = ∅ := by
  rw [QuorumSet.getMessages_add, if_neg]
  · exact hr.ahead u' hu'
  · omega

/-- Too few messages as yet. -/
theorem ReplicaOk.collect (hr : ReplicaOk cfg h i r) (hview : r.view = msg.newView)
    (hmsg : Credible cfg h i msg) (hfew : (quorumWith r msg).size < cfg.f) :
    ReplicaOk cfg h i { r with
      doViewChangeQuorum := r.doViewChangeQuorum.add msg.newView msg.replicaIdx msg } := by
  refine ⟨hr.normal, hr.changing, hr.entries, hr.record, hr.acted, hr.executed, hr.contributed,
    hr.merged, hr.unique, fun u' j m hl => hr.collected_add hmsg hl, fun _ => .inl ?_,
    fun u' hu' => ahead_add hr hview hu'⟩
  rw [quorumWith, ← hview] at hfew
  show (QuorumSet.getMessages _ r.view).size < cfg.f
  rw [← hview]
  exact hfew

/-- The message that completes a quorum is the last one counted. -/
theorem quorumWith_size (hn : cfg.n = 2 * cfg.f + 1) (hi : i < cfg.n) (hr : ReplicaOk cfg h i r)
    (hstatus : r.status ≠ .normal) (hview : r.view = msg.newView) (hmsg : Credible cfg h i msg)
    (hmany : cfg.f ≤ (quorumWith r msg).size) : (quorumWith r msg).size = cfg.f := by
  have hle : (quorumWith r msg).size ≤
      (r.doViewChangeQuorum.getMessages r.view).size + 1 := by
    rw [quorumWith, QuorumSet.getMessages_add, if_pos rfl, ← hview]
    exact Table.size_insert_le _ _ _
  rcases hr.collecting hstatus with hlt | hempty
  · omega
  · rw [hempty] at hle
    have hzero : (∅ : Table ℕ (DoViewChange Op Res)).size = 0 := rfl
    have hne := hmsg.1
    have hlt := hmsg.2.1
    omega

/-- The entries of the latest records. -/
theorem latest_entries (hr : ReplicaOk cfg h i r) (hmsg : Credible cfg h i msg)
    (hall : ∀ j u l R, Contributed h j u l R → Entries cfg h R) :
    ∀ R ∈ Replica.latestRecords (mergedMessages cfg (quorumWith r msg)) r, Entries cfg h R := by
  intro R hR
  rcases List.mem_append.1 hR with hthere | hown
  · obtain ⟨m, hm, rfl⟩ := List.mem_map.1 hthere
    obtain ⟨j, _, hl⟩ := List.mem_filterMap.1 (List.mem_filter.1 hm).1
    obtain ⟨_, _, _, _, R, hR, hc⟩ := hr.collected_add hmsg hl
    rw [hR, Option.getD_some]
    exact hall _ _ _ _ hc
  · split_ifs at hown
    · rw [List.mem_singleton.1 hown]
      exact hr.entries
    · cases hown

/-- **The leader merges** the records of a quorum, its own one included, and starts the view. -/
theorem ReplicaOk.install {E : Type} (env : Replica.Env σ Op Res E)
    (hn : env.cfg.n = 2 * env.cfg.f + 1) (happ : env.app.KeepsMajority) (hi : i < env.cfg.n)
    (hr : ReplicaOk env.cfg h i r) (hcontributed : Contributed h i r.view r.latestNormalView
      r.record) (hview : r.view = msg.newView) (hstatus : r.status ≠ .normal)
    (hlead : i = env.cfg.leader msg.newView) (hmsg : Credible env.cfg h i msg)
    (hall : ∀ j u l R, Contributed h j u l R → Entries env.cfg h R)
    (hmany : env.cfg.f ≤ (quorumWith r msg).size)
    (hR : R = (Replica.irMergeRecords env (mergedMessages env.cfg (quorumWith r msg)) r).1)
    (app : σ) :
    ReplicaOk env.cfg (h ++ [(Node.replica i, Event.replica (.merged msg.newView R))]) i
      { status := .normal
        view := msg.newView
        latestNormalView := msg.newView
        record := R
        doViewChangeQuorum := r.doViewChangeQuorum.add msg.newView msg.replicaIdx msg
        app := app } := by
  have hmsgs : ∀ j m, (quorumWith r msg).lookup j = some m → j ≠ i ∧ j < env.cfg.n ∧
      m.replicaIdx = j ∧ m.newView = r.view ∧ ∃ R, m.record = some R ∧
        Contributed h j r.view m.latestNormalView R := by
    intro j m hl
    rw [hview]
    exact hr.collected_add hmsg hl
  have hcert : Nonempty (Certificate env.cfg h msg.newView R) := by
    rw [hR, ← hview]
    exact certificate happ hi hmsgs (quorumWith_size hn hi hr hstatus hview hmsg hmany) hcontributed
  have hm : Merged env.cfg (h ++ [(Node.replica i, Event.replica (.merged msg.newView R))])
      msg.newView R := by
    rw [Merged, ← hlead]
    exact List.mem_append_right _ (List.mem_singleton_self _)
  have hE : Entries env.cfg (h ++ [(Node.replica i, Event.replica (.merged msg.newView R))]) R := by
    have hm' := hm
    rw [hR, ← hview] at hm' ⊢
    exact merge_entries (fun R' hR' => (latest_entries hr hmsg hall R' hR').mono _) hm'
  refine hr.start hview.le ?_ (.inr ⟨rfl, hlead, fun R' hmem => ?_, hcert⟩) hm hE ?_
    (fun u' j m hl => hr.collected_add hmsg hl) (fun u' hu' => ahead_add hr hview ?_) app
  · rw [← hview]
    exact hr.changing hstatus
  · obtain ⟨_, _, _, hnormal, _⟩ := hr.merged _ R' hmem
    exact hstatus (hnormal hview.symm)
  · rw [hR]
    exact merge_master
  · rw [hview]
    exact hu'

/-- **The leader counts a message**, and merges once it has `f` of them. -/
theorem collectDoViewChange_ok (hn : dep.cfg.n = 2 * dep.cfg.f + 1) (happ : dep.app.KeepsMajority)
    (hi : i < dep.cfg.n) {c : Ctx (Replica σ Op Res) Node (Msg Op Res) (Event Op Res)}
    (hc : ReplicaGood dep h i c) (hview : c.state.view = msg.newView)
    (hstatus : c.state.status ≠ .normal)
    (hmsg : i = dep.cfg.leader msg.newView → Credible dep.cfg (c.past h (.replica i)) i msg)
    (hall : ∀ j u l R, Contributed (c.past h (.replica i)) j u l R →
      Entries dep.cfg (c.past h (.replica i)) R) :
    Prog.wp (Replica.collectDoViewChange (dep.replicaEnv i) msg)
      (fun _ => ReplicaGood dep h i) (ReplicaGood dep h i) c := by
  simp only [Replica.collectDoViewChange, wp_bind, wp_read, wp_when, decide_eq_true_eq]
  refine ⟨fun hlead => ?_, fun _ => hc⟩
  have hlead' : i = dep.cfg.leader msg.newView := by
    rw [← hview]
    exact hlead
  have hcred := hmsg hlead'
  simp only [wp_update]
  refine ⟨fun hmany => ?_, fun hfew => ?_⟩
  · have hmany' : dep.cfg.f ≤ (quorumWith c.state msg).size := hmany
    have hgave := hc.node.contribute hstatus
    have hcontributed : Contributed (c.past h (.replica i) ++ [(Node.replica i, Event.replica
        (.contributed c.state.view c.state.latestNormalView c.state.record))]) i
        c.state.view c.state.latestNormalView c.state.record :=
      List.mem_append_right _ (List.mem_singleton_self _)
    simp only [Replica.sendMessageToAll, wp_emit, wp_send]
    refine Good.send (Good.record (fun _ es _ hp => hp.mono es)
      (Good.emit (fun _ es _ hp => hp.mono es) hc hgave) ?_) ?_
    · rw [past_emit]
      refine hgave.install (dep.replicaEnv i) hn happ hi hcontributed hview hstatus hlead'
        ?_ ?_ hmany' rfl _
      · exact hcred.mono _
      · intro j u l R hc'
        rcases mem_concat.1 hc' with hold | ⟨_, heq⟩
        · exact (hall j u l R hold).mono _
        · cases heq
          exact hc.node.entries.mono _
    · intro p hp
      obtain ⟨j, _, rfl⟩ := List.mem_map.1 hp
      refine ⟨?_, ?_⟩
      · rw [← hview]
        exact Nat.zero_lt_of_lt (hc.node.changing hstatus)
      · rw [Merged, ← hlead']
        exact mem_past_emit _
  · exact hc.update (hc.node.collect hview hcred (not_le.1 (of_decide_eq_false hfew)))

end Collect

/-! ### The steps -/

section Steps

variable {dep : Deployment σ Op Res}

/-- The record is sent to the leader of the view that was entered. -/
theorem broadcastDoViewChangeMessages_ok (hi : i < dep.cfg.n)
    {c : Ctx (Replica σ Op Res) Node (Msg Op Res) (Event Op Res)} (hc : ReplicaGood dep h i c)
    (hstatus : c.state.status ≠ .normal) :
    Prog.wp (Replica.broadcastDoViewChangeMessages (dep.replicaEnv i))
      (fun _ c' => ReplicaGood dep h i c' ∧ c'.state = c.state ∧
        c'.past h (.replica i) = c.past h (.replica i) ++ [(Node.replica i, Event.replica
          (.contributed c.state.view c.state.latestNormalView c.state.record))])
      (ReplicaGood dep h i) c := by
  have hgave := Good.emit (fun _ es _ hp => hp.mono es) hc (hc.node.contribute hstatus)
  have hothers : ∀ p ∈ ((List.range dep.cfg.n).filter fun j =>
      j ≠ i ∧ j ≠ dep.cfg.leader c.state.view).map fun j =>
        (⟨.replica i, .replica j, .doViewChange
          { replicaIdx := i
            record := none
            newView := c.state.view
            latestNormalView := c.state.latestNormalView }⟩ : Packet Node (Msg Op Res)),
      ∀ h', PacketOk dep.cfg h' p := by
    intro p hp h'
    obtain ⟨j, hj, rfl⟩ := List.mem_map.1 hp
    obtain ⟨hne, hlead⟩ := of_decide_eq_true (List.mem_filter.1 hj).2
    refine ⟨hi, fun heq => ?_, fun heq => ?_⟩
    · cases heq
      exact hne rfl
    · cases heq
      exact absurd rfl hlead
  simp only [Replica.broadcastDoViewChangeMessages, wp_bind, wp_read, wp_emit, wp_send, wp_when,
    decide_eq_true_eq]
  refine ⟨fun hlead => ⟨?_, trivial, past_emit _⟩, fun _ => ⟨?_, trivial, past_emit _⟩⟩
  · refine Good.send_one (Good.send hgave fun p hp => hothers p hp _) ⟨hi, fun heq => ?_, fun _ => ?_⟩
    · exact hlead (Node.replica.inj heq)
    · exact ⟨c.state.record, rfl, mem_past_emit _⟩
  · exact Good.send hgave fun p hp => hothers p hp _

/-- What the steps of replicas have to meet: a consensus operation is handled in normal status
only. -/
def Ready (r : Replica σ Op Res) : Msg Op Res → Prop
  | .proposeConsensus _ _ => r.status = .normal
  | .finalizeConsensus _ _ => r.status = .normal
  | _ => True

instance (r : Replica σ Op Res) (m : Msg Op Res) : Decidable (Ready r m) :=
  match m with
  | .proposeConsensus _ _ => inferInstanceAs (Decidable (r.status = .normal))
  | .finalizeConsensus _ _ => inferInstanceAs (Decidable (r.status = .normal))
  | .doViewChange _ => isTrue trivial
  | .proposeInconsistent _ _ => isTrue trivial
  | .replyInconsistent _ _ _ _ => isTrue trivial
  | .finalizeInconsistent _ => isTrue trivial
  | .confirm _ _ _ => isTrue trivial
  | .replyConsensus _ _ _ _ _ => isTrue trivial
  | .startView _ _ => isTrue trivial

/-- A replica enters a later view, and is still in it. -/
theorem ReplicaOk.enter (hr : ReplicaOk cfg h i r) (hu : r.view < u) :
    ReplicaOk cfg h i { r with
      view := u
      status := if r.status = .normal then .viewChange else r.status } := by
  refine hr.leave hu ?_
  split_ifs with hnormal
  · exact Status.noConfusion
  · exact hnormal

theorem handleDoViewChange_ok (hn : dep.cfg.n = 2 * dep.cfg.f + 1) (happ : dep.app.KeepsMajority)
    (hi : i < dep.cfg.n) (hr : ReplicaOk dep.cfg h i r) {src : Node}
    (hp : PacketOk dep.cfg h ⟨src, .replica i, .doViewChange msg⟩)
    (hall : ∀ j u l R, Contributed h j u l R → Entries dep.cfg h R) :
    Prog.wp (Replica.handleDoViewChange (dep.replicaEnv i) msg)
      (fun _ => ReplicaGood dep h i) (ReplicaGood dep h i) { state := r } := by
  obtain ⟨hidx, hdst, hrecord⟩ := hp
  have hcred : i = dep.cfg.leader msg.newView → Credible dep.cfg h i msg := by
    intro hlead
    refine ⟨fun heq => hdst (by rw [heq]), hidx, hrecord ?_⟩
    rw [← hlead]
  simp only [Replica.handleDoViewChange, wp_bind, wp_read, wp_ite, wp_pure, wp_when,
    decide_eq_true_eq]
  refine ⟨fun _ => Good.start hr, fun hge => ⟨fun heq => ⟨fun hstatus => ?_, fun _ => ?_⟩,
    fun hne => ?_⟩⟩
  · refine collectDoViewChange_ok hn happ hi (Good.start hr) heq.symm hstatus ?_ ?_
    · rw [past_start]
      exact hcred
    · rw [past_start]
      exact hall
  · exact Good.start hr
  · have hlt : r.view < msg.newView := lt_of_le_of_ne (not_lt.1 hge) (Ne.symm hne)
    have henter := hr.enter hlt
    have hstatus : (if r.status = .normal then Status.viewChange else r.status) ≠ .normal := by
      split_ifs with hnormal
      · exact Status.noConfusion
      · exact hnormal
    simp only [wp_update]
    refine wp_mono (fun _ c' hc' => ?_) (fun _ h => h)
      (broadcastDoViewChangeMessages_ok hi (Good.update (Good.start hr) (s := _) ?_) hstatus)
    · obtain ⟨hgood, hstate, hpast⟩ := hc'
      rw [past_state, past_start] at hpast
      refine collectDoViewChange_ok hn happ hi hgood ?_ ?_ ?_ ?_
      · rw [hstate]
      · rw [hstate]
        exact hstatus
      · rw [hpast]
        exact fun hlead => (hcred hlead).mono _
      · rw [hpast]
        intro j u l R hc
        rcases mem_concat.1 hc with hold | ⟨_, heq⟩
        · exact (hall j u l R hold).mono _
        · cases heq
          exact hr.entries.mono _
    · rw [past_start]
      exact henter

theorem handleStartView_ok (hr : ReplicaOk dep.cfg h i r) {src dst : Node}
    (hp : PacketOk dep.cfg h ⟨src, dst, .startView R u⟩)
    (hmerged : ∀ u R, Merged dep.cfg h u R → Entries dep.cfg h R ∧ Master R) :
    Prog.wp (Replica.handleStartView (dep.replicaEnv i) R u)
      (fun _ => ReplicaGood dep h i) (ReplicaGood dep h i) { state := r } := by
  obtain ⟨_, hm⟩ := hp
  obtain ⟨hE, hM⟩ := hmerged u R hm
  simp only [Replica.handleStartView, wp_bind, wp_read, wp_when, wp_update]
  refine ⟨fun hnew => Good.update (Good.start hr) ?_, fun _ => Good.start hr⟩
  simp only [id, Bool.not_eq_true', Bool.or_eq_false_iff, decide_eq_false_iff_not, not_lt,
    not_and] at hnew
  obtain ⟨hle, hnormal⟩ := hnew
  have hlt : r.latestNormalView < u := by
    by_cases hs : r.status = .normal
    · have hview := hr.normal hs
      have hne : u ≠ r.view := fun heq => hnormal heq hs
      omega
    · exact lt_of_lt_of_le (hr.changing hs) hle
  rw [past_start]
  have hstart := hr.start hle hlt (.inl rfl) (by rw [List.append_nil]; exact hm)
    (by rw [List.append_nil]; exact hE) hM hr.collected
    (fun u' hu' => hr.ahead u' (lt_of_le_of_lt hle hu')) (dep.app.sync R r.app)
  rw [List.append_nil] at hstart
  exact hstart

theorem handleViewChangeTimeout_ok (hi : i < dep.cfg.n) (hr : ReplicaOk dep.cfg h i r) :
    Prog.wp (Replica.handleViewChangeTimeout (dep.replicaEnv i))
      (fun _ => ReplicaGood dep h i) (ReplicaGood dep h i) { state := r } := by
  have henter := hr.enter (Nat.lt_succ_self r.view)
  simp only [Replica.handleViewChangeTimeout, wp_bind, wp_update]
  refine wp_mono (fun _ _ hc => hc.1) (fun _ h => h) (broadcastDoViewChangeMessages_ok hi
    (Good.update (Good.start hr) (s := _) ?_) ?_)
  · rw [past_start]
    exact henter
  · show (if r.status = .normal then Status.viewChange else r.status) ≠ .normal
    split_ifs with hnormal
    · exact Status.noConfusion
    · exact hnormal

/-- **A replica handles a message.** -/
theorem replica_recv_good [Inhabited Res] (hn : dep.cfg.n = 2 * dep.cfg.f + 1)
    (happ : dep.app.KeepsMajority) (hi : i < dep.cfg.n) (hkinds : Kinds h)
    (hfin : ∀ o res, Finalizing h o res → Invoked h o .consensus)
    (hall : ∀ j u l R, Contributed h j u l R → Entries dep.cfg h R)
    (hmerged : ∀ u R, Merged dep.cfg h u R → Entries dep.cfg h R ∧ Master R)
    (hr : ReplicaOk dep.cfg h i r) {src : Node} {m : Msg Op Res}
    (hp : PacketOk dep.cfg h ⟨src, .replica i, m⟩) (hready : Ready r m) :
    Prog.wp (Replica.handleMessage (dep.replicaEnv i) src m)
      (fun _ => ReplicaGood dep h i) (ReplicaGood dep h i) { state := r } := by
  cases m with
  | proposeInconsistent o op => exact handleProposeInconsistent_ok hr hp
  | finalizeInconsistent o => exact handleFinalizeInconsistent_ok hi hkinds hr hp
  | proposeConsensus o op => exact handleProposeConsensus_ok hi hkinds hr hready hp
  | finalizeConsensus o res =>
      exact handleFinalizeConsensus_ok hi hkinds hr hready hp (hfin o res hp.2)
  | doViewChange msg => exact handleDoViewChange_ok hn happ hi hr hp hall
  | startView R u => exact handleStartView_ok hr hp hmerged
  | replyInconsistent v j o finalized => exact Good.start hr
  | replyConsensus v j o res finalized => exact Good.start hr
  | confirm v j o => exact Good.start hr

/-- **A replica acts** on its own. -/
theorem replica_act_good (hi : i < dep.cfg.n) (hr : ReplicaOk dep.cfg h i r) (a : ReplicaAct) :
    Prog.wp (Replica.handleAct (dep.replicaEnv i) a)
      (fun _ => ReplicaGood dep h i) (ReplicaGood dep h i) { state := r } := by
  cases a with
  | viewChangeTimeout => exact handleViewChangeTimeout_ok hi hr
  | restart => exact Good.start hr

end Steps

end D2PC.Ir
