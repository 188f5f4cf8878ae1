import D2PC.Ir.Invariant

/-!
# The steps of a client

A client reports a result once a super quorum of replicas has executed the operation with it in
one view, or once a quorum has confirmed, in the view of the replies, what it decided on. The
timer of the slow path is not stopped by the fast path: when it fires after that, a result is
decided again. The condition `sameResult` says that it is the one reported.

* `ClientOk.setPending`, `.finalize`, `.succeed`, `.erasePending`, `.invoke` : what a step does;
* `fastPath_evidence` : the replies of the fast path;
* `client_recv_good`, `client_act_good` : the steps of a client.
-/

namespace D2PC.Ir

open Prog Ctx

variable {σ Op Res : Type}
variable {cfg : Config} {h : History Op Res} {c r view : ℕ} {res : Res} {s : Client Op Res}
variable {req : PendingConsensus Op Res}

/-! ### What a step does -/

/-- A request is set. -/
def Client.pend (s : Client Op Res) (r : ℕ) (req : PendingRequest Op Res) : Client Op Res :=
  { s with pendingReqs := s.pendingReqs.insert r req }

theorem Client.lookup_pend {r' : ℕ} {req : PendingRequest Op Res} :
    (s.pend r req).pendingReqs.lookup r' = if r' = r then some req else s.pendingReqs.lookup r' :=
  Table.lookup_insert_eq _ _ _ _

/-- The client reported the result. -/
def Succeeded (h : History Op Res) (o : OpId) (res : Res) (view : ℕ) : Prop :=
  (Node.client o.1, Event.client (.succeeded o.2 res view)) ∈ h

theorem ClientOk.setPending (hs : ClientOk cfg h c s) {req : PendingRequest Op Res}
    (hreq : RequestOk cfg h (c, r) req)
    (hfinal : ∀ res req', Finalizing h (c, r) res → req = .consensus req' →
      req'.sentConfirms = true ∧ req'.decideResult = res)
    (hsucc : ∀ res v req', Succeeded h (c, r) res v → req = .consensus req' →
      req'.continuationInvoked = true ∧ req'.decideResult = res) :
    ClientOk cfg h c (s.pend r req) := by
  refine ⟨hs.numbered, hs.kinds, fun r' req' hl => ?_, fun r' res hf => ?_, fun r' res v hx => ?_⟩
  · rw [Client.lookup_pend] at hl
    split_ifs at hl with heq
    · cases hl
      rw [heq]
      exact hreq
    · exact hs.pending r' req' hl
  · obtain ⟨hinv, hpend⟩ := hs.finalizing r' res hf
    refine ⟨hinv, fun req' hl => ?_⟩
    rw [Client.lookup_pend] at hl
    split_ifs at hl with heq
    · rw [heq] at hf
      exact hfinal res req' hf (Option.some.inj hl)
    · exact hpend req' hl
  · obtain ⟨hinv, hfin, hev, hpend⟩ := hs.succeeded r' res v hx
    refine ⟨hinv, hfin, hev, fun req' hl => ?_⟩
    rw [Client.lookup_pend] at hl
    split_ifs at hl with heq
    · rw [heq] at hx
      exact hsucc res v req' hx (Option.some.inj hl)
    · exact hpend req' hl

theorem ClientOk.erasePending (hs : ClientOk cfg h c s) (r : ℕ) :
    ClientOk cfg h c { s with pendingReqs := s.pendingReqs.erase r } := by
  have hback : ∀ r' req, (s.pendingReqs.erase r).lookup r' = some req →
      s.pendingReqs.lookup r' = some req := by
    intro r' req hl
    rw [Table.lookup_erase_eq] at hl
    split_ifs at hl
    exact hl
  refine ⟨hs.numbered, hs.kinds, fun r' req hl => hs.pending r' req (hback r' req hl),
    fun r' res hf => ?_, fun r' res v hx => ?_⟩
  · obtain ⟨hinv, hpend⟩ := hs.finalizing r' res hf
    exact ⟨hinv, fun req hl => hpend req (hback r' _ hl)⟩
  · obtain ⟨hinv, hfin, hev, hpend⟩ := hs.succeeded r' res v hx
    exact ⟨hinv, hfin, hev, fun req hl => hpend req (hback r' _ hl)⟩

/-- Finalize messages are sent. -/
theorem ClientOk.finalize (hs : ClientOk cfg h c s) (hinv : Invoked h (c, r) .consensus)
    (hpend : ∀ req, s.pendingReqs.lookup r = some (.consensus req) →
      req.sentConfirms = true ∧ req.decideResult = res)
    (hsucc : ∀ res' v, Succeeded h (c, r) res' v → res' = res) :
    ClientOk cfg (h ++ [(Node.client c, Event.client (.finalizing r res))]) c s := by
  set es : History Op Res := [(Node.client c, Event.client (.finalizing r res))] with hes
  have hold : ∀ e, (∀ r' res', e ≠ .finalizing r' res') →
      (Node.client c, Event.client e) ∈ h ++ es → (Node.client c, Event.client e) ∈ h := by
    intro e hne hmem
    rcases mem_concat.1 hmem with hmem | ⟨_, heq⟩
    · exact hmem
    · cases heq
      exact absurd rfl (hne _ _)
  have hinvoked : ∀ r' type, Invoked (h ++ es) (c, r') type → Invoked h (c, r') type := by
    rintro r' type ⟨op, hmem⟩
    exact ⟨op, hold _ (fun _ _ heq => by cases heq) hmem⟩
  refine ⟨fun r' type hi => hs.numbered r' type (hinvoked r' type hi),
    fun r' hi hi' => hs.kinds r' (hinvoked _ _ hi) (hinvoked _ _ hi'),
    fun r' req hl => (hs.pending r' req hl).mono es, fun r' res' hf => ?_,
    fun r' res' v hx => ?_⟩
  · rcases mem_concat.1 hf with hf | ⟨_, heq⟩
    · obtain ⟨hi, hreq⟩ := hs.finalizing r' res' hf
      exact ⟨hi.mono es, hreq⟩
    · cases heq
      exact ⟨hinv.mono es, hpend⟩
  · have hx' := hold _ (fun _ _ heq => by cases heq) hx
    obtain ⟨hi, hfin, hev, hreq⟩ := hs.succeeded r' res' v hx'
    refine ⟨hi.mono es, fun res'' hf => ?_, hev.mono es, hreq⟩
    rcases mem_concat.1 hf with hf | ⟨_, heq⟩
    · exact hfin res'' hf
    · cases heq
      exact (hsucc res' v hx').symm

/-- A result is reported. -/
theorem ClientOk.succeed (hs : ClientOk cfg h c s) (hinv : Invoked h (c, r) .consensus)
    (hfinal : ∀ res', Finalizing h (c, r) res' → res' = res)
    (hev : Evidence cfg h (c, r) res view)
    (hpend : ∀ req, s.pendingReqs.lookup r = some (.consensus req) →
      req.continuationInvoked = true ∧ req.decideResult = res) :
    ClientOk cfg (h ++ [(Node.client c, Event.client (.succeeded r res view))]) c s := by
  set es : History Op Res := [(Node.client c, Event.client (.succeeded r res view))] with hes
  have hold : ∀ e, (∀ r' res' v, e ≠ .succeeded r' res' v) →
      (Node.client c, Event.client e) ∈ h ++ es → (Node.client c, Event.client e) ∈ h := by
    intro e hne hmem
    rcases mem_concat.1 hmem with hmem | ⟨_, heq⟩
    · exact hmem
    · cases heq
      exact absurd rfl (hne _ _ _)
  have hinvoked : ∀ r' type, Invoked (h ++ es) (c, r') type → Invoked h (c, r') type := by
    rintro r' type ⟨op, hmem⟩
    exact ⟨op, hold _ (fun _ _ _ heq => by cases heq) hmem⟩
  have hfinalizing : ∀ r' res', Finalizing (h ++ es) (c, r') res' →
      Finalizing h (c, r') res' := fun r' res' =>
    hold _ fun _ _ _ heq => by cases heq
  refine ⟨fun r' type hi => hs.numbered r' type (hinvoked r' type hi),
    fun r' hi hi' => hs.kinds r' (hinvoked _ _ hi) (hinvoked _ _ hi'),
    fun r' req hl => (hs.pending r' req hl).mono es, fun r' res' hf => ?_,
    fun r' res' v hx => ?_⟩
  · obtain ⟨hi, hreq⟩ := hs.finalizing r' res' (hfinalizing r' res' hf)
    exact ⟨hi.mono es, hreq⟩
  · rcases mem_concat.1 hx with hx | ⟨_, heq⟩
    · obtain ⟨hi, hfin, hev', hreq⟩ := hs.succeeded r' res' v hx
      exact ⟨hi.mono es, fun res'' hf => hfin res'' (hfinalizing r' res'' hf), hev'.mono es, hreq⟩
    · cases heq
      exact ⟨hinv.mono es, fun res'' hf => hfinal res'' (hfinalizing r res'' hf), hev.mono es,
        hpend⟩

/-- A request is invoked. -/
theorem ClientOk.invoke (hs : ClientOk cfg h c s) {type : RecordEntryType} {op : Op}
    {req : PendingRequest Op Res}
    (hreq : ∀ h, Invoked h (c, s.lastReqId + 1) type → RequestOk cfg h (c, s.lastReqId + 1) req) :
    ClientOk cfg (h ++ [(Node.client c, Event.client (.invoked (s.lastReqId + 1) type op))]) c
      { lastReqId := s.lastReqId + 1
        pendingReqs := s.pendingReqs.insert (s.lastReqId + 1) req } := by
  set r := s.lastReqId + 1 with hr
  set es : History Op Res := [(Node.client c, Event.client (.invoked r type op))] with hes
  have hold : ∀ e, (∀ r' type' op', e ≠ .invoked r' type' op') →
      (Node.client c, Event.client e) ∈ h ++ es → (Node.client c, Event.client e) ∈ h := by
    intro e hne hmem
    rcases mem_concat.1 hmem with hmem | ⟨_, heq⟩
    · exact hmem
    · cases heq
      exact absurd rfl (hne _ _ _)
  have hinvoked : ∀ r' type', Invoked (h ++ es) (c, r') type' →
      Invoked h (c, r') type' ∨ r' = r ∧ type' = type := by
    rintro r' type' ⟨op', hmem⟩
    rcases mem_concat.1 hmem with hmem | ⟨_, heq⟩
    · exact .inl ⟨op', hmem⟩
    · obtain ⟨hnum, htype, _⟩ := ClientEvent.invoked.inj (Event.client.inj heq)
      exact .inr ⟨hnum, htype⟩
  have hfresh : ∀ type', ¬ Invoked h (c, r) type' := by
    intro type' hi
    have hle := hs.numbered r type' hi
    omega
  have hother : ∀ r' type', Invoked h (c, r') type' →
      (s.pendingReqs.insert r req).lookup r' = s.pendingReqs.lookup r' := by
    intro r' type' hi
    rw [Table.lookup_insert_eq, if_neg]
    rintro rfl
    exact hfresh type' hi
  refine ⟨fun r' type' hi => ?_, fun r' hi hi' => ?_, fun r' req' hl => ?_, fun r' res' hf => ?_,
    fun r' res' v hx => ?_⟩
  · rcases hinvoked r' type' hi with hi | ⟨rfl, _⟩
    · exact (hs.numbered r' type' hi).trans (Nat.le_succ _)
    · exact le_rfl
  · rcases hinvoked _ _ hi with hi | ⟨rfl, ht⟩
    · rcases hinvoked _ _ hi' with hi' | ⟨rfl, _⟩
      · exact hs.kinds r' hi hi'
      · exact hfresh _ hi
    · rcases hinvoked _ _ hi' with hi' | ⟨_, ht'⟩
      · exact hfresh _ hi'
      · exact absurd (ht.trans ht'.symm) RecordEntryType.noConfusion
  · rw [Table.lookup_insert_eq] at hl
    split_ifs at hl with heq
    · cases hl
      rw [heq]
      exact hreq _ ⟨op, List.mem_append_right _ (List.mem_singleton_self _)⟩
    · exact (hs.pending r' req' hl).mono es
  · obtain ⟨hi, hpend⟩ := hs.finalizing r' res' (hold _ (fun _ _ _ heq => by cases heq) hf)
    refine ⟨hi.mono es, fun req' hl => hpend req' ?_⟩
    rw [← hother r' _ hi]
    exact hl
  · obtain ⟨hi, hfin, hev, hpend⟩ := hs.succeeded r' res' v
      (hold _ (fun _ _ _ heq => by cases heq) hx)
    refine ⟨hi.mono es, fun res'' hf => hfin res'' (hold _ (fun _ _ _ heq => by cases heq) hf),
      hev.mono es, fun req' hl => hpend req' ?_⟩
    rw [← hother r' _ hi]
    exact hl

/-- Before the finalize messages of a request are sent, nothing was decided. -/
theorem ClientOk.undecided (hs : ClientOk cfg h c s)
    (hl : s.pendingReqs.lookup r = some (.consensus req)) (hsent : req.sentConfirms = false) :
    (∀ res, ¬ Finalizing h (c, r) res) ∧ ∀ res v, ¬ Succeeded h (c, r) res v := by
  refine ⟨fun res hf => ?_, fun res v hx => ?_⟩
  · have hsent' := ((hs.finalizing r res hf).2 req hl).1
    rw [hsent] at hsent'
    cases hsent'
  · have hanswered := ((hs.succeeded r res v hx).2.2.2 req hl).1
    have hok : ConsensusOk cfg h (c, r) req := hs.pending r _ hl
    have hsent' := hok.answered hanswered
    rw [hsent] at hsent'
    cases hsent'

/-! ### Replies and confirmations -/

section Quorums

variable {i : ℕ} {o : OpId}

/-- A reply is added. -/
theorem ConsensusOk.reply {reply : ConsensusReply Res} (hq : ConsensusOk cfg h o req)
    (hsent : req.sentConfirms = false) (hi : i < cfg.n) (hten : reply.finalized = false)
    (hx : Executed h i view o reply.result) :
    ConsensusOk cfg h o { req with
      consensusReplyQuorum := req.consensusReplyQuorum.add view i reply } := by
  have hback : ∀ v j reply', ((req.consensusReplyQuorum.add view i reply).getMessages v).lookup j =
      some reply' → (v = view ∧ j = i ∧ reply' = reply) ∨
        (req.consensusReplyQuorum.getMessages v).lookup j = some reply' := by
    intro v j reply' hl
    rw [QuorumSet.getMessages_add] at hl
    split_ifs at hl with hv
    · subst hv
      rw [Table.lookup_insert_eq] at hl
      split_ifs at hl with hj
      · exact .inl ⟨rfl, hj, (Option.some.inj hl).symm⟩
      · exact .inr hl
    · exact .inr hl
  refine ⟨hq.invoked, fun v j reply' hl => ?_, fun _ v j reply' hl => ?_, hq.confirms,
    hq.decided, hq.fast, hq.answered, hq.slow⟩
  · rcases hback v j reply' hl with ⟨rfl, rfl, rfl⟩ | hold
    · exact ⟨hi, fun _ => hx⟩
    · exact hq.replies v j reply' hold
  · rcases hback v j reply' hl with ⟨rfl, rfl, rfl⟩ | hold
    · exact hten
    · exact hq.tentative (.inl hsent) v j reply' hold

/-- A confirmation is added. -/
theorem ConsensusOk.confirm (hq : ConsensusOk cfg h o req) (hi : i < cfg.n)
    (hc : Confirmed h i view o) :
    ConsensusOk cfg h o { req with confirmQuorum := req.confirmQuorum.add view i () } := by
  refine ⟨hq.invoked, hq.replies, hq.tentative, fun v j hl => ?_, hq.decided, hq.fast,
    hq.answered, hq.slow⟩
  rw [QuorumSet.getMessages_add] at hl
  split_ifs at hl with hv
  · rw [Table.lookup_insert_eq] at hl
    split_ifs at hl with hj
    · rw [hj, hv]
      exact ⟨hi, hc⟩
    · rw [← hv] at hl
      exact hq.confirms v j hl
  · exact hq.confirms v j hl

/-- The replies that were received, this one included. -/
theorem ConsensusOk.replies_add {reply : ConsensusReply Res} (hq : ConsensusOk cfg h o req)
    (hi : i < cfg.n) (hx : reply.finalized = false → Executed h i view o reply.result) {v j : ℕ}
    {reply' : ConsensusReply Res}
    (hl : ((req.consensusReplyQuorum.add view i reply).getMessages v).lookup j = some reply') :
    j < cfg.n ∧ (reply'.finalized = false → Executed h j v o reply'.result) := by
  rw [QuorumSet.getMessages_add] at hl
  split_ifs at hl with hv
  · rw [Table.lookup_insert_eq] at hl
    split_ifs at hl with hj
    · cases hl
      rw [hj, hv]
      exact ⟨hi, hx⟩
    · rw [← hv] at hl
      exact hq.replies v j reply' hl
  · exact hq.replies v j reply' hl

/-- A result is decided on. -/
theorem ConsensusOk.decide (hq : ConsensusOk cfg h o req)
    {q : QuorumSet ℕ (ConsensusReply Res)}
    (hreplies : ∀ v j reply, (q.getMessages v).lookup j = some reply →
      j < cfg.n ∧ (reply.finalized = false → Executed h j v o reply.result))
    (hg : req.continuationInvoked = false → Grounded cfg h o res view) {onSlowPath timer : Bool}
    (htimer : timer = false) :
    ConsensusOk cfg h o { req with
      consensusReplyQuorum := q
      onSlowPath := onSlowPath
      slowPathTimer := timer
      decideResult := res
      replyConsensusView := view
      sentConfirms := true } := by
  refine ⟨hq.invoked, hreplies, fun hopen => ?_, hq.confirms, fun _ hc => hg hc,
    fun _ ht => ?_, fun _ => rfl, fun _ => htimer⟩
  · rcases hopen with hopen | hopen
    · cases hopen
    · exact absurd (htimer.symm.trans hopen) Bool.false_ne_true
  · exact absurd (htimer.symm.trans ht) Bool.false_ne_true

/-- The caller is answered on the fast path. -/
theorem ConsensusOk.answer (hq : ConsensusOk cfg h o req) :
    ConsensusOk cfg h o { req with
      decideResult := res
      sentConfirms := true
      continuationInvoked := true } := by
  refine ⟨hq.invoked, hq.replies, fun hopen => ?_, hq.confirms, fun _ hc => ?_, fun _ _ => rfl,
    fun _ => rfl, hq.slow⟩
  · rcases hopen with hopen | hopen
    · cases hopen
    · exact hq.tentative (.inr hopen)
  · cases hc

/-- The fast path is given up. -/
theorem ConsensusOk.transition (hq : ConsensusOk cfg h o req) :
    ConsensusOk cfg h o { req with
      onSlowPath := true
      slowPathTimer := false } := by
  refine ⟨hq.invoked, hq.replies, fun hopen => ?_, hq.confirms, hq.decided, fun _ ht => ?_,
    hq.answered, fun _ => rfl⟩
  · rcases hopen with hopen | hopen
    · exact hq.tentative (.inl hopen)
    · cases hopen
  · cases ht

/-- **The evidence of the fast path**: the replicas whose results agree. -/
theorem fastPath_evidence [DecidableEq Res] {S E : Type} {env : Client.Env S Op Res E}
    {msgs : Table ℕ (ConsensusReply Res)} (hfast : Client.fastPathResult env msgs = some res)
    (hmsgs : ∀ i reply, msgs.lookup i = some reply →
      i < env.cfg.n ∧ Executed h i view o reply.result) : Evidence env.cfg h o res view := by
  simp only [Client.fastPathResult, Option.map_eq_some_iff] at hfast
  obtain ⟨⟨res', count⟩, hfind, rfl⟩ := hfast
  have hmem := List.mem_of_find?_eq_some hfind
  have hcount := List.find?_some hfind
  rw [decide_eq_true_iff] at hcount
  rw [Client.results, mem_tally] at hmem
  refine .inl ⟨Votes.supporters (fun reply => decide (reply.result = res')) msgs, ?_, ?_, ?_⟩
  · intro i hi
    obtain ⟨reply, hl, _⟩ := Votes.mem_supporters.1 hi
    exact Finset.mem_range.2 (hmsgs i reply hl).1
  · have hsupport : Votes.count (fun reply : ConsensusReply Res => decide (reply.result = res'))
        msgs = count := by
      rw [← hmem.2, Votes.count, List.count_eq_countP, List.countP_map, List.countP_map]
      rfl
    rw [Votes.card_supporters, hsupport]
    exact hcount
  · intro i hi
    obtain ⟨reply, hl, hres⟩ := Votes.mem_supporters.1 hi
    rw [← of_decide_eq_true hres]
    exact (hmsgs i reply hl).2

/-- **The evidence of the slow path**: the replicas that confirmed. -/
theorem slowPath_evidence {msgs : Table ℕ Unit} (hsize : cfg.quorumSize ≤ msgs.size)
    (hmsgs : ∀ i, msgs.lookup i = some () → i < cfg.n ∧ Confirmed h i view o)
    (hg : Grounded cfg h o res view) : Evidence cfg h o res view := by
  have hheard : ∀ i ∈ Votes.heard msgs, i < cfg.n ∧ Confirmed h i view o := by
    intro i hi
    rw [Votes.mem_heard, ← AList.lookup_isSome, Option.isSome_iff_exists] at hi
    obtain ⟨⟨⟩, hl⟩ := hi
    exact hmsgs i hl
  refine .inr ⟨Votes.heard msgs, fun i hi => Finset.mem_range.2 (hheard i hi).1, ?_,
    fun i hi => (hheard i hi).2, hg⟩
  rw [Votes.heard, List.toFinset_card_of_nodup msgs.keys_nodup, ← Table.size_eq_keys_length]
  exact hsize

end Quorums

/-! ### The handlers -/

section Handlers

variable [DecidableEq Res] {dep : Deployment σ Op Res} {i : ℕ} {src dst : Node}

abbrev ClientGood (dep : Deployment σ Op Res) (h : History Op Res) (c : ℕ) :
    Ctx (Client Op Res) Node (Msg Op Res) (Event Op Res) → Prop :=
  Ctx.Good (fun h s => ClientOk dep.cfg h c s) (PacketOk dep.cfg) h (.client c)

omit [DecidableEq Res] in
theorem sendMessageToAll_ok {x : Ctx (Client Op Res) Node (Msg Op Res) (Event Op Res)}
    (hx : ClientGood dep h c x) {m : Msg Op Res}
    (hm : ∀ j, PacketOk dep.cfg (past h (.client c) x) ⟨.client c, .replica j, m⟩) :
    ClientGood dep h c { x with sent := x.sent ++ (List.range dep.cfg.n).map fun j =>
      ⟨.client c, .replica j, m⟩ } := by
  refine hx.send fun p hp => ?_
  obtain ⟨j, _, rfl⟩ := List.mem_map.1 hp
  exact hm j

omit [DecidableEq Res] in
theorem wp_setPending {Q : Unit → Ctx (Client Op Res) Node (Msg Op Res) (Event Op Res) → Prop}
    {D : Ctx (Client Op Res) Node (Msg Op Res) (Event Op Res) → Prop}
    {x : Ctx (Client Op Res) Node (Msg Op Res) (Event Op Res)} {req : PendingRequest Op Res} :
    Prog.wp (Client.setPending (dep.clientEnv c) r req) Q D x ↔
      Q () { x with state := x.state.pend r req } := Iff.rfl

omit [DecidableEq Res] in
/-- Finalize messages are recorded and sent, for a request that is set. -/
theorem sendFinalizeConsensus_ok {x : Ctx (Client Op Res) Node (Msg Op Res) (Event Op Res)}
    (hx : ClientGood dep h c x) (hinv : Invoked (past h (.client c) x) (c, r) .consensus)
    (hpend : ∀ req, x.state.pendingReqs.lookup r = some (.consensus req) →
      req.sentConfirms = true ∧ req.decideResult = res)
    (hsucc : ∀ res' v, Succeeded (past h (.client c) x) (c, r) res' v → res' = res) :
    Prog.wp (Client.sendFinalizeConsensus (dep.clientEnv c) r res)
      (fun _ x' => ClientGood dep h c x' ∧ x'.state = x.state ∧ past h (.client c) x' =
        past h (.client c) x ++ [(Node.client c, Event.client (.finalizing r res))])
      (ClientGood dep h c) x := by
  rw [Client.sendFinalizeConsensus, wp_bind, wp_emit, Client.sendMessageToAll, wp_send]
  have hemit := Good.emit (fun _ es _ hp => hp.mono es) hx (hx.node.finalize hinv hpend hsucc)
  refine ⟨sendMessageToAll_ok hemit fun j => ⟨rfl, ?_⟩, rfl, past_emit _⟩
  exact mem_past_emit _

omit [DecidableEq Res] in
/-- **A result is decided** on the slow path. -/
theorem handleSlowPathConsensus_ok (hs : ClientOk dep.cfg h c s)
    (hok : ConsensusOk dep.cfg h (c, r) { req with
      decideResult := res
      replyConsensusView := view
      sentConfirms := true })
    (hfinal : ∀ res', Finalizing h (c, r) res' → res' = res)
    (hsucc : ∀ res' v, Succeeded h (c, r) res' v → req.continuationInvoked = true ∧ res' = res) :
    Prog.wp (Client.handleSlowPathConsensus (dep.clientEnv c) r req res view)
      (fun _ => ClientGood dep h c) (ClientGood dep h c) { state := s } := by
  rw [Client.handleSlowPathConsensus, wp_bind, wp_setPending]
  have hset : ClientOk dep.cfg h c (s.pend r (.consensus { req with
      decideResult := res
      replyConsensusView := view
      sentConfirms := true })) := by
    refine hs.setPending hok (fun res' req' hf heq => ?_) fun res' v req' hx heq => ?_
    · cases heq
      exact ⟨rfl, (hfinal res' hf).symm⟩
    · cases heq
      exact ⟨(hsucc res' v hx).1, (hsucc res' v hx).2.symm⟩
  refine wp_mono (fun _ _ hx => hx.1) (fun _ h => h)
    (sendFinalizeConsensus_ok (Good.update (Good.start hs) (by rw [past_start]; exact hset)) ?_ ?_ ?_)
  · rw [past_state, past_start]
    exact hok.invoked
  · intro req' hl
    rw [Client.lookup_pend, if_pos rfl] at hl
    cases hl
    exact ⟨rfl, rfl⟩
  · rw [past_state, past_start]
    exact fun res' v hx => (hsucc res' v hx).2

/-- **The fast path.** -/
theorem handleFastPathConsensus_ok (hs : ClientOk dep.cfg h c s)
    {msgs : Table ℕ (ConsensusReply Res)} (hok : ConsensusOk dep.cfg h (c, r) req)
    (hmsgs : ∀ i reply, msgs.lookup i = some reply →
      i < dep.cfg.n ∧ Executed h i view (c, r) reply.result)
    (hnofinal : ∀ res', ¬ Finalizing h (c, r) res')
    (hnosucc : ∀ res' v, ¬ Succeeded h (c, r) res' v)
    (hg : ∀ res, Grounded dep.cfg h (c, r) res view) :
    Prog.wp (Client.handleFastPathConsensus (dep.clientEnv c) r view msgs req)
      (fun _ => ClientGood dep h c) (ClientGood dep h c) { state := s } := by
  rw [Client.handleFastPathConsensus]
  cases hfast : Client.fastPathResult (dep.clientEnv c) msgs with
  | none =>
      refine handleSlowPathConsensus_ok hs (hok.decide hok.replies (fun _ => hg _) rfl) ?_ ?_
      · exact fun res' hf => absurd hf (hnofinal res')
      · exact fun res' v hx => absurd hx (hnosucc res' v)
  | some result =>
      have hev := fastPath_evidence hfast hmsgs
      simp only [wp_bind, wp_setPending]
      have hset : ClientOk dep.cfg h c (s.pend r (.consensus { req with
          decideResult := result
          sentConfirms := true
          continuationInvoked := true })) :=
        hs.setPending hok.answer (fun res' req' hf => absurd hf (hnofinal res'))
          fun res' v req' hx => absurd hx (hnosucc res' v)
      refine wp_mono (fun _ x hx => ?_) (fun _ h => h)
        (sendFinalizeConsensus_ok (Good.update (Good.start hs) (by rw [past_start]; exact hset))
          ?_ ?_ ?_)
      · obtain ⟨hgood, hstate, hpast⟩ := hx
        rw [past_state, past_start] at hpast
        rw [wp_when]
        refine ⟨fun _ => ?_, fun _ => hgood⟩
        rw [wp_bind, wp_emit]
        refine Good.emit (fun _ es _ hp => hp.mono es) hgood ?_
        have hnode := hgood.node
        rw [hpast] at hnode ⊢
        refine hnode.succeed (hok.invoked.mono _) (fun res' hf => ?_) (hev.mono _) fun req' hl => ?_
        · rcases mem_concat.1 hf with hold | ⟨_, heq⟩
          · exact absurd hold (hnofinal res')
          · cases heq
            rfl
        · rw [hstate] at hl
          rw [Client.lookup_pend, if_pos rfl] at hl
          cases hl
          exact ⟨rfl, rfl⟩
      · rw [past_start]
        exact hok.invoked
      · intro req' hl
        rw [Client.lookup_pend, if_pos rfl] at hl
        cases hl
        exact ⟨rfl, rfl⟩
      · rw [past_start]
        exact fun res' v hx => absurd hx (hnosucc res' v)

theorem handleConsensusReply_ok {finalized : Bool} (hs : ClientOk dep.cfg h c s)
    (hp : PacketOk dep.cfg h ⟨src, dst, .replyConsensus view i (c, r) res finalized⟩) :
    Prog.wp (Client.handleConsensusReply (dep.clientEnv c) r view i ⟨res, finalized⟩)
      (fun _ => ClientGood dep h c) (ClientGood dep h c) { state := s } := by
  obtain ⟨_, hi, hten, hfin⟩ := hp
  simp only [Client.handleConsensusReply, wp_bind, wp_read]
  cases hl : (dep.clientEnv c).get s |>.pendingReqs.lookup r with
  | none => exact Good.start hs
  | some preq =>
  cases preq with
  | inconsistent req => exact Good.start hs
  | consensus req =>
      have hl' : s.pendingReqs.lookup r = some (.consensus req) := hl
      have hok : ConsensusOk dep.cfg h (c, r) req := hs.pending r _ hl'
      rw [wp_when]
      refine ⟨fun hopen => ?_, fun _ => Good.start hs⟩
      rw [Bool.not_eq_true'] at hopen
      obtain ⟨hnofinal, hnosucc⟩ := hs.undecided hl' hopen
      have hfinal : ∀ res₁ res', Finalizing h (c, r) res' → res' = res₁ :=
        fun _ res' hf => absurd hf (hnofinal res')
      have hsucc : ∀ (req' : PendingConsensus Op Res) res₁ res' v, Succeeded h (c, r) res' v →
          req'.continuationInvoked = true ∧ res' = res₁ :=
        fun _ _ res' v hx => absurd hx (hnosucc res' v)
      have hreplies : ∀ v j reply, ((req.consensusReplyQuorum.add view i
          ⟨res, finalized⟩).getMessages v).lookup j = some reply →
          j < dep.cfg.n ∧ (reply.finalized = false → Executed h j v (c, r) reply.result) :=
        fun v j reply hl => hok.replies_add hi hten hl
      simp only [wp_ite]
      refine ⟨fun hfinalized => ?_, fun hnot => ?_⟩
      · -- a replica has the operation finalised: by a merge, as this client has not done it
        refine handleSlowPathConsensus_ok hs (hok.decide hreplies (fun _ => .inr ?_) rfl)
          (hfinal _) (hsucc _ _)
        rcases hfin hfinalized with ⟨res', hf⟩ | hmerged
        · exact absurd hf (hnofinal res')
        · exact hmerged
      · have hfalse : finalized = false := Bool.eq_false_iff.2 hnot
        have hx : Executed h i view (c, r) res := hten hfalse
        have hg : ∀ res₁, Grounded dep.cfg h (c, r) res₁ view := fun _ => .inl ⟨i, res, hx⟩
        have hok' : ConsensusOk dep.cfg h (c, r) { req with
            consensusReplyQuorum := req.consensusReplyQuorum.add view i ⟨res, finalized⟩ } :=
          hok.reply hopen hi hfalse hx
        refine ⟨fun hslow => ?_, fun _ => ⟨fun hfast => ?_, fun _ => ?_⟩⟩
        · exact handleSlowPathConsensus_ok hs (hok.decide hreplies (fun _ => hg _)
            (hok.slow hslow.1)) (hfinal _) (hsucc _ _)
        · refine handleFastPathConsensus_ok hs hok' (fun j reply hlj => ?_) hnofinal hnosucc hg
          refine ⟨(hok'.replies view j reply hlj).1, (hok'.replies view j reply hlj).2 ?_⟩
          exact hok'.tentative (.inl hopen) view j reply hlj
        · rw [wp_setPending]
          refine Good.update (Good.start hs) ?_
          rw [past_start]
          exact hs.setPending hok' (fun res' _ hf => absurd hf (hnofinal res'))
            fun res' v _ hx => absurd hx (hnosucc res' v)

omit [DecidableEq Res] in
theorem handleConfirm_ok (hs : ClientOk dep.cfg h c s)
    (hp : PacketOk dep.cfg h ⟨src, dst, .confirm view i (c, r)⟩) :
    Prog.wp (Client.handleConfirm (dep.clientEnv c) r view i)
      (fun _ => ClientGood dep h c) (ClientGood dep h c) { state := s } := by
  obtain ⟨_, hi, hconf⟩ := hp
  simp only [Client.handleConfirm, wp_bind, wp_read]
  cases hl : (dep.clientEnv c).get s |>.pendingReqs.lookup r with
  | none => exact Good.start hs
  | some preq =>
  have hl' : s.pendingReqs.lookup r = some preq := hl
  have herase := hs.erasePending r
  cases preq with
  | inconsistent req =>
      simp only [wp_ite, wp_bind, Client.erasePending, wp_update, wp_when, wp_crash]
      refine ⟨fun _ => ⟨fun _ => ?_, fun _ => ?_⟩, fun _ => ?_⟩
      · exact Good.update (Good.start hs) (by rw [past_start]; exact herase)
      · exact Good.update (Good.start hs) (by rw [past_start]; exact herase)
      · rw [wp_setPending]
        refine Good.update (Good.start hs) ?_
        rw [past_start]
        have hinv : Invoked h (c, r) .inconsistent := hs.pending r _ hl'
        exact hs.setPending hinv (fun _ _ _ heq => by cases heq) fun _ _ _ _ heq => by cases heq
  | consensus req =>
      have hok : ConsensusOk dep.cfg h (c, r) req := hs.pending r _ hl'
      obtain ⟨hc, res', hf⟩ : Confirmed h i view (c, r) ∧ ∃ res, Finalizing h (c, r) res :=
        hconf.resolve_right (hs.kinds r hok.invoked)
      obtain ⟨hsent, _⟩ := (hs.finalizing r res' hf).2 req hl'
      have hok' := hok.confirm hi hc
      simp only [wp_ite, wp_bind, Client.erasePending, wp_update, wp_when, wp_emit]
      refine ⟨fun hsize => ⟨fun hopen => ⟨fun hview => ?_, fun _ => ?_⟩, fun _ => ?_⟩, fun _ => ?_⟩
      · rw [Bool.not_eq_true'] at hopen
        refine Good.record (fun _ es _ hp => hp.mono es) (Good.start hs) ?_
        rw [past_start]
        refine herase.succeed hok.invoked (fun res'' hf' => ?_) ?_ fun req' hreq' => ?_
        · exact ((hs.finalizing r res'' hf').2 req hl').2.symm
        · refine slowPath_evidence hsize (fun j hj => hok'.confirms view j hj) ?_
          rw [hview]
          exact hok.decided hsent hopen
        · change (s.pendingReqs.erase r).lookup r = _ at hreq'
          rw [Table.lookup_erase_eq, if_pos rfl] at hreq'
          cases hreq'
      · exact Good.update (Good.start hs) (by rw [past_start]; exact herase)
      · exact Good.update (Good.start hs) (by rw [past_start]; exact herase)
      · rw [wp_setPending]
        refine Good.update (Good.start hs) ?_
        rw [past_start]
        refine hs.setPending hok' (fun res'' req' hf' heq => ?_) fun res'' v req' hx heq => ?_
        · cases heq
          exact (hs.finalizing r res'' hf').2 req hl'
        · cases heq
          exact (hs.succeeded r res'' v hx).2.2.2 req hl'

omit [DecidableEq Res] in
theorem handleInconsistentReply_ok (hs : ClientOk dep.cfg h c s) :
    Prog.wp (Client.handleInconsistentReply (dep.clientEnv c) r view i)
      (fun _ => ClientGood dep h c) (ClientGood dep h c) { state := s } := by
  simp only [Client.handleInconsistentReply, wp_bind, wp_read]
  cases hl : (dep.clientEnv c).get s |>.pendingReqs.lookup r with
  | none => exact Good.start hs
  | some preq =>
  cases preq with
  | consensus req => exact Good.start hs
  | inconsistent req =>
      have hinv : Invoked h (c, r) .inconsistent := hs.pending r _ hl
      have hset : ∀ req', ClientOk dep.cfg h c (s.pend r (.inconsistent req')) := fun req' =>
        hs.setPending hinv (fun _ _ _ heq => by cases heq) fun _ _ _ _ heq => by cases heq
      rw [wp_bind, wp_setPending, wp_when]
      refine ⟨fun _ => ?_, fun _ => ?_⟩
      · rw [wp_bind, Client.sendMessageToAll, wp_send]
        refine sendMessageToAll_ok (Good.update (Good.start hs) ?_) fun j => ⟨rfl, ?_⟩
        · rw [past_start]
          exact hset _
        · rw [past_start]
          exact hinv
      · refine Good.update (Good.start hs) ?_
        rw [past_start]
        exact hset _

/-- The timer of the slow path does not decide another result than the one reported. -/
def sameResult (dep : Deployment σ Op Res) (c : ℕ) (s : Client Op Res) (r : ℕ) : Bool :=
  match s.pendingReqs.lookup r with
  | some (.consensus req) =>
      match Client.anyQuorum (dep.clientEnv c) req with
      | some (_, msgs) => !(req.slowPathTimer && req.continuationInvoked) ||
          decide (dep.decide req.request (Client.results msgs) = req.decideResult)
      | none => true
  | _ => true

omit [DecidableEq Res] in
theorem resend_ok (hs : ClientOk dep.cfg h c s) {req : PendingRequest Op Res}
    (hl : s.pendingReqs.lookup r = some req) :
    Prog.wp (Client.resend (dep.clientEnv c) r req)
      (fun _ => ClientGood dep h c) (ClientGood dep h c) { state := s } := by
  have hreq := hs.pending r req hl
  cases req with
  | inconsistent req =>
      have hinv : Invoked h (c, r) .inconsistent := hreq
      simp only [Client.resend, wp_ite, Client.sendMessageToAll, wp_send]
      refine ⟨fun _ => ?_, fun _ => ?_⟩
      · refine sendMessageToAll_ok (Good.start hs) fun j => ⟨rfl, ?_⟩
        rw [past_start]
        exact hinv
      · refine sendMessageToAll_ok (Good.start hs) fun j => ⟨rfl, ?_⟩
        rw [past_start]
        exact hinv
  | consensus req =>
      have hok : ConsensusOk dep.cfg h (c, r) req := hreq
      rw [Client.resend, wp_ite]
      refine ⟨fun hsent => ?_, fun _ => ?_⟩
      · refine wp_mono (fun _ _ hx => hx.1) (fun _ h => h)
          (sendFinalizeConsensus_ok (Good.start hs) ?_ (fun req' hl' => ?_) ?_)
        · rw [past_start]
          exact hok.invoked
        · rw [hl] at hl'
          cases hl'
          exact ⟨hsent, rfl⟩
        · rw [past_start]
          exact fun res' v hx => ((hs.succeeded r res' v hx).2.2.2 req hl).2.symm
      · rw [Client.sendMessageToAll, wp_send]
        refine sendMessageToAll_ok (Good.start hs) fun j => ⟨rfl, ?_⟩
        rw [past_start]
        exact hok.invoked

theorem transitionToConsensusSlowPath_ok (hs : ClientOk dep.cfg h c s)
    (hl : s.pendingReqs.lookup r = some (.consensus req)) (htimer : req.slowPathTimer = true)
    (hsame : sameResult dep c s r = true) :
    Prog.wp (Client.transitionToConsensusSlowPath (dep.clientEnv c) r req)
      (fun _ => ClientGood dep h c) (ClientGood dep h c) { state := s } := by
  have hok : ConsensusOk dep.cfg h (c, r) req := hs.pending r _ hl
  have hany : Client.anyQuorum (dep.clientEnv c) { req with
      onSlowPath := true
      slowPathTimer := false } = Client.anyQuorum (dep.clientEnv c) req := rfl
  simp only [sameResult, hl] at hsame
  rw [Client.transitionToConsensusSlowPath, hany]
  cases hq : Client.anyQuorum (dep.clientEnv c) req with
  | none =>
      simp only [wp_setPending]
      refine Good.update (Good.start hs) ?_
      rw [past_start]
      refine hs.setPending hok.transition (fun res' req' hf heq => ?_) fun res' v req' hx heq => ?_
      · cases heq
        exact (hs.finalizing r res' hf).2 req hl
      · cases heq
        exact (hs.succeeded r res' v hx).2.2.2 req hl
  | some p =>
      obtain ⟨v, msgs⟩ := p
      have hresult : req.continuationInvoked = true →
          dep.decide req.request (Client.results msgs) = req.decideResult := by
        intro hanswered
        rw [hq, htimer, hanswered] at hsame
        exact of_decide_eq_true hsame
      -- some replica of the quorum has executed the operation
      have hg : Grounded dep.cfg h (c, r)
          (dep.decide req.request (Client.results msgs)) v := by
        obtain ⟨hmsgs, hsize⟩ := Client.anyQuorum_spec hq
        have hpos : 0 < msgs.size := lt_of_lt_of_le (Nat.succ_pos _) hsize
        obtain ⟨⟨i, reply⟩, hmem⟩ := List.exists_mem_of_length_pos
          (show 0 < msgs.toList.length by simpa [Table.toList, Table.size] using hpos)
        have hli : (req.consensusReplyQuorum.getMessages v).lookup i = some reply := by
          rw [hmsgs]
          exact Table.mem_toList.1 hmem
        exact .inl ⟨i, reply.result, (hok.replies v i reply hli).2
          (hok.tentative (.inr htimer) v i reply hli)⟩
      refine handleSlowPathConsensus_ok hs (hok.decide hok.replies (fun _ => hg) rfl)
        (fun res' hf => ?_) fun res' v' hx => ?_
      · obtain ⟨hsent, hres⟩ := (hs.finalizing r res' hf).2 req hl
        rw [← hres]
        exact (hresult (hok.fast hsent htimer)).symm
      · obtain ⟨hanswered, hres⟩ := (hs.succeeded r res' v' hx).2.2.2 req hl
        rw [← hres]
        exact ⟨hanswered, (hresult hanswered).symm⟩

theorem handleTimer_ok (hs : ClientOk dep.cfg h c s) {t : ClientTimer}
    (hsame : ∀ r, t = .slowPath r → sameResult dep c s r = true) :
    Prog.wp (Client.handleTimer (dep.clientEnv c) t)
      (fun _ => ClientGood dep h c) (ClientGood dep h c) { state := s } := by
  cases t with
  | resend r =>
      simp only [Client.handleTimer, wp_bind, wp_read]
      cases hl : (dep.clientEnv c).get s |>.pendingReqs.lookup r with
      | none => exact Good.start hs
      | some req => exact resend_ok hs hl
  | slowPath r =>
      simp only [Client.handleTimer, wp_bind, wp_read]
      cases hl : (dep.clientEnv c).get s |>.pendingReqs.lookup r with
      | none => exact Good.start hs
      | some req =>
      cases req with
      | inconsistent req => exact Good.start hs
      | consensus req =>
          rw [wp_when]
          refine ⟨fun htimer => ?_, fun _ => Good.start hs⟩
          exact transitionToConsensusSlowPath_ok hs hl htimer (hsame r rfl)

/-- What the steps of clients have to meet. -/
def Consistent (dep : Deployment σ Op Res) (c : ℕ) (s : Client Op Res) : ClientAct Op → Prop
  | .timeout (.slowPath r) => sameResult dep c s r = true
  | _ => True

instance (dep : Deployment σ Op Res) (c : ℕ) (s : Client Op Res) (a : ClientAct Op) :
    Decidable (Consistent dep c s a) :=
  match a with
  | .timeout (.slowPath r) => inferInstanceAs (Decidable (sameResult dep c s r = true))
  | .timeout (.resend _) => isTrue trivial
  | .invokeInconsistent _ => isTrue trivial
  | .invokeConsensus _ => isTrue trivial

/-- **A client handles a message.** -/
theorem client_recv_good (hs : ClientOk dep.cfg h c s) {m : Msg Op Res}
    (hp : PacketOk dep.cfg h ⟨src, .client c, m⟩) :
    Prog.wp (Client.handleMessage (dep.clientEnv c) m)
      (fun _ => ClientGood dep h c) (ClientGood dep h c) { state := s } := by
  cases m with
  | replyInconsistent v i o finalized => exact handleInconsistentReply_ok hs
  | replyConsensus v i o res finalized =>
      obtain ⟨c', r⟩ := o
      obtain rfl : c = c' := Node.client.inj hp.1
      exact handleConsensusReply_ok hs hp
  | confirm v i o =>
      obtain ⟨c', r⟩ := o
      obtain rfl : c = c' := Node.client.inj hp.1
      exact handleConfirm_ok hs hp
  | proposeInconsistent o op => exact Good.start hs
  | finalizeInconsistent o => exact Good.start hs
  | proposeConsensus o op => exact Good.start hs
  | finalizeConsensus o res => exact Good.start hs
  | doViewChange m => exact Good.start hs
  | startView R v => exact Good.start hs

omit [DecidableEq Res] in
/-- A request that was invoked. -/
theorem ConsensusOk.init {o : OpId} {op : Op} (hinv : Invoked h o .consensus) :
    ConsensusOk cfg h o { request := op, decideResult := res } := by
  refine ⟨hinv, fun v i reply hl => ?_, fun _ v i reply hl => ?_, fun v i hl => ?_,
    fun hsent => ?_, fun hsent => ?_, fun hanswered => ?_, fun hslow => ?_⟩
  · cases hl
  · cases hl
  · cases hl
  · cases hsent
  · cases hsent
  · cases hanswered
  · cases hslow

/-- **A client acts**: a call of its user, or a timer. -/
theorem client_act_good [Inhabited Res] (hs : ClientOk dep.cfg h c s) {a : ClientAct Op}
    (hsame : Consistent dep c s a) :
    Prog.wp (dep.handleClientAct c a)
      (fun _ => ClientGood dep h c) (ClientGood dep h c) { state := s } := by
  cases a with
  | invokeInconsistent op =>
      simp only [Deployment.handleClientAct, Client.invokeInconsistent, Client.nextReqId, wp_bind,
        wp_update, wp_read, wp_emit, wp_setPending, Client.sendMessageToAll, wp_send]
      refine sendMessageToAll_ok (Good.record (fun _ es _ hp => hp.mono es) (Good.start hs) ?_)
        fun j => ⟨rfl, op, mem_past_emit _⟩
      rw [past_start]
      exact hs.invoke fun h hinv => hinv
  | invokeConsensus op =>
      simp only [Deployment.handleClientAct, Client.invokeConsensus, Client.nextReqId, wp_bind,
        wp_update, wp_read, wp_emit, wp_setPending, Client.sendMessageToAll, wp_send]
      refine sendMessageToAll_ok (Good.record (fun _ es _ hp => hp.mono es) (Good.start hs) ?_)
        fun j => ⟨rfl, op, mem_past_emit _⟩
      rw [past_start]
      exact hs.invoke fun h hinv => ConsensusOk.init hinv
  | timeout t =>
      refine handleTimer_ok hs fun r heq => ?_
      rw [heq] at hsame
      exact hsame

end Handlers

end D2PC.Ir
