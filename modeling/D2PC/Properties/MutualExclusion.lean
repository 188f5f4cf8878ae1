import D2PC.Ir.LockInvariant

/-!
# Mutual exclusion of the lock service

The steps of a client, and what follows for runs.

* `lock_exclusive` : in every steady and careful run at most one client holds a key;
* `two_holders` : split votes among five replicas, and a late unlock among three.
-/

namespace D2PC.Ir.LockService

open Prog Ctx

variable {cfg : Config} {h : History} {c : ClientId} {i r : ℕ} {key : Key} {opid : OpId}
variable {request : Request}

/-! ### The steps of a client -/

section Client

variable {s : Client} {req : PendingConsensus Request Reply} {msgs : Table ℕ (ConsensusReply Reply)}
variable {x : Ctx Client Node (Msg Request Reply) Event} {result : Reply} {view : ℕ}

abbrev ClientGood (cfg : Config) (h : History) (c : ClientId) :
    Ctx Client Node (Msg Request Reply) Event → Prop :=
  Ctx.Good (fun h s => Calling cfg h c s) (PacketOk cfg) h (.client c)

/-- A client with a pending request set. -/
def Client.pend (r : ℕ) (req : PendingRequest Request Reply) (s : Client) : Client :=
  { s with client := { s.client with pendingReqs := s.client.pendingReqs.insert r req } }

theorem wp_setPending {Q : Unit → Ctx Client Node (Msg Request Reply) Event → Prop}
    {D : Ctx Client Node (Msg Request Reply) Event → Prop} {req : PendingRequest Request Reply} :
    Prog.wp (Ir.Client.setPending (Client.env cfg c) r req) Q D x ↔
      Q () { x with state := x.state.pend r req } := Iff.rfl

theorem Client.lookup_pend {r' : ℕ} {req : PendingRequest Request Reply} :
    (s.pend r req).client.pendingReqs.lookup r' =
      if r' = r then some req else s.client.pendingReqs.lookup r' :=
  Table.lookup_insert_eq ..

/-- A pending request is changed. -/
theorem Calling.setPending (hs : Calling cfg h c s) (req : PendingRequest Request Reply)
    (hok : PendingOk cfg h c r req)
    (hlast : answered req = false →
      r = s.client.lastReqId ∧ s.timers = [] ∧ s.waiting = true)
    (hsent : Finalizing h c r → ∀ req', req = .consensus req' → req'.sentConfirms = true) :
    Calling cfg h c (s.pend r req) where
  numbered := hs.numbered
  unique := hs.unique
  timers := hs.timers
  awaited := by
    intro r' req' hreq' hanswered
    rw [Client.lookup_pend] at hreq'
    split_ifs at hreq' with hr
    · cases hreq'
      rw [hr]
      exact hlast hanswered
    · exact hs.awaited r' req' hreq' hanswered
  pending := by
    intro r' req' hreq'
    rw [Client.lookup_pend] at hreq'
    split_ifs at hreq' with hr
    · cases hreq'
      rw [hr]
      exact hok
    · exact hs.pending r' req' hreq'
  finalizing := by
    intro r' hfin
    refine ⟨(hs.finalizing r' hfin).1, fun req' hreq' => ?_⟩
    rw [Client.lookup_pend] at hreq'
    split_ifs at hreq' with hr
    · subst hr
      exact hsent hfin req' (Option.some.inj hreq')
    · exact (hs.finalizing r' hfin).2 req' hreq'
  held := hs.held
  unlocking := hs.unlocking

/-- A request is done with. -/
theorem Calling.erasePending (hs : Calling cfg h c s) (r : ℕ) :
    Calling cfg h c { s with client := { s.client with
      pendingReqs := s.client.pendingReqs.erase r } } := by
  have hold : ∀ r' req', (s.client.pendingReqs.erase r).lookup r' = some req' →
      s.client.pendingReqs.lookup r' = some req' := by
    intro r' req' hreq'
    rw [Table.lookup_erase_eq] at hreq'
    split_ifs at hreq'
    exact hreq'
  exact
    { numbered := hs.numbered
      unique := hs.unique
      timers := hs.timers
      awaited := fun r' req' hreq' => hs.awaited r' req' (hold r' req' hreq')
      pending := fun r' req' hreq' => hs.pending r' req' (hold r' req' hreq')
      finalizing := fun r' hfin => ⟨(hs.finalizing r' hfin).1, fun req' hreq' =>
        (hs.finalizing r' hfin).2 req' (hold r' _ hreq')⟩
      held := hs.held
      unlocking := hs.unlocking }

/-- The caller gets its answer. -/
theorem Calling.answer (hs : Calling cfg h c s) (htimers : s.timers = [])
    (hall : ∀ r req, s.client.pendingReqs.lookup r = some req → answered req = true) :
    Calling cfg h c { s with waiting := false } where
  numbered := hs.numbered
  unique := hs.unique
  timers := .inl htimers
  awaited := by
    intro r req hreq hnot
    rw [hall r req hreq] at hnot
    cases hnot
  pending := hs.pending
  finalizing := hs.finalizing
  held := hs.held
  unlocking := hs.unlocking

/-- **The client records an event** that is not a request. -/
theorem Calling.record (hs : Calling cfg h c s) {e : Event}
    (hnot : ∀ r type request, e ≠ .client (.invoked r type request))
    (hfin : ∀ r result, e = .client (.finalizing r result) →
      (∃ request, Invoked h c r request ∧ request.type = true) ∧
        ∀ req, s.client.pendingReqs.lookup r = some (.consensus req) → req.sentConfirms = true)
    (hheld : ∀ key r, e.held key (LockService.held c key h) = some r →
      (∃ request, request.key = key ∧ Majority cfg h (c, r) request) ∧
        ∀ r', Invoked h c r' ⟨c, key, false⟩ → r' < r)
    (hunlock : ∀ request ∈ s.timers, request.type = false →
      e.held request.key (LockService.held c request.key h) = none) :
    Calling cfg (h ++ [(Node.client c, e)]) c s := by
  have hinv : ∀ r request, Invoked (h ++ [(Node.client c, e)]) c r request →
      Invoked h c r request := by
    intro r request hi
    rcases List.mem_append.1 hi with hold | hnew
    · exact hold
    · cases List.mem_singleton.1 hnew
      exact absurd rfl (hnot r _ request)
  refine ⟨fun r request hi => hs.numbered r request (hinv _ _ hi), fun r request₁ request₂ h₁ h₂ =>
    hs.unique r request₁ request₂ (hinv _ _ h₁) (hinv _ _ h₂), hs.timers, hs.awaited,
    fun r req hreq => (hs.pending r req hreq).mono _, ?_, ?_, ?_⟩
  · rintro r ⟨result, hmem⟩
    have hboth : (∃ request, Invoked h c r request ∧ request.type = true) ∧
        ∀ req, s.client.pendingReqs.lookup r = some (.consensus req) → req.sentConfirms = true := by
      rcases List.mem_append.1 hmem with hold | hnew
      · exact hs.finalizing r ⟨result, hold⟩
      · cases List.mem_singleton.1 hnew
        exact hfin r result rfl
    obtain ⟨⟨request, hi, ht⟩, hall⟩ := hboth
    exact ⟨⟨request, hi.mono _, ht⟩, hall⟩
  · intro key r hh
    rw [held_concat] at hh
    obtain ⟨⟨request, hk, hm⟩, hlt⟩ := hheld key r hh
    exact ⟨⟨request, hk, hm.mono _⟩, fun r' hi => hlt r' (hinv _ _ hi)⟩
  · intro request hmem ht
    rw [held_concat]
    exact hunlock request hmem ht

/-- Finalize messages are sent. -/
theorem Calling.finalize (hs : Calling cfg h c s) (hinv : Invoked h c r request)
    (htype : request.type = true)
    (hsent : ∀ req, s.client.pendingReqs.lookup r = some (.consensus req) →
      req.sentConfirms = true) (result : Reply) :
    Calling cfg (h ++ [(Node.client c, Event.client (.finalizing r result))]) c s := by
  refine hs.record (fun _ _ _ heq => by cases heq) (fun r' result' heq => ?_) hs.held hs.unlocking
  cases heq
  exact ⟨⟨request, hinv, htype⟩, hsent⟩

/-- **A client is told** of its last request, which was a lock. -/
theorem Calling.told (hs : Calling cfg h c s) (hlast : r = s.client.lastReqId)
    (htimers : s.timers = []) (hinv : Invoked h c r request) (htype : request.type = true)
    {status : ℤ} (hm : status = 0 → Majority cfg h (c, r) request) :
    Calling cfg (h ++ [(Node.client c, Event.told r request.key status)]) c s := by
  refine hs.record (fun _ _ _ heq => by cases heq) (fun _ _ heq => by cases heq)
    (fun key r' hh => ?_) fun request' hmem => ?_
  · rw [Event.held] at hh
    split_ifs at hh with hnew
    · cases hh
      refine ⟨⟨request, hnew.1, hm hnew.2⟩, fun r₂ hi => ?_⟩
      have hle := (hs.numbered r₂ _ hi).1
      have hne : r₂ ≠ r := by
        rintro rfl
        rw [hs.unique _ _ _ hinv hi] at htype
        cases htype
      omega
    · exact hs.held key r' hh
  · rw [htimers] at hmem
    cases hmem

/-- Unlock is called. -/
theorem Calling.unlock (hs : Calling cfg h c s) (htimers : s.timers = []) (key : Key) :
    Calling cfg (h ++ [(Node.client c, Event.unlocking key)]) c s := by
  refine hs.record (fun _ _ _ heq => by cases heq) (fun _ _ heq => by cases heq)
    (fun key' r hh => ?_) fun request hmem => ?_
  · rw [Event.held] at hh
    split_ifs at hh
    exact hs.held key' r hh
  · rw [htimers] at hmem
    cases hmem

/-- A request is handed to the transport thread. -/
theorem Calling.call (hs : Calling cfg h c s) (hidle : s.waiting = false)
    (hid : request.clientid = c)
    (hfree : request.type = false → LockService.held c request.key h = none) :
    Calling cfg h c { s with waiting := true, timers := s.timers ++ [request] } := by
  have hempty : s.timers = [] := by
    rcases hs.timers with hnil | ⟨hwait, _⟩
    · exact hnil
    · rw [hidle] at hwait
      cases hwait
  refine ⟨hs.numbered, hs.unique, .inr ⟨rfl, request, ?_, hid⟩, fun r req hreq hnot => ?_,
    hs.pending, hs.finalizing, hs.held, fun request' hmem ht => ?_⟩
  · show s.timers ++ [request] = [request]
    rw [hempty, List.nil_append]
  · obtain ⟨_, _, hwait⟩ := hs.awaited r req hreq hnot
    rw [hidle] at hwait
    cases hwait
  · rw [hempty, List.nil_append] at hmem
    cases List.mem_singleton.1 hmem
    exact hfree ht

/-- **A request is invoked** and gets the next number. -/
theorem Calling.invoke (hs : Calling cfg h c s) (htimers : s.timers = [request])
    (req : PendingRequest Request Reply)
    (hok : PendingOk cfg (h ++ [(Node.client c, Event.client
      (.invoked (s.client.lastReqId + 1) request.entryType request))]) c
      (s.client.lastReqId + 1) req) :
    Calling cfg (h ++ [(Node.client c, Event.client
      (.invoked (s.client.lastReqId + 1) request.entryType request))]) c
      { s with
        timers := []
        client :=
          { lastReqId := s.client.lastReqId + 1
            pendingReqs := s.client.pendingReqs.insert (s.client.lastReqId + 1) req } } := by
  set es : History := [(Node.client c, Event.client
    (.invoked (s.client.lastReqId + 1) request.entryType request))] with hes
  obtain ⟨hwait, hid⟩ : s.waiting = true ∧ request.clientid = c := by
    rcases hs.timers with hnil | ⟨hwait, request', heq, hid⟩
    · rw [htimers] at hnil
      cases hnil
    · rw [htimers] at heq
      cases heq
      exact ⟨hwait, hid⟩
  have hinv : ∀ r request', Invoked (h ++ es) c r request' → Invoked h c r request' ∨
      r = s.client.lastReqId + 1 ∧ request' = request := by
    intro r request' hi
    rcases List.mem_append.1 hi with hold | hnew
    · exact .inl hold
    · have heq := List.mem_singleton.1 hnew
      simp only [Prod.mk.injEq, Event.client.injEq, ClientEvent.invoked.injEq] at heq
      exact .inr ⟨heq.2.1, heq.2.2.2⟩
  have hfin : ∀ r, Finalizing (h ++ es) c r → Finalizing h c r := by
    rintro r ⟨result, hmem⟩
    rcases List.mem_append.1 hmem with hold | hnew
    · exact ⟨result, hold⟩
    · cases List.mem_singleton.1 hnew
  have hheld : ∀ key, LockService.held c key (h ++ es) = LockService.held c key h := fun key =>
    held_concat _
  refine ⟨fun r request' hi => ?_, fun r request₁ request₂ h₁ h₂ => ?_, .inl rfl,
    fun r req' hreq' hnot => ?_, fun r req' hreq' => ?_, fun r hf => ?_, fun key r hh => ?_, fun _ h => by cases h⟩
  · show r ≤ s.client.lastReqId + 1 ∧ request'.clientid = c
    rcases hinv r request' hi with hold | ⟨rfl, rfl⟩
    · have hle := hs.numbered r request' hold
      exact ⟨by omega, hle.2⟩
    · exact ⟨le_rfl, hid⟩
  · rcases hinv r _ h₁ with hold₁ | ⟨hr₁, hreq₁⟩
    · rcases hinv r _ h₂ with hold₂ | ⟨hr₂, _⟩
      · exact hs.unique r _ _ hold₁ hold₂
      · have hle := (hs.numbered r _ hold₁).1
        omega
    · rcases hinv r _ h₂ with hold₂ | ⟨_, hreq₂⟩
      · have hle := (hs.numbered r _ hold₂).1
        omega
      · rw [hreq₁, hreq₂]
  · rw [Table.lookup_insert_eq] at hreq'
    split_ifs at hreq' with hr
    · exact ⟨hr, rfl, hwait⟩
    · have hnil := (hs.awaited r req' hreq' hnot).2.1
      rw [htimers] at hnil
      cases hnil
  · rw [Table.lookup_insert_eq] at hreq'
    split_ifs at hreq' with hr
    · cases hreq'
      rw [hr]
      exact hok
    · exact (hs.pending r req' hreq').mono es
  · obtain ⟨⟨request', hi, ht⟩, hall⟩ := hs.finalizing r (hfin r hf)
    refine ⟨⟨request', hi.mono es, ht⟩, fun req' hreq' => ?_⟩
    rw [Table.lookup_insert_eq] at hreq'
    split_ifs at hreq' with hr
    · have hle := (hs.numbered r _ hi).1
      omega
    · exact hall req' hreq'
  · rw [hheld] at hh
    obtain ⟨⟨request', hk, hm⟩, hlt⟩ := hs.held key r hh
    refine ⟨⟨request', hk, hm.mono es⟩, fun r' hi => ?_⟩
    rcases hinv r' _ hi with hold | ⟨_, hreq'⟩
    · exact hlt r' hold
    · -- the request being invoked is an unlock of a key that is no longer held
      have hnone := hs.unlocking request (by rw [htimers]; exact List.mem_singleton_self _)
        (by rw [← hreq'])
      rw [← hreq', hh] at hnone
      cases hnone

/-! ### Successes and majorities -/

/-- More than `f` successful replies come from a majority. -/
theorem majority_of_successes
    (hreplies : ∀ i reply, msgs.lookup i = some reply →
      i < cfg.n ∧ (reply.result.status = 0 → Granted h i opid request))
    (hmany : cfg.f < successes msgs) : Majority cfg h opid request := by
  refine ⟨Votes.supporters (fun m => m.result.status = 0) msgs, fun i hi => ?_, ?_, fun i hi => ?_⟩
  · obtain ⟨reply, hreply, _⟩ := Votes.mem_supporters.1 hi
    exact Finset.mem_range.2 (hreplies i reply hreply).1
  · rw [Votes.card_supporters]
    exact hmany
  · obtain ⟨reply, hreply, hstatus⟩ := Votes.mem_supporters.1 hi
    exact (hreplies i reply hreply).2 (of_decide_eq_true hstatus)

theorem successes_eq (msgs : Table ℕ (ConsensusReply Reply)) :
    successes msgs =
      (msgs.toList.map fun p => p.2.result).countP fun reply => reply.status = 0 := by
  rw [successes, Votes.count, List.countP_map, List.countP_map]
  rfl

/-- `Decide` counts the successful replies. -/
theorem decide_success (hstatus : (Client.decide (Ir.Client.results msgs)).status = 0) :
    2 ≤ successes msgs := by
  rw [successes_eq, ← tally_sum]
  by_contra hfew
  rw [Client.decide, Ir.Client.results, if_neg hfew] at hstatus
  cases hstatus

/-- What `Decide` grants was granted by a majority, unless it is misled. -/
theorem majority_of_decide
    (hreplies : ∀ i reply, msgs.lookup i = some reply →
      i < cfg.n ∧ (reply.result.status = 0 → Granted h i opid request))
    (hcare : ¬ (2 ≤ successes msgs ∧ successes msgs ≤ cfg.f))
    (hstatus : (Client.decide (Ir.Client.results msgs)).status = 0) :
    Majority cfg h opid request := by
  apply majority_of_successes hreplies
  have htwo := decide_success hstatus
  omega

/-- A matching super quorum is more than `f`. -/
theorem fastPath_success
    (hfast : Ir.Client.fastPathResult (Client.env cfg c) msgs = some result)
    (hstatus : result.status = 0) : cfg.f < successes msgs := by
  simp only [Ir.Client.fastPathResult, Option.map_eq_some_iff] at hfast
  obtain ⟨⟨result', count⟩, hfind, rfl⟩ := hfast
  have hmem := List.mem_of_find?_eq_some hfind
  have hcount := List.find?_some hfind
  rw [decide_eq_true_iff] at hcount
  rw [Ir.Client.results, mem_tally] at hmem
  have hle : (msgs.toList.map fun p => p.2.result).count result' ≤ successes msgs := by
    rw [successes_eq, List.count_eq_countP]
    apply List.countP_mono_left
    intro reply _ heq
    rw [eq_of_beq heq]
    exact decide_eq_true hstatus
  have hsize : cfg.f < cfg.fastQuorumSize := by
    unfold Config.fastQuorumSize
    omega
  have hquorum : cfg.fastQuorumSize ≤ count := hcount
  rw [hmem.2] at hle
  exact lt_of_lt_of_le hsize (hquorum.trans hle)

/-! ### The handlers of a client -/

theorem sendMessageToAll_good (hx : ClientGood cfg h c x) {m : Msg Request Reply}
    (hm : ∀ j, PacketOk cfg (past h (.client c) x) ⟨.client c, .replica j, m⟩) :
    Prog.wp (Ir.Client.sendMessageToAll (Client.env cfg c) m) (fun _ => ClientGood cfg h c)
      (ClientGood cfg h c) x := by
  simp only [Ir.Client.sendMessageToAll, wp_send]
  refine hx.send fun p hp => ?_
  obtain ⟨j, _, rfl⟩ := List.mem_map.1 hp
  exact hm j

/-- The finalize messages are recorded and sent. -/
theorem sendFinalizeConsensus_good (hx : ClientGood cfg h c x)
    (hinv : Invoked (past h (.client c) x) c r request) (htype : request.type = true)
    (hsent : ∀ req, x.state.client.pendingReqs.lookup r = some (.consensus req) →
      req.sentConfirms = true) (result : Reply) :
    Prog.wp (Ir.Client.sendFinalizeConsensus (Client.env cfg c) r result)
      (fun _ x' => ClientGood cfg h c x' ∧ x'.state = x.state ∧
        ∃ es, past h (.client c) x' = past h (.client c) x ++ es) (ClientGood cfg h c) x := by
  rw [Ir.Client.sendFinalizeConsensus, wp_bind, wp_emit, Ir.Client.sendMessageToAll, wp_send]
  refine ⟨Good.send (Good.emit (fun _ es _ hp => hp.mono es) hx ?_) fun p hp => ?_, rfl, _,
    past_emit _⟩
  · exact hx.node.finalize hinv htype hsent result
  · obtain ⟨j, _, rfl⟩ := List.mem_map.1 hp
    exact ⟨rfl, result, mem_past_emit _⟩

/-- **The slow path.** The result found or decided is sent to be finalised. -/
theorem handleSlowPathConsensus_good (hx : ClientGood cfg h c x)
    (hp : Proposed cfg (past h (.client c) x) c r req)
    (hlast : req.continuationInvoked = false → r = x.state.client.lastReqId ∧
      x.state.timers = [] ∧ x.state.waiting = true)
    (hm : result.status = 0 → Majority cfg (past h (.client c) x) (c, r) req.request) :
    Prog.wp (Ir.Client.handleSlowPathConsensus (Client.env cfg c) r req result view)
      (fun _ => ClientGood cfg h c) (ClientGood cfg h c) x := by
  rw [Ir.Client.handleSlowPathConsensus, wp_bind, wp_setPending]
  have hpend : Calling cfg (past h (.client c) x) c (x.state.pend r (.consensus { req with
      decideResult := result
      replyConsensusView := view
      sentConfirms := true })) := by
    refine hx.node.setPending (.consensus _) ?_ hlast fun _ req' heq => ?_
    · exact ⟨hp.invoked, hp.lock, hp.replies, fun _ _ => hm⟩
    · cases heq
      rfl
  have hx' := hx.update hpend
  refine wp_mono (fun _ _ => And.left) (fun _ hgood => hgood)
    (sendFinalizeConsensus_good hx' hp.invoked hp.lock (fun req' hreq' => ?_) result)
  rw [Client.lookup_pend, if_pos rfl] at hreq'
  cases hreq'
  rfl

/-- The promise is answered, or the process dies. -/
theorem answer_good (hx : ClientGood cfg h c x) (htimers : x.state.timers = [])
    (hall : ∀ r req, x.state.client.pendingReqs.lookup r = some req → answered req = true) :
    Prog.wp Client.answer (fun _ => ClientGood cfg h c) (ClientGood cfg h c) x := by
  simp only [Client.answer, wp_bind, wp_read, wp_when, wp_crash, wp_update]
  exact ⟨fun _ => hx, fun _ => hx.update (hx.node.answer htimers hall)⟩

/-- **`LockCallback`.** -/
theorem lockCallback_good (hx : ClientGood cfg h c x) (htimers : x.state.timers = [])
    (hlast : r = x.state.client.lastReqId)
    (hall : ∀ r req, x.state.client.pendingReqs.lookup r = some req → answered req = true)
    (hinv : Invoked (past h (.client c) x) c r request) (htype : request.type = true)
    (hm : result.status = 0 → Majority cfg (past h (.client c) x) (c, r) request) :
    Prog.wp (Client.lockCallback r request result) (fun _ => ClientGood cfg h c)
      (ClientGood cfg h c) x := by
  simp only [Client.lockCallback, wp_bind, wp_emit]
  refine answer_good (Good.emit (fun _ es _ hp => hp.mono es) hx ?_) htimers hall
  exact hx.node.told hlast htimers hinv htype hm

/-- The success is reported. -/
theorem succeed_good (hx : ClientGood cfg h c x) (htimers : x.state.timers = [])
    (hlast : r = x.state.client.lastReqId)
    (hall : ∀ r req, x.state.client.pendingReqs.lookup r = some req → answered req = true)
    (hinv : Invoked (past h (.client c) x) c r request) (htype : request.type = true)
    (hm : result.status = 0 → Majority cfg (past h (.client c) x) (c, r) request) :
    Prog.wp (do
        emit ((Client.env cfg c).log (.succeeded r result view))
        (Client.env cfg c).consensusDone r request result)
      (fun _ => ClientGood cfg h c) (ClientGood cfg h c) x := by
  rw [wp_bind, wp_emit]
  have hnode := hx.node.record (e := .client (.succeeded r result view))
    (fun _ _ _ heq => by cases heq) (fun _ _ heq => by cases heq) hx.node.held hx.node.unlocking
  refine lockCallback_good (Good.emit (fun _ es _ hp => hp.mono es) hx hnode) htimers hlast hall ?_
    htype fun hstatus => ?_
  · rw [past_emit]
    exact hinv.mono _
  · rw [past_emit]
    exact (hm hstatus).mono _

/-- The caller of an unanswered request is waiting for that request only. -/
theorem Calling.others_answered (hs : Calling cfg h c s) (hlast : r = s.client.lastReqId)
    {r' : ℕ} {req' : PendingRequest Request Reply} (hne : r' ≠ r)
    (hreq' : s.client.pendingReqs.lookup r' = some req') : answered req' = true := by
  by_contra hnot
  exact hne ((hs.awaited r' req' hreq' (Bool.eq_false_iff.2 hnot)).1.trans hlast.symm)

/-- **The fast path.** A matching super quorum is finalised and the caller told, otherwise the
slow path is taken. -/
theorem handleFastPathConsensus_good (hx : ClientGood cfg h c x)
    (hp : Proposed cfg (past h (.client c) x) c r req)
    (hlast : req.continuationInvoked = false → r = x.state.client.lastReqId ∧
      x.state.timers = [] ∧ x.state.waiting = true)
    (hmsgs : req.consensusReplyQuorum.getMessages view = msgs)
    (hcare : Ir.Client.fastPathResult (Client.env cfg c) msgs = none →
      ¬ (2 ≤ successes msgs ∧ successes msgs ≤ cfg.f)) :
    Prog.wp (Ir.Client.handleFastPathConsensus (Client.env cfg c) r view msgs req)
      (fun _ => ClientGood cfg h c) (ClientGood cfg h c) x := by
  have hreplies : ∀ i reply, msgs.lookup i = some reply → i < cfg.n ∧
      (reply.result.status = 0 → Granted (past h (.client c) x) i (c, r) req.request) := by
    rw [← hmsgs]
    exact hp.replies view
  unfold Ir.Client.handleFastPathConsensus
  cases hfast : Ir.Client.fastPathResult (Client.env cfg c) msgs with
  | none =>
      refine handleSlowPathConsensus_good hx ⟨hp.invoked, hp.lock, hp.replies, hp.decided⟩ hlast
        (majority_of_decide hreplies (hcare hfast))
  | some result =>
      simp only [wp_bind, wp_setPending]
      have hpend : Calling cfg (past h (.client c) x) c (x.state.pend r (.consensus { req with
          decideResult := result
          sentConfirms := true
          continuationInvoked := true })) := by
        refine hx.node.setPending (.consensus _) ?_ (fun h => by cases h) fun _ req' heq => ?_
        · exact ⟨hp.invoked, hp.lock, hp.replies, fun _ h => by cases h⟩
        · cases heq
          rfl
      have hx' := hx.update hpend
      refine wp_mono ?_ (fun _ hgood => hgood)
        (sendFinalizeConsensus_good hx' hp.invoked hp.lock (fun req' hreq' => ?_) result)
      · rintro _ x₂ ⟨hx₂, hstate, es, hpast⟩
        rw [wp_when]
        refine ⟨fun hfirst => ?_, fun _ => hx₂⟩
        obtain ⟨hr, htimers, _⟩ := hlast (by simpa using hfirst)
        refine succeed_good hx₂ (by rw [hstate]; exact htimers) (by rw [hstate]; exact hr)
          (fun r' req' hreq' => ?_) ?_ hp.lock fun hstatus => ?_
        · rw [hstate, Client.lookup_pend] at hreq'
          split_ifs at hreq' with hr'
          · cases hreq'
            rfl
          · exact hx.node.others_answered hr hr' hreq'
        · rw [hpast]
          exact hp.invoked.mono es
        · rw [hpast]
          exact (majority_of_successes hreplies (fastPath_success hfast hstatus)).mono es
      · rw [Client.lookup_pend, if_pos rfl] at hreq'
        cases hreq'
        rfl

/-- A reply is added to those received. -/
theorem Proposed.reply (hp : Proposed cfg h c r req) {i : ℕ} (view : ℕ)
    (reply : ConsensusReply Reply) (hi : i < cfg.n)
    (hgranted : reply.result.status = 0 → Granted h i (c, r) req.request) :
    Proposed cfg h c r { req with
      consensusReplyQuorum := req.consensusReplyQuorum.add view i reply } := by
  refine ⟨hp.invoked, hp.lock, fun view' j reply' hreply' => ?_, hp.decided⟩
  rw [QuorumSet.getMessages_add] at hreply'
  split_ifs at hreply' with hview
  · subst hview
    rw [Table.lookup_insert_eq] at hreply'
    split_ifs at hreply' with hj
    · cases hreply'
      rw [hj]
      exact ⟨hi, hgranted⟩
    · exact hp.replies view' j reply' hreply'
  · exact hp.replies view' j reply' hreply'

theorem handleConsensusReply_good {src dst : Node} {finalized : Bool} (hs : Calling cfg h c s)
    (hpkt : PacketOk cfg h ⟨src, dst, .replyConsensus view i (c, r) result finalized⟩)
    (hcare : ∀ msgs ∈ deciding cfg c s
      (.recv ⟨src, dst, .replyConsensus view i (c, r) result finalized⟩),
      ¬ (2 ≤ successes msgs ∧ successes msgs ≤ cfg.f)) :
    Prog.wp (Ir.Client.handleConsensusReply (Client.env cfg c) r view i ⟨result, finalized⟩)
      (fun _ => ClientGood cfg h c) (ClientGood cfg h c) { state := s } := by
  obtain ⟨_, hi, hfin, hten⟩ := hpkt
  have hx : ClientGood cfg h c { state := s } := Good.start hs
  simp only [Ir.Client.handleConsensusReply, wp_bind, wp_read]
  cases hl : (Client.env cfg c).get s |>.pendingReqs.lookup r with
  | none => exact hx
  | some preq =>
  cases preq with
  | inconsistent req => exact hx
  | consensus req =>
      have hl' : s.client.pendingReqs.lookup r = some (.consensus req) := hl
      have hok : Proposed cfg h c r req := hs.pending r _ hl'
      rw [wp_when]
      refine ⟨fun hopen => ?_, fun _ => hx⟩
      rw [Bool.not_eq_true'] at hopen
      cases finalized with
      | true =>
          -- a finalised reply comes only after the finalize messages
          rw [(hs.finalizing r (hfin rfl)).2 req hl'] at hopen
          cases hopen
      | false =>
          have hgranted : result.status = 0 → Granted h i (c, r) req.request := by
            intro hstatus
            obtain ⟨request, hinv, hg⟩ := hten rfl hstatus
            rw [hs.unique r _ _ hok.invoked hinv]
            exact hg
          have hadd := hok.reply view ⟨result, false⟩ hi hgranted
          have hlast : req.continuationInvoked = false → r = s.client.lastReqId ∧ s.timers = [] ∧
              s.waiting = true := fun hnot => hs.awaited r _ hl' hnot
          simp only [deciding, hl', hopen, Bool.false_eq_true, if_false] at hcare
          simp only [Bool.false_eq_true, if_false, wp_ite]
          refine ⟨fun hslow => ?_, fun hslow => ⟨fun hfast => ?_, fun _ => ?_⟩⟩
          · refine handleSlowPathConsensus_good hx (by rw [past_start]; exact hadd) hlast
              fun hstatus => ?_
            rw [past_start]
            refine majority_of_decide (hadd.replies view) (hcare _ ?_) hstatus
            rw [if_pos hslow.1]
            exact if_pos hslow.2
          · refine handleFastPathConsensus_good hx (by rw [past_start]; exact hadd) hlast rfl
              fun hnone => ?_
            refine hcare _ ?_
            have hpath : ¬ req.onSlowPath = true := by
              rw [hfast.1]
              exact Bool.false_ne_true
            rw [if_neg hpath]
            exact if_pos ⟨hfast.2, hnone⟩
          · rw [wp_setPending]
            refine hx.update ?_
            rw [past_start]
            refine hs.setPending (.consensus _) hadd hlast fun hf req' heq => ?_
            cases heq
            exact (hs.finalizing r hf).2 req hl'

theorem handleConfirm_good {src dst : Node} (hs : Calling cfg h c s)
    (hpkt : PacketOk cfg h ⟨src, dst, .confirm view i (c, r)⟩) :
    Prog.wp (Ir.Client.handleConfirm (Client.env cfg c) r view i)
      (fun _ => ClientGood cfg h c) (ClientGood cfg h c) { state := s } := by
  have hx : ClientGood cfg h c { state := s } := Good.start hs
  have herase : ClientGood cfg h c { state := { s with client := { s.client with
      pendingReqs := s.client.pendingReqs.erase r } } } := Good.start (hs.erasePending r)
  rw [Ir.Client.handleConfirm, wp_bind, wp_read]
  cases hl : (Client.env cfg c).get s |>.pendingReqs.lookup r with
  | none => exact hx
  | some preq =>
  have hl' : s.client.pendingReqs.lookup r = some preq := hl
  have hlast : answered preq = false → r = s.client.lastReqId ∧ s.timers = [] ∧
      s.waiting = true := hs.awaited r _ hl'
  cases preq with
  | inconsistent req =>
      have hok : Invoked h c r req.request ∧ req.request.type = false := hs.pending r _ hl'
      simp only [Ir.Client.erasePending, wp_ite, wp_bind, wp_update, wp_when, wp_crash,
        wp_setPending]
      refine ⟨fun _ => ⟨fun _ => herase, fun _ => herase⟩, fun _ => hx.update ?_⟩
      rw [past_start]
      exact hs.setPending (.inconsistent _) hok hlast (fun _ _ h => by cases h)
  | consensus req =>
      have hok : Proposed cfg h c r req := hs.pending r _ hl'
      have hsent : req.sentConfirms = true := by
        rcases hpkt.2 with hf | ⟨request, hinv, ht⟩
        · exact (hs.finalizing r hf).2 req hl'
        · have htype := hok.lock
          rw [hs.unique r _ _ hok.invoked hinv, ht] at htype
          cases htype
      have hothers : ∀ r' req', (s.client.pendingReqs.erase r).lookup r' = some req' →
          req.continuationInvoked = false → answered req' = true := by
        intro r' req' hreq' hnot
        rw [Table.lookup_erase_eq] at hreq'
        split_ifs at hreq' with hr'
        exact hs.others_answered (hlast hnot).1 hr' hreq'
      rw [wp_ite, Ir.Client.erasePending, wp_bind, wp_update, wp_when, wp_ite, wp_setPending,
        Bool.not_eq_true', Bool.not_eq_false']
      refine ⟨fun _ => ⟨fun hnot => ⟨fun _ => ?_, fun _ => ?_⟩, fun _ => herase⟩,
        fun _ => hx.update ?_⟩
      · refine succeed_good herase (hlast hnot).2.1 (hlast hnot).1
          (fun r' req' hreq' => hothers r' req' hreq' hnot) ?_ hok.lock fun hstatus => ?_
        · rw [past_start]
          exact hok.invoked
        · rw [past_start]
          exact hok.decided hsent hnot hstatus
      · exact answer_good herase (hlast hnot).2.1 fun r' req' hreq' => hothers r' req' hreq' hnot
      · rw [past_start]
        refine hs.setPending (.consensus _)
          ⟨hok.invoked, hok.lock, hok.replies, hok.decided⟩ hlast fun _ req' heq => ?_
        cases heq
        exact hsent

theorem handleInconsistentReply_good (hs : Calling cfg h c s) :
    Prog.wp (Ir.Client.handleInconsistentReply (Client.env cfg c) r view i)
      (fun _ => ClientGood cfg h c) (ClientGood cfg h c) { state := s } := by
  have hx : ClientGood cfg h c { state := s } := Good.start hs
  rw [Ir.Client.handleInconsistentReply, wp_bind, wp_read]
  cases hl : (Client.env cfg c).get s |>.pendingReqs.lookup r with
  | none => exact hx
  | some preq =>
  have hl' : s.client.pendingReqs.lookup r = some preq := hl
  cases preq with
  | consensus req => exact hx
  | inconsistent req =>
      have hok : Invoked h c r req.request ∧ req.request.type = false := hs.pending r _ hl'
      simp only [wp_bind, wp_setPending, wp_when]
      set quorum := req.inconsistentReplyQuorum.add view i () with hquorum
      set enough : Bool := decide ((Client.env cfg c).cfg.quorumSize ≤
        (quorum.getMessages view).size) with henough
      have hlast : req.continuationInvoked = false → r = s.client.lastReqId ∧ s.timers = [] ∧
          s.waiting = true := fun hnot => hs.awaited r _ hl' hnot
      have hpend : Calling cfg h c (s.pend r (.inconsistent { req with
          inconsistentReplyQuorum := quorum
          continuationInvoked := req.continuationInvoked || enough })) := by
        refine hs.setPending (.inconsistent _) hok (fun hnot => hlast ?_) (fun _ _ h => by cases h)
        exact (Bool.or_eq_false_iff.1 hnot).1
      have hx' : ClientGood cfg h c { state := _ } := Good.start hpend
      refine ⟨fun hfirst => ?_, fun _ => hx'⟩
      obtain ⟨henough', hopen⟩ : enough = true ∧ req.continuationInvoked = false := by
        simpa using hfirst
      obtain ⟨hr, htimers, _⟩ := hlast hopen
      have hsend := sendMessageToAll_good hx' (m := .finalizeInconsistent (c, r)) fun j => by
        rw [past_start]
        exact ⟨rfl, req.request, hok⟩
      simp only [Ir.Client.sendMessageToAll, wp_send] at hsend ⊢
      refine answer_good hsend htimers fun r' req' hreq' => ?_
      rw [Client.lookup_pend] at hreq'
      split_ifs at hreq' with hr'
      · cases hreq'
        show (req.continuationInvoked || enough) = true
        rw [henough', Bool.or_true]
      · exact hs.others_answered hr hr' hreq'

theorem resend_good (hs : Calling cfg h c s) {req : PendingRequest Request Reply}
    (hreq : s.client.pendingReqs.lookup r = some req) :
    Prog.wp (Ir.Client.resend (Client.env cfg c) r req)
      (fun _ => ClientGood cfg h c) (ClientGood cfg h c) { state := s } := by
  have hx : ClientGood cfg h c { state := s } := Good.start hs
  cases req with
  | inconsistent req =>
      have hok : Invoked h c r req.request ∧ req.request.type = false := hs.pending r _ hreq
      simp only [Ir.Client.resend, wp_ite]
      refine ⟨fun _ => sendMessageToAll_good hx fun j => ?_,
        fun _ => sendMessageToAll_good hx fun j => ?_⟩
      · rw [past_start]
        exact ⟨rfl, req.request, hok⟩
      · rw [past_start]
        exact ⟨rfl, hok⟩
  | consensus req =>
      have hok : Proposed cfg h c r req := hs.pending r _ hreq
      simp only [Ir.Client.resend, wp_ite]
      refine ⟨fun hsent => ?_, fun _ => sendMessageToAll_good hx fun j => ?_⟩
      · refine wp_mono (fun _ _ => And.left) (fun _ hgood => hgood)
          (sendFinalizeConsensus_good hx (by rw [past_start]; exact hok.invoked) hok.lock
            (fun req' hreq' => ?_) _)
        change s.client.pendingReqs.lookup r = _ at hreq'
        rw [hreq] at hreq'
        cases hreq'
        exact hsent
      · rw [past_start]
        exact ⟨rfl, hok.invoked, hok.lock⟩

theorem transitionToConsensusSlowPath_good (hs : Calling cfg h c s)
    (hreq : s.client.pendingReqs.lookup r = some (.consensus req))
    (hcare : ∀ view msgs, Ir.Client.anyQuorum (Client.env cfg c) req = some (view, msgs) →
      ¬ (2 ≤ successes msgs ∧ successes msgs ≤ cfg.f)) :
    Prog.wp (Ir.Client.transitionToConsensusSlowPath (Client.env cfg c) r req)
      (fun _ => ClientGood cfg h c) (ClientGood cfg h c) { state := s } := by
  have hx : ClientGood cfg h c { state := s } := Good.start hs
  have hok : Proposed cfg h c r req := hs.pending r _ hreq
  have hlast : req.continuationInvoked = false → r = s.client.lastReqId ∧ s.timers = [] ∧
      s.waiting = true := fun hnot => hs.awaited r _ hreq hnot
  have hslow : Proposed cfg h c r { req with onSlowPath := true, slowPathTimer := false } :=
    ⟨hok.invoked, hok.lock, hok.replies, hok.decided⟩
  unfold Ir.Client.transitionToConsensusSlowPath
  have hsame : Ir.Client.anyQuorum (Client.env cfg c)
      { req with onSlowPath := true, slowPathTimer := false } =
        Ir.Client.anyQuorum (Client.env cfg c) req := rfl
  simp only [hsame]
  cases hany : Ir.Client.anyQuorum (Client.env cfg c) req with
  | none =>
      simp only [wp_setPending]
      refine hx.update ?_
      rw [past_start]
      refine hs.setPending (.consensus _) hslow hlast fun hf req' heq => ?_
      cases heq
      exact (hs.finalizing r hf).2 req hreq
  | some found =>
      obtain ⟨view, msgs⟩ := found
      refine handleSlowPathConsensus_good hx (by rw [past_start]; exact hslow) hlast fun hstatus => ?_
      rw [past_start]
      refine majority_of_decide (fun i reply hreply => ?_) (hcare view msgs hany) hstatus
      refine hok.replies view i reply ?_
      rw [(Ir.Client.anyQuorum_spec hany).1]
      exact hreply

theorem run_good (hs : Calling cfg h c s) :
    Prog.wp (Client.run cfg c) (fun _ => ClientGood cfg h c) (ClientGood cfg h c)
      { state := s } := by
  have hx : ClientGood cfg h c { state := s } := Good.start hs
  rw [Client.run, wp_bind, wp_read]
  rcases hs.timers with hnil | ⟨_, request, htimers, _⟩
  · simp only [hnil]
    exact hx
  · simp only [htimers, wp_bind, wp_update, wp_ite]
    constructor
    · intro htype
      have hentry : RecordEntryType.consensus = request.entryType := by
        rw [Request.entryType, if_pos htype]
      simp only [Ir.Client.invokeConsensus, Ir.Client.nextReqId, Ir.Client.setPending,
        Ir.Client.sendMessageToAll, wp_bind, wp_update, wp_read, wp_emit, wp_send, hentry]
      refine Good.send (Good.record (fun _ es _ hp => hp.mono es) hx ?_) fun p hp => ?_
      · rw [past_start]
        refine hs.invoke htimers (.consensus { request := request, decideResult := default })
          ⟨?_, htype, fun view i reply hreply => ?_, fun h => by cases h⟩
        · exact List.mem_append_right _ (List.mem_singleton_self _)
        · cases hreply
      · obtain ⟨j, _, rfl⟩ := List.mem_map.1 hp
        exact ⟨rfl, mem_past_emit _, htype⟩
    · intro htype
      rw [Bool.not_eq_true] at htype
      have hentry : RecordEntryType.inconsistent = request.entryType := by
        rw [Request.entryType, htype]
        rfl
      simp only [Ir.Client.invokeInconsistent, Ir.Client.nextReqId, Ir.Client.setPending,
        Ir.Client.sendMessageToAll, wp_bind, wp_update, wp_read, wp_emit, wp_send, hentry]
      refine Good.send (Good.record (fun _ es _ hp => hp.mono es) hx ?_) fun p hp => ?_
      · rw [past_start]
        refine hs.invoke htimers (.inconsistent { request := request }) ⟨?_, htype⟩
        exact List.mem_append_right _ (List.mem_singleton_self _)
      · obtain ⟨j, _, rfl⟩ := List.mem_map.1 hp
        exact ⟨rfl, mem_past_emit _, htype⟩

theorem handleTimer_good {t : ClientTimer} (hs : Calling cfg h c s)
    (hcare : ∀ msgs ∈ deciding cfg c s (.act (.client (.timeout t))),
      ¬ (2 ≤ successes msgs ∧ successes msgs ≤ cfg.f)) :
    Prog.wp (Ir.Client.handleTimer (Client.env cfg c) t)
      (fun _ => ClientGood cfg h c) (ClientGood cfg h c) { state := s } := by
  have hx : ClientGood cfg h c { state := s } := Good.start hs
  cases t with
  | resend r =>
      rw [Ir.Client.handleTimer, wp_bind, wp_read]
      cases hl : (Client.env cfg c).get s |>.pendingReqs.lookup r with
      | none => exact hx
      | some req => exact resend_good hs hl
  | slowPath r =>
      rw [Ir.Client.handleTimer, wp_bind, wp_read]
      cases hl : (Client.env cfg c).get s |>.pendingReqs.lookup r with
      | none => exact hx
      | some preq =>
      cases preq with
      | inconsistent req => exact hx
      | consensus req =>
          rw [wp_when]
          refine ⟨fun htimer => ?_, fun _ => hx⟩
          refine transitionToConsensusSlowPath_good hs hl fun view msgs hany => hcare msgs ?_
          have hl' : s.client.pendingReqs.lookup r = some (.consensus req) := hl
          simp only [deciding, hl', htimer, if_true, hany, Option.map_some, Option.mem_def]

/-- **The step of a client**, on a message for it. -/
theorem client_recv_good {p : Packet Node (Msg Request Reply)} (hs : Calling cfg h c s)
    (hp : PacketOk cfg h p) (hdst : p.dst = .client c)
    (hcare : ∀ msgs ∈ deciding cfg c s (.recv p),
      ¬ (2 ≤ successes msgs ∧ successes msgs ≤ cfg.f)) :
    Prog.wp (Ir.Client.handleMessage (Client.env cfg c) p.msg)
      (fun _ => ClientGood cfg h c) (ClientGood cfg h c) { state := s } := by
  obtain ⟨src, dst, msg⟩ := p
  cases msg with
  | replyInconsistent view j opid finalized => exact handleInconsistentReply_good hs
  | replyConsensus view j opid result finalized =>
      obtain ⟨c', r⟩ := opid
      have hc : dst = .client c' := hp.1
      cases hc.symm.trans hdst
      exact handleConsensusReply_good hs hp hcare
  | confirm view j opid =>
      obtain ⟨c', r⟩ := opid
      have hc : dst = .client c' := hp.1
      cases hc.symm.trans hdst
      exact handleConfirm_good hs hp
  | proposeInconsistent opid request => exact Good.start hs
  | finalizeInconsistent opid => exact Good.start hs
  | proposeConsensus opid request => exact Good.start hs
  | finalizeConsensus opid result => exact Good.start hs
  | doViewChange m => exact Good.start hs
  | startView record view => exact Good.start hs

/-- **The step of a client** by itself. -/
theorem client_act_good {a : Action} (hs : Calling cfg h c s)
    (hcare : ∀ msgs ∈ deciding cfg c s (.act (.client a)),
      ¬ (2 ≤ successes msgs ∧ successes msgs ≤ cfg.f)) :
    Prog.wp (Client.handleAction cfg c a) (fun _ => ClientGood cfg h c) (ClientGood cfg h c)
      { state := s } := by
  have hx : ClientGood cfg h c { state := s } := Good.start hs
  cases a with
  | lock key =>
      simp only [Client.handleAction, Client.lockAsync, wp_bind, wp_read, wp_when, wp_update,
        Bool.not_eq_true']
      refine ⟨fun hidle => hx.update ?_, fun _ => hx⟩
      rw [past_start]
      exact hs.call hidle rfl (fun h => by cases h)
  | unlock key =>
      simp only [Client.handleAction, Client.unlockAsync, wp_bind, wp_read, wp_when, wp_emit,
        wp_update, Bool.not_eq_true']
      refine ⟨fun hidle => Good.record (fun _ es _ hp => hp.mono es) hx ?_, fun _ => hx⟩
      rw [past_start]
      have hempty : s.timers = [] := by
        rcases hs.timers with hnil | ⟨hwait, _⟩
        · exact hnil
        · rw [hidle] at hwait
          cases hwait
      refine (hs.unlock hempty key).call hidle rfl fun _ => ?_
      rw [held_concat, Event.held, if_pos rfl]
  | run => exact run_good hs
  | timeout t => exact handleTimer_good hs hcare

end Client

/-! ### Runs -/

/-- **The invariant** in every steady and careful run. -/
theorem invariant {iterate : Finset ClientId → List ClientId} {w : GlobalState}
    (hw : (system cfg iterate).Reach (fun w n ω i => Steady w n ω i ∧ Careful cfg w n ω i) w) :
    (∀ n, NodeOk cfg w.history n (w.state n)) ∧ ∀ p ∈ w.net, PacketOk cfg w.history p := by
  refine hw.invariant NodeOk.init (fun _ es _ => PacketOk.mono es)
    (fun _ _ _ es _ hn => NodeOk.frame hn es) ?_
  intro w n ω input _ hnode hpkt hen hcond
  have hcalling : ∀ c, Calling cfg w.history c (w.state (.client c)) := fun c => hnode (.client c)
  cases n with
  | replica j =>
      cases input with
      | act a => exact hcond.1.elim
      | recv p =>
          have hj : j < cfg.n := by
            have howner := hen.2.2
            simp only [system] at howner
            split at howner
            · split_ifs at howner with hlt
              cases howner
              exact hlt
            · cases howner
          refine replica_good hj (hnode (.replica j)) (hpkt p hen.2.1)
            (fun c r request hi => ((hcalling c).numbered r request hi).2)
            (fun c => (hcalling c).unique) fun opid hmsg => ?_
          obtain ⟨src, dst, msg⟩ := p
          cases hmsg
          exact hcond.2
  | client c =>
      cases input with
      | act a =>
          cases a with
          | replica a => exact Good.start (hnode (.client c))
          | client a => exact client_act_good (hcalling c) hcond.2
      | recv p =>
          refine client_recv_good (hcalling c) (hpkt p hen.2.1) ?_ hcond.2
          have howner := hen.2.2
          simp only [system] at howner
          split at howner
          · split_ifs at howner
            cases howner
          · cases howner
            assumption

/-- **Mutual exclusion.** In every steady and careful run of `2f + 1` lock servers, at most one
client holds a key. -/
theorem lock_exclusive (cfg : Config) (iterate : Finset ClientId → List ClientId)
    (hn : cfg.n = 2 * cfg.f + 1) (w : GlobalState)
    (hw : (system cfg iterate).Reach (fun w n ω i => Steady w n ω i ∧ Careful cfg w n ω i) w)
    (key : Key) (c₁ c₂ : ClientId) (h₁ : (held c₁ key w.history).isSome)
    (h₂ : (held c₂ key w.history).isSome) : c₁ = c₂ := by
  obtain ⟨hnode, _⟩ := invariant hw
  obtain ⟨r₁, hr₁⟩ := Option.isSome_iff_exists.1 h₁
  obtain ⟨r₂, hr₂⟩ := Option.isSome_iff_exists.1 h₂
  have hcalling : ∀ c, Calling cfg w.history c (w.state (.client c)) := fun c => hnode (.client c)
  obtain ⟨⟨request₁, hk₁, hm₁⟩, hlt₁⟩ := (hcalling c₁).held key r₁ hr₁
  obtain ⟨⟨request₂, hk₂, hm₂⟩, hlt₂⟩ := (hcalling c₂).held key r₂ hr₂
  obtain ⟨i, hg₁, hg₂⟩ := hm₁.meet hn hm₂
  have hserving : Serving w.history i (w.state (.replica i)) := hnode (.replica i)
  -- neither lock was released, so both clients are the holder at the common replica
  have hlock : ∀ c r request, request.key = key → Granted w.history i (c, r) request →
      (∀ r', Invoked w.history c r' ⟨c, key, false⟩ → r' < r) →
      (w.state (.replica i)).app.locks.lookup key = some c := by
    intro c r request hk hg hlt
    rcases hserving.locked (c, r) request hg with hheld | ⟨r', hr', hinv⟩
    · rw [← hk]
      exact hheld
    · rw [hk] at hinv
      exact absurd (hlt r' hinv) (not_lt.2 (le_of_lt hr'))
  have hsome := (hlock c₁ r₁ request₁ hk₁ hg₁ hlt₁).symm.trans (hlock c₂ r₂ request₂ hk₂ hg₂ hlt₂)
  exact Option.some.inj hsome

/-! ### Schedules -/

/-- A client acts. -/
def act (c : ClientId) (a : Action) : Protocol.Cmd Node Act Unit := .act (.client c) () (.client a)

/-- Packets are delivered, by their positions. -/
def deliver (packets : List ℕ) : List (Protocol.Cmd Node Act Unit) :=
  packets.map fun k => .deliver k ()

/-- A client locks with a super quorum and unlocks, and another takes the lock on the slow
path. -/
def handover : List (Protocol.Cmd Node Act Unit) :=
  [act 1 (.lock "k"), act 1 .run] ++ deliver [0, 1, 2, 3, 5, 6, 7, 8] ++
    [act 1 (.unlock "k"), act 1 .run] ++ deliver [14, 15, 16, 19, 20, 21, 22, 23, 24] ++
    [act 2 (.lock "k"), act 2 .run] ++ deliver [30, 31, 32, 35, 36, 37] ++
    [act 2 (.timeout (.slowPath 1))] ++ deliver [38, 39, 40, 43, 44, 45]

/-- Two clients share the replicas two to three, and both take the slow path. -/
def splitVotes : List (Protocol.Cmd Node Act Unit) :=
  [act 1 (.lock "k"), act 1 .run, act 2 (.lock "k"), act 2 .run] ++
    deliver [0, 1, 7, 8, 9, 2, 10, 11, 15] ++ [act 1 (.timeout (.slowPath 1))] ++
    deliver [12, 13, 14] ++ [act 2 (.timeout (.slowPath 1))] ++
    deliver [16, 17, 18, 23, 24, 25, 26, 27, 28, 29, 30, 31]

/-- A client unlocks and locks again before the replicas execute the unlock. -/
def lateUnlock : List (Protocol.Cmd Node Act Unit) :=
  [act 1 (.lock "k"), act 1 .run] ++ deliver [0, 1, 2, 3, 4, 5] ++
    [act 1 (.unlock "k"), act 1 .run] ++ deliver [9, 10, 11, 12, 13] ++
    [act 1 (.lock "k"), act 1 .run] ++ deliver [18, 19, 20, 21, 22, 23, 15, 16, 17] ++
    [act 2 (.lock "k"), act 2 .run] ++ deliver [30, 31, 32, 33, 34, 35]

theorem handover_runs : ((system ⟨5, 2⟩ Server.ascending).exec
    (fun w n ω i => Steady w n ω i ∧ Careful ⟨5, 2⟩ w n ω i) (system ⟨5, 2⟩ Server.ascending).start
      handover).isSome := by
  decide +kernel

theorem splitVotes_runs :
    ((system ⟨5, 2⟩ Server.ascending).exec Steady (system ⟨5, 2⟩ Server.ascending).start splitVotes).isSome := by
  decide +kernel

theorem lateUnlock_runs :
    ((system ⟨3, 1⟩ Server.ascending).exec Steady (system ⟨3, 1⟩ Server.ascending).start lateUnlock).isSome := by
  decide +kernel

/-- After the handover the second client is the only holder. -/
theorem handover_exclusive :
    (held 2 "k" ((Option.get _ handover_runs).history)).isSome ∧
      ∀ c, (held c "k" ((Option.get _ handover_runs).history)).isSome → c = 2 := by
  have hheld : (held 2 "k" ((Option.get _ handover_runs).history)).isSome := by decide +kernel
  exact ⟨hheld, fun c hc => lock_exclusive ⟨5, 2⟩ Server.ascending rfl _
    (Protocol.Reach.exec .start (Option.some_get handover_runs).symm) "k" c 2 hc hheld⟩

/-- **Two holders.** With five replicas, two successes are not a majority; with three, an unlock
that is executed late releases a lock taken after it. No view changes and no crashes. -/
theorem two_holders :
    (∃ w, (system ⟨5, 2⟩ Server.ascending).Reach Steady w ∧ (held 1 "k" w.history).isSome ∧
      (held 2 "k" w.history).isSome) ∧
    ∃ w, (system ⟨3, 1⟩ Server.ascending).Reach Steady w ∧ (held 1 "k" w.history).isSome ∧
      (held 2 "k" w.history).isSome := by
  constructor
  · exact ⟨_, Protocol.Reach.exec .start (Option.some_get splitVotes_runs).symm,
      by decide +kernel, by decide +kernel⟩
  · exact ⟨_, Protocol.Reach.exec .start (Option.some_get lateUnlock_runs).symm,
      by decide +kernel, by decide +kernel⟩

end D2PC.Ir.LockService
