import D2PC.Ir.LockService
import D2PC.Lib.Votes

/-!
# The invariant of the lock service

Who holds a key, as the history tells it, and what is kept along a run: a client holds a key
only if a majority of the replicas granted it the lock, and a replica that granted a lock keeps
it until the client's next unlock.

* `held` : a client holds a key from the moment it is told that its lock succeeded until it calls
  unlock;
* `Steady` : no view change is started and no replica restarts;
* `Careful` : `Decide` is not called with between `2` and `f` successes, and a late unlock does
  not release a lock that its client asked for after it;
* `Serving`, `Calling`, `PacketOk` : the invariant of a replica, a client and a packet;
* `replica_good` : the step of a replica.
-/

namespace D2PC.Ir.LockService

open Prog Ctx

/-! ### The property -/

/-- What an event means for the client that holds a key. -/
def Event.held (key : Key) : Event → Option ℕ → Option ℕ
  | .told reqId key' status, r => if key' = key ∧ status = 0 then some reqId else r
  | .unlocking key', r => if key' = key then none else r
  | _, r => r

/-- The request with which client `c` holds the key: it was told that the request succeeded, and
has not called unlock since. -/
def held (c : ClientId) (key : Key) (h : History) : Option ℕ :=
  h.foldl (fun r e => if e.1 = .client c then e.2.held key r else r) none

/-! ### Conditions on steps -/

/-- No view change timeout fires and no replica is started again. -/
def Steady (_ : GlobalState) (n : Node) (_ : Unit) (i : Input Node (Msg Request Reply) Act) :
    Prop :=
  match n, i with
  | .replica _, .act _ => False
  | _, _ => True

/-- The successful replies. -/
def successes (msgs : Table ℕ (ConsensusReply Reply)) : ℕ :=
  Votes.count (fun m => m.result.status = 0) msgs

/-- The replies on which a step of a client calls `Decide`, if it does. -/
def deciding (cfg : Config) (id : ClientId) (c : Client) :
    Input Node (Msg Request Reply) Act → Option (Table ℕ (ConsensusReply Reply))
  | .recv ⟨_, _, .replyConsensus view i opid result false⟩ =>
      match c.client.pendingReqs.lookup opid.2 with
      | some (.consensus req) =>
          let msgs := (req.consensusReplyQuorum.add view i ⟨result, false⟩).getMessages view
          if req.sentConfirms = true then none
          else if req.onSlowPath = true then
            if cfg.quorumSize ≤ msgs.size then some msgs else none
          else if cfg.fastQuorumSize ≤ msgs.size ∧
              Ir.Client.fastPathResult (Client.env cfg id) msgs = none then some msgs
          else none
      | _ => none
  | .act (.client (.timeout (.slowPath reqId))) =>
      match c.client.pendingReqs.lookup reqId with
      | some (.consensus req) =>
          if req.slowPathTimer = true then
            (Ir.Client.anyQuorum (Client.env cfg id) req).map Prod.snd
          else none
      | _ => none
  | _ => none

/-- The unlock that is to be executed would release the lock of its client, which has asked for
the key again since. -/
def overtaken (r : Replica Server Request Reply) (opid : OpId) : Bool :=
  match r.record.lookup opid with
  | some entry =>
      decide (entry.state = .tentative) && !entry.request.type &&
        decide (r.app.locks.lookup entry.request.key = some entry.request.clientid) &&
        r.record.toList.any fun p => decide (p.1.1 = opid.1 ∧ opid.2 < p.1.2 ∧
          p.2.request.type = true ∧ p.2.request.key = entry.request.key)
  | none => false

/-- `Decide` is called only where two successes are a majority, or none are there to mislead it,
and no unlock is overtaken. -/
def Careful (cfg : Config) (w : GlobalState) (n : Node) (_ : Unit)
    (i : Input Node (Msg Request Reply) Act) : Prop :=
  match n, i with
  | .client id, i =>
      ∀ msgs ∈ deciding cfg id (w.state (.client id)) i,
        ¬ (2 ≤ successes msgs ∧ successes msgs ≤ cfg.f)
  | .replica j, .recv ⟨_, _, .finalizeInconsistent opid⟩ =>
      overtaken (w.state (.replica j)) opid = false
  | _, _ => True

instance (w : GlobalState) (n : Node) (ω : Unit) (i : Input Node (Msg Request Reply) Act) :
    Decidable (Steady w n ω i) :=
  match n, i with
  | .replica _, .act _ => inferInstanceAs (Decidable False)
  | .replica _, .recv _ => inferInstanceAs (Decidable True)
  | .client _, _ => inferInstanceAs (Decidable True)

instance (cfg : Config) (w : GlobalState) (n : Node) (ω : Unit)
    (i : Input Node (Msg Request Reply) Act) : Decidable (Careful cfg w n ω i) :=
  match n, i with
  | .client id, i => inferInstanceAs (Decidable (∀ msgs ∈ deciding cfg id (w.state (.client id)) i,
      ¬ (2 ≤ successes msgs ∧ successes msgs ≤ cfg.f)))
  | .replica j, .recv ⟨_, _, m⟩ => by
      cases m
      case finalizeInconsistent opid =>
        exact inferInstanceAs (Decidable (overtaken (w.state (.replica j)) opid = false))
      all_goals exact inferInstanceAs (Decidable True)
  | .replica _, .act _ => inferInstanceAs (Decidable True)

/-! ### What the history says -/

/-- How a request is invoked. -/
def Request.entryType (request : Request) : RecordEntryType :=
  if request.type then .consensus else .inconsistent

/-- Client `c` gave the number `r` to the request. -/
def Invoked (h : History) (c : ClientId) (r : ℕ) (request : Request) : Prop :=
  (Node.client c, Event.client (.invoked r request.entryType request)) ∈ h

/-- Client `c` has sent finalize messages for its consensus request `r`. -/
def Finalizing (h : History) (c : ClientId) (r : ℕ) : Prop :=
  ∃ result, (Node.client c, Event.client (.finalizing r result)) ∈ h

/-- Replica `i` executed the request with success. -/
def Granted (h : History) (i : ℕ) (opid : OpId) (request : Request) : Prop :=
  ∃ view reply, (Node.replica i, Event.replica (.executed view opid request reply)) ∈ h ∧
    reply.status = 0

/-- More than `f` replicas did. -/
def Majority (cfg : Config) (h : History) (opid : OpId) (request : Request) : Prop :=
  ∃ voters ⊆ Finset.range cfg.n, cfg.f < voters.card ∧ ∀ i ∈ voters, Granted h i opid request

variable {cfg : Config} {h : History} {c : ClientId} {i r : ℕ} {key : Key} {opid : OpId}
variable {request : Request}

theorem Invoked.mono (hi : Invoked h c r request) (es : History) : Invoked (h ++ es) c r request :=
  List.mem_append_left _ hi

theorem Finalizing.mono (hf : Finalizing h c r) (es : History) : Finalizing (h ++ es) c r := by
  obtain ⟨result, hmem⟩ := hf
  exact ⟨result, List.mem_append_left _ hmem⟩

theorem Granted.mono (hg : Granted h i opid request) (es : History) :
    Granted (h ++ es) i opid request := by
  obtain ⟨view, reply, hmem, hstatus⟩ := hg
  exact ⟨view, reply, List.mem_append_left _ hmem, hstatus⟩

theorem Majority.mono (hm : Majority cfg h opid request) (es : History) :
    Majority cfg (h ++ es) opid request := by
  obtain ⟨voters, hsub, hcard, hall⟩ := hm
  exact ⟨voters, hsub, hcard, fun i hi => (hall i hi).mono es⟩

/-- **Two majorities meet** in a replica. -/
theorem Majority.meet (hn : cfg.n = 2 * cfg.f + 1) {opid' : OpId} {request' : Request}
    (hm : Majority cfg h opid request) (hm' : Majority cfg h opid' request') :
    ∃ i, Granted h i opid request ∧ Granted h i opid' request' := by
  obtain ⟨voters, hsub, hcard, hall⟩ := hm
  obtain ⟨voters', hsub', hcard', hall'⟩ := hm'
  have hunion : (voters ∪ voters').card ≤ cfg.n := by
    have hle := Finset.card_le_card (Finset.union_subset hsub hsub')
    rwa [Finset.card_range] at hle
  have hinter := Finset.card_union_add_card_inter voters voters'
  obtain ⟨i, hi⟩ : (voters ∩ voters').Nonempty := by
    rw [← Finset.card_pos]
    omega
  rw [Finset.mem_inter] at hi
  exact ⟨i, hall i hi.1, hall' i hi.2⟩

/-- Events of other processes are not those of `n`. -/
theorem mem_frame {n n' : Node} (hn : n ≠ n') (es : List Event) (e : Event) :
    (n, e) ∈ h ++ es.map (n', ·) ↔ (n, e) ∈ h := by
  rw [List.mem_append, or_iff_left_iff_imp]
  intro hmem
  obtain ⟨e', _, heq⟩ := List.mem_map.1 hmem
  cases heq
  exact absurd rfl hn

theorem held_append (es : History) :
    held c key (h ++ es) =
      es.foldl (fun r e => if e.1 = .client c then e.2.held key r else r) (held c key h) := by
  rw [held, List.foldl_append]
  rfl

theorem held_frame {n' : Node} (hn : Node.client c ≠ n') (es : List Event) :
    held c key (h ++ es.map (n', ·)) = held c key h := by
  rw [held_append]
  induction es with
  | nil => rfl
  | cons e es ih =>
      rw [List.map_cons, List.foldl_cons, if_neg (Ne.symm hn)]
      exact ih

theorem held_concat (e : Event) :
    held c key (h ++ [(Node.client c, e)]) = e.held key (held c key h) := by
  rw [held_append, List.foldl_cons, List.foldl_nil, if_pos rfl]

/-! ### The invariant -/

/-- What a message says is so, and it goes to the client it is for. -/
def PacketOk (cfg : Config) (h : History) (p : Packet Node (Msg Request Reply)) : Prop :=
  match p.msg with
  | .proposeInconsistent opid request =>
      p.src = .client opid.1 ∧ Invoked h opid.1 opid.2 request ∧ request.type = false
  | .proposeConsensus opid request =>
      p.src = .client opid.1 ∧ Invoked h opid.1 opid.2 request ∧ request.type = true
  | .finalizeInconsistent opid =>
      p.src = .client opid.1 ∧ ∃ request, Invoked h opid.1 opid.2 request ∧ request.type = false
  | .finalizeConsensus opid _ => p.src = .client opid.1 ∧ Finalizing h opid.1 opid.2
  | .replyInconsistent _ _ _ _ => True
  | .replyConsensus _ i opid result finalized =>
      p.dst = .client opid.1 ∧ i < cfg.n ∧ (finalized = true → Finalizing h opid.1 opid.2) ∧
        (finalized = false → result.status = 0 →
          ∃ request, Invoked h opid.1 opid.2 request ∧ Granted h i opid request)
  | .confirm _ _ opid =>
      p.dst = .client opid.1 ∧ (Finalizing h opid.1 opid.2 ∨
        ∃ request, Invoked h opid.1 opid.2 request ∧ request.type = false)
  | .doViewChange _ => False
  | .startView _ _ => False

/-- An entry of the record of replica `i`. -/
structure EntryOk (h : History) (i : ℕ) (opid : OpId) (e : RecordEntry Request Reply) : Prop where
  invoked : Invoked h opid.1 opid.2 e.request
  clientid : e.request.clientid = opid.1
  tentative : e.request.type = true → e.state = .tentative → e.result.status = 0 →
    Granted h i opid e.request
  finalized : e.request.type = true → e.state = .finalized → Finalizing h opid.1 opid.2

/-- A replica: a lock it granted is still in place unless its client asked to unlock since. -/
structure Serving (h : History) (i : ℕ) (s : Replica Server Request Reply) : Prop where
  entries : ∀ opid e, s.record.lookup opid = some e → EntryOk h i opid e
  recorded : ∀ opid request, Granted h i opid request → request.type = true ∧
    ∃ e, s.record.lookup opid = some e ∧ e.request = request
  locked : ∀ opid request, Granted h i opid request →
    s.app.locks.lookup request.key = some opid.1 ∨
      ∃ r', opid.2 < r' ∧ Invoked h opid.1 r' ⟨opid.1, request.key, false⟩

/-- A consensus request: the replies report what the replicas did, and a lock is finalised as
successful only if a majority granted it. -/
structure Proposed (cfg : Config) (h : History) (c : ClientId) (r : ℕ)
    (req : PendingConsensus Request Reply) : Prop where
  invoked : Invoked h c r req.request
  lock : req.request.type = true
  replies : ∀ view i reply, (req.consensusReplyQuorum.getMessages view).lookup i = some reply →
    i < cfg.n ∧ (reply.result.status = 0 → Granted h i (c, r) req.request)
  decided : req.sentConfirms = true → req.continuationInvoked = false →
    req.decideResult.status = 0 → Majority cfg h (c, r) req.request

/-- A pending request. -/
def PendingOk (cfg : Config) (h : History) (c : ClientId) (r : ℕ) :
    PendingRequest Request Reply → Prop
  | .inconsistent req => Invoked h c r req.request ∧ req.request.type = false
  | .consensus req => Proposed cfg h c r req

/-- The caller has been answered. -/
def answered : PendingRequest Request Reply → Bool
  | .inconsistent req => req.continuationInvoked
  | .consensus req => req.continuationInvoked

/-- A client: only its last request is unanswered, and what it holds a majority granted, after
all its unlocks. -/
structure Calling (cfg : Config) (h : History) (c : ClientId) (s : Client) : Prop where
  numbered : ∀ r request, Invoked h c r request → r ≤ s.client.lastReqId ∧ request.clientid = c
  unique : ∀ r request request', Invoked h c r request → Invoked h c r request' →
    request = request'
  timers : s.timers = [] ∨
    s.waiting = true ∧ ∃ request, s.timers = [request] ∧ request.clientid = c
  awaited : ∀ r req, s.client.pendingReqs.lookup r = some req → answered req = false →
    r = s.client.lastReqId ∧ s.timers = [] ∧ s.waiting = true
  pending : ∀ r req, s.client.pendingReqs.lookup r = some req → PendingOk cfg h c r req
  finalizing : ∀ r, Finalizing h c r → (∃ request, Invoked h c r request ∧ request.type = true) ∧
    ∀ req, s.client.pendingReqs.lookup r = some (.consensus req) → req.sentConfirms = true
  held : ∀ key r, held c key h = some r → (∃ request, request.key = key ∧
    Majority cfg h (c, r) request) ∧ ∀ r', Invoked h c r' ⟨c, key, false⟩ → r' < r
  unlocking : ∀ request ∈ s.timers, request.type = false → LockService.held c request.key h = none

/-- The invariant of a process. -/
def NodeOk (cfg : Config) (h : History) : (n : Node) → State n → Prop
  | .replica i, s => Serving h i s
  | .client c, s => Calling cfg h c s

theorem PacketOk.mono {p : Packet Node (Msg Request Reply)} (es : History)
    (hp : PacketOk cfg h p) : PacketOk cfg (h ++ es) p := by
  obtain ⟨src, dst, msg⟩ := p
  cases msg with
  | proposeInconsistent opid request => exact ⟨hp.1, hp.2.1.mono es, hp.2.2⟩
  | proposeConsensus opid request => exact ⟨hp.1, hp.2.1.mono es, hp.2.2⟩
  | finalizeInconsistent opid =>
      obtain ⟨hsrc, request, hi, ht⟩ := hp
      exact ⟨hsrc, request, hi.mono es, ht⟩
  | finalizeConsensus opid result => exact ⟨hp.1, hp.2.mono es⟩
  | replyInconsistent view i opid finalized => trivial
  | replyConsensus view i opid result finalized =>
      obtain ⟨hdst, hi, hfin, hten⟩ := hp
      refine ⟨hdst, hi, fun hf => (hfin hf).mono es, fun hf hstatus => ?_⟩
      obtain ⟨request, hinv, hg⟩ := hten hf hstatus
      exact ⟨request, hinv.mono es, hg.mono es⟩
  | confirm view i opid =>
      refine ⟨hp.1, hp.2.imp (·.mono es) ?_⟩
      rintro ⟨request, hinv, ht⟩
      exact ⟨request, hinv.mono es, ht⟩
  | doViewChange m => exact hp
  | startView record view => exact hp

theorem EntryOk.mono {e : RecordEntry Request Reply} (he : EntryOk h i opid e) (es : History) :
    EntryOk (h ++ es) i opid e where
  invoked := he.invoked.mono es
  clientid := he.clientid
  tentative := fun ht hs hr => (he.tentative ht hs hr).mono es
  finalized := fun ht hs => (he.finalized ht hs).mono es

theorem Proposed.mono {req : PendingConsensus Request Reply} (hp : Proposed cfg h c r req)
    (es : History) : Proposed cfg (h ++ es) c r req where
  invoked := hp.invoked.mono es
  lock := hp.lock
  replies := fun view i reply hreply =>
    ⟨(hp.replies view i reply hreply).1, fun hs => ((hp.replies view i reply hreply).2 hs).mono es⟩
  decided := fun hs hc hr => (hp.decided hs hc hr).mono es

theorem PendingOk.mono {req : PendingRequest Request Reply} (hp : PendingOk cfg h c r req)
    (es : History) : PendingOk cfg (h ++ es) c r req := by
  cases req with
  | inconsistent req => exact ⟨hp.1.mono es, hp.2⟩
  | consensus req => exact Proposed.mono hp es

/-- A replica executes nothing while others record events. -/
theorem Serving.frame {s : Replica Server Request Reply} (hs : Serving h i s) (es : History)
    (hsame : ∀ opid request, Granted (h ++ es) i opid request → Granted h i opid request) :
    Serving (h ++ es) i s := by
  refine ⟨fun opid e he => (hs.entries opid e he).mono es,
    fun opid request hg => hs.recorded opid request (hsame opid request hg),
    fun opid request hg => (hs.locked opid request (hsame opid request hg)).imp_right ?_⟩
  rintro ⟨r', hlt, hinv⟩
  exact ⟨r', hlt, hinv.mono es⟩

/-- A client notices only its own requests, finalize messages and what it holds. -/
theorem Calling.frame {s : Client} (hs : Calling cfg h c s) (es : History)
    (hinv : ∀ r request, Invoked (h ++ es) c r request → Invoked h c r request)
    (hfin : ∀ r, Finalizing (h ++ es) c r → Finalizing h c r)
    (hheld : ∀ key, LockService.held c key (h ++ es) = LockService.held c key h) :
    Calling cfg (h ++ es) c s where
  numbered := fun r request hi => hs.numbered r request (hinv r request hi)
  unique := fun r request request' hi hi' =>
    hs.unique r request request' (hinv _ _ hi) (hinv _ _ hi')
  timers := hs.timers
  awaited := hs.awaited
  pending := fun r req hreq => (hs.pending r req hreq).mono es
  finalizing := by
    intro r hf
    obtain ⟨⟨request, hi, ht⟩, hsent⟩ := hs.finalizing r (hfin r hf)
    exact ⟨⟨request, hi.mono es, ht⟩, hsent⟩
  held := by
    intro key r hh
    rw [hheld] at hh
    obtain ⟨⟨request, hk, hm⟩, hlt⟩ := hs.held key r hh
    exact ⟨⟨request, hk, hm.mono es⟩, fun r' hi => hlt r' (hinv _ _ hi)⟩
  unlocking := by
    intro request hmem ht
    rw [hheld]
    exact hs.unlocking request hmem ht

theorem NodeOk.frame {n n' : Node} (hn : n ≠ n') (es : List Event) {s : State n}
    (hs : NodeOk cfg h n s) : NodeOk cfg (h ++ es.map (n', ·)) n s := by
  cases n with
  | replica i =>
      refine Serving.frame hs _ fun opid request hg => ?_
      obtain ⟨view, reply, hmem, hstatus⟩ := hg
      exact ⟨view, reply, (mem_frame hn es _).1 hmem, hstatus⟩
  | client c =>
      refine Calling.frame hs _ (fun r request => (mem_frame hn es _).1) ?_
        fun key => held_frame hn es
      rintro r ⟨result, hmem⟩
      exact ⟨result, (mem_frame hn es _).1 hmem⟩

theorem NodeOk.init (n : Node) : NodeOk cfg [] n (initial n) := by
  cases n with
  | replica i =>
      refine ⟨fun opid e he => ?_, ?_, ?_⟩
      · cases he
      · rintro opid request ⟨_, _, hmem, _⟩
        cases hmem
      · rintro opid request ⟨_, _, hmem, _⟩
        cases hmem
  | client c =>
      refine ⟨nofun, nofun, .inl rfl, fun r req hreq => ?_, fun r req hreq => ?_, ?_, ?_, nofun⟩
      · cases hreq
      · cases hreq
      · rintro r ⟨_, hmem⟩
        cases hmem
      · intro key r hh
        cases hh

/-! ### The steps of a replica -/

section Replica

variable {s : Replica Server Request Reply} {e : RecordEntry Request Reply} {remote dst : Node}
variable {iterate : Finset ClientId → List ClientId}

abbrev ReplicaGood (cfg : Config) (h : History) (i : ℕ) :
    Ctx (Replica Server Request Reply) Node (Msg Request Reply) Event → Prop :=
  Ctx.Good (fun h s => Serving h i s) (PacketOk cfg) h (.replica i)

/-- An entry is added, or changed without changing its request. -/
theorem Serving.addEntry (hs : Serving h i s) (he : EntryOk h i opid e)
    (hreq : ∀ e', s.record.lookup opid = some e' → e.request = e'.request) :
    Serving h i { s with record := s.record.insert opid e } := by
  refine ⟨fun o e' he' => ?_, fun o request hg => ?_, hs.locked⟩
  · rw [Table.lookup_insert_eq] at he'
    split_ifs at he' with ho
    · cases he'
      rw [ho]
      exact he
    · exact hs.entries o e' he'
  · obtain ⟨ht, e', he', hr⟩ := hs.recorded o request hg
    refine ⟨ht, ?_⟩
    rw [Table.lookup_insert_eq]
    split_ifs with ho
    · subst ho
      exact ⟨e, rfl, (hreq e' he').trans hr⟩
    · exact ⟨e', he', hr⟩

theorem handleProposeInconsistent_good (hs : Serving h i s)
    (hp : PacketOk cfg h ⟨remote, dst, .proposeInconsistent opid request⟩)
    (hid : request.clientid = opid.1) :
    Prog.wp (Replica.handleProposeInconsistent (replicaEnv cfg iterate i) remote opid request)
      (fun _ => ReplicaGood cfg h i) (ReplicaGood cfg h i) { state := s } := by
  simp only [Replica.handleProposeInconsistent, wp_bind, wp_read]
  cases hl : s.record.lookup opid with
  | some entry =>
      simp only [Replica.reply, wp_send]
      exact Good.send_one (Good.start hs) trivial
  | none =>
      simp only [Replica.reply, Replica.addEntry, wp_bind, wp_read, wp_update, wp_send]
      refine Good.send_one (Good.update (Good.start hs) ?_) trivial
      rw [past_start]
      refine Serving.addEntry hs ?_ fun e' he' => ?_
      · have ht : request.type = false := hp.2.2
        refine ⟨hp.2.1, hid, fun htrue => ?_, fun htrue => ?_⟩
        · exact absurd htrue (by simp [ht])
        · exact absurd htrue (by simp [ht])
      · rw [hl] at he'
        cases he'

/-- **An unlock is executed.** Unless it is overtaken, the locks it releases were asked for
before it. -/
theorem Serving.unlock (hs : Serving h i s) {entry : RecordEntry Request Reply}
    (hentry : s.record.lookup opid = some entry) (htent : entry.state = .tentative)
    (htype : entry.request.type = false) (hcare : overtaken s opid = false) :
    Serving h i { s with app := s.app.execInconsistentUpcall entry.request } := by
  refine ⟨hs.entries, hs.recorded, fun o request hg => ?_⟩
  rcases hs.locked o request hg with hlock | hrel
  · simp only [Server.execInconsistentUpcall, htype, Bool.false_eq_true, if_false]
    split_ifs with hholder
    · rw [Table.lookup_erase_eq]
      split_ifs with hkey
      · -- the lock of `o` is released, so that `o` is older than the unlock
        right
        have hok := hs.entries opid entry hentry
        obtain ⟨ho, e, he, hereq⟩ := hs.recorded o request hg
        have hclient : o.1 = opid.1 := by
          rw [hkey, hholder, hok.clientid] at hlock
          exact (Option.some.inj hlock).symm
        have hnot : ¬ opid.2 < o.2 := by
          intro hlt
          simp only [overtaken, hentry, htent, htype, hholder, decide_true, Bool.not_false,
            Bool.true_and, List.any_eq_false] at hcare
          refine hcare (o, e) (Table.mem_toList.2 he) ?_
          rw [decide_eq_true_iff]
          exact ⟨hclient, hlt, by rw [hereq]; exact ho, by rw [hereq]; exact hkey⟩
        have hne : o.2 ≠ opid.2 := by
          intro heq
          have hsame : o = opid := Prod.ext hclient heq
          rw [hsame, hentry] at he
          cases he
          rw [hereq, ho] at htype
          cases htype
        refine ⟨opid.2, by omega, ?_⟩
        have hrequest : entry.request = ⟨o.1, request.key, false⟩ := by
          rw [hclient, hkey, ← hok.clientid, ← htype]
        rw [hclient, ← hclient, ← hrequest, hclient]
        exact hok.invoked
      · exact .inl hlock
    · exact .inl hlock
  · exact .inr hrel

theorem handleFinalizeInconsistent_good (hs : Serving h i s)
    (hp : PacketOk cfg h ⟨remote, dst, .finalizeInconsistent opid⟩)
    (huniq : ∀ request', Invoked h opid.1 opid.2 request' → request'.type = false)
    (hcare : overtaken s opid = false) :
    Prog.wp (Replica.handleFinalizeInconsistent (replicaEnv cfg iterate i) remote opid)
      (fun _ => ReplicaGood cfg h i) (ReplicaGood cfg h i) { state := s } := by
  simp only [Replica.handleFinalizeInconsistent, wp_bind, wp_read]
  cases hl : s.record.lookup opid with
  | none => exact Good.start hs
  | some entry =>
      simp only [Replica.reply, Replica.addEntry, wp_when, wp_bind, wp_read, wp_update, wp_send,
        wp_emit, decide_eq_true_eq, decide_eq_false_iff_not]
      refine ⟨fun htent => ?_, fun _ => Good.start hs⟩
      have hok := hs.entries opid entry hl
      have htype := huniq _ hok.invoked
      have hunlock := (hs.unlock hl htent htype hcare).addEntry
        (e := { entry with opid := opid, state := .finalized })
        ⟨hok.invoked, hok.clientid, fun ht => absurd ht (by simp [htype]),
          fun ht => absurd ht (by simp [htype])⟩ fun e' he' => by
            rw [hl] at he'
            cases he'
            rfl
      refine Good.send_one (Good.record (fun _ es _ hp => hp.mono es) (Good.start hs) ?_) ?_
      · rw [past_start]
        refine Serving.frame hunlock _ fun o request hg => ?_
        obtain ⟨view, reply, hmem, hstatus⟩ := hg
        refine ⟨view, reply, ?_, hstatus⟩
        simpa [replicaEnv] using hmem
      · obtain ⟨hsrc, request, hinv, ht⟩ := hp
        exact ⟨hsrc, .inr ⟨request, hinv.mono _, ht⟩⟩

/-- **A lock is executed.** It is granted only where the key is free or the client's own, and no
lock is taken away. -/
theorem Serving.execute (hs : Serving h i s) (hnew : s.record.lookup opid = none)
    (htype : request.type = true) (hid : request.clientid = opid.1)
    (hinv : Invoked h opid.1 opid.2 request) (he : e.request = request)
    (hstate : e.state = .tentative) (hresult : e.result = (s.app.execConsensusUpcall request).1) :
    Serving (h ++ [(Node.replica i, Event.replica (.executed s.view opid request e.result))]) i
      { s with app := (s.app.execConsensusUpcall request).2
               record := s.record.insert opid e } := by
  set es : History :=
    [(Node.replica i, Event.replica (.executed s.view opid request e.result))] with hes
  have hgranted : ∀ o request', Granted (h ++ es) i o request' →
      Granted h i o request' ∨ o = opid ∧ request' = request ∧ e.result.status = 0 := by
    rintro o request' ⟨view, reply, hmem, hstatus⟩
    rcases List.mem_append.1 hmem with hold | hlast
    · exact .inl ⟨view, reply, hold, hstatus⟩
    · rw [hes, List.mem_singleton] at hlast
      cases hlast
      exact .inr ⟨rfl, rfl, hstatus⟩
  have hkept : ∀ k c, s.app.locks.lookup k = some c →
      (s.app.execConsensusUpcall request).2.locks.lookup k = some c := by
    intro k c hk
    unfold Server.execConsensusUpcall
    rw [htype]
    cases hl : s.app.locks.lookup request.key with
    | none =>
        show (s.app.locks.insert request.key request.clientid).lookup k = some c
        have hne : k ≠ request.key := by
          rintro rfl
          rw [hl] at hk
          cases hk
        rw [Table.lookup_insert_eq, if_neg hne]
        exact hk
    | some holder => exact hk
  refine ⟨fun o e' he' => ?_, fun o request' hg => ?_, fun o request' hg => ?_⟩
  · rw [Table.lookup_insert_eq] at he'
    split_ifs at he' with ho
    · cases he'
      subst ho he
      refine ⟨hinv.mono es, hid, fun _ _ hstatus => ?_, fun _ hfin => ?_⟩
      · exact ⟨s.view, e.result, List.mem_append_right _ (by simp [hes]), hstatus⟩
      · rw [hstate] at hfin
        cases hfin
    · exact (hs.entries o e' he').mono es
  · rw [Table.lookup_insert_eq]
    rcases hgranted o request' hg with hold | ⟨rfl, rfl, _⟩
    · obtain ⟨ht, e', he', hr⟩ := hs.recorded o request' hold
      have hne : o ≠ opid := by
        rintro rfl
        rw [hnew] at he'
        cases he'
      rw [if_neg hne]
      exact ⟨ht, e', he', hr⟩
    · rw [if_pos rfl]
      exact ⟨htype, e, rfl, he⟩
  · rcases hgranted o request' hg with hold | ⟨rfl, rfl, hstatus⟩
    · rcases hs.locked o request' hold with hlock | ⟨r', hlt, hi⟩
      · exact .inl (hkept _ _ hlock)
      · exact .inr ⟨r', hlt, hi.mono es⟩
    · left
      rw [hresult] at hstatus
      unfold Server.execConsensusUpcall at hstatus ⊢
      rw [htype] at hstatus ⊢
      cases hl : s.app.locks.lookup request'.key with
      | none =>
          show (s.app.locks.insert request'.key request'.clientid).lookup request'.key = some o.1
          rw [Table.lookup_insert_eq, if_pos rfl, hid]
      | some holder =>
          simp only [hl] at hstatus
          split_ifs at hstatus with hown
          show s.app.locks.lookup request'.key = some o.1
          rw [hl, hown, hid]

theorem handleProposeConsensus_good (hi : i < cfg.n) (hs : Serving h i s)
    (hp : PacketOk cfg h ⟨remote, dst, .proposeConsensus opid request⟩)
    (hid : request.clientid = opid.1)
    (huniq : ∀ request', Invoked h opid.1 opid.2 request' → request' = request) :
    Prog.wp (Replica.handleProposeConsensus (replicaEnv cfg iterate i) remote opid request)
      (fun _ => ReplicaGood cfg h i) (ReplicaGood cfg h i) { state := s } := by
  obtain ⟨hsrc, hinv, htype⟩ := hp
  simp only [Replica.handleProposeConsensus, wp_bind, wp_read]
  cases hl : s.record.lookup opid with
  | some entry =>
      simp only [Replica.reply, wp_send]
      refine Good.send_one (Good.start hs) ?_
      rw [past_start]
      have hok := hs.entries opid entry hl
      have ht : entry.request.type = true := by
        rw [huniq _ hok.invoked]
        exact htype
      refine ⟨hsrc, hi, fun hfin => ?_, fun hfin hstatus => ?_⟩
      · exact hok.finalized ht (of_decide_eq_true hfin)
      · refine ⟨entry.request, hok.invoked, hok.tentative ht ?_ hstatus⟩
        cases hstate : entry.state with
        | tentative => rfl
        | finalized =>
            rw [hstate] at hfin
            cases hfin
  | none =>
      simp only [Replica.reply, Replica.addEntry, wp_bind, wp_read, wp_update, wp_send, wp_emit]
      refine Good.send_one (Good.record (fun _ es _ hp => hp.mono es) (Good.start hs) ?_) ?_
      · rw [past_start]
        exact hs.execute (e := { view := s.view
                                 opid := opid
                                 state := .tentative
                                 type := .consensus
                                 request := request
                                 result := (s.app.execConsensusUpcall request).1 })
          hl htype hid hinv rfl rfl rfl
      · refine ⟨hsrc, hi, (fun h => by cases h), fun _ hstatus => ?_⟩
        exact ⟨request, hinv.mono _, _, _, mem_past_emit _, hstatus⟩

theorem handleFinalizeConsensus_good {result : Reply} (hs : Serving h i s)
    (hp : PacketOk cfg h ⟨remote, dst, .finalizeConsensus opid result⟩) :
    Prog.wp (Replica.handleFinalizeConsensus (replicaEnv cfg iterate i) remote opid result)
      (fun _ => ReplicaGood cfg h i) (ReplicaGood cfg h i) { state := s } := by
  obtain ⟨hsrc, hfin⟩ := hp
  simp only [Replica.handleFinalizeConsensus, wp_bind, wp_read]
  cases hl : s.record.lookup opid with
  | none => exact Good.start hs
  | some entry =>
      simp only [Replica.reply, Replica.addEntry, wp_bind, wp_read, wp_update, wp_send, wp_emit]
      have hok := hs.entries opid entry hl
      refine Good.send_one (Good.record (fun _ es _ hp => hp.mono es) (Good.start hs) ?_) ?_
      · rw [past_start]
        have hadd := hs.addEntry
          (e := { entry with opid := opid, state := .finalized, result := result })
          ⟨hok.invoked, hok.clientid, (fun _ h => by cases h), fun _ _ => hfin⟩ fun e' he' => by
            rw [hl] at he'
            cases he'
            rfl
        refine hadd.frame _ fun o request hg => ?_
        obtain ⟨view, reply, hmem, hstatus⟩ := hg
        refine ⟨view, reply, ?_, hstatus⟩
        simpa [replicaEnv] using hmem
      · exact ⟨hsrc, .inl (hfin.mono _)⟩

/-- **The step of a replica.** Requests are numbered by their clients. -/
theorem replica_good {p : Packet Node (Msg Request Reply)} (hi : i < cfg.n) (hs : Serving h i s)
    (hp : PacketOk cfg h p)
    (hid : ∀ c r request, Invoked h c r request → request.clientid = c)
    (huniq : ∀ c r request request', Invoked h c r request → Invoked h c r request' →
      request = request')
    (hcare : ∀ opid, p.msg = .finalizeInconsistent opid → overtaken s opid = false) :
    Prog.wp (Replica.handleMessage (replicaEnv cfg iterate i) p.src p.msg)
      (fun _ => ReplicaGood cfg h i) (ReplicaGood cfg h i) { state := s } := by
  obtain ⟨src, dst, msg⟩ := p
  cases msg with
  | proposeInconsistent opid request =>
      exact handleProposeInconsistent_good hs hp (hid _ _ _ hp.2.1)
  | finalizeInconsistent opid =>
      refine handleFinalizeInconsistent_good hs hp (fun request' hinv' => ?_) (hcare opid rfl)
      obtain ⟨_, request, hinv, ht⟩ := hp
      rw [huniq _ _ _ _ hinv' hinv]
      exact ht
  | proposeConsensus opid request =>
      exact handleProposeConsensus_good hi hs hp (hid _ _ _ hp.2.1) fun request' hinv' =>
        huniq _ _ _ _ hinv' hp.2.1
  | finalizeConsensus opid result => exact handleFinalizeConsensus_good hs hp
  | doViewChange m => exact hp.elim
  | startView record view => exact hp.elim
  | replyInconsistent view j opid finalized => exact Good.start hs
  | replyConsensus view j opid result finalized => exact Good.start hs
  | confirm view j opid => exact Good.start hs

end Replica

end D2PC.Ir.LockService
