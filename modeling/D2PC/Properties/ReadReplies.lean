import D2PC.System

/-!
# Replies and the requests they are for

A client by itself, with an environment that answers its requests at any time, with anything,
any number of times or never. The replies carry the transaction but no request number: what
the client does with one depends on the request that happens to be pending.

* `Arrival`, `Session` : what reaches a client, and a client with all that reached it;
* `Arrival.Timely` : while a request is pending, only a reply to the last request arrives;
* `reads_answered_by_own_request` : in every run with timely replies a read is answered with
  the reply to a request for its keys, and a reply of the wrong kind changes nothing;
* `late_read_reply` : a late reply answers another read, or kills the client.
-/

namespace D2PC

open Prog Ctx

namespace Client

/-! ### A client and its environment -/

/-- What reaches a client. A reply to a read or to a prepare was produced for a request, given
by its number among the packets the client sent. -/
inductive Arrival where
  | act (a : Action)
  | getDataReply (s : Shard) (request : ℕ) (m : GetDataReply)
  | prepareReply (s : Shard) (request : ℕ) (m : PrepareTransactionReply)
  | parallelModeCommitReply (s : Shard) (m : ParallelModeCommitReply)

/-- What the client does with it. The number of the request is not in the message. -/
def Arrival.handle (env : ClientEnv) (ω : Choice) : Arrival → ClientM Unit
  | .act a => handleAction env ω a
  | .getDataReply s _ m => handleMessage env ω s (.getDataReply m)
  | .prepareReply s _ m => handleMessage env ω s (.prepareTransactionReply m)
  | .parallelModeCommitReply s m => handleMessage env ω s (.parallelModeCommitReply m)

/-- A `GetData` for these keys at the shard. -/
def AsksData (s : Shard) (keys : List Key) (q : Packet Addr Msg) : Prop :=
  ∃ i g, q.dst = .replica s i ∧ q.msg = .getData g ∧ g.keys = keys

/-- A `PrepareTransaction` at the shard. -/
def AsksVote (s : Shard) (q : Packet Addr Msg) : Prop :=
  ∃ i m, q.dst = .replica s i ∧ q.msg = .prepareTransaction m

/-- Replies are produced for requests that were sent. -/
def Arrival.Produced (sent : List (Packet Addr Msg)) : Arrival → Prop
  | .getDataReply s request _ => ∃ q keys, sent[request]? = some q ∧ AsksData s keys q
  | .prepareReply s request _ => ∃ q, sent[request]? = some q ∧ AsksVote s q
  | _ => True

/-- Since a request was sent, the client sent no other to the shard. -/
def Latest (sent : List (Packet Addr Msg)) (s : Shard) (request : ℕ) : Prop :=
  ∀ later q, request < later → sent[later]? = some q →
    (∀ keys, ¬ AsksData s keys q) ∧ ¬ AsksVote s q

/-- A reply to a read is handled only if it is for the last request sent to the shard, or if no
request is pending there. -/
def Arrival.Timely (x : Ctx Client Addr Msg Event) : Arrival → Prop
  | .getDataReply s request _ =>
      (x.state.pendingReqs.lookup s).isSome → Latest x.sent s request
  | _ => True

/-- A client with all it has sent, and all that has reached it. -/
structure Session where
  ctx : Ctx Client Addr Msg Event := { state := {} }
  arrived : List Arrival := []

/-- The runs of a client in which all that arrives meets the condition `C`. A client that died
does not go on. -/
inductive Session.Reach (env : ClientEnv) (C : Ctx Client Addr Msg Event → Arrival → Prop) :
    Session → Prop
  | start : Session.Reach env C {}
  | step {w : Session} (hw : Session.Reach env C w) (ω : Choice) (i : Arrival)
      (hproduced : i.Produced w.ctx.sent) (hcond : C w.ctx i) {x : Ctx Client Addr Msg Event}
      (hdone : i.handle env ω w.ctx = .done () x) :
      Session.Reach env C { ctx := x, arrived := w.arrived ++ [i] }

/-- What a reply hands to the continuation of a read. -/
def handedOver (m : GetDataReply) : Timestamp × Value :=
  match m.keys with
  | [] => ({}, "")
  | v :: _ => (⟨v.timestamp, 0⟩, v.value)

/-- The application called `MultiGet`, which asks with one promise after the other. -/
def Session.Multi (w : Session) : Prop := ∃ keys, .act (.multiGet keys) ∈ w.arrived

/-- The answer in a promise comes from a reply that was produced for a request for these keys. A
reply without versions leaves a promise of `MultiGet` the value it has. -/
def Given (w : Session) (s : Shard) (keys : List Key) (p : Promise) : Prop :=
  ∃ request m q, .getDataReply s request m ∈ w.arrived ∧ w.ctx.sent[request]? = some q ∧
    AsksData s keys q ∧ p.timestamp = (handedOver m).1 ∧
    (p.value = (handedOver m).2 ∨ m.keys = [] ∧ w.Multi)

/-- A reply of the other kind than the pending request. -/
def Arrival.Mismatch (c : Client) : Arrival → Prop
  | .getDataReply s _ _ => ∃ req, c.pendingReqs.lookup s = some (.prepare req)
  | .prepareReply s _ _ => c.pendingReqs.lookup s = some .getData
  | _ => False

/-! ### The invariant -/

/-- No request is queued or pending. -/
structure Quiet (c : Client) : Prop where
  tasks : c.tasks = []
  requests : ∀ s, c.pendingReqs.lookup s = none

/-- No vote has been asked for yet, and no outcome. -/
structure Before (x : Ctx Client Addr Msg Event) : Prop where
  votes : ∀ q ∈ x.sent, ∀ s, ¬ AsksVote s q
  outcome : ∀ s, x.state.pendingParallelCommits.lookup s = none

/-- A promise that waits for an answer. -/
structure Open (w : Session) (p : Promise) : Prop where
  waits : p.done = false
  blank : p.value = "" ∨ w.Multi

/-- A read: handed to the transport thread, sent, or no longer pending. -/
inductive Reading (w : Session) (s : Shard) (keys : List Key) : Prop
  | queued (a : ℕ) (htasks : w.ctx.state.tasks = [.get s keys a])
      (hreqs : ∀ s', w.ctx.state.pendingReqs.lookup s' = none)
      (hopen : ∀ p, w.ctx.state.promise = some p → Open w p)
  | sent (htasks : w.ctx.state.tasks = [])
      (honly : ∀ s' req, w.ctx.state.pendingReqs.lookup s' = some req → s' = s ∧ req = .getData)
      (hlast : ∃ request q, w.ctx.sent[request]? = some q ∧ AsksData s keys q ∧
        Latest w.ctx.sent s request)
      (hopen : ∀ p, w.ctx.state.promise = some p → Open w p)
  | answered (hquiet : Quiet w.ctx.state)
      (hgiven : ∀ p, w.ctx.state.promise = some p → p.done = true →
        p.reply = replyTimeout ∨ Given w s keys p)

/-- After the reads: votes are asked for, and were asked for where one is pending. -/
structure Voting (x : Ctx Client Addr Msg Event) : Prop where
  tasks : ∀ t ∈ x.state.tasks, ∀ s keys a, t ≠ .get s keys a
  requests : ∀ s, x.state.pendingReqs.lookup s ≠ some .getData
  asked : ∀ s req, x.state.pendingReqs.lookup s = some (.prepare req) → ∃ q ∈ x.sent, AsksVote s q
  order : x.sent.Pairwise fun q q' => ∀ s s' keys, AsksVote s q → ¬ AsksData s' keys q'

/-- **The invariant** of a client. -/
def Orderly (w : Session) : Prop :=
  match w.ctx.state.phase with
  | .running => Before w.ctx ∧ Quiet w.ctx.state
  | .reading s keys _ rest => Before w.ctx ∧ Reading w s keys ∧ (rest ≠ [] → w.Multi)
  | .preparing _ | .finished => Voting w.ctx

variable {w : Session} {x : Ctx Client Addr Msg Event} {arr : List Arrival} {s : Shard}
variable {keys : List Key} {env : ClientEnv} {ω : Choice}

theorem Session.Multi.mono {x' : Ctx Client Addr Msg Event} {arr' : List Arrival}
    (h : Session.Multi ⟨x, arr⟩) (harr : ∀ i ∈ arr, i ∈ arr') : Session.Multi ⟨x', arr'⟩ := by
  obtain ⟨keys, hkeys⟩ := h
  exact ⟨keys, harr _ hkeys⟩

theorem Given.mono {p : Promise} {x' : Ctx Client Addr Msg Event} {arr' : List Arrival}
    (h : Given ⟨x, arr⟩ s keys p) (hsent : x'.sent = x.sent) (harr : ∀ i ∈ arr, i ∈ arr') :
    Given ⟨x', arr'⟩ s keys p := by
  obtain ⟨request, m, q, hm, hq, hdata, hstamp, hvalue⟩ := h
  refine ⟨request, m, q, harr _ hm, ?_, hdata, hstamp, hvalue.imp_right fun h =>
    ⟨h.1, h.2.mono harr⟩⟩
  rw [hsent]
  exact hq

theorem Open.mono {p : Promise} {x' : Ctx Client Addr Msg Event} {arr' : List Arrival}
    (h : Open ⟨x, arr⟩ p) (harr : ∀ i ∈ arr, i ∈ arr') : Open ⟨x', arr'⟩ p :=
  ⟨h.waits, h.blank.imp_right fun hm => hm.mono harr⟩

/-- One more arrival, before it is handled. -/
theorem Orderly.arrive (h : Orderly ⟨x, arr⟩) (i : Arrival) : Orderly ⟨x, arr ++ [i]⟩ := by
  unfold Orderly at h ⊢
  cases hphase : x.state.phase with
  | reading s keys record rest =>
      simp only [hphase] at h ⊢
      have harr : ∀ j ∈ arr, j ∈ arr ++ [i] := fun j hj => List.mem_append_left _ hj
      refine ⟨h.1, ?_, fun hrest => (h.2.2 hrest).mono harr⟩
      cases h.2.1 with
      | queued a htasks hreqs hopen =>
          exact .queued a htasks hreqs fun p hp => (hopen p hp).mono harr
      | sent htasks honly hlast hopen =>
          exact .sent htasks honly hlast fun p hp => (hopen p hp).mono harr
      | answered hquiet hgiven =>
          refine .answered hquiet fun p hp hdone => (hgiven p hp hdone).imp_right fun h => ?_
          exact h.mono rfl harr
  | running => simpa only [hphase] using h
  | preparing k => simpa only [hphase] using h
  | finished => simpa only [hphase] using h

/-- Only the last request is pending. -/
theorem Latest.unique {sent : List (Packet Addr Msg)} {r r' : ℕ} {q q' : Packet Addr Msg}
    {keys' : List Key} (h : Latest sent s r) (h' : Latest sent s r') (hq : sent[r]? = some q)
    (hq' : sent[r']? = some q') (hdata : AsksData s keys q) (hdata' : AsksData s keys' q') :
    r = r' := by
  rcases Nat.lt_trichotomy r r' with hlt | heq | hlt
  · exact absurd hdata' ((h r' q' hlt hq').1 keys')
  · exact heq
  · exact absurd hdata ((h' r q hlt hq).1 keys)

/-! ### Replies and timeouts -/

/-- A read request is pending only while the application reads, and it is the last request. -/
theorem Orderly.getData_pending (h : Orderly ⟨x, arr⟩)
    (hreq : x.state.pendingReqs.lookup s = some .getData) :
    ∃ keys record rest, x.state.phase = .reading s keys record rest ∧ Before x ∧
      x.state.tasks = [] ∧ (∀ s' req, x.state.pendingReqs.lookup s' = some req → s' = s) ∧
      (∃ request q, x.sent[request]? = some q ∧ AsksData s keys q ∧ Latest x.sent s request) ∧
      (∀ p, x.state.promise = some p → Open ⟨x, arr⟩ p) ∧
      (rest ≠ [] → Session.Multi ⟨x, arr⟩) := by
  unfold Orderly at h
  cases hphase : x.state.phase with
  | running =>
      simp only [hphase] at h
      rw [h.2.requests s] at hreq
      cases hreq
  | reading s₀ keys record rest =>
      simp only [hphase] at h
      cases h.2.1 with
      | queued a htasks hreqs hopen =>
          rw [show x.state.pendingReqs.lookup s = none from hreqs s] at hreq
          cases hreq
      | sent htasks honly hlast hopen =>
          obtain ⟨rfl, _⟩ := honly s _ hreq
          exact ⟨keys, record, rest, rfl, h.1, htasks, fun s' req hs' => (honly s' req hs').1, hlast,
            hopen, h.2.2⟩
      | answered hquiet hgiven =>
          rw [show x.state.pendingReqs.lookup s = none from hquiet.requests s] at hreq
          cases hreq
  | preparing k =>
      simp only [hphase] at h
      exact absurd hreq (h.requests s)
  | finished =>
      simp only [hphase] at h
      exact absurd hreq (h.requests s)

/-- The pending read is answered with `f`. -/
theorem answerRead_orderly (h : Orderly ⟨x, arr⟩)
    (hreq : x.state.pendingReqs.lookup s = some .getData) {f : Promise → Promise}
    (hf : ∀ keys record rest, x.state.phase = .reading s keys record rest → ∀ p,
      Open ⟨x, arr⟩ p → (f p).reply = replyTimeout ∨ Given ⟨x, arr⟩ s keys (f p)) :
    wp (do
      erasePendingReq s
      replyGet ω s f) (fun _ x' => Orderly ⟨x', arr⟩) (fun _ => True) x := by
  obtain ⟨keys, record, rest, hphase, hbefore, htasks, honly, _, hopen, hrest⟩ :=
    h.getData_pending hreq
  have hnone : ∀ s', (x.state.pendingReqs.erase s).lookup s' = none := by
    intro s'
    rw [Table.lookup_erase_eq]
    split_ifs with heq
    · rfl
    · cases hs' : x.state.pendingReqs.lookup s' with
      | none => rfl
      | some req => exact absurd (honly s' req hs') heq
  simp only [erasePendingReq, replyGet, wp_bind, wp_update, wp_read]
  split
  · simp only [clearWaiting, wp_update, Orderly, hphase]
    refine ⟨⟨hbefore.votes, hbefore.outcome⟩, .answered ⟨htasks, hnone⟩ fun p hp hdone => ?_, hrest⟩
    rw [(hopen p hp).waits] at hdone
    cases hdone
  · rename_i p hp
    simp only [clearWaiting, setPromise, wp_bind, wp_update, Orderly, hphase]
    have hwaits : Open ⟨x, arr⟩ p := hopen p (waitingOn_promise hp)
    refine ⟨⟨hbefore.votes, hbefore.outcome⟩, .answered ⟨htasks, hnone⟩ fun p' hp' _ => ?_, hrest⟩
    cases hp'
    exact (hf keys record rest hphase p hwaits).imp_right fun h => h.mono rfl fun _ hi => hi

/-- **A timely reply** to a read was produced for the read that is pending. -/
theorem handleGetDataReply_orderly {request : ℕ} {m : GetDataReply} (h : Orderly ⟨x, arr⟩)
    (harr : .getDataReply s request m ∈ arr)
    (hproduced : (Arrival.getDataReply s request m).Produced x.sent)
    (htimely : (Arrival.getDataReply s request m).Timely x) :
    wp (handleGetDataReply ω s m) (fun _ x' => Orderly ⟨x', arr⟩) (fun _ => True) x := by
  simp only [handleGetDataReply, wp_bind, wp_read]
  cases hreq : x.state.pendingReqs.lookup s with
  | none => exact h
  | some req =>
      cases req with
      | prepare req => trivial
      | getData =>
          apply answerRead_orderly h hreq
          intro keys record rest hphase p hopen
          right
          obtain ⟨keys', _, _, hphase', _, _, _, ⟨r, q, hq, hdata, hlatest⟩, _, _⟩ :=
            h.getData_pending hreq
          rw [hphase] at hphase'
          cases hphase'
          obtain ⟨q', keys', hq', hdata'⟩ := hproduced
          have heq : request = r :=
            (htimely (by rw [hreq]; rfl)).unique hlatest hq' hq hdata' hdata
          rw [heq] at hq'
          rw [hq] at hq'
          cases hq'
          refine ⟨request, m, q, harr, by rw [heq]; exact hq, hdata, ?_⟩
          unfold handedOver
          cases m.keys with
          | nil => exact ⟨rfl, hopen.blank.imp_right fun h => ⟨rfl, h⟩⟩
          | cons v vs => exact ⟨rfl, .inl rfl⟩

theorem getDateTimeoutCallback_orderly (h : Orderly ⟨x, arr⟩) :
    wp (getDateTimeoutCallback ω s) (fun _ x' => Orderly ⟨x', arr⟩) (fun _ => True) x := by
  simp only [getDateTimeoutCallback, wp_bind, wp_read]
  split
  · rename_i hreq
    exact answerRead_orderly h hreq fun _ _ _ _ _ _ => .inl rfl
  · exact h

/-! ### After the reads -/

/-- After the reads, in a phase with property `P`. -/
structure Past (P : Phase → Prop) (x : Ctx Client Addr Msg Event) : Prop where
  phase : P x.state.phase
  voting : Voting x

/-- A client asks for votes, or has finished. -/
def Phase.Late (p : Phase) : Prop := p = .finished ∨ ∃ k, p = .preparing k

abbrev Settled : Ctx Client Addr Msg Event → Prop := Past Phase.Late

theorem Settled.orderly (h : Settled x) : Orderly ⟨x, arr⟩ := by
  unfold Orderly
  rcases h.phase with hp | ⟨k, hp⟩
  · simp only [hp]
    exact h.voting
  · simp only [hp]
    exact h.voting

/-- What the phase does not exclude is only there after the reads. -/
theorem Orderly.settled (h : Orderly ⟨x, arr⟩) (hrunning : Before x → Quiet x.state → False)
    (hreading : ∀ s keys, Before x → Reading ⟨x, arr⟩ s keys → False) : Settled x := by
  unfold Orderly at h
  cases hphase : x.state.phase with
  | running =>
      simp only [hphase] at h
      exact (hrunning h.1 h.2).elim
  | reading s₀ keys record rest =>
      simp only [hphase] at h
      exact (hreading s₀ keys h.1 h.2.1).elim
  | preparing k =>
      simp only [hphase] at h
      exact ⟨.inr ⟨k, hphase⟩, h⟩
  | finished =>
      simp only [hphase] at h
      exact ⟨.inl hphase, h⟩

/-- A vote is pending only after the reads. -/
theorem Orderly.prepare_pending (h : Orderly ⟨x, arr⟩) {req : LRClient.PendingPrepare}
    (hreq : x.state.pendingReqs.lookup s = some (.prepare req)) : Settled x := by
  refine h.settled (fun _ hquiet => ?_) fun s₀ keys _ hread => ?_
  · rw [hquiet.requests s] at hreq
    cases hreq
  · cases hread with
    | queued a htasks hreqs hopen =>
        rw [show x.state.pendingReqs.lookup s = none from hreqs s] at hreq
        cases hreq
    | sent htasks honly hlast hopen => cases (honly s _ hreq).2
    | answered hquiet hgiven =>
        rw [show x.state.pendingReqs.lookup s = none from hquiet.requests s] at hreq
        cases hreq

/-- The outcome is awaited only after the reads. -/
theorem Orderly.outcome_pending (h : Orderly ⟨x, arr⟩) {participants : List Shard}
    (hreq : x.state.pendingParallelCommits.lookup s = some participants) : Settled x := by
  refine h.settled (fun hbefore _ => ?_) fun s₀ keys hbefore _ => ?_
  · rw [hbefore.outcome s] at hreq
    cases hreq
  · rw [hbefore.outcome s] at hreq
    cases hreq

theorem Voting.prepared (h : Voting x) {req : LRClient.PendingRequest}
    (hs : x.state.pendingReqs.lookup s = some req) :
    req ≠ .getData ∧ ∃ req', x.state.pendingReqs.lookup s = some (.prepare req') := by
  cases req with
  | getData => exact absurd hs (h.requests s)
  | prepare req => exact ⟨(fun h => by cases h), req, hs⟩

/-- No read is added to the tasks, and requests are dropped or stay of the kind they are. -/
theorem Voting.update (h : Voting x) {c : Client}
    (htasks : ∀ t ∈ c.tasks, t ∉ x.state.tasks → ∀ s keys a, t ≠ .get s keys a)
    (hreqs : ∀ s req, c.pendingReqs.lookup s = some req → req ≠ .getData ∧
      ∃ req', x.state.pendingReqs.lookup s = some (.prepare req')) :
    Voting { x with state := c } := by
  refine ⟨fun t ht => ?_, fun s hs => (hreqs s _ hs).1 rfl, fun s req hs => ?_, h.order⟩
  · by_cases hold : t ∈ x.state.tasks
    · exact h.tasks t hold
    · exact htasks t ht hold
  · obtain ⟨req', hold⟩ := (hreqs s _ hs).2
    exact h.asked s req' hold

section Past

variable {P : Phase → Prop}

/-- What is not a task, a request or a packet does not matter. -/
theorem Past.frame {f : Client → Client} (hphase : ∀ c, P c.phase → P (f c).phase)
    (htasks : ∀ c, (f c).tasks = c.tasks) (hreqs : ∀ c, (f c).pendingReqs = c.pendingReqs) :
    Keeps (Past P) (update f : ClientM Unit) := by
  intro x h
  rw [wp_update]
  refine ⟨hphase _ h.phase, h.voting.update ?_ ?_⟩
  · rw [htasks]
    exact fun t ht hnew => absurd ht hnew
  · rw [hreqs]
    exact fun s req hs => h.voting.prepared hs

/-- A vote or an outcome is to be asked for. -/
theorem Past.addTask {t : Promise → Task} (ht : ∀ p s keys a, t p ≠ .get s keys a) :
    Keeps (Past P) (addTask t) := by
  intro x h
  rw [Client.addTask, wp_update]
  refine ⟨h.phase, h.voting.update (fun t' ht' hnew => ?_) fun s req hs => h.voting.prepared hs⟩
  rcases List.mem_append.1 ht' with hold | hmem
  · exact absurd hold hnew
  · obtain ⟨p, _, rfl⟩ := List.mem_map.1 hmem
    exact ht p

theorem Past.erasePendingReq : Keeps (Past P) (erasePendingReq s) := by
  intro x h
  rw [Client.erasePendingReq, wp_update]
  refine ⟨h.phase, h.voting.update (fun t ht hnew => absurd ht hnew) fun s' req hs' => ?_⟩
  simp only [Table.lookup_erase_eq] at hs'
  split_ifs at hs'
  exact h.voting.prepared hs'

/-- Nothing is read any more. -/
theorem Past.send {qs : List (Packet Addr Msg)} (hqs : ∀ q ∈ qs, ∀ s keys, ¬ AsksData s keys q) :
    Keeps (Past P) (send qs : ClientM Unit) := by
  intro x h
  rw [wp_send]
  refine ⟨h.phase, h.voting.tasks, h.voting.requests, fun s req hs => ?_, ?_⟩
  · obtain ⟨q, hq, hvote⟩ := h.voting.asked s req hs
    exact ⟨q, List.mem_append_left _ hq, hvote⟩
  · refine List.pairwise_append.2 ⟨h.voting.order, ?_, fun q _ q' hq' _ s' keys _ => hqs q' hq' s' keys⟩
    exact List.pairwise_of_forall_mem_list fun q _ q' hq' _ s' keys _ => hqs q' hq' s' keys

theorem Past.emit (e : Event) : Keeps (Past P) (emit e : ClientM Unit) :=
  fun _ h => ⟨h.phase, h.voting.tasks, h.voting.requests, h.voting.asked, h.voting.order⟩

theorem Past.setPromise (p : Promise) : Keeps (Past P) (setPromise p) :=
  Past.frame (fun _ h => h) (fun _ => rfl) fun _ => rfl

theorem Past.clearWaiting (s : Shard) : Keeps (Past P) (clearWaiting s) :=
  Past.frame (fun _ h => h) (fun _ => rfl) fun _ => rfl

theorem Past.modifyBuffer (s : Shard) (f : Transaction → Transaction) :
    Keeps (Past P) (modifyBuffer env s f) :=
  Past.frame (fun _ h => h) (fun _ => rfl) fun _ => rfl

theorem Past.newPromise (n : ℕ) : Keeps (Past P) (newPromise n) :=
  Past.frame (fun _ h => h) (fun _ => rfl) fun _ => rfl

theorem Past.replyGet (f : Promise → Promise) : Keeps (Past P) (replyGet ω s f) := by
  refine .bind (.gets _) fun o => ?_
  cases o with
  | none => exact Past.clearWaiting s
  | some p => exact .bind (Past.clearWaiting s) fun _ => Past.setPromise _

theorem Past.prepareCallback (shard : Shard) (state timestamp : ℕ) :
    Keeps (Past P) (prepareCallback env ω s shard state timestamp) := by
  refine .bind (.gets _) fun o => ?_
  cases o with
  | none => exact .pure _
  | some p =>
      refine .ite (.pure _) (.ite ?_ (Past.setPromise _))
      exact .bind (Past.clearWaiting s) fun _ => Past.setPromise _

/-! ### Asking for votes -/

theorem Past.addPrepareTask (s : Shard) : Keeps (Past P) (addPrepareTask env s) :=
  .bind (.gets _) fun _ => Past.addTask fun _ _ _ _ h => by cases h

theorem Past.addParallelTask (s : Shard) : Keeps (Past P) (addParallelTask env s) :=
  .bind (.gets _) fun _ => Past.addTask fun _ _ _ _ h => by cases h

theorem Past.prepareAtPrimary (participants : List Shard) (primary : Shard) :
    Keeps (Past P) (prepareAtPrimary env participants primary) := by
  refine .bind (Past.modifyBuffer _ _) fun _ => .bind (.forM fun p _ => ?_) fun _ =>
    .bind (Past.modifyBuffer _ _) fun _ => Past.addPrepareTask _
  refine .bind (.gets _) fun txn => .bind (.forM fun r _ => Past.modifyBuffer _ _) fun _ => ?_
  exact .forM fun w _ => Past.modifyBuffer _ _

theorem Past.prepareAtAll (participants : List Shard) (primary : Option Shard) :
    Keeps (Past P) (prepareAtAll env participants primary) := by
  refine .bind (.forM fun p _ => ?_) fun _ => .when (.bind (.deref _) fun p => ?_)
  · exact .bind (Past.modifyBuffer _ _) fun _ => .bind (Past.modifyBuffer _ _) fun _ =>
      .bind (Past.addPrepareTask _) fun _ => .when (Past.addParallelTask _)
  · exact .bind (Past.modifyBuffer _ _) fun _ => Past.addParallelTask _

theorem Past.prepare : Keeps (Past P) (prepare env) := by
  refine .bind (.gets _) fun participants => .bind (Past.newPromise _) fun _ => .ite ?_ (.ite ?_ ?_)
  · exact .bind (.deref _) fun p => .bind (Past.prepareAtPrimary _ _) fun _ => .pure _
  · exact .pure _
  · exact .bind (Past.prepareAtAll _ _) fun _ => .pure _

/-- The outcome is sent, and the client has finished. -/
theorem Past.invokeCommit (h : Past P x) (state : LogEntryState) :
    wp (invokeCommit env state) (fun _ => Settled) (fun _ => True) x := by
  rw [Client.invokeCommit, wp_bind, wp_read, wp_bind]
  have hbody : ∀ p ∈ x.state.participants, Keeps (Past P) (do
      Client.clearWaiting p
      sendMessageToReplica env p (env.cfg.leader p)
        (.commit { tid := env.tid, state := state })) := by
    refine fun p _ => .bind (Past.clearWaiting p) fun _ => Past.send fun q hq s keys hdata => ?_
    obtain ⟨_, _, _, hmsg, _⟩ := hdata
    rw [List.mem_singleton.1 hq] at hmsg
    cases hmsg
  refine wp_mono (fun _ x' hx' => ?_) (fun _ _ => trivial) (Keeps.forM hbody x h)
  exact ⟨.inl rfl, hx'.voting.tasks, hx'.voting.requests, hx'.voting.asked, hx'.voting.order⟩

theorem Past.abort (h : Past P x) :
    wp (abort env) (fun _ => Settled) (fun _ => True) x := by
  rw [Client.abort, wp_bind]
  exact (Past.emit _ x h).invokeCommit _

theorem Past.finish (h : Past P x) (status : ℕ) :
    wp (finish env status) (fun _ => Settled) (fun _ => True) x := by
  rw [Client.finish, wp_ite, wp_bind]
  exact ⟨fun _ => Past.invokeCommit (Past.emit _ x h) _, fun _ => h.abort⟩

theorem Past.round (h : Past P x) (retryNum : ℕ) :
    wp (round env retryNum) (fun _ => Settled) (fun _ => True) x := by
  have hnow : Settled { x with state := { x.state with phase := .preparing retryNum } } :=
    ⟨.inr ⟨retryNum, rfl⟩, h.voting.tasks, h.voting.requests, h.voting.asked, h.voting.order⟩
  rw [Client.round, wp_bind, wp_update, wp_bind]
  refine wp_mono (fun status x' hx' => ?_) (fun _ _ => trivial) (Past.prepare _ hnow)
  cases status with
  | none => exact hx'
  | some status => exact hx'.finish status

end Past

theorem Before.past (h : Before x) (hquiet : Quiet x.state) : Past (fun _ => True) x := by
  refine ⟨trivial, ?_, ?_, ?_, ?_⟩
  · rw [hquiet.tasks]
    exact fun t ht => absurd ht List.not_mem_nil
  · intro s
    rw [hquiet.requests s]
    intro h
    cases h
  · intro s req hs
    rw [hquiet.requests s] at hs
    cases hs
  · exact List.pairwise_of_forall_mem_list fun q hq _ _ s _ _ hvote => absurd hvote (h.votes q hq s)

theorem commit_orderly (h : Before x) (hquiet : Quiet x.state) :
    wp (commit env) (fun _ x' => Orderly ⟨x', arr⟩) (fun _ => True) x := by
  have hcommit : wp (commit env) (fun _ => Settled) (fun _ => True) x := by
    rw [commit, wp_bind, wp_read, wp_bind, wp_read, wp_bind]
    exact Past.round (Past.emit _ x (h.past hquiet)) 0
  exact wp_mono (fun _ _ hx' => hx'.orderly) (fun _ hd => hd) hcommit

/-- A handler that runs after the reads. -/
theorem Settled.keep (h : Settled x) {y : ClientM Unit} (hy : Keeps Settled y) :
    wp y (fun _ x' => Orderly ⟨x', arr⟩) (fun _ => True) x :=
  wp_mono (fun _ _ hx' => hx'.orderly) (fun _ _ => trivial) (hy x h)

theorem handlePrepareTxnReply_orderly (h : Orderly ⟨x, arr⟩) (m : PrepareTransactionReply) :
    wp (handlePrepareTxnReply env ω s m) (fun _ x' => Orderly ⟨x', arr⟩) (fun _ => True) x := by
  simp only [handlePrepareTxnReply, respond, wp_bind, wp_read]
  cases hreq : x.state.pendingReqs.lookup s with
  | none => exact h
  | some req =>
      cases req with
      | getData => trivial
      | prepare req =>
          have hsettled := h.prepare_pending hreq
          cases hcollect : collectReply env req m with
          | mk answered req' =>
              cases answered with
              | true =>
                  simp only [hcollect]
                  exact hsettled.keep (.bind (Past.prepareCallback _ _ _) fun _ =>
                    Past.erasePendingReq)
              | false =>
                  simp only [hcollect, wp_update]
                  refine Settled.orderly ⟨hsettled.phase, hsettled.voting.update
                    (fun t ht hnew => absurd ht hnew) fun s' req'' hs' => ?_⟩
                  simp only [Table.lookup_insert_eq] at hs'
                  split_ifs at hs' with heq
                  · cases hs'
                    rw [heq]
                    exact ⟨(fun h => by cases h), req, hreq⟩
                  · exact hsettled.voting.prepared hs'

theorem handleParallelModeCommitReply_orderly (h : Orderly ⟨x, arr⟩)
    (m : ParallelModeCommitReply) :
    wp (handleParallelModeCommitReply ω s m) (fun _ x' => Orderly ⟨x', arr⟩) (fun _ => True) x := by
  simp only [handleParallelModeCommitReply, wp_bind, wp_read]
  cases hreq : x.state.pendingParallelCommits.lookup s with
  | none => exact h
  | some participants =>
      refine (h.outcome_pending hreq).keep (.bind (Past.frame ?_ ?_ ?_) fun _ =>
        .bind Past.erasePendingReq fun _ => Past.replyGet _)
      · exact fun _ hp => hp
      · exact fun _ => rfl
      · exact fun _ => rfl

theorem prepareTimeoutCallback_orderly (h : Orderly ⟨x, arr⟩) :
    wp (prepareTimeoutCallback ω s) (fun _ x' => Orderly ⟨x', arr⟩) (fun _ => True) x := by
  simp only [prepareTimeoutCallback, wp_bind, wp_read]
  split
  · rename_i hreq
    refine (h.prepare_pending hreq).keep (.bind Past.erasePendingReq fun _ => .bind (.gets _) ?_)
    intro o
    cases o with
    | none => exact .pure _
    | some p => exact Past.setPromise _
  · exact h

theorem parallelModeCommitTimeout_orderly (h : Orderly ⟨x, arr⟩) :
    wp (parallelModeCommitTimeout s) (fun _ x' => Orderly ⟨x', arr⟩) (fun _ => True) x := by
  cases hreq : x.state.pendingParallelCommits.lookup s with
  | none =>
      -- nothing is erased
      have hsame : x.state.pendingParallelCommits.erase s = x.state.pendingParallelCommits :=
        AList.ext (List.kerase_of_notMem_keys (AList.lookup_eq_none.1 hreq))
      rw [parallelModeCommitTimeout, wp_update, hsame]
      exact h
  | some participants =>
      exact (h.outcome_pending hreq).keep
        (Past.frame (fun _ hp => hp) (fun _ => rfl) fun _ => rfl)

/-! ### Tasks -/

/-- Votes are asked for, and a request is entered if they were. -/
theorem Settled.ask (h : Settled x) {c : Client} {qs : List (Packet Addr Msg)}
    (hphase : c.phase = x.state.phase) (htasks : c.tasks = x.state.tasks)
    (hqs : ∀ q ∈ qs, ∃ s, AsksVote s q)
    (hreqs : ∀ s' req, c.pendingReqs.lookup s' = some req →
      x.state.pendingReqs.lookup s' = some req ∨ (req ≠ .getData ∧ ∃ q ∈ qs, AsksVote s' q)) :
    Settled { x with state := c, sent := x.sent ++ qs } := by
  have hdata : ∀ q ∈ qs, ∀ s keys, ¬ AsksData s keys q := by
    rintro q hq s keys ⟨_, _, _, hmsg, _⟩
    obtain ⟨_, _, _, _, hmsg'⟩ := hqs q hq
    rw [hmsg] at hmsg'
    cases hmsg'
  have hsent := Past.send hdata x h
  rw [wp_send] at hsent
  refine ⟨?_, ?_, fun s' hs' => ?_, fun s' req hs' => ?_, hsent.voting.order⟩
  · rw [hphase]
    exact h.phase
  · rw [htasks]
    exact h.voting.tasks
  · rcases hreqs s' _ hs' with hold | ⟨hne, _⟩
    · exact h.voting.requests s' hold
    · exact hne rfl
  · rcases hreqs s' _ hs' with hold | ⟨_, q, hq, hvote⟩
    · exact hsent.voting.asked s' req hold
    · exact ⟨q, List.mem_append_right _ hq, hvote⟩

theorem Settled.invokePrepare (hn : 0 < env.cfg.n) (h : Settled x) (txn : Transaction) :
    wp (invokePrepare env ω s txn) (fun _ => Settled) (fun _ => True) x := by
  have hentered : ∀ {qs : List (Packet Addr Msg)} {req : LRClient.PendingPrepare},
      (∃ q ∈ qs, AsksVote s q) → ∀ s' req', (x.state.pendingReqs.insert s (.prepare req)).lookup s' =
        some req' → x.state.pendingReqs.lookup s' = some req' ∨
          (req' ≠ .getData ∧ ∃ q ∈ qs, AsksVote s' q) := by
    intro qs req hasked s' req' hs'
    rw [Table.lookup_insert_eq] at hs'
    split_ifs at hs' with heq
    · cases hs'
      rw [heq]
      exact .inr ⟨(fun h => by cases h), hasked⟩
    · exact .inl hs'
  have hdropped : ∀ {req : LRClient.PendingPrepare} s' req',
      ((x.state.pendingReqs.insert s (.prepare req)).erase s).lookup s' = some req' →
        x.state.pendingReqs.lookup s' = some req' := by
    intro req s' req' hs'
    rw [Table.lookup_erase_eq, Table.lookup_insert_eq] at hs'
    split_ifs at hs'
    exact hs'
  simp only [Client.invokePrepare, sendPrepare, sendMessageToAll, sendMessageToReplica,
    Client.erasePendingReq, wp_bind, wp_update, wp_ite, wp_when, wp_send, Bool.not_eq_true',
    Bool.not_eq_false']
  refine ⟨fun _ => ?_, fun _ => ⟨fun hok => ?_, fun hfail => ?_⟩⟩
  · have hvotes : ∀ q ∈ (List.range env.cfg.n).map fun i => (⟨.client env.tid s, .replica s i,
        .prepareTransaction (prepareMessage env txn)⟩ : Packet Addr Msg), AsksVote s q := by
      intro q hq
      obtain ⟨i, _, rfl⟩ := List.mem_map.1 hq
      exact ⟨i, _, rfl, rfl⟩
    refine ⟨fun _ => h.ask rfl rfl (fun q hq => ⟨s, hvotes q hq⟩) ?_,
      fun _ => h.ask rfl rfl (fun q hq => ⟨s, hvotes q hq⟩) ?_⟩
    · exact fun s' req' hs' => .inl (hdropped s' req' hs')
    · apply hentered
      refine ⟨_, List.mem_map_of_mem (List.mem_range.2 hn), hvotes _ ?_⟩
      exact List.mem_map_of_mem (List.mem_range.2 hn)
  · refine ⟨fun hfail => ?_, fun _ => h.ask rfl rfl (fun q hq => ?_) ?_⟩
    · rw [hok] at hfail
      cases hfail
    · rw [List.mem_singleton.1 hq]
      exact ⟨s, _, _, rfl, rfl⟩
    · exact hentered ⟨_, List.mem_singleton_self _, _, _, rfl, rfl⟩
  · refine ⟨fun _ => ?_, fun hok => ?_⟩
    · exact ⟨h.phase, h.voting.update (fun t ht hnew => absurd ht hnew)
        fun s' req' hs' => h.voting.prepared (hdropped s' req' hs')⟩
    · rw [hok] at hfail
      cases hfail

theorem Settled.invokeParallelCommit (participants : List Shard) :
    Keeps Settled (invokeParallelCommit env ω s participants) := by
  refine .when (.bind (Past.send fun q hq s keys hdata => ?_) fun _ => Past.frame ?_ ?_ ?_)
  · obtain ⟨_, _, _, hmsg, _⟩ := hdata
    rw [List.mem_singleton.1 hq] at hmsg
    cases hmsg
  · exact fun _ hp => hp
  · exact fun _ => rfl
  · exact fun _ => rfl

/-- The read is sent, and is the last request. -/
theorem invokeGetData_orderly {a : ℕ} {record : Bool} {rest : List (Shard × List Key)}
    (hphase : x.state.phase = .reading s keys record rest) (hbefore : Before x)
    (hquiet : Quiet x.state) (hopen : ∀ p, x.state.promise = some p → Open ⟨x, arr⟩ p)
    (hrest : rest ≠ [] → Session.Multi ⟨x, arr⟩) :
    wp (runTask env ω (.get s keys a)) (fun _ x' => Orderly ⟨x', arr⟩) (fun _ => True) x := by
  simp only [runTask, invokeGetData, sendMessageToReplica, wp_bind, wp_update, wp_when, wp_send,
    Orderly, hphase]
  have hrequest : AsksData s keys (⟨.client env.tid s, .replica s (readReplica env),
      .getData { tid := env.tid, keys := keys }⟩ : Packet Addr Msg) := ⟨_, _, rfl, rfl, rfl⟩
  refine ⟨fun _ => ⟨⟨fun q hq s' hvote => ?_, hbefore.outcome⟩,
      .sent hquiet.tasks ?_ ?_ fun p hp => (hopen p hp).mono fun _ hi => hi, hrest⟩,
    fun _ => ⟨⟨hbefore.votes, hbefore.outcome⟩,
      .answered ⟨hquiet.tasks, hquiet.requests⟩ ?_, hrest⟩⟩
  · rcases List.mem_append.1 hq with hold | hnew
    · exact hbefore.votes q hold s' hvote
    · obtain ⟨_, _, _, hmsg⟩ := hvote
      rw [List.mem_singleton.1 hnew] at hmsg
      cases hmsg
  · intro s' req hs'
    simp only [Table.lookup_insert_eq] at hs'
    split_ifs at hs' with heq
    · cases hs'
      exact ⟨heq, rfl⟩
    · rw [hquiet.requests s'] at hs'
      cases hs'
  · refine ⟨x.sent.length, _, List.getElem?_concat_length, hrequest, fun later q hlt hq => ?_⟩
    have hlen := (List.getElem?_eq_some_iff.1 hq).1
    rw [List.length_append, List.length_singleton] at hlen
    omega
  · intro p hp hdone
    rw [(hopen p hp).waits] at hdone
    cases hdone

theorem handleTask_orderly (hn : 0 < env.cfg.n) (h : Orderly ⟨x, arr⟩) (i : ℕ) :
    wp (handleTask env ω i) (fun _ x' => Orderly ⟨x', arr⟩) (fun _ => True) x := by
  simp only [handleTask, wp_bind, wp_read]
  cases ht : x.state.tasks[i]? with
  | none => exact h
  | some t =>
      have hmem : t ∈ x.state.tasks := List.mem_of_getElem? ht
      rw [wp_bind, wp_update]
      -- after the reads there is no read among the tasks
      have hlate : Settled x → wp (runTask env ω t) (fun _ x' => Orderly ⟨x', arr⟩) (fun _ => True)
          { x with state := { x.state with tasks := x.state.tasks.eraseIdx i } } := by
        intro hsettled
        have hless : Settled { x with state := { x.state with tasks := x.state.tasks.eraseIdx i } } :=
          ⟨hsettled.phase, hsettled.voting.update
            (fun t' ht' hnew => absurd (List.mem_of_mem_eraseIdx ht') hnew)
            fun s req hs => hsettled.voting.prepared hs⟩
        have hv := hless.voting
        have hwait : ∀ waiting, Settled { x with state := { x.state with
            tasks := x.state.tasks.eraseIdx i, waiting := waiting } } := fun _ =>
          ⟨hless.phase, hv.tasks, hv.requests, hv.asked, hv.order⟩
        cases t with
        | get s keys a => exact absurd rfl (hsettled.voting.tasks _ hmem s keys a)
        | prepare s txn a =>
            rw [runTask, wp_bind, wp_update]
            exact wp_mono (fun _ _ hx' => Settled.orderly hx') (fun _ hd => hd)
              (Settled.invokePrepare hn (hwait _) txn)
        | parallelModeCommit s participants a =>
            rw [runTask, wp_bind, wp_update]
            exact (hwait _).keep (Settled.invokeParallelCommit participants)
      unfold Orderly at h
      obtain ⟨phase, hphase⟩ : ∃ phase, x.state.phase = phase := ⟨_, rfl⟩
      cases phase with
      | running =>
          simp only [hphase] at h
          rw [h.2.tasks] at hmem
          cases hmem
      | reading s keys record rest =>
          simp only [hphase] at h
          cases h.2.1 with
          | queued a htasks hreqs hopen =>
              rw [show x.state.tasks = _ from htasks] at hmem ht
              rw [List.mem_singleton.1 hmem]
              have hidx : i = 0 := by
                have := (List.getElem?_eq_some_iff.1 ht).1
                rw [List.length_singleton] at this
                omega
              refine invokeGetData_orderly hphase ⟨h.1.votes, h.1.outcome⟩ ⟨?_, hreqs⟩
                (fun p hp => (hopen p hp).mono fun _ hi => hi) h.2.2
              simp only [show x.state.tasks = _ from htasks, hidx]
              rfl
          | sent htasks honly hlast hopen =>
              rw [show x.state.tasks = _ from htasks] at hmem
              cases hmem
          | answered hquiet hgiven =>
              rw [show x.state.tasks = _ from hquiet.tasks] at hmem
              cases hmem
      | preparing k =>
          simp only [hphase] at h
          exact hlate ⟨.inr ⟨k, hphase⟩, h⟩
      | finished =>
          simp only [hphase] at h
          exact hlate ⟨.inl hphase, h⟩

/-! ### The application -/

/-- What the calls have in common: no request is on its way. -/
structure AtRest (x : Ctx Client Addr Msg Event) : Prop where
  before : Before x
  quiet : Quiet x.state

theorem AtRest.frame {f : Client → Client} (htasks : ∀ c, (f c).tasks = c.tasks)
    (hreqs : ∀ c, (f c).pendingReqs = c.pendingReqs)
    (hout : ∀ c, (f c).pendingParallelCommits = c.pendingParallelCommits) :
    Keeps AtRest (update f : ClientM Unit) := by
  intro x h
  rw [wp_update]
  refine ⟨⟨h.before.votes, ?_⟩, ?_, ?_⟩
  · rw [hout]
    exact h.before.outcome
  · rw [htasks]
    exact h.quiet.tasks
  · rw [hreqs]
    exact h.quiet.requests

/-- A read is handed to the transport thread. -/
theorem queueRead_orderly (h : AtRest x)
    (hopen : ∀ p, x.state.promise = some p → Open ⟨x, arr⟩ p) (record : Bool)
    (rest : List (Shard × List Key)) (hrest : rest ≠ [] → Session.Multi ⟨x, arr⟩) :
    wp (do
      addTask fun p => .get s keys p.address
      update fun c => { c with phase := .reading s keys record rest })
      (fun _ x' => Orderly ⟨x', arr⟩) (fun _ => True) x := by
  simp only [addTask, wp_bind, wp_update, Orderly, h.quiet.tasks, List.nil_append]
  refine ⟨⟨h.before.votes, h.before.outcome⟩, ?_⟩
  cases hp : x.state.promise with
  | none =>
      refine ⟨.answered ⟨rfl, h.quiet.requests⟩ fun p hp' => ?_, hrest⟩
      cases hp'
  | some p =>
      refine ⟨.queued p.address rfl h.quiet.requests fun q hq => ?_, hrest⟩
      cases hq
      exact (hopen p hp).mono fun _ hi => hi

theorem readNext_orderly (h : AtRest x) (l : List (Shard × List Key))
    (hmulti : l ≠ [] → Session.Multi ⟨x, arr⟩) :
    wp (readNext l) (fun _ x' => Orderly ⟨x', arr⟩) (fun _ => True) x := by
  cases l with
  | nil =>
      exact ⟨⟨h.before.votes, h.before.outcome⟩, ⟨h.quiet.tasks, h.quiet.requests⟩⟩
  | cons q rest =>
      obtain ⟨s, keys⟩ := q
      have hreset : AtRest { x with state := { x.state with
          promise := x.state.promise.map Promise.reset } } :=
        ⟨⟨h.before.votes, h.before.outcome⟩, ⟨h.quiet.tasks, h.quiet.requests⟩⟩
      rw [readNext, wp_bind, wp_update]
      have hasked := hmulti (List.cons_ne_nil _ _)
      refine queueRead_orderly hreset (fun p hp => ?_) true rest fun _ => hasked
      obtain ⟨q, _, rfl⟩ := Option.map_eq_some_iff.1 hp
      exact ⟨rfl, .inr hasked⟩

theorem wake_orderly (h : Orderly ⟨x, arr⟩) :
    wp (wake env) (fun _ x' => Orderly ⟨x', arr⟩) (fun _ => True) x := by
  simp only [wake, wp_bind, wp_read]
  cases hphase : x.state.phase with
  | running => exact h
  | finished => exact h
  | preparing k =>
      cases hq : x.state.promise.filter (·.done) with
      | none => exact h
      | some p =>
          simp only [Orderly, hphase] at h
          have hpast : Past (fun _ => True) { x with state := { x.state with promise := none } } :=
            ⟨trivial, h.tasks, h.requests, h.asked, h.order⟩
          simp only [wp_bind, wp_update, wp_ite]
          exact ⟨fun _ => wp_mono (fun _ _ hx' => Settled.orderly hx') (fun _ hd => hd)
              (hpast.finish _),
            fun _ => wp_mono (fun _ _ hx' => Settled.orderly hx') (fun _ hd => hd)
              (hpast.round _)⟩
  | reading s keys record rest =>
      cases hq : x.state.promise.filter (·.done) with
      | none => exact h
      | some p =>
          obtain ⟨hsome, hdone⟩ := Option.filter_eq_some_iff.1 hq
          simp only [Orderly, hphase] at h
          -- an answered promise: the read is neither queued nor outstanding
          have hidle : AtRest x := by
            cases h.2.1 with
            | queued a htasks hreqs hopen =>
                rw [(hopen p hsome).waits] at hdone
                cases hdone
            | sent htasks honly hlast hopen =>
                rw [(hopen p hsome).waits] at hdone
                cases hdone
            | answered hquiet hgiven => exact ⟨h.1, hquiet⟩
          have hmulti : (if p.reply = replyFail then [] else rest) ≠ [] →
              Session.Multi ⟨x, arr⟩ := by
            split_ifs
            · exact fun hne => absurd rfl hne
            · exact h.2.2
          simp only [wp_bind, wp_when]
          refine ⟨fun _ => ?_, fun _ => readNext_orderly hidle _ hmulti⟩
          have hloop : Keeps AtRest (keys.forM fun key =>
              modifyBuffer env s (·.addReadSet key p.timestamp)) :=
            .forM fun key _ => AtRest.frame (fun _ => rfl) (fun _ => rfl) fun _ => rfl
          exact wp_mono (fun _ _ hx' => readNext_orderly hx' _ hmulti)
            (fun _ _ => trivial) (hloop x hidle)

theorem handleAction_orderly (hn : 0 < env.cfg.n) (h : Orderly ⟨x, arr⟩) {a : Action}
    (harr : .act a ∈ arr) :
    wp (handleAction env ω a) (fun _ x' => Orderly ⟨x', arr⟩) (fun _ => True) x := by
  -- a call is made between two others
  have hcall : ∀ y : ClientM Unit, (AtRest x → x.state.phase = .running →
      wp y (fun _ x' => Orderly ⟨x', arr⟩) (fun _ => True) x) →
      wp (call y) (fun _ x' => Orderly ⟨x', arr⟩) (fun _ => True) x := by
    intro y hy
    simp only [call, wp_bind, wp_read]
    split
    · rename_i hphase
      have hrunning := h
      simp only [Orderly, hphase] at hrunning
      exact hy ⟨hrunning.1, hrunning.2⟩ hphase
    · exact h
  have hadd : ∀ s, Keeps AtRest (addParticipant s) := fun s =>
    AtRest.frame (fun _ => rfl) (fun _ => rfl) fun _ => rfl
  have hnew : ∀ n, Keeps AtRest (newPromise n) := fun n =>
    AtRest.frame (fun _ => rfl) (fun _ => rfl) fun _ => rfl
  cases a with
  | wake => exact wake_orderly h
  | task i => exact handleTask_orderly hn h i
  | prepareTimeout s => exact prepareTimeoutCallback_orderly h
  | getTimeout s => exact getDateTimeoutCallback_orderly h
  | parallelModeCommitTimeout s => exact parallelModeCommitTimeout_orderly h
  | commit => exact hcall _ fun hidle _ => commit_orderly hidle.before hidle.quiet
  | abort =>
      refine hcall _ fun hidle _ => ?_
      exact wp_mono (fun _ _ hx' => Settled.orderly hx') (fun _ hd => hd)
        (hidle.before.past hidle.quiet).abort
  | put key value =>
      refine hcall _ fun hidle hphase => ?_
      simp only [put, addParticipant, modifyBuffer, wp_bind, wp_update, Orderly, hphase]
      exact ⟨⟨hidle.before.votes, hidle.before.outcome⟩, hidle.quiet.tasks, hidle.quiet.requests⟩
  | get key =>
      refine hcall _ fun hidle hphase => ?_
      have hidle₁ := hadd (env.cfg.keyToShard key) x hidle
      rw [addParticipant, wp_update] at hidle₁
      have hidle₂ := hnew 0 _ hidle₁
      rw [newPromise, wp_update] at hidle₂
      simp only [get, addParticipant, newPromise, wp_bind, wp_update, wp_read, wp_ite]
      refine ⟨fun _ => ?_, fun _ => ?_⟩
      · simp only [wp_pure, Orderly, hphase]
        exact ⟨⟨hidle₁.before.votes, hidle₁.before.outcome⟩, hidle₁.quiet.tasks,
          hidle₁.quiet.requests⟩
      · refine queueRead_orderly hidle₂ (fun p hp => ?_) _ _ fun hne => absurd rfl hne
        cases hp
        exact ⟨rfl, .inl rfl⟩
  | multiGet keys =>
      refine hcall _ fun hidle _ => ?_
      rw [multiGet, wp_bind]
      refine wp_mono (fun _ x₁ hx₁ => ?_) (fun _ _ => trivial)
        (Keeps.forM (fun key _ => hadd _) x hidle)
      rw [wp_bind, newPromise, wp_update]
      have hx₂ := hnew 0 x₁ hx₁
      rw [newPromise, wp_update] at hx₂
      cases askedShards env keys with
      | cons q rest => exact readNext_orderly hx₂ _ fun _ => ⟨keys, harr⟩
      | nil =>
          refine ⟨⟨hx₂.before.votes, hx₂.before.outcome⟩,
            .answered ⟨hx₂.quiet.tasks, hx₂.quiet.requests⟩ fun p hp hdone => ?_,
            fun hne => absurd rfl hne⟩
          cases hp
          cases hdone

/-! ### Runs -/

/-- **One step.** -/
theorem Orderly.handle (hn : 0 < env.cfg.n) (h : Orderly w) {i : Arrival}
    (hproduced : i.Produced w.ctx.sent) (htimely : i.Timely w.ctx) :
    wp (i.handle env ω) (fun _ x' => Orderly ⟨x', w.arrived ++ [i]⟩) (fun _ => True) w.ctx := by
  have h' : Orderly ⟨w.ctx, w.arrived ++ [i]⟩ := Orderly.arrive h i
  cases i with
  | act a =>
      exact handleAction_orderly hn h' (List.mem_append_right _ (List.mem_singleton_self _))
  | getDataReply s request m =>
      rw [Arrival.handle, handleMessage, wp_when]
      refine ⟨fun _ => handleGetDataReply_orderly h' ?_ hproduced htimely, fun _ => h'⟩
      exact List.mem_append_right _ (List.mem_singleton_self _)
  | prepareReply s request m =>
      rw [Arrival.handle, handleMessage, wp_when]
      exact ⟨fun _ => handlePrepareTxnReply_orderly h' m, fun _ => h'⟩
  | parallelModeCommitReply s m =>
      rw [Arrival.handle, handleMessage, wp_when]
      exact ⟨fun _ => handleParallelModeCommitReply_orderly h' m, fun _ => h'⟩

/-- **Every run** with timely replies. -/
theorem Session.Reach.orderly (hn : 0 < env.cfg.n)
    (hw : Session.Reach env (fun x i => i.Timely x) w) : Orderly w := by
  induction hw with
  | start =>
      refine ⟨⟨fun q hq => absurd hq List.not_mem_nil, fun s => rfl⟩, rfl, fun s => rfl⟩
  | step hw ω i hproduced hcond hdone ih =>
      have hstep : wp (i.handle env ω) _ _ _ := ih.handle hn hproduced hcond
      rw [wp, hdone] at hstep
      exact hstep

/-- A timely reply is of the kind of the pending request. -/
theorem Orderly.no_mismatch (h : Orderly w) {i : Arrival} (hproduced : i.Produced w.ctx.sent)
    (htimely : i.Timely w.ctx) : ¬ i.Mismatch w.ctx.state := by
  have h' : Orderly ⟨w.ctx, w.arrived⟩ := h
  intro hmismatch
  cases i with
  | act a => exact hmismatch
  | parallelModeCommitReply s m => exact hmismatch
  | getDataReply s request m =>
      -- the vote was asked for after every read
      obtain ⟨req, hreq⟩ := hmismatch
      have hvoting := (h'.prepare_pending hreq).voting
      obtain ⟨q, hq, hvote⟩ := hvoting.asked s req hreq
      obtain ⟨q', keys, hq', hdata⟩ := hproduced
      obtain ⟨r, hlt, hr⟩ := List.mem_iff_getElem.1 hq
      obtain ⟨hlt', hr'⟩ := List.getElem?_eq_some_iff.1 hq'
      have horder := List.pairwise_iff_getElem.1 hvoting.order
      rcases Nat.lt_trichotomy request r with hless | heq | hless
      · refine (htimely (by rw [hreq]; rfl) r q hless ?_).2 hvote
        exact List.getElem?_eq_some_iff.2 ⟨hlt, hr⟩
      · obtain ⟨_, _, _, hmsg⟩ := hvote
        obtain ⟨_, _, _, hmsg', _⟩ := hdata
        subst heq
        rw [← hr, hr', hmsg'] at hmsg
        cases hmsg
      · have hbad := horder r request hlt hlt' hless s s keys
        rw [hr, hr'] at hbad
        exact hbad hvote hdata
  | prepareReply s request m =>
      -- no vote has been asked for during the reads
      obtain ⟨_, _, _, _, hbefore, _⟩ := h'.getData_pending hmismatch
      obtain ⟨q, hq, hvote⟩ := hproduced
      exact hbefore.votes q (List.mem_of_getElem? hq) s hvote

/-- **Replies and reads.** In every run of a client in which a reply to a read is handled only
if it is for the last request sent to the shard, or if no request is pending there: while the
application waits for a read, its promise is open, or timed out, or holds what a reply brought
that was produced for a request for the same keys; and no reply of another kind than the pending
request is handled. -/
theorem reads_answered_by_own_request (hn : 0 < env.cfg.n)
    (hw : Session.Reach env (fun x i => i.Timely x) w) :
    (∀ s keys record rest p, w.ctx.state.phase = .reading s keys record rest →
      w.ctx.state.promise = some p → p.done = true →
        p.reply = replyTimeout ∨ Given w s keys p) ∧
      ∀ i : Arrival, i.Produced w.ctx.sent → i.Timely w.ctx → ¬ i.Mismatch w.ctx.state := by
  have horderly := hw.orderly hn
  refine ⟨fun s keys record rest p hphase hp hdone => ?_, fun i hproduced htimely =>
    horderly.no_mismatch hproduced htimely⟩
  simp only [Orderly, hphase] at horderly
  cases horderly.2.1 with
  | queued a htasks hreqs hopen =>
      rw [(hopen p hp).waits] at hdone
      cases hdone
  | sent htasks honly hlast hopen =>
      rw [(hopen p hp).waits] at hdone
      cases hdone
  | answered hquiet hgiven => exact hgiven p hp hdone

/-! ### Schedules -/

/-- The session after one more arrival. -/
def Session.next (env : ClientEnv) (w : Session) (i : Arrival) : Session where
  ctx := (i.handle env {} w.ctx).state
  arrived := w.arrived ++ [i]

theorem Session.Reach.next {C : Ctx Client Addr Msg Event → Arrival → Prop} {i : Arrival}
    (hw : Session.Reach env C w) (hproduced : i.Produced w.ctx.sent) (hcond : C w.ctx i)
    (halive : (i.handle env {} w.ctx).isDead = false) : Session.Reach env C (w.next env i) := by
  unfold Session.next
  cases hresult : i.handle env {} w.ctx with
  | done a x => exact hw.step {} i hproduced hcond hresult
  | dead x =>
      rw [hresult] at halive
      cases halive

/-- The client survives a sequence of its own actions. -/
def Session.survives (env : ClientEnv) : Session → List Action → Bool
  | _, [] => true
  | w, a :: as => !((Arrival.act a).handle env {} w.ctx).isDead &&
      Session.survives env (w.next env (.act a)) as

/-- The session after a sequence of its own actions. -/
def Session.acts (env : ClientEnv) (w : Session) (as : List Action) : Session :=
  as.foldl (fun w a => w.next env (.act a)) w

theorem Session.Reach.acts {C : Ctx Client Addr Msg Event → Arrival → Prop}
    (hw : Session.Reach env C w) (hC : ∀ x a, C x (.act a)) {as : List Action}
    (halive : w.survives env as = true) : Session.Reach env C (w.acts env as) := by
  induction as generalizing w with
  | nil => exact hw
  | cons a as ih =>
      rw [Session.survives, Bool.and_eq_true, Bool.not_eq_true'] at halive
      exact ih (hw.next trivial (hC _ a) halive.1) halive.2

/-- Transaction 7 in a deployment with one shard. -/
def reader : ClientEnv where
  cfg :=
    { n := 3
      f := 1
      nshards := 1
      mode := .fast
      keyToShard := fun _ => 0
      clientId := fun _ => 0
      closestReplica := fun _ => some 0
      store := fun _ _ => .occ {}
      initialTs := fun _ _ => 0 }
  tid := 7

/-- The reply to a read of `a`. -/
def replyA : GetDataReply where
  tid := 7
  keys := [{ key := "a", value := "1", timestamp := 5 }]
  replicaId := 0
  state := .ok

/-- The reply to the first request of a session. -/
def firstReply : Arrival := .getDataReply 0 0 replyA

/-- A read of `a` is sent. -/
def readA : Session := ({} : Session).acts reader [.get "a", .task 0]

/-- The read of `a` timed out, and a read of `b` is sent. -/
def readB : Session := readA.acts reader [.getTimeout 0, .wake, .get "b", .task 0]

/-- The read of `a` is answered. -/
def answeredA : Session := readA.next reader firstReply

/-- After the read of `a` the transaction is prepared. -/
def votingA : Session := answeredA.acts reader [.wake, .commit, .task 0]

/-- The first request is the read of `a`. -/
theorem firstReply_produced {sent : List (Packet Addr Msg)}
    (h : sent[0]? = readA.ctx.sent[0]?) : firstReply.Produced sent :=
  ⟨_, ["a"], h.trans rfl, ⟨0, _, rfl, rfl, rfl⟩⟩

theorem readA_reach {C : Ctx Client Addr Msg Event → Arrival → Prop} (hC : ∀ x a, C x (.act a)) :
    Session.Reach reader C readA :=
  Session.Reach.start.acts hC (by decide +kernel)

/-- The reply that arrives in time answers the read. -/
theorem answeredA_given :
    (answeredA.ctx.state.promise.map fun p => (p.done, p.value)) = some (true, "1") ∧
      ∃ p, answeredA.ctx.state.promise = some p ∧ Given answeredA 0 ["a"] p := by
  have hlatest : firstReply.Timely readA.ctx := by
    intro _ later q hlt hq
    have hlen : readA.ctx.sent.length = 1 := by decide +kernel
    have hless := (List.getElem?_eq_some_iff.1 hq).1
    omega
  have hreach : Session.Reach reader (fun x i => i.Timely x) answeredA :=
    (readA_reach fun _ _ => trivial).next (firstReply_produced rfl) hlatest (by decide +kernel)
  refine ⟨by decide +kernel, ?_⟩
  obtain ⟨p, hp⟩ : ∃ p, answeredA.ctx.state.promise = some p :=
    Option.isSome_iff_exists.1 (by decide +kernel)
  refine ⟨p, hp, ?_⟩
  have hdone : p.done = true := by
    have heq : answeredA.ctx.state.promise.map (·.done) = some true := by decide +kernel
    rw [hp] at heq
    exact Option.some.inj heq
  have hreply : p.reply ≠ replyTimeout := by
    have heq : answeredA.ctx.state.promise.map (·.reply) = some 0 := by decide +kernel
    rw [hp] at heq
    rw [show p.reply = 0 from Option.some.inj heq]
    decide
  exact ((reads_answered_by_own_request (by decide) hreach).1 0 ["a"] true [] p rfl hp
    hdone).resolve_left hreply

/-- **A late reply.** The reply to a read that timed out answers the next read, of another key;
and a reply that comes again while a vote is pending kills the client. -/
theorem late_read_reply :
    (∃ w p, Session.Reach reader (fun _ _ => True) w ∧
      w.ctx.state.phase = .reading 0 ["b"] true [] ∧ w.ctx.state.promise = some p ∧
      p.done = true ∧ p.reply = replyOk ∧ p.value = "1" ∧ ¬ Given w 0 ["b"] p) ∧
    ∃ w, Session.Reach reader (fun _ _ => True) w ∧ firstReply.Produced w.ctx.sent ∧
      firstReply.Mismatch w.ctx.state ∧ (firstReply.handle reader {} w.ctx).isDead = true := by
  have hA : Session.Reach reader (fun _ _ => True) readA := readA_reach fun _ _ => trivial
  constructor
  · have hB : Session.Reach reader (fun _ _ => True) readB :=
      hA.acts (fun _ _ => trivial) (by decide +kernel)
    have hw : Session.Reach reader (fun _ _ => True) (readB.next reader firstReply) :=
      hB.next (firstReply_produced rfl) trivial (by decide +kernel)
    refine ⟨_, _, hw, rfl, rfl, rfl, rfl, rfl, ?_⟩
    rintro ⟨request, m, q, hm, hq, ⟨i, g, _, hmsg, hkeys⟩, _⟩
    -- the only reply is for the read of `a`
    have harrived : (readB.next reader firstReply).arrived =
        [.act (.get "a"), .act (.task 0), .act (.getTimeout 0), .act .wake, .act (.get "b"),
          .act (.task 0), firstReply] := rfl
    rw [harrived] at hm
    simp only [firstReply, List.mem_cons, reduceCtorEq, Arrival.getDataReply.injEq, true_and,
      false_or, List.not_mem_nil, or_false] at hm
    rw [hm.1] at hq
    have hfirst : (readB.next reader firstReply).ctx.sent[0]? =
        some ⟨.client 7 0, .replica 0 0, .getData { tid := 7, keys := ["a"] }⟩ := rfl
    rw [hfirst] at hq
    cases hq
    cases hmsg
    exact absurd hkeys (by decide)
  · have hanswered : Session.Reach reader (fun _ _ => True) answeredA :=
      hA.next (firstReply_produced rfl) trivial (by decide +kernel)
    have hvoting : Session.Reach reader (fun _ _ => True) votingA :=
      hanswered.acts (fun _ _ => trivial) (by decide +kernel)
    exact ⟨votingA, hvoting, firstReply_produced rfl, ⟨_, rfl⟩, by decide +kernel⟩

end Client

end D2PC
