import D2PC.Lib.Calls
import D2PC.Invariant.Client

/-!
# What a prepare promise answers

One promise collects the replies of all shards, their timeouts and the final decision, until the
application thread wakes up. A reply of a shard after the final decision is dropped; a timeout is
not, and the thread finds the timeout in place of the decision.

* `Awaited.callback` : the callbacks of the `ShardClient`s, one by one;
* `Awaited.Shows` : a client with such a promise; its handlers are these callbacks
  (`Shows.prepareReply`, `Shows.timeout`, `Shows.decision`);
* `promise_honours_decision` : the answer is right exactly if no timeout came in after a decision;
* `late_timeout_overrides` : a commit that is taken for a timeout.
-/

namespace D2PC

open Prog Ctx

/-- What the `LRClient`s of the shards call back. -/
inductive PromiseEvent where
  | prepareCallback (shard : Shard) (state timestamp : ℕ)
  | prepareTimeout (shard : Shard)
  | parallelModeCommitCallback (state timestamp : ℕ)

/-- A prepare promise: the `ShardClient`s that refer to it, the `LRClient`s with a request, and
whether the outcome is asked for. What was delivered is noted in `decisions` and `agreed`. -/
structure Awaited where
  promise : Promise
  waiting : Finset Shard
  pending : Finset Shard
  asked : Bool
  decisions : List (ℕ × Timestamp) := []
  agreed : Finset Shard := ∅

namespace Awaited

/-- `Prepare` of the client: the slow modes ask the primary shard, the others all participants,
and the parallel mode also asks the primary shard for the outcome. -/
def start (mode : TpcMode) (participants : Finset Shard) (primary : Shard) (address : ℕ) :
    Awaited where
  promise := { address := address, participantNumber := participants.card }
  waiting :=
    if mode = .slow ∨ mode = .rc then {primary}
    else if mode = .parallel then insert primary participants else participants
  pending := if mode = .slow ∨ mode = .rc then {primary} else participants
  asked := decide (mode = .parallel)

/-- One callback. A request is answered once. -/
def callback (mode : TpcMode) (primary : Shard) (x : Awaited) : PromiseEvent → Awaited
  | .prepareCallback s state timestamp =>
      if s ∈ x.pending then
        let x := { x with pending := x.pending.erase s }
        if s ∉ x.waiting ∨ x.promise.reachFinalDecision = true then x
        else if mode = .slow ∨ mode = .rc then
          { x with
            waiting := x.waiting.erase s
            promise := x.promise.replyFinal state ⟨timestamp, 0⟩
            decisions := x.decisions ++ [(state, ⟨timestamp, 0⟩)] }
        else
          { x with
            promise := x.promise.replyShard s state ⟨timestamp, 0⟩
            agreed := if state = replyOk then insert s x.agreed else x.agreed }
      else x
  | .prepareTimeout s =>
      if s ∈ x.pending then
        let x := { x with pending := x.pending.erase s }
        if s ∈ x.waiting then { x with promise := x.promise.replyShard s replyTimeout {} } else x
      else x
  | .parallelModeCommitCallback state timestamp =>
      if x.asked then
        let x := { x with asked := false, pending := x.pending.erase primary }
        if primary ∈ x.waiting then
          { x with
            waiting := x.waiting.erase primary
            promise := x.promise.replyFinal state ⟨timestamp, 0⟩
            decisions := x.decisions ++ [(state, ⟨timestamp, 0⟩)] }
        else x
      else x

/-- The answer: that of the final decision, with its timestamp, and without one `REPLY_OK`
exactly if every participant agreed. -/
def Honours (participants : Finset Shard) (x : Awaited) : Prop :=
  (∀ d ∈ x.decisions, x.promise.done = true ∧ x.promise.getPrepareReply = d.1 ∧
    x.promise.timestamp = d.2) ∧
  (x.decisions = [] → ((x.promise.done = true ∧ x.promise.getPrepareReply = replyOk) ↔
    ∀ s ∈ participants, s ∈ x.agreed))

/-- A timeout is delivered after a decision other than `REPLY_TIMEOUT`. -/
def Late (x : Awaited) : PromiseEvent → Prop
  | .prepareTimeout s => s ∈ x.pending ∧ s ∈ x.waiting ∧ x.promise.reachFinalDecision = true ∧
      x.promise.reply ≠ replyTimeout
  | _ => False

/-! ### Before and after the decision -/

/-- No decision was delivered. A participant that was heard of is not heard of again. -/
structure Open (mode : TpcMode) (participants : Finset Shard) (x : Awaited) : Prop where
  undecided : x.decisions = []
  final : x.promise.reachFinalDecision = false
  number : x.promise.participantNumber = participants.card
  replies : ∀ s, s ∈ x.promise.prepareReplies ↔ s ∈ x.agreed
  codes : ∀ s r, x.promise.prepareReplies.lookup s = some r → r = replyOk
  agreed : x.agreed ⊆ participants
  pending : x.pending ⊆ participants
  heard : ∀ s ∈ x.agreed, s ∉ x.pending
  failed : x.promise.fail = true → x.promise.done = true ∧ x.promise.reply ≠ replyOk ∧
    ∃ s ∈ participants, s ∉ x.agreed ∧ s ∉ x.pending
  complete : x.promise.fail = false → (x.promise.done = true ↔ participants ⊆ x.agreed)
  unasked : mode = .slow ∨ mode = .rc → x.asked = false

/-- The decision `d` was delivered, and no other will be. -/
structure Closed (d : ℕ × Timestamp) (x : Awaited) : Prop where
  decided : x.decisions = [d]
  final : x.promise.reachFinalDecision = true
  finished : x.promise.done = true
  timestamp : x.promise.timestamp = d.2
  unasked : x.asked = false

variable {mode : TpcMode} {participants : Finset Shard} {primary : Shard} {x : Awaited}
  {d : ℕ × Timestamp} {e : PromiseEvent}

theorem Open.start (hne : participants.Nonempty)
    (hprimary : mode = .slow ∨ mode = .rc → primary ∈ participants) (address : ℕ) :
    Open mode participants (start mode participants primary address) where
  undecided := rfl
  final := rfl
  number := rfl
  replies s := ⟨fun h => absurd h (AList.notMem_empty s), fun h => absurd h (Finset.notMem_empty s)⟩
  codes s r h := by cases h
  agreed := Finset.empty_subset _
  pending := by
    show (if mode = .slow ∨ mode = .rc then {primary} else participants) ⊆ participants
    split_ifs with hslow
    · exact Finset.singleton_subset_iff.2 (hprimary hslow)
    · exact Finset.Subset.refl _
  heard s hs := absurd hs (Finset.notMem_empty s)
  failed := fun h => by cases h
  complete _ := ⟨(fun h => by cases h), fun hsub => absurd (Finset.subset_empty.1 hsub) hne.ne_empty⟩
  unasked hslow := by
    refine decide_eq_false ?_
    rintro rfl
    rcases hslow with h | h <;> cases h

/-- The answer without a decision. -/
theorem Open.honours (hx : x.Open mode participants) : x.Honours participants := by
  refine ⟨fun d hd => ?_, fun _ => ?_⟩
  · rw [hx.undecided] at hd
    exact absurd hd List.not_mem_nil
  · cases hfail : x.promise.fail with
    | true =>
        obtain ⟨_, hreply, s, hs, hnot, _⟩ := hx.failed hfail
        have hanswer : x.promise.getPrepareReply = x.promise.reply := by
          rw [Promise.getPrepareReply, hfail]
          rfl
        rw [hanswer]
        exact ⟨fun h => absurd h.2 hreply, fun h => absurd (h s hs) hnot⟩
    | false =>
        have hok : x.promise.getPrepareReply = replyOk := by
          have hnone : (x.promise.prepareReplies.toList.map Prod.snd).find? (· ≠ replyOk) =
              none := by
            rw [List.find?_eq_none]
            intro r hr
            obtain ⟨p, hp, rfl⟩ := List.mem_map.1 hr
            rw [hx.codes p.1 p.2 (Table.mem_toList.1 hp)]
            decide
          rw [Promise.getPrepareReply, hfail, hx.final, hnone]
          rfl
        rw [hok]
        exact ⟨fun h s hs => (hx.complete hfail).1 h.1 hs, fun h => ⟨(hx.complete hfail).2 h, rfl⟩⟩

/-- After a decision the promise answers with its code. -/
theorem Closed.getPrepareReply (hx : x.Closed d) : x.promise.getPrepareReply = x.promise.reply := by
  simp only [Promise.getPrepareReply, hx.final, if_true, ite_self]

/-- **After the decision** only a timeout changes the answer. -/
theorem Closed.callback (hx : x.Closed d) (mode : TpcMode) (primary : Shard) (e : PromiseEvent) :
    (x.callback mode primary e).Closed d ∧
      ((x.callback mode primary e).promise.reply = x.promise.reply ∧ ¬ x.Late e ∨
        (x.callback mode primary e).promise.reply = replyTimeout ∧ x.Late e ∧
          x.promise.reply ≠ replyTimeout) := by
  obtain ⟨hdec, hfinal, hdone, hts, hasked⟩ := hx
  cases e with
  | prepareCallback s state timestamp =>
      simp only [Awaited.callback, hfinal, or_true, if_true]
      split_ifs
      · exact ⟨⟨hdec, hfinal, hdone, hts, hasked⟩, .inl ⟨rfl, id⟩⟩
      · exact ⟨⟨hdec, hfinal, hdone, hts, hasked⟩, .inl ⟨rfl, id⟩⟩
  | prepareTimeout s =>
      simp only [Awaited.callback]
      split_ifs with hpending hwaiting
      · refine ⟨⟨hdec, hfinal, rfl, hts, hasked⟩, ?_⟩
        by_cases hreply : x.promise.reply = replyTimeout
        · exact .inl ⟨hreply.symm, fun h => h.2.2.2 hreply⟩
        · exact .inr ⟨rfl, ⟨hpending, hwaiting, hfinal, hreply⟩, hreply⟩
      · exact ⟨⟨hdec, hfinal, hdone, hts, hasked⟩, .inl ⟨rfl, fun h => hwaiting h.2.1⟩⟩
      · exact ⟨⟨hdec, hfinal, hdone, hts, hasked⟩, .inl ⟨rfl, fun h => hpending h.1⟩⟩
  | parallelModeCommitCallback state timestamp =>
      simp only [Awaited.callback, hasked]
      exact ⟨⟨hdec, hfinal, hdone, hts, hasked⟩, .inl ⟨rfl, id⟩⟩

/-- A request is given up. -/
theorem Open.shrink (hx : x.Open mode participants) (s : Shard) :
    Open mode participants { x with pending := x.pending.erase s } := by
  refine ⟨hx.undecided, hx.final, hx.number, hx.replies, hx.codes, hx.agreed,
    fun q hq => hx.pending (Finset.mem_of_mem_erase hq),
    fun q hq hpending => hx.heard q hq (Finset.mem_of_mem_erase hpending), fun hfail => ?_,
    hx.complete, hx.unasked⟩
  obtain ⟨hdone, hreply, q, hq, hnot, hpending⟩ := hx.failed hfail
  exact ⟨hdone, hreply, q, hq, hnot, fun h => hpending (Finset.mem_of_mem_erase h)⟩

/-- A shard refuses, or does not answer in time. -/
theorem Open.refuse (hx : x.Open mode participants) {s : Shard} (hs : s ∈ x.pending) {r : ℕ}
    (hr : r ≠ replyOk) (t : Timestamp) : Open mode participants { x with
      pending := x.pending.erase s
      promise := x.promise.replyShard s r t } := by
  have hreply : x.promise.replyShard s r t = { x.promise.replyCode r with fail := true } :=
    if_pos hr
  rw [hreply]
  have hsmall := hx.shrink s
  refine ⟨hx.undecided, hx.final, hx.number, hx.replies, hx.codes, hx.agreed, hsmall.pending,
    hsmall.heard, fun _ => ⟨rfl, hr, s, hx.pending hs, fun h => hx.heard s h hs, ?_⟩, (fun h => by cases h),
    hx.unasked⟩
  exact Finset.notMem_erase s _

/-- A shard agrees. -/
theorem Open.agree (hx : x.Open mode participants) {s : Shard} (hs : s ∈ x.pending)
    (t : Timestamp) : Open mode participants { x with
      pending := x.pending.erase s
      promise := x.promise.replyShard s replyOk t
      agreed := insert s x.agreed } := by
  have hreply : x.promise.replyShard s replyOk t = { x.promise with
      prepareReplies := x.promise.prepareReplies.insert s replyOk
      timestamp := if x.promise.timestamp < t then t else x.promise.timestamp
      done := x.promise.done || decide (Table.size (x.promise.prepareReplies.insert s replyOk) =
        x.promise.participantNumber) } :=
    if_neg (not_not.2 rfl)
  rw [hreply]
  have hsmall := hx.shrink s
  have hmem : ∀ q, q ∈ x.promise.prepareReplies.insert s replyOk ↔ q ∈ insert s x.agreed := by
    intro q
    rw [AList.mem_insert, Finset.mem_insert, hx.replies q]
  have hsub : insert s x.agreed ⊆ participants :=
    Finset.insert_subset_iff.2 ⟨hx.pending hs, hx.agreed⟩
  refine ⟨hx.undecided, hx.final, hx.number, hmem, fun q r hq => ?_, hsub, hsmall.pending,
    fun q hq hpending => ?_, fun hfail => ?_, fun hfail => ?_, hx.unasked⟩
  · rw [Table.lookup_insert_eq] at hq
    split_ifs at hq
    · exact (Option.some.inj hq).symm
    · exact hx.codes q r hq
  · obtain ⟨hne, hold⟩ := Finset.mem_erase.1 hpending
    rcases Finset.mem_insert.1 hq with heq | hq
    · exact hne heq
    · exact hx.heard q hq hold
  · obtain ⟨hdone, hcode, q, hq, hnot, hpending⟩ := hx.failed hfail
    refine ⟨?_, hcode, q, hq, fun h => ?_, fun h => hpending (Finset.mem_of_mem_erase h)⟩
    · show (x.promise.done || _) = true
      rw [hdone, Bool.true_or]
    · rcases Finset.mem_insert.1 h with heq | h
      · exact hpending (heq ▸ hs)
      · exact hnot h
  · -- the table has a reply of every participant exactly if it is as large as their number
    have hsize := Table.size_eq_length_iff (t := x.promise.prepareReplies.insert s replyOk)
      (l := participants.toList)
      (fun q hq => Finset.mem_toList.2 (hsub ((hmem q).1 hq))) (Finset.nodup_toList _)
    rw [Finset.length_toList] at hsize
    show (x.promise.done || decide (Table.size (x.promise.prepareReplies.insert s replyOk) =
      x.promise.participantNumber)) = true ↔ participants ⊆ insert s x.agreed
    rw [Bool.or_eq_true, decide_eq_true_eq, hx.number, hsize, hx.complete hfail]
    constructor
    · rintro (hall | hall)
      · exact hall.trans (Finset.subset_insert ..)
      · exact fun q hq => (hmem q).1 (hall q (Finset.mem_toList.2 hq))
    · exact fun hall => .inr fun q hq => (hmem q).2 (hall (Finset.mem_toList.1 hq))

/-- **Before the decision** nothing is late, and the decision is taken over. -/
theorem Open.callback (hx : x.Open mode participants) (primary : Shard) (e : PromiseEvent) :
    ¬ x.Late e ∧ ((x.callback mode primary e).Open mode participants ∨
      ∃ d, (x.callback mode primary e).Closed d ∧
        (x.callback mode primary e).promise.reply = d.1) := by
  have hfinal := hx.final
  constructor
  · cases e with
    | prepareTimeout s =>
        rintro ⟨_, _, h, _⟩
        rw [hfinal] at h
        cases h
    | _ => exact id
  · cases e with
    | prepareCallback s state timestamp =>
        simp only [Awaited.callback]
        split_ifs with hpending hdrop hslow hok
        · exact .inl (hx.shrink s)
        · refine .inr ⟨(state, ⟨timestamp, 0⟩), ⟨?_, rfl, rfl, rfl, hx.unasked hslow⟩, rfl⟩
          rw [hx.undecided]
          rfl
        · rw [hok]
          exact .inl (hx.agree hpending _)
        · exact .inl (hx.refuse hpending hok _)
        · exact .inl hx
    | prepareTimeout s =>
        simp only [Awaited.callback]
        split_ifs with hpending hwaiting
        · exact .inl (hx.refuse hpending (by decide) _)
        · exact .inl (hx.shrink s)
        · exact .inl hx
    | parallelModeCommitCallback state timestamp =>
        simp only [Awaited.callback]
        split_ifs with hasked hwaiting
        · refine .inr ⟨(state, ⟨timestamp, 0⟩), ⟨?_, rfl, rfl, rfl, rfl⟩, rfl⟩
          rw [hx.undecided]
          rfl
        · have hsmall := hx.shrink primary
          exact .inl ⟨hsmall.undecided, hsmall.final, hsmall.number, hsmall.replies, hsmall.codes,
            hsmall.agreed, hsmall.pending, hsmall.heard, hsmall.failed, hsmall.complete,
            fun _ => rfl⟩
        · exact .inl hx

/-- Where the promise is, if `timely` tells whether no timeout was late. -/
def Tracks (mode : TpcMode) (participants : Finset Shard) (timely : Prop) (x : Awaited) : Prop :=
  (x.Open mode participants ∧ timely) ∨ ∃ d, x.Closed d ∧
    (x.promise.reply = d.1 ∧ timely ∨
      x.promise.reply = replyTimeout ∧ d.1 ≠ replyTimeout ∧ ¬ timely)

theorem Tracks.callback {timely : Prop} (hx : x.Tracks mode participants timely)
    (primary : Shard) (e : PromiseEvent) :
    (x.callback mode primary e).Tracks mode participants (timely ∧ ¬ x.Late e) := by
  rcases hx with ⟨hopen, ht⟩ | ⟨d, hclosed, hreply⟩
  · obtain ⟨hlate, hnext | ⟨d, hclosed, hreply⟩⟩ := hopen.callback primary e
    · exact .inl ⟨hnext, ht, hlate⟩
    · exact .inr ⟨d, hclosed, .inl ⟨hreply, ht, hlate⟩⟩
  · obtain ⟨hnext, hstep⟩ := hclosed.callback mode primary e
    refine .inr ⟨d, hnext, ?_⟩
    rcases hreply with ⟨heq, ht⟩ | ⟨htimeout, hne, ht⟩
    · rcases hstep with ⟨hsame, hlate⟩ | ⟨hnew, hlate, hne⟩
      · exact .inl ⟨hsame.trans heq, ht, hlate⟩
      · rw [heq] at hne
        exact .inr ⟨hnew, hne, fun h => h.2 hlate⟩
    · refine .inr ⟨?_, hne, fun h => ht h.1⟩
      rcases hstep with ⟨hsame, _⟩ | ⟨hnew, _⟩
      · exact hsame.trans htimeout
      · exact hnew

theorem Tracks.honours_iff {timely : Prop} (hx : x.Tracks mode participants timely) :
    x.Honours participants ↔ timely := by
  rcases hx with ⟨hopen, ht⟩ | ⟨d, hclosed, hreply⟩
  · exact ⟨fun _ => ht, fun _ => hopen.honours⟩
  · have hmem : d ∈ x.decisions := by
      rw [hclosed.decided]
      exact List.mem_singleton_self d
    rcases hreply with ⟨heq, ht⟩ | ⟨htimeout, hne, ht⟩
    · refine ⟨fun _ => ht, fun _ => ⟨fun d' hd' => ?_, fun hnone => ?_⟩⟩
      · rw [hclosed.decided, List.mem_singleton] at hd'
        rw [hd', hclosed.getPrepareReply]
        exact ⟨hclosed.finished, heq, hclosed.timestamp⟩
      · rw [hnone] at hmem
        exact absurd hmem List.not_mem_nil
    · refine ⟨fun hhonours => absurd ?_ hne, fun h => absurd h ht⟩
      rw [← (hhonours.1 d hmem).2.1, hclosed.getPrepareReply, htimeout]

end Awaited

open Calls Awaited

/-! ### The callbacks of a client -/

namespace Awaited

/-- A client in whose round of `Commit` the promise is. -/
structure Shows (primary : Shard) (x : Awaited) (c : Client) : Prop where
  promise : c.promise = some x.promise
  waiting : ∀ ω s, Client.waitingOn ω c s = if s ∈ x.waiting then some x.promise else none
  pending : ∀ s, (∃ req, c.pendingReqs.lookup s = some (.prepare req)) ↔ s ∈ x.pending
  asked : (c.pendingParallelCommits.lookup primary).isSome = x.asked

section Client

variable {primary : Shard} {x : Awaited} {c : Client}

/-- The promise gets an answer. -/
theorem Shows.answer (hx : x.Shows primary c) {p : Promise}
    (hp : p.address = x.promise.address) :
    Shows primary { x with promise := p } { c with promise := some p } := by
  refine ⟨rfl, fun ω s => ?_, hx.pending, hx.asked⟩
  have hold := hx.waiting ω s
  unfold Client.waitingOn at hold ⊢
  cases hl : c.waiting.lookup s with
  | none =>
      rw [hl] at hold
      split_ifs at hold ⊢
      rfl
  | some a =>
      simp only [hl, hx.promise, Option.filter_some] at hold ⊢
      rw [hp]
      split_ifs at hold ⊢ <;> rfl

/-- A request is answered. -/
theorem Shows.erase (hx : x.Shows primary c) (s : Shard) :
    Shows primary { x with pending := x.pending.erase s }
      { c with pendingReqs := c.pendingReqs.erase s } := by
  refine ⟨hx.promise, hx.waiting, fun q => ?_, hx.asked⟩
  show (∃ req, (c.pendingReqs.erase s).lookup q = some (.prepare req)) ↔ q ∈ x.pending.erase s
  rw [Finset.mem_erase, ← hx.pending q]
  by_cases hq : q = s
  · rw [hq, AList.lookup_erase]
    exact ⟨fun ⟨_, h⟩ => (by cases h), fun h => absurd rfl h.1⟩
  · rw [AList.lookup_erase_ne hq]
    exact ⟨fun h => ⟨hq, h⟩, And.right⟩

/-- A `ShardClient` forgets the promise. -/
theorem Shows.clear (hx : x.Shows primary c) (s : Shard) :
    Shows primary { x with waiting := x.waiting.erase s }
      { c with waiting := c.waiting.erase s } := by
  refine ⟨hx.promise, fun ω q => ?_, hx.pending, hx.asked⟩
  have hold := hx.waiting ω q
  unfold Client.waitingOn at hold ⊢
  simp only [Finset.mem_erase]
  by_cases hq : q = s
  · rw [hq, AList.lookup_erase, if_neg fun h => h.1 rfl]
  · rw [AList.lookup_erase_ne hq]
    simp only [ne_eq, hq, not_false_eq_true, true_and]
    exact hold

variable {env : ClientEnv} {ω : Choice} {s : Shard} {y : Ctx Client Addr Msg Event}

/-- `PrepareCallback`, when the replies of the shard are in. -/
theorem Shows.prepareReply (hx : x.Shows primary y.state) {msg : PrepareTransactionReply}
    {req req' : LRClient.PendingPrepare}
    (hreq : y.state.pendingReqs.lookup s = some (.prepare req)) (hshard : msg.shard = s)
    (hanswer : Client.collectReply env req msg = (true, req')) :
    wp (Client.handlePrepareTxnReply env ω s msg)
      (fun _ z => Shows primary (x.callback env.cfg.mode primary (.prepareCallback s
        (if req'.state = .prepareOk then 0 else 1) req'.timestamp)) z.state)
      (fun _ => False) y := by
  have hpending : s ∈ x.pending := (hx.pending s).1 ⟨req, hreq⟩
  simp only [Client.handlePrepareTxnReply, Client.respond, LogEntryState.reported,
    Client.prepareCallback, wp_bind, wp_read, hreq, hanswer, hx.waiting, callback, hpending, if_true, hshard]
  by_cases hwaiting : s ∈ x.waiting
  · rw [if_pos hwaiting]
    simp only [wp_ite, wp_pure, wp_bind, Client.clearWaiting, Client.setPromise,
      Client.erasePendingReq, wp_update]
    refine ⟨fun hfinal => ?_, fun hfinal => ⟨fun hslow => ?_, fun hslow => ?_⟩⟩
    · have hdrop : s ∉ x.waiting ∨ x.promise.reachFinalDecision = true := .inr hfinal
      rw [if_pos hdrop]
      exact hx.erase s
    · rw [if_neg (by simp [hwaiting, hfinal]), if_pos hslow]
      have hnext := ((hx.clear s).answer (p := x.promise.replyFinal
        (if req'.state = .prepareOk then 0 else 1) ⟨req'.timestamp, 0⟩) rfl).erase s
      exact ⟨hnext.promise, hnext.waiting, hnext.pending, hnext.asked⟩
    · rw [if_neg (by simp [hwaiting, hfinal]), if_neg hslow]
      have hnext := (hx.answer (p := x.promise.replyShard s
        (if req'.state = .prepareOk then 0 else 1) ⟨req'.timestamp, 0⟩) ?_).erase s
      · exact ⟨hnext.promise, hnext.waiting, hnext.pending, hnext.asked⟩
      · unfold Promise.replyShard
        split_ifs <;> rfl
  · have hdrop : s ∉ x.waiting ∨ x.promise.reachFinalDecision = true := .inl hwaiting
    simp only [if_neg hwaiting, if_pos hdrop, wp_pure, Client.erasePendingReq, wp_update]
    exact hx.erase s

/-- `PrepareTimeout`, while the request is pending. -/
theorem Shows.timeout (hx : x.Shows primary y.state) (hpending : s ∈ x.pending) :
    wp (Client.prepareTimeoutCallback ω s)
      (fun _ z => Shows primary (x.callback env.cfg.mode primary (.prepareTimeout s)) z.state)
      (fun _ => False) y := by
  obtain ⟨req, hreq⟩ := (hx.pending s).2 hpending
  simp only [Client.prepareTimeoutCallback, wp_bind, wp_read, hreq, Client.erasePendingReq,
    wp_update, (hx.erase s).waiting, callback, hpending, if_true]
  by_cases hwaiting : s ∈ x.waiting
  · simp only [if_pos hwaiting, Client.setPromise, wp_update]
    have hnext := (hx.erase s).answer (p := x.promise.replyShard s replyTimeout {}) rfl
    exact ⟨hnext.promise, hnext.waiting, hnext.pending, hnext.asked⟩
  · simp only [if_neg hwaiting, wp_pure]
    exact hx.erase s

/-- `ParallelModeCommitCallback`, while the outcome is asked for. -/
theorem Shows.decision (hx : x.Shows primary y.state) (hasked : x.asked = true)
    (msg : ParallelModeCommitReply) :
    wp (Client.handleParallelModeCommitReply ω primary msg)
      (fun _ z => Shows primary (x.callback env.cfg.mode primary
        (.parallelModeCommitCallback msg.state.code msg.timestamp)) z.state)
      (fun _ => False) y := by
  obtain ⟨ps, hps⟩ := Option.isSome_iff_exists.1 (hx.asked.trans hasked)
  -- the outcome is no longer asked for
  have hquiet : Shows primary { x with asked := false, pending := x.pending.erase primary }
      { y.state with
        pendingParallelCommits := y.state.pendingParallelCommits.erase primary
        pendingReqs := y.state.pendingReqs.erase primary } := by
    have herase := hx.erase primary
    refine ⟨herase.promise, herase.waiting, herase.pending, ?_⟩
    show ((y.state.pendingParallelCommits.erase primary).lookup primary).isSome = false
    rw [AList.lookup_erase]
    rfl
  simp only [Client.handleParallelModeCommitReply, wp_bind, wp_read, hps, wp_update,
    Client.erasePendingReq, Client.replyGet, hquiet.waiting, callback, hasked, if_true]
  by_cases hwaiting : primary ∈ x.waiting
  · simp only [if_pos hwaiting, wp_bind, Client.clearWaiting, Client.setPromise, wp_update]
    have hnext := (hquiet.clear primary).answer
      (p := x.promise.replyFinal msg.state.code ⟨msg.timestamp, 0⟩) rfl
    exact ⟨hnext.promise, hnext.waiting, hnext.pending, hnext.asked⟩
  · simp only [if_neg hwaiting, Client.clearWaiting, wp_update]
    have hnext := hquiet.clear primary
    rw [Finset.erase_eq_of_notMem hwaiting] at hnext
    exact hnext

end Client

end Awaited


/-- **The promise honours the decision.** For every set of participants and every sequence of
callbacks before the application thread wakes up: `GetPrepareReply` answers with the status and
the timestamp of the final decision that was delivered, and without one with `REPLY_OK` exactly if
every participant agreed, exactly if no timeout of a shard was delivered after the decision. -/
theorem promise_honours_decision {mode : TpcMode} {participants : Finset Shard} {primary : Shard}
    (hne : participants.Nonempty)
    (hprimary : mode = .slow ∨ mode = .rc → primary ∈ participants) (address : ℕ)
    (es : List PromiseEvent) :
    Honours participants
        (run (callback mode primary) (start mode participants primary address) es) ↔
      Throughout (callback mode primary) (fun x e => ¬ x.Late e)
        (start mode participants primary address) es := by
  refine Awaited.Tracks.honours_iff (?_ : Awaited.Tracks mode participants _ _)
  induction es using List.reverseRecOn with
  | nil => exact .inl ⟨.start hne hprimary address, trivial⟩
  | append_singleton es e ih =>
      rw [run_concat, throughout_concat]
      exact ih.callback primary e

/-- The primary shard agrees and is told of the commit. -/
theorem promise_honours_commit :
    Honours {0, 1} (run (callback .parallel 0) (start .parallel {0, 1} 0 0)
      [.prepareCallback 0 0 5, .parallelModeCommitCallback 0 7]) :=
  (promise_honours_decision (by decide) (by decide) 0 _).2 ⟨id, id, trivial⟩

/-- **A commit is taken for a timeout.** The outcome is known to the client, and the other shard
does not answer in time. -/
theorem late_timeout_overrides :
    (run (callback .parallel 0) (start .parallel {0, 1} 0 0)
      [.parallelModeCommitCallback 0 7, .prepareTimeout 1]).promise.getPrepareReply =
        replyTimeout ∧
    ¬ Honours {0, 1} (run (callback .parallel 0) (start .parallel {0, 1} 0 0)
      [.parallelModeCommitCallback 0 7, .prepareTimeout 1]) := by
  have hreply : (run (callback .parallel 0) (start .parallel {0, 1} 0 0)
      [.parallelModeCommitCallback 0 7, .prepareTimeout 1]).promise.getPrepareReply =
        replyTimeout := by
    decide
  refine ⟨hreply, fun hhonours => ?_⟩
  have hcommit := (hhonours.1 (0, ⟨7, 0⟩) (by decide)).2.1
  rw [hreply] at hcommit
  exact absurd hcommit (by decide)

end D2PC
