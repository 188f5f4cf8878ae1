import D2PC.Lib.Calls
import D2PC.Lib.Table
import D2PC.Lib.Timers
import Mathlib.Algebra.Order.Group.Multiset
import Mathlib.Tactic.Abel

/-!
# The simulated transport

The messages of the parties that share a `SimulatedTransport` stand in one queue. Filters may drop
a message, change it or delay it; a delayed message is carried by a timer, on a virtual clock that
moves on when there is nothing in the queue.

* `SimulatedTransport.step` : the operations, and the steps of `Run`;
* `SimulatedTransport.accounts` : where every message and every timer is;
* `SimulatedTransport.messages_delivered` : every message is delivered once, or is still there, or
  was cancelled with its timer;
* `SimulatedTransport.sent_in_order` : without filters the messages are delivered in the order in
  which they were sent.
-/

namespace D2PC

/-! ### The state -/

/-- `QueuedMessage`. -/
structure QueuedMessage (M : Type) where
  dst : ℤ
  src : ℤ
  msg : M
  deriving DecidableEq

/-- What a timer calls. -/
inductive Callback (M C : Type) where
  /-- A delayed message is put into the queue. -/
  | push (q : QueuedMessage M)
  /-- A `Timeout` fires. -/
  | timeout (k : ℕ)
  | user (c : C)

abbrev PendingTimer (M C : Type) := Timer (Callback M C)

/-- `filter_t`, of the source and its index, the destination and its index, the message and its
delay: whether the message passes, and what the filter makes of both. -/
abbrev Filter (M : Type) := ℤ → ℤ → ℤ → ℤ → M → ℕ → Bool × M × ℕ

/-- `Timeout`. -/
structure Timeout where
  ms : ℕ
  timerId : ℤ := 0

/-- What happened. -/
inductive SimEvent (M C : Type) where
  /-- A message passed the filters. -/
  | accepted (q : QueuedMessage M)
  | queued (q : QueuedMessage M)
  /-- A message was handed to its receiver. -/
  | delivered (q : QueuedMessage M)
  /-- A timer was set, when the clock showed the time, for so many milliseconds. -/
  | set (now ms : ℕ) (t : PendingTimer M C)
  | fired (t : PendingTimer M C)
  | cancelled (t : PendingTimer M C)

/-- `SimulatedTransport`, with the `Timeout` objects that use it. Receivers are known by their
addresses. The log is not in the code; the specifications speak of it. -/
structure SimulatedTransport (M C : Type) where
  queue : List (QueuedMessage M) := []
  /-- `Run` is in the `ReceiveMessage` of the first message. -/
  receiving : Bool := false
  lastAddr : ℤ := -1
  replicaIdxs : Table ℤ ℤ := ∅
  filters : List (ℤ × Filter M) := []
  timers : List (PendingTimer M C) := []
  lastTimerId : ℤ := 0
  vtime : ℕ := 0
  processTimers : Bool := true
  timeouts : ℕ → Timeout
  log : List (SimEvent M C) := []

namespace SimulatedTransport

variable {M C : Type}

/-! ### The operations -/

/-- `Register`. -/
def register (replicaIdx : ℤ) (s : SimulatedTransport M C) : SimulatedTransport M C :=
  { s with
    lastAddr := s.lastAddr + 1
    replicaIdxs := s.replicaIdxs.insert (s.lastAddr + 1) replicaIdx }

/-- The number after this one, an `int`. -/
def nextTimerId (id : ℤ) : ℤ := Int.bmod (id + 1) (2 ^ 32)

/-- `Timer`. -/
def timer (ms : ℕ) (cb : Callback M C) (s : SimulatedTransport M C) : SimulatedTransport M C :=
  let t : PendingTimer M C :=
    { when := (s.vtime + ms) % 2 ^ 64
      id := nextTimerId s.lastTimerId
      cb := cb }
  { s with
    lastTimerId := nextTimerId s.lastTimerId
    timers := t.insert s.timers
    log := s.log ++ [.set s.vtime ms t] }

/-- `CancelTimer`. -/
def cancelTimer (id : ℤ) (s : SimulatedTransport M C) : SimulatedTransport M C :=
  { s with
    timers := s.timers.filter (·.id ≠ id)
    log := s.log ++ (s.timers.filter (·.id = id)).map .cancelled }

/-- `CancelAllTimers`. -/
def cancelAllTimers (s : SimulatedTransport M C) : SimulatedTransport M C :=
  { s with
    timers := []
    processTimers := false
    log := s.log ++ s.timers.map .cancelled }

/-- A message is put into the queue. -/
def push (q : QueuedMessage M) (s : SimulatedTransport M C) : SimulatedTransport M C :=
  { s with queue := s.queue ++ [q], log := s.log ++ [.queued q] }

/-- The loop over the filters: what passes them, and its delay. -/
def passFilters (src srcIdx dst dstIdx : ℤ) : List (ℤ × Filter M) → M → ℕ → Option (M × ℕ)
  | [], m, delay => some (m, delay)
  | (_, f) :: fs, m, delay =>
      match f src srcIdx dst dstIdx m delay with
      | (false, _, _) => none
      | (true, m, delay) => passFilters src srcIdx dst dstIdx fs m delay

/-- What passes the filters of a message, from one address to another. -/
def filtered (src dst : ℤ) (m : M) (s : SimulatedTransport M C) : Option (M × ℕ) :=
  passFilters src ((s.replicaIdxs.lookup src).getD 0) dst ((s.replicaIdxs.lookup dst).getD 0)
    s.filters m 0

/-- `SendMessageInternal`. -/
def sendMessageInternal (src dst : ℤ) (m : M) (s : SimulatedTransport M C) :
    SimulatedTransport M C :=
  match s.filtered src dst m with
  | none => s
  | some (m, delay) =>
      let q : QueuedMessage M :=
        { dst := dst
          src := src
          msg := m }
      let s := { s with log := s.log ++ [SimEvent.accepted q] }
      if delay = 0 then s.push q else s.timer delay (.push q)

/-- A filter comes after those with the same number. -/
def insertFilter (id : ℤ) (f : Filter M) : List (ℤ × Filter M) → List (ℤ × Filter M)
  | [] => [(id, f)]
  | g :: gs => if id < g.1 then (id, f) :: g :: gs else g :: insertFilter id f gs

/-- `AddFilter`. -/
def addFilter (id : ℤ) (f : Filter M) (s : SimulatedTransport M C) : SimulatedTransport M C :=
  { s with filters := insertFilter id f s.filters }

/-- `RemoveFilter`. -/
def removeFilter (id : ℤ) (s : SimulatedTransport M C) : SimulatedTransport M C :=
  { s with filters := s.filters.filter (·.1 ≠ id) }

/-- A `Timeout` is written. -/
def setTimeouts (k : ℕ) (t : Timeout) (s : SimulatedTransport M C) : SimulatedTransport M C :=
  { s with timeouts := Function.update s.timeouts k t }

/-- `Timeout::Stop`. -/
def stop (k : ℕ) (s : SimulatedTransport M C) : SimulatedTransport M C :=
  if 0 < (s.timeouts k).timerId then
    (s.cancelTimer (s.timeouts k).timerId).setTimeouts k { s.timeouts k with timerId := 0 }
  else s

/-- `Timeout::Reset`, which is `Timeout::Start`, too. -/
def reset (k : ℕ) (s : SimulatedTransport M C) : SimulatedTransport M C :=
  let s := s.stop k
  (s.timer (s.timeouts k).ms (.timeout k)).setTimeouts k
    { s.timeouts k with timerId := nextTimerId s.lastTimerId }

/-- `Timeout::SetTimeout`. Assertions are not compiled in. -/
def setTimeout (k ms : ℕ) (s : SimulatedTransport M C) : SimulatedTransport M C :=
  s.setTimeouts k { s.timeouts k with ms := ms }

/-! ### The loop -/

/-- The first timer is called. What the callback of a `Timeout` or of the user does then are
operations of their own. -/
def call (cb : Callback M C) (s : SimulatedTransport M C) : SimulatedTransport M C :=
  match cb with
  | .push q => s.push q
  | .timeout k => (s.setTimeouts k { s.timeouts k with timerId := 0 }).reset k
  | .user _ => s

/-- The first timer is taken out, and the clock moves on to it. -/
def expire (t : PendingTimer M C) (ts : List (PendingTimer M C)) (s : SimulatedTransport M C) :
    SimulatedTransport M C :=
  { s with
    vtime := t.when
    timers := ts
    log := s.log ++ [.fired t] }

/-- `Run`, where it delivers the earliest timer. -/
def fire (s : SimulatedTransport M C) : SimulatedTransport M C :=
  match s.timers with
  | [] => s
  | t :: ts =>
      if s.receiving = false ∧ s.queue = [] ∧ s.processTimers then
        (s.expire t ts).call t.cb
      else s

/-- `Run`, where it hands the first message to its receiver. -/
def receive (s : SimulatedTransport M C) : SimulatedTransport M C :=
  match s.queue with
  | [] => s
  | q :: _ =>
      if s.receiving = false then { s with receiving := true, log := s.log ++ [.delivered q] }
      else s

/-- `Run`, where the receiver is done. -/
def received (s : SimulatedTransport M C) : SimulatedTransport M C :=
  if s.receiving = true then { s with receiving := false, queue := s.queue.tail } else s

/-- What is done with the transport: by its users, at any time, and by `Run`. -/
inductive Action (M C : Type) where
  | register (replicaIdx : ℤ)
  | send (src dst : ℤ) (m : M)
  | timer (ms : ℕ) (c : C)
  | cancelTimer (id : ℤ)
  | cancelAllTimers
  | addFilter (id : ℤ) (f : Filter M)
  | removeFilter (id : ℤ)
  | reset (k : ℕ)
  | stop (k : ℕ)
  | setTimeout (k ms : ℕ)
  | receive
  | received
  | fire

/-- A step. -/
def step (s : SimulatedTransport M C) : Action M C → SimulatedTransport M C
  | .register replicaIdx => s.register replicaIdx
  | .send src dst m => s.sendMessageInternal src dst m
  | .timer ms c => s.timer ms (.user c)
  | .cancelTimer id => s.cancelTimer id
  | .cancelAllTimers => s.cancelAllTimers
  | .addFilter id f => s.addFilter id f
  | .removeFilter id => s.removeFilter id
  | .reset k => s.reset k
  | .stop k => s.stop k
  | .setTimeout k ms => s.setTimeout k ms
  | .receive => s.receive
  | .received => s.received
  | .fire => s.fire

/-- The transport at the start, with `Timeout` objects that are not running. -/
def initial (ms : ℕ → ℕ) : SimulatedTransport M C where
  timeouts k := { ms := ms k }

/-! ### The log -/

/-- The message that passed the filters. -/
def acceptedOf : SimEvent M C → Option (QueuedMessage M)
  | .accepted q => some q
  | _ => none

/-- The message that was put into the queue. -/
def queuedOf : SimEvent M C → Option (QueuedMessage M)
  | .queued q => some q
  | _ => none

/-- The message that was handed to its receiver. -/
def deliveredOf : SimEvent M C → Option (QueuedMessage M)
  | .delivered q => some q
  | _ => none

/-- The timer that was set. -/
def setOf : SimEvent M C → Option (PendingTimer M C)
  | .set _ _ t => some t
  | _ => none

/-- The timer that fired. -/
def firedOf : SimEvent M C → Option (PendingTimer M C)
  | .fired t => some t
  | _ => none

/-- The timer that was cancelled. -/
def cancelledOf : SimEvent M C → Option (PendingTimer M C)
  | .cancelled t => some t
  | _ => none

/-- What is in the queue behind the message that is being received. -/
def waiting (s : SimulatedTransport M C) : List (QueuedMessage M) :=
  if s.receiving then s.queue.tail else s.queue

/-- The message a timer carries. -/
def carried : Callback M C → Option (QueuedMessage M)
  | .push q => some q
  | _ => none

/-- The messages that timers carry. -/
def carriedBy (ts : List (PendingTimer M C)) : List (QueuedMessage M) :=
  ts.filterMap fun t => carried t.cb

/-! ### Nothing is lost, and nothing is done twice -/

/-- **The accounts.** Every message that passed the filters was put into the queue, is carried by a
timer or was cancelled with it, up to that of `extra`; every timer that was set fired, is pending
or was cancelled. -/
structure Accounts (extra : Option (QueuedMessage M)) (s : SimulatedTransport M C) : Prop where
  queue : s.log.filterMap queuedOf = s.log.filterMap deliveredOf ++ s.waiting
  receiving : s.receiving = true → s.queue ≠ []
  messages : (s.log.filterMap acceptedOf : Multiset (QueuedMessage M)) =
    ↑(s.log.filterMap queuedOf) + ↑(carriedBy s.timers) +
      ↑(carriedBy (s.log.filterMap cancelledOf)) + ↑extra.toList
  timers : (s.log.filterMap setOf : Multiset (PendingTimer M C)) =
    ↑(s.log.filterMap firedOf) + ↑s.timers + ↑(s.log.filterMap cancelledOf)

variable {s s' : SimulatedTransport M C} {extra extra' : Option (QueuedMessage M)}
variable {cb : Callback M C} {es : List (SimEvent M C)}

/-- **The accounts are brought forward**: what the new entries of the log say is what changes. -/
theorem Accounts.next (h : Accounts extra s) (es : List (SimEvent M C))
    (hlog : s'.log = s.log ++ es)
    (hreceiving : s'.receiving = true → s'.queue ≠ [])
    (hqueue : s.waiting ++ es.filterMap queuedOf = es.filterMap deliveredOf ++ s'.waiting)
    (hmessages : (es.filterMap acceptedOf : Multiset (QueuedMessage M)) + ↑(carriedBy s.timers) +
      ↑extra.toList = ↑(es.filterMap queuedOf) + ↑(carriedBy s'.timers) +
        ↑(carriedBy (es.filterMap cancelledOf)) + ↑extra'.toList)
    (htimers : (es.filterMap setOf : Multiset (PendingTimer M C)) + ↑s.timers =
      ↑(es.filterMap firedOf) + ↑s'.timers + ↑(es.filterMap cancelledOf)) :
    Accounts extra' s' := by
  refine ⟨?_, hreceiving, ?_, ?_⟩
  · rw [hlog, List.filterMap_append, List.filterMap_append, h.queue, List.append_assoc, hqueue,
      List.append_assoc]
  · rw [hlog, List.filterMap_append, List.filterMap_append, List.filterMap_append, carriedBy,
      carriedBy, List.filterMap_append, ← Multiset.coe_add, ← Multiset.coe_add,
      ← Multiset.coe_add, h.messages]
    have hsum := congrArg (fun m => (s.log.filterMap queuedOf : Multiset (QueuedMessage M)) +
      ↑(carriedBy (s.log.filterMap cancelledOf)) + m) hmessages
    simp only [carriedBy] at hsum ⊢
    convert hsum using 1
    · abel
    · abel
  · rw [hlog, List.filterMap_append, List.filterMap_append, List.filterMap_append,
      ← Multiset.coe_add, ← Multiset.coe_add, ← Multiset.coe_add, h.timers]
    have hsum := congrArg (fun m => (s.log.filterMap firedOf : Multiset (PendingTimer M C)) +
      ↑(s.log.filterMap cancelledOf) + m) htimers
    convert hsum using 1
    · abel
    · abel

theorem Accounts.push {q : QueuedMessage M} (h : Accounts (some q) s) :
    Accounts none (s.push q) := by
  have hwaiting : (s.push q).waiting = s.waiting ++ [q] := by
    show (if s.receiving then (s.queue ++ [q]).tail else s.queue ++ [q]) = _
    rw [waiting]
    split_ifs with hr
    · exact List.tail_append_of_ne_nil (h.receiving hr)
    · rfl
  refine h.next [.queued q] rfl (fun _ => List.concat_ne_nil _ _) hwaiting.symm ?_ ?_
  · show (0 : Multiset (QueuedMessage M)) + ↑(carriedBy s.timers) + {q} =
      {q} + ↑(carriedBy s.timers) + 0 + 0
    abel
  · show (0 : Multiset (PendingTimer M C)) + ↑s.timers = 0 + ↑s.timers + 0
    abel

theorem carriedBy_insert (t : PendingTimer M C) (ts : List (PendingTimer M C)) :
    (carriedBy (t.insert ts) : Multiset (QueuedMessage M)) =
      ↑(carried t.cb).toList + ↑(carriedBy ts) := by
  have hperm := Multiset.coe_eq_coe.2 ((t.insert_perm ts).filterMap fun t => carried t.cb)
  rw [carriedBy, hperm, List.filterMap_cons]
  cases carried t.cb with
  | none => exact (zero_add _).symm
  | some q => rfl

theorem coe_insert (t : PendingTimer M C) (ts : List (PendingTimer M C)) :
    (t.insert ts : Multiset (PendingTimer M C)) = {t} + ↑ts :=
  Multiset.coe_eq_coe.2 (t.insert_perm ts)

theorem Accounts.timer (cb : Callback M C) (h : Accounts (carried cb) s) (ms : ℕ) :
    Accounts none (s.timer ms cb) := by
  refine h.next [.set s.vtime ms ⟨(s.vtime + ms) % 2 ^ 64, nextTimerId s.lastTimerId, cb⟩] rfl
    h.receiving (List.append_nil _) ?_ ?_
  · show (0 : Multiset (QueuedMessage M)) + ↑(carriedBy s.timers) + ↑(carried cb).toList =
      0 + ↑(carriedBy (Timer.insert _ s.timers)) + 0 + 0
    rw [carriedBy_insert]
    abel
  · show ({_} : Multiset (PendingTimer M C)) + ↑s.timers = 0 + ↑(Timer.insert _ s.timers) + 0
    rw [coe_insert]
    abel

theorem filterMap_cancelled (ts : List (PendingTimer M C)) :
    (ts.map SimEvent.cancelled).filterMap cancelledOf = ts := by
  rw [List.filterMap_map]
  exact List.filterMap_some

theorem filterMap_map_none {α : Type} {f : SimEvent M C → Option α}
    (hf : ∀ t, f (.cancelled t) = none) (ts : List (PendingTimer M C)) :
    (ts.map SimEvent.cancelled).filterMap f = [] := by
  rw [List.filterMap_map]
  exact List.filterMap_eq_nil_iff.2 fun t _ => hf t

/-- Some of the timers are cancelled. -/
theorem Accounts.cancel (h : Accounts extra s) (lost : List (PendingTimer M C))
    (hlog : s'.log = s.log ++ lost.map .cancelled) (hqueue : s'.queue = s.queue)
    (hreceiving : s'.receiving = s.receiving)
    (hsplit : (s.timers : Multiset (PendingTimer M C)) = ↑s'.timers + ↑lost) :
    Accounts extra s' := by
  have hwaiting : s'.waiting = s.waiting := by rw [waiting, waiting, hqueue, hreceiving]
  refine h.next _ hlog ?_ ?_ ?_ ?_
  · rw [hqueue, hreceiving]
    exact h.receiving
  · rw [filterMap_map_none fun _ => rfl, filterMap_map_none fun _ => rfl, hwaiting]
    exact List.append_nil _
  · have hcarried : (carriedBy s.timers : Multiset (QueuedMessage M)) =
        ↑(carriedBy s'.timers) + ↑(carriedBy lost) := by
      rw [carriedBy, carriedBy, carriedBy, Multiset.coe_add, ← List.filterMap_append]
      refine Multiset.coe_eq_coe.2 ((Multiset.coe_eq_coe.1 ?_).filterMap _)
      rw [hsplit, Multiset.coe_add]
    rw [filterMap_map_none fun _ => rfl, filterMap_map_none fun _ => rfl, filterMap_cancelled,
      hcarried]
    simp only [Multiset.coe_nil]
    abel
  · rw [filterMap_map_none fun _ => rfl, filterMap_map_none fun _ => rfl, filterMap_cancelled,
      hsplit]
    simp only [Multiset.coe_nil]
    abel

theorem Accounts.cancelTimer (h : Accounts extra s) (id : ℤ) :
    Accounts extra (s.cancelTimer id) := by
  refine h.cancel (s.timers.filter (·.id = id)) rfl rfl rfl ?_
  have hsplit := Multiset.filter_add_not (fun t : PendingTimer M C => t.id = id) ↑s.timers
  rw [← hsplit, add_comm, Multiset.filter_coe, Multiset.filter_coe]
  rfl

theorem Accounts.cancelAllTimers (h : Accounts extra s) : Accounts extra s.cancelAllTimers :=
  h.cancel s.timers rfl rfl rfl (zero_add _).symm

/-- What does not touch the messages and the timers. -/
theorem Accounts.same (h : Accounts extra s) (hlog : s'.log = s.log) (hqueue : s'.queue = s.queue)
    (hreceiving : s'.receiving = s.receiving) (htimers : s'.timers = s.timers) :
    Accounts extra s' := by
  refine h.cancel [] ?_ hqueue hreceiving ?_
  · rw [hlog]
    exact (List.append_nil _).symm
  · rw [htimers]
    exact (add_zero _).symm

theorem Accounts.stop (h : Accounts extra s) (k : ℕ) : Accounts extra (s.stop k) := by
  rw [SimulatedTransport.stop]
  split_ifs
  · exact (h.cancelTimer _).same rfl rfl rfl rfl
  · exact h

theorem Accounts.reset (h : Accounts none s) (k : ℕ) : Accounts none (s.reset k) :=
  (Accounts.timer (.timeout k) (h.stop k) _).same rfl rfl rfl rfl

theorem Accounts.call (h : Accounts (carried cb) s) : Accounts none (s.call cb) := by
  cases cb with
  | push q => exact h.push
  | timeout k =>
      have hidle : Accounts none (s.setTimeouts k { s.timeouts k with timerId := 0 }) :=
        h.same rfl rfl rfl rfl
      exact hidle.reset k
  | user c => exact h

theorem Accounts.fire (h : Accounts none s) : Accounts none s.fire := by
  rw [SimulatedTransport.fire]
  split
  · exact h
  · rename_i t ts htimers
    split_ifs with hready
    · refine Accounts.call (h.next [.fired t] rfl h.receiving (List.append_nil _) ?_ ?_)
      · rw [htimers]
        show (0 : Multiset (QueuedMessage M)) + ↑(carriedBy (t :: ts)) + 0 =
          0 + ↑(carriedBy ts) + 0 + ↑(carried t.cb).toList
        rw [carriedBy, List.filterMap_cons]
        cases carried t.cb with
        | none =>
            show (0 : Multiset (QueuedMessage M)) + ↑(carriedBy ts) + 0 =
              0 + ↑(carriedBy ts) + 0 + 0
            abel
        | some q =>
            show (0 : Multiset (QueuedMessage M)) + ({q} + ↑(carriedBy ts)) + 0 =
              0 + ↑(carriedBy ts) + 0 + {q}
            abel
      · rw [htimers]
        show (0 : Multiset (PendingTimer M C)) + ({t} + ↑ts) = {t} + ↑ts + 0
        abel
    · exact h

theorem Accounts.receive (h : Accounts none s) : Accounts none s.receive := by
  rw [SimulatedTransport.receive]
  split
  · exact h
  · rename_i q qs hqueue
    split_ifs with hready
    · refine h.next [.delivered q] rfl (fun _ => ?_) ?_ ?_ ?_
      · show s.queue ≠ []
        rw [hqueue]
        exact List.cons_ne_nil _ _
      · show s.waiting ++ [] = [q] ++ s.queue.tail
        rw [List.append_nil, waiting, hready, hqueue]
        rfl
      · show (0 : Multiset (QueuedMessage M)) + ↑(carriedBy s.timers) + 0 =
          0 + ↑(carriedBy s.timers) + 0 + 0
        abel
      · show (0 : Multiset (PendingTimer M C)) + ↑s.timers = 0 + ↑s.timers + 0
        abel
    · exact h

theorem Accounts.received (h : Accounts none s) : Accounts none s.received := by
  rw [SimulatedTransport.received]
  split_ifs with hready
  · refine ⟨?_, (fun hr => by cases hr), h.messages, h.timers⟩
    have hqueue := h.queue
    rw [waiting, hready] at hqueue
    exact hqueue
  · exact h

theorem Accounts.send (h : Accounts none s) (src dst : ℤ) (m : M) :
    Accounts none (s.sendMessageInternal src dst m) := by
  rw [sendMessageInternal]
  split
  · exact h
  · rename_i m' delay hm
    have haccepted : Accounts (some ⟨dst, src, m'⟩) { s with
        log := s.log ++ [SimEvent.accepted ⟨dst, src, m'⟩] } := by
      refine h.next [.accepted ⟨dst, src, m'⟩] rfl h.receiving (List.append_nil _) ?_ ?_
      · show ({_} : Multiset (QueuedMessage M)) + ↑(carriedBy s.timers) + 0 =
          0 + ↑(carriedBy s.timers) + 0 + {_}
        abel
      · show (0 : Multiset (PendingTimer M C)) + ↑s.timers = 0 + ↑s.timers + 0
        abel
    show Accounts none (if delay = 0 then _ else _)
    split_ifs
    · exact haccepted.push
    · exact Accounts.timer (.push ⟨dst, src, m'⟩) haccepted delay

theorem Accounts.step (h : Accounts none s) (a : Action M C) : Accounts none (s.step a) := by
  cases a with
  | register replicaIdx => exact h.same rfl rfl rfl rfl
  | send src dst m => exact h.send src dst m
  | timer ms c => exact Accounts.timer (.user c) h ms
  | cancelTimer id => exact h.cancelTimer id
  | cancelAllTimers => exact h.cancelAllTimers
  | addFilter id f => exact h.same rfl rfl rfl rfl
  | removeFilter id => exact h.same rfl rfl rfl rfl
  | reset k => exact h.reset k
  | stop k => exact h.stop k
  | setTimeout k ms => exact h.same rfl rfl rfl rfl
  | receive => exact h.receive
  | received => exact h.received
  | fire => exact h.fire

theorem Accounts.initial (ms : ℕ → ℕ) : Accounts none (initial ms : SimulatedTransport M C) :=
  ⟨rfl, (fun h => by cases h), rfl, rfl⟩

theorem accounts (ms : ℕ → ℕ) (ops : List (Action M C)) :
    Accounts none (Calls.run step (initial ms) ops) :=
  Calls.run_invariant (Accounts.initial ms) fun a _ _ h => h.step a

/-- **Every message, once.** What was put into the queue was delivered, in this order, or waits;
every message that passed the filters was put there, is carried by a timer or was cancelled with
it. -/
theorem messages_delivered (ms : ℕ → ℕ) (ops : List (Action M C)) :
    let s := Calls.run step (initial ms) ops
    s.log.filterMap queuedOf = s.log.filterMap deliveredOf ++ s.waiting ∧
      (s.log.filterMap acceptedOf).Perm (s.log.filterMap deliveredOf ++ s.waiting ++
        carriedBy s.timers ++ carriedBy (s.log.filterMap cancelledOf)) := by
  intro s
  have h : Accounts none s := accounts ms ops
  refine ⟨h.queue, Multiset.coe_eq_coe.1 ?_⟩
  rw [h.messages, h.queue]
  exact add_zero _

/-! ### A transport without filters -/

/-- The message that the step sends. -/
def sentOf : Action M C → Option (QueuedMessage M)
  | .send src dst m => some ⟨dst, src, m⟩
  | _ => none

/-- The step adds a filter. -/
def addsFilter : Action M C → Bool
  | .addFilter _ _ => true
  | _ => false

/-- There are no filters, no timer carries a message, and what was accepted was put into the
queue. -/
structure Plain (s : SimulatedTransport M C) : Prop where
  filters : s.filters = []
  timers : ∀ t ∈ s.timers, carried t.cb = none
  queued : s.log.filterMap queuedOf = s.log.filterMap acceptedOf

theorem Plain.of (h : Plain s) (hlog : s'.log = s.log ++ es)
    (hes : es.filterMap queuedOf = es.filterMap acceptedOf) (hfilters : s'.filters = s.filters)
    (htimers : ∀ t ∈ s'.timers, t ∈ s.timers) : Plain s' := by
  refine ⟨hfilters.trans h.filters, fun t ht => h.timers t (htimers t ht), ?_⟩
  rw [hlog, List.filterMap_append, List.filterMap_append, h.queued, hes]

theorem Plain.timer (h : Plain s) (ms : ℕ) (hcb : carried cb = none) :
    Plain (s.timer ms cb) ∧
      (s.timer ms cb).log.filterMap acceptedOf = s.log.filterMap acceptedOf := by
  have haccepted : (s.timer ms cb).log.filterMap acceptedOf = s.log.filterMap acceptedOf := by
    show (s.log ++ [_]).filterMap acceptedOf = _
    rw [List.filterMap_append]
    exact List.append_nil _
  refine ⟨⟨h.filters, fun t ht => ?_, ?_⟩, haccepted⟩
  · rcases Timer.mem_insert.1 ht with rfl | ht
    · exact hcb
    · exact h.timers t ht
  · rw [haccepted, ← h.queued]
    show (s.log ++ [_]).filterMap queuedOf = _
    rw [List.filterMap_append]
    exact List.append_nil _

/-- The step sends nothing. -/
theorem Plain.quiet (h : Plain s) (hlog : s'.log = s.log ++ es)
    (hqueued : es.filterMap queuedOf = []) (haccepted : es.filterMap acceptedOf = [])
    (hfilters : s'.filters = s.filters) (htimers : ∀ t ∈ s'.timers, t ∈ s.timers) :
    Plain s' ∧ s'.log.filterMap acceptedOf = s.log.filterMap acceptedOf := by
  refine ⟨h.of hlog (hqueued.trans haccepted.symm) hfilters htimers, ?_⟩
  rw [hlog, List.filterMap_append, haccepted, List.append_nil]

theorem Plain.same (h : Plain s) (hlog : s'.log = s.log) (hfilters : s'.filters = s.filters)
    (htimers : s'.timers = s.timers) :
    Plain s' ∧ s'.log.filterMap acceptedOf = s.log.filterMap acceptedOf :=
  h.quiet (hlog.trans (List.append_nil _).symm) rfl rfl hfilters fun _ ht => htimers ▸ ht

theorem Plain.cancelTimer (h : Plain s) (id : ℤ) : Plain (s.cancelTimer id) ∧
    (s.cancelTimer id).log.filterMap acceptedOf = s.log.filterMap acceptedOf :=
  h.quiet rfl (filterMap_map_none (fun _ => rfl) _) (filterMap_map_none (fun _ => rfl) _) rfl
    fun _ ht => List.filter_sublist.subset ht

theorem Plain.stop (h : Plain s) (k : ℕ) : Plain (s.stop k) ∧
    (s.stop k).log.filterMap acceptedOf = s.log.filterMap acceptedOf := by
  rw [SimulatedTransport.stop]
  split_ifs
  · obtain ⟨hcancel, haccepted⟩ := h.cancelTimer (s.timeouts k).timerId
    exact ⟨hcancel.of (List.append_nil _).symm rfl rfl fun _ ht => ht, haccepted⟩
  · exact ⟨h, rfl⟩

theorem Plain.reset (h : Plain s) (k : ℕ) : Plain (s.reset k) ∧
    (s.reset k).log.filterMap acceptedOf = s.log.filterMap acceptedOf := by
  obtain ⟨hstop, haccepted⟩ := h.stop k
  have hcb : carried (.timeout k : Callback M C) = none := rfl
  obtain ⟨htimer, hsame⟩ := hstop.timer ((s.stop k).timeouts k).ms hcb
  exact ⟨htimer.of (List.append_nil _).symm rfl rfl fun _ ht => ht, hsame.trans haccepted⟩

theorem Plain.fire (h : Plain s) : Plain s.fire ∧
    s.fire.log.filterMap acceptedOf = s.log.filterMap acceptedOf := by
  rw [SimulatedTransport.fire]
  split
  · exact ⟨h, rfl⟩
  · rename_i t ts htimers
    split_ifs
    · have hcb := h.timers t (htimers ▸ .head ts)
      have hexpire : Plain (s.expire t ts) ∧
          (s.expire t ts).log.filterMap acceptedOf = s.log.filterMap acceptedOf :=
        h.quiet rfl rfl rfl rfl fun u hu => htimers ▸ .tail t hu
      obtain ⟨hrest, haccepted⟩ := hexpire
      obtain ⟨due, id, cb⟩ := t
      cases cb with
      | push q => cases hcb
      | timeout k =>
          have hcleared : Plain ((s.expire ⟨due, id, .timeout k⟩ ts).setTimeouts k
              { s.timeouts k with timerId := 0 }) :=
            hrest.of (List.append_nil _).symm rfl rfl fun _ ht => ht
          obtain ⟨hreset, hsame⟩ := hcleared.reset k
          exact ⟨hreset, hsame.trans haccepted⟩
      | user c => exact ⟨hrest, haccepted⟩
    · exact ⟨h, rfl⟩

theorem Plain.send (h : Plain s) (src dst : ℤ) (m : M) :
    Plain (s.sendMessageInternal src dst m) ∧
      (s.sendMessageInternal src dst m).log.filterMap acceptedOf =
        s.log.filterMap acceptedOf ++ [⟨dst, src, m⟩] := by
  have hpasses : s.filtered src dst m = some (m, 0) := by
    rw [filtered, h.filters]
    rfl
  rw [sendMessageInternal, hpasses]
  let q : QueuedMessage M := ⟨dst, src, m⟩
  have hlog : s.log ++ [SimEvent.accepted q] ++ [SimEvent.queued q] =
      s.log ++ [SimEvent.accepted q, SimEvent.queued q] := List.append_assoc _ _ _
  refine ⟨h.of hlog rfl rfl fun _ ht => ht, ?_⟩
  show (s.log ++ [SimEvent.accepted q] ++ [SimEvent.queued q]).filterMap acceptedOf = _
  rw [hlog, List.filterMap_append]
  rfl

theorem Plain.step (h : Plain s) {a : Action M C} (ha : addsFilter a = false) :
    Plain (s.step a) ∧ (s.step a).log.filterMap acceptedOf =
      s.log.filterMap acceptedOf ++ (sentOf a).toList := by
  have hnil : s.log.filterMap acceptedOf ++ [] = s.log.filterMap acceptedOf := List.append_nil _
  cases a with
  | register replicaIdx => exact hnil.symm ▸ h.same rfl rfl rfl
  | send src dst m => exact h.send src dst m
  | timer ms c => exact hnil.symm ▸ h.timer ms rfl
  | cancelTimer id => exact hnil.symm ▸ h.cancelTimer id
  | cancelAllTimers =>
      exact hnil.symm ▸ h.quiet rfl (filterMap_map_none (fun _ => rfl) _)
        (filterMap_map_none (fun _ => rfl) _) rfl fun _ ht => absurd ht List.not_mem_nil
  | addFilter id f => cases ha
  | removeFilter id =>
      refine hnil.symm ▸ h.same rfl ?_ rfl
      show s.filters.filter _ = s.filters
      rw [h.filters]
      rfl
  | reset k => exact hnil.symm ▸ h.reset k
  | stop k => exact hnil.symm ▸ h.stop k
  | setTimeout k ms => exact hnil.symm ▸ h.same rfl rfl rfl
  | receive =>
      show Plain s.receive ∧ s.receive.log.filterMap acceptedOf = _ ++ []
      rw [hnil, SimulatedTransport.receive]
      split
      · exact ⟨h, rfl⟩
      · split_ifs
        · exact h.quiet rfl rfl rfl rfl fun _ ht => ht
        · exact ⟨h, rfl⟩
  | received =>
      show Plain s.received ∧ s.received.log.filterMap acceptedOf = _ ++ []
      rw [hnil, SimulatedTransport.received]
      split_ifs
      · exact h.same rfl rfl rfl
      · exact ⟨h, rfl⟩
  | fire => exact hnil.symm ▸ h.fire

theorem plain (ms : ℕ → ℕ) {ops : List (Action M C)}
    (hops : ∀ a ∈ ops, addsFilter a = false) :
    Plain (Calls.run step (initial ms) ops) ∧
      (Calls.run step (initial ms) ops).log.filterMap acceptedOf = ops.filterMap sentOf := by
  induction ops using List.reverseRecOn with
  | nil => exact ⟨⟨rfl, fun _ ht => absurd ht List.not_mem_nil, rfl⟩, rfl⟩
  | append_singleton ops a ih =>
      have hbefore : ∀ b ∈ ops, addsFilter b = false := fun b hb =>
        hops b (List.mem_append_left _ hb)
      obtain ⟨hplain, haccepted⟩ := ih hbefore
      obtain ⟨hstep, hnext⟩ := hplain.step (hops a (List.mem_append_right _ (.head _)))
      rw [Calls.run_concat]
      refine ⟨hstep, ?_⟩
      rw [hnext, haccepted, List.filterMap_append]
      rfl

/-- **First in, first out.** Where no filter is added, the messages are delivered in the order in
which they were sent, each once, and the others wait in this order. -/
theorem sent_in_order (ms : ℕ → ℕ) {ops : List (Action M C)}
    (hops : ∀ a ∈ ops, addsFilter a = false) :
    let s := Calls.run step (initial ms) ops
    ops.filterMap sentOf = s.log.filterMap deliveredOf ++ s.waiting := by
  intro s
  obtain ⟨hplain, hsent⟩ := plain ms hops
  rw [← hsent, ← hplain.queued]
  exact (accounts ms ops).queue

theorem sent_in_order_two :
    let ops : List (Action ℕ ℕ) :=
      [.send 0 1 7, .receive, .send 1 0 8, .timer 3 5, .received, .receive, .received, .fire]
    let s := Calls.run step (initial fun _ => 0) ops
    ops.filterMap sentOf = s.log.filterMap deliveredOf ++ s.waiting :=
  sent_in_order (fun _ => 0) (by decide)

end SimulatedTransport

end D2PC
