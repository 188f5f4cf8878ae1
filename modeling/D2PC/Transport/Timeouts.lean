import D2PC.Transport.Simulated

/-!
# The timers of the simulated transport

The virtual clock shows the deadline of the timer that fired last. A `Timeout` sets its timer
again when it fires.

* `SimulatedTransport.punctual` : the timers stand in the order of their deadlines;
* `SimulatedTransport.timers_in_order` : they fire in this order, each once, and none early;
* `SimulatedTransport.owned` : every `Timeout` knows the only timer it has;
* `SimulatedTransport.timeout_periodic` : a `Timeout` fires at the end of every period;
* `SimulatedTransport.stopped_silent` : and no more once it is stopped.
-/

namespace D2PC

namespace SimulatedTransport

variable {M C : Type} {s s' : SimulatedTransport M C} {cb : Callback M C}
variable {es : List (SimEvent M C)}

/-! ### The order of the timers -/

/-- There is a number left for the next timer. -/
def Counted (s : SimulatedTransport M C) (_ : Action M C) : Prop := s.lastTimerId + 1 < 2 ^ 31

instance Counted.decidable (s : SimulatedTransport M C) (a : Action M C) :
    Decidable (s.Counted a) :=
  inferInstanceAs (Decidable (s.lastTimerId + 1 < 2 ^ 31))

/-- The deadline of a timer that the step sets does not wrap around. -/
def InTime (s : SimulatedTransport M C) : Action M C → Prop
  | .timer ms _ => s.vtime + ms < 2 ^ 64
  | .send src dst m =>
      match s.filtered src dst m with
      | some (_, delay) => s.vtime + delay < 2 ^ 64
      | none => True
  | .reset k => s.vtime + (s.timeouts k).ms < 2 ^ 64
  | .fire =>
      match s.timers with
      | ⟨due, _, .timeout k⟩ :: _ => due + (s.timeouts k).ms < 2 ^ 64
      | _ => True
  | _ => True

instance InTime.decidable (s : SimulatedTransport M C) : ∀ a, Decidable (s.InTime a)
  | .timer ms _ => inferInstanceAs (Decidable (s.vtime + ms < 2 ^ 64))
  | .send src dst m =>
      show Decidable (match s.filtered src dst m with
        | some (_, delay) => s.vtime + delay < 2 ^ 64
        | none => True) from
      match s.filtered src dst m with
      | some (_, delay) => inferInstanceAs (Decidable (s.vtime + delay < 2 ^ 64))
      | none => .isTrue trivial
  | .reset k => inferInstanceAs (Decidable (s.vtime + (s.timeouts k).ms < 2 ^ 64))
  | .fire =>
      show Decidable (match s.timers with
        | ⟨due, _, .timeout k⟩ :: _ => due + (s.timeouts k).ms < 2 ^ 64
        | _ => True) from
      match s.timers with
      | ⟨due, _, .timeout k⟩ :: _ =>
          inferInstanceAs (Decidable (due + (s.timeouts k).ms < 2 ^ 64))
      | ⟨_, _, .push _⟩ :: _ | ⟨_, _, .user _⟩ :: _ | [] => .isTrue trivial
  | .register _ | .cancelTimer _ | .cancelAllTimers | .addFilter _ _ | .removeFilter _ | .stop _
  | .setTimeout _ _ | .receive | .received => .isTrue trivial

/-- Neither the number nor the deadline of a timer wraps around. -/
def Timely (s : SimulatedTransport M C) (a : Action M C) : Prop := s.Counted a ∧ s.InTime a

instance Timely.decidable (s : SimulatedTransport M C) (a : Action M C) :
    Decidable (s.Timely a) :=
  inferInstanceAs (Decidable (_ ∧ _))

theorem nextTimerId_eq {id : ℤ} (h : 0 ≤ id) (hlt : id + 1 < 2 ^ 31) : nextTimerId id = id + 1 :=
  Int.bmod_eq_of_le (by omega) (by omega)

/-- What fired and what is pending is in order, the timers are due when they were set for, and no
two have the same number. -/
structure Punctual (s : SimulatedTransport M C) : Prop where
  timeline : Timeline s.vtime s.lastTimerId (s.log.filterMap firedOf) s.timers
  deadline : ∀ now ms t, .set now ms t ∈ s.log → t.when = now + ms
  distinct : ((s.log.filterMap setOf).map Timer.id).Nodup
  counted : ∀ t ∈ s.log.filterMap setOf, t.id ≤ s.lastTimerId
  last : 0 ≤ s.lastTimerId

/-- What does not set a timer. -/
theorem Punctual.of (h : Punctual s) {es : List (SimEvent M C)} (hlog : s'.log = s.log ++ es)
    (hes : ∀ e ∈ es, firedOf e = none ∧ setOf e = none) (hvtime : s'.vtime = s.vtime)
    (hlast : s'.lastTimerId = s.lastTimerId) (htimers : s'.timers.Sublist s.timers) :
    Punctual s' := by
  have hfired : s'.log.filterMap firedOf = s.log.filterMap firedOf := by
    rw [hlog, List.filterMap_append, List.filterMap_eq_nil_iff.2 fun e he => (hes e he).1,
      List.append_nil]
  have hset : s'.log.filterMap setOf = s.log.filterMap setOf := by
    rw [hlog, List.filterMap_append, List.filterMap_eq_nil_iff.2 fun e he => (hes e he).2,
      List.append_nil]
  refine ⟨?_, fun now ms t ht => ?_, ?_, ?_, hlast.symm ▸ h.last⟩
  · rw [hvtime, hlast, hfired]
    exact h.timeline.remove htimers
  · rw [hlog] at ht
    rcases List.mem_append.1 ht with hold | hnew
    · exact h.deadline now ms t hold
    · cases (hes _ hnew).2
  · rw [hset]
    exact h.distinct
  · rw [hset, hlast]
    exact h.counted

theorem Punctual.same (h : Punctual s) (hlog : s'.log = s.log) (hvtime : s'.vtime = s.vtime)
    (hlast : s'.lastTimerId = s.lastTimerId) (htimers : s'.timers = s.timers) : Punctual s' :=
  h.of (hlog.trans (List.append_nil _).symm) (fun _ he => absurd he List.not_mem_nil) hvtime hlast
    (htimers ▸ List.Sublist.refl _)

theorem Punctual.timer (h : Punctual s) (hcount : s.lastTimerId + 1 < 2 ^ 31) (ms : ℕ)
    (hms : s.vtime + ms < 2 ^ 64) (cb : Callback M C) : Punctual (s.timer ms cb) := by
  have hwhen : (s.vtime + ms) % 2 ^ 64 = s.vtime + ms := Nat.mod_eq_of_lt hms
  have hnext : nextTimerId s.lastTimerId = s.lastTimerId + 1 := nextTimerId_eq h.last hcount
  have hset : (s.timer ms cb).log.filterMap setOf = s.log.filterMap setOf ++
      [⟨(s.vtime + ms) % 2 ^ 64, nextTimerId s.lastTimerId, cb⟩] := List.filterMap_append
  have hlast : (s.timer ms cb).lastTimerId = s.lastTimerId + 1 := hnext
  refine ⟨?_, fun now ms' t ht => ?_, ?_, fun t ht => ?_, ?_⟩
  · show Timeline s.vtime (nextTimerId s.lastTimerId)
      ((s.log ++ [SimEvent.set s.vtime ms _]).filterMap firedOf)
        (Timer.insert ⟨_ % _, nextTimerId s.lastTimerId, cb⟩ s.timers)
    rw [hwhen, hnext, List.filterMap_append]
    show Timeline _ _ (s.log.filterMap firedOf ++ []) _
    rw [List.append_nil]
    exact h.timeline.set (Nat.le_add_right _ _) cb
  · rcases List.mem_append.1 ht with hold | hnew
    · exact h.deadline now ms' t hold
    · obtain ⟨rfl, rfl, rfl⟩ := SimEvent.set.inj (List.mem_singleton.1 hnew)
      exact hwhen
  · rw [hset, List.map_append, hnext]
    refine h.distinct.append (List.nodup_singleton _) fun id hid hnew => ?_
    obtain ⟨t, ht, rfl⟩ := List.mem_map.1 hid
    have hle := h.counted t ht
    have hid : t.id = s.lastTimerId + 1 := List.mem_singleton.1 hnew
    omega
  · rw [hlast]
    rw [hset] at ht
    rcases List.mem_append.1 ht with hold | hnew
    · exact (h.counted t hold).trans (Int.le_add_one le_rfl)
    · rw [List.mem_singleton.1 hnew]
      exact hnext.le
  · rw [hlast]
    exact Int.add_nonneg h.last Int.one_nonneg

theorem mem_cancelled {e : SimEvent M C} {ts : List (PendingTimer M C)}
    (he : e ∈ ts.map SimEvent.cancelled) : firedOf e = none ∧ setOf e = none := by
  obtain ⟨t, -, rfl⟩ := List.mem_map.1 he
  exact ⟨rfl, rfl⟩

theorem Punctual.cancelTimer (h : Punctual s) (id : ℤ) : Punctual (s.cancelTimer id) :=
  h.of rfl (fun _ => mem_cancelled) rfl rfl List.filter_sublist

theorem Punctual.stop (h : Punctual s) (k : ℕ) : Punctual (s.stop k) := by
  rw [SimulatedTransport.stop]
  split_ifs
  · exact (h.cancelTimer _).same rfl rfl rfl rfl
  · exact h

theorem Punctual.push (h : Punctual s) (q : QueuedMessage M) : Punctual (s.push q) :=
  h.of rfl (fun e he => by rw [List.mem_singleton.1 he]; exact ⟨rfl, rfl⟩) rfl rfl
    (List.Sublist.refl _)

@[simp] theorem stop_vtime (k : ℕ) : (s.stop k).vtime = s.vtime := by
  rw [SimulatedTransport.stop]
  split_ifs <;> rfl

@[simp] theorem stop_lastTimerId (k : ℕ) : (s.stop k).lastTimerId = s.lastTimerId := by
  rw [SimulatedTransport.stop]
  split_ifs <;> rfl

@[simp] theorem stop_ms (k j : ℕ) : ((s.stop k).timeouts j).ms = (s.timeouts j).ms := by
  rw [SimulatedTransport.stop]
  split_ifs
  · show (Function.update s.timeouts k _ j).ms = _
    by_cases hj : j = k
    · subst hj
      rw [Function.update_self]
    · rw [Function.update_of_ne hj]
  · rfl

theorem Punctual.reset (h : Punctual s) (hcount : s.lastTimerId + 1 < 2 ^ 31) (k : ℕ)
    (hms : s.vtime + (s.timeouts k).ms < 2 ^ 64) : Punctual (s.reset k) := by
  have htimer : Punctual ((s.stop k).timer ((s.stop k).timeouts k).ms (.timeout k)) :=
    (h.stop k).timer (by rw [stop_lastTimerId]; exact hcount) _
      (by rw [stop_vtime, stop_ms]; exact hms) _
  exact htimer.same rfl rfl rfl rfl

theorem Punctual.callTimeout {k : ℕ} (h : Punctual s) (hcount : s.lastTimerId + 1 < 2 ^ 31)
    (hms : s.vtime + (s.timeouts k).ms < 2 ^ 64) : Punctual (s.call (.timeout k)) := by
  have hidle : Punctual (s.setTimeouts k { s.timeouts k with timerId := 0 }) :=
    h.same rfl rfl rfl rfl
  refine hidle.reset hcount k ?_
  show s.vtime + (Function.update s.timeouts k _ k).ms < 2 ^ 64
  rw [Function.update_self]
  exact hms

theorem Punctual.expire (h : Punctual s) {t : PendingTimer M C} {ts : List (PendingTimer M C)}
    (htimers : s.timers = t :: ts) : Punctual (s.expire t ts) := by
  have hset : (s.expire t ts).log.filterMap setOf = s.log.filterMap setOf := by
    show (s.log ++ [SimEvent.fired t]).filterMap setOf = _
    rw [List.filterMap_append]
    exact List.append_nil _
  refine ⟨?_, fun now ms u hu => ?_, hset.symm ▸ h.distinct, hset.symm ▸ h.counted, h.last⟩
  · show Timeline t.when s.lastTimerId ((s.log ++ [SimEvent.fired t]).filterMap firedOf) ts
    rw [List.filterMap_append]
    exact (htimers ▸ h.timeline).fire
  · rcases List.mem_append.1 hu with hold | hnew
    · exact h.deadline now ms u hold
    · cases List.mem_singleton.1 hnew

theorem Punctual.fire (h : Punctual s) (hfire : s.Timely .fire) : Punctual s.fire := by
  rw [SimulatedTransport.fire]
  split
  · exact h
  · rename_i t ts htimers
    split_ifs
    · have hfired := h.expire htimers
      obtain ⟨due, id, cb⟩ := t
      cases cb with
      | push q => exact hfired.push q
      | timeout k =>
          obtain ⟨hcount, hdue⟩ := hfire
          rw [InTime, htimers] at hdue
          exact hfired.callTimeout hcount hdue
      | user c => exact hfired
    · exact h

theorem Punctual.send (h : Punctual s) {src dst : ℤ} {m : M} (hsend : s.Timely (.send src dst m)) :
    Punctual (s.sendMessageInternal src dst m) := by
  rw [sendMessageInternal]
  split
  · exact h
  · rename_i m' delay hm
    obtain ⟨hcount, hdue⟩ := hsend
    rw [InTime, hm] at hdue
    have haccepted : Punctual { s with log := s.log ++ [SimEvent.accepted ⟨dst, src, m'⟩] } :=
      h.of rfl (fun e he => by rw [List.mem_singleton.1 he]; exact ⟨rfl, rfl⟩) rfl rfl
        (List.Sublist.refl _)
    show Punctual (if delay = 0 then _ else _)
    split_ifs
    · exact haccepted.push _
    · exact haccepted.timer hcount delay hdue _

theorem Punctual.step (h : Punctual s) {a : Action M C} (ha : s.Timely a) :
    Punctual (s.step a) := by
  cases a with
  | register replicaIdx => exact h.same rfl rfl rfl rfl
  | send src dst m => exact h.send ha
  | timer ms c => exact h.timer ha.1 ms ha.2 _
  | cancelTimer id => exact h.cancelTimer id
  | cancelAllTimers => exact h.of rfl (fun _ => mem_cancelled) rfl rfl (List.nil_sublist _)
  | addFilter id f => exact h.same rfl rfl rfl rfl
  | removeFilter id => exact h.same rfl rfl rfl rfl
  | reset k => exact h.reset ha.1 k ha.2
  | stop k => exact h.stop k
  | setTimeout k ms => exact h.same rfl rfl rfl rfl
  | receive =>
      show Punctual s.receive
      rw [SimulatedTransport.receive]
      split
      · exact h
      · split_ifs
        · exact h.of rfl (fun e he => by rw [List.mem_singleton.1 he]; exact ⟨rfl, rfl⟩) rfl rfl
            (List.Sublist.refl _)
        · exact h
  | received =>
      show Punctual s.received
      rw [SimulatedTransport.received]
      split_ifs
      · exact h.same rfl rfl rfl rfl
      · exact h
  | fire => exact h.fire ha

theorem Punctual.initial (ms : ℕ → ℕ) : Punctual (initial ms : SimulatedTransport M C) :=
  ⟨.start, fun _ _ _ h => absurd h List.not_mem_nil, .nil, fun _ h => absurd h List.not_mem_nil,
    le_rfl⟩

theorem punctual {ms : ℕ → ℕ} {ops : List (Action M C)}
    (hops : Calls.Throughout step Timely (initial ms) ops) :
    Punctual (Calls.run step (initial ms) ops) :=
  hops.invariant (Punctual.initial ms) fun _ _ h ha => h.step ha

/-- **The timers, in order.** They fire in the order of their deadlines, and those with the same
deadline in the order in which they were set; none fires early, and none that is pending is
overdue. Each timer that was set fired, is pending or was cancelled, and no two have the same
number. -/
theorem timers_in_order {ms : ℕ → ℕ} {ops : List (Action M C)}
    (hops : Calls.Throughout step Timely (initial ms) ops) :
    let s := Calls.run step (initial ms) ops
    let fired := s.log.filterMap firedOf
    (fired ++ s.timers).Pairwise Timer.Before ∧
      (∀ t ∈ fired, t.when ≤ s.vtime) ∧ (∀ t ∈ s.timers, s.vtime ≤ t.when) ∧
      (∀ now ms t, .set now ms t ∈ s.log → t.when = now + ms) ∧
      (s.log.filterMap setOf).Perm (fired ++ s.timers ++ s.log.filterMap cancelledOf) ∧
      ((s.log.filterMap setOf).map Timer.id).Nodup := by
  intro s fired
  have hpunctual : Punctual s := punctual hops
  have haccounts : Accounts none s := accounts ms ops
  refine ⟨hpunctual.timeline.ordered, hpunctual.timeline.past, hpunctual.timeline.future,
    hpunctual.deadline, Multiset.coe_eq_coe.1 haccounts.timers, hpunctual.distinct⟩

theorem timers_in_order_same :
    let s := Calls.run step (initial fun _ => 10)
      ([.timer 20 5, .reset 0, .fire, .timer 10 6, .fire] : List (Action ℕ ℕ))
    let fired := s.log.filterMap firedOf
    (fired ++ s.timers).Pairwise Timer.Before ∧
      (∀ t ∈ fired, t.when ≤ s.vtime) ∧ (∀ t ∈ s.timers, s.vtime ≤ t.when) ∧
      (∀ now ms t, .set now ms t ∈ s.log → t.when = now + ms) ∧
      (s.log.filterMap setOf).Perm (fired ++ s.timers ++ s.log.filterMap cancelledOf) ∧
      ((s.log.filterMap setOf).map Timer.id).Nodup :=
  timers_in_order (by decide +kernel)

/-! ### Timeouts -/

/-- **The timers of the `Timeout` objects.** A timer of a `Timeout` is the one that its object
knows, no two objects know the same, and the numbers of the timers are among those that were given
out, each once. -/
structure Owned (s : SimulatedTransport M C) : Prop where
  known : ∀ k, ∀ t ∈ s.timers, t.cb = .timeout k → t.id = (s.timeouts k).timerId
  distinct : ∀ j k, (s.timeouts j).timerId = (s.timeouts k).timerId →
    (s.timeouts j).timerId ≠ 0 → j = k
  bounded : ∀ k, 0 ≤ (s.timeouts k).timerId ∧ (s.timeouts k).timerId ≤ s.lastTimerId
  nodup : (s.timers.map Timer.id).Nodup
  numbered : ∀ t ∈ s.timers, 0 < t.id ∧ t.id ≤ s.lastTimerId
  last : 0 ≤ s.lastTimerId

/-- The `Timeout` has no timer. -/
def Idle (k : ℕ) (s : SimulatedTransport M C) : Prop := ∀ t ∈ s.timers, t.cb ≠ .timeout k

theorem Owned.sublist (h : Owned s) (hsub : s'.timers.Sublist s.timers)
    (hlast : s'.lastTimerId = s.lastTimerId)
    (htimeouts : ∀ k, (s'.timeouts k).timerId = (s.timeouts k).timerId) : Owned s' := by
  refine ⟨fun k t ht hcb => ?_, fun j k hsame hne => ?_, fun k => ?_,
    h.nodup.sublist (hsub.map _), fun t ht => ?_, hlast.symm ▸ h.last⟩
  · rw [htimeouts]
    exact h.known k t (hsub.subset ht) hcb
  · rw [htimeouts, htimeouts] at hsame
    rw [htimeouts] at hne
    exact h.distinct j k hsame hne
  · rw [htimeouts, hlast]
    exact h.bounded k
  · rw [hlast]
    exact h.numbered t (hsub.subset ht)

theorem nodup_insert {t : PendingTimer M C} (h : Owned s) (ht : t.id = s.lastTimerId + 1) :
    ((t.insert s.timers).map Timer.id).Nodup := by
  rw [((Timer.insert_perm t s.timers).map Timer.id).nodup_iff, List.map_cons, List.nodup_cons]
  refine ⟨fun hmem => ?_, h.nodup⟩
  obtain ⟨u, hu, hid⟩ := List.mem_map.1 hmem
  have hle := (h.numbered u hu).2
  omega

theorem numbered_insert {t : PendingTimer M C} (h : Owned s) (ht : t.id = s.lastTimerId + 1) :
    ∀ u ∈ t.insert s.timers, 0 < u.id ∧ u.id ≤ s.lastTimerId + 1 := by
  intro u hu
  rcases Timer.mem_insert.1 hu with rfl | hu
  · have hlast := h.last
    omega
  · have hid := h.numbered u hu
    omega

theorem Owned.timer (h : Owned s) (hcount : s.lastTimerId + 1 < 2 ^ 31) (ms : ℕ)
    {cb : Callback M C} (hcb : ∀ k, cb ≠ .timeout k) : Owned (s.timer ms cb) := by
  have hnext : nextTimerId s.lastTimerId = s.lastTimerId + 1 := nextTimerId_eq h.last hcount
  have hlast : (s.timer ms cb).lastTimerId = s.lastTimerId + 1 := hnext
  refine ⟨fun k t ht htk => ?_, h.distinct, fun k => ?_, nodup_insert h hnext, ?_, ?_⟩
  · rcases Timer.mem_insert.1 ht with rfl | ht
    · exact absurd htk (hcb k)
    · exact h.known k t ht htk
  · rw [hlast]
    exact ⟨(h.bounded k).1, (h.bounded k).2.trans (Int.le_add_one le_rfl)⟩
  · rw [hlast]
    exact numbered_insert h hnext
  · rw [hlast]
    exact Int.add_nonneg h.last Int.one_nonneg

/-- The timer of an idle `Timeout` is set. -/
theorem Owned.start (h : Owned s) (hcount : s.lastTimerId + 1 < 2 ^ 31) {k : ℕ} (hidle : Idle k s)
    (ms : ℕ) {t : Timeout} (ht : t.timerId = nextTimerId s.lastTimerId) :
    Owned ((s.timer ms (.timeout k)).setTimeouts k t) := by
  have hnext : nextTimerId s.lastTimerId = s.lastTimerId + 1 := nextTimerId_eq h.last hcount
  have hlast : ((s.timer ms (.timeout k)).setTimeouts k t).lastTimerId = s.lastTimerId + 1 := hnext
  rw [hnext] at ht
  have hself : (Function.update s.timeouts k t k).timerId = s.lastTimerId + 1 := by
    rw [Function.update_self, ht]
  have hother : ∀ j, j ≠ k → Function.update s.timeouts k t j = s.timeouts j := fun j hj =>
    Function.update_of_ne hj _ _
  refine ⟨fun j u hu huj => ?_, fun i j hsame hne => ?_, fun j => ?_, nodup_insert h hnext, ?_, ?_⟩
  · show u.id = (Function.update s.timeouts k t j).timerId
    rcases Timer.mem_insert.1 hu with rfl | hu
    · obtain rfl : k = j := Callback.timeout.inj huj
      exact hnext.trans hself.symm
    · rw [hother j fun hj => hidle u hu (hj ▸ huj)]
      exact h.known j u hu huj
  · have hsame : (Function.update s.timeouts k t i).timerId =
      (Function.update s.timeouts k t j).timerId := hsame
    have hne : (Function.update s.timeouts k t i).timerId ≠ 0 := hne
    have hi := h.bounded i
    have hj := h.bounded j
    by_cases hik : i = k
    · by_cases hjk : j = k
      · rw [hik, hjk]
      · rw [hik, hself, hother j hjk] at hsame
        omega
    · by_cases hjk : j = k
      · rw [hjk, hself, hother i hik] at hsame
        omega
      · rw [hother i hik, hother j hjk] at hsame
        rw [hother i hik] at hne
        exact h.distinct i j hsame hne
  · rw [hlast]
    show 0 ≤ (Function.update s.timeouts k t j).timerId ∧
      (Function.update s.timeouts k t j).timerId ≤ s.lastTimerId + 1
    by_cases hjk : j = k
    · rw [hjk, hself]
      exact ⟨Int.add_nonneg h.last Int.one_nonneg, le_rfl⟩
    · rw [hother j hjk]
      exact ⟨(h.bounded j).1, (h.bounded j).2.trans (Int.le_add_one le_rfl)⟩
  · rw [hlast]
    exact numbered_insert h hnext
  · rw [hlast]
    exact Int.add_nonneg h.last Int.one_nonneg

/-- A `Timeout` that has no timer is told so. -/
theorem Owned.clear (h : Owned s) {k : ℕ} (hidle : Idle k s) {t : Timeout} (ht : t.timerId = 0) :
    Owned (s.setTimeouts k t) := by
  have hself : (Function.update s.timeouts k t k).timerId = 0 := by
    rw [Function.update_self, ht]
  have hother : ∀ j, j ≠ k → Function.update s.timeouts k t j = s.timeouts j := fun j hj =>
    Function.update_of_ne hj _ _
  refine ⟨fun j u hu huj => ?_, fun i j hsame hne => ?_, fun j => ?_, h.nodup, h.numbered, h.last⟩
  · show u.id = (Function.update s.timeouts k t j).timerId
    rw [hother j fun hj => hidle u hu (hj ▸ huj)]
    exact h.known j u hu huj
  · have hsame : (Function.update s.timeouts k t i).timerId =
      (Function.update s.timeouts k t j).timerId := hsame
    have hne : (Function.update s.timeouts k t i).timerId ≠ 0 := hne
    have hik : i ≠ k := fun hi => hne (hi ▸ hself)
    have hjk : j ≠ k := fun hj => hne (hsame.trans (hj ▸ hself))
    rw [hother i hik, hother j hjk] at hsame
    rw [hother i hik] at hne
    exact h.distinct i j hsame hne
  · show 0 ≤ (Function.update s.timeouts k t j).timerId ∧
      (Function.update s.timeouts k t j).timerId ≤ s.lastTimerId
    by_cases hjk : j = k
    · rw [hjk, hself]
      exact ⟨le_rfl, h.last⟩
    · rw [hother j hjk]
      exact h.bounded j

theorem idle_cancel (h : Owned s) (k : ℕ) : Idle k (s.cancelTimer (s.timeouts k).timerId) := by
  intro t ht hcb
  obtain ⟨hmem, hid⟩ := List.mem_filter.1 ht
  exact of_decide_eq_true hid (h.known k t hmem hcb)

theorem Owned.cancelTimer (h : Owned s) (id : ℤ) : Owned (s.cancelTimer id) :=
  h.sublist List.filter_sublist rfl fun _ => rfl

theorem Owned.stop (h : Owned s) (k : ℕ) : Owned (s.stop k) ∧ Idle k (s.stop k) := by
  rw [SimulatedTransport.stop]
  split_ifs with hrunning
  · have hcancelled := idle_cancel h k
    exact ⟨(h.cancelTimer _).clear hcancelled rfl, hcancelled⟩
  · refine ⟨h, fun t ht hcb => ?_⟩
    have hid := h.known k t ht hcb
    have hpos := (h.numbered t ht).1
    omega

theorem Owned.reset (h : Owned s) (hcount : s.lastTimerId + 1 < 2 ^ 31) (k : ℕ) :
    Owned (s.reset k) := by
  obtain ⟨hstop, hidle⟩ := h.stop k
  exact hstop.start (by rw [stop_lastTimerId]; exact hcount) hidle _ rfl

/-- A `Timeout` has at most one timer. -/
theorem Owned.unique (h : Owned s) {t u : PendingTimer M C} (ht : t ∈ s.timers) (hu : u ∈ s.timers)
    {k : ℕ} (htk : t.cb = .timeout k) (huk : u.cb = .timeout k) : t = u := by
  have hsame : t.id = u.id := (h.known k t ht htk).trans (h.known k u hu huk).symm
  exact List.inj_on_of_nodup_map h.nodup ht hu hsame

/-- The first timer is taken out. If it is that of a `Timeout`, the `Timeout` has none. -/
theorem Owned.expire (h : Owned s) {t : PendingTimer M C} {ts : List (PendingTimer M C)}
    (htimers : s.timers = t :: ts) :
    Owned (s.expire t ts) ∧ ∀ k, t.cb = .timeout k → Idle k (s.expire t ts) := by
  refine ⟨h.sublist ?_ rfl fun _ => rfl, fun k hcb u hu huk => ?_⟩
  · rw [htimers]
    exact List.sublist_cons_self t ts
  · have hsame := h.unique (htimers ▸ .head ts) (htimers ▸ .tail t hu) hcb huk
    have hnodup := h.nodup
    rw [htimers, List.map_cons, List.nodup_cons] at hnodup
    exact hnodup.1 (hsame ▸ List.mem_map_of_mem hu)

theorem Owned.fire (h : Owned s) (hcount : s.lastTimerId + 1 < 2 ^ 31) : Owned s.fire := by
  rw [SimulatedTransport.fire]
  split
  · exact h
  · rename_i t ts htimers
    split_ifs
    · obtain ⟨hrest, hidle⟩ := h.expire htimers
      obtain ⟨due, id, cb⟩ := t
      cases cb with
      | push q => exact hrest.sublist (List.Sublist.refl _) rfl fun _ => rfl
      | timeout k => exact (hrest.clear (hidle k rfl) rfl).reset hcount k
      | user c => exact hrest
    · exact h

theorem Owned.same (h : Owned s) (htimers : s'.timers = s.timers)
    (hlast : s'.lastTimerId = s.lastTimerId) (htimeouts : s'.timeouts = s.timeouts) : Owned s' :=
  h.sublist (htimers ▸ List.Sublist.refl _) hlast fun _ => by rw [htimeouts]

theorem Owned.step (h : Owned s) {a : Action M C} (ha : s.Counted a) : Owned (s.step a) := by
  cases a with
  | register replicaIdx => exact h.same rfl rfl rfl
  | send src dst m =>
      show Owned (s.sendMessageInternal src dst m)
      rw [sendMessageInternal]
      split
      · exact h
      · rename_i m' delay hm
        have haccepted : Owned { s with log := s.log ++ [SimEvent.accepted ⟨dst, src, m'⟩] } :=
          h.same rfl rfl rfl
        show Owned (if delay = 0 then _ else _)
        split_ifs
        · exact haccepted.same rfl rfl rfl
        · exact haccepted.timer ha delay fun k hk => by cases hk
  | timer ms c => exact h.timer ha ms fun k hk => by cases hk
  | cancelTimer id => exact h.cancelTimer id
  | cancelAllTimers => exact h.sublist (List.nil_sublist _) rfl fun _ => rfl
  | addFilter id f => exact h.same rfl rfl rfl
  | removeFilter id => exact h.same rfl rfl rfl
  | reset k => exact h.reset ha k
  | stop k => exact (h.stop k).1
  | setTimeout k ms =>
      refine h.sublist (List.Sublist.refl _) rfl fun j => ?_
      show (Function.update s.timeouts k _ j).timerId = _
      by_cases hj : j = k
      · rw [hj, Function.update_self]
      · rw [Function.update_of_ne hj]
  | receive =>
      show Owned s.receive
      rw [SimulatedTransport.receive]
      split
      · exact h
      · split_ifs
        · exact h.same rfl rfl rfl
        · exact h
  | received =>
      show Owned s.received
      rw [SimulatedTransport.received]
      split_ifs
      · exact h.same rfl rfl rfl
      · exact h
  | fire => exact h.fire ha

theorem Owned.initial (ms : ℕ → ℕ) : Owned (initial ms : SimulatedTransport M C) :=
  ⟨fun _ _ h => absurd h List.not_mem_nil, fun _ _ _ h => absurd rfl h,
    fun _ => ⟨le_rfl, le_rfl⟩, .nil, fun _ h => absurd h List.not_mem_nil, le_rfl⟩

theorem owned {ms : ℕ → ℕ} {ops : List (Action M C)}
    (hops : Calls.Throughout step Counted (initial ms) ops) :
    Owned (Calls.run step (initial ms) ops) :=
  hops.invariant (Owned.initial ms) fun _ _ h ha => h.step ha

/-! ### Periods -/

/-- The callback is that of the `Timeout`. -/
def ofTimeout (k : ℕ) : Callback M C → Bool
  | .timeout j => j = k
  | _ => false

theorem ofTimeout_iff {k : ℕ} : ofTimeout k cb = true ↔ cb = .timeout k := by
  cases cb with
  | push q => exact iff_of_false Bool.false_ne_true fun h => by cases h
  | user c => exact iff_of_false Bool.false_ne_true fun h => by cases h
  | timeout j =>
      show decide (j = k) = true ↔ _
      rw [decide_eq_true_iff, Callback.timeout.injEq]

/-- When the `Timeout` fired. -/
def firings (k : ℕ) (s : SimulatedTransport M C) : List ℕ :=
  ((s.log.filterMap firedOf).filter fun t => ofTimeout k t.cb).map Timer.when

/-- The step does not start, stop or change the `Timeout`, and does not cancel its timer. -/
def Leaves (k : ℕ) (s : SimulatedTransport M C) : Action M C → Prop
  | .reset j | .stop j | .setTimeout j _ => j ≠ k
  | .cancelTimer id => id ≠ (s.timeouts k).timerId
  | .cancelAllTimers => False
  | _ => True

instance Leaves.decidable (k : ℕ) (s : SimulatedTransport M C) : ∀ a, Decidable (Leaves k s a)
  | .reset j | .stop j | .setTimeout j _ => inferInstanceAs (Decidable (j ≠ k))
  | .cancelTimer id => inferInstanceAs (Decidable (id ≠ (s.timeouts k).timerId))
  | .cancelAllTimers => .isFalse id
  | .register _ | .send _ _ _ | .timer _ _ | .addFilter _ _ | .removeFilter _ | .receive
  | .received | .fire => .isTrue trivial

/-- **The `Timeout` is running.** It was started at the time `begun`, with the period `ms`, and
fired `n` times since. -/
structure Ticking (k ms begun : ℕ) (earlier : List ℕ) (n : ℕ) (s : SimulatedTransport M C) :
    Prop where
  period : (s.timeouts k).ms = ms
  pending : ∃ t ∈ s.timers, t.cb = .timeout k ∧ t.when = begun + (n + 1) * ms
  firings : firings k s = earlier ++ (List.range n).map fun i => begun + (i + 1) * ms
  clock : begun + n * ms ≤ s.vtime

variable {k ms begun n : ℕ} {earlier : List ℕ}

theorem firings_append (hlog : s'.log = s.log ++ es)
    (hes : ∀ e ∈ es, firedOf e = none) : firings k s' = firings k s := by
  rw [firings, hlog, List.filterMap_append, List.filterMap_eq_nil_iff.2 hes, List.append_nil]
  rfl

theorem firings_expire (t : PendingTimer M C) (ts : List (PendingTimer M C)) :
    firings k (s.expire t ts) =
      firings k s ++ if ofTimeout k t.cb then [t.when] else [] := by
  show (((s.log ++ [SimEvent.fired t]).filterMap firedOf).filter _).map Timer.when = _
  rw [List.filterMap_append, List.filter_append, List.map_append]
  show firings k s ++ ([t].filter fun t => ofTimeout k t.cb).map Timer.when = _
  rw [List.filter_cons]
  split_ifs <;> rfl

/-- What keeps the timer of the `Timeout`. -/
theorem Ticking.of (h : Ticking k ms begun earlier n s)
    (hms : (s'.timeouts k).ms = (s.timeouts k).ms)
    (htimers : ∀ t ∈ s.timers, t.cb = .timeout k → t ∈ s'.timers)
    (hfirings : SimulatedTransport.firings k s' = SimulatedTransport.firings k s)
    (hclock : s.vtime ≤ s'.vtime) : Ticking k ms begun earlier n s' := by
  obtain ⟨t, ht, hcb, hwhen⟩ := h.pending
  exact ⟨hms.trans h.period, ⟨t, htimers t ht hcb, hcb, hwhen⟩, hfirings.trans h.firings,
    h.clock.trans hclock⟩

theorem firings_timer (cb : Callback M C) (ms : ℕ) : firings k (s.timer ms cb) = firings k s :=
  firings_append rfl fun e he => by rw [List.mem_singleton.1 he]; rfl

theorem firings_push (q : QueuedMessage M) : firings k (s.push q) = firings k s :=
  firings_append rfl fun e he => by rw [List.mem_singleton.1 he]; rfl

theorem firings_cancelTimer (id : ℤ) : firings k (s.cancelTimer id) = firings k s :=
  firings_append rfl fun _ he => (mem_cancelled he).1

theorem firings_stop (j : ℕ) : firings k (s.stop j) = firings k s := by
  rw [stop]
  split_ifs
  · exact firings_cancelTimer _
  · rfl

theorem firings_reset (j : ℕ) : firings k (s.reset j) = firings k s :=
  (firings_timer (s := s.stop j) _ _).trans (firings_stop j)

theorem ms_setTimeouts {j : ℕ} (hj : j ≠ k) (t : Timeout) :
    ((s.setTimeouts j t).timeouts k).ms = (s.timeouts k).ms := by
  show (Function.update s.timeouts j t k).ms = _
  rw [Function.update_of_ne hj.symm]

theorem mem_timer {t : PendingTimer M C} (ht : t ∈ s.timers) (ms : ℕ) (cb : Callback M C) :
    t ∈ (s.timer ms cb).timers :=
  Timer.mem_insert.2 (.inr ht)

theorem Ticking.stop (h : Ticking k ms begun earlier n s) (howned : Owned s) {j : ℕ}
    (hj : j ≠ k) : Ticking k ms begun earlier n (s.stop j) := by
  refine h.of (stop_ms j k) (fun t ht hcb => ?_) (firings_stop j) (stop_vtime j).ge
  rw [SimulatedTransport.stop]
  split_ifs with hrunning
  · refine List.mem_filter.2 ⟨ht, decide_eq_true fun hid => hj ?_⟩
    rw [howned.known k t ht hcb] at hid
    exact howned.distinct j k hid.symm hrunning.ne'
  · exact ht

theorem Ticking.reset (h : Ticking k ms begun earlier n s) (howned : Owned s) {j : ℕ}
    (hj : j ≠ k) : Ticking k ms begun earlier n (s.reset j) := by
  refine (h.stop howned hj).of ?_ (fun t ht _ => mem_timer ht _ _) (firings_timer _ _) le_rfl
  exact ms_setTimeouts hj _

theorem stop_idle (hidle : (s.timeouts k).timerId = 0) : s.stop k = s := by
  rw [stop, hidle]
  rfl

theorem call_timeout (k : ℕ) : (s.call (.timeout k)) =
    ((s.setTimeouts k { s.timeouts k with timerId := 0 }).timer (s.timeouts k).ms
      (.timeout k)).setTimeouts k { s.timeouts k with timerId := nextTimerId s.lastTimerId } := by
  have hself : ∀ t : Timeout, (s.setTimeouts k t).timeouts k = t := fun t =>
    Function.update_self ..
  show (s.setTimeouts k _).reset k = _
  rw [SimulatedTransport.reset, stop_idle (by rw [hself]), hself]
  rfl

/-- The `Timeout` is started, at the time the clock shows. -/
theorem Ticking.start (hms : s.vtime + (s.timeouts k).ms < 2 ^ 64) :
    Ticking k (s.timeouts k).ms s.vtime (SimulatedTransport.firings k s) 0 (s.reset k) := by
  refine ⟨?_, ⟨⟨_, _, _⟩, Timer.mem_insert.2 (.inl rfl), rfl, ?_⟩, ?_, ?_⟩
  · show (Function.update (s.stop k).timeouts k _ k).ms = _
    rw [Function.update_self, stop_ms]
  · show ((s.stop k).vtime + ((s.stop k).timeouts k).ms) % 2 ^ 64 = _
    rw [stop_vtime, stop_ms, Nat.mod_eq_of_lt hms, Nat.zero_add, Nat.one_mul]
  · rw [firings_reset]
    exact (List.append_nil _).symm
  · show s.vtime + 0 * _ ≤ (s.stop k).vtime
    rw [stop_vtime, Nat.zero_mul]
    exact le_rfl

/-- The timer of the `Timeout` fires, and is set again. -/
theorem Ticking.again (h : Ticking k ms begun earlier n s) {t : PendingTimer M C}
    {ts : List (PendingTimer M C)} (hcb : t.cb = .timeout k) (hwhen : t.when = begun + (n + 1) * ms)
    (hms : t.when + ms < 2 ^ 64) :
    Ticking k ms begun earlier (n + 1) ((s.expire t ts).call t.cb) := by
  rw [hcb, call_timeout]
  refine ⟨?_, ⟨⟨_, _, _⟩, Timer.mem_insert.2 (.inl rfl), rfl, ?_⟩, ?_, hwhen.ge⟩
  · show (Function.update (setTimeouts k _ _).timeouts k _ k).ms = _
    rw [Function.update_self]
    exact h.period
  · show (t.when + (s.timeouts k).ms) % 2 ^ 64 = _
    rw [h.period, Nat.mod_eq_of_lt hms, hwhen, Nat.add_assoc, ← Nat.succ_mul]
  · show SimulatedTransport.firings k (((s.expire t ts).setTimeouts k _).timer _ _) = _
    rw [firings_timer]
    show SimulatedTransport.firings k (s.expire t ts) = _
    rw [firings_expire, h.firings, if_pos (ofTimeout_iff.2 hcb), hwhen, List.range_succ,
      List.map_append, List.append_assoc]
    rfl

/-- Another timer fires. -/
theorem Ticking.other (h : Ticking k ms begun earlier n s) (hpunctual : Punctual s)
    {t : PendingTimer M C} {ts : List (PendingTimer M C)} (htimers : s.timers = t :: ts)
    (hcb : t.cb ≠ .timeout k) :
    Ticking k ms begun earlier n ((s.expire t ts).call t.cb) := by
  have hrest : Ticking k ms begun earlier n (s.expire t ts) := by
    refine h.of rfl (fun u hu huk => ?_) ?_ (hpunctual.timeline.future t (htimers ▸ .head _))
    · rw [htimers] at hu
      rcases List.mem_cons.1 hu with rfl | hu
      · exact absurd huk hcb
      · exact hu
    · rw [firings_expire, if_neg fun hof => hcb (ofTimeout_iff.1 hof), List.append_nil]
  obtain ⟨due, id, cb⟩ := t
  cases cb with
  | push q => exact hrest.of rfl (fun _ hu _ => hu) (firings_push q) le_rfl
  | timeout j =>
      have hj : j ≠ k := fun hjk => hcb (hjk ▸ rfl)
      show Ticking k ms begun earlier n (call (.timeout j) _)
      rw [call_timeout]
      refine hrest.of ?_ (fun u hu _ => mem_timer (s := setTimeouts j _ _) hu _ _)
        (firings_timer (s := setTimeouts j _ _) _ _) le_rfl
      rw [ms_setTimeouts hj]
      exact ms_setTimeouts hj _
  | user c => exact hrest

theorem Ticking.fire (h : Ticking k ms begun earlier n s) (howned : Owned s)
    (hpunctual : Punctual s) (hfire : s.Timely .fire) :
    ∃ n, Ticking k ms begun earlier n s.fire := by
  rw [SimulatedTransport.fire]
  split
  · exact ⟨n, h⟩
  · rename_i t ts htimers
    split_ifs
    · by_cases hcb : t.cb = .timeout k
      · obtain ⟨u, hu, huk, hwhen⟩ := h.pending
        obtain rfl : u = t := howned.unique hu (htimers ▸ .head ts) huk hcb
        refine ⟨n + 1, h.again hcb hwhen ?_⟩
        rw [← h.period]
        obtain ⟨due, id, cb⟩ := u
        obtain rfl : cb = .timeout k := hcb
        have hdue := hfire.2
        rw [InTime, htimers] at hdue
        exact hdue
      · exact ⟨n, h.other hpunctual htimers hcb⟩
    · exact ⟨n, h⟩

/-- What does not touch the timers. -/
theorem Ticking.same (h : Ticking k ms begun earlier n s) (htimeouts : s'.timeouts = s.timeouts)
    (htimers : s'.timers = s.timers)
    (hfirings : SimulatedTransport.firings k s' = SimulatedTransport.firings k s)
    (hvtime : s'.vtime = s.vtime) : Ticking k ms begun earlier n s' :=
  h.of (by rw [htimeouts]) (fun _ ht _ => htimers ▸ ht) hfirings hvtime.ge

theorem Ticking.send (h : Ticking k ms begun earlier n s) (src dst : ℤ) (m : M) :
    Ticking k ms begun earlier n (s.sendMessageInternal src dst m) := by
  rw [sendMessageInternal]
  split
  · exact h
  · rename_i m' delay hm
    have haccepted : Ticking k ms begun earlier n { s with
        log := s.log ++ [SimEvent.accepted ⟨dst, src, m'⟩] } :=
      h.same rfl rfl (firings_append rfl fun e he => by rw [List.mem_singleton.1 he]; rfl) rfl
    show Ticking k ms begun earlier n (if delay = 0 then _ else _)
    split_ifs
    · exact haccepted.same rfl rfl (firings_push _) rfl
    · exact haccepted.of rfl (fun t ht _ => mem_timer ht _ _) (firings_timer _ _) le_rfl

/-- **A running `Timeout` goes on** in every step that leaves it alone. -/
theorem Ticking.step (h : Ticking k ms begun earlier n s) (howned : Owned s)
    (hpunctual : Punctual s) {a : Action M C} (ha : s.Timely a) (hleaves : Leaves k s a) :
    ∃ n, Ticking k ms begun earlier n (s.step a) := by
  cases a with
  | register replicaIdx => exact ⟨n, h.same rfl rfl rfl rfl⟩
  | send src dst m => exact ⟨n, h.send src dst m⟩
  | timer ms c => exact ⟨n, h.of rfl (fun t ht _ => mem_timer ht _ _) (firings_timer _ _) le_rfl⟩
  | cancelTimer id =>
      refine ⟨n, h.of rfl (fun t ht hcb => ?_) (firings_cancelTimer id) le_rfl⟩
      refine List.mem_filter.2 ⟨ht, decide_eq_true fun hid => hleaves ?_⟩
      rw [← hid, howned.known k t ht hcb]
  | cancelAllTimers => exact hleaves.elim
  | addFilter id f => exact ⟨n, h.same rfl rfl rfl rfl⟩
  | removeFilter id => exact ⟨n, h.same rfl rfl rfl rfl⟩
  | reset j => exact ⟨n, h.reset howned hleaves⟩
  | stop j => exact ⟨n, h.stop howned hleaves⟩
  | setTimeout j ms => exact ⟨n, h.of (ms_setTimeouts hleaves _) (fun _ ht _ => ht) rfl le_rfl⟩
  | receive =>
      refine ⟨n, ?_⟩
      show Ticking k ms begun earlier n s.receive
      rw [SimulatedTransport.receive]
      split
      · exact h
      · split_ifs
        · exact h.same rfl rfl
            (firings_append rfl fun e he => by rw [List.mem_singleton.1 he]; rfl) rfl
        · exact h
  | received =>
      refine ⟨n, ?_⟩
      show Ticking k ms begun earlier n s.received
      rw [SimulatedTransport.received]
      split_ifs
      · exact h.same rfl rfl rfl rfl
      · exact h
  | fire => exact h.fire howned hpunctual ha

/-- **Every period, once.** A `Timeout` that is started fires at the end of every period since then
and at no other time, while nothing else is done to it and neither a deadline nor the number of a
timer wraps around. -/
theorem timeout_periodic {ms : ℕ → ℕ} {ops since : List (Action M C)} {k : ℕ}
    (hops : Calls.Throughout step Timely (initial ms) (ops ++ [.reset k]))
    (hsince : Calls.Throughout step (fun s a => Timely s a ∧ Leaves k s a)
      (Calls.run step (initial ms) (ops ++ [.reset k])) since) :
    let s := Calls.run step (initial ms) ops
    let s' := Calls.run step (initial ms) (ops ++ .reset k :: since)
    let period := (s.timeouts k).ms
    ∃ n, firings k s' = firings k s ++ (List.range n).map (fun i => s.vtime + (i + 1) * period) ∧
      s.vtime + n * period ≤ s'.vtime ∧ s'.vtime ≤ s.vtime + (n + 1) * period := by
  intro s s' period
  obtain ⟨hbefore, hreset⟩ := Calls.throughout_concat.1 hops
  have hpunctual := (punctual hbefore).step hreset
  have howned := (owned (hbefore.mono fun _ _ h => h.1)).step hreset.1
  rw [Calls.run_concat] at hsince
  have hrun : s' = Calls.run step (s.reset k) since := Calls.run_append _ _ _
  have hinvariant : Owned s' ∧ Punctual s' ∧
      ∃ n, Ticking k period s.vtime (firings k s) n s' := by
    rw [hrun]
    refine hsince.invariant (J := fun u => Owned u ∧ Punctual u ∧
      ∃ n, Ticking k period s.vtime (firings k s) n u)
      ⟨howned, hpunctual, 0, Ticking.start hreset.2⟩ ?_
    rintro u a ⟨howned, hpunctual, n, hticking⟩ ⟨ha, hleaves⟩
    exact ⟨howned.step ha.1, hpunctual.step ha, hticking.step howned hpunctual ha hleaves⟩
  obtain ⟨-, hpunctual', n, hticking⟩ := hinvariant
  obtain ⟨t, ht, -, hwhen⟩ := hticking.pending
  exact ⟨n, hticking.firings, hticking.clock, hwhen ▸ hpunctual'.timeline.future t ht⟩

theorem timeout_periodic_twice :
    let s := Calls.run step (initial fun _ => 10) ([.timer 5 1, .fire] : List (Action ℕ ℕ))
    let s' := Calls.run step (initial fun _ => 10)
      (([.timer 5 1, .fire] : List (Action ℕ ℕ)) ++ .reset 0 :: [.fire, .send 0 1 7, .receive,
        .received, .fire])
    let period := (s.timeouts 0).ms
    ∃ n, firings 0 s' = firings 0 s ++ (List.range n).map (fun i => s.vtime + (i + 1) * period) ∧
      s.vtime + n * period ≤ s'.vtime ∧ s'.vtime ≤ s.vtime + (n + 1) * period :=
  timeout_periodic (by decide +kernel) (by decide +kernel)

/-! ### Stopped timeouts -/

/-- The step starts the `Timeout`. -/
def starts (k : ℕ) : Action M C → Bool
  | .reset j => j = k
  | _ => false

/-- The `Timeout` has no timer, and did not fire again. -/
def Silent (k : ℕ) (earlier : List ℕ) (s : SimulatedTransport M C) : Prop :=
  Idle k s ∧ firings k s = earlier

theorem Silent.of (h : Silent k earlier s) (htimers : ∀ t ∈ s'.timers, t ∈ s.timers)
    (hfirings : firings k s' = firings k s) : Silent k earlier s' :=
  ⟨fun t ht => h.1 t (htimers t ht), hfirings.trans h.2⟩

theorem Silent.timer (h : Silent k earlier s) (ms : ℕ) (hcb : cb ≠ .timeout k) :
    Silent k earlier (s.timer ms cb) := by
  refine ⟨fun t ht => ?_, (firings_timer cb ms).trans h.2⟩
  rcases Timer.mem_insert.1 ht with rfl | ht
  · exact hcb
  · exact h.1 t ht

theorem stop_timers (j : ℕ) : (s.stop j).timers.Sublist s.timers := by
  rw [stop]
  split_ifs
  · exact List.filter_sublist
  · exact .refl _

theorem Silent.stop (h : Silent k earlier s) (j : ℕ) : Silent k earlier (s.stop j) :=
  h.of (fun _ ht => (stop_timers j).subset ht) (firings_stop j)

theorem Silent.reset (h : Silent k earlier s) {j : ℕ} (hj : j ≠ k) :
    Silent k earlier (s.reset j) :=
  (h.stop j).timer _ fun hjk => hj (Callback.timeout.inj hjk)

theorem Silent.fire (h : Silent k earlier s) : Silent k earlier s.fire := by
  rw [SimulatedTransport.fire]
  split
  · exact h
  · rename_i t ts htimers
    split_ifs
    · have hcb := h.1 t (htimers ▸ .head ts)
      have hrest : Silent k earlier (s.expire t ts) := by
        refine h.of (fun u hu => htimers ▸ .tail t hu) ?_
        rw [firings_expire, if_neg fun hof => hcb (ofTimeout_iff.1 hof), List.append_nil]
      obtain ⟨due, id, cb⟩ := t
      cases cb with
      | push q => exact hrest.of (fun _ hu => hu) (firings_push q)
      | timeout j =>
          have hj : j ≠ k := fun hjk => hcb (hjk ▸ rfl)
          have hcleared : Silent k earlier (setTimeouts j { s.timeouts j with timerId := 0 }
            (s.expire ⟨due, id, .timeout j⟩ ts)) := hrest.of (fun _ hu => hu) rfl
          exact hcleared.reset hj
      | user c => exact hrest
    · exact h

theorem Silent.step (h : Silent k earlier s) {a : Action M C} (ha : starts k a = false) :
    Silent k earlier (s.step a) := by
  cases a with
  | register replicaIdx => exact h.of (fun _ ht => ht) rfl
  | send src dst m =>
      show Silent k earlier (s.sendMessageInternal src dst m)
      rw [sendMessageInternal]
      split
      · exact h
      · rename_i m' delay hm
        have haccepted : Silent k earlier { s with
            log := s.log ++ [SimEvent.accepted ⟨dst, src, m'⟩] } :=
          h.of (fun _ ht => ht)
            (firings_append rfl fun e he => by rw [List.mem_singleton.1 he]; rfl)
        show Silent k earlier (if delay = 0 then _ else _)
        split_ifs
        · exact haccepted.of (fun _ ht => ht) (firings_push _)
        · exact haccepted.timer delay fun hcb => by cases hcb
  | timer ms c => exact h.timer ms fun hcb => by cases hcb
  | cancelTimer id =>
      exact h.of (fun _ ht => List.filter_sublist.subset ht) (firings_cancelTimer id)
  | cancelAllTimers =>
      exact h.of (fun _ ht => absurd ht List.not_mem_nil)
        (firings_append rfl fun _ he => (mem_cancelled he).1)
  | addFilter id f => exact h.of (fun _ ht => ht) rfl
  | removeFilter id => exact h.of (fun _ ht => ht) rfl
  | reset j => exact h.reset (of_decide_eq_false ha)
  | stop j => exact h.stop j
  | setTimeout j ms => exact h.of (fun _ ht => ht) rfl
  | receive =>
      show Silent k earlier s.receive
      rw [SimulatedTransport.receive]
      split
      · exact h
      · split_ifs
        · exact h.of (fun _ ht => ht)
            (firings_append rfl fun e he => by rw [List.mem_singleton.1 he]; rfl)
        · exact h
  | received =>
      show Silent k earlier s.received
      rw [SimulatedTransport.received]
      split_ifs
      · exact h.of (fun _ ht => ht) rfl
      · exact h
  | fire => exact h.fire

/-- **A `Timeout` that is stopped does not fire** until it is started again, where the numbers of the
timers have not wrapped around before. -/
theorem stopped_silent (ms : ℕ → ℕ) {ops : List (Action M C)}
    (hops : Calls.Throughout step Counted (initial ms) ops) {since : List (Action M C)} {k : ℕ}
    (hsince : ∀ a ∈ since, starts k a = false) :
    firings k (Calls.run step (initial ms) (ops ++ .stop k :: since)) =
      firings k (Calls.run step (initial ms) ops) := by
  have howned := owned hops
  rw [Calls.run_append]
  have hstart : Silent k (firings k (Calls.run step (initial ms) ops))
      (SimulatedTransport.stop k (Calls.run step (initial ms) ops)) :=
    ⟨(howned.stop k).2, firings_stop k⟩
  exact (Calls.run_invariant hstart fun a ha _ h => h.step (hsince a ha)).2

theorem stopped_silent_once :
    firings 0 (Calls.run step (initial fun _ => 10)
      (([.reset 0, .fire] : List (Action ℕ ℕ)) ++ .stop 0 :: [.timer 30 5, .fire])) =
      firings 0 (Calls.run step (initial fun _ => 10) ([.reset 0, .fire] : List (Action ℕ ℕ))) :=
  stopped_silent (fun _ => 10) (by decide +kernel) (by decide)

end SimulatedTransport

end D2PC
