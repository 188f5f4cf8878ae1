import D2PC.Lib.Calls
import D2PC.Properties.Outcomes

/-!
# The replies of the Carousel mode

`LRClient` collects the replies of the replicas of one shard. A super majority that includes the
leader completes the prepare at once. The reply the leader sends when the transaction is replicated
only raises a flag, and the flag is tested when the next reply comes in: the order of the replies
decides whether the continuation is called at all, and what it is told.

* `Collecting.receive` : one reply;
* `superMajority` : what the replies received so far have decided;
* `carousel_completes` : after which orders the continuation was called once, with the outcome and
  the timestamp of the leader's reply;
* `leader_last` : the leader's reply comes last, and nothing happens.
-/

namespace D2PC

open Prog Ctx

/-- The pending prepare of one shard, and the calls of its continuation with the code and the
timestamp. -/
structure Collecting where
  pending : Option LRClient.PendingPrepare
  invoked : List (ℕ × ℕ) := []

namespace Collecting

/-- One more reply. -/
def receive (env : ClientEnv) (x : Collecting) (msg : PrepareTransactionReply) : Collecting :=
  match x.pending with
  | none => x
  | some req =>
      match Client.respond env req msg with
      | (some call, _) => { pending := none, invoked := x.invoked ++ [call] }
      | (none, req) => { x with pending := some req }

/-- This is what a client does with a reply. -/
theorem handlePrepareTxnReply_eq {env : ClientEnv} {ω : Choice} {s : Shard}
    {msg : PrepareTransactionReply} {req : LRClient.PendingPrepare}
    {y : Ctx Client Addr Msg Event}
    (hreq : y.state.pendingReqs.lookup s = some (.prepare req)) :
    Client.handlePrepareTxnReply env ω s msg y =
      match receive env { pending := some req } msg with
      | ⟨none, calls⟩ => (do
          calls.forM fun call => Client.prepareCallback env ω s msg.shard call.1 call.2
          Client.erasePendingReq s : ClientM Unit) y
      | ⟨some req, _⟩ => (update fun c => { c with
          pendingReqs := c.pendingReqs.insert s (.prepare req) } : ClientM Unit) y := by
  simp only [Client.handlePrepareTxnReply, Client.respond, read_bind, hreq, receive]
  cases hcollect : Client.collectReply env req msg with
  | mk answered req =>
      cases answered with
      | false => rfl
      | true =>
          show (Client.prepareCallback env ω s msg.shard req.state.reported req.timestamp >>=
            fun _ => Client.erasePendingReq s) y =
              ((Client.prepareCallback env ω s msg.shard req.state.reported req.timestamp >>=
                fun _ => pure PUnit.unit) >>= fun _ => Client.erasePendingReq s) y
          simp only [bind]
          cases Client.prepareCallback env ω s msg.shard req.state.reported req.timestamp y <;> rfl

end Collecting

/-! ### What the replies decide -/

/-- The last reply of every replica. -/
def lastReplies (l : List PrepareTransactionReply) : Table ℕ LogEntryState :=
  l.foldl (fun t msg => t.insert msg.replica msg.state) ∅

/-- The greatest timestamp of the replies. -/
def greatest (l : List PrepareTransactionReply) : ℕ := l.foldl (fun t msg => max t msg.timestamp) 0

/-- What a super majority with the leader agrees on: to go on, or not. -/
def superMajority (env : ClientEnv) (leader : ℕ) (l : List PrepareTransactionReply) : Option Bool :=
  let states := (lastReplies l).toList.map Prod.snd
  if env.cfg.fastQuorumSize ≤ states.count .prepareOk ∧ leader ∈ lastReplies l then some true
  else if env.cfg.fastQuorumSize ≤ states.length - states.count .prepareOk ∧
      leader ∈ lastReplies l then some false
  else none

/-- The request after the replies `l`, none of which completed it. -/
def awaiting (leader : ℕ) (state : LogEntryState) (l : List PrepareTransactionReply) :
    LRClient.PendingPrepare where
  leader := leader
  state := state
  timestamp := greatest l
  replicaReplies := lastReplies l

variable {env : ClientEnv} {leader : ℕ} {state : LogEntryState}
  {l : List PrepareTransactionReply} {msg : PrepareTransactionReply}

theorem entered_awaiting :
    Client.entered (awaiting leader state l) msg = awaiting leader state (l ++ [msg]) := by
  simp only [Client.entered, awaiting, lastReplies, greatest, List.foldl_concat]

/-- The check is whether there is a super majority. -/
theorem carouselCheck_awaiting : Client.carouselCheck env (awaiting leader state l) =
    match superMajority env leader l with
    | some ok => (true, { awaiting leader state l with state := if ok then .prepareOk else .abort })
    | none => (false, awaiting leader state l) := by
  have hok : ((lastReplies l).toList.map Prod.snd).count .prepareOk ≤
      ((lastReplies l).toList.map Prod.snd).length := List.count_le_length
  simp only [Client.carouselCheck, superMajority, awaiting, Client.countReplies, Bool.false_eq_true,
    if_false]
  by_cases hyes : env.cfg.fastQuorumSize ≤ ((lastReplies l).toList.map Prod.snd).count .prepareOk ∧
      leader ∈ lastReplies l
  · have hall : env.cfg.fastQuorumSize ≤ ((lastReplies l).toList.map Prod.snd).length ∧
        env.cfg.fastQuorumSize ≤ ((lastReplies l).toList.map Prod.snd).count .prepareOk ∧
        leader ∈ lastReplies l := ⟨hyes.1.trans hok, hyes⟩
    simp only [if_pos hyes, if_true]
    exact if_pos hall
  · have hany : ¬ (env.cfg.fastQuorumSize ≤ ((lastReplies l).toList.map Prod.snd).length ∧
        env.cfg.fastQuorumSize ≤ ((lastReplies l).toList.map Prod.snd).count .prepareOk ∧
        leader ∈ lastReplies l) := fun h => hyes h.2
    simp only [if_neg hyes]
    refine (if_neg hany).trans ?_
    by_cases hno : env.cfg.fastQuorumSize ≤ ((lastReplies l).toList.map Prod.snd).length -
        ((lastReplies l).toList.map Prod.snd).count .prepareOk ∧ leader ∈ lastReplies l
    · have hall : env.cfg.fastQuorumSize ≤ ((lastReplies l).toList.map Prod.snd).length ∧
          env.cfg.fastQuorumSize ≤ ((lastReplies l).toList.map Prod.snd).length -
            ((lastReplies l).toList.map Prod.snd).count .prepareOk ∧ leader ∈ lastReplies l :=
        ⟨hno.1.trans (Nat.sub_le ..), hno⟩
      simp only [if_pos hno, Bool.false_eq_true, if_false]
      exact if_pos hall
    · have hany : ¬ (env.cfg.fastQuorumSize ≤ ((lastReplies l).toList.map Prod.snd).length ∧
          env.cfg.fastQuorumSize ≤ ((lastReplies l).toList.map Prod.snd).length -
            ((lastReplies l).toList.map Prod.snd).count .prepareOk ∧ leader ∈ lastReplies l) :=
        fun h => hno h.2
      simp only [if_neg hno]
      exact if_neg hany

namespace Collecting

/-- The request after the leader's reply raised the flag. -/
def flagged (leader : ℕ) (state : LogEntryState) (l : List PrepareTransactionReply)
    (msg : PrepareTransactionReply) : LRClient.PendingPrepare :=
  { awaiting leader state (l ++ [msg]) with
    state := msg.state
    reachFaultTolerance := true
    timestamp := msg.timestamp }

/-- **One more reply.** -/
theorem receive_awaiting (hmode : env.cfg.mode = .carousel) :
    receive env { pending := some (awaiting leader state l) } msg =
      match superMajority env leader (l ++ [msg]) with
      | some ok => ⟨none, [(if ok then 0 else 1, greatest (l ++ [msg]))]⟩
      | none => ⟨some (if msg.reachFaultTolerance = 1 then flagged leader state l msg
          else awaiting leader state (l ++ [msg])), []⟩ := by
  have hcheck : Client.carouselCheck env (Client.entered (awaiting leader state l) msg) = _ :=
    (congrArg _ entered_awaiting).trans carouselCheck_awaiting
  cases hmajority : superMajority env leader (l ++ [msg]) with
  | none =>
      rw [hmajority] at hcheck
      have hcollect := Client.collectReply_carousel hmode hcheck
      simp only [receive, Client.respond, hcollect, true_and]
      rfl
  | some ok =>
      rw [hmajority] at hcheck
      have hcollect := Client.collectReply_carousel hmode hcheck
      rw [if_neg fun h => Bool.noConfusion h.1] at hcollect
      simp only [receive, Client.respond, hcollect]
      cases ok <;> rfl

/-- The reply after the flag, whatever it says. -/
theorem receive_flagged (hmode : env.cfg.mode = .carousel) {m : PrepareTransactionReply} :
    receive env { pending := some (flagged leader state l m) } msg =
      ⟨none, [(m.state.reported, max m.timestamp msg.timestamp)]⟩ := by
  have hcollect : Client.collectReply env (flagged leader state l m) msg =
      (true, Client.entered (flagged leader state l m) msg) := by
    simp only [Client.collectReply, hmode, true_or, if_true, Client.carouselCheck, flagged,
      Client.entered]
  simp only [receive, Client.respond, hcollect]
  rfl

end Collecting

open Calls Collecting

/-- Neither the leader's reply `m` nor a super majority is in. -/
def Undecided (env : ClientEnv) (leader : ℕ) (m : PrepareTransactionReply)
    (l : List PrepareTransactionReply) : Prop :=
  m ∉ l ∧ superMajority env leader l = none

theorem undecided_nil (env : ClientEnv) (leader : ℕ) (m : PrepareTransactionReply) :
    Undecided env leader m [] := by
  have hno : leader ∉ lastReplies [] := AList.notMem_empty leader
  refine ⟨List.not_mem_nil, ?_⟩
  simp only [superMajority, hno, and_false, if_false]

/-- A property that holds at first holds of all prefixes, or fails after a first one. -/
theorem prefix_cases {α : Type} {P : List α → Prop} (hnil : P []) (l : List α) :
    (∀ l', l' <+: l → P l') ∨
      ∃ before a after, l = before ++ a :: after ∧ (∀ l', l' <+: before → P l') ∧
        ¬ P (before ++ [a]) := by
  induction l using List.reverseRecOn with
  | nil =>
      refine .inl fun l' hl' => ?_
      rw [List.prefix_nil.1 hl']
      exact hnil
  | append_singleton l a ih =>
      rcases ih with hall | ⟨before, b, after, rfl, hbefore, hnot⟩
      · by_cases ha : P (l ++ [a])
        · refine .inl fun l' hl' => ?_
          rcases List.prefix_concat_iff.1 hl' with rfl | hl'
          · exact ha
          · exact hall l' hl'
        · exact .inr ⟨l, a, [], rfl, hall, ha⟩
      · refine .inr ⟨before, b, after ++ [a], ?_, hbefore, hnot⟩
        rw [List.append_assoc, List.cons_append]

/-- Up to then the request waits. -/
theorem run_undecided (hmode : env.cfg.mode = .carousel) (state : LogEntryState)
    {m : PrepareTransactionReply} (hflag : ∀ r ∈ l, r.reachFaultTolerance = 1 → r = m)
    (hl : ∀ l', l' <+: l → Undecided env leader m l') :
    run (receive env) { pending := some (awaiting leader state []) } l =
      { pending := some (awaiting leader state l) } := by
  induction l using List.reverseRecOn with
  | nil => rfl
  | append_singleton l msg ih =>
      have hlast := hl _ (List.prefix_refl _)
      have hne : msg.reachFaultTolerance ≠ 1 := by
        intro hone
        have heq := hflag msg (List.mem_append_right _ (List.mem_singleton_self _)) hone
        exact hlast.1 (heq ▸ List.mem_append_right _ (List.mem_singleton_self _))
      rw [run_concat, ih (fun r hr => hflag r (List.mem_append_left _ hr))
        fun l' hl' => hl l' (hl'.trans (List.prefix_append ..)), receive_awaiting hmode, hlast.2]
      simp only [if_neg hne]

/-- Nothing happens when the request is no longer pending. -/
theorem run_answered {calls : List (ℕ × ℕ)} :
    run (receive env) ⟨none, calls⟩ l = ⟨none, calls⟩ := by
  induction l with
  | nil => rfl
  | cons msg l ih => exact ih

/-- The prepare is complete, and the continuation was called once, with the outcome and the
timestamp of the leader's reply. -/
def Completed (m : PrepareTransactionReply) (x : Collecting) : Prop :=
  x.pending = none ∧ x.invoked = [(m.state.reported, m.timestamp)]

/-- Another reply follows that of the leader, with no greater timestamp, before a super majority
is in. -/
def Followed (env : ClientEnv) (leader : ℕ) (m : PrepareTransactionReply)
    (msgs : List PrepareTransactionReply) : Prop :=
  ∃ before next after, msgs = before ++ m :: next :: after ∧
    (∀ l, l <+: before → Undecided env leader m l) ∧
    superMajority env leader (before ++ [m]) = none ∧ next.timestamp ≤ m.timestamp

/-- A super majority that the leader's reply agrees with is in with that reply or before it, and
the greatest timestamp so far is that of the leader's reply. -/
def Outrun (env : ClientEnv) (leader : ℕ) (m : PrepareTransactionReply)
    (msgs : List PrepareTransactionReply) : Prop :=
  ∃ before msg after, msgs = before ++ msg :: after ∧
    (∀ l, l <+: before → Undecided env leader m l) ∧
    superMajority env leader (before ++ [msg]) = some (decide (m.state = .prepareOk)) ∧
    greatest (before ++ [msg]) = m.timestamp

/-- **Completion.** For every `f`, every fresh prepare and every order `msgs` of replies that
contains the leader's reply `m` with `reachFaultTolerance`: after the last one the continuation
was called exactly once, with the outcome and the timestamp of the leader's reply, and the request
is no longer pending, exactly if another reply followed in time, or a super majority was in. -/
theorem carousel_completes (hmode : env.cfg.mode = .carousel) (leader : ℕ) (state : LogEntryState)
    {m : PrepareTransactionReply} {msgs : List PrepareTransactionReply} (hm : m ∈ msgs)
    (hone : m.reachFaultTolerance = 1)
    (hflag : ∀ r ∈ msgs, r.reachFaultTolerance = 1 → r = m) :
    Completed m (run (receive env) { pending := some { leader := leader, state := state } } msgs) ↔
      Followed env leader m msgs ∨ Outrun env leader m msgs := by
  have hrun : ∀ {before msg after}, msgs = before ++ msg :: after →
      (∀ l, l <+: before → Undecided env leader m l) →
      run (receive env) { pending := some { leader := leader, state := state } } msgs =
        run (receive env) (receive env { pending := some (awaiting leader state before) } msg)
          after := by
    intro before msg after hmsgs hbefore
    have hwait := run_undecided hmode state (fun r hr => hflag r (by
      rw [hmsgs]
      exact List.mem_append_left _ hr)) hbefore
    rw [hmsgs, run_append, run_cons]
    exact congrArg (fun x => run (receive env) (receive env x msg) after) hwait
  constructor
  · intro hdone
    rcases prefix_cases (undecided_nil env leader m) msgs with
      hall | ⟨before, msg, after, hmsgs, hbefore, hfirst⟩
    · exact absurd hm (hall msgs (List.prefix_refl _)).1
    · rw [hrun hmsgs hbefore, receive_awaiting hmode] at hdone
      cases hquorum : superMajority env leader (before ++ [msg]) with
      | some ok =>
          rw [hquorum] at hdone
          simp only [run_answered] at hdone
          obtain ⟨_, hcall⟩ := hdone
          simp only [List.cons.injEq, Prod.mk.injEq, and_true, LogEntryState.reported] at hcall
          refine .inr ⟨before, msg, after, hmsgs, hbefore, ?_, hcall.2⟩
          rw [hquorum]
          have hcode := hcall.1
          split_ifs at hcode with hok hstate hstate
          · rw [hok, decide_eq_true hstate]
          · rw [Bool.eq_false_of_not_eq_true hok, decide_eq_false hstate]
      | none =>
          have heq : m = msg := by
            by_contra hne
            refine hfirst ⟨fun hmem => ?_, hquorum⟩
            rcases List.mem_append.1 hmem with hold | hnew
            · exact (hbefore before (List.prefix_refl _)).1 hold
            · exact hne (List.mem_singleton.1 hnew)
          subst heq
          rw [hquorum] at hdone
          simp only [if_pos hone] at hdone
          cases after with
          | nil => cases hdone.1
          | cons next after =>
              rw [run_cons, receive_flagged hmode, run_answered] at hdone
              obtain ⟨_, hcall⟩ := hdone
              simp only [List.cons.injEq, Prod.mk.injEq, and_true, true_and] at hcall
              exact .inl ⟨before, next, after, hmsgs, hbefore, hquorum, max_eq_left_iff.1 hcall⟩
  · rintro (⟨before, next, after, hmsgs, hbefore, hnone, hle⟩ |
      ⟨before, msg, after, hmsgs, hbefore, hsome, hts⟩)
    · rw [hrun hmsgs hbefore, receive_awaiting hmode, hnone]
      simp only [if_pos hone, run_cons]
      rw [receive_flagged hmode, run_answered, max_eq_left hle]
      exact ⟨rfl, rfl⟩
    · rw [hrun hmsgs hbefore, receive_awaiting hmode, hsome]
      simp only
      rw [run_answered, hts]
      refine ⟨rfl, ?_⟩
      simp only [decide_eq_true_eq]
      rfl

/-- A reply of replica `i`. -/
def carouselReply (i timestamp reachFaultTolerance : ℕ) : PrepareTransactionReply where
  tid := 7
  state := .prepareOk
  shard := 0
  timestamp := timestamp
  reachFaultTolerance := reachFaultTolerance
  replica := i

/-- The leader's reply comes first, that of a follower completes the prepare. -/
theorem carousel_completes_followed :
    Completed (carouselReply 0 5 1) (run (receive ⟨threeReplicas .carousel 1, 7⟩)
      { pending := some { leader := 0, state := .undecide } }
      [carouselReply 0 5 1, carouselReply 1 4 0]) := by
  refine (carousel_completes rfl 0 .undecide List.mem_cons_self rfl ?_).2 (.inl ?_)
  · intro r hr hone
    rcases List.mem_cons.1 hr with rfl | hr
    · rfl
    · rw [List.mem_singleton.1 hr] at hone
      cases hone
  · refine ⟨[], _, [], rfl, fun l hl => ?_, by decide +kernel, by decide⟩
    rw [List.prefix_nil.1 hl]
    exact undecided_nil ..

/-- **The leader's reply comes last.** The prepare stays pending and the continuation is not
called. -/
theorem leader_last :
    (run (receive ⟨threeReplicas .carousel 1, 7⟩)
      { pending := some { leader := 0, state := .undecide } }
      [carouselReply 1 4 0, carouselReply 0 5 1]).pending.isSome ∧
    (run (receive ⟨threeReplicas .carousel 1, 7⟩)
      { pending := some { leader := 0, state := .undecide } }
      [carouselReply 1 4 0, carouselReply 0 5 1]).invoked = [] := by
  decide +kernel

end D2PC
