import D2PC.Properties.Durability

/-!
# A union of replies and its parts

`BypassLeaderReplyUnion` carries the replies of one replica for several shards. The loop that
enters them keeps its flag `already_received` from one shard to the next: after a shard whose
reply was received before, the replies for all further shards are dropped.

* `Coordinator.inTurn` : the replies one after the other, as `HandleBypassLeaderReply` enters
  them (`Coordinator.forM_eq_inTurn`);
* `Coordinator.Aligned` : the shards whose replies are new come first;
* `Coordinator.handleMessage_keyed` : every request is entered under its own transaction;
* `union_eq_parts` : the union does what its parts do exactly if the new replies come first;
* `union_drops_reply` : a union whose second reply is lost.
-/

namespace D2PC

open Prog Ctx

namespace Coordinator

variable {env : CoordinatorEnv} {ω : Choice} {tid : TxnId} {r : ℕ} {req : PendingCommit}
  {q : Shard} {qs : List Shard} {x : Ctx Coordinator Addr Msg Event}

/-! ### One reply -/

/-- The reply of replica `r` for the shard was received. -/
def received (r : ℕ) (req : PendingCommit) (q : Shard) : Bool :=
  ((req.replicateResults.lookup q).getD []).any fun p => p.replica = r

/-- The request after a reply. -/
def replied (tid : TxnId) (r : ℕ) (req : PendingCommit) (q : Shard) : PendingCommit :=
  (collectReply (addReply req ⟨tid, q, r⟩).1 (addReply req ⟨tid, q, r⟩).2).2

/-- The reply completes the transaction. -/
def concludes (tid : TxnId) (r : ℕ) (req : PendingCommit) (q : Shard) : Bool :=
  (collectReply (addReply req ⟨tid, q, r⟩).1 (addReply req ⟨tid, q, r⟩).2).1 &&
    (replied tid r req q).reachConsensus &&
      allParticipantsHaveNoPrecommitDependency (replied tid r req q)

/-- The replies one after the other. -/
def inTurn (env : CoordinatorEnv) (tid : TxnId) (r : ℕ) :
    List Shard → PendingCommit → CoordinatorM Unit
  | [], req => setCommit tid req
  | q :: qs, req =>
      if concludes tid r req q then do
        setCommit tid (replied tid r req q)
        announce env (replied tid r req q) .commit
      else inTurn env tid r qs (replied tid r req q)

/-- The replies of a shard are entered. -/
def setReplies (req : PendingCommit) (q : Shard) (replies : List BypassLeaderReply) :
    PendingCommit :=
  { req with replicateResults := req.replicateResults.insert q replies }

/-- The shard is looked up in the table of the replies. -/
def touched (req : PendingCommit) (q : Shard) : PendingCommit :=
  setReplies req q ((req.replicateResults.lookup q).getD [])

theorem addReply_received (h : received r req q = true) : addReply req ⟨tid, q, r⟩ =
    (false, touched req q) := if_pos h

theorem addReply_new (h : received r req q = false) : addReply req ⟨tid, q, r⟩ =
    (true, setReplies req q ((req.replicateResults.lookup q).getD [] ++ [⟨tid, q, r⟩])) :=
  if_neg (by rw [received] at h; simp [h])

/-- A reply that was received changes nothing but the place of the shard in the table. -/
theorem replied_received (h : received r req q = true) :
    replied tid r req q = touched req q := by
  rw [replied, addReply_received h]
  rfl

theorem concludes_received (h : received r req q = true) : concludes tid r req q = false := by
  rw [concludes, addReply_received h]
  rfl

@[simp] theorem replied_tid : (replied tid r req q).tid = req.tid := by
  cases h : received r req q with
  | true =>
      rw [replied_received h]
      rfl
  | false =>
      rw [replied, addReply_new h]
      simp only [collectReply]
      split_ifs <;> rfl

theorem replied_results : (replied tid r req q).replicateResults =
    (addReply req ⟨tid, q, r⟩).2.replicateResults := by
  simp only [replied, collectReply]
  split_ifs <;> rfl

/-- What was received stays received. -/
theorem received_replied {p : Shard} :
    received r (replied tid r req q) p = (received r req p || decide (p = q)) := by
  rw [received, replied_results]
  cases h : received r req q with
  | true =>
      rw [addReply_received h]
      simp only [touched, setReplies, Table.lookup_insert_eq]
      split_ifs with hp
      · rw [hp]
        simp only [Option.getD_some, decide_true, Bool.or_true]
        exact h
      · rw [decide_eq_false hp, Bool.or_false]
        rfl
  | false =>
      rw [addReply_new h]
      simp only [setReplies, Table.lookup_insert_eq]
      split_ifs with hp
      · simp [hp]
      · rw [decide_eq_false hp, Bool.or_false]
        rfl

theorem received_touched {p : Shard} : received r (touched req q) p = received r req p := by
  rw [received, received, touched, setReplies, Table.lookup_insert_eq]
  split_ifs with hp
  · rw [hp, Option.getD_some]
  · rfl

theorem received_foldl_touched {p : Shard} :
    received r (qs.foldl touched req) p = received r req p := by
  induction qs generalizing req with
  | nil => rfl
  | cons q qs ih => rw [List.foldl_cons, ih, received_touched]

theorem foldl_touched_tid : (qs.foldl touched req).tid = req.tid := by
  induction qs generalizing req with
  | nil => rfl
  | cons q qs ih => exact ih

/-! ### The parts -/

/-- The transaction the replies are for. -/
def target (env : CoordinatorEnv) (ω : Choice) (tid : TxnId) (x : Ctx Coordinator Addr Msg Event) :
    PendingCommit :=
  (x.state.pendingCommits.lookup tid).getD (newCommit env ω tid)

/-- The context after a request was entered. -/
def entering (tid : TxnId) (req : PendingCommit) (x : Ctx Coordinator Addr Msg Event) :
    Ctx Coordinator Addr Msg Event :=
  { x with state := { x.state with pendingCommits := x.state.pendingCommits.insert tid req } }

theorem setCommit_run : setCommit tid req x = .done () (entering tid req x) := rfl

theorem entering_entering {req' : PendingCommit} :
    entering tid req' (entering tid req x) = entering tid req' x := by
  simp only [entering, AList.insert_insert]

/-- A decided transaction takes no replies. -/
theorem handleBypassLeaderReply_decided (h : tid ∈ x.state.commitResults) :
    handleBypassLeaderReply env ω ⟨tid, q, r⟩ x = .done () x := by
  simp only [handleBypassLeaderReply, read_bind, if_pos h]
  rfl

/-- One reply, in the words of a union. -/
theorem handleBypassLeaderReply_run (h : tid ∉ x.state.commitResults) :
    handleBypassLeaderReply env ω ⟨tid, q, r⟩ x = inTurn env tid r [q] (target env ω tid x) x := by
  simp only [handleBypassLeaderReply, read_bind, if_neg h]
  change (setCommit tid (replied tid r (target env ω tid x) q) >>= fun _ =>
    when (concludes tid r (target env ω tid x) q)
      (announce env (replied tid r (target env ω tid x) q) .commit)) x = _
  simp only [inTurn]
  cases hc : concludes tid r (target env ω tid x) q with
  | true => rfl
  | false => rfl

/-- The transaction is announced: it is decided, and no longer pending. -/
theorem announce_run (env : CoordinatorEnv) (req : PendingCommit) (result : CommitResult)
    (x : Ctx Coordinator Addr Msg Event) :
    ∃ y, announce env req result x = .done () y ∧ req.tid ∈ y.state.commitResults ∧
      y.state.pendingCommits = x.state.pendingCommits.erase req.tid := by
  refine ⟨_, rfl, ?_, rfl⟩
  exact (AList.mem_insert _).2 (.inl rfl)

/-- Only the last request that is entered counts. -/
theorem inTurn_entering {req' : PendingCommit} :
    inTurn env tid r qs req (entering tid req' x) = inTurn env tid r qs req x := by
  induction qs generalizing req with
  | nil => rw [inTurn, setCommit_run, setCommit_run, entering_entering]
  | cons q qs ih =>
      simp only [inTurn]
      split_ifs
      · show announce env _ _ (entering tid _ (entering tid req' x)) =
          announce env _ _ (entering tid _ x)
        rw [entering_entering]
      · exact ih

theorem target_entering : target env ω tid (entering tid req x) = req := by
  rw [target, entering, AList.lookup_insert]
  rfl

/-- The first of the parts. -/
theorem forM_cons {y : Ctx Coordinator Addr Msg Event}
    (h : handleBypassLeaderReply env ω ⟨tid, q, r⟩ x = .done () y) :
    ((q :: qs).forM fun q => handleBypassLeaderReply env ω ⟨tid, q, r⟩) x =
      (qs.forM fun q => handleBypassLeaderReply env ω ⟨tid, q, r⟩) y := by
  rw [List.forM]
  simp only [bind, h]

/-- Nothing happens after the decision. -/
theorem forM_decided (h : tid ∈ x.state.commitResults) :
    (qs.forM fun q => handleBypassLeaderReply env ω ⟨tid, q, r⟩) x = .done () x := by
  induction qs with
  | nil => rfl
  | cons q qs ih =>
      rw [forM_cons (handleBypassLeaderReply_decided h)]
      exact ih

/-- **The parts**, one message after the other. -/
theorem forM_eq_inTurn (h : tid ∉ x.state.commitResults) (htid : (target env ω tid x).tid = tid)
    (hqs : qs ≠ []) :
    (qs.forM fun q => handleBypassLeaderReply env ω ⟨tid, q, r⟩) x =
      inTurn env tid r qs (target env ω tid x) x := by
  induction qs generalizing x with
  | nil => exact absurd rfl hqs
  | cons q qs ih =>
      have hfirst : handleBypassLeaderReply env ω ⟨tid, q, r⟩ x =
          inTurn env tid r [q] (target env ω tid x) x := handleBypassLeaderReply_run h
      have hnext : (target env ω tid (entering tid (replied tid r (target env ω tid x) q) x)).tid =
          tid := by
        rw [target_entering, replied_tid, htid]
      simp only [inTurn] at hfirst ⊢
      by_cases hc : concludes tid r (target env ω tid x) q = true
      · -- The decision is made: the rest of the replies is ignored.
        rw [if_pos hc] at hfirst ⊢
        obtain ⟨y, hy, hdecided, -⟩ := announce_run env
          (replied tid r (target env ω tid x) q) .commit
          (entering tid (replied tid r (target env ω tid x) q) x)
        rw [replied_tid, htid] at hdecided
        rw [forM_cons (hfirst.trans hy), forM_decided hdecided]
        exact hy.symm
      · rw [if_neg hc] at hfirst ⊢
        rw [forM_cons (hfirst.trans setCommit_run)]
        cases qs with
        | nil => rfl
        | cons q' qs =>
            rw [ih (x := entering tid _ x) h hnext (List.cons_ne_nil _ _), target_entering,
              inTurn_entering]

/-- Replies that were received before change nothing but the places in the table. -/
theorem inTurn_received (h : ∀ q ∈ qs, received r req q = true) :
    inTurn env tid r qs req = setCommit tid (qs.foldl touched req) := by
  induction qs generalizing req with
  | nil => rfl
  | cons q qs ih =>
      have hq : received r req q = true := h q List.mem_cons_self
      rw [inTurn, concludes_received hq, replied_received hq, List.foldl_cons]
      refine ih fun q' hq' => ?_
      rw [received_touched]
      exact h q' (List.mem_cons_of_mem _ hq')

/-- The parts leave no reply out: afterwards all are entered, or the transaction is decided. -/
theorem inTurn_spec (htid : req.tid = tid) :
    ∃ y, inTurn env tid r qs req x = .done () y ∧
      (y.state.pendingCommits.lookup tid = none ∨
        ∃ req', y.state.pendingCommits.lookup tid = some req' ∧
          ∀ q, (q ∈ qs ∨ received r req q = true) → received r req' q = true) := by
  induction qs generalizing req with
  | nil =>
      refine ⟨_, rfl, .inr ⟨req, AList.lookup_insert _, ?_⟩⟩
      rintro q (hq | hq)
      · cases hq
      · exact hq
  | cons q qs ih =>
      simp only [inTurn]
      by_cases hc : concludes tid r req q = true
      · obtain ⟨y, hy, -, herase⟩ := announce_run env (replied tid r req q) .commit
          (entering tid (replied tid r req q) x)
        rw [if_pos hc]
        refine ⟨y, hy, .inl ?_⟩
        rw [herase, replied_tid, htid]
        exact AList.lookup_erase ..
      · rw [if_neg hc]
        obtain ⟨y, hy, hleft⟩ := ih (replied_tid.trans htid)
        refine ⟨y, hy, ?_⟩
        rcases hleft with hnone | ⟨req', hreq', hall⟩
        · exact .inl hnone
        · refine .inr ⟨req', hreq', fun p hp => hall p ?_⟩
          rw [received_replied]
          rcases hp with hp | hp
          · rcases List.mem_cons.1 hp with rfl | hp
            · exact .inr (by simp)
            · exact .inl hp
          · exact .inr (by simp [hp])

/-! ### The union -/

/-- Behind a reply that was received before, the union enters nothing. -/
theorem addReplies_already :
    addReplies env tid r qs true req = setCommit tid (qs.foldl touched req) := by
  induction qs generalizing req with
  | nil => rfl
  | cons q qs ih => exact ih

theorem addReplies_received (h : received r req q = true) :
    addReplies env tid r (q :: qs) false req = addReplies env tid r qs true (touched req q) := by
  have hany : (((req.replicateResults.lookup q).getD []).any fun p => p.replica = r) = true := h
  simp only [addReplies, Bool.false_or, hany]
  rfl

theorem addReplies_new (h : received r req q = false) :
    addReplies env tid r (q :: qs) false req =
      if concludes tid r req q then do
        setCommit tid (replied tid r req q)
        announce env (replied tid r req q) .commit
      else addReplies env tid r qs false (replied tid r req q) := by
  have hany : (((req.replicateResults.lookup q).getD []).any fun p => p.replica = r) = false := h
  simp only [addReplies, Bool.false_or, hany, concludes, replied, addReply_new h, setReplies,
    AList.insert_insert]
  rfl

/-- The replies that are new come first, up to one that completes the transaction. -/
def Aligned (tid : TxnId) (r : ℕ) : List Shard → PendingCommit → Prop
  | [], _ => True
  | q :: qs, req =>
      if received r req q = true then ∀ q' ∈ qs, received r req q' = true
      else concludes tid r req q = true ∨ Aligned tid r qs (replied tid r req q)

instance decidableAligned (tid : TxnId) (r : ℕ) :
    (qs : List Shard) → (req : PendingCommit) → Decidable (Aligned tid r qs req)
  | [], _ => .isTrue trivial
  | q :: qs, req =>
      if h : received r req q = true then
        decidable_of_iff (∀ q' ∈ qs, received r req q' = true) (by rw [Aligned, if_pos h])
      else
        have := decidableAligned tid r qs (replied tid r req q)
        decidable_of_iff (concludes tid r req q = true ∨ Aligned tid r qs (replied tid r req q))
          (by rw [Aligned, if_neg h])

/-- Aligned replies are entered as one after the other. -/
theorem addReplies_aligned (h : Aligned tid r qs req) :
    addReplies env tid r qs false req = inTurn env tid r qs req := by
  induction qs generalizing req with
  | nil => rfl
  | cons q qs ih =>
      by_cases hq : received r req q = true
      · rw [Aligned, if_pos hq] at h
        have hall : ∀ q' ∈ q :: qs, received r req q' = true := by
          intro q' hq'
          rcases List.mem_cons.1 hq' with rfl | hq'
          · exact hq
          · exact h q' hq'
        rw [inTurn_received hall, addReplies_received hq, addReplies_already]
        rfl
      · rw [Aligned, if_neg hq] at h
        rw [addReplies_new (Bool.not_eq_true _ ▸ hq), inTurn]
        split_ifs with hc
        · rfl
        · exact ih (h.resolve_left hc)

/-- Two handlers leave the same coordinator behind and send the same. -/
structure SameOutcome (p p' : CoordinatorM Unit) (x : Ctx Coordinator Addr Msg Event) : Prop where
  alive : (p x).isDead = (p' x).isDead
  pending : ∀ t, (p x).state.state.pendingCommits.lookup t =
    (p' x).state.state.pendingCommits.lookup t
  results : (p x).state.state.commitResults = (p' x).state.state.commitResults
  sent : (p x).state.sent = (p' x).state.sent
  events : (p x).state.events = (p' x).state.events

theorem SameOutcome.of_eq {p p' : CoordinatorM Unit} (h : p x = p' x) : SameOutcome p p' x := by
  constructor
  all_goals simp only [h, implies_true]

/-- Entered as one after the other, the replies are aligned: behind one that was received
before, the union would lose one that is new. -/
theorem aligned_of_lookup (htid : req.tid = tid)
    (h : (addReplies env tid r qs false req x).state.state.pendingCommits.lookup tid =
      (inTurn env tid r qs req x).state.state.pendingCommits.lookup tid) :
    Aligned tid r qs req := by
  induction qs generalizing req with
  | nil => trivial
  | cons q qs ih =>
      by_cases hq : received r req q = true
      · rw [Aligned, if_pos hq]
        rw [addReplies_received hq, addReplies_already, setCommit_run] at h
        have hlost : (entering tid (qs.foldl touched (touched req q)) x).state.pendingCommits.lookup
            tid = some (qs.foldl touched (touched req q)) := AList.lookup_insert _
        obtain ⟨y, hy, hleft⟩ : ∃ y, inTurn env tid r (q :: qs) req x = .done () y ∧ _ :=
          inTurn_spec htid
        rw [hy] at h
        have hsome : y.state.pendingCommits.lookup tid = some (qs.foldl touched (touched req q)) :=
          h.symm.trans hlost
        rcases hleft with hnone | ⟨req', hreq', hall⟩
        · rw [hnone] at hsome
          cases hsome
        · obtain rfl : req' = qs.foldl touched (touched req q) :=
            Option.some.inj (hreq'.symm.trans hsome)
          intro q' hq'
          have hnew := hall q' (.inl (List.mem_cons_of_mem _ hq'))
          rw [received_foldl_touched, received_touched] at hnew
          exact hnew
      · rw [Aligned, if_neg hq]
        rw [addReplies_new (Bool.not_eq_true _ ▸ hq), inTurn] at h
        by_cases hc : concludes tid r req q = true
        · exact .inl hc
        · rw [if_neg hc, if_neg hc] at h
          exact .inr (ih (replied_tid.trans htid) h)

/-! ### Requests under their own keys -/

/-- Every request is entered under its own transaction. -/
def Keyed (s : Coordinator) : Prop := ∀ t req, s.pendingCommits.lookup t = some req → req.tid = t

theorem Keyed.target (h : Keyed x.state) : (target env ω tid x).tid = tid := by
  rw [Coordinator.target]
  cases hl : x.state.pendingCommits.lookup tid with
  | none => rfl
  | some req => exact h tid req hl

/-- A union of no replies enters the transaction. -/
theorem sameOutcome_none {p : CoordinatorM Unit}
    (hp : p x = addReplies env tid r [] false (target env ω tid x) x) :
    SameOutcome p (pure ()) x ↔ tid ∈ x.state.pendingCommits := by
  have hentered : p x = .done () (entering tid (target env ω tid x) x) := hp
  constructor
  · intro hsame
    have hlookup := hsame.pending tid
    rw [hentered] at hlookup
    have hsome : (entering tid (target env ω tid x) x).state.pendingCommits.lookup tid =
        some (target env ω tid x) := AList.lookup_insert _
    have hpending : x.state.pendingCommits.lookup tid = some (target env ω tid x) :=
      hlookup.symm.trans hsome
    exact AList.lookup_isSome.1 (by rw [hpending]; rfl)
  · intro hpending
    obtain ⟨req, hreq⟩ := Option.isSome_iff_exists.1 (AList.lookup_isSome.2 hpending)
    have htarget : target env ω tid x = req := by
      rw [target, hreq]
      rfl
    constructor
    all_goals rw [hentered]
    · rfl
    · intro t
      show (x.state.pendingCommits.insert tid _).lookup t = x.state.pendingCommits.lookup t
      rw [htarget, Table.lookup_insert_eq]
      split_ifs with ht
      · rw [ht, hreq]
      · rfl
    all_goals rfl

/-! ### The keys in every run -/

/-- The keys of the table are kept. -/
abbrev KeepsKeyed (p : CoordinatorM Unit) : Prop :=
  Prog.Keeps (fun x : Ctx Coordinator Addr Msg Event => Keyed x.state) p

theorem setCommit_keyed (h : req.tid = tid) : KeepsKeyed (setCommit tid req) := by
  intro x hx t req' hl
  rw [Table.lookup_insert_eq] at hl
  split_ifs at hl with ht
  · rw [← Option.some.inj hl, h, ht]
  · exact hx t req' hl

theorem eraseCommit_keyed : KeepsKeyed (eraseCommit tid) := by
  intro x hx t req' hl
  rw [Table.lookup_erase_eq] at hl
  split_ifs at hl with ht
  exact hx t req' hl

theorem record_keyed {result : CommitResult} {announced : Bool} :
    KeepsKeyed (record tid result announced) := fun _ hx => hx

theorem notifyReplicateResult_keyed : KeepsKeyed (notifyReplicateResult env req) := fun _ hx => hx

theorem announce_keyed {result : CommitResult} : KeepsKeyed (announce env req result) :=
  .bind record_keyed fun _ => .bind notifyReplicateResult_keyed fun _ => eraseCommit_keyed

theorem rejectCommit_keyed : KeepsKeyed (rejectCommit env req) :=
  .bind record_keyed fun _ => .bind (fun _ hx => hx) fun _ => eraseCommit_keyed

/-- A handler that looks a transaction up finds it under its own key. -/
theorem lookup_keyed {k : Option PendingCommit → CoordinatorM Unit}
    (hk : ∀ pending, (∀ req, pending = some req → req.tid = tid) → KeepsKeyed (k pending)) :
    KeepsKeyed (read (·.pendingCommits.lookup tid) >>= k) :=
  fun x hx => hk _ (fun req hl => hx tid req hl) x hx

theorem read_keyed {α : Type} {f : Coordinator → α} {k : α → CoordinatorM Unit}
    (hk : ∀ a, KeepsKeyed (k a)) : KeepsKeyed (read f >>= k) :=
  .bind (fun _ hx => hx) hk

theorem tallyVote_keyed (h : req.tid = tid) {free : PendingCommit → Bool} :
    KeepsKeyed (tallyVote env tid req free) := by
  have hcollect : (collectVote req).2.tid = req.tid := by
    simp only [collectVote, reachConsensus]
    split_ifs <;> rfl
  refine .bind (setCommit_keyed (hcollect.trans h)) fun _ => .when ?_
  exact .bind (fun _ hx => hx) fun _ => .when announce_keyed

theorem votedCommit_tid {pending : Option PendingCommit} {participants : List Shard}
    {primaryShard primaryCoordinator timestamp : ℕ}
    (h : ∀ req, pending = some req → req.tid = tid) :
    (votedCommit env ω pending tid participants primaryShard primaryCoordinator timestamp).tid =
      tid := by
  cases pending with
  | none => rfl
  | some req =>
      refine Eq.trans ?_ (h req rfl)
      simp only [votedCommit, learnParticipants]
      split_ifs <;> rfl

theorem getD_tid {pending : Option PendingCommit} (h : ∀ req, pending = some req → req.tid = tid) :
    (pending.getD (newCommit env ω tid)).tid = tid := by
  cases pending with
  | none => rfl
  | some req => exact h req rfl

theorem handleReplicateReplyAndVote_keyed {msg : ReplicateReplyAndVote} :
    KeepsKeyed (handleReplicateReplyAndVote env ω msg) := by
  refine read_keyed fun results => .ite (.pure ()) (lookup_keyed fun pending hpending => ?_)
  refine .bind (setCommit_keyed (votedCommit_tid hpending)) fun _ => .ite ?_ rejectCommit_keyed
  refine .bind (tallyVote_keyed ?_) fun _ => fun _ hx => hx
  exact votedCommit_tid hpending

theorem handleVote_keyed {msg : Vote} : KeepsKeyed (handleVote env ω msg) := by
  refine read_keyed fun results => .ite (.pure ()) (lookup_keyed fun pending hpending => ?_)
  refine .bind (setCommit_keyed (votedCommit_tid hpending)) fun _ => .ite ?_ rejectCommit_keyed
  refine tallyVote_keyed ?_
  exact votedCommit_tid hpending

theorem handleBypassLeaderReply_keyed {msg : BypassLeaderReply} :
    KeepsKeyed (handleBypassLeaderReply env ω msg) := by
  refine read_keyed fun results => .ite (.pure ()) (lookup_keyed fun pending hpending => ?_)
  refine .bind (setCommit_keyed ?_) fun _ => .when announce_keyed
  have hreplied : (replied msg.tid msg.replica (pending.getD (newCommit env ω msg.tid))
      msg.shard).tid = msg.tid := replied_tid.trans (getD_tid hpending)
  exact hreplied

theorem addReplies_keyed {already : Bool} (h : req.tid = tid) :
    KeepsKeyed (addReplies env tid r qs already req) := by
  induction qs generalizing already req with
  | nil => exact setCommit_keyed h
  | cons q qs ih =>
      cases already with
      | true =>
          rw [addReplies_already]
          exact setCommit_keyed (foldl_touched_tid.trans h)
      | false =>
          cases hq : received r req q with
          | true =>
              rw [addReplies_received hq]
              exact ih (show (touched req q).tid = tid from h)
          | false =>
              rw [addReplies_new hq]
              refine .ite ?_ (ih (replied_tid.trans h))
              exact .bind (setCommit_keyed (replied_tid.trans h)) fun _ => announce_keyed

/-- **Every handler keeps the keys.** -/
theorem handleMessage_keyed (env : CoordinatorEnv) (ω : Choice) (m : Msg) :
    KeepsKeyed (handleMessage env ω m) := by
  cases m with
  | replicateReplyAndVote m => exact handleReplicateReplyAndVote_keyed
  | bypassLeaderReply m => exact handleBypassLeaderReply_keyed
  | bypassLeaderReplyUnion m =>
      refine read_keyed fun results => .ite (.pure ()) (lookup_keyed fun pending hpending => ?_)
      exact addReplies_keyed (getD_tid hpending)
  | vote m => exact handleVote_keyed
  | replicateDecision m =>
      refine lookup_keyed fun pending hpending => ?_
      cases pending with
      | none => exact .pure ()
      | some req =>
          refine .bind (setCommit_keyed (hpending req rfl)) fun _ => .bind record_keyed fun _ => ?_
          exact .bind (fun _ hx => hx) fun _ => .when eraseCommit_keyed
  | replyDecision m =>
      refine lookup_keyed fun pending hpending => ?_
      cases pending with
      | none => exact .pure ()
      | some req =>
          refine .ite (.pure ()) (.bind (setCommit_keyed (hpending req rfl)) fun _ => ?_)
          exact .when eraseCommit_keyed
  | requestCommitResult m =>
      refine lookup_keyed fun pending hpending => ?_
      cases pending with
      | none =>
          refine read_keyed fun results => .ite notifyReplicateResult_keyed ?_
          exact setCommit_keyed rfl
      | some req =>
          refine setCommit_keyed (Eq.trans ?_ (hpending req rfl))
          simp only [learnParticipants]
          split_ifs <;> rfl
  | notifyDecisionToPrimary m =>
      refine lookup_keyed fun pending hpending => ?_
      cases pending with
      | none => exact .pure ()
      | some req =>
          refine .ite (.pure ()) (.ite ?_ ?_)
          · refine .bind (setCommit_keyed (Eq.trans ?_ (hpending req rfl))) fun _ => ?_
            · split_ifs <;> rfl
            · exact .when announce_keyed
          · exact .bind record_keyed fun _ => .bind (fun _ hx => hx) fun _ => eraseCommit_keyed
  | notifyDependenciesAreCleared m =>
      refine lookup_keyed fun pending hpending => ?_
      cases pending with
      | none => exact .pure ()
      | some req => exact .bind (setCommit_keyed (hpending req rfl)) fun _ => .when announce_keyed
  | _ => exact .crash

end Coordinator

open Coordinator in
/-- The hypothesis of `union_eq_parts` holds in every run. -/
theorem Config.coordinator_keyed {cfg : Config} {C : StepCond} {w : GlobalState}
    (hw : cfg.system.Reach C w) (c : ℕ) : Keyed (w.coordinator c) := by
  refine hw.induct (J := fun w => Keyed (GlobalState.coordinator w c)) ?_ ?_
  · exact fun _ _ hl => by cases hl
  · intro (w : GlobalState) n ω input _ ih _ _
    by_cases hn : Node.coordinator c = n
    · subst hn
      have hkept : Keyed (cfg.system.handle (.coordinator c) ω input
          { state := w.coordinator c }).state.state := by
        cases input with
        | recv p => exact wp_state (handleMessage_keyed _ ω p.msg { state := w.coordinator c } ih)
        | act a => exact ih
      simp only [GlobalState.coordinator, Protocol.next, Function.update_self]
      exact hkept
    · simp only [GlobalState.coordinator, Protocol.next, Function.update_of_ne hn]
      exact ih

open Coordinator in
/-- **A union and its parts.** The union does what its replies would do one after the other
exactly if the transaction was decided before, or the union names a shard or the transaction is
pending, and no reply that is new comes behind one that was received before. -/
theorem union_eq_parts (env : CoordinatorEnv) (ω : Choice) (msg : BypassLeaderReplyUnion)
    (x : Ctx Coordinator Addr Msg Event) (h : Keyed x.state) :
    SameOutcome (handleBypassLeaderReplyUnion env ω msg)
        (msg.shards.forM fun q => handleBypassLeaderReply env ω ⟨msg.tid, q, msg.replica⟩) x ↔
      msg.tid ∈ x.state.commitResults ∨
        ((msg.shards ≠ [] ∨ msg.tid ∈ x.state.pendingCommits) ∧
          Aligned msg.tid msg.replica msg.shards (target env ω msg.tid x)) := by
  by_cases hdecided : msg.tid ∈ x.state.commitResults
  · refine iff_of_true (SameOutcome.of_eq ?_) (.inl hdecided)
    rw [forM_decided hdecided]
    simp only [handleBypassLeaderReplyUnion, read_bind, if_pos hdecided]
    rfl
  · have hunion : handleBypassLeaderReplyUnion env ω msg x = addReplies env msg.tid msg.replica
        msg.shards false (target env ω msg.tid x) x := by
      simp only [handleBypassLeaderReplyUnion, read_bind, if_neg hdecided]
      rfl
    rw [or_iff_right hdecided]
    by_cases hshards : msg.shards = []
    · rw [hshards] at hunion ⊢
      refine (sameOutcome_none hunion).trans ⟨fun hpending => ⟨.inr hpending, trivial⟩, ?_⟩
      exact fun hright => hright.1.resolve_left fun hne => hne rfl
    · rw [iff_true_intro (Or.inl hshards), true_and]
      have hparts : (msg.shards.forM fun q =>
          handleBypassLeaderReply env ω ⟨msg.tid, q, msg.replica⟩) x =
          inTurn env msg.tid msg.replica msg.shards (target env ω msg.tid x) x :=
        forM_eq_inTurn hdecided h.target hshards
      constructor
      · intro hsame
        have hlookup := hsame.pending msg.tid
        rw [hunion, hparts] at hlookup
        exact aligned_of_lookup h.target hlookup
      · intro haligned
        refine SameOutcome.of_eq ?_
        rw [hunion, hparts, addReplies_aligned haligned]

/-- A coordinator that received the reply of replica `0` for shard `0`. -/
def oneReplied : Ctx Coordinator Addr Msg Event where
  state := (Coordinator.handleBypassLeaderReply ⟨threeReplicas .parallel 2, 0⟩ {} ⟨7, 0, 0⟩
    { state := {} }).state.state

theorem oneReplied_keyed : oneReplied.state.Keyed :=
  wp_state (Coordinator.handleBypassLeaderReply_keyed { state := {} }
    fun _ _ hl => absurd hl (by simp))

/-- The new reply comes first. -/
theorem union_eq_parts_new_first : Coordinator.SameOutcome
    (Coordinator.handleBypassLeaderReplyUnion ⟨threeReplicas .parallel 2, 0⟩ {}
      { tid := 7, replica := 0, shards := [1, 0] })
    ([1, 0].forM fun q =>
      Coordinator.handleBypassLeaderReply ⟨threeReplicas .parallel 2, 0⟩ {} ⟨7, q, 0⟩)
    oneReplied := by
  refine (union_eq_parts _ _ _ _ oneReplied_keyed).2 (.inr ⟨.inl (List.cons_ne_nil _ _), ?_⟩)
  decide +kernel

/-- **A reply is lost.** The reply for shard `0` was received before, and with it the union
drops the one for shard `1`. -/
theorem union_drops_reply : ¬ Coordinator.SameOutcome
    (Coordinator.handleBypassLeaderReplyUnion ⟨threeReplicas .parallel 2, 0⟩ {}
      { tid := 7, replica := 0, shards := [0, 1] })
    ([0, 1].forM fun q =>
      Coordinator.handleBypassLeaderReply ⟨threeReplicas .parallel 2, 0⟩ {} ⟨7, q, 0⟩)
    oneReplied := by
  intro hsame
  have hreplies := congrArg (Option.map fun req => Coordinator.received 0 req 1) (hsame.pending 7)
  exact absurd hreplies (by decide +kernel)

end D2PC
