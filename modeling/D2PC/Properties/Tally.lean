import D2PC.Properties.Decision
import D2PC.Properties.Durability

/-!
# The order of the reports of one transaction

The coordinator of the primary shard announces a commit when all participants voted, a
majority of the replicas of each replied and no participant waits for a transaction it
depends on. When it looks, and what it takes for the three, depends on the order in which
the reports arrive:

* the replies are counted only when one arrives that was not there, and only against
  participants that a vote has named;
* a vote overwrites what an earlier report said about the dependencies of its shard;
* a decision made on a reply is recorded as `COMMIT`, one made on any other report as
  `PREPARED`.

`Ready` says of a sequence of reports that the three hold after it, and `Entry` that the
entry of the coordinator knows exactly this much. `order_independent_iff` is the outcome:
two orders lead to the same recorded decision, announced, exactly if both become ready, by a
report of the same kind.
-/

namespace D2PC

namespace Coordinator

open Ctx Prog

/-! ### What a sequence of reports says -/

/-- The report is a vote of the shard. -/
def Report.votesFor (p : Shard) : Report → Bool
  | .vote m => decide (m.shard = p)
  | _ => false

/-- The report is a vote. -/
def Report.isVote : Report → Bool
  | .vote _ => true
  | _ => false

/-- The report is the reply of one replica. -/
def Report.isReply : Report → Bool
  | .reply _ => true
  | _ => false

/-- The report clears dependencies. -/
def Report.isCleared : Report → Bool
  | .cleared _ => true
  | _ => false

/-- The replica of the shard that replies. -/
def Report.replier (p : Shard) : Report → Option ℕ
  | .reply m => if m.shard = p then some m.replica else none
  | _ => none

/-- What a report says about the dependencies of the shard, after `b` was said before. -/
def Report.dependency (p : Shard) (b : Bool) : Report → Bool
  | .vote m => if m.shard = p then m.hasPreCommit else b
  | .cleared m => if m.shard = p then false else b
  | _ => b

/-- The shard voted. -/
def voted (rs : List Report) (p : Shard) : Bool := rs.any (Report.votesFor p)

/-- Some shard voted. -/
def named (rs : List Report) : Bool := rs.any Report.isVote

/-- The replicas of the shard that replied. -/
def repliers (rs : List Report) (p : Shard) : Finset ℕ := (rs.filterMap (Report.replier p)).toFinset

/-- The last word on the shard is a vote that depends on a pre-committed transaction. -/
def dependent (rs : List Report) (p : Shard) : Bool := rs.foldl (Report.dependency p) false

/-- Every participant has `q` replicas that replied. -/
def Replicated (P : List Shard) (q : ℕ) (rs : List Report) : Prop :=
  ∀ p ∈ P, q ≤ (repliers rs p).card

/-- The reply of a replica not heard of before came after the first vote, and with it every
participant had `q` replicas that replied. -/
def Tolerant (P : List Shard) (q : ℕ) (rs : List Report) : Prop :=
  ∃ before m after, rs = before ++ .reply m :: after ∧ named before = true ∧
    m.replica ∉ repliers before m.shard ∧ Replicated P q (before ++ [.reply m])

/-- **Ready.** All participants voted, their replicas replied, and none depends on a
pre-committed transaction. -/
structure Ready (P : List Shard) (q : ℕ) (rs : List Report) : Prop where
  voted : ∀ p ∈ P, voted rs p = true
  tolerant : Tolerant P q rs
  free : ∀ p ∈ P, dependent rs p = false

/-- The report with which the sequence becomes ready for the first time. -/
def Decisive (P : List Shard) (q : ℕ) (rs : List Report) (r : Report) : Prop :=
  ∃ before after, rs = before ++ r :: after ∧ Ready P q (before ++ [r]) ∧
    ∀ l, l <+: before → ¬ Ready P q l

/-- How a decision made on the report is recorded. -/
def Report.decision (r : Report) : CommitResult := if r.isReply then .commit else .prepared

/-! ### One more report -/

variable {rs : List Report} {r : Report} {p : Shard} {P : List Shard} {q : ℕ}

@[simp] theorem voted_concat : voted (rs ++ [r]) p = (voted rs p || r.votesFor p) := by
  simp [voted]

@[simp] theorem named_concat : named (rs ++ [r]) = (named rs || r.isVote) := by
  simp [named]

@[simp] theorem dependent_concat :
    dependent (rs ++ [r]) p = r.dependency p (dependent rs p) := by
  simp [dependent]

theorem repliers_concat_of_none (h : r.replier p = none) :
    repliers (rs ++ [r]) p = repliers rs p := by
  simp [repliers, h]

theorem repliers_concat_of_some {i : ℕ} (h : r.replier p = some i) :
    repliers (rs ++ [r]) p = insert i (repliers rs p) := by
  simp [repliers, h, Finset.union_comm]

/-- Only a reply of a replica not heard of before makes a sequence tolerant. -/
theorem tolerant_concat : Tolerant P q (rs ++ [r]) ↔ Tolerant P q rs ∨
    ∃ m, r = .reply m ∧ named rs = true ∧ m.replica ∉ repliers rs m.shard ∧
      Replicated P q (rs ++ [r]) := by
  constructor
  · rintro ⟨before, m, after, heq, hnamed, hnew, hrep⟩
    rcases List.eq_nil_or_concat after with rfl | ⟨after', r', rfl⟩
    · obtain ⟨rfl, hr⟩ := List.append_inj' heq rfl
      obtain rfl : r = .reply m := by simpa using hr
      exact .inr ⟨m, rfl, hnamed, hnew, hrep⟩
    · have hsplit : rs ++ [r] = (before ++ .reply m :: after') ++ [r'] := by
        rw [heq, List.concat_eq_append, List.append_assoc]
        rfl
      obtain ⟨rfl, _⟩ := List.append_inj' hsplit rfl
      exact .inl ⟨before, m, after', rfl, hnamed, hnew, hrep⟩
  · rintro (⟨before, m, after, rfl, hnamed, hnew, hrep⟩ | ⟨m, rfl, hnamed, hnew, hrep⟩)
    · refine ⟨before, m, after ++ [r], ?_, hnamed, hnew, hrep⟩
      rw [List.append_assoc]
      rfl
    · exact ⟨rs, m, [], rfl, hnamed, hnew, hrep⟩

theorem tolerant_concat_of_not_reply (h : r.isReply = false) :
    Tolerant P q (rs ++ [r]) ↔ Tolerant P q rs := by
  rw [tolerant_concat]
  constructor
  · rintro (hold | ⟨m, rfl, _⟩)
    · exact hold
    · cases h
  · exact .inl

theorem voted_named (h : voted rs p = true) : named rs = true := by
  obtain ⟨r, hr, hv⟩ := List.any_eq_true.1 h
  refine List.any_eq_true.2 ⟨r, hr, ?_⟩
  cases r with
  | vote m => rfl
  | _ => cases hv

/-! ### What the coordinator knows -/

/-- **The entry of the transaction** holds what the reports `rs` said. The dependencies of
shards that have not voted yet do not matter. -/
structure Entry (env : CoordinatorEnv) (tid : TxnId) (P : List Shard) (rs : List Report)
    (req : PendingCommit) : Prop where
  id : req.tid = tid
  majority : req.majority = env.quorumSize
  participants : req.participants = if named rs then P else []
  primary : named rs = true → req.primaryCoordinator = env.coordinatorId
  votes : ∀ p, req.votes.lookup p = if voted rs p then some .prepared else none
  shards : ∀ p ∈ req.dependencies, p ∈ P
  dependencies : ∀ p, voted rs p = true → req.dependencies.lookup p = some (dependent rs p)
  repliers : ∀ p, (((req.replicateResults.lookup p).getD []).map BypassLeaderReply.replica).Nodup ∧
    (((req.replicateResults.lookup p).getD []).map BypassLeaderReply.replica).toFinset = repliers rs p
  replied : ∀ p ∈ req.replicateResults, p ∈ P
  consensus : req.reachConsensus = true ↔ ∀ p ∈ P, voted rs p = true
  prepared : req.reachConsensus = true → req.state = .prepared
  tolerance : req.reachFaultTolerance = true ↔ Tolerant P env.quorumSize rs

variable {env : CoordinatorEnv} {ω : Choice} {tid : TxnId} {req : PendingCommit}

/-- As many votes as participants: all participants voted. -/
theorem reachConsensus_entry (hP : P.Nodup) (hpart : req.participants = P)
    (hvotes : ∀ p, req.votes.lookup p = if voted rs p then some .prepared else none)
    (hmem : ∀ p, voted rs p = true → p ∈ P) :
    reachConsensus req = (decide (∀ p ∈ P, voted rs p = true), req) := by
  have hkey : ∀ p, p ∈ req.votes ↔ voted rs p = true := by
    intro p
    rw [← AList.lookup_isSome, hvotes p]
    cases voted rs p with
    | true => simp
    | false => simp
  have hsize : Table.size req.votes = P.length ↔ ∀ p ∈ P, voted rs p = true := by
    rw [Table.size_eq_length_iff (fun p hp => hmem p ((hkey p).1 hp)) hP]
    exact forall₂_congr fun p _ => hkey p
  have hall : ∀ l : List Shard, (∀ p ∈ l, voted rs p = true) →
      allPrepared req.votes l = (true, req.votes) := by
    intro l hl
    induction l with
    | nil => rfl
    | cons p l ih =>
        rw [List.forall_mem_cons] at hl
        simp only [allPrepared, hvotes p, hl.1, if_true]
        exact ih hl.2
  subst hpart
  rw [reachConsensus]
  by_cases hv : ∀ p ∈ req.participants, voted rs p = true
  · rw [if_neg (not_not.2 (hsize.2 hv)), hall _ hv, decide_eq_true hv]
  · rw [if_pos (mt hsize.1 hv), decide_eq_false hv]

/-- With all votes in, no dependency is missing. -/
theorem free_entry (hP : P.Nodup) (hreq : Entry env tid P rs req) (hnamed : named rs = true)
    (hv : ∀ p ∈ P, voted rs p = true) :
    allParticipantsHaveNoPrecommitDependency req = true ↔ ∀ p ∈ P, dependent rs p = false := by
  have hpart : req.participants = P := by rw [hreq.participants, if_pos hnamed]
  have hsize : Table.size req.dependencies = P.length := by
    rw [Table.size_eq_length_iff hreq.shards hP]
    intro p hp
    exact AList.lookup_isSome.1 (by rw [hreq.dependencies p (hv p hp)]; rfl)
  simp only [allParticipantsHaveNoPrecommitDependency, hpart, hsize, decide_true, Bool.true_and,
    List.all_eq_true, decide_eq_true_eq]
  refine forall₂_congr fun p hp => ?_
  rw [hreq.dependencies p (hv p hp)]
  simp

/-- Counting the shards that replied is enough, since a majority is never empty. -/
theorem reachFaultTolerance_entry (hP : P.Nodup) (hne : P ≠ []) (hreq : Entry env tid P rs req) :
    reachFaultTolerance req = true ↔ named rs = true ∧ Replicated P env.quorumSize rs := by
  cases hnamed : named rs with
  | false =>
      have hnil : req.participants = [] := by rw [hreq.participants, hnamed]; rfl
      simp [reachFaultTolerance, hnil]
  | true =>
      have hpart : req.participants = P := by rw [hreq.participants, if_pos hnamed]
      have hcard : ∀ p l, req.replicateResults.lookup p = some l →
          l.length = (Coordinator.repliers rs p).card := by
        intro p l hl
        obtain ⟨hnodup, hset⟩ := hreq.repliers p
        rw [hl] at hnodup hset
        rw [← hset, List.toFinset_card_of_nodup hnodup, List.length_map]
        rfl
      have hpos : 0 < P.length := List.length_pos_iff.2 hne
      simp only [reachFaultTolerance, hpart, hpos, decide_true, Bool.true_and, Bool.and_eq_true,
        decide_eq_true_eq, List.all_eq_true, true_and]
      rw [Table.size_eq_length_iff hreq.replied hP, hreq.majority]
      constructor
      · rintro ⟨hkeys, hall⟩ p hp
        obtain ⟨l, hl⟩ := Option.isSome_iff_exists.1 (AList.lookup_isSome.2 (hkeys p hp))
        rw [← hcard p l hl]
        exact hall (p, l) (Table.mem_toList.2 hl)
      · intro hrep
        refine ⟨fun p hp => ?_, ?_⟩
        · rw [← AList.lookup_isSome]
          cases hl : req.replicateResults.lookup p with
          | some l => rfl
          | none =>
              -- no entry means no replies, and a majority is at least one
              have hempty := (hreq.repliers p).2
              rw [hl] at hempty
              have hmaj := hrep p hp
              rw [← hempty] at hmaj
              exact absurd hmaj (Nat.not_succ_le_zero _)
        · rintro ⟨p, l⟩ hpl
          rw [Table.mem_toList] at hpl
          rw [hcard p l hpl]
          exact hrep p (hreq.replied p (AList.lookup_isSome.1 (by rw [hpl]; rfl)))

/-- **The coordinator before the decision.** Only reports that clear dependencies leave no
entry. -/
structure Tallied (env : CoordinatorEnv) (tid : TxnId) (P : List Shard) (rs : List Report)
    (x : Ledger) : Prop where
  undecided : tid ∉ x.state.commitResults
  missing : x.state.pendingCommits.lookup tid = none → ∀ r ∈ rs, r.isCleared = true
  entry : ∀ req, x.state.pendingCommits.lookup tid = some req → Entry env tid P rs req

/-- The decision was recorded and announced. -/
def Decided (tid : TxnId) (result : CommitResult) (x : Ledger) : Prop :=
  x.state.commitResults.lookup tid = some (result, true) ∧ announcements tid x ≠ 0

/-- What a report has to lead to after the reports `rs`. -/
def Outcome (env : CoordinatorEnv) (tid : TxnId) (P : List Shard) (rs : List Report) (r : Report)
    (x : Ledger) : Prop :=
  (Ready P env.quorumSize (rs ++ [r]) → Decided tid r.decision x) ∧
    (¬ Ready P env.quorumSize (rs ++ [r]) → Tallied env tid P (rs ++ [r]) x)

variable {x : Ledger}

theorem Tallied.of_entry (htid : tid ∉ x.state.commitResults)
    (hl : x.state.pendingCommits.lookup tid = some req) (hreq : Entry env tid P rs req) :
    Tallied env tid P rs x := by
  refine ⟨htid, fun hnone => ?_, fun req' hl' => ?_⟩
  · rw [hl] at hnone
    cases hnone
  · rw [hl] at hl'
    cases hl'
    exact hreq

theorem announce_decided (hid : req.tid = tid) (result : CommitResult) (x : Ledger) :
    wp (announce env req result) (fun _ => Decided tid result) (fun _ => False) x := by
  subst hid
  simp only [announce, record, notifyReplicateResult, wp_bind, wp_update, wp_emit, wp_send,
    eraseCommit]
  refine ⟨AList.lookup_insert _, ?_⟩
  simp only [announcements, List.countP_append, List.countP_singleton, announces, decide_true,
    if_true]
  omega

theorem voted_of_cleared (hrs : ∀ r ∈ rs, r.isCleared = true) (p : Shard) :
    voted rs p = false := by
  refine List.any_eq_false.2 fun r hr => ?_
  cases r with
  | cleared m => exact Bool.false_ne_true
  | _ => cases hrs _ hr

/-- Nothing but cleared dependencies: nobody voted or replied. -/
theorem entry_new (env : CoordinatorEnv) (ω : Choice) (tid : TxnId) (hne : P ≠ [])
    (hrs : ∀ r ∈ rs, r.isCleared = true) : Entry env tid P rs (newCommit env ω tid) := by
  have hvoted := voted_of_cleared hrs
  have hnamed : named rs = false := by
    refine List.any_eq_false.2 fun r hr => ?_
    cases r with
    | cleared m => exact Bool.false_ne_true
    | _ => cases hrs _ hr
  have hrepliers : ∀ p, Coordinator.repliers rs p = ∅ := by
    intro p
    have hnil : rs.filterMap (Report.replier p) = [] := by
      refine List.filterMap_eq_nil_iff.2 fun r hr => ?_
      cases r with
      | cleared m => rfl
      | _ => cases hrs _ hr
    rw [Coordinator.repliers, hnil]
    rfl
  have htol : ¬ Tolerant P env.quorumSize rs := by
    rintro ⟨before, m, after, rfl, _⟩
    cases hrs (.reply m) (by simp)
  obtain ⟨p₀, hp₀⟩ := List.exists_mem_of_ne_nil P hne
  refine ⟨rfl, rfl, ?_, ?_, ?_, ?_, ?_, ?_, ?_, ?_, (fun h => by cases h), ?_⟩
  · rw [hnamed]
    rfl
  · rw [hnamed]
    intro h
    cases h
  · intro p
    rw [hvoted p]
    rfl
  · intro p hp
    exact absurd hp (AList.notMem_empty p)
  · intro p hp
    rw [hvoted p] at hp
    cases hp
  · intro p
    rw [hrepliers p]
    exact ⟨List.nodup_nil, rfl⟩
  · intro p hp
    exact absurd hp (AList.notMem_empty p)
  · refine ⟨(fun h => by cases h), fun hall => ?_⟩
    have hp := hall p₀ hp₀
    rw [hvoted p₀] at hp
    cases hp
  · exact ⟨(fun h => by cases h), fun h => absurd h htol⟩

/-- The entry a report finds, or makes. -/
theorem Tallied.getD (hx : Tallied env tid P rs x) (ω : Choice) (hne : P ≠ []) :
    Entry env tid P rs ((x.state.pendingCommits.lookup tid).getD (newCommit env ω tid)) := by
  cases hl : x.state.pendingCommits.lookup tid with
  | none => exact entry_new env ω tid hne (hx.missing hl)
  | some req => exact hx.entry req hl

theorem Outcome.send (hx : Outcome env tid P rs r x) (ps : List Pkt) :
    Outcome env tid P rs r { x with sent := x.sent ++ ps } := by
  refine ⟨fun hready => ?_, fun hnot => ?_⟩
  · obtain ⟨hlook, hann⟩ := hx.1 hready
    refine ⟨hlook, ?_⟩
    rw [announcements_send]
    omega
  · obtain ⟨hundecided, hmissing, hentry⟩ := hx.2 hnot
    exact ⟨hundecided, hmissing, hentry⟩

/-! ### A vote -/

/-- A vote names the participants and takes this coordinator for the primary one, whether or
not the transaction was pending. -/
theorem votedCommit_entry (hx : Tallied env tid P rs x) (ω : Choice) (hne : P ≠ [])
    (primaryShard timestamp : ℕ) :
    ∃ q₀ t, Entry env tid P rs q₀ ∧
      votedCommit env ω (x.state.pendingCommits.lookup tid) tid P primaryShard env.coordinatorId
        timestamp = { q₀ with
          participants := P
          primaryShard := primaryShard
          primaryCoordinator := env.coordinatorId
          timestamp := t } := by
  cases hl : x.state.pendingCommits.lookup tid with
  | none => exact ⟨_, timestamp, entry_new env ω tid hne (hx.missing hl), rfl⟩
  | some req =>
      have hreq := hx.entry req hl
      refine ⟨req, max req.timestamp timestamp, hreq, ?_⟩
      simp only [votedCommit, learnParticipants]
      split_ifs with hnil
      · rfl
      · have hpart : req.participants = P := by
          have hdef := hreq.participants
          split_ifs at hdef
          · exact hdef
          · exact absurd hdef hnil
        rw [hpart]

theorem entry_vote (hP : P.Nodup) (hmem : ∀ p, voted rs p = true → p ∈ P)
    {q₀ : PendingCommit} (hq : Entry env tid P rs q₀) {m : ReplicateReplyAndVote}
    (hshard : m.shard ∈ P) (primaryShard timestamp : ℕ) :
    ∃ req', Entry env tid P (rs ++ [Report.vote m]) req' ∧
      collectVote { q₀ with
        participants := P
        primaryShard := primaryShard
        primaryCoordinator := env.coordinatorId
        timestamp := timestamp
        votes := q₀.votes.insert m.shard .prepared
        dependencies := q₀.dependencies.insert m.shard m.hasPreCommit } =
      (decide (∀ p ∈ P, voted (rs ++ [Report.vote m]) p = true), req') := by
  have hmem' : ∀ p, voted (rs ++ [Report.vote m]) p = true → p ∈ P := by
    intro p hp
    rw [voted_concat, Bool.or_eq_true] at hp
    rcases hp with hold | hnew
    · exact hmem p hold
    · rw [← of_decide_eq_true hnew]
      exact hshard
  have hvotes : ∀ p, (q₀.votes.insert m.shard .prepared).lookup p =
      if voted (rs ++ [Report.vote m]) p then some .prepared else none := by
    intro p
    rw [Table.lookup_insert_eq, hq.votes p, voted_concat]
    by_cases hp : p = m.shard
    · rw [if_pos hp, if_pos]
      simp [Report.votesFor, hp]
    · rw [if_neg hp]
      simp [Report.votesFor, Ne.symm hp]
  have hdeps : ∀ p, voted (rs ++ [Report.vote m]) p = true →
      (q₀.dependencies.insert m.shard m.hasPreCommit).lookup p =
        some (dependent (rs ++ [Report.vote m]) p) := by
    intro p hp
    rw [Table.lookup_insert_eq, dependent_concat]
    by_cases hpm : p = m.shard
    · simp [Report.dependency, hpm]
    · have hold : voted rs p = true := by
        simpa [Report.votesFor, Ne.symm hpm] using hp
      simp [Report.dependency, hpm, Ne.symm hpm, hq.dependencies p hold]
  have hshards : ∀ p ∈ q₀.dependencies.insert m.shard m.hasPreCommit, p ∈ P := by
    intro p hp
    rcases AList.mem_insert _ |>.1 hp with rfl | hold
    · exact hshard
    · exact hq.shards p hold
  have hrepliers : ∀ p, Coordinator.repliers (rs ++ [Report.vote m]) p = Coordinator.repliers rs p :=
    fun p => repliers_concat_of_none rfl
  have htol : Tolerant P env.quorumSize (rs ++ [Report.vote m]) ↔ Tolerant P env.quorumSize rs :=
    tolerant_concat_of_not_reply rfl
  have hnamed : named (rs ++ [Report.vote m]) = true := by simp [Report.isVote]
  simp only [collectVote]
  rw [reachConsensus_entry hP rfl hvotes hmem']
  refine ⟨_, ?_, rfl⟩
  by_cases hall : ∀ p ∈ P, voted (rs ++ [Report.vote m]) p = true
  · rw [decide_eq_true hall, if_pos rfl]
    refine ⟨hq.id, hq.majority, ?_, fun _ => rfl, hvotes, hshards, hdeps, ?_, hq.replied,
      iff_of_true rfl hall, fun _ => rfl, ?_⟩
    · rw [if_pos hnamed]
    · intro p
      rw [hrepliers p]
      exact hq.repliers p
    · rw [htol]
      exact hq.tolerance
  · have hcons : ¬ q₀.reachConsensus = true := by
      rw [hq.consensus]
      intro hold
      apply hall
      intro p hp
      rw [voted_concat, hold p hp]
      rfl
    rw [decide_eq_false hall, if_neg Bool.false_ne_true]
    refine ⟨hq.id, hq.majority, ?_, fun _ => rfl, hvotes, hshards, hdeps, ?_, hq.replied,
      iff_of_false hcons hall, fun hc => absurd hc hcons, ?_⟩
    · rw [if_pos hnamed]
    · intro p
      rw [hrepliers p]
      exact hq.repliers p
    · rw [htol]
      exact hq.tolerance

theorem handleReplicateReplyAndVote_outcome (hP : P.Nodup) (hne : P ≠ [])
    (hmem : ∀ p, voted rs p = true → p ∈ P) {m : ReplicateReplyAndVote}
    (hx : Tallied env m.tid P rs x) (hshard : m.shard ∈ P) (hvote : m.vote = .prepared)
    (hpart : m.participants = P) (hcoord : m.primaryCoordinator = env.coordinatorId) :
    wp (handleReplicateReplyAndVote env ω m) (fun _ => Outcome env m.tid P rs (.vote m))
      (Outcome env m.tid P rs (.vote m)) x := by
  obtain ⟨q₀, t, hq, hreq⟩ := votedCommit_entry hx ω hne m.primaryShard m.timestamp
  obtain ⟨req', hentry, hcollect⟩ := entry_vote hP hmem hq hshard m.primaryShard t
  have hnamed : named (rs ++ [Report.vote m]) = true := by simp [Report.isVote]
  simp only [handleReplicateReplyAndVote, wp_bind, wp_read, wp_ite, wp_pure, setCommit, wp_update,
    hpart, hcoord, hreq, hvote, tallyVote, hcollect, wp_when, notifyCommitDecision, wp_send,
    Bool.and_eq_true, decide_eq_true_eq, decide_eq_false_iff_not, Bool.and_eq_false_imp]
  refine ⟨fun hin => absurd hin hx.undecided, fun _ => ⟨fun _ => ⟨fun hall => ⟨fun hready => ?_,
    fun hnot => ?_⟩, fun hall => ?_⟩, fun hfalse => absurd trivial hfalse⟩⟩
  · have hstate : req'.state = .prepared := hentry.prepared (hentry.consensus.2 hall)
    refine wp_mono (fun _ y hy => Outcome.send ?_ _) (fun _ hy => hy.elim)
      (announce_decided hentry.id req'.state _)
    rw [hstate] at hy
    refine ⟨fun _ => hy, fun hnot => absurd ?_ hnot⟩
    exact ⟨hall, hentry.tolerance.1 hready.1.2, (free_entry hP hentry hnamed hall).1 hready.2⟩
  · refine ⟨fun hready => ?_, fun _ => ?_⟩
    · have htrue := hnot ⟨hentry.primary hnamed, hentry.tolerance.2 hready.tolerant⟩
      rw [(free_entry hP hentry hnamed hall).2 hready.free] at htrue
      cases htrue
    · exact Tallied.of_entry hx.undecided (AList.lookup_insert _) hentry
  · refine ⟨fun hready => ?_, fun _ => ?_⟩
    · exact absurd hready.voted hall
    · exact Tallied.of_entry hx.undecided (AList.lookup_insert _) hentry

/-! ### A reply -/

/-- What the replies of the shards are after one more. -/
theorem addReply_entry (hreq : Entry env tid P rs req) {m : BypassLeaderReply}
    (hshard : m.shard ∈ P) :
    (addReply req m).1 = decide (m.replica ∉ Coordinator.repliers rs m.shard) ∧
      ∃ results, (addReply req m).2 = { req with replicateResults := results } ∧
        (∀ p ∈ results, p ∈ P) ∧
        ∀ p, (((results.lookup p).getD []).map BypassLeaderReply.replica).Nodup ∧
          (((results.lookup p).getD []).map BypassLeaderReply.replica).toFinset =
            Coordinator.repliers (rs ++ [Report.reply m]) p := by
  obtain ⟨hnodup, hset⟩ := hreq.repliers m.shard
  have hany : (((req.replicateResults.lookup m.shard).getD []).any
      fun p => p.replica = m.replica) = true ↔ m.replica ∈ Coordinator.repliers rs m.shard := by
    rw [← hset]
    simp
  have hmem : ∀ l : List BypassLeaderReply, ∀ p ∈ req.replicateResults.insert m.shard l, p ∈ P := by
    intro l p hp
    rcases AList.mem_insert _ |>.1 hp with rfl | hold
    · exact hshard
    · exact hreq.replied p hold
  have hother : ∀ p, p ≠ m.shard →
      Coordinator.repliers (rs ++ [Report.reply m]) p = Coordinator.repliers rs p := by
    intro p hp
    apply repliers_concat_of_none
    simp [Report.replier, Ne.symm hp]
  have hself : Coordinator.repliers (rs ++ [Report.reply m]) m.shard =
      insert m.replica (Coordinator.repliers rs m.shard) :=
    repliers_concat_of_some (by simp [Report.replier])
  simp only [addReply]
  by_cases hin : m.replica ∈ Coordinator.repliers rs m.shard
  · rw [if_pos (hany.2 hin), decide_eq_false (not_not.2 hin)]
    refine ⟨rfl, _, rfl, hmem _, fun p => ?_⟩
    rw [Table.lookup_insert_eq]
    split_ifs with hp
    · rw [hp, hself, Finset.insert_eq_of_mem hin]
      exact ⟨hnodup, hset⟩
    · rw [hother p hp]
      exact hreq.repliers p
  · rw [if_neg (mt hany.1 hin), decide_eq_true hin]
    refine ⟨rfl, _, rfl, hmem _, fun p => ?_⟩
    rw [Table.lookup_insert_eq]
    split_ifs with hp
    · rw [hp, hself, Option.getD_some, List.map_append]
      have hfresh : m.replica ∉
          ((req.replicateResults.lookup m.shard).getD []).map BypassLeaderReply.replica := by
        rw [← List.mem_toFinset, hset]
        exact hin
      refine ⟨?_, ?_⟩
      · exact List.nodup_append.2 ⟨hnodup, List.nodup_singleton _, fun a ha b hb hab => hfresh (by
          rw [List.map_singleton, List.mem_singleton] at hb
          rw [← hb, ← hab]
          exact ha)⟩
      · rw [List.toFinset_append, hset, Finset.union_comm]
        rfl
    · rw [hother p hp]
      exact hreq.repliers p

theorem entry_reply (hP : P.Nodup) (hne : P ≠ []) (hreq : Entry env tid P rs req)
    {m : BypassLeaderReply} (hshard : m.shard ∈ P) :
    ∃ req' tolerant, collectReply (addReply req m).1 (addReply req m).2 = (tolerant, req') ∧
      Entry env tid P (rs ++ [Report.reply m]) req' ∧
      (tolerant = true ↔ m.replica ∉ Coordinator.repliers rs m.shard ∧ named rs = true ∧
        Replicated P env.quorumSize (rs ++ [Report.reply m])) := by
  obtain ⟨hnew, results, hadd, hreplied, hrepliers⟩ := addReply_entry hreq hshard
  have hvoted : ∀ p, voted (rs ++ [Report.reply m]) p = voted rs p := fun p => by
    simp [Report.votesFor]
  have hnamed : named (rs ++ [Report.reply m]) = named rs := by simp [Report.isVote]
  have hentry : ∀ b, (b = true ↔ Tolerant P env.quorumSize (rs ++ [Report.reply m])) →
      Entry env tid P (rs ++ [Report.reply m])
        { req with replicateResults := results, reachFaultTolerance := b } := by
    intro b hb
    refine ⟨hreq.id, hreq.majority, ?_, ?_, ?_, hreq.shards, ?_, hrepliers, hreplied, ?_,
      hreq.prepared, hb⟩
    · rw [hnamed]
      exact hreq.participants
    · rw [hnamed]
      exact hreq.primary
    · intro p
      rw [hvoted p]
      exact hreq.votes p
    · intro p hp
      rw [hvoted p] at hp
      rw [dependent_concat]
      exact hreq.dependencies p hp
    · simp only [hvoted]
      exact hreq.consensus
  -- the check, made with the flag as it was
  have hcheck : reachFaultTolerance { req with replicateResults := results } = true ↔
      named rs = true ∧ Replicated P env.quorumSize (rs ++ [Report.reply m]) := by
    classical
    have hflag := reachFaultTolerance_entry hP hne (hentry (decide _) decide_eq_true_iff)
    rw [hnamed] at hflag
    exact hflag
  have htol : Tolerant P env.quorumSize (rs ++ [Report.reply m]) ↔ req.reachFaultTolerance = true ∨
      (m.replica ∉ Coordinator.repliers rs m.shard ∧ named rs = true ∧
        Replicated P env.quorumSize (rs ++ [Report.reply m])) := by
    rw [tolerant_concat, hreq.tolerance]
    constructor
    · rintro (hold | ⟨m', heq, hn, hfresh, hrep⟩)
      · exact .inl hold
      · cases heq
        exact .inr ⟨hfresh, hn, hrep⟩
    · rintro (hold | ⟨hfresh, hn, hrep⟩)
      · exact .inl hold
      · exact .inr ⟨m, rfl, hn, hfresh, hrep⟩
  have hcond : (decide (m.replica ∉ Coordinator.repliers rs m.shard) &&
      reachFaultTolerance { req with replicateResults := results }) = true ↔
      m.replica ∉ Coordinator.repliers rs m.shard ∧ named rs = true ∧
        Replicated P env.quorumSize (rs ++ [Report.reply m]) := by
    rw [Bool.and_eq_true, decide_eq_true_eq, hcheck]
  rw [hadd, hnew, collectReply]
  by_cases hnow : m.replica ∉ Coordinator.repliers rs m.shard ∧ named rs = true ∧
      Replicated P env.quorumSize (rs ++ [Report.reply m])
  · rw [if_pos (hcond.2 hnow)]
    exact ⟨_, _, rfl, hentry true (iff_of_true rfl (htol.2 (.inr hnow))), iff_of_true rfl hnow⟩
  · rw [if_neg (mt hcond.1 hnow)]
    refine ⟨_, _, rfl, hentry req.reachFaultTolerance ?_, iff_of_false Bool.false_ne_true hnow⟩
    rw [htol]
    exact (or_iff_left hnow).symm

theorem handleBypassLeaderReply_outcome (hP : P.Nodup) (hne : P ≠ []) {m : BypassLeaderReply}
    (hx : Tallied env m.tid P rs x) (hnot : ¬ Ready P env.quorumSize rs) (hshard : m.shard ∈ P) :
    wp (handleBypassLeaderReply env ω m) (fun _ => Outcome env m.tid P rs (.reply m))
      (Outcome env m.tid P rs (.reply m)) x := by
  obtain ⟨req', tolerant, hcollect, hentry, htol⟩ := entry_reply hP hne (hx.getD ω hne) hshard
  have hnamed : named (rs ++ [Report.reply m]) = named rs := by simp [Report.isVote]
  -- without the reply the sequence was not ready: it can only have become tolerant
  have hready : Ready P env.quorumSize (rs ++ [Report.reply m]) ↔
      (tolerant = true ∧ req'.reachConsensus = true) ∧
        allParticipantsHaveNoPrecommitDependency req' = true := by
    rw [hentry.consensus, htol]
    constructor
    · intro h
      obtain ⟨p, hp⟩ := List.exists_mem_of_ne_nil P hne
      have hnow := voted_named (h.voted p hp)
      refine ⟨⟨?_, h.voted⟩, (free_entry hP hentry hnow h.voted).2 h.free⟩
      rcases tolerant_concat.1 h.tolerant with hold | ⟨m', heq, hn, hfresh, hrep⟩
      · exfalso
        refine hnot ⟨fun p hp => ?_, hold, fun p hp => ?_⟩
        · simpa [Report.votesFor] using h.voted p hp
        · simpa [Report.dependency] using h.free p hp
      · cases heq
        exact ⟨hfresh, hn, hrep⟩
    · rintro ⟨⟨⟨hfresh, hn, hrep⟩, hall⟩, hfree⟩
      refine ⟨hall, tolerant_concat.2 (.inr ⟨m, rfl, hn, hfresh, hrep⟩), ?_⟩
      exact (free_entry hP hentry (by rw [hnamed, hn]) hall).1 hfree
  simp only [handleBypassLeaderReply, wp_bind, wp_read, wp_ite, wp_pure, setCommit, wp_update,
    wp_when, hcollect, Bool.and_eq_true]
  refine ⟨fun hin => absurd hin hx.undecided, fun _ => ⟨fun hflags => ?_, fun hflags => ?_⟩⟩
  · refine wp_mono (fun _ y hy => ?_) (fun _ hy => hy.elim) (announce_decided hentry.id .commit _)
    exact ⟨fun _ => hy, fun h => absurd (hready.2 hflags) h⟩
  · have hno : ¬ Ready P env.quorumSize (rs ++ [Report.reply m]) := by
      rw [hready, ← Bool.and_eq_true, ← Bool.and_eq_true, hflags]
      exact Bool.false_ne_true
    exact ⟨fun h => absurd h hno,
      fun _ => Tallied.of_entry hx.undecided (AList.lookup_insert _) hentry⟩

/-! ### Dependencies are cleared -/

theorem handleNotifyDependenciesAreCleared_outcome (hP : P.Nodup) (hne : P ≠ [])
    {m : NotifyDependenciesAreCleared} (hx : Tallied env m.tid P rs x) (hshard : m.shard ∈ P) :
    wp (handleNotifyDependenciesAreCleared env m) (fun _ => Outcome env m.tid P rs (.cleared m))
      (Outcome env m.tid P rs (.cleared m)) x := by
  have hvoted : ∀ p, voted (rs ++ [Report.cleared m]) p = voted rs p := fun p => by
    simp [Report.votesFor]
  have hnamed : named (rs ++ [Report.cleared m]) = named rs := by simp [Report.isVote]
  have htol : Tolerant P env.quorumSize (rs ++ [Report.cleared m]) ↔ Tolerant P env.quorumSize rs :=
    tolerant_concat_of_not_reply rfl
  obtain ⟨p₀, hp₀⟩ := List.exists_mem_of_ne_nil P hne
  simp only [handleNotifyDependenciesAreCleared, wp_bind, wp_read]
  cases hl : x.state.pendingCommits.lookup m.tid with
  | none =>
      have hcleared := hx.missing hl
      refine ⟨fun hready => ?_, fun _ => ⟨hx.undecided, fun _ r hr => ?_, fun req hreq => ?_⟩⟩
      · have hp := hready.voted p₀ hp₀
        rw [hvoted p₀, voted_of_cleared hcleared p₀] at hp
        cases hp
      · rcases List.mem_append.1 hr with hold | hnew
        · exact hcleared r hold
        · rw [List.mem_singleton.1 hnew]
          rfl
      · change x.state.pendingCommits.lookup m.tid = some req at hreq
        rw [hl] at hreq
        cases hreq
  | some req =>
      have hreq := hx.entry req hl
      have hentry : Entry env m.tid P (rs ++ [Report.cleared m])
          { req with dependencies := req.dependencies.insert m.shard false } := by
        refine ⟨hreq.id, hreq.majority, ?_, ?_, ?_, ?_, ?_, ?_, hreq.replied, ?_, hreq.prepared, ?_⟩
        · rw [hnamed]
          exact hreq.participants
        · rw [hnamed]
          exact hreq.primary
        · intro p
          rw [hvoted p]
          exact hreq.votes p
        · intro p hp
          rcases AList.mem_insert _ |>.1 hp with rfl | hold
          · exact hshard
          · exact hreq.shards p hold
        · intro p hp
          rw [hvoted p] at hp
          show (req.dependencies.insert m.shard false).lookup p = _
          rw [Table.lookup_insert_eq, dependent_concat, hreq.dependencies p hp]
          by_cases hpm : p = m.shard
          · simp [Report.dependency, hpm]
          · simp [Report.dependency, hpm, Ne.symm hpm]
        · intro p
          rw [repliers_concat_of_none rfl]
          exact hreq.repliers p
        · simp only [hvoted]
          exact hreq.consensus
        · rw [htol]
          exact hreq.tolerance
      simp only [wp_bind, setCommit, wp_update, wp_when, Bool.and_eq_true]
      refine ⟨fun hflags => ?_, fun hflags => ?_⟩
      · obtain ⟨⟨hfree, hcons⟩, hflag⟩ := hflags
        have hall := hentry.consensus.1 hcons
        refine wp_mono (fun _ y hy => ?_) (fun _ hy => hy.elim)
          (announce_decided hentry.id req.state _)
        rw [show req.state = .prepared from hreq.prepared hcons] at hy
        refine ⟨fun _ => hy, fun h => absurd ⟨hall, hentry.tolerance.1 hflag, ?_⟩ h⟩
        exact (free_entry hP hentry (voted_named (hall p₀ hp₀)) hall).1 hfree
      · refine ⟨fun hready => ?_,
          fun _ => Tallied.of_entry hx.undecided (AList.lookup_insert _) hentry⟩
        have hfree := (free_entry hP hentry (voted_named (hready.voted p₀ hp₀)) hready.voted).2
          hready.free
        have hcons : req.reachConsensus = true := hentry.consensus.2 hready.voted
        have hflag : req.reachFaultTolerance = true := hentry.tolerance.2 hready.tolerant
        rw [hfree, hcons, hflag] at hflags
        cases hflags

/-! ### Runs -/

/-- The report belongs to the ballot on `tid` that this coordinator holds: its votes say
`PREPARED` and agree on the participants, the primary shard and the coordinator. -/
def Report.Belongs (env : CoordinatorEnv) (tid : TxnId) (P : List Shard) (primaryShard : ℕ) :
    Report → Prop
  | .vote m => m.tid = tid ∧ m.shard ∈ P ∧ m.vote = .prepared ∧ m.participants = P ∧
      m.primaryShard = primaryShard ∧ m.primaryCoordinator = env.coordinatorId
  | .reply m => m.tid = tid ∧ m.shard ∈ P
  | .cleared m => m.tid = tid ∧ m.shard ∈ P
  | .replyUnion _ => False
  | .decisionReply _ => False

instance (env : CoordinatorEnv) (tid : TxnId) (P : List Shard) (primaryShard : ℕ) :
    DecidablePred (Report.Belongs env tid P primaryShard)
  | .vote _ => inferInstanceAs (Decidable (_ ∧ _))
  | .reply _ => inferInstanceAs (Decidable (_ ∧ _))
  | .cleared _ => inferInstanceAs (Decidable (_ ∧ _))
  | .replyUnion _ => inferInstanceAs (Decidable False)
  | .decisionReply _ => inferInstanceAs (Decidable False)

/-- The report says that the dependencies of the shard are cleared. -/
def Report.clears (p : Shard) : Report → Bool
  | .cleared m => decide (m.shard = p)
  | _ => false

/-- The report is a vote of the shard that depends on a pre-committed transaction. -/
def Report.hasPreCommit (p : Shard) : Report → Bool
  | .vote m => decide (m.shard = p) && m.hasPreCommit
  | _ => false

/-- **A complete ballot.** Votes of all participants, replies of a majority of the replicas of
each, and one clearance for each shard whose votes depend on a pre-committed transaction. -/
structure Ballot (env : CoordinatorEnv) (tid : TxnId) (P : List Shard) (primaryShard : ℕ)
    (rs : List Report) : Prop where
  nonempty : P ≠ []
  nodup : P.Nodup
  belongs : ∀ r ∈ rs, r.Belongs env tid P primaryShard
  votes : ∀ p ∈ P, voted rs p = true
  replies : Replicated P env.quorumSize rs
  cleared : ∀ p ∈ P, rs.countP (Report.clears p) = if rs.any (Report.hasPreCommit p) then 1 else 0

theorem voted_belongs {primaryShard : ℕ} (h : ∀ r ∈ rs, r.Belongs env tid P primaryShard)
    (hp : voted rs p = true) : p ∈ P := by
  obtain ⟨r, hr, hv⟩ := List.any_eq_true.1 hp
  cases r with
  | vote m =>
      rw [← of_decide_eq_true hv]
      exact (h _ hr).2.1
  | _ => cases hv

/-- One report of the ballot. -/
theorem handle_outcome (hP : P.Nodup) (hne : P ≠ []) {primaryShard : ℕ}
    (hbelongs : ∀ r ∈ rs, r.Belongs env tid P primaryShard)
    (hx : Tallied env tid P rs x) (hnot : ¬ Ready P env.quorumSize rs) {d : Delivery}
    (hd : d.report.Belongs env tid P primaryShard) :
    Outcome env tid P rs d.report (handle env x d) := by
  obtain ⟨report, ω⟩ := d
  cases report with
  | vote m =>
      obtain ⟨rfl, hshard, hvote, hpart, _, hcoord⟩ := hd
      exact wp_state (handleReplicateReplyAndVote_outcome hP hne
        (fun p hp => voted_belongs hbelongs hp) hx hshard hvote hpart hcoord)
  | reply m =>
      obtain ⟨rfl, hshard⟩ := hd
      exact wp_state (handleBypassLeaderReply_outcome hP hne hx hnot hshard)
  | cleared m =>
      obtain ⟨rfl, hshard⟩ := hd
      exact wp_state (handleNotifyDependenciesAreCleared_outcome hP hne hx hshard)
  | replyUnion m => exact hd.elim
  | decisionReply m => exact hd.elim

/-- **The tally of a run.** Either no part of the run so far was ready, and the coordinator
knows what was reported; or the decision was made on the first report with which it was. -/
theorem tally (hP : P.Nodup) (hne : P ≠ []) {primaryShard : ℕ} (ds : List Delivery)
    (hds : ∀ r ∈ ds.map Delivery.report, r.Belongs env tid P primaryShard) :
    ((∀ l, l <+: ds.map Delivery.report → ¬ Ready P env.quorumSize l) ∧
        Tallied env tid P (ds.map Delivery.report) (after env ds)) ∨
      ∃ r, Decisive P env.quorumSize (ds.map Delivery.report) r ∧
        Decided tid r.decision (after env ds) := by
  induction ds using List.reverseRecOn with
  | nil =>
      refine .inl ⟨fun l hl hready => ?_, AList.notMem_empty tid, fun _ r hr => ?_, fun _ h => by cases h⟩
      · obtain ⟨p, hp⟩ := List.exists_mem_of_ne_nil P hne
        have hv := hready.voted p hp
        rw [List.prefix_nil.1 hl] at hv
        cases hv
      · exact absurd hr List.not_mem_nil
  | append_singleton ds d ih =>
      rw [List.map_append, List.map_singleton] at hds ⊢
      rw [List.forall_mem_append, List.forall_mem_singleton] at hds
      have hstep : after env (ds ++ [d]) = handle env (after env ds) d := Calls.run_concat ..
      rw [hstep]
      rcases ih hds.1 with ⟨hnot, hx⟩ | ⟨r, ⟨before, rest, heq, hready, hfirst⟩, hdecided⟩
      · have hout := handle_outcome hP hne hds.1 hx (hnot _ (List.prefix_refl _)) hds.2
        by_cases hready : Ready P env.quorumSize (ds.map Delivery.report ++ [d.report])
        · exact .inr ⟨d.report, ⟨_, [], rfl, hready, hnot⟩, hout.1 hready⟩
        · refine .inl ⟨fun l hl => ?_, hout.2 hready⟩
          rcases List.prefix_concat_iff.1 hl with rfl | hold
          · exact hready
          · exact hnot l hold
      · -- the decision stands: nothing is done for a decided transaction
        have hid : d.report.tid = tid := by
          have hb := hds.2
          revert hb
          cases d.report with
          | vote m => exact fun hb => hb.1
          | reply m => exact fun hb => hb.1
          | cleared m => exact fun hb => hb.1
          | replyUnion m => exact False.elim
          | decisionReply m => exact False.elim
        have hsame : handle env (after env ds) d = after env ds := by
          apply handle_decided (after_once env ds)
          rw [hid]
          exact AList.lookup_isSome.1 (by rw [hdecided.1]; rfl)
        rw [hsame]
        refine .inr ⟨r, ⟨before, rest ++ [d.report], ?_, hready, hfirst⟩, hdecided⟩
        rw [heq, List.append_assoc]
        rfl

/-- The first moment is determined. -/
theorem Decisive.unique {r' : Report} (h : Decisive P q rs r) (h' : Decisive P q rs r') :
    r = r' := by
  obtain ⟨b, a, heq, hready, hfirst⟩ := h
  obtain ⟨b', a', heq', hready', hfirst'⟩ := h'
  have hpre : b ++ [r] <+: rs := ⟨a, by rw [heq, List.append_assoc]; rfl⟩
  have hpre' : b' ++ [r'] <+: rs := ⟨a', by rw [heq', List.append_assoc]; rfl⟩
  rcases List.prefix_or_prefix_of_prefix hpre hpre' with hle | hle
  · rcases List.prefix_concat_iff.1 hle with heq₁ | hlt
    · exact (List.append_inj' heq₁ rfl).2 |> List.singleton_inj.1
    · exact absurd hready (hfirst' _ hlt)
  · rcases List.prefix_concat_iff.1 hle with heq₁ | hlt
    · exact ((List.append_inj' heq₁ rfl).2 |> List.singleton_inj.1).symm
    · exact absurd hready' (hfirst _ hlt)

/-- A ballot that was announced had a decisive report, and was recorded accordingly. -/
theorem announced_iff (hP : P.Nodup) (hne : P ≠ []) {primaryShard : ℕ} (ds : List Delivery)
    (hds : ∀ r ∈ ds.map Delivery.report, r.Belongs env tid P primaryShard) :
    announcements tid (after env ds) ≠ 0 ↔
      ∃ r, Decisive P env.quorumSize (ds.map Delivery.report) r ∧
        (after env ds).state.commitResults.lookup tid = some (r.decision, true) := by
  rcases tally hP hne ds hds with ⟨hnot, hx⟩ | ⟨r, hr, hdecided⟩
  · refine iff_of_false (not_not.2 ?_) ?_
    · exact (after_once env ds).announcements_eq_zero hx.undecided
    · rintro ⟨r, ⟨before, rest, heq, hready, _⟩, _⟩
      refine hnot (before ++ [r]) ⟨rest, ?_⟩ hready
      rw [heq, List.append_assoc]
      rfl
  · exact iff_of_true hdecided.2 ⟨r, hr, hdecided.1⟩

theorem decision_eq_iff {r r' : Report} : r.decision = r'.decision ↔ r.isReply = r'.isReply := by
  unfold Report.decision
  cases r.isReply <;> cases r'.isReply <;> decide

/-- **When the order does not matter.** Two orders of the reports of a complete ballot leave
the coordinator with the same recorded decision, announced in both, exactly if each of them
becomes ready at some report and these two reports are both replies or both not. -/
theorem order_independent_iff {primaryShard : ℕ} (hrs : Ballot env tid P primaryShard rs)
    {ds ds' : List Delivery} (hds : (ds.map Delivery.report).Perm rs)
    (hds' : (ds'.map Delivery.report).Perm rs) :
    ((after env ds).state.commitResults.lookup tid =
        (after env ds').state.commitResults.lookup tid ∧
      announcements tid (after env ds) ≠ 0 ∧ announcements tid (after env ds') ≠ 0) ↔
    ∃ r r', Decisive P env.quorumSize (ds.map Delivery.report) r ∧
      Decisive P env.quorumSize (ds'.map Delivery.report) r' ∧ r.isReply = r'.isReply := by
  have hb : ∀ l : List Report, l.Perm rs → ∀ r ∈ l, r.Belongs env tid P primaryShard :=
    fun l hl r hr => hrs.belongs r (hl.mem_iff.1 hr)
  have hann := announced_iff hrs.nodup hrs.nonempty ds (hb _ hds)
  have hann' := announced_iff hrs.nodup hrs.nonempty ds' (hb _ hds')
  constructor
  · rintro ⟨hsame, h, h'⟩
    obtain ⟨r, hr, hl⟩ := hann.1 h
    obtain ⟨r', hr', hl'⟩ := hann'.1 h'
    rw [hl, hl'] at hsame
    refine ⟨r, r', hr, hr', decision_eq_iff.1 ?_⟩
    simpa using hsame
  · rintro ⟨r, r', hr, hr', hkind⟩
    have hex : ∀ {ds : List Delivery} {r : Report}, (ds.map Delivery.report).Perm rs →
        Decisive P env.quorumSize (ds.map Delivery.report) r →
        (after env ds).state.commitResults.lookup tid = some (r.decision, true) ∧
          announcements tid (after env ds) ≠ 0 := by
      intro ds r hds hr
      rcases tally hrs.nodup hrs.nonempty ds (hb _ hds) with ⟨hnot, _⟩ | ⟨r₁, hr₁, hdecided⟩
      · obtain ⟨before, rest, heq, hready, _⟩ := hr
        refine absurd hready (hnot (before ++ [r]) ⟨rest, ?_⟩)
        rw [heq, List.append_assoc]
        rfl
      · rw [hr.unique hr₁]
        exact hdecided
    obtain ⟨hl, h⟩ := hex hds hr
    obtain ⟨hl', h'⟩ := hex hds' hr'
    refine ⟨?_, h, h'⟩
    rw [hl, hl', decision_eq_iff.2 hkind]

/-! ### A ballot of two shards -/

/-- The vote of a shard, passed on by its first replica. -/
def ballotVote (p : Shard) : Delivery where
  report := .vote {
    tid := 7
    shard := p
    replica := 0
    vote := .prepared
    participants := [0, 1]
    primaryShard := 0
    primaryCoordinator := 0
    hasPreCommit := false }
  ω := {}

def ballotReply (p : Shard) (i : ℕ) : Delivery := ⟨.reply { tid := 7, shard := p, replica := i }, {}⟩

/-- Both shards vote before the replies arrive. -/
def votesFirst : List Delivery :=
  [ballotVote 0, ballotVote 1, ballotReply 0 1, ballotReply 0 2, ballotReply 1 1, ballotReply 1 2]

/-- The replies of the second shard are there before those of the first. -/
def otherReplies : List Delivery :=
  [ballotVote 0, ballotVote 1, ballotReply 1 1, ballotReply 1 2, ballotReply 0 1, ballotReply 0 2]

/-- A vote comes last. -/
def voteLast : List Delivery :=
  [ballotVote 0, ballotReply 0 1, ballotReply 0 2, ballotReply 1 1, ballotReply 1 2, ballotVote 1]

/-- Both votes come last. -/
def repliesFirst : List Delivery :=
  [ballotReply 0 1, ballotReply 0 2, ballotReply 1 1, ballotReply 1 2, ballotVote 0, ballotVote 1]

/-- The coordinator of the first shard. -/
def firstCoordinator : CoordinatorEnv := ⟨threeReplicas .parallel 2, 0⟩

theorem votesFirst_ballot :
    Ballot firstCoordinator 7 [0, 1] 0 (votesFirst.map Delivery.report) := by
  refine ⟨by decide, by decide, by decide +kernel, by decide, ?_, by decide +kernel⟩
  intro p hp
  revert hp p
  decide +kernel

/-- The replies, shard by shard. -/
def firstReplies : List Delivery := [ballotReply 0 1, ballotReply 0 2]

def secondReplies : List Delivery := [ballotReply 1 1, ballotReply 1 2]

theorem otherReplies_perm :
    (otherReplies.map Delivery.report).Perm (votesFirst.map Delivery.report) := by
  have hswap : (secondReplies ++ firstReplies).Perm (firstReplies ++ secondReplies) :=
    List.perm_append_comm
  exact ((hswap.cons _).cons _).map _

theorem voteLast_perm :
    (voteLast.map Delivery.report).Perm (votesFirst.map Delivery.report) := by
  have hswap : ((firstReplies ++ secondReplies) ++ [ballotVote 1]).Perm
      ([ballotVote 1] ++ (firstReplies ++ secondReplies)) :=
    List.perm_append_comm
  exact (hswap.cons _).map _

theorem repliesFirst_perm :
    (repliesFirst.map Delivery.report).Perm (votesFirst.map Delivery.report) := by
  have hswap : ((firstReplies ++ secondReplies) ++ [ballotVote 0, ballotVote 1]).Perm
      ([ballotVote 0, ballotVote 1] ++ (firstReplies ++ secondReplies)) :=
    List.perm_append_comm
  exact hswap.map _

theorem replies_order_independent :
    (announcements 7 (after firstCoordinator votesFirst) ≠ 0 ∧
      announcements 7 (after firstCoordinator otherReplies) ≠ 0) ∧
    ∃ r r', Decisive [0, 1] firstCoordinator.quorumSize (votesFirst.map Delivery.report) r ∧
      Decisive [0, 1] firstCoordinator.quorumSize (otherReplies.map Delivery.report) r' ∧
      r.isReply = r'.isReply := by
  have hann : (after firstCoordinator votesFirst).state.commitResults.lookup 7 =
        (after firstCoordinator otherReplies).state.commitResults.lookup 7 ∧
      announcements 7 (after firstCoordinator votesFirst) ≠ 0 ∧
      announcements 7 (after firstCoordinator otherReplies) ≠ 0 := by
    decide +kernel
  exact ⟨hann.2, (order_independent_iff votesFirst_ballot (List.Perm.refl _)
    otherReplies_perm).1 hann⟩

/-- Three orders of one ballot: the commit is recorded as `COMMIT`, recorded as `PREPARED`,
and not announced at all. -/
theorem orders_disagree :
    Ballot firstCoordinator 7 [0, 1] 0 (votesFirst.map Delivery.report) ∧
    (after firstCoordinator votesFirst).state.commitResults.lookup 7 = some (.commit, true) ∧
    (after firstCoordinator voteLast).state.commitResults.lookup 7 = some (.prepared, true) ∧
    announcements 7 (after firstCoordinator repliesFirst) = 0 ∧
    ¬ ∀ ds ds' : List Delivery,
      (ds.map Delivery.report).Perm (votesFirst.map Delivery.report) →
      (ds'.map Delivery.report).Perm (votesFirst.map Delivery.report) →
      (after firstCoordinator ds).state.commitResults.lookup 7 =
        (after firstCoordinator ds').state.commitResults.lookup 7 ∧
      announcements 7 (after firstCoordinator ds) ≠ 0 ∧
      announcements 7 (after firstCoordinator ds') ≠ 0 := by
  have hnone : announcements 7 (after firstCoordinator repliesFirst) = 0 := by decide +kernel
  refine ⟨votesFirst_ballot, by decide +kernel, by decide +kernel, hnone, fun hall => ?_⟩
  exact (hall voteLast repliesFirst voteLast_perm repliesFirst_perm).2.2 hnone

end Coordinator

end D2PC
