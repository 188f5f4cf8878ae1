import D2PC.Lib.Votes
import D2PC.Protocol.Client
import D2PC.Protocol.Replica

/-!
# Counting the replies of replicas

In the RC mode the replicas of the primary shard and the client each decide from the
decisions of the regions they have received; in the Carousel mode a client decides from the
votes of the replicas of a shard. The three functions that count are `RCCheck`,
`ReachConsensusOnFinalDecision` and `CarouselCheck`.

* `region_decisions_agree` : the first two never contradict each other, and a decision stands;
* `Outvoted`, `carousel_answer_iff` : the third follows the leader of the shard exactly as long
  as no super majority outvotes it;
* `outvoted_leader` : it does not ask what the leader voted.
-/

namespace D2PC

/-- The vote is `LOG_STATE_PREPAREOK`. -/
def LogEntryState.isOk (st : LogEntryState) : Bool := decide (st = .prepareOk)

theorem LogEntryState.isOk_iff {st : LogEntryState} : st.isOk = true ↔ st = .prepareOk :=
  decide_eq_true_iff

/-- The loops count the states that are `LOG_STATE_PREPAREOK`. -/
theorem count_prepareOk (t : Table ℕ LogEntryState) :
    (t.toList.map Prod.snd).count .prepareOk = Votes.count LogEntryState.isOk t := by
  rw [List.count, Votes.count]
  apply List.countP_congr
  intro st _
  rw [beq_iff_eq, LogEntryState.isOk_iff]

/-- The others are those that are left. -/
theorem count_refused (t : Table ℕ LogEntryState) :
    (t.toList.map Prod.snd).length - (t.toList.map Prod.snd).count .prepareOk =
      Votes.count (fun st => !st.isOk) t := by
  rw [count_prepareOk, ← Votes.count_add_not LogEntryState.isOk t, Nat.add_sub_cancel_left]

theorem countReplies_eq (req : LRClient.PendingPrepare) :
    Client.countReplies req = ((req.replicaReplies.toList.map Prod.snd).length,
      Votes.count LogEntryState.isOk req.replicaReplies,
      Votes.count (fun st => !st.isOk) req.replicaReplies) := by
  rw [← count_refused, ← count_prepareOk]
  rfl

/-- Each kind is at most all. -/
theorem count_le_total (t : Table ℕ LogEntryState) :
    Votes.count LogEntryState.isOk t ≤ (t.toList.map Prod.snd).length ∧
      Votes.count (fun st => !st.isOk) t ≤ (t.toList.map Prod.snd).length := by
  rw [← Votes.count_add_not LogEntryState.isOk t]
  exact ⟨Nat.le_add_right _ _, Nat.le_add_left _ _⟩

theorem rcCheck_eq (env : ClientEnv) (req : LRClient.PendingPrepare) :
    Client.rcCheck env req =
      if env.cfg.quorumSize ≤ Votes.count LogEntryState.isOk req.replicaReplies then
        (true, { req with state := .prepareOk })
      else if env.cfg.quorumSize ≤ Votes.count (fun st => !st.isOk) req.replicaReplies then
        (true, { req with state := .abort })
      else (false, req) := by
  obtain ⟨hok, hrefused⟩ := count_le_total req.replicaReplies
  simp only [Client.rcCheck, countReplies_eq, and_iff_right_of_imp fun h => le_trans h hok,
    and_iff_right_of_imp fun h => le_trans h hrefused]

/-! ### Decisions of the regions -/

/-- A place where the decisions of the regions are collected: a replica of the primary shard,
or the client. -/
inductive RegionView where
  | replica (env : ReplicaEnv) (req : PendingPrepare)
  | client (env : ClientEnv) (req : LRClient.PendingPrepare)

namespace RegionView

def cfg : RegionView → Config
  | .replica env _ => env.cfg
  | .client env _ => env.cfg

/-- The decisions received. -/
def replies : RegionView → Table ℕ LogEntryState
  | .replica _ req => req.regionReplies
  | .client _ req => req.replicaReplies

/-- What `ReachConsensusOnFinalDecision` or `RCCheck` makes of them. -/
def decision : RegionView → Option LogEntryState
  | .replica env req => Replica.reachConsensusOnFinalDecision env req
  | .client env req =>
      match Client.rcCheck env req with
      | (true, req) => some req.state
      | (false, _) => none

/-- **Both places count alike.** -/
theorem decision_eq (v : RegionView) :
    v.decision =
      if v.cfg.quorumSize ≤ Votes.count LogEntryState.isOk v.replies then some .prepareOk
      else if v.cfg.quorumSize ≤ Votes.count (fun st => !st.isOk) v.replies then some .abort
      else none := by
  cases v with
  | replica env req =>
      obtain ⟨hok, hrefused⟩ := count_le_total req.regionReplies
      show Replica.reachConsensusOnFinalDecision env req =
        if env.cfg.quorumSize ≤ Votes.count LogEntryState.isOk req.regionReplies then
          some .prepareOk
        else if env.cfg.quorumSize ≤ Votes.count (fun st => !st.isOk) req.regionReplies then
          some .abort
        else none
      rw [Replica.reachConsensusOnFinalDecision, count_refused, count_prepareOk]
      by_cases hquorum : env.cfg.quorumSize ≤ (req.regionReplies.toList.map Prod.snd).length
      · rw [if_pos hquorum]
      · rw [if_neg hquorum, if_neg fun h => hquorum (h.trans hok),
          if_neg fun h => hquorum (h.trans hrefused)]
  | client env req =>
      show (match Client.rcCheck env req with
          | (true, req) => some req.state
          | (false, _) => none) =
        if env.cfg.quorumSize ≤ Votes.count LogEntryState.isOk req.replicaReplies then
          some .prepareOk
        else if env.cfg.quorumSize ≤ Votes.count (fun st => !st.isOk) req.replicaReplies then
          some .abort
        else none
      rw [rcCheck_eq]
      by_cases hok : env.cfg.quorumSize ≤ Votes.count LogEntryState.isOk req.replicaReplies
      · rw [if_pos hok, if_pos hok]
      · rw [if_neg hok, if_neg hok]
        by_cases hrefused :
            env.cfg.quorumSize ≤ Votes.count (fun st => !st.isOk) req.replicaReplies
        · rw [if_pos hrefused, if_pos hrefused]
        · rw [if_neg hrefused, if_neg hrefused]

/-- The decisions received are those of the regions. -/
def Sees (v : RegionView) (cfg : Config) (d : ℕ → LogEntryState) : Prop :=
  v.cfg = cfg ∧ Votes.Received d (Finset.range cfg.n) v.replies

/-- What a decision rests on. -/
theorem decision_cases {v : RegionView} {r : LogEntryState} (h : v.decision = some r) :
    (r = .prepareOk ∧ v.cfg.quorumSize ≤ Votes.count LogEntryState.isOk v.replies) ∨
      (r = .abort ∧ v.cfg.quorumSize ≤ Votes.count (fun st => !st.isOk) v.replies) := by
  rw [decision_eq] at h
  split_ifs at h with hok hrefused
  · exact .inl ⟨(Option.some.inj h).symm, hok⟩
  · exact .inr ⟨(Option.some.inj h).symm, hrefused⟩

end RegionView

variable {cfg : Config}

theorem card_replicas (hn : cfg.n = 2 * cfg.f + 1) :
    (Finset.range cfg.n).card < 2 * cfg.quorumSize := by
  rw [Finset.card_range, hn, Config.quorumSize]
  omega

/-- **The places agree.** For `2f + 1` replicas with one decision each: wherever and from
whichever of the decisions two outcomes are determined, they are the same; and once the
decisions received determine an outcome, any more of them determine it too. -/
theorem region_decisions_agree (hn : cfg.n = 2 * cfg.f + 1) (d : ℕ → LogEntryState)
    {v v' : RegionView} (hv : v.Sees cfg d) (hv' : v'.Sees cfg d) :
    (∀ r r', v.decision = some r → v'.decision = some r' → r = r') ∧
      ((∀ i ∈ v.replies, i ∈ v'.replies) → ∀ r, v.decision = some r → v'.decision = some r) := by
  obtain ⟨hcfg, hrec⟩ := hv
  obtain ⟨hcfg', hrec'⟩ := hv'
  have hcard := card_replicas hn
  constructor
  · intro r r' hr hr'
    rcases RegionView.decision_cases hr with ⟨rfl, hq⟩ | ⟨rfl, hq⟩
    · rcases RegionView.decision_cases hr' with ⟨rfl, _⟩ | ⟨rfl, hq'⟩
      · rfl
      · rw [hcfg] at hq
        rw [hcfg'] at hq'
        exact (Votes.not_opposed hrec hrec' hcard hq hq').elim
    · rcases RegionView.decision_cases hr' with ⟨rfl, hq'⟩ | ⟨rfl, _⟩
      · rw [hcfg] at hq
        rw [hcfg'] at hq'
        exact (Votes.not_opposed hrec' hrec hcard hq' hq).elim
      · rfl
  · intro hsub r hr
    have hmono := Votes.count_mono hrec hrec' hsub
    rw [RegionView.decision_eq, hcfg']
    rcases RegionView.decision_cases hr with ⟨rfl, hq⟩ | ⟨rfl, hq⟩
    · rw [hcfg] at hq
      rw [if_pos (hq.trans (hmono _))]
    · rw [hcfg] at hq
      have hno : ¬ cfg.quorumSize ≤ Votes.count LogEntryState.isOk v'.replies := fun hok =>
        Votes.not_opposed hrec' hrec hcard hok hq
      rw [if_neg hno, if_pos (hq.trans (hmono _))]

/-- One shard of `2f + 1` replicas. -/
def oneShard (f : ℕ) (mode : TpcMode) : Config where
  n := 2 * f + 1
  f := f
  nshards := 1
  mode := mode
  keyToShard := fun _ => 0
  clientId := fun _ => 0
  closestReplica := fun _ => some 0
  store := fun _ _ => .occ {}
  initialTs := fun _ _ => 0

/-- Two of three regions agree. -/
def twoOfThree (i : ℕ) : LogEntryState := if i = 0 then .abort else .prepareOk

/-- A replica of the primary shard that has heard of all three. -/
def allRegions : RegionView :=
  .replica ⟨oneShard 1 .rc, 0, 0⟩
    { tid := 7
      txn := {}
      participants := [0]
      finalDecision := .undecide
      timerArmed := false
      regionReplies := Table.ofList [(0, .abort), (1, .prepareOk), (2, .prepareOk)] }

/-- The client that has heard of the last two. -/
def lastRegions : RegionView :=
  .client ⟨oneShard 1 .rc, 7⟩
    { leader := 0
      state := .undecide
      replicaReplies := Table.ofList [(1, .prepareOk), (2, .prepareOk)] }

theorem lastRegions_agree :
    lastRegions.decision = some .prepareOk ∧ allRegions.decision = some .prepareOk := by
  have hlast : lastRegions.Sees (oneShard 1 .rc) twoOfThree :=
    ⟨rfl, (Votes.Received.empty.insert (by decide) rfl).insert (by decide) rfl⟩
  have hall : allRegions.Sees (oneShard 1 .rc) twoOfThree :=
    ⟨rfl, ((Votes.Received.empty.insert (by decide) rfl).insert (by decide) rfl).insert
      (by decide) rfl⟩
  have hdecided : lastRegions.decision = some .prepareOk := by decide
  refine ⟨hdecided, (region_decisions_agree rfl twoOfThree hlast hall).2 ?_ _ hdecided⟩
  decide

/-! ### Votes of the replicas of a shard -/

namespace LRClient

/-- The code the continuation of a prepare is invoked with, when one reply comes in after the
other. -/
def answer (env : ClientEnv) (req : PendingPrepare) : List PrepareTransactionReply → Option ℕ
  | [] => none
  | m :: ms =>
      match Client.respond env req m with
      | (some call, _) => some call.1
      | (none, req) => answer env req ms

/-- A reply of replica `m.replica` of the shard, with its vote. Only the leader answers for
the slow path. -/
structure Honest (cfg : Config) (s : Shard) (vote : ℕ → LogEntryState)
    (m : PrepareTransactionReply) : Prop where
  replica : m.replica < cfg.n
  state : m.state = vote m.replica
  leader : m.reachFaultTolerance = 1 → m.replica = cfg.leader s

/-- The replicas in `seen` that voted against the leader. -/
def opponents (cfg : Config) (s : Shard) (vote : ℕ → LogEntryState) (seen : Finset ℕ) : Finset ℕ :=
  seen.filter fun i => (vote i).isOk ≠ (vote (cfg.leader s)).isOk

/-- When the client has heard from the leader, a super majority has voted against it, and the
answer of the leader for the slow path was not there before. -/
def Outvoted (cfg : Config) (s : Shard) (vote : ℕ → LogEntryState) (seen : Finset ℕ) :
    List PrepareTransactionReply → Prop
  | [] => False
  | m :: ms =>
      (cfg.leader s ∈ insert m.replica seen ∧
        cfg.fastQuorumSize ≤ (opponents cfg s vote (insert m.replica seen)).card) ∨
      (m.reachFaultTolerance ≠ 1 ∧ Outvoted cfg s vote (insert m.replica seen) ms)

instance Outvoted.decidable (cfg : Config) (s : Shard) (vote : ℕ → LogEntryState) :
    ∀ (seen : Finset ℕ) (ms : List PrepareTransactionReply), Decidable (Outvoted cfg s vote seen ms)
  | _, [] => instDecidableFalse
  | seen, m :: ms =>
      have := Outvoted.decidable cfg s vote (insert m.replica seen) ms
      inferInstanceAs (Decidable (_ ∨ _))

variable {env : ClientEnv} {s : Shard} {vote : ℕ → LogEntryState} {seen : Finset ℕ}
  {req : PendingPrepare}

/-- Whoever outvotes the leader is heard of sooner or later. -/
theorem Outvoted.later {ms : List PrepareTransactionReply} (hms : ∀ m ∈ ms, m.replica < cfg.n)
    (hseen : seen ⊆ Finset.range cfg.n) (h : Outvoted cfg s vote seen ms) :
    ∃ seen', seen ⊆ seen' ∧ seen' ⊆ Finset.range cfg.n ∧
      cfg.fastQuorumSize ≤ (opponents cfg s vote seen').card := by
  induction ms generalizing seen with
  | nil => exact h.elim
  | cons m ms ih =>
      have hnew : insert m.replica seen ⊆ Finset.range cfg.n :=
        Finset.insert_subset (Finset.mem_range.2 (hms m (List.mem_cons_self ..))) hseen
      rcases h with ⟨_, hq⟩ | ⟨_, h⟩
      · exact ⟨_, Finset.subset_insert _ _, hnew, hq⟩
      · obtain ⟨seen', hsub, hin, hq⟩ := ih (fun x hx => hms x (List.mem_cons_of_mem _ hx)) hnew h
        exact ⟨seen', (Finset.subset_insert _ _).trans hsub, hin, hq⟩

/-- What the client has collected when it has heard from `seen` and not for the slow path. -/
structure Collected (cfg : Config) (s : Shard) (vote : ℕ → LogEntryState) (seen : Finset ℕ)
    (req : PendingPrepare) : Prop where
  leader : req.leader = cfg.leader s
  received : Votes.Received vote (Finset.range cfg.n) req.replicaReplies
  heard : Votes.heard req.replicaReplies = seen
  undecided : req.reachFaultTolerance = false

theorem Collected.subset (h : Collected cfg s vote seen req) : seen ⊆ Finset.range cfg.n := by
  rw [← h.heard]
  exact h.received.heard_subset

/-- The opponents of the leader are counted in one of the two loops. -/
theorem Collected.opponents (h : Collected cfg s vote seen req) :
    (opponents cfg s vote seen).card =
      Votes.count (fun st => st.isOk != (vote (cfg.leader s)).isOk) req.replicaReplies := by
  rw [Votes.count_eq_card h.received, h.heard, LRClient.opponents]
  simp only [bne_iff_ne]

theorem carouselCheck_eq (hft : req.reachFaultTolerance = false) :
    Client.carouselCheck env req =
      if env.cfg.fastQuorumSize ≤ Votes.count LogEntryState.isOk req.replicaReplies ∧
        req.leader ∈ req.replicaReplies then (true, { req with state := .prepareOk })
      else if env.cfg.fastQuorumSize ≤ Votes.count (fun st => !st.isOk) req.replicaReplies ∧
        req.leader ∈ req.replicaReplies then (true, { req with state := .abort })
      else (false, req) := by
  obtain ⟨hok, hrefused⟩ := count_le_total req.replicaReplies
  have hdrop : ∀ {a b c : ℕ} {P : Prop}, b ≤ c → ((a ≤ c ∧ a ≤ b ∧ P) ↔ a ≤ b ∧ P) := fun h =>
    ⟨fun hp => hp.2, fun hp => ⟨hp.1.trans h, hp⟩⟩
  simp only [Client.carouselCheck, hft, countReplies_eq, hdrop hok, hdrop hrefused]
  rfl

/-- A super majority is more than half of the replicas. -/
theorem card_fastQuorum (hn : cfg.n = 2 * cfg.f + 1) :
    (Finset.range cfg.n).card < 2 * cfg.fastQuorumSize := by
  rw [Finset.card_range, hn, Config.fastQuorumSize]
  omega

/-- The opponents of the leader and a super majority on its side would be too many. -/
theorem Collected.not_both (h : Collected cfg s vote seen req) (hn : cfg.n = 2 * cfg.f + 1)
    {seen' : Finset ℕ} (hin : seen' ⊆ Finset.range cfg.n)
    (hside : cfg.fastQuorumSize ≤
      Votes.count (fun st => st.isOk == (vote (cfg.leader s)).isOk) req.replicaReplies) :
    ¬ cfg.fastQuorumSize ≤ (LRClient.opponents cfg s vote seen').card := by
  intro hopp
  have hle := Votes.count_le_card h.received fun st => st.isOk == (vote (cfg.leader s)).isOk
  have hle' := Finset.card_le_card
    (Finset.filter_subset_filter (fun i => (vote i).isOk ≠ (vote (cfg.leader s)).isOk) hin)
  have hsplit := Finset.card_filter_add_card_filter_not (s := Finset.range cfg.n)
    fun i => (vote i).isOk = (vote (cfg.leader s)).isOk
  have hcard := card_fastQuorum hn
  simp only [beq_iff_eq] at hle
  rw [LRClient.opponents] at hopp
  simp only [ne_eq] at hle' hopp
  omega

/-- **What the check makes of the votes.** A super majority that includes the leader decides;
it is on the side of the leader or against it. -/
theorem Collected.check (h : Collected env.cfg s vote seen req) :
    (env.cfg.leader s ∈ seen ∧ env.cfg.fastQuorumSize ≤ (LRClient.opponents env.cfg s vote seen).card →
      ∃ st, Client.carouselCheck env req = (true, { req with state := st }) ∧
        (env.cfg.fastQuorumSize ≤
          Votes.count (fun st => st.isOk == (vote (env.cfg.leader s)).isOk) req.replicaReplies ∨
        st.isOk ≠ (vote (env.cfg.leader s)).isOk)) ∧
    (¬ (env.cfg.leader s ∈ seen ∧
        env.cfg.fastQuorumSize ≤ (LRClient.opponents env.cfg s vote seen).card) →
      Client.carouselCheck env req = (false, req) ∨
      ∃ st, Client.carouselCheck env req = (true, { req with state := st }) ∧
        st.isOk = (vote (env.cfg.leader s)).isOk ∧ env.cfg.fastQuorumSize ≤
          Votes.count (fun st => st.isOk == (vote (env.cfg.leader s)).isOk) req.replicaReplies) := by
  have hmem : env.cfg.leader s ∈ seen ↔ req.leader ∈ req.replicaReplies := by
    rw [← h.heard, Votes.mem_heard, h.leader]
  rw [h.opponents, carouselCheck_eq h.undecided, hmem]
  cases (vote (env.cfg.leader s)).isOk with
  | true =>
      simp only [Bool.bne_true, beq_true]
      constructor
      · rintro ⟨hlead, hq⟩
        by_cases hok : env.cfg.fastQuorumSize ≤ Votes.count LogEntryState.isOk req.replicaReplies
        · exact ⟨.prepareOk, if_pos ⟨hok, hlead⟩, .inl hok⟩
        · refine ⟨.abort, ?_, .inr (by decide)⟩
          rw [if_neg fun hc => hok hc.1, if_pos ⟨hq, hlead⟩]
      · intro hno
        by_cases hok : env.cfg.fastQuorumSize ≤ Votes.count LogEntryState.isOk req.replicaReplies ∧
            req.leader ∈ req.replicaReplies
        · exact .inr ⟨.prepareOk, if_pos hok, rfl, hok.1⟩
        · left
          rw [if_neg hok, if_neg fun hc => hno hc.symm]
  | false =>
      simp only [Bool.bne_false, beq_false]
      constructor
      · rintro ⟨hlead, hq⟩
        exact ⟨.prepareOk, if_pos ⟨hq, hlead⟩, .inr (by decide)⟩
      · intro hno
        rw [if_neg fun hc => hno hc.symm]
        by_cases hrefused : env.cfg.fastQuorumSize ≤
            Votes.count (fun st => !st.isOk) req.replicaReplies ∧ req.leader ∈ req.replicaReplies
        · exact .inr ⟨.abort, if_pos hrefused, rfl, hrefused.1⟩
        · exact .inl (if_neg hrefused)

/-- After the answer of the leader for the slow path the next reply, whatever it says, makes
the client follow the leader. -/
theorem answer_slow (hmode : env.cfg.mode = .carousel) (hslow : req.reachFaultTolerance = true)
    (hstate : req.state.isOk = (vote (env.cfg.leader s)).isOk) (ms : List PrepareTransactionReply)
    {a : ℕ} (ha : answer env req ms = some a) :
    a = 0 ↔ vote (env.cfg.leader s) = .prepareOk := by
  cases ms with
  | nil => cases ha
  | cons m ms =>
      simp only [answer, Client.respond, LogEntryState.reported, Client.collectReply, hmode, Client.carouselCheck, hslow] at ha
      rw [← LogEntryState.isOk_iff, ← hstate, LogEntryState.isOk_iff, ← Option.some.inj ha]
      split_ifs with hok
      · exact ⟨fun _ => hok, fun _ => rfl⟩
      · exact ⟨fun h => absurd h (by decide), fun h => absurd h hok⟩

theorem Collected.insert (h : Collected env.cfg s vote seen req) {m : PrepareTransactionReply}
    (hm : Honest env.cfg s vote m) (ts : ℕ) :
    Collected env.cfg s vote (insert m.replica seen)
      { req with
        replicaReplies := req.replicaReplies.insert m.replica m.state
        timestamp := ts } := by
  refine ⟨h.leader, h.received.insert (Finset.mem_range.2 hm.replica) hm.state, ?_, h.undecided⟩
  rw [Votes.heard_insert, h.heard]

/-- The client follows the leader, from any point on. -/
theorem answer_iff (hmode : env.cfg.mode = .carousel) (hn : env.cfg.n = 2 * env.cfg.f + 1)
    (h : Collected env.cfg s vote seen req) (ms : List PrepareTransactionReply)
    (hms : ∀ m ∈ ms, Honest env.cfg s vote m) :
    (∀ a, answer env req ms = some a → (a = 0 ↔ vote (env.cfg.leader s) = .prepareOk)) ↔
      ¬ Outvoted env.cfg s vote seen ms := by
  induction ms generalizing seen req with
  | nil => exact ⟨fun _ => id, fun _ _ ha => by cases ha⟩
  | cons m ms ih =>
      have hm := hms m (List.mem_cons_self ..)
      have hrest : ∀ x ∈ ms, Honest env.cfg s vote x := fun x hx =>
        hms x (List.mem_cons_of_mem _ hx)
      have hnew := h.insert hm (max req.timestamp m.timestamp)
      obtain ⟨hagainst, hwith⟩ := hnew.check
      have hcode : ∀ st : LogEntryState, ((if st = .prepareOk then 0 else 1) = 0 ↔
          vote (env.cfg.leader s) = .prepareOk) ↔ st.isOk = (vote (env.cfg.leader s)).isOk := by
        intro st
        rw [Bool.eq_iff_iff, LogEntryState.isOk_iff, LogEntryState.isOk_iff]
        split_ifs with hok
        · simp [hok]
        · simp [hok]
      rw [Outvoted, not_or]
      by_cases hopp : env.cfg.leader s ∈ Insert.insert m.replica seen ∧ env.cfg.fastQuorumSize ≤
          (LRClient.opponents env.cfg s vote (Insert.insert m.replica seen)).card
      · -- the super majority is against the leader
        obtain ⟨st, hcheck, hst⟩ := hagainst hopp
        have hne := hst.resolve_left fun hside => hnew.not_both hn hnew.subset hside hopp.2
        constructor
        · intro hall
          refine absurd ((hcode st).1 (hall _ ?_)) hne
          simp only [answer, Client.respond, LogEntryState.reported, Client.collectReply, hmode, hcheck]
          rfl
        · exact fun hno => absurd hopp hno.1
      · rcases hwith hopp with hcheck | ⟨st, hcheck, hst, hside⟩
        · by_cases hslow : m.reachFaultTolerance = 1
          · -- the leader has answered for the slow path
            refine ⟨fun _ => ⟨hopp, fun hno => hno.1 hslow⟩, fun _ a ha => ?_⟩
            simp only [answer, Client.respond, LogEntryState.reported, Client.collectReply, hmode, hcheck, hslow] at ha
            refine answer_slow hmode rfl ?_ ms ha
            show m.state.isOk = _
            rw [hm.state, hm.leader hslow]
          · have hstep : answer env req (m :: ms) = answer env { req with
                replicaReplies := req.replicaReplies.insert m.replica m.state
                timestamp := max req.timestamp m.timestamp } ms := by
              simp only [answer, Client.respond, LogEntryState.reported, Client.collectReply, hmode, hcheck, if_neg hslow]
              rfl
            rw [hstep, ih hnew hrest]
            exact ⟨fun hno => ⟨hopp, fun hlater => hno hlater.2⟩, fun hno hlater =>
              hno.2 ⟨hslow, hlater⟩⟩
        · -- the super majority is on the side of the leader
          constructor
          · refine fun _ => ⟨hopp, fun hlater => ?_⟩
            obtain ⟨seen', _, hin, hq⟩ := hlater.2.later (fun x hx => (hrest x hx).replica) hnew.subset
            exact hnew.not_both hn hin hside hq
          · intro _ a ha
            simp only [answer, Client.respond, LogEntryState.reported, Client.collectReply, hmode, hcheck] at ha
            have hright := (hcode st).2 hst
            rw [← Option.some.inj ha]
            exact hright

end LRClient

open LRClient

/-- **The client follows the leader of the shard exactly as long as it is not outvoted.** For
every `f`, every assignment of votes to the `2f + 1` replicas and every sequence of their
replies: the continuation is invoked with success only if the leader voted
`LOG_STATE_PREPAREOK` and with failure only if it did not, if and only if no super majority
against the leader is heard of, with the leader and before its answer for the slow path. -/
theorem carousel_answer_iff {env : ClientEnv} (hmode : env.cfg.mode = .carousel)
    (hn : env.cfg.n = 2 * env.cfg.f + 1) (s : Shard) (vote : ℕ → LogEntryState)
    (garbage : LogEntryState) (ms : List PrepareTransactionReply)
    (hms : ∀ m ∈ ms, Honest env.cfg s vote m) :
    (∀ a, answer env { leader := env.cfg.leader s, state := garbage } ms = some a →
      (a = 0 ↔ vote (env.cfg.leader s) = .prepareOk)) ↔ ¬ Outvoted env.cfg s vote ∅ ms :=
  answer_iff hmode hn ⟨rfl, Votes.Received.empty, rfl, rfl⟩ ms hms

/-- With at most three replicas a super majority is all of them, the leader included. -/
theorem not_outvoted {s : Shard} {vote : ℕ → LogEntryState} {ms : List PrepareTransactionReply}
    (hn : cfg.n = 2 * cfg.f + 1) (hf : cfg.f ≤ 1) (hms : ∀ m ∈ ms, Honest cfg s vote m) :
    ¬ Outvoted cfg s vote ∅ ms := by
  intro h
  obtain ⟨seen, _, hin, hq⟩ := h.later (fun m hm => (hms m hm).replica) (Finset.empty_subset _)
  have hlead : cfg.leader s ∈ Finset.range cfg.n :=
    Finset.mem_range.2 (Nat.mod_lt _ (by omega))
  have hsub : opponents cfg s vote seen ⊆ (Finset.range cfg.n).erase (cfg.leader s) := by
    intro i hi
    obtain ⟨hi, hne⟩ := Finset.mem_filter.1 hi
    refine Finset.mem_erase.2 ⟨?_, hin hi⟩
    rintro rfl
    exact hne rfl
  have hcard := Finset.card_le_card hsub
  rw [Finset.card_erase_of_mem hlead, Finset.card_range, hn] at hcard
  rw [Config.fastQuorumSize] at hq
  omega

/-- Five replicas of which only the leader refuses. -/
def onlyLeaderRefuses (i : ℕ) : LogEntryState := if i = 0 then .abort else .prepareOk

/-- The reply of a replica, with the mark of the slow path. -/
def voteReply (slow i : ℕ) : PrepareTransactionReply where
  tid := 7
  state := onlyLeaderRefuses i
  timestamp := 1
  shard := 0
  replica := i
  reachFaultTolerance := slow

/-- The refusal of the leader comes last. -/
def refusalLast : List PrepareTransactionReply := [1, 2, 3, 4].map (voteReply 0) ++ [voteReply 1 0]

/-- The refusal of the leader comes first. -/
def refusalFirst : List PrepareTransactionReply := voteReply 1 0 :: [1, 2, 3, 4].map (voteReply 0)

/-- The replies are honest, whatever their order. -/
theorem refusals_honest {ms : List PrepareTransactionReply} (h : ms ⊆ refusalLast) :
    ∀ m ∈ ms, Honest (oneShard 2 .carousel) 0 onlyLeaderRefuses m := by
  have hall : ∀ m ∈ refusalLast, m.replica < 5 ∧ m.state = onlyLeaderRefuses m.replica ∧
      (m.reachFaultTolerance = 1 → m.replica = 0) := by
    decide
  intro m hm
  obtain ⟨hlt, hstate, hlead⟩ := hall m (h hm)
  exact ⟨hlt, hstate, hlead⟩

/-- **The leader is not asked.** Four replicas accept, then the refusal of the leader arrives:
the client has heard of the leader and of four votes to accept, and reports success. -/
theorem outvoted_leader :
    (∀ m ∈ refusalLast, Honest (oneShard 2 .carousel) 0 onlyLeaderRefuses m) ∧
      answer ⟨oneShard 2 .carousel, 7⟩ { leader := 0, state := .commit } refusalLast = some 0 ∧
      onlyLeaderRefuses ((oneShard 2 .carousel).leader 0) ≠ .prepareOk :=
  ⟨refusals_honest (List.Subset.refl _), by decide, by decide⟩

theorem refusalFirst_answer :
    answer ⟨oneShard 2 .carousel, 7⟩ { leader := 0, state := .commit } refusalFirst = some 1 ∧
      ∀ a, answer ⟨oneShard 2 .carousel, 7⟩ { leader := 0, state := .commit } refusalFirst = some a →
        (a = 0 ↔ onlyLeaderRefuses 0 = .prepareOk) := by
  refine ⟨by decide, (carousel_answer_iff rfl rfl 0 onlyLeaderRefuses .commit refusalFirst
    (refusals_honest (by decide))).2 (by decide)⟩

end D2PC
