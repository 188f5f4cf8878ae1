import D2PC.Invariant.Kinds
import D2PC.Invariant.Run
import D2PC.Properties.Durability

/-!
# Asking for the result

The leader of the primary shard asks its coordinator for the result of a transaction with
`RequestCommitResult`, and the coordinator answers with `NotifyReplicateResult`, at once if
the result is known and otherwise when it announces the commit. The request does not say
which shard asks, and the coordinator believes it: it answers shard `0`, and forgets the
primary shard that the votes named. The vote that a cascading abort casts does the same.

* `Config.Named` : the steps where the coordinator is not misled. A request that is answered
  at once, or that meets a transaction with votes, names the primary shard (as it is `0`),
  and so does a vote of the second kind that settles the transaction;
* `result_answered_right` : in every such run of the parallel mode every answer goes to the
  leader of the primary shard, the transaction is recorded as committed, and the answer has
  the timestamp of the decision;
* `result_told_to_other_shard` : a run without the condition, where shard `3` asks and shard
  `0` is told.
-/

namespace D2PC

open Prog Ctx Coordinator

/-! ### The condition -/

/-- `shard` is the primary shard of the transaction, if the transaction has started. -/
def primaryIs (h : History) (tid : TxnId) (shard : ℕ) : Bool :=
  match startOf h tid with
  | none => true
  | some st => decide (shard = st.primary)

/-- All votes are in once this one is. -/
def settledBy (env : CoordinatorEnv) (ω : Choice) (s : Coordinator) (m : Vote) : Bool :=
  let req := votedCommit env ω (s.pendingCommits.lookup m.tid) m.tid m.participants
    m.primaryShard m.primaryCoordinator m.timestamp
  req.reachConsensus ||
    (collectVote { req with votes := req.votes.insert m.shard m.vote }).1

/-- A request that is answered, or that finds a transaction whose primary shard is known,
names this shard; a vote that settles a transaction does too. -/
def namesPrimary (env : CoordinatorEnv) (ω : Choice) (h : History) (s : Coordinator) : Msg → Bool
  | .requestCommitResult m =>
      match s.pendingCommits.lookup m.tid with
      | none => !decide (m.tid ∈ s.commitResults) || primaryIs h m.tid m.primaryShard
      | some req => decide (Table.size req.votes = 0) || decide (req.primaryShard = m.primaryShard)
  | .vote m =>
      decide (m.tid ∈ s.commitResults) || !settledBy env ω s m ||
        primaryIs h m.tid m.primaryShard
  | _ => true

/-- **No misleading message**: every message a coordinator handles names the primary shard. -/
def Config.Named (cfg : Config) : StepCond
  | w, .coordinator c, ω, .recv p =>
      namesPrimary ⟨cfg, c⟩ ω w.history (GlobalState.coordinator w c) p.msg = true
  | _, _, _, _ => True

instance (cfg : Config) (w : GlobalState) (n : Node) (ω : Choice) (i : Input Addr Msg Act) :
    Decidable (cfg.Named w n ω i) :=
  match n, i with
  | .coordinator _, .recv _ => inferInstanceAs (Decidable (_ = true))
  | .coordinator _, .act _ => .isTrue trivial
  | .client _, _ => .isTrue trivial
  | .replica _ _, _ => .isTrue trivial

/-! ### The invariant -/

/-- The client of `tid` started to commit. -/
def Started (h : History) (tid : TxnId) : Prop := ∃ st, startOf h tid = some st

/-- `shard` is the primary shard of `tid`. -/
def Primary (h : History) (tid : TxnId) (shard : ℕ) : Prop :=
  ∃ st, startOf h tid = some st ∧ shard = st.primary

/-- A pending transaction at coordinator `c`: at consensus it knows its primary shard. -/
structure Informed (cfg : Config) (c : ℕ) (h : History) (tid : TxnId) (req : PendingCommit) :
    Prop where
  started : Started h tid
  timestamp : req.timestamp = 0
  consensus : req.reachConsensus = true → Primary h tid req.primaryShard ∧
    Table.size req.votes ≠ 0 ∧ (Home cfg h tid c → req.state = .prepared)

/-- What holds of coordinator `c`. At the coordinator of the primary shard a transaction is
pending or decided, never both, and never aborted. -/
structure AnswerOk (cfg : Config) (c : ℕ) (h : History) (s : Coordinator) : Prop where
  pending : ∀ tid req, s.pendingCommits.lookup tid = some req → Informed cfg c h tid req ∧
    (Home cfg h tid c → tid ∉ s.commitResults)
  results : ∀ tid x, s.commitResults.lookup tid = some x → Started h tid ∧
    (Home cfg h tid c → x.2 = true ∧ x.1 ≠ .abort)
  announced : ∀ tid, (Node.coordinator c, Event.announced tid) ∈ h → tid ∈ s.commitResults

/-- The coordinator of the primary shard announced `tid`. -/
def HomeAnnounced (cfg : Config) (h : History) (tid : TxnId) (primary : ℕ) : Prop :=
  Primary h tid primary ∧ (Node.coordinator (primary % cfg.n), Event.announced tid) ∈ h

/-- What holds of a packet that tells a decision, or a vote. -/
def AnswerPacketOk (cfg : Config) (h : History) (p : Pkt) : Prop :=
  match p.msg with
  | .notifyReplicateResult m => m.timestamp = 0 ∧
      ∃ primary, p.dst = .replica primary (cfg.leader primary) ∧ HomeAnnounced cfg h m.tid primary
  | .replicateDecision m => m.timestamp = 0 ∧ ∃ primary, HomeAnnounced cfg h m.tid primary
  | .notifyDecision m => m.timestamp = 0
  | .replicateReplyAndVote m => m.timestamp = 0
  | .vote m => m.timestamp = 0
  | _ => True

def AnswerNodeOk (cfg : Config) (h : History) : (n : Node) → Local n → Prop
  | .coordinator c, s => AnswerOk cfg c h s
  | _, _ => True

/-- A coordinator that keeps the invariant. -/
abbrev Answers (cfg : Config) (c : ℕ) (h : History) : Ctx Coordinator Addr Msg Event → Prop :=
  Ctx.Good (AnswerOk cfg c) (AnswerPacketOk cfg) h (.coordinator c)

section Frames

variable {cfg : Config} {c : ℕ} {h es : History} {tid : TxnId} {req : PendingCommit}
  {s : Coordinator}

theorem Started.mono (hs : Started h tid) : Started (h ++ es) tid := by
  obtain ⟨st, hst⟩ := hs
  exact ⟨st, startOf_mono hst⟩

theorem Primary.mono {shard : ℕ} (hp : Primary h tid shard) : Primary (h ++ es) tid shard := by
  obtain ⟨st, hst, heq⟩ := hp
  exact ⟨st, startOf_mono hst, heq⟩

theorem Primary.started {shard : ℕ} (hp : Primary h tid shard) : Started h tid := by
  obtain ⟨st, hst, _⟩ := hp
  exact ⟨st, hst⟩

theorem Primary.unique {p q : ℕ} (hp : Primary h tid p) (hq : Primary h tid q) : p = q := by
  obtain ⟨st, hst, rfl⟩ := hp
  obtain ⟨st', hst', rfl⟩ := hq
  rw [hst] at hst'
  cases hst'
  rfl

/-- The coordinator of the primary shard has its index. -/
theorem Home.eq_mod {p : ℕ} (hhome : Home cfg h tid c) (hp : Primary h tid p) :
    c = p % cfg.n := by
  obtain ⟨st, hst, hc⟩ := hhome
  rw [hp.unique ⟨st, hst, rfl⟩]
  exact hc

/-- A transaction that has started does not move to another coordinator. -/
theorem Home.of_append (hs : Started h tid) (hhome : Home cfg (h ++ es) tid c) :
    Home cfg h tid c := by
  obtain ⟨st, hst⟩ := hs
  obtain ⟨st', hst', hc⟩ := hhome
  rw [startOf_mono hst] at hst'
  cases hst'
  exact ⟨st, hst, hc⟩

theorem Shape.primary {participants : List Shard} {primary : ℕ}
    (hp : Shape h tid participants primary) : Primary h tid primary := by
  obtain ⟨st, hst, heq, _⟩ := hp
  exact ⟨st, hst, heq⟩

theorem HomeAnnounced.mono {primary : ℕ} (ha : HomeAnnounced cfg h tid primary) :
    HomeAnnounced cfg (h ++ es) tid primary :=
  ⟨ha.1.mono, mem_mono ha.2⟩

theorem AnswerPacketOk.mono {p : Pkt} (hp : AnswerPacketOk cfg h p) :
    AnswerPacketOk cfg (h ++ es) p := by
  obtain ⟨src, dst, msg⟩ := p
  cases msg with
  | notifyReplicateResult m =>
      obtain ⟨h₁, primary, h₂, h₃⟩ := hp
      exact ⟨h₁, primary, h₂, h₃.mono⟩
  | replicateDecision m =>
      obtain ⟨h₁, primary, h₂⟩ := hp
      exact ⟨h₁, primary, h₂.mono⟩
  | _ => exact hp

theorem Informed.mono (hr : Informed cfg c h tid req) : Informed cfg c (h ++ es) tid req := by
  refine ⟨hr.started.mono, hr.timestamp, fun hcons => ?_⟩
  obtain ⟨hp, hv, hst⟩ := hr.consensus hcons
  exact ⟨hp.mono, hv, fun hhome => hst (hhome.of_append hr.started)⟩

theorem AnswerOk.extend (hs : AnswerOk cfg c h s) (es : History)
    (hes : ∀ tid, (Node.coordinator c, Event.announced tid) ∈ es → tid ∈ s.commitResults) :
    AnswerOk cfg c (h ++ es) s := by
  refine ⟨fun tid req hreq => ?_, fun tid x hx => ?_, fun tid hann => ?_⟩
  · obtain ⟨hinf, hopen⟩ := hs.pending tid req hreq
    exact ⟨hinf.mono, fun hhome => hopen (hhome.of_append hinf.started)⟩
  · obtain ⟨hst, hres⟩ := hs.results tid x hx
    exact ⟨hst.mono, fun hhome => hres (hhome.of_append hst)⟩
  · exact (List.mem_append.1 hann).elim (hs.announced tid) (hes tid)

theorem AnswerNodeOk.frame {n n' : Node} (hn : n ≠ n') (es : List Event) {x : Local n}
    (hx : AnswerNodeOk cfg h n x) : AnswerNodeOk cfg (h ++ es.map (n', ·)) n x := by
  cases n with
  | client tid => trivial
  | replica s i => trivial
  | coordinator c =>
      refine AnswerOk.extend hx _ fun tid hmem => ?_
      obtain ⟨_, _, heq⟩ := List.mem_map.1 hmem
      exact absurd (Prod.mk.inj heq).1.symm hn

theorem AnswerOk.setCommit (hs : AnswerOk cfg c h s) (hreq : Informed cfg c h tid req)
    (hopen : Home cfg h tid c → tid ∉ s.commitResults) :
    AnswerOk cfg c h { s with pendingCommits := s.pendingCommits.insert tid req } := by
  refine ⟨fun tid' req' hreq' => ?_, hs.results, hs.announced⟩
  rw [Table.lookup_insert_eq] at hreq'
  split_ifs at hreq' with htid
  · cases hreq'
    rw [htid]
    exact ⟨hreq, hopen⟩
  · exact hs.pending tid' req' hreq'

theorem AnswerOk.eraseCommit (hs : AnswerOk cfg c h s) (tid : TxnId) :
    AnswerOk cfg c h { s with pendingCommits := s.pendingCommits.erase tid } := by
  refine ⟨fun tid' req' hreq' => ?_, hs.results, hs.announced⟩
  rw [Table.lookup_erase_eq] at hreq'
  split_ifs at hreq'
  exact hs.pending tid' req' hreq'

/-- A decision is recorded: where the transaction is at home it is a commit, and no longer
pending. -/
theorem AnswerOk.setResult (hs : AnswerOk cfg c h s) {x : CommitResult × Bool}
    (hst : Started h tid) (hx : Home cfg h tid c → x.2 = true ∧ x.1 ≠ .abort)
    (hgone : Home cfg h tid c → s.pendingCommits.lookup tid = none) :
    AnswerOk cfg c h { s with commitResults := s.commitResults.insert tid x } := by
  refine ⟨fun t req hreq => ?_, fun t y hy => ?_, fun t hann => ?_⟩
  · obtain ⟨hinf, hopen⟩ := hs.pending t req hreq
    refine ⟨hinf, fun hhome hmem => ?_⟩
    rcases (AList.mem_insert _).1 hmem with rfl | hold
    · rw [hgone hhome] at hreq
      cases hreq
    · exact hopen hhome hold
  · rw [Table.lookup_insert_eq] at hy
    split_ifs at hy with ht
    · cases hy
      rw [ht]
      exact ⟨hst, hx⟩
    · exact hs.results t y hy
  · exact (AList.mem_insert _).2 (.inr (hs.announced t hann))

end Frames

/-! ### Steps of a coordinator -/

namespace Coordinator

variable {cfg : Config} {c : ℕ} {h : History} {x : Ctx Coordinator Addr Msg Event}
  {ω : Choice} {tid : TxnId} {req : PendingCommit}

/-- An answer goes to the primary shard, after the decision was recorded. -/
theorem notifyReplicateResult_answers (hx : Answers cfg c h x)
    (hrec : req.tid ∈ x.state.commitResults) (hts : req.timestamp = 0)
    (hprimary : Primary (past h (.coordinator c) x) req.tid req.primaryShard)
    (hhome : Home cfg (past h (.coordinator c) x) req.tid c) :
    wp (notifyReplicateResult ⟨cfg, c⟩ req) (fun _ => Answers cfg c h) (Answers cfg c h) x := by
  have hc := hhome.eq_mod hprimary
  simp only [notifyReplicateResult, wp_bind, wp_emit, wp_send]
  have hx₁ := hx.emit (fun _ _ _ => AnswerPacketOk.mono) (hx.node.extend
    [(Node.coordinator c, Event.announced req.tid)] fun t ht => by
      cases List.mem_singleton.1 ht
      exact hrec)
  have hann : HomeAnnounced cfg (past h (.coordinator c)
      { x with events := x.events ++ [.announced req.tid] }) req.tid req.primaryShard := by
    refine ⟨?_, ?_⟩
    · rw [past_emit]
      exact hprimary.mono
    · rw [← hc]
      exact mem_past_emit _
  have hx₂ := hx₁.send_one (p := ⟨.sendOnly, .replica req.primaryShard c, .notifyReplicateResult
    { tid := req.tid, replicateSuccess := true, timestamp := req.timestamp }⟩)
    ⟨hts, req.primaryShard, congrArg _ hc, hann⟩
  refine hx₂.send fun p hp => ?_
  obtain ⟨i, _, rfl⟩ := List.mem_map.1 hp
  exact ⟨hts, req.primaryShard, hann⟩

/-- The announcement records a commit and forgets the transaction. -/
theorem announce_answers (tid : TxnId) (hx : Answers cfg c h x)
    (hr : CommitOk cfg c (past h (.coordinator c) x) tid req)
    (hinf : Informed cfg c (past h (.coordinator c) x) tid req) {result : CommitResult}
    (hcons : req.reachConsensus = true) (htol : req.reachFaultTolerance = true)
    (hres : result ≠ .abort) :
    wp (announce ⟨cfg, c⟩ req result) (fun _ => Answers cfg c h) (Answers cfg c h) x := by
  obtain ⟨_, hhome, _⟩ := hr.tolerance htol
  obtain ⟨hprimary, _, _⟩ := hinf.consensus hcons
  obtain rfl := hr.id
  simp only [announce, record, eraseCommit, wp_bind, wp_update, wp_emit]
  -- the entry is erased last, but only the context at the end has to be good
  have hfin := ((hx.node.eraseCommit req.tid).setResult (x := (result, true)) hinf.started
    (fun _ => ⟨rfl, hres⟩) fun _ => AList.lookup_erase _ _).extend
      [(Node.coordinator c, Event.recorded req.tid result)] fun t ht => by
        cases List.mem_singleton.1 ht
  have hx₁ := hx.record (fun _ _ _ => AnswerPacketOk.mono) hfin
  have hx₂ : Answers cfg c h _ := notifyReplicateResult_answers hx₁
    ((AList.mem_insert _).2 (.inl rfl)) hinf.timestamp (by rw [past_emit]; exact hprimary.mono)
    (by rw [past_emit]; exact hhome.mono)
  exact hx₂

/-! ### Votes -/

theorem size_le_allPrepared (votes : Table Shard CommitResult) (ps : List Shard) :
    Table.size votes ≤ Table.size (allPrepared votes ps).2 := by
  induction ps with
  | nil => exact le_rfl
  | cons p ps ih =>
      simp only [allPrepared]
      cases votes.lookup p with
      | none => exact Table.size_le_insert votes p .commit
      | some v =>
          dsimp only
          split_ifs
          · exact ih
          · exact le_rfl

/-- What a round of counting leaves alone. -/
theorem collectVote_frame (req : PendingCommit) :
    (collectVote req).2.timestamp = req.timestamp ∧
      (collectVote req).2.primaryShard = req.primaryShard ∧
      Table.size req.votes ≤ Table.size (collectVote req).2.votes ∧
      ((collectVote req).1 = false → (collectVote req).2.reachConsensus = req.reachConsensus ∧
        (collectVote req).2.state = req.state) := by
  have hsize := size_le_allPrepared req.votes req.participants
  simp only [collectVote, reachConsensus]
  by_cases hlen : Table.size req.votes = req.participants.length
  · simp only [hlen, ne_eq, not_true_eq_false, if_false]
    rw [hlen] at hsize
    cases (allPrepared req.votes req.participants).1 with
    | true => exact ⟨rfl, rfl, hsize, fun h => by cases h⟩
    | false => exact ⟨rfl, rfl, hsize, fun _ => ⟨rfl, rfl⟩⟩
  · simp only [ne_eq, hlen, not_false_eq_true, if_true]
    exact ⟨rfl, rfl, le_rfl, fun _ => ⟨rfl, rfl⟩⟩

theorem newCommit_informed (hst : Started h tid) (participants : List Shard)
    (primaryShard primaryCoordinator : ℕ) {timestamp : ℕ} (hts : timestamp = 0) :
    Informed cfg c h tid { newCommit ⟨cfg, c⟩ ω tid with
      primaryShard := primaryShard
      primaryCoordinator := primaryCoordinator
      participants := participants
      timestamp := timestamp } :=
  ⟨hst, hts, fun h => by cases h⟩

theorem learnParticipants_informed (hinf : Informed cfg c h tid req)
    (participants : List Shard) : Informed cfg c h tid (learnParticipants req participants) := by
  unfold learnParticipants
  split_ifs
  · exact ⟨hinf.started, hinf.timestamp, hinf.consensus⟩
  · exact hinf

theorem votedCommit_primaryShard (env : CoordinatorEnv) (pending : Option PendingCommit)
    (participants : List Shard) (primaryShard primaryCoordinator timestamp : ℕ) :
    (votedCommit env ω pending tid participants primaryShard primaryCoordinator
      timestamp).primaryShard = primaryShard := by
  cases pending <;> rfl

/-- A vote names the primary shard, or leaves the transaction without consensus. -/
theorem votedCommit_informed (ω : Choice) {pending : Option PendingCommit}
    (hpend : ∀ req, pending = some req → Informed cfg c h tid req) (hst : Started h tid)
    (participants : List Shard) (primaryShard primaryCoordinator : ℕ) {timestamp : ℕ}
    (hts : timestamp = 0)
    (hnamed : (votedCommit ⟨cfg, c⟩ ω pending tid participants primaryShard primaryCoordinator
      timestamp).reachConsensus = true → Primary h tid primaryShard) :
    Informed cfg c h tid (votedCommit ⟨cfg, c⟩ ω pending tid participants primaryShard
      primaryCoordinator timestamp) := by
  cases pending with
  | none => exact newCommit_informed hst _ _ _ hts
  | some req =>
      have hinf := learnParticipants_informed (hpend req rfl) participants
      refine ⟨hst, ?_, fun hcons => ⟨hnamed hcons, (hinf.consensus hcons).2⟩⟩
      show max req.timestamp timestamp = 0
      rw [(hpend req rfl).timestamp, hts]
      rfl

/-- A vote is entered. -/
theorem vote_informed (hinf : Informed cfg c h tid req) (s : Shard) (v : CommitResult)
    (deps : Table Shard Bool) :
    Informed cfg c h tid { req with
      votes := req.votes.insert s v
      dependencies := deps } := by
  refine ⟨hinf.started, hinf.timestamp, fun hcons => ?_⟩
  obtain ⟨h₁, _, h₃⟩ := hinf.consensus hcons
  exact ⟨h₁, Table.size_ne_zero ((AList.mem_insert _).2 (.inl rfl)), h₃⟩

/-- A vote is counted. -/
theorem collectVote_informed (hinf : Informed cfg c h tid req) {s : Shard} {v : CommitResult}
    (hr : CommitOk cfg c h tid req) (hv : req.votes.lookup s = some v)
    (hnamed : (collectVote req).1 = true → Primary h tid req.primaryShard) :
    Informed cfg c h tid (collectVote req).2 := by
  obtain ⟨hts, hprimary, hsize, hkeep⟩ := collectVote_frame req
  obtain ⟨_, hreach⟩ := collectVote_ok hr hv
  refine ⟨hinf.started, hts.trans hinf.timestamp, fun hcons => ?_⟩
  rw [hprimary]
  cases hreached : (collectVote req).1 with
  | true =>
      refine ⟨hnamed hreached, fun hzero => ?_, fun _ => (hreach hreached).2⟩
      exact Table.size_ne_zero (AList.lookup_isSome.1 (by rw [hv]; rfl))
        (Nat.le_zero.1 (hzero ▸ hsize))
  | false =>
      obtain ⟨hold, hstate⟩ := hkeep hreached
      obtain ⟨h₁, h₂, h₃⟩ := hinf.consensus (hold ▸ hcons)
      refine ⟨h₁, fun hzero => h₂ (Nat.le_zero.1 (hzero ▸ hsize)), fun hhome => ?_⟩
      exact hstate.trans (h₃ hhome)

theorem notifyCommitDecision_answers (hx : Answers cfg c h x) (hts : req.timestamp = 0) :
    wp (notifyCommitDecision ⟨cfg, c⟩ req) (fun _ => Answers cfg c h) (Answers cfg c h) x := by
  refine hx.send fun p hp => ?_
  obtain ⟨q, _, rfl⟩ := List.mem_map.1 hp
  exact hts

/-- After a vote was entered. -/
theorem tallyVote_answers (hx : Answers cfg c h x) {s : Shard} {v : CommitResult}
    {free : PendingCommit → Bool} (hr : CommitOk cfg c (past h (.coordinator c) x) tid req)
    (hinf : Informed cfg c (past h (.coordinator c) x) tid req)
    (hv : req.votes.lookup s = some v)
    (hopen : Home cfg (past h (.coordinator c) x) tid c → tid ∉ x.state.commitResults)
    (hnamed : (collectVote req).1 = true →
      Primary (past h (.coordinator c) x) tid req.primaryShard) :
    wp (tallyVote ⟨cfg, c⟩ tid req free) (fun _ => Answers cfg c h) (Answers cfg c h) x := by
  obtain ⟨hr', hreach⟩ := collectVote_ok hr hv
  have hinf' := collectVote_informed hinf hr hv hnamed
  have hx₁ := hx.update (hx.node.setCommit hinf' hopen)
  simp only [tallyVote, wp_bind, setCommit, wp_update, wp_when, Bool.and_eq_true]
  refine ⟨fun hreached => ?_, fun _ => hx₁⟩
  obtain ⟨hcons, hstate⟩ := hreach hreached
  have hx₂ := notifyCommitDecision_answers hx₁ hinf'.timestamp
  refine ⟨fun hready => ?_, fun _ => hx₂⟩
  exact announce_answers tid hx₂ hr' hinf' hcons hready.1.2 (by rw [hstate]; intro h; cases h)

/-! ### Replies -/

theorem addReply_informed (hinf : Informed cfg c h tid req) (reply : BypassLeaderReply) :
    Informed cfg c h tid (addReply req reply).2 := by
  simp only [addReply]
  split_ifs
  · exact ⟨hinf.started, hinf.timestamp, hinf.consensus⟩
  · exact ⟨hinf.started, hinf.timestamp, hinf.consensus⟩

theorem collectReply_informed (hinf : Informed cfg c h tid req) (new : Bool) :
    Informed cfg c h tid (collectReply new req).2 := by
  simp only [collectReply]
  split_ifs
  · exact ⟨hinf.started, hinf.timestamp, hinf.consensus⟩
  · exact hinf

/-! ### One step for each message -/

section Steps

variable {s : Coordinator} {src dst : Addr}

theorem handleReplicateReplyAndVote_answers (hs : CoordinatorOk cfg c h s)
    (ha : AnswerOk cfg c h s) {msg : ReplicateReplyAndVote}
    (hp : PacketOk cfg h ⟨src, dst, .replicateReplyAndVote msg⟩) (hts : msg.timestamp = 0) :
    wp (handleReplicateReplyAndVote ⟨cfg, c⟩ ω msg) (fun _ => Answers cfg c h)
      (Answers cfg c h) { state := s } := by
  obtain ⟨_, hvote, hacc, _, _, hshape, _⟩ := hp
  have hx : Answers cfg c h { state := s } := Good.start ha
  have hr := votedCommit_ok ω (fun req hreq => hs.pending msg.tid req hreq)
    (.inr ⟨_, hshape⟩) msg.primaryShard msg.primaryCoordinator msg.timestamp
  have hinf := votedCommit_informed ω (fun req hreq => (ha.pending msg.tid req hreq).1)
    hshape.primary.started msg.participants msg.primaryShard msg.primaryCoordinator hts
    fun _ => hshape.primary
  simp only [handleReplicateReplyAndVote, wp_bind, wp_read, wp_ite, wp_pure, setCommit, wp_update,
    if_pos hvote, wp_send]
  refine ⟨fun _ => hx, fun hopen => ?_⟩
  have hx₁ := hx.update (by rw [past_start]; exact ha.setCommit hinf fun _ => hopen)
  refine wp_mono (fun _ x' hx' => hx'.send_one trivial) (fun _ hd => hd)
    (tallyVote_answers hx₁ ?_ ?_ (AList.lookup_insert _) (fun _ => hopen) fun _ => ?_)
  · rw [past_state, past_start]
    exact vote_ok hr hacc _
  · rw [past_state, past_start]
    exact vote_informed hinf _ _ _
  · rw [past_state, past_start, votedCommit_primaryShard]
    exact hshape.primary

theorem handleVote_answers (hs : CoordinatorOk cfg c h s) (ha : AnswerOk cfg c h s) {msg : Vote}
    (hp : PacketOk cfg h ⟨src, dst, .vote msg⟩) (hts : msg.timestamp = 0)
    (hst : Started h msg.tid) (hnamed : namesPrimary ⟨cfg, c⟩ ω h s (.vote msg) = true) :
    wp (handleVote ⟨cfg, c⟩ ω msg) (fun _ => Answers cfg c h) (Answers cfg c h)
      { state := s } := by
  obtain ⟨_, hvote, hnil, hacc⟩ := hp
  have hx : Answers cfg c h { state := s } := Good.start ha
  simp only [handleVote, wp_bind, wp_read, wp_ite, wp_pure, setCommit, wp_update, if_pos hvote]
  refine ⟨fun _ => hx, fun hopen => ?_⟩
  -- a vote that settles the transaction names its primary shard
  have hsettled : settledBy ⟨cfg, c⟩ ω s msg = true → Primary h msg.tid msg.primaryShard := by
    intro hsettled
    simp only [namesPrimary, decide_eq_false hopen, hsettled, Bool.not_true, Bool.false_or,
      primaryIs] at hnamed
    obtain ⟨st, hst⟩ := hst
    rw [hst] at hnamed
    exact ⟨st, hst, of_decide_eq_true hnamed⟩
  have hr := votedCommit_ok ω (fun req hreq => hs.pending msg.tid req hreq)
    (.inl hnil) msg.primaryShard msg.primaryCoordinator msg.timestamp
  have hinf := votedCommit_informed ω (fun req hreq => (ha.pending msg.tid req hreq).1)
    hst msg.participants msg.primaryShard msg.primaryCoordinator hts
    fun hcons => hsettled (by simp only [settledBy, hcons, Bool.true_or])
  have hx₁ := hx.update (by rw [past_start]; exact ha.setCommit hinf fun _ => hopen)
  refine tallyVote_answers hx₁ ?_ ?_ (AList.lookup_insert _) (fun _ => hopen) fun hreached => ?_
  · rw [past_state, past_start]
    exact vote_ok hr hacc _
  · rw [past_state, past_start]
    exact vote_informed hinf _ _ _
  · rw [past_state, past_start, votedCommit_primaryShard]
    exact hsettled (by simp only [settledBy, hreached, Bool.or_true])

theorem handleBypassLeaderReply_answers (hs : CoordinatorOk cfg c h s) (ha : AnswerOk cfg c h s)
    {msg : BypassLeaderReply}
    (hp : PacketOk cfg h ⟨src, .coordinator c, .bypassLeaderReply msg⟩) :
    wp (handleBypassLeaderReply ⟨cfg, c⟩ ω msg) (fun _ => Answers cfg c h)
      (Answers cfg c h) { state := s } := by
  obtain ⟨_, c', hdst, hhome, hlog, hmem⟩ := hp
  cases hdst
  have hx : Answers cfg c h { state := s } := Good.start ha
  have hst : Started h msg.tid := by
    obtain ⟨st, hst, _⟩ := hmem
    exact ⟨st, hst⟩
  have hold : CommitOk cfg c h msg.tid
        ((s.pendingCommits.lookup msg.tid).getD (newCommit ⟨cfg, c⟩ ω msg.tid)) ∧
      Informed cfg c h msg.tid
        ((s.pendingCommits.lookup msg.tid).getD (newCommit ⟨cfg, c⟩ ω msg.tid)) := by
    cases hreq : s.pendingCommits.lookup msg.tid with
    | none => exact ⟨newCommit_ok ⟨cfg, c⟩ rfl (.inl rfl) _ _ _, newCommit_informed hst _ _ _ rfl⟩
    | some req => exact ⟨hs.pending _ req hreq, (ha.pending _ req hreq).1⟩
  simp only [handleBypassLeaderReply, wp_bind, wp_read, wp_ite, wp_pure, setCommit, wp_update,
    wp_when, Bool.and_eq_true]
  refine ⟨fun _ => hx, fun hopen => ?_⟩
  obtain ⟨hr, htol⟩ := collectReply_ok (addReply_ok hold.1 hhome hlog hmem)
    (addReply ((s.pendingCommits.lookup msg.tid).getD (newCommit ⟨cfg, c⟩ ω msg.tid)) msg).1
  have hinf := collectReply_informed (addReply_informed hold.2 msg)
    (addReply ((s.pendingCommits.lookup msg.tid).getD (newCommit ⟨cfg, c⟩ ω msg.tid)) msg).1
  have hx₁ := hx.update (by rw [past_start]; exact ha.setCommit hinf fun _ => hopen)
  refine ⟨fun hready => ?_, fun _ => hx₁⟩
  refine announce_answers msg.tid hx₁ ?_ ?_ hready.1.2 (htol hready.1.1) (fun h => by cases h)
  · rw [past_state, past_start]
    exact hr
  · rw [past_state, past_start]
    exact hinf

theorem handleNotifyDependenciesAreCleared_answers (hs : CoordinatorOk cfg c h s)
    (ha : AnswerOk cfg c h s) (msg : NotifyDependenciesAreCleared) :
    wp (handleNotifyDependenciesAreCleared ⟨cfg, c⟩ msg) (fun _ => Answers cfg c h)
      (Answers cfg c h) { state := s } := by
  have hx : Answers cfg c h { state := s } := Good.start ha
  simp only [handleNotifyDependenciesAreCleared, wp_bind, wp_read]
  cases hreq : s.pendingCommits.lookup msg.tid with
  | none => exact hx
  | some req =>
      have hold := hs.pending _ req hreq
      obtain ⟨hinf, hopen⟩ := ha.pending _ req hreq
      have hr : CommitOk cfg c h msg.tid
          { req with dependencies := req.dependencies.insert msg.shard false } :=
        ⟨hold.id, hold.majority, hold.participants, hold.votes, hold.replies, hold.consensus,
          hold.tolerance⟩
      have hinf' : Informed cfg c h msg.tid
          { req with dependencies := req.dependencies.insert msg.shard false } :=
        ⟨hinf.started, hinf.timestamp, hinf.consensus⟩
      have hx₁ := hx.update (by rw [past_start]; exact ha.setCommit hinf' hopen)
      simp only [wp_bind, setCommit, wp_update, wp_when, Bool.and_eq_true]
      refine ⟨fun hready => ?_, fun _ => hx₁⟩
      have hstate := (hinf.consensus hready.1.2).2.2 (hold.tolerance hready.2).2.1
      refine announce_answers msg.tid hx₁ ?_ ?_ hready.1.2 hready.2 (by rw [hstate]; intro h; cases h)
      · rw [past_state, past_start]
        exact hr
      · rw [past_state, past_start]
        exact hinf'

/-- A decision that was shipped finds the transaction pending only away from home. -/
theorem handleReplicateDecision_answers (ha : AnswerOk cfg c h s) {msg : ReplicateDecision}
    (hp : AnswerPacketOk cfg h ⟨src, dst, .replicateDecision msg⟩) :
    wp (handleReplicateDecision ⟨cfg, c⟩ msg) (fun _ => Answers cfg c h)
      (Answers cfg c h) { state := s } := by
  obtain ⟨_, primary, hprimary, hann⟩ := hp
  have hx : Answers cfg c h { state := s } := Good.start ha
  simp only [handleReplicateDecision, wp_bind, wp_read]
  cases hreq : s.pendingCommits.lookup msg.tid with
  | none => exact hx
  | some req =>
      obtain ⟨hinf, hopen⟩ := ha.pending _ req hreq
      have haway : ¬ Home cfg h msg.tid c := by
        intro hhome
        rw [← hhome.eq_mod hprimary] at hann
        exact hopen hhome (ha.announced _ hann)
      have hinf' : Informed cfg c h msg.tid { req with state := msg.state } :=
        ⟨hinf.started, hinf.timestamp, fun hcons => ⟨(hinf.consensus hcons).1,
          (hinf.consensus hcons).2.1, fun hhome => absurd hhome haway⟩⟩
      have ha₁ := ((ha.setCommit hinf' fun hhome => absurd hhome haway).setResult
        (x := (if msg.state = .commit then .commit else .abort, false)) hinf.started
        (fun hhome => absurd hhome haway) fun hhome => absurd hhome haway).extend
          [(Node.coordinator c, Event.recorded msg.tid
            (if msg.state = .commit then .commit else .abort))] fun t ht => by
              cases List.mem_singleton.1 ht
      have hx₁ := hx.record (fun _ _ _ => AnswerPacketOk.mono) (by rw [past_start]; exact ha₁)
      simp only [wp_bind, setCommit, record, wp_update, wp_emit, wp_send, wp_when, eraseCommit]
      have hx₂ := hx₁.send_one (p := ⟨.coordinator c, .coordinator (req.primaryShard % cfg.n),
        .replyDecision { tid := msg.tid, coordinatorId := c, timestamp := req.timestamp }⟩) trivial
      exact ⟨fun _ => hx₂.update (hx₂.node.eraseCommit msg.tid), fun _ => hx₂⟩

theorem handleReplyDecision_answers (ha : AnswerOk cfg c h s) (msg : ReplyDecision) :
    wp (handleReplyDecision msg) (fun _ => Answers cfg c h) (Answers cfg c h)
      { state := s } := by
  have hx : Answers cfg c h { state := s } := Good.start ha
  simp only [handleReplyDecision, wp_bind, wp_read]
  cases hreq : s.pendingCommits.lookup msg.tid with
  | none => exact hx
  | some req =>
      obtain ⟨hinf, hopen⟩ := ha.pending _ req hreq
      have hinf' : Informed cfg c h msg.tid { req with
          commitDecisionReplies := insert msg.coordinatorId req.commitDecisionReplies } :=
        ⟨hinf.started, hinf.timestamp, hinf.consensus⟩
      have hx₁ := hx.update (by rw [past_start]; exact ha.setCommit hinf' hopen)
      simp only [wp_ite, wp_pure, wp_bind, setCommit, eraseCommit, wp_update, wp_when]
      exact ⟨fun _ => hx, fun _ => ⟨fun _ => hx₁.update (hx₁.node.eraseCommit msg.tid),
        fun _ => hx₁⟩⟩

/-- The request itself. -/
theorem handleRequestCommitResult_answers (ha : AnswerOk cfg c h s) {msg : RequestCommitResult}
    (hp : PacketOk cfg h ⟨src, .coordinator c, .requestCommitResult msg⟩)
    (hnamed : namesPrimary ⟨cfg, c⟩ ω h s (.requestCommitResult msg) = true) :
    wp (handleRequestCommitResult ⟨cfg, c⟩ ω msg) (fun _ => Answers cfg c h)
      (Answers cfg c h) { state := s } := by
  obtain ⟨_, c', primary, hdst, hc, hshape⟩ := hp
  cases hdst
  have hprimary := hshape.primary
  have hx : Answers cfg c h { state := s } := Good.start ha
  simp only [namesPrimary] at hnamed
  simp only [handleRequestCommitResult, wp_bind, wp_read]
  cases hreq : s.pendingCommits.lookup msg.tid with
  | none =>
      simp only [hreq, Bool.or_eq_true, Bool.not_eq_true', decide_eq_false_iff_not] at hnamed
      simp only [wp_bind, wp_read, wp_ite, setCommit, wp_update]
      refine ⟨fun hres => ?_, fun hres => ?_⟩
      · have hright : Primary h msg.tid msg.primaryShard := by
          obtain ⟨st, hst, _⟩ := hprimary
          have := hnamed.resolve_left fun hn => hn hres
          rw [primaryIs, hst] at this
          exact ⟨st, hst, of_decide_eq_true this⟩
        refine notifyReplicateResult_answers hx hres rfl ?_ ?_
        · rw [past_start]
          exact hright
        · rw [past_start]
          obtain ⟨st, hst, rfl⟩ := hprimary
          exact ⟨st, hst, hc⟩
      · refine hx.update ?_
        rw [past_start]
        exact ha.setCommit (newCommit_informed hprimary.started _ _ _ rfl) fun _ => hres
  | some req =>
      simp only [hreq, Bool.or_eq_true, decide_eq_true_eq] at hnamed
      obtain ⟨hinf, hopen⟩ := ha.pending _ req hreq
      have hlearned := learnParticipants_informed hinf msg.participants
      refine hx.update ?_
      rw [past_start]
      refine ha.setCommit ⟨hlearned.started, hlearned.timestamp, fun hcons => ?_⟩ hopen
      obtain ⟨h₁, h₂, h₃⟩ := hlearned.consensus hcons
      refine ⟨?_, h₂, h₃⟩
      have hsame : (learnParticipants req msg.participants).votes = req.votes ∧
          (learnParticipants req msg.participants).primaryShard = req.primaryShard := by
        unfold learnParticipants
        split_ifs <;> exact ⟨rfl, rfl⟩
      rw [hsame.1] at h₂
      rw [hsame.2, hnamed.resolve_left h₂] at h₁
      exact h₁

/-- **A step of a coordinator** that is not misled. -/
theorem handleInput_answers (hs : CoordinatorOk cfg c h s) (ha : AnswerOk cfg c h s)
    {input : Input Addr Msg Act}
    (hp : ∀ p, input = .recv p → PacketOk cfg h p ∧ AnswerPacketOk cfg h p ∧
      p.dst = .coordinator c ∧ namesPrimary ⟨cfg, c⟩ ω h s p.msg = true ∧
      ∀ m, p.msg = .vote m → Started h m.tid) :
    wp (handleInput ⟨cfg, c⟩ ω input) (fun _ => Answers cfg c h) (Answers cfg c h)
      { state := s } := by
  have hx : Answers cfg c h { state := s } := Good.start ha
  cases input with
  | act a => exact hx
  | recv p =>
      obtain ⟨hok, hpkt, hdst, hnamed, hvote⟩ := hp p rfl
      obtain ⟨src, dst, msg⟩ := p
      obtain rfl : dst = .coordinator c := hdst
      cases msg with
      | replicateReplyAndVote m => exact handleReplicateReplyAndVote_answers hs ha hok hpkt
      | bypassLeaderReply m => exact handleBypassLeaderReply_answers hs ha hok
      | vote m => exact handleVote_answers hs ha hok hpkt (hvote m rfl) hnamed
      | notifyDependenciesAreCleared m =>
          exact handleNotifyDependenciesAreCleared_answers hs ha m
      | replicateDecision m => exact handleReplicateDecision_answers ha hpkt
      | replyDecision m => exact handleReplyDecision_answers ha m
      | requestCommitResult m => exact handleRequestCommitResult_answers ha hok hnamed
      | bypassLeaderReplyUnion m => exact absurd hok id
      | notifyDecisionToPrimary m => exact absurd hok id
      | getData m => exact hx
      | getDataReply m => exact hx
      | prepareTransaction m => exact hx
      | prepareTransactionReply m => exact hx
      | replicateTransaction m => exact hx
      | replicateTransactionReply m => exact hx
      | replicateCommit m => exact hx
      | parallelModeCommit m => exact hx
      | parallelModeCommitReply m => exact hx
      | commit m => exact hx
      | notifyDecision m => exact hx
      | notifyReplicateResult m => exact hx

end Steps

end Coordinator

/-! ### Every run -/

variable {cfg : Config} {w : GlobalState}

/-- The packets of clients tell no decisions. -/
theorem Msg.ofClient.answer {p : Pkt} {h : History} (hp : p.msg.ofClient) :
    AnswerPacketOk cfg h p := by
  obtain ⟨src, dst, msg⟩ := p
  cases msg with
  | getData m => trivial
  | prepareTransaction m => trivial
  | parallelModeCommit m => trivial
  | commit m => trivial
  | _ => exact absurd hp id

/-- The packets of replicas tell no decisions, and votes without a timestamp. -/
theorem Msg.ofReplica.answer {p : Pkt} {h : History} (hp : p.msg.ofReplica) :
    AnswerPacketOk cfg h p := by
  obtain ⟨src, dst, msg⟩ := p
  cases msg with
  | notifyReplicateResult m => exact absurd hp id
  | replicateDecision m => exact absurd hp id
  | notifyDecision m => exact absurd hp id
  | replicateReplyAndVote m => exact hp
  | vote m => exact hp.1
  | _ => trivial

theorem AnswerNodeOk.init (n : Node) : AnswerNodeOk cfg [] n (cfg.init n) := by
  cases n with
  | client tid => trivial
  | replica s i => trivial
  | coordinator c =>
      refine ⟨fun tid req hreq => ?_, fun tid x hx => ?_, fun _ h => by cases h⟩
      · exact absurd hreq (by simp [Config.init])
      · exact absurd hx (by simp [Config.init])

/-- **The invariant** of the runs without a misleading message. -/
theorem Config.answers (hpar : cfg.mode = .parallel) (hw : cfg.system.Reach cfg.Named w) :
    (∀ n, AnswerNodeOk cfg w.history n (w.state n)) ∧
      ∀ p ∈ w.net, AnswerPacketOk cfg w.history p := by
  refine hw.invariant AnswerNodeOk.init (fun _ _ _ => AnswerPacketOk.mono)
    (fun _ _ _ es _ hn => AnswerNodeOk.frame hn es) ?_
  intro (w : GlobalState) n ω input hw hnode hpkt hen hnamed
  obtain ⟨hinv, hinvp⟩ := Config.invariant (.inr (.inl hpar)) hw
  cases n with
  | client tid =>
      exact (Client.handleInput_sends ⟨cfg, tid⟩ ω input).good (fun _ _ => trivial)
        (fun _ _ => trivial) fun hp => Msg.ofClient.answer hp.1
  | replica s i =>
      exact (Replica.handleInput_sends ⟨cfg, s, i⟩ ω input).good (fun _ _ => trivial)
        (fun _ _ => trivial) Msg.ofReplica.answer
  | coordinator c =>
      refine Coordinator.handleInput_answers (hinv (.coordinator c)) (hnode (.coordinator c))
        fun p hp => ?_
      subst hp
      refine ⟨hinvp p hen.2.1, hpkt p hen.2.1, Config.owner_coordinator hen.2.2, hnamed,
        fun m hm => ?_⟩
      have hok := hinvp p hen.2.1
      simp only [PacketOk, hm] at hok
      obtain ⟨_, _, _, ⟨⟨wset, hv⟩, _⟩⟩ := hok
      have hrep : ReplicaOk cfg m.shard (cfg.leader m.shard) w.history
          (w.replica m.shard (cfg.leader m.shard)) := hinv (cfg.leaderNode m.shard)
      obtain ⟨st, hst, _⟩ : Piece w.history m.tid m.shard wset := hrep.events _ hv
      exact ⟨st, hst⟩

/-- What an answer should be: it goes to the leader of the primary shard, which is where the
client sent `ParallelModeCommit` and who asked; success is told only of a transaction that
the coordinator of this shard recorded as tolerating faults and not as aborted; the
timestamp is that of the decision, as it was told to the leaders and the coordinators. -/
structure AnsweredRight (cfg : Config) (w : GlobalState) (p : Pkt) (m : NotifyReplicateResult) :
    Prop where
  primary : ∃ st, startOf w.history m.tid = some st ∧
    p.dst = .replica st.primary (cfg.leader st.primary) ∧
    (m.replicateSuccess = true → ∃ result, result ≠ .abort ∧
      (w.coordinator (cfg.leader st.primary)).commitResults.lookup m.tid = some (result, true))
  asked : ∀ q ∈ w.net, ∀ k, q.msg = .parallelModeCommit k → k.tid = m.tid → q.dst = p.dst
  timestamp : ∀ q ∈ w.net,
    (∀ k, q.msg = .notifyDecision k → k.tid = m.tid → k.timestamp = m.timestamp) ∧
    ∀ k, q.msg = .replicateDecision k → k.tid = m.tid → k.timestamp = m.timestamp

/-- A request that is not misleading leaves the primary shard of a transaction with votes. -/
theorem primary_kept {c : ℕ} {ω : Choice} {p : Pkt} {m : RequestCommitResult}
    {req : PendingCommit} (hm : p.msg = .requestCommitResult m)
    (hnamed : cfg.Named w (.coordinator c) ω (.recv p))
    (hreq : (w.coordinator c).pendingCommits.lookup m.tid = some req)
    (hvotes : Table.size req.votes ≠ 0) :
    ∃ req', (GlobalState.coordinator (cfg.system.next w (.coordinator c) ω (.recv p)) c
      ).pendingCommits.lookup m.tid = some req' ∧ req'.primaryShard = req.primaryShard := by
  simp only [Config.Named, namesPrimary, hm, hreq, Bool.or_eq_true, decide_eq_true_eq] at hnamed
  refine ⟨{ learnParticipants req m.participants with primaryShard := m.primaryShard }, ?_,
    (hnamed.resolve_left hvotes).symm⟩
  have hhandle : cfg.system.handle (.coordinator c) ω (.recv p) { state := w.coordinator c } =
      .done () { state := { w.coordinator c with
        pendingCommits := (w.coordinator c).pendingCommits.insert m.tid
          { learnParticipants req m.participants with primaryShard := m.primaryShard } } } := by
    show Coordinator.handleMessage ⟨cfg, c⟩ ω p.msg _ = _
    rw [hm]
    show Coordinator.handleRequestCommitResult ⟨cfg, c⟩ ω m _ = _
    simp only [Coordinator.handleRequestCommitResult, bind, Ctx.read, Prog.gets, hreq]
    rfl
  have hnext : GlobalState.coordinator (cfg.system.next w (.coordinator c) ω (.recv p)) c =
      (cfg.system.handle (.coordinator c) ω (.recv p) { state := w.coordinator c }).state.state :=
    Function.update_self ..
  rw [hnext, hhandle]
  exact AList.lookup_insert _

/-- **The result is told to who asked.** In every run of the parallel mode in which the
coordinators are not misled, every `NotifyReplicateResult` is right, and a request does not
change the primary shard of a transaction that the coordinator has votes for. -/
theorem result_answered_right (hpar : cfg.mode = .parallel)
    (hw : cfg.system.Reach cfg.Named w) :
    (∀ p ∈ w.net, ∀ m, p.msg = .notifyReplicateResult m → AnsweredRight cfg w p m) ∧
      ∀ c ω p m req, p.msg = .requestCommitResult m →
        cfg.Named w (.coordinator c) ω (.recv p) →
        (w.coordinator c).pendingCommits.lookup m.tid = some req → Table.size req.votes ≠ 0 →
        ∃ req', (GlobalState.coordinator (cfg.system.next w (.coordinator c) ω (.recv p)) c
          ).pendingCommits.lookup m.tid = some req' ∧ req'.primaryShard = req.primaryShard := by
  refine ⟨fun p hp m hm => ?_, fun c ω p m req hm hnamed hreq hvotes =>
    primary_kept hm hnamed hreq hvotes⟩
  obtain ⟨hnode, hpkt⟩ := Config.answers hpar hw
  have hok := hpkt p hp
  simp only [AnswerPacketOk, hm] at hok
  obtain ⟨hts, _, hdst, ⟨st, hst, rfl⟩, hann⟩ := hok
  refine ⟨⟨st, hst, hdst, fun _ => ?_⟩, fun q hq k hk htid => ?_, fun q hq => ⟨fun k hk _ => ?_,
    fun k hk _ => ?_⟩⟩
  · have hc : AnswerOk cfg (cfg.leader st.primary) w.history
        (w.coordinator (cfg.leader st.primary)) := hnode (.coordinator (cfg.leader st.primary))
    obtain ⟨⟨result, flag⟩, hx⟩ := Option.isSome_iff_exists.1
      (AList.lookup_isSome.2 (hc.announced _ hann))
    obtain ⟨rfl, hres⟩ := (hc.results _ _ hx).2 ⟨st, hst, rfl⟩
    exact ⟨result, hres, hx⟩
  · have hsent := (Config.invariant (.inr (.inl hpar)) hw).2 q hq
    simp only [PacketOk, hk] at hsent
    obtain ⟨_, s, _, hdst', hshape⟩ := hsent
    rw [htid] at hshape
    have hs : s = st.primary := hshape.primary.unique ⟨st, hst, rfl⟩
    rw [hdst', hdst, hs]
  · have hdec := hpkt q hq
    simp only [AnswerPacketOk, hk] at hdec
    rw [hdec, hts]
  · have hdec := hpkt q hq
    simp only [AnswerPacketOk, hk] at hdec
    rw [hdec.1, hts]

/-- The leader of shard `3` asks before the votes of shard `1` arrive. -/
def askedEarly : Commands :=
  [act 7 (.put "b" "1"), act 7 .commit, act 7 (.task 0), act 7 (.task 0), deliver 1, deliver 2,
    deliver 0, deliver 3, deliver 4, deliver 7, deliver 9, deliver 10, deliver 12]

theorem askedEarly_runs :
    ((threeReplicas .parallel 4).run (threeReplicas .parallel 4).Named askedEarly).isSome := by
  decide +kernel

/-- Shard `3` is told. -/
theorem result_answered_early :
    ∃ w : GlobalState,
      (threeReplicas .parallel 4).system.Reach (threeReplicas .parallel 4).Named w ∧
      ∃ p ∈ w.net, ∃ m, p.msg = .notifyReplicateResult m ∧ p.dst = .replica 3 0 ∧
        AnsweredRight (threeReplicas .parallel 4) w p m := by
  have hw := Config.reach_run askedEarly_runs
  have hp : (⟨.sendOnly, .replica 3 0, .notifyReplicateResult ⟨7, true, 0⟩⟩ : Pkt) ∈
      (((threeReplicas .parallel 4).run (threeReplicas .parallel 4).Named askedEarly).get
        askedEarly_runs).net := by
    decide +kernel
  exact ⟨_, hw, _, hp, _, rfl, rfl, (result_answered_right rfl hw).1 _ hp _ rfl⟩

/-- The leader of shard `3` asks after the commit was announced. -/
def askedLate : Commands :=
  [act 7 (.put "b" "1"), act 7 .commit, act 7 (.task 0), act 7 (.task 0), deliver 0, deliver 2,
    deliver 3, deliver 6, deliver 8, deliver 9, deliver 11, deliver 1, deliver 16]

theorem askedLate_runs : ((threeReplicas .parallel 4).run anyStep askedLate).isSome := by
  decide +kernel

/-- **The wrong shard is told.** Shard `3` asks, and the answer goes to shard `0`. -/
theorem result_told_to_other_shard :
    ∃ w : GlobalState, (threeReplicas .parallel 4).system.Reach anyStep w ∧
      (∃ st, startOf w.history 7 = some st ∧ st.primary = 3) ∧
      ∃ p ∈ w.net, ∃ m, p.msg = .notifyReplicateResult m ∧ p.dst = .replica 0 0 ∧
        ¬ AnsweredRight (threeReplicas .parallel 4) w p m := by
  have hp : (⟨.sendOnly, .replica 0 0, .notifyReplicateResult ⟨7, true, 0⟩⟩ : Pkt) ∈
      (((threeReplicas .parallel 4).run anyStep askedLate).get askedLate_runs).net := by
    decide +kernel
  have hst : ((startOf (((threeReplicas .parallel 4).run anyStep askedLate).get
      askedLate_runs).history 7).map Start.primary) = some 3 := by
    decide +kernel
  obtain ⟨st, hst, hthree⟩ := Option.map_eq_some_iff.1 hst
  refine ⟨_, Config.reach_run askedLate_runs, ⟨st, hst, hthree⟩, _, hp, _, rfl, rfl,
    fun hright => ?_⟩
  obtain ⟨st', hst', hdst, _⟩ := hright.primary
  rw [hst] at hst'
  cases hst'
  rw [hthree] at hdst
  cases hdst

end D2PC
