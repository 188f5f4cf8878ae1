import D2PC.Invariant.Direct

/-!
# Coordinators keep the invariant

One lemma for each handler of `CoordinatorReplica`. The size comparisons of `ReachConsensus`
and `ReachFaultTolerance` are sound because every shard in the maps takes part in the
transaction: a vote stands for the acceptance of a participant leader and a reply for an
entry in the log of a replica of a participant.
-/

namespace D2PC

open Prog Ctx

section Frames

variable {cfg : Config} {c : ℕ} {h es : History} {tid : TxnId} {req : PendingCommit}
  {s : Coordinator}

/-! ### Frames -/

theorem CommitOk.mono (hr : CommitOk cfg c h tid req) : CommitOk cfg c (h ++ es) tid req := by
  refine ⟨hr.id, hr.majority, ?_, fun s hs => (hr.votes s hs).mono, fun s l hl => ?_,
    fun hcons => ?_, fun htol => ?_⟩
  · exact hr.participants.imp (fun hnil => hnil) fun ⟨p, hp⟩ => ⟨p, hp.mono⟩
  · obtain ⟨h₁, h₂, h₃, h₄⟩ := hr.replies s l hl
    exact ⟨h₁.mono, h₂.mono, h₃, fun b hb => (h₄ b hb).mono⟩
  · obtain ⟨h₁, h₂⟩ := hr.consensus hcons
    exact ⟨h₁, fun s hs => (h₂ s hs).mono⟩
  · obtain ⟨h₁, h₂, h₃⟩ := hr.tolerance htol
    exact ⟨h₁, h₂.mono, fun s hs => (h₃ s hs).mono⟩

theorem CoordinatorEventOk.mono {e : Event} (he : CoordinatorEventOk cfg c h e) :
    CoordinatorEventOk cfg c (h ++ es) e := by
  cases e with
  | announced tid => exact ⟨he.1, he.2.1.mono, he.2.2.mono⟩
  | _ => trivial

theorem CoordinatorOk.extend (hs : CoordinatorOk cfg c h s)
    (hes : ∀ e, (Node.coordinator c, e) ∈ es → CoordinatorEventOk cfg c (h ++ es) e) :
    CoordinatorOk cfg c (h ++ es) s := by
  refine ⟨fun tid req hreq => (hs.pending tid req hreq).mono,
    fun tid htid => (hs.results tid htid).mono, fun e he => ?_⟩
  rcases List.mem_append.1 he with hold | hnew
  · exact (hs.events e hold).mono
  · exact hes e hnew

theorem CoordinatorOk.frame (hs : CoordinatorOk cfg c h s) {n : Node}
    (hn : Node.coordinator c ≠ n) (es : List Event) :
    CoordinatorOk cfg c (h ++ es.map (n, ·)) s := by
  refine hs.extend fun e he => ?_
  obtain ⟨_, _, heq⟩ := List.mem_map.1 he
  exact absurd (Prod.mk.inj heq).1.symm hn

theorem CoordinatorOk.emit (hs : CoordinatorOk cfg c h s) {e : Event}
    (he : CoordinatorEventOk cfg c (h ++ [(Node.coordinator c, e)]) e) :
    CoordinatorOk cfg c (h ++ [(Node.coordinator c, e)]) s := by
  refine hs.extend fun e' hmem => ?_
  rw [List.mem_singleton] at hmem
  obtain ⟨_, rfl⟩ := Prod.mk.inj hmem
  exact he

theorem CoordinatorOk.setCommit (hs : CoordinatorOk cfg c h s) {t : TxnId} {q : PendingCommit}
    (hreq : CommitOk cfg c h t q) :
    CoordinatorOk cfg c h { s with pendingCommits := s.pendingCommits.insert t q } := by
  refine ⟨fun tid' req' hreq' => ?_, hs.results, hs.events⟩
  rw [Table.lookup_insert_eq] at hreq'
  split_ifs at hreq' with htid
  · cases hreq'
    rw [htid]
    exact hreq
  · exact hs.pending tid' req' hreq'

theorem CoordinatorOk.eraseCommit (hs : CoordinatorOk cfg c h s) (tid : TxnId) :
    CoordinatorOk cfg c h { s with pendingCommits := s.pendingCommits.erase tid } := by
  refine ⟨fun tid' req' hreq' => ?_, hs.results, hs.events⟩
  rw [Table.lookup_erase_eq] at hreq'
  split_ifs at hreq'
  exact hs.pending tid' req' hreq'

theorem CoordinatorOk.setResult (hs : CoordinatorOk cfg c h s) {t : TxnId}
    {x : CommitResult × Bool} (ha : Announceable cfg h t) :
    CoordinatorOk cfg c h { s with commitResults := s.commitResults.insert t x } := by
  refine ⟨hs.pending, fun tid' htid' => ?_, hs.events⟩
  rcases AList.mem_insert _ |>.1 htid' with rfl | hold
  · exact ha
  · exact hs.results tid' hold

end Frames

/-- A coordinator that keeps the invariant. -/
abbrev CoordinatorGood (cfg : Config) (c : ℕ) (h : History) :
    Ctx Coordinator Addr Msg Event → Prop :=
  Ctx.Good (CoordinatorOk cfg c) (PacketOk cfg) h (.coordinator c)

namespace Coordinator

variable {cfg : Config} {c : ℕ} {h : History} {x : Ctx Coordinator Addr Msg Event}
  {ω : Choice} {tid : TxnId} {req : PendingCommit}

/-! ### Counting -/

theorem allPrepared_spec (votes : Table Shard CommitResult) (ps : List Shard) :
    ((allPrepared votes ps).1 = true → ∀ p ∈ ps, votes.lookup p = some .prepared) ∧
      ∀ s, (allPrepared votes ps).2.lookup s = some .prepared → votes.lookup s = some .prepared := by
  induction ps with
  | nil => exact ⟨fun _ p hp => absurd hp List.not_mem_nil, fun _ hs => hs⟩
  | cons p ps ih =>
      simp only [allPrepared]
      cases hp : votes.lookup p with
      | none =>
          refine ⟨(fun h => by cases h), fun s hs => ?_⟩
          simp only [Table.lookup_insert_eq] at hs
          split_ifs at hs
          · cases hs
          · exact hs
      | some v =>
          by_cases hv : v = .prepared
          · simp only [hv, if_true]
            refine ⟨fun hall q hq => ?_, ih.2⟩
            rcases List.mem_cons.1 hq with rfl | hq
            · rw [hp, hv]
            · exact ih.1 hall q hq
          · simp only [hv, if_false]
            exact ⟨(fun h => by cases h), fun _ hs => hs⟩

/-- After a vote was entered, consensus means that every participant leader accepted. -/
theorem collectVote_ok (hr : CommitOk cfg c h tid req) {s : Shard} {v : CommitResult}
    (hv : req.votes.lookup s = some v) :
    CommitOk cfg c h tid (collectVote req).2 ∧
      ((collectVote req).1 = true → (collectVote req).2.reachConsensus = true ∧
        (collectVote req).2.state = .prepared) := by
  have hsize : Table.size req.votes ≠ 0 :=
    Table.size_ne_zero (AList.lookup_isSome.1 (by rw [hv]; rfl))
  obtain ⟨hall, hvotes⟩ := allPrepared_spec req.votes req.participants
  have hvotes' := fun s hs => hr.votes s (hvotes s hs)
  by_cases hlen : Table.size req.votes = req.participants.length
  · have hne : req.participants ≠ [] := by
      intro hnil
      rw [hnil] at hlen
      exact hsize hlen
    simp only [collectVote, reachConsensus, hlen, ne_eq, not_true_eq_false, if_false]
    cases hok : (allPrepared req.votes req.participants).1 with
    | true =>
        exact ⟨⟨hr.id, hr.majority, hr.participants, hvotes', hr.replies,
          fun _ => ⟨hne, fun p hp => hr.votes p (hall hok p hp)⟩, hr.tolerance⟩,
          fun _ => ⟨rfl, rfl⟩⟩
    | false =>
        exact ⟨⟨hr.id, hr.majority, hr.participants, hvotes', hr.replies, hr.consensus,
          hr.tolerance⟩, fun h => by cases h⟩
  · simp only [collectVote, reachConsensus, ne_eq, hlen, not_false_eq_true, if_true]
    exact ⟨hr, fun h => by cases h⟩

/-- Fault tolerance means that every participant has a majority of log entries. -/
theorem reachFaultTolerance_ok (hr : CommitOk cfg c h tid req)
    (htol : reachFaultTolerance req = true) :
    req.participants ≠ [] ∧ Home cfg h tid c ∧
      ∀ s ∈ req.participants, Quorum h s tid (cfg.n / 2 + 1) := by
  simp only [reachFaultTolerance, Bool.and_eq_true, decide_eq_true_eq, List.all_eq_true] at htol
  obtain ⟨⟨hpos, hsize⟩, hall⟩ := htol
  have hne : req.participants ≠ [] := List.length_pos_iff.1 hpos
  obtain hnil | ⟨primary, st, hst, _, hmem⟩ := hr.participants
  · exact absurd hnil hne
  -- every shard in the map takes part, and there are as many as participants
  have hsub : ∀ s ∈ req.replicateResults, s ∈ req.participants := by
    intro s hs
    obtain ⟨l, hl⟩ := Option.isSome_iff_exists.1 (AList.lookup_isSome.2 hs)
    obtain ⟨_, ⟨st', hst', hs'⟩, _⟩ := hr.replies s l hl
    rw [hst] at hst'
    cases hst'
    exact (hmem s).2 hs'
  have hentry : ∀ s ∈ req.participants, ∃ l, req.replicateResults.lookup s = some l :=
    fun s hs => Table.exists_of_size_eq hsub hsize.ge hs
  refine ⟨hne, ?_, fun s hs => ?_⟩
  · obtain ⟨p, hp⟩ := List.exists_mem_of_ne_nil _ hne
    obtain ⟨l, hl⟩ := hentry p hp
    exact (hr.replies p l hl).1
  · obtain ⟨l, hl⟩ := hentry s hs
    obtain ⟨_, _, hnodup, hlog⟩ := hr.replies s l hl
    have hmaj := hall (s, l) (Table.mem_toList.2 hl)
    refine ⟨(l.map BypassLeaderReply.replica).toFinset, ?_, fun i hi => ?_⟩
    · rw [List.toFinset_card_of_nodup hnodup, List.length_map, ← hr.majority]
      exact hmaj
    · obtain ⟨b, hb, rfl⟩ := List.mem_map.1 (List.mem_toFinset.1 hi)
      exact hlog b hb

/-- **Announceable.** Consensus and fault tolerance together. -/
theorem announceable_of_flags (hr : CommitOk cfg c h tid req) (hcons : req.reachConsensus = true)
    (htol : req.reachFaultTolerance = true) : Announceable cfg h tid ∧ Home cfg h tid c := by
  obtain ⟨hne, hacc⟩ := hr.consensus hcons
  obtain ⟨_, hhome, hquorum⟩ := hr.tolerance htol
  obtain hnil | ⟨primary, st, hst, _, hmem⟩ := hr.participants
  · exact absurd hnil hne
  · exact ⟨⟨st, hst, fun s hs => ⟨hacc s ((hmem s).2 hs), hquorum s ((hmem s).2 hs)⟩⟩, hhome⟩

/-! ### Announcing -/

theorem notifyReplicateResult_good {K : History → Prop} (hK : Stable K)
    (hpar : cfg.mode = .parallel) (hx : CoordinatorGood cfg c h x)
    (hk : K (past h (.coordinator c) x))
    (hann : Announceable cfg (past h (.coordinator c) x) req.tid)
    (hhome : Home cfg (past h (.coordinator c) x) req.tid c) :
    wp (notifyReplicateResult ⟨cfg, c⟩ req)
      (fun _ x' => CoordinatorGood cfg c h x' ∧ K (past h (.coordinator c) x'))
      (CoordinatorGood cfg c h) x := by
  simp only [notifyReplicateResult, wp_bind, wp_emit, wp_send]
  have hx₁ := hx.emit (fun _ _ _ => PacketOk.mono) (hx.node.emit (e := .announced req.tid)
    ⟨hpar, hann.mono, hhome.mono⟩)
  have hx₂ := hx₁.send_one (p := ⟨.sendOnly, .replica req.primaryShard c, .notifyReplicateResult
    { tid := req.tid, replicateSuccess := true, timestamp := req.timestamp }⟩)
    ⟨hpar, c, mem_past_emit _⟩
  refine ⟨hx₂.send fun p hp => ?_, ?_⟩
  · obtain ⟨i, _, rfl⟩ := List.mem_map.1 hp
    refine ⟨hpar, ?_⟩
    rw [past_emit]
    exact hann.mono
  · rw [past_emit]
    exact hK _ _ hk

theorem announce_good {K : History → Prop} (hK : Stable K) (hpar : cfg.mode = .parallel)
    (hx : CoordinatorGood cfg c h x) (hk : K (past h (.coordinator c) x)) {result : CommitResult}
    (hr : CommitOk cfg c (past h (.coordinator c) x) tid req)
    (hcons : req.reachConsensus = true) (htol : req.reachFaultTolerance = true) :
    wp (announce ⟨cfg, c⟩ req result)
      (fun _ x' => CoordinatorGood cfg c h x' ∧ K (past h (.coordinator c) x'))
      (CoordinatorGood cfg c h) x := by
  obtain ⟨hann, hhome⟩ := announceable_of_flags hr hcons htol
  rw [← hr.id] at hann hhome
  simp only [announce, record, wp_bind, wp_update, wp_emit, eraseCommit]
  have hx₁ := hx.update (hx.node.setResult (x := (result, true)) hann)
  have hx₂ := hx₁.emit (fun _ _ _ => PacketOk.mono)
    (hx₁.node.emit (e := .recorded req.tid result) trivial)
  refine wp_mono (fun _ x' hx' => ⟨hx'.1.update (hx'.1.node.eraseCommit req.tid), hx'.2⟩)
    (fun _ hd => hd) (notifyReplicateResult_good hK hpar hx₂ ?_ ?_ ?_)
  · rw [past_emit]; exact hK _ _ hk
  · rw [past_emit]; exact hann.mono
  · rw [past_emit]; exact hhome.mono

theorem notifyCommitDecision_good (hpar : cfg.mode = .parallel) (hx : CoordinatorGood cfg c h x)
    (hstate : req.state = .prepared) :
    wp (notifyCommitDecision ⟨cfg, c⟩ req) (fun _ => CoordinatorGood cfg c h)
      (CoordinatorGood cfg c h) x := by
  refine hx.send fun p hp => ?_
  obtain ⟨q, _, rfl⟩ := List.mem_map.1 hp
  exact ⟨hpar, hstate⟩

/-! ### Votes -/

theorem newCommit_ok (env : CoordinatorEnv) (henv : env.cfg = cfg) {participants : List Shard}
    (hp : participants = [] ∨ ∃ primary, Shape h tid participants primary)
    (primaryShard primaryCoordinator timestamp : ℕ) :
    CommitOk cfg c h tid { newCommit env ω tid with
      primaryShard := primaryShard
      primaryCoordinator := primaryCoordinator
      participants := participants
      timestamp := timestamp } := by
  subst henv
  exact ⟨rfl, rfl, hp, nofun, nofun, nofun, nofun⟩

/-- Participants are learned once. -/
theorem learnParticipants_ok (hr : CommitOk cfg c h tid req) {participants : List Shard}
    (hp : participants = [] ∨ ∃ primary, Shape h tid participants primary) :
    CommitOk cfg c h tid (learnParticipants req participants) := by
  unfold learnParticipants
  split_ifs with hnil
  · refine ⟨hr.id, hr.majority, hp, hr.votes, hr.replies, fun hcons => ?_, fun htol => ?_⟩
    · exact absurd hnil (hr.consensus hcons).1
    · exact absurd hnil (hr.tolerance htol).1
  · exact hr

theorem votedCommit_ok (ω : Choice) {pending : Option PendingCommit}
    (hpend : ∀ req, pending = some req → CommitOk cfg c h tid req) {participants : List Shard}
    (hp : participants = [] ∨ ∃ primary, Shape h tid participants primary)
    (primaryShard primaryCoordinator timestamp : ℕ) :
    CommitOk cfg c h tid (votedCommit ⟨cfg, c⟩ ω pending tid participants primaryShard
      primaryCoordinator timestamp) := by
  cases pending with
  | none => exact newCommit_ok ⟨cfg, c⟩ rfl hp _ _ _
  | some req =>
      have hr := learnParticipants_ok (hpend req rfl) hp
      exact ⟨hr.id, hr.majority, hr.participants, hr.votes, hr.replies, hr.consensus, hr.tolerance⟩

/-- A vote of a leader that accepted is entered. -/
theorem vote_ok (hr : CommitOk cfg c h tid req) {s : Shard} {v : CommitResult}
    (hacc : Accepted cfg h s tid) (deps : Table Shard Bool) :
    CommitOk cfg c h tid { req with
      votes := req.votes.insert s v
      dependencies := deps } := by
  refine ⟨hr.id, hr.majority, hr.participants, fun s' hs' => ?_, hr.replies, hr.consensus,
    hr.tolerance⟩
  simp only [Table.lookup_insert_eq] at hs'
  split_ifs at hs' with hs
  · rw [hs]
    exact hacc
  · exact hr.votes s' hs'

theorem tallyVote_good {K : History → Prop} (hK : Stable K) (hpar : cfg.mode = .parallel)
    (hx : CoordinatorGood cfg c h x) (hk : K (past h (.coordinator c) x)) {s : Shard}
    {v : CommitResult} {free : PendingCommit → Bool}
    (hr : CommitOk cfg c (past h (.coordinator c) x) tid req)
    (hv : req.votes.lookup s = some v) :
    wp (tallyVote ⟨cfg, c⟩ tid req free)
      (fun _ x' => CoordinatorGood cfg c h x' ∧ K (past h (.coordinator c) x'))
      (CoordinatorGood cfg c h) x := by
  obtain ⟨hr', hreach⟩ := collectVote_ok hr hv
  have hx₁ := hx.update (hx.node.setCommit hr')
  simp only [tallyVote, wp_bind, setCommit, wp_update, wp_when, Bool.and_eq_true]
  refine ⟨fun hreached => ?_, fun _ => ⟨hx₁, hk⟩⟩
  obtain ⟨hcons, hstate⟩ := hreach hreached
  have hx₂ := notifyCommitDecision_good hpar hx₁ hstate
  exact ⟨fun hready => announce_good hK hpar hx₂ hk hr' hcons hready.1.2, fun _ => ⟨hx₂, hk⟩⟩

theorem handleReplicateReplyAndVote_good (hx : CoordinatorGood cfg c h x)
    {msg : ReplicateReplyAndVote} {src dst : Addr}
    (hp : PacketOk cfg (past h (.coordinator c) x) ⟨src, dst, .replicateReplyAndVote msg⟩) :
    wp (handleReplicateReplyAndVote ⟨cfg, c⟩ ω msg) (fun _ => CoordinatorGood cfg c h)
      (CoordinatorGood cfg c h) x := by
  obtain ⟨hpar, hvote, hacc, hlog, hmem, hshape, hcoord⟩ := hp
  have hr := votedCommit_ok ω (fun req hreq => hx.node.pending msg.tid req hreq)
    (.inr ⟨_, hshape⟩) msg.primaryShard msg.primaryCoordinator msg.timestamp
  have hK : Stable fun h => Home cfg h msg.tid msg.primaryCoordinator ∧
      LoggedAt h msg.shard msg.replica msg.tid ∧ Member h msg.tid msg.shard :=
    fun h es hh => ⟨hh.1.mono, hh.2.1.mono, hh.2.2.mono⟩
  have hhome : Home cfg (past h (.coordinator c) x) msg.tid msg.primaryCoordinator := by
    obtain ⟨st, hst, hprimary, _⟩ := hshape
    exact ⟨st, hst, by rw [hcoord, hprimary]⟩
  have hk := And.intro hhome (And.intro hlog hmem)
  have hx₁ := hx.update (hx.node.setCommit hr)
  simp only [handleReplicateReplyAndVote, wp_bind, wp_read, wp_ite, wp_pure, setCommit, wp_update,
    if_pos hvote, wp_send]
  refine ⟨fun _ => hx, fun _ => ?_⟩
  -- the reply is passed on to the coordinator of the primary shard
  exact wp_mono (fun _ x' hx' => hx'.1.send_one ⟨hpar, _, rfl, hx'.2⟩) (fun _ hd => hd)
    (tallyVote_good hK hpar hx₁ hk (vote_ok hr hacc _) (AList.lookup_insert _))

theorem handleVote_good (hx : CoordinatorGood cfg c h x) {msg : Vote} {src dst : Addr}
    (hp : PacketOk cfg (past h (.coordinator c) x) ⟨src, dst, .vote msg⟩) :
    wp (handleVote ⟨cfg, c⟩ ω msg) (fun _ => CoordinatorGood cfg c h)
      (CoordinatorGood cfg c h) x := by
  obtain ⟨hpar, hvote, hnil, hacc⟩ := hp
  have hr := votedCommit_ok ω (fun req hreq => hx.node.pending msg.tid req hreq)
    (.inl hnil) msg.primaryShard msg.primaryCoordinator msg.timestamp
  have hx₁ := hx.update (hx.node.setCommit hr)
  simp only [handleVote, wp_bind, wp_read, wp_ite, wp_pure, setCommit, wp_update, if_pos hvote]
  refine ⟨fun _ => hx, fun _ => ?_⟩
  exact wp_mono (fun _ x' hx' => hx'.1) (fun _ hd => hd)
    (tallyVote_good (K := fun _ => True) (fun _ _ _ => trivial) hpar hx₁ trivial
      (vote_ok hr hacc _) (AList.lookup_insert _))

/-! ### Replies -/

/-- A reply of a replica that logged the transaction is entered once. -/
theorem addReply_ok (hr : CommitOk cfg c h tid req) {reply : BypassLeaderReply}
    (hhome : Home cfg h tid c) (hlog : LoggedAt h reply.shard reply.replica tid)
    (hmem : Member h tid reply.shard) : CommitOk cfg c h tid (addReply req reply).2 := by
  have hold : ∀ l, l = (req.replicateResults.lookup reply.shard).getD [] →
      (l.map BypassLeaderReply.replica).Nodup ∧ ∀ b ∈ l, LoggedAt h reply.shard b.replica tid := by
    intro l hl
    cases hlook : req.replicateResults.lookup reply.shard with
    | none =>
        rw [hlook] at hl
        subst hl
        exact ⟨List.nodup_nil, fun b hb => absurd hb List.not_mem_nil⟩
    | some l' =>
        rw [hlook] at hl
        rw [hl]
        exact (hr.replies _ l' hlook).2.2
  obtain ⟨hnodup, hall⟩ := hold _ rfl
  have hset : ∀ l : List BypassLeaderReply, (l.map BypassLeaderReply.replica).Nodup →
      (∀ b ∈ l, LoggedAt h reply.shard b.replica tid) →
      CommitOk cfg c h tid { req with
        replicateResults := req.replicateResults.insert reply.shard l } := by
    intro l hl hlall
    refine ⟨hr.id, hr.majority, hr.participants, hr.votes, fun s l' hl' => ?_, hr.consensus,
      hr.tolerance⟩
    simp only [Table.lookup_insert_eq] at hl'
    split_ifs at hl' with hs
    · cases hl'
      rw [hs]
      exact ⟨hhome, hmem, hl, hlall⟩
    · exact hr.replies s l' hl'
  simp only [addReply]
  split_ifs with hdup
  · exact hset _ hnodup hall
  · refine hset _ ?_ fun b hb => ?_
    · rw [List.map_append, List.map_singleton, List.nodup_append]
      refine ⟨hnodup, List.nodup_singleton _, fun a ha b hb => ?_⟩
      rintro rfl
      obtain ⟨b', hb', rfl⟩ := List.mem_map.1 ha
      exact hdup (List.any_eq_true.2 ⟨b', hb', decide_eq_true (List.mem_singleton.1 hb)⟩)
    · rcases List.mem_append.1 hb with hb | hb
      · exact hall b hb
      · rw [List.mem_singleton.1 hb]
        exact hlog

theorem collectReply_ok (hr : CommitOk cfg c h tid req) (new : Bool) :
    CommitOk cfg c h tid (collectReply new req).2 ∧
      ((collectReply new req).1 = true → (collectReply new req).2.reachFaultTolerance = true) := by
  simp only [collectReply]
  split_ifs with htol
  · have hok := reachFaultTolerance_ok hr (Bool.and_eq_true .. ▸ htol).2
    exact ⟨⟨hr.id, hr.majority, hr.participants, hr.votes, hr.replies, hr.consensus,
      fun _ => hok⟩, fun _ => rfl⟩
  · exact ⟨hr, fun h => by cases h⟩

theorem handleBypassLeaderReply_good (hx : CoordinatorGood cfg c h x) {msg : BypassLeaderReply}
    {src : Addr} (hp : PacketOk cfg (past h (.coordinator c) x)
      ⟨src, .coordinator c, .bypassLeaderReply msg⟩) :
    wp (handleBypassLeaderReply ⟨cfg, c⟩ ω msg) (fun _ => CoordinatorGood cfg c h)
      (CoordinatorGood cfg c h) x := by
  obtain ⟨hpar, c', hdst, hhome, hlog, hmem⟩ := hp
  cases hdst
  have hold : CommitOk cfg c (past h (.coordinator c) x) msg.tid
      ((x.state.pendingCommits.lookup msg.tid).getD (newCommit ⟨cfg, c⟩ ω msg.tid)) := by
    cases hreq : x.state.pendingCommits.lookup msg.tid with
    | none => exact newCommit_ok ⟨cfg, c⟩ rfl (.inl rfl) _ _ _
    | some req => exact hx.node.pending _ req hreq
  obtain ⟨hr, htol⟩ := collectReply_ok (addReply_ok hold hhome hlog hmem)
    (addReply ((x.state.pendingCommits.lookup msg.tid).getD (newCommit ⟨cfg, c⟩ ω msg.tid)) msg).1
  have hx₁ := hx.update (hx.node.setCommit hr)
  simp only [handleBypassLeaderReply, wp_bind, wp_read, wp_ite, wp_pure, setCommit, wp_update,
    wp_when, Bool.and_eq_true]
  refine ⟨fun _ => hx, fun _ => ⟨fun hready => ?_, fun _ => hx₁⟩⟩
  exact wp_mono (fun _ x' hx' => hx'.1) (fun _ hd => hd)
    (announce_good (K := fun _ => True) (fun _ _ _ => trivial) hpar hx₁ trivial hr hready.1.2
      (htol hready.1.1))

/-! ### Dependencies and decisions -/

theorem handleNotifyDependenciesAreCleared_good (hpar : cfg.mode = .parallel)
    (hx : CoordinatorGood cfg c h x) (msg : NotifyDependenciesAreCleared) :
    wp (handleNotifyDependenciesAreCleared ⟨cfg, c⟩ msg) (fun _ => CoordinatorGood cfg c h)
      (CoordinatorGood cfg c h) x := by
  simp only [handleNotifyDependenciesAreCleared, wp_bind, wp_read]
  cases hreq : x.state.pendingCommits.lookup msg.tid with
  | none => exact hx
  | some req =>
      have hold := hx.node.pending _ req hreq
      have hr : CommitOk cfg c (past h (.coordinator c) x) msg.tid
          { req with dependencies := req.dependencies.insert msg.shard false } :=
        ⟨hold.id, hold.majority, hold.participants, hold.votes, hold.replies, hold.consensus,
          hold.tolerance⟩
      have hx₁ := hx.update (hx.node.setCommit hr)
      simp only [wp_bind, setCommit, wp_update, wp_when, Bool.and_eq_true]
      refine ⟨fun hready => ?_, fun _ => hx₁⟩
      exact wp_mono (fun _ x' hx' => hx'.1) (fun _ hd => hd)
        (announce_good (K := fun _ => True) (fun _ _ _ => trivial) hpar hx₁ trivial hr
          hready.1.2 hready.2)

/-- The state shipped with a decision replaces that of the pending transaction, which stays
only at the coordinator of the primary shard. -/
theorem handleReplicateDecision_good (hx : CoordinatorGood cfg c h x) {msg : ReplicateDecision}
    {src dst : Addr}
    (hp : PacketOk cfg (past h (.coordinator c) x) ⟨src, dst, .replicateDecision msg⟩) :
    wp (handleReplicateDecision ⟨cfg, c⟩ msg) (fun _ => CoordinatorGood cfg c h)
      (CoordinatorGood cfg c h) x := by
  obtain ⟨hpar, hann⟩ := hp
  simp only [handleReplicateDecision, wp_bind, wp_read]
  cases hreq : x.state.pendingCommits.lookup msg.tid with
  | none => exact hx
  | some req =>
      have hold := hx.node.pending _ req hreq
      have hx₁ := hx.update (hx.node.setCommit (t := msg.tid) (q := { req with state := msg.state })
        ⟨hold.id, hold.majority, hold.participants, hold.votes, hold.replies, hold.consensus,
          hold.tolerance⟩)
      have hx₂ := hx₁.update (hx₁.node.setResult (t := msg.tid)
        (x := (if msg.state = .commit then .commit else .abort, false)) hann)
      have hx₃ := hx₂.emit (fun _ _ _ => PacketOk.mono) (hx₂.node.emit
        (e := .recorded msg.tid (if msg.state = .commit then .commit else .abort)) trivial)
      simp only [wp_bind, setCommit, record, wp_update, wp_emit, wp_send, wp_when, eraseCommit]
      have hx₄ := hx₃.send_one (p := ⟨.coordinator c, .coordinator (req.primaryShard % cfg.n),
        .replyDecision { tid := msg.tid, coordinatorId := c, timestamp := req.timestamp }⟩) hpar
      exact ⟨fun _ => hx₄.update (hx₄.node.eraseCommit msg.tid), fun _ => hx₄⟩

theorem handleReplyDecision_good (hx : CoordinatorGood cfg c h x) (msg : ReplyDecision) :
    wp (handleReplyDecision msg) (fun _ => CoordinatorGood cfg c h)
      (CoordinatorGood cfg c h) x := by
  simp only [handleReplyDecision, wp_bind, wp_read]
  cases hreq : x.state.pendingCommits.lookup msg.tid with
  | none => exact hx
  | some req =>
      have hold := hx.node.pending _ req hreq
      have hx₁ := hx.update (hx.node.setCommit (t := msg.tid)
        (q := { req with
          commitDecisionReplies := insert msg.coordinatorId req.commitDecisionReplies })
        ⟨hold.id, hold.majority, hold.participants, hold.votes, hold.replies, hold.consensus,
          hold.tolerance⟩)
      simp only [wp_ite, wp_pure, wp_bind, setCommit, eraseCommit, wp_update, wp_when]
      exact ⟨fun _ => hx, fun _ => ⟨fun _ => hx₁.update (hx₁.node.eraseCommit msg.tid),
        fun _ => hx₁⟩⟩

theorem handleRequestCommitResult_good (hx : CoordinatorGood cfg c h x) {msg : RequestCommitResult}
    {src : Addr} (hp : PacketOk cfg (past h (.coordinator c) x)
      ⟨src, .coordinator c, .requestCommitResult msg⟩) :
    wp (handleRequestCommitResult ⟨cfg, c⟩ ω msg) (fun _ => CoordinatorGood cfg c h)
      (CoordinatorGood cfg c h) x := by
  obtain ⟨hpar, c', primary, hdst, hc', hshape⟩ := hp
  cases hdst
  have hhome : Home cfg (past h (.coordinator c) x) msg.tid c := by
    obtain ⟨st, hst, hprimary, _⟩ := hshape
    exact ⟨st, hst, by rw [hc', hprimary]⟩
  simp only [handleRequestCommitResult, wp_bind, wp_read]
  cases hreq : x.state.pendingCommits.lookup msg.tid with
  | none =>
      simp only [wp_bind, wp_read, wp_ite, setCommit, wp_update]
      refine ⟨fun hres => ?_, fun _ => hx.update (hx.node.setCommit
        (newCommit_ok ⟨cfg, c⟩ rfl (.inr ⟨_, hshape⟩) _ _ _))⟩
      exact wp_mono (fun _ x' hx' => hx'.1) (fun _ hd => hd)
        (notifyReplicateResult_good (K := fun _ => True) (fun _ _ _ => trivial) hpar hx trivial
          (hx.node.results _ hres) hhome)
  | some req =>
      have hr := learnParticipants_ok (hx.node.pending _ req hreq) (.inr ⟨_, hshape⟩)
      exact hx.update (hx.node.setCommit ⟨hr.id, hr.majority, hr.participants, hr.votes, hr.replies,
        hr.consensus, hr.tolerance⟩)

/-- **A step of a coordinator** keeps the invariant. -/
theorem handleInput_good {s : Coordinator} (hs : CoordinatorOk cfg c h s)
    {input : Input Addr Msg Act}
    (hp : ∀ p, input = .recv p → PacketOk cfg h p ∧ p.dst = .coordinator c) :
    wp (handleInput ⟨cfg, c⟩ ω input) (fun _ => CoordinatorGood cfg c h)
      (CoordinatorGood cfg c h) { state := s } := by
  have hx : CoordinatorGood cfg c h { state := s } := Good.start hs
  have hpast : past h (.coordinator c) ({ state := s } : Ctx Coordinator Addr Msg Event) = h := by
    simp [past]
  cases input with
  | act a => exact hx
  | recv p =>
      obtain ⟨hok, hdst⟩ := hp p rfl
      obtain ⟨src, dst, msg⟩ := p
      obtain rfl : dst = .coordinator c := hdst
      rw [← hpast] at hok
      cases msg with
      | replicateReplyAndVote m => exact handleReplicateReplyAndVote_good hx hok
      | bypassLeaderReply m => exact handleBypassLeaderReply_good hx hok
      | vote m => exact handleVote_good hx hok
      | notifyDependenciesAreCleared m => exact handleNotifyDependenciesAreCleared_good hok hx m
      | replicateDecision m => exact handleReplicateDecision_good hx hok
      | replyDecision m => exact handleReplyDecision_good hx m
      | requestCommitResult m => exact handleRequestCommitResult_good hx hok
      | bypassLeaderReplyUnion m => exact absurd hok id
      | notifyDecisionToPrimary m => exact absurd hok id
      | getData m => exact hx
      | getDataReply m => exact hx
      | prepareTransaction m => exact hx
      | prepareTransactionReply m => exact hx
      | replicateTransaction m => exact hx
      | replicateTransactionReply m => exact hx
      | replicateCommit m => exact hx
      | parallelModeCommit m => exact hx
      | parallelModeCommitReply m => exact hx
      | commit m => exact hx
      | notifyDecision m => exact hx
      | notifyReplicateResult m => exact hx

end Coordinator

end D2PC
