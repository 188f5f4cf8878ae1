import D2PC.Protocol.Coordinator
import D2PC.Lib.Calls

/-!
# A coordinator decides once

One `CoordinatorReplica` and the messages through which it comes to its decisions, of any
content and in any order. Only some of the handlers look at `commitResults` first; the others
rely on a decided transaction being no longer pending.

* `Report`, `after` : the messages, and the coordinator with all it sent after a sequence of
  them;
* `Once` : the invariant. No transaction is pending and decided, and what was announced is
  decided and was announced once;
* `decides_once` : decisions are final, and nothing is sent for a decided transaction.
-/

namespace D2PC

/-- An entry belongs to its transaction, and at consensus its state is `PREPARED`. -/
def PendingCommit.Sound (tid : TxnId) (req : PendingCommit) : Prop :=
  req.tid = tid ∧ (req.reachConsensus = true → req.state = .prepared)

namespace Coordinator

open Ctx Prog

/-- The messages through which a coordinator comes to a decision. -/
inductive Report where
  | vote (m : ReplicateReplyAndVote)
  | reply (m : BypassLeaderReply)
  | replyUnion (m : BypassLeaderReplyUnion)
  | cleared (m : NotifyDependenciesAreCleared)
  | decisionReply (m : ReplyDecision)

/-- The transaction a report is about. -/
def Report.tid : Report → TxnId
  | .vote m => m.tid
  | .reply m => m.tid
  | .replyUnion m => m.tid
  | .cleared m => m.tid
  | .decisionReply m => m.tid

/-- The report on the wire. -/
def Report.msg : Report → Msg
  | .vote m => .replicateReplyAndVote m
  | .reply m => .bypassLeaderReply m
  | .replyUnion m => .bypassLeaderReplyUnion m
  | .cleared m => .notifyDependenciesAreCleared m
  | .decisionReply m => .replyDecision m

/-- A report is delivered; `ω` is what its handler finds in fields nobody initialised. -/
structure Delivery where
  report : Report
  ω : Choice

/-- A coordinator, and all it has sent and recorded. -/
abbrev Ledger := Ctx Coordinator Addr Msg Event

/-- One report is handled. -/
def handle (env : CoordinatorEnv) (x : Ledger) (d : Delivery) : Ledger :=
  (handleMessage env d.ω d.report.msg x).state

/-- A new coordinator after a sequence of reports. -/
def after (env : CoordinatorEnv) (ds : List Delivery) : Ledger :=
  Calls.run (handle env) { state := {} } ds

/-- The message is the `NotifyReplicateResult` of a transaction. -/
def announces (tid : TxnId) : Msg → Bool
  | .notifyReplicateResult m => decide (m.tid = tid)
  | _ => false

/-- How often a transaction was announced. -/
def announcements (tid : TxnId) (x : Ledger) : ℕ := x.sent.countP fun p => announces tid p.msg

/-- **The invariant.** `R` are decisions made earlier, which still stand. -/
structure Once (R : Table TxnId (CommitResult × Bool)) (x : Ledger) : Prop where
  disjoint : ∀ tid ∈ x.state.pendingCommits, tid ∉ x.state.commitResults
  pending : ∀ tid req, x.state.pendingCommits.lookup tid = some req → req.Sound tid
  announced : ∀ tid, announcements tid x ≤ 1
  decided : ∀ tid, announcements tid x ≠ 0 →
    ∃ r, x.state.commitResults.lookup tid = some r ∧ r.1 ≠ .abort
  kept : ∀ tid r, R.lookup tid = some r → x.state.commitResults.lookup tid = some r

variable {env : CoordinatorEnv} {ω : Choice} {R : Table TxnId (CommitResult × Bool)} {x : Ledger}
  {tid : TxnId} {req : PendingCommit}

/-! ### The primitives -/

theorem announcements_send (tid : TxnId) (x : Ledger) (ps : List Pkt) :
    announcements tid { x with sent := x.sent ++ ps } =
      announcements tid x + ps.countP fun p => announces tid p.msg :=
  List.countP_append

/-- An undecided transaction was not announced. -/
theorem Once.announcements_eq_zero (hx : Once R x) (htid : tid ∉ x.state.commitResults) :
    announcements tid x = 0 := by
  by_contra hne
  obtain ⟨r, hr, _⟩ := hx.decided tid hne
  exact htid (AList.lookup_isSome.1 (by rw [hr]; rfl))

theorem Once.send (hx : Once R x) {ps : List Pkt}
    (hps : ∀ p ∈ ps, ∀ tid, announces tid p.msg = false) :
    Once R { x with sent := x.sent ++ ps } := by
  have hcount : ∀ tid, announcements tid { x with sent := x.sent ++ ps } = announcements tid x := by
    intro tid
    have hzero : ps.countP (fun p => announces tid p.msg) = 0 := by
      rw [List.countP_eq_zero]
      intro p hp
      rw [hps p hp tid]
      exact Bool.false_ne_true
    rw [announcements_send, hzero, Nat.add_zero]
  refine ⟨hx.disjoint, hx.pending, fun tid => ?_, fun tid => ?_, hx.kept⟩
  · rw [hcount]
    exact hx.announced tid
  · rw [hcount]
    exact hx.decided tid

theorem Once.setCommit (hx : Once R x) (htid : tid ∉ x.state.commitResults) {q : PendingCommit}
    (hreq : q.Sound tid) :
    Once R { x with state := { x.state with
      pendingCommits := x.state.pendingCommits.insert tid q } } := by
  refine ⟨fun tid' hmem => ?_, fun tid' req' hl => ?_, hx.announced, hx.decided, hx.kept⟩
  · rcases AList.mem_insert _ |>.1 hmem with rfl | hold
    · exact htid
    · exact hx.disjoint tid' hold
  · rw [Table.lookup_insert_eq] at hl
    split_ifs at hl with heq
    · cases hl
      rw [heq]
      exact hreq
    · exact hx.pending tid' req' hl

theorem Once.eraseCommit (hx : Once R x) (tid : TxnId) :
    Once R { x with state := { x.state with
      pendingCommits := x.state.pendingCommits.erase tid } } := by
  refine ⟨fun tid' hmem => ?_, fun tid' req' hl => ?_, hx.announced, hx.decided, hx.kept⟩
  · exact hx.disjoint tid' (AList.mem_erase.1 hmem).2
  · rw [Table.lookup_erase_eq] at hl
    split_ifs at hl
    exact hx.pending tid' req' hl

/-- A decision takes the transaction from `pendingCommits` to `commitResults`. Announced it
may be once, and only if it is no abort. -/
theorem Once.settle (hx : Once R x) (htid : tid ∉ x.state.commitResults)
    (r : CommitResult × Bool) {ps : List Pkt} {es : List Event}
    (hother : ∀ tid' ≠ tid, ps.countP (fun p => announces tid' p.msg) = 0)
    (hone : ps.countP (fun p => announces tid p.msg) ≤ 1)
    (habort : ps.countP (fun p => announces tid p.msg) ≠ 0 → r.1 ≠ .abort) :
    Once R
      { state :=
          { pendingCommits := x.state.pendingCommits.erase tid
            commitResults := x.state.commitResults.insert tid r }
        sent := x.sent ++ ps
        events := es } := by
  have hzero := hx.announcements_eq_zero htid
  refine ⟨fun tid' hmem => ?_, fun tid' req' hl => ?_, fun tid' => ?_, fun tid' hne => ?_,
    fun tid' r' hr' => ?_⟩
  · obtain ⟨hne, hmem'⟩ := AList.mem_erase.1 hmem
    show tid' ∉ x.state.commitResults.insert tid r
    rw [AList.mem_insert]
    rintro (heq | hin)
    · exact hne heq
    · exact hx.disjoint tid' hmem' hin
  · rw [Table.lookup_erase_eq] at hl
    split_ifs at hl
    exact hx.pending tid' req' hl
  · show announcements tid' { x with sent := x.sent ++ ps } ≤ 1
    rw [announcements_send]
    by_cases heq : tid' = tid
    · rw [heq, hzero, Nat.zero_add]
      exact hone
    · rw [hother tid' heq, Nat.add_zero]
      exact hx.announced tid'
  · change announcements tid' { x with sent := x.sent ++ ps } ≠ 0 at hne
    rw [announcements_send] at hne
    show ∃ r', (x.state.commitResults.insert tid r).lookup tid' = some r' ∧ r'.1 ≠ .abort
    rw [Table.lookup_insert_eq]
    by_cases heq : tid' = tid
    · rw [heq, hzero, Nat.zero_add] at hne
      rw [if_pos heq]
      exact ⟨r, rfl, habort hne⟩
    · rw [hother tid' heq, Nat.add_zero] at hne
      rw [if_neg heq]
      exact hx.decided tid' hne
  · show (x.state.commitResults.insert tid r).lookup tid' = some r'
    have hold := hx.kept tid' r' hr'
    rw [Table.lookup_insert_eq, if_neg]
    · exact hold
    · rintro rfl
      exact htid (AList.lookup_isSome.1 (by rw [hold]; rfl))

/-- The packets of an announcement: one `NotifyReplicateResult`, and the decision for every
coordinator. -/
theorem announce_once (hx : Once R x) (htid : req.tid ∉ x.state.commitResults)
    {result : CommitResult} (hresult : result ≠ .abort) :
    wp (announce env req result) (fun _ => Once R) (Once R) x := by
  simp only [announce, record, notifyReplicateResult, wp_bind, wp_update, wp_emit, wp_send,
    eraseCommit, List.append_assoc]
  have hship : ∀ tid', (((List.range env.cfg.n).map fun i =>
      (⟨.coordinator env.coordinatorId, .coordinator i, .replicateDecision
        { tid := req.tid, state := req.state, timestamp := req.timestamp }⟩ : Pkt)).countP
        fun p => announces tid' p.msg) = 0 := by
    intro tid'
    rw [List.countP_eq_zero]
    intro p hp
    obtain ⟨i, _, rfl⟩ := List.mem_map.1 hp
    exact Bool.false_ne_true
  refine hx.settle htid (result, true) ?_ ?_ fun _ => hresult
  · intro tid' hne
    rw [List.countP_append, hship, List.countP_singleton, Nat.add_zero, if_neg]
    simpa [announces] using hne.symm
  · rw [List.countP_append, hship, List.countP_singleton, Nat.add_zero]
    split_ifs
    · exact le_refl 1
    · exact Nat.zero_le 1

theorem notifyCommitDecision_quiet (env : CoordinatorEnv) (req : PendingCommit) :
    ∀ p ∈ (req.participants.filter fun p => p % env.cfg.n = env.coordinatorId).map fun p =>
      (⟨.sendOnly, .replica p env.coordinatorId, .notifyDecision
        { tid := req.tid, state := req.state, timestamp := req.timestamp }⟩ : Pkt),
      ∀ tid, announces tid p.msg = false := by
  intro p hp tid
  obtain ⟨q, _, rfl⟩ := List.mem_map.1 hp
  rfl

theorem rejectCommit_once (hx : Once R x) (htid : req.tid ∉ x.state.commitResults) :
    wp (rejectCommit env req) (fun _ => Once R) (Once R) x := by
  simp only [rejectCommit, record, notifyCommitDecision, wp_bind, wp_update, wp_emit, wp_send,
    eraseCommit]
  have hquiet := fun tid' => (List.countP_eq_zero (p := fun p : Pkt => announces tid' p.msg)).2
    fun p hp => by
      rw [notifyCommitDecision_quiet env { req with state := .abort, reachConsensus := true } p hp]
      exact Bool.false_ne_true
  refine hx.settle htid (.abort, false) (fun tid' _ => hquiet tid') ?_ fun hne => ?_
  · rw [hquiet]
    exact Nat.zero_le 1
  · exact absurd (hquiet req.tid) hne

/-! ### The entry of a transaction -/

theorem newCommit_sound (env : CoordinatorEnv) (ω : Choice) (tid : TxnId) :
    (newCommit env ω tid).Sound tid :=
  ⟨rfl, fun h => by cases h⟩

theorem votedCommit_sound (hx : Once R x) (env : CoordinatorEnv) (ω : Choice) (tid : TxnId)
    (participants : List Shard) (primaryShard primaryCoordinator timestamp : ℕ) :
    (votedCommit env ω (x.state.pendingCommits.lookup tid) tid participants primaryShard
      primaryCoordinator timestamp).Sound tid := by
  cases hl : x.state.pendingCommits.lookup tid with
  | none => exact ⟨rfl, fun h => by cases h⟩
  | some req =>
      have hreq := hx.pending tid req hl
      simp only [votedCommit, learnParticipants]
      split_ifs
      · exact hreq
      · exact hreq

theorem pending_sound (hx : Once R x) (env : CoordinatorEnv) (ω : Choice) (tid : TxnId) :
    ((x.state.pendingCommits.lookup tid).getD (newCommit env ω tid)).Sound tid := by
  cases hl : x.state.pendingCommits.lookup tid with
  | none => exact newCommit_sound env ω tid
  | some req => exact hx.pending tid req hl

/-- Consensus is on `PREPARED`. -/
theorem collectVote_sound (hreq : req.Sound tid) :
    (collectVote req).2.Sound tid ∧
      ((collectVote req).1 = true → (collectVote req).2.state = .prepared) := by
  have hsame : (reachConsensus req).2.Sound tid := by
    unfold reachConsensus
    split_ifs
    · exact hreq
    · exact hreq
  simp only [collectVote]
  split_ifs with hreached
  · exact ⟨⟨hsame.1, fun _ => rfl⟩, fun _ => rfl⟩
  · exact ⟨hsame, fun htrue => absurd htrue hreached⟩

theorem addReply_sound (hreq : req.Sound tid) (reply : BypassLeaderReply) :
    (addReply req reply).2.Sound tid := by
  simp only [addReply]
  split_ifs
  · exact hreq
  · exact hreq

theorem collectReply_sound (hreq : req.Sound tid) (new : Bool) :
    (collectReply new req).2.Sound tid := by
  simp only [collectReply]
  split_ifs
  · exact hreq
  · exact hreq

/-! ### The handlers -/

theorem tallyVote_once (hx : Once R x) (htid : tid ∉ x.state.commitResults)
    (hreq : req.Sound tid) (free : PendingCommit → Bool) :
    wp (tallyVote env tid req free) (fun _ => Once R) (Once R) x := by
  obtain ⟨hsound, hstate⟩ := collectVote_sound hreq
  have hx₁ := hx.setCommit htid hsound
  simp only [tallyVote, wp_bind, setCommit, wp_update, wp_when, notifyCommitDecision, wp_send]
  refine ⟨fun hreached => ?_, fun _ => hx₁⟩
  have hx₂ := hx₁.send (notifyCommitDecision_quiet env (collectVote req).2)
  refine ⟨fun _ => announce_once hx₂ ?_ ?_, fun _ => hx₂⟩
  · rw [hsound.1]
    exact htid
  · rw [hstate hreached]
    intro h
    cases h

theorem handleReplicateReplyAndVote_once (hx : Once R x) (msg : ReplicateReplyAndVote) :
    wp (handleReplicateReplyAndVote env ω msg) (fun _ => Once R) (Once R) x := by
  simp only [handleReplicateReplyAndVote, wp_bind, wp_read, wp_ite, wp_pure, setCommit, wp_update]
  refine ⟨fun _ => hx, fun htid => ?_⟩
  have hreq := votedCommit_sound hx env ω msg.tid msg.participants msg.primaryShard
    msg.primaryCoordinator msg.timestamp
  have hx₁ := hx.setCommit htid hreq
  refine ⟨fun _ => ?_, fun _ => ?_⟩
  · refine wp_mono (fun _ y (hy : Once R y) => hy.send ?_) (fun _ hy => hy) ?_
    · intro p hp tid
      rw [List.mem_singleton.1 hp]
      rfl
    · exact tallyVote_once hx₁ htid (by exact hreq) _
  · apply rejectCommit_once hx₁
    rw [hreq.1]
    exact htid

theorem handleBypassLeaderReply_once (hx : Once R x) (msg : BypassLeaderReply) :
    wp (handleBypassLeaderReply env ω msg) (fun _ => Once R) (Once R) x := by
  have hreq := collectReply_sound
    (addReply_sound (pending_sound hx env ω msg.tid) msg)
    (addReply ((x.state.pendingCommits.lookup msg.tid).getD (newCommit env ω msg.tid)) msg).1
  simp only [handleBypassLeaderReply, wp_bind, wp_read, wp_ite, wp_pure, setCommit, wp_update,
    wp_when]
  refine ⟨fun _ => hx, fun htid => ?_⟩
  have hx₁ := hx.setCommit htid hreq
  refine ⟨fun _ => announce_once hx₁ ?_ (fun h => by cases h), fun _ => hx₁⟩
  rw [hreq.1]
  exact htid

/-- The loop over the shards of a union. -/
theorem addReplies_once (hx : Once R x) (htid : tid ∉ x.state.commitResults) (replica : ℕ)
    (qs : List Shard) (already : Bool) (hreq : req.Sound tid) :
    wp (addReplies env tid replica qs already req) (fun _ => Once R) (Once R) x := by
  induction qs generalizing already req with
  | nil => exact hx.setCommit htid hreq
  | cons q qs ih =>
      simp only [addReplies, wp_ite, wp_bind, setCommit, wp_update]
      refine ⟨fun _ => ih _ (by exact hreq), fun _ => ⟨fun _ => ?_, fun _ => ?_⟩⟩
      · refine announce_once (hx.setCommit htid (collectReply_sound (by exact hreq) true)) ?_ (fun h => by cases h)
        rw [(collectReply_sound (by exact hreq) true).1]
        exact htid
      · exact ih _ (collectReply_sound (by exact hreq) true)

theorem handleBypassLeaderReplyUnion_once (hx : Once R x) (msg : BypassLeaderReplyUnion) :
    wp (handleBypassLeaderReplyUnion env ω msg) (fun _ => Once R) (Once R) x := by
  simp only [handleBypassLeaderReplyUnion, wp_bind, wp_read, wp_ite, wp_pure]
  refine ⟨fun _ => hx, fun htid => ?_⟩
  exact addReplies_once hx htid msg.replica msg.shards false (pending_sound hx env ω msg.tid)

/-- The handler does not look at `commitResults`: what is pending is not decided. -/
theorem handleNotifyDependenciesAreCleared_once (hx : Once R x)
    (msg : NotifyDependenciesAreCleared) :
    wp (handleNotifyDependenciesAreCleared env msg) (fun _ => Once R) (Once R) x := by
  simp only [handleNotifyDependenciesAreCleared, wp_bind, wp_read]
  cases hl : x.state.pendingCommits.lookup msg.tid with
  | none => exact hx
  | some req =>
      have htid := hx.disjoint msg.tid (AList.lookup_isSome.1 (by rw [hl]; rfl))
      have hreq := hx.pending msg.tid req hl
      have hx₁ := hx.setCommit (q := { req with
        dependencies := req.dependencies.insert msg.shard false }) htid hreq
      simp only [wp_bind, setCommit, wp_update, wp_when, Bool.and_eq_true]
      refine ⟨fun hready => announce_once hx₁ ?_ ?_, fun _ => hx₁⟩
      · rw [show req.tid = msg.tid from hreq.1]
        exact htid
      · rw [show req.state = .prepared from hreq.2 hready.1.2]
        intro h
        cases h

theorem handleReplyDecision_once (hx : Once R x) (msg : ReplyDecision) :
    wp (handleReplyDecision msg) (fun _ => Once R) (Once R) x := by
  simp only [handleReplyDecision, wp_bind, wp_read]
  cases hl : x.state.pendingCommits.lookup msg.tid with
  | none => exact hx
  | some req =>
      have htid := hx.disjoint msg.tid (AList.lookup_isSome.1 (by rw [hl]; rfl))
      have hreq := hx.pending msg.tid req hl
      have hx₁ := hx.setCommit (q := { req with
        commitDecisionReplies := insert msg.coordinatorId req.commitDecisionReplies }) htid hreq
      simp only [wp_ite, wp_pure, wp_bind, setCommit, eraseCommit, wp_update, wp_when]
      exact ⟨fun _ => hx, fun _ => ⟨fun _ => hx₁.eraseCommit msg.tid, fun _ => hx₁⟩⟩

/-! ### Runs -/

theorem handle_once (hx : Once R x) (d : Delivery) : Once R (handle env x d) := by
  obtain ⟨report, ω⟩ := d
  cases report with
  | vote m => exact wp_state (handleReplicateReplyAndVote_once hx m)
  | reply m => exact wp_state (handleBypassLeaderReply_once hx m)
  | replyUnion m => exact wp_state (handleBypassLeaderReplyUnion_once hx m)
  | cleared m => exact wp_state (handleNotifyDependenciesAreCleared_once hx m)
  | decisionReply m => exact wp_state (handleReplyDecision_once hx m)

theorem Once.start : Once ∅ { state := {} } := by
  refine ⟨?_, ?_, fun _ => Nat.zero_le 1, fun _ hne => absurd rfl hne, ?_⟩
  · intro tid hmem
    exact absurd hmem (AList.notMem_empty tid)
  · intro tid req hl
    cases hl
  · intro tid r hr
    cases hr

theorem run_once (hx : Once R x) (ds : List Delivery) : Once R (Calls.run (handle env) x ds) :=
  Calls.run_invariant hx fun d _ _ hs => handle_once hs d

theorem after_once (env : CoordinatorEnv) (ds : List Delivery) : Once ∅ (after env ds) :=
  run_once Once.start ds

/-- What is decided now is decided so in the base of the invariant too. -/
theorem Once.rebase (hx : Once R x) : Once x.state.commitResults x :=
  ⟨hx.disjoint, hx.pending, hx.announced, hx.decided, fun _ _ hr => hr⟩

/-- **No handler has anything to do for a decided transaction.** -/
theorem handle_decided (hx : Once R x) {d : Delivery}
    (htid : d.report.tid ∈ x.state.commitResults) : handle env x d = x := by
  have hnone : x.state.pendingCommits.lookup d.report.tid = none := by
    rw [AList.lookup_eq_none]
    intro hmem
    exact hx.disjoint _ hmem htid
  obtain ⟨report, ω⟩ := d
  cases report with
  | vote m =>
      show (handleReplicateReplyAndVote env ω m x).state = x
      apply wp_state (P := (· = x))
      simp only [handleReplicateReplyAndVote, wp_bind, wp_read, wp_ite, wp_pure]
      exact ⟨fun _ => trivial, fun hnot => absurd htid hnot⟩
  | reply m =>
      show (handleBypassLeaderReply env ω m x).state = x
      apply wp_state (P := (· = x))
      simp only [handleBypassLeaderReply, wp_bind, wp_read, wp_ite, wp_pure]
      exact ⟨fun _ => trivial, fun hnot => absurd htid hnot⟩
  | replyUnion m =>
      show (handleBypassLeaderReplyUnion env ω m x).state = x
      apply wp_state (P := (· = x))
      simp only [handleBypassLeaderReplyUnion, wp_bind, wp_read, wp_ite, wp_pure]
      exact ⟨fun _ => trivial, fun hnot => absurd htid hnot⟩
  | cleared m =>
      show (handleNotifyDependenciesAreCleared env m x).state = x
      apply wp_state (P := (· = x))
      simp only [handleNotifyDependenciesAreCleared, wp_bind, wp_read]
      rw [show x.state.pendingCommits.lookup m.tid = none from hnone]
      rfl
  | decisionReply m =>
      show (handleReplyDecision m x).state = x
      apply wp_state (P := (· = x))
      simp only [handleReplyDecision, wp_bind, wp_read]
      rw [show x.state.pendingCommits.lookup m.tid = none from hnone]
      rfl

/-- **A coordinator decides once.** After any sequence of reports: no transaction is pending
and decided; none was announced twice, and none that is recorded as `ABORT` was announced.
A recorded decision stays as it is, and a further report for its transaction changes nothing
in the coordinator and makes it send nothing. -/
theorem decides_once (env : CoordinatorEnv) (ds : List Delivery) (tid : TxnId) :
    (tid ∈ (after env ds).state.pendingCommits → tid ∉ (after env ds).state.commitResults) ∧
    announcements tid (after env ds) ≤ 1 ∧
    ∀ r, (after env ds).state.commitResults.lookup tid = some r →
      (r.1 = .abort → announcements tid (after env ds) = 0) ∧
      (∀ ds', (after env (ds ++ ds')).state.commitResults.lookup tid = some r) ∧
      ∀ d : Delivery, d.report.tid = tid → after env (ds ++ [d]) = after env ds := by
  have hx := after_once env ds
  refine ⟨hx.disjoint tid, hx.announced tid, fun r hr => ⟨fun habort => ?_, fun ds' => ?_, ?_⟩⟩
  · by_contra hne
    obtain ⟨r', hr', hnot⟩ := hx.decided tid hne
    rw [hr] at hr'
    cases hr'
    exact hnot habort
  · have hlater : Once (after env ds).state.commitResults (after env (ds ++ ds')) := by
      show Once _ (Calls.run (handle env) _ (ds ++ ds'))
      rw [Calls.run_append]
      exact run_once hx.rebase ds'
    exact hlater.kept tid r hr
  · intro d hd
    rw [after, Calls.run_concat]
    apply handle_decided hx
    rw [hd]
    exact AList.lookup_isSome.1 (by rw [hr]; rfl)

end Coordinator

end D2PC
