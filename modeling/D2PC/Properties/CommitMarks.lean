import D2PC.Invariant.LogStates
import D2PC.Properties.Residue

/-!
# The entry a commit marks

`HandleCommit` writes the timestamp of a decision to the log entry of the transaction, and
`notifyCommitToReplica` the status. The entry is found by `req->lsn` the first time and by
`req->tid` the second time: the status goes to the entry that happens to have the number of the
transaction.

* `Replica.commitLog`, `Replica.handleCommit_commitLog` : the log after a commit;
* `Replica.Marks` : the entry of the transaction has state and timestamp of the decision, and
  the entries of other transactions are as they were;
* `Replica.OwnsEntry` : the transaction has the number of its entry, or nothing is to be written;
* `commit_marks` : a commit marks its own entry exactly then; in the runs in which all do, every
  entry is in the state of a decision of its own transaction;
* `commit_marks_stranger` : a commit that marks the entry of another transaction.
-/

namespace D2PC

open Prog Ctx

namespace Replica

variable {env : ReplicaEnv} {ω : Choice} {x : Ctx Replica Addr Msg Event} {msg : CommitMsg}
  {req : PendingTransaction} {l : Log} {e : LogEntry}

/-! ### One commit -/

/-- The log after a commit of a transaction that takes part. Without the entry the process dies
before it writes. -/
def commitLog (l : Log) (msg : CommitMsg) (req : PendingTransaction) : Log :=
  if (l.find req.lsn).isSome then
    if req.sendConfirms then l.setTs req.lsn msg.timestamp
    else (l.setTs req.lsn msg.timestamp).setStatus req.tid msg.state
  else l

/-- A program that keeps every property of the log keeps the log. -/
theorem wp_log_eq {α : Type} {p : ReplicaM α} (hp : ∀ L, KeepsLog L p) (hx : x.state.log = l) :
    wp p (fun _ y => y.state.log = l) (fun y => y.state.log = l) x :=
  hp (· = l) x hx

/-- The status is written unless the followers were told before. -/
theorem carryOut_log (hx : x.state.log = l) :
    wp (carryOut env ω msg req)
      (fun _ y => y.state.log = if req.sendConfirms then l else l.setStatus req.tid msg.state)
      (fun y => y.state.log = if req.sendConfirms then l else l.setStatus req.tid msg.state) x := by
  have happly : ∀ L, KeepsLog L (when (!req.reachCommitDecision) (applyToStore msg)) :=
    fun L => .when (applyToStore_log msg)
  unfold carryOut
  rw [wp_bind, wp_when]
  cases req.sendConfirms with
  | true => exact ⟨(fun h => by cases h), fun _ => wp_log_eq happly hx⟩
  | false =>
      refine ⟨fun _ => wp_mono (fun _ y hy => wp_log_eq happly hy) (fun _ hy => hy) ?_, fun h => by cases h⟩
      unfold notifyCommitToReplica
      rw [wp_bind, wp_update]
      refine wp_log_eq (fun L => ?_) (by rw [hx]; rfl)
      refine .ite (.forM fun p _ => send_log _) (.bind (send_log _) fun _ => .when ?_)
      exact modifyPending_log _ _

/-- **The log after a commit.** -/
theorem handleCommit_commitLog (hreq : x.state.pendingTxns.lookup msg.tid = some req)
    (hpart : req.isParticipant = true) :
    (handleCommit env ω msg x).state.state.log = commitLog x.state.log msg req := by
  refine wp_state (x := handleCommit env ω msg)
    (P := fun y : Ctx Replica Addr Msg Event => y.state.log = commitLog x.state.log msg req) ?_
  simp only [handleCommit, wp_bind, wp_read, hreq, wp_update, wp_eraseClient]
  unfold commitPending
  rw [if_neg (by rw [hpart]; intro h; cases h), wp_bind, wp_read, wp_bind]
  cases hentry : x.state.log.find req.lsn with
  | none =>
      rw [wp_deref_none, commitLog, hentry]
      rfl
  | some e =>
      have hlog : commitLog x.state.log msg req = if req.sendConfirms then
          x.state.log.setTs req.lsn msg.timestamp
          else (x.state.log.setTs req.lsn msg.timestamp).setStatus req.tid msg.state := by
        rw [commitLog, hentry]
        rfl
      rw [wp_deref_some, wp_bind, wp_update, wp_bind, hlog]
      refine wp_mono (fun _ y hy => wp_log_eq (fun L => ?_) hy) (fun _ hy => hy) (carryOut_log rfl)
      exact .bind (activePtr_log _) fun _ => .bind (settleDependents_log _) fun _ => retire_log _ _

/-- The entry of the transaction is marked with the decision, and no entry of another one is
touched. -/
structure Marks (l l' : Log) (msg : CommitMsg) (req : PendingTransaction) : Prop where
  own : ∃ e, l'.find req.lsn = some e ∧ e.txn = msg.tid ∧ e.state = msg.state ∧
    e.ts = msg.timestamp
  others : ∀ lsn e, l.find lsn = some e → e.txn ≠ msg.tid → l'.find lsn = some e

/-- The transaction has the number of its entry, or its entry is in the state of the decision
already; and there is no entry of another transaction under that number, unless it is in that
state too. -/
structure OwnsEntry (l : Log) (msg : CommitMsg) (req : PendingTransaction) : Prop where
  own : ∃ e, l.find req.lsn = some e ∧ e.txn = msg.tid ∧
    ((req.sendConfirms = false ∧ req.tid = req.lsn) ∨ e.state = msg.state)
  others : req.sendConfirms = false → ∀ e, l.find req.tid = some e → e.txn ≠ msg.tid →
    e.state = msg.state

/-- An entry after the commit. -/
def marked (msg : CommitMsg) (req : PendingTransaction) (lsn : ℕ) (e : LogEntry) : LogEntry :=
  { e with
    ts := if lsn = req.lsn then msg.timestamp else e.ts
    state := if req.sendConfirms = false ∧ lsn = req.tid then msg.state else e.state }

theorem find_commitLog (h : (l.find req.lsn).isSome = true) (lsn : ℕ) :
    (commitLog l msg req).find lsn = (l.find lsn).map (marked msg req lsn) := by
  have hts : (l.setTs req.lsn msg.timestamp).find lsn = (l.find lsn).map fun e =>
      { e with ts := if lsn = req.lsn then msg.timestamp else e.ts } := by
    rw [Log.setTs, Log.find_modify]
    split_ifs with hlsn
    · rw [hlsn]
    · exact Option.map_id'.symm
  rw [commitLog, if_pos h]
  cases hconf : req.sendConfirms with
  | true =>
      rw [if_pos rfl, hts]
      congr 1
      funext e
      simp [marked, hconf]
  | false =>
      rw [if_neg (fun h => by cases h), Log.setStatus, Log.find_modify]
      by_cases hlsn : lsn = req.tid
      · rw [if_pos hlsn, ← hlsn, hts, Option.map_map]
        congr 1
        funext e
        simp [marked, hconf, hlsn]
      · rw [if_neg hlsn, hts]
        congr 1
        funext e
        simp [marked, hlsn]

/-- A commit marks its own entry and no other one exactly if it owns the one it writes to. -/
theorem marks_iff : Marks l (commitLog l msg req) msg req ↔ OwnsEntry l msg req := by
  cases hentry : l.find req.lsn with
  | none =>
      have hnone : commitLog l msg req = l := by
        rw [commitLog, hentry]
        rfl
      constructor
      · rintro ⟨⟨e, he, -⟩, -⟩
        rw [hnone, hentry] at he
        cases he
      · rintro ⟨⟨e, he, -⟩, -⟩
        rw [hentry] at he
        cases he
  | some e =>
      have hfind : ∀ lsn, (commitLog l msg req).find lsn = (l.find lsn).map (marked msg req lsn) :=
        find_commitLog (by rw [hentry]; rfl)
      constructor
      · rintro ⟨⟨e', he', htxn, hstate, -⟩, hothers⟩
        rw [hfind, hentry] at he'
        obtain rfl : marked msg req req.lsn e = e' := Option.some.inj he'
        refine ⟨⟨e, hentry, htxn, ?_⟩, fun hconf e' he' hne => ?_⟩
        · by_cases hown : req.sendConfirms = false ∧ req.lsn = req.tid
          · exact .inl ⟨hown.1, hown.2.symm⟩
          · rw [marked] at hstate
            exact .inr ((if_neg hown).symm.trans hstate)
        · have hsame := hothers req.tid e' he' hne
          rw [hfind, he'] at hsame
          have hstate' := congrArg LogEntry.state (Option.some.inj hsame)
          exact hstate'.symm.trans (if_pos ⟨hconf, rfl⟩)
      · rintro ⟨⟨e', he', htxn, hown⟩, hothers⟩
        obtain rfl : e = e' := Option.some.inj (hentry.symm.trans he')
        refine ⟨⟨marked msg req req.lsn e, by rw [hfind, hentry]; rfl, htxn, ?_, if_pos rfl⟩,
          fun lsn e' he' hne => ?_⟩
        · show (if req.sendConfirms = false ∧ req.lsn = req.tid then msg.state else e.state) = _
          split_ifs with hif
          · rfl
          · rcases hown with ⟨hconf, htid⟩ | hstate
            · exact absurd ⟨hconf, htid.symm⟩ hif
            · exact hstate
        · have hlsn : lsn ≠ req.lsn := by
            rintro rfl
            rw [hentry] at he'
            exact hne (Option.some.inj he' ▸ htxn)
          rw [hfind, he']
          refine congrArg some ?_
          simp only [marked, if_neg hlsn]
          split_ifs with hif
          · rw [← hothers hif.1 e' (hif.2 ▸ he') hne]
          · rfl

end Replica

/-! ### Runs -/

variable {cfg : Config} {w : GlobalState} {tr : List RunStep} {s : Shard} {i : ℕ}

/-- The step carries out a decision of the transaction at the replica `i` of shard `s`. -/
def RunStep.decides (cfg : Config) (s : Shard) (i : ℕ) (tid : TxnId) (state : LogEntryState)
    (x : RunStep) : Prop :=
  x.node = .replica s i ∧
    ((∃ msg, (GlobalState.replica x.before s i).HandsCommit x.input msg ∧ msg.tid = tid ∧
        msg.state = state) ∨
      (cfg.mode = .rc ∧ ∃ src dst m, x.input = .recv ⟨src, dst, .replicateCommit m⟩ ∧
        m.tid = tid ∧ m.state = state))

/-- A commit finds its own entry under the number of the transaction; in the RC mode, where the
status is also written for a `ReplicateCommit`, that entry is the one of its transaction too. -/
def RunStep.owns (cfg : Config) (x : RunStep) : Prop :=
  ∀ s i, x.node = .replica s i →
    (∀ msg req, (GlobalState.replica x.before s i).HandsCommit x.input msg →
      (GlobalState.replica x.before s i).pendingTxns.lookup msg.tid = some req →
      req.isParticipant = true → Replica.OwnsEntry (GlobalState.replica x.before s i).log msg req) ∧
    (cfg.mode = .rc → ∀ src dst m e, x.input = .recv ⟨src, dst, .replicateCommit m⟩ →
      (GlobalState.replica x.before s i).log.find m.lsn = some e → e.txn = m.tid)

/-- The entry is as it was when it was added or copied. -/
def AsEntered (w : GlobalState) (s : Shard) (i : ℕ) (lsn : ℕ) (e : LogEntry) : Prop :=
  e.state = .prepareOk ∨ ∃ p ∈ w.net, ∃ m, p.dst = .replica s i ∧ p.msg = .replicateTransaction m ∧
    m.txnLog.lsn = lsn ∧ e.txn = m.txnLog.txnId ∧ e.state = m.txnLog.state

/-- What a step makes of the entries of a log. -/
def Rewritten (cfg : Config) (s : Shard) (i : ℕ) (x : RunStep) (l : Log) : Prop :=
  ∀ lsn e', l.find lsn = some e' →
    (∃ e, (GlobalState.replica x.before s i).log.find lsn = some e ∧ e.txn = e'.txn ∧
      (e.state = e'.state ∨ x.decides cfg s i e'.txn e'.state)) ∨
    ((∃ src dst m, x.input = .recv ⟨src, dst, .prepareTransaction m⟩) ∧ e'.state = .prepareOk) ∨
    ∃ src dst m, x.input = .recv ⟨src, dst, .replicateTransaction m⟩ ∧ m.txnLog.lsn = lsn ∧
      e'.txn = m.txnLog.txnId ∧ e'.state = m.txnLog.state

/-- A status is written that is right for the entry. -/
theorem Rewritten.setStatus {x : RunStep} {l : Log} (h : Rewritten cfg s i x l) {lsn : ℕ}
    {state : LogEntryState}
    (hprepare : ∀ src dst m, x.input ≠ .recv ⟨src, dst, .prepareTransaction m⟩)
    (hcopy : ∀ src dst m, x.input ≠ .recv ⟨src, dst, .replicateTransaction m⟩)
    (hright : ∀ e, (GlobalState.replica x.before s i).log.find lsn = some e →
      e.state = state ∨ x.decides cfg s i e.txn state) :
    Rewritten cfg s i x (l.setStatus lsn state) := by
  intro lsn' e' he'
  rw [Log.setStatus, Log.find_modify] at he'
  split_ifs at he' with hlsn
  · obtain ⟨e₁, he₁, rfl⟩ := Option.map_eq_some_iff.1 he'
    subst hlsn
    rcases h lsn' e₁ he₁ with ⟨e, he, htxn, -⟩ | ⟨⟨src, dst, m, hin⟩, -⟩ | ⟨src, dst, m, hin, -⟩
    · have hstate := hright e he
      rw [htxn] at hstate
      exact .inl ⟨e, he, htxn, hstate⟩
    · exact absurd hin (hprepare src dst m)
    · exact absurd hin (hcopy src dst m)
  · exact h lsn' e' he'

theorem Rewritten.setTs {x : RunStep} {l : Log} (h : Rewritten cfg s i x l) (lsn ts : ℕ) :
    Rewritten cfg s i x (l.setTs lsn ts) := by
  intro lsn' e' he'
  rw [Log.setTs, Log.find_modify] at he'
  split_ifs at he' with hlsn
  · obtain ⟨e₁, he₁, rfl⟩ := Option.map_eq_some_iff.1 he'
    subst hlsn
    exact h lsn' e₁ he₁
  · exact h lsn' e' he'

/-- **One step** writes no state to an entry but that of a decision of its transaction. -/
theorem rewritten_step {ω : Choice} {input : Input Addr Msg Act}
    (hown : RunStep.owns cfg ⟨w, .replica s i, ω, input⟩) :
    Rewritten cfg s i ⟨w, .replica s i, ω, input⟩
      (Replica.handleInput ⟨cfg, s, i⟩ ω input { state := w.replica s i }).state.state.log := by
  obtain ⟨hcommits, hfollows⟩ := hown s i rfl
  refine Replica.handleInput_log ⟨?_, ?_, ?_, ?_⟩ fun lsn e he => .inl ⟨e, he, rfl, .inl rfl⟩
  · intro src dst m hin l txn wset ts hl lsn e he
    rw [Log.find_add] at he
    split_ifs at he
    · refine .inr (.inl ⟨⟨src, dst, m, hin⟩, ?_⟩)
      rw [← Option.some.inj he]
    · exact hl lsn e he
  · intro src dst m hin l hl lsn e he
    rw [Log.find_addProto] at he
    split_ifs at he with hlsn
    · refine .inr (.inr ⟨src, dst, m, hin, hlsn.symm, ?_⟩)
      rw [← Option.some.inj he]
      exact ⟨rfl, rfl⟩
    · exact hl lsn e he
  · intro msg hhands req hreq hpart
    refine ⟨fun l hl => hl.setTs _ _, fun hconf l hl => hl.setStatus ?_ ?_ fun e he => ?_⟩
    · rintro src dst m (hin : input = _)
      rw [hin] at hhands
      exact hhands
    · rintro src dst m (hin : input = _)
      rw [hin] at hhands
      exact hhands
    · by_cases htxn : e.txn = msg.tid
      · exact .inr ⟨rfl, .inl ⟨msg, hhands, htxn.symm, rfl⟩⟩
      · exact .inl ((hcommits msg req hhands hreq hpart).others hconf e he htxn)
  · rintro src dst m (hin : input = _) hrc l hl
    refine hl.setStatus ?_ ?_ fun e he => .inr ⟨rfl, .inr ⟨hrc, src, dst, m, hin, ?_, rfl⟩⟩
    · rintro _ _ _ (hin' : input = _)
      rw [hin] at hin'
      cases hin'
    · rintro _ _ _ (hin' : input = _)
      rw [hin] at hin'
      cases hin'
    · exact (hfollows hrc src dst m e hin he).symm

/-- **In a run** whose commits own their entries, every entry is as it was entered or in the
state of a decision of its own transaction. -/
theorem entry_decided (hrun : cfg.system.Trace tr w) (hown : ∀ x ∈ tr, RunStep.owns cfg x)
    {lsn : ℕ} {e : LogEntry} (he : (w.replica s i).log.find lsn = some e) :
    AsEntered w s i lsn e ∨ ∃ x ∈ tr, RunStep.decides cfg s i e.txn e.state x := by
  induction hrun generalizing lsn e with
  | start => cases he
  | @step tr w n input ω hbefore hen ih =>
      have hstay : ∀ {lsn e}, (GlobalState.replica w s i).log.find lsn = some e →
          AsEntered (cfg.system.next w n ω input) s i lsn e ∨
            ∃ x ∈ tr ++ [⟨w, n, ω, input⟩], RunStep.decides cfg s i e.txn e.state x := by
        intro lsn e he
        rcases ih (fun x hx => hown x (List.mem_append_left _ hx)) he with hentered | ⟨x, hx, hd⟩
        · refine .inl (hentered.imp_right ?_)
          rintro ⟨p, hp, hm⟩
          exact ⟨p, List.mem_append_left _ hp, hm⟩
        · exact .inr ⟨x, List.mem_append_left _ hx, hd⟩
      by_cases hn : Node.replica s i = n
      · subst hn
        rw [Config.replica_next] at he
        rcases rewritten_step (hown _ (List.mem_append_right _ List.mem_cons_self)) lsn e he with
          ⟨e₀, he₀, htxn, hsame | hd⟩ | ⟨-, hprepared⟩ | ⟨src, dst, m, hin, hlsn, htxn, hstate⟩
        · have hold := hstay he₀
          rw [AsEntered, htxn, hsame] at hold
          exact hold
        · exact .inr ⟨_, List.mem_append_right _ List.mem_cons_self, hd⟩
        · exact .inl (.inl hprepared)
        · obtain rfl : input = _ := hin
          have hdst : dst = .replica s i := Config.owner_replica hen.2.2
          exact .inl (.inr ⟨_, List.mem_append_left _ hen.2.1, m, hdst, rfl, hlsn, htxn, hstate⟩)
      · rw [Config.replica_next_ne hn] at he
        exact hstay he

/-- **The entry a commit marks.** A commit of a pending participant marks its own entry and no
other one exactly if it owns the entry it writes to; and in every run in which all commits do,
in every mode, an entry is as it was entered or in the state of a decision of its transaction. -/
theorem commit_marks (cfg : Config) :
    (∀ (s : Shard) (i : ℕ) (ω : Choice) (msg : CommitMsg) (req : PendingTransaction)
      (x : Ctx Replica Addr Msg Event), x.state.pendingTxns.lookup msg.tid = some req →
        req.isParticipant = true →
        (Replica.Marks x.state.log (Replica.handleCommit ⟨cfg, s, i⟩ ω msg x).state.state.log msg
          req ↔ Replica.OwnsEntry x.state.log msg req)) ∧
      ∀ (tr : List RunStep) (w : GlobalState), cfg.system.Trace tr w →
        (∀ x ∈ tr, RunStep.owns cfg x) → ∀ s i lsn e, (w.replica s i).log.find lsn = some e →
          AsEntered w s i lsn e ∨ ∃ x ∈ tr, RunStep.decides cfg s i e.txn e.state x := by
  refine ⟨fun s i ω msg req x hreq hpart => ?_, fun tr w hrun hown s i lsn e he => ?_⟩
  · rw [Replica.handleCommit_commitLog hreq hpart]
    exact Replica.marks_iff
  · exact entry_decided hrun hown he

/-! ### Two commits -/

/-- One shard for all keys. -/
def sharedShard : Config := { threeReplicas .fast 1 with keyToShard := fun _ => 0 }

/-- The transaction `0` gets the entry `0`. -/
def ownNumber : Commands := [act 0 (.put "a" "1"), act 0 .commit, act 0 (.task 0), deliver 0]

theorem ownNumber_runs : (sharedShard.run anyStep ownNumber).isSome := by
  decide +kernel

theorem commit_marks_own :
    ∃ w req, sharedShard.run anyStep ownNumber = some w ∧
      (w.replica 0 0).pendingTxns.lookup 0 = some req ∧
      Replica.Marks (w.replica 0 0).log (Replica.handleCommit ⟨sharedShard, 0, 0⟩ {}
        { tid := 0, state := .commit, timestamp := 5 } { state := w.replica 0 0 }).state.state.log
        { tid := 0, state := .commit, timestamp := 5 } req := by
  have hpending : ((GlobalState.replica ((sharedShard.run anyStep ownNumber).get ownNumber_runs) 0
      0).pendingTxns.lookup 0).map (fun req => (req.isParticipant, req.sendConfirms, req.tid,
        req.lsn)) = some (true, false, 0, 0) := by
    decide +kernel
  have hentry : ((GlobalState.replica ((sharedShard.run anyStep ownNumber).get ownNumber_runs) 0
      0).log.find 0).map (·.txn) = some 0 := by
    decide +kernel
  have hrun := (Option.some_get ownNumber_runs).symm
  generalize (sharedShard.run anyStep ownNumber).get ownNumber_runs = w at hpending hentry hrun
  obtain ⟨req, hreq, hfields⟩ := Option.map_eq_some_iff.1 hpending
  obtain ⟨e, he, htxn⟩ := Option.map_eq_some_iff.1 hentry
  simp only [Prod.mk.injEq] at hfields
  obtain ⟨hpart, hconf, htid, hlsn⟩ := hfields
  refine ⟨w, req, hrun, hreq, ((commit_marks sharedShard).1 0 0 {}
    { tid := 0, state := .commit, timestamp := 5 } req { state := w.replica 0 0 } hreq hpart).2
    ⟨⟨e, ?_, htxn, .inl ⟨hconf, ?_⟩⟩, ?_⟩⟩
  · rw [hlsn]
    exact he
  · rw [htid, hlsn]
  · intro _ e' he' hne
    rw [htid] at he'
    cases he.symm.trans he'
    exact absurd htxn hne

/-- The transaction `1` gets the entry `0` and the transaction `9` the entry `1`; then `1`
commits. -/
def strangersNumber : Commands :=
  [act 1 (.put "a" "1"), act 1 .commit, act 1 (.task 0), deliver 0, act 9 (.put "b" "2"),
    act 9 .commit, act 9 (.task 0), deliver 4, deliver 2, deliver 8, deliver 3, deliver 9,
    deliver 10, act 1 .wake, deliver 11]

theorem strangersNumber_runs : (sharedShard.run anyStep strangersNumber).isSome := by
  decide +kernel

/-- **The entry of a stranger.** The commit of `1` leaves its own entry `PREPAREOK` and marks the
entry of `9`, which nobody decided, as committed. -/
theorem commit_marks_stranger :
    ∃ w : GlobalState, sharedShard.run anyStep strangersNumber = some w ∧
      (Node.replica 0 0, Event.applied 1 .commit 0) ∈ w.history ∧
      ((w.replica 0 0).log.find 0).map (fun e => (e.txn, e.state)) = some (1, .prepareOk) ∧
      ((w.replica 0 0).log.find 1).map (fun e => (e.txn, e.state)) = some (9, .commit) ∧
      9 ∈ (w.replica 0 0).pendingTxns := by
  refine ⟨_, (Option.some_get strangersNumber_runs).symm, ?_, ?_, ?_, ?_⟩
  all_goals decide +kernel

end D2PC
