import D2PC.Invariant.Moves
import D2PC.Properties.Residue

/-!
# The votes of a cascading abort

`CascadeAbort` of a transaction is meant to tell every coordinator that the transactions that
read its writes are aborted. The vote it sends names the transaction that was aborted first, and
says `PREPARED`.

* `Replica.cascades` : the transaction a step calls `CascadeAbort` with;
* `Replica.Alone` : no edge of the `out` list of a transaction leads to an active one;
* `Config.Reported` : no vote for what was aborted, an abort for everything reached, and
  coordinators that keep the primary shard;
* `cascade_reported` : a run is so exactly if no cascade of it meets an active transaction;
* `cascade_votes_prepared` : a run that is not.
-/

namespace D2PC

open Protocol Prog Ctx

namespace Replica

variable {env : ReplicaEnv} {ω : Choice} {x : Ctx Replica Addr Msg Event} {T R : TxnId}

/-! ### The transactions a cascade reaches -/

/-- The transaction a step calls `CascadeAbort` with, if it does. -/
def cascades (r : Replica) : Input Addr Msg Act → Option TxnId
  | .recv ⟨_, _, .commit m⟩ =>
      (r.pendingTxns.lookup m.tid).bind fun req =>
        if req.isParticipant = true ∧ (r.log.find req.lsn).isSome = true ∧
            m.state.code ≠ CommitResult.commit.code then some m.tid else none
  | .recv ⟨_, _, .notifyDecision m⟩ =>
      if m.tid ∈ r.pendingTxns ∧ m.state ≠ .prepared then some m.tid else none
  | _ => none

/-- No transaction in the `out` list of `T` is active. -/
def Alone (r : Replica) (T : TxnId) : Prop := ∀ R, r.Follows T R → R ∉ r.activeTxns

instance (r : Replica) (T : TxnId) : Decidable (r.Alone T) :=
  match h : r.activeTxns.lookup T with
  | some (some txn) =>
      decidable_of_iff (∀ R ∈ txn.out, R ∉ r.activeTxns)
        ⟨fun hall R ⟨txn', htxn', hR⟩ => hall R (by cases h.symm.trans htxn'; exact hR),
          fun hall R hR => hall R ⟨txn, h, hR⟩⟩
  | some none => .isTrue fun _ ⟨_, htxn, _⟩ => by cases h.symm.trans htxn
  | none => .isTrue fun _ ⟨_, htxn, _⟩ => by cases h.symm.trans htxn

/-- Whatever active transaction a chain of `out` lists leads to, its first edge leads to an
active one. -/
theorem first_active {r : Replica} (h : Relation.TransGen r.Follows T R) (hR : R ∈ r.activeTxns) :
    ∃ R', r.Follows T R' ∧ R' ∈ r.activeTxns := by
  obtain ⟨R', hfirst, hrest⟩ := Relation.TransGen.head'_iff.1 h
  refine ⟨R', hfirst, ?_⟩
  rcases hrest.cases_head with rfl | ⟨R'', ⟨txn, htxn, -⟩, -⟩
  · exact hR
  · exact AList.lookup_isSome.1 (by rw [htxn]; rfl)

/-! ### A cascade that meets no active transaction -/

/-- No vote was sent. -/
abbrev Hushed (x : Ctx Replica Addr Msg Event) : Prop := ∀ p ∈ x.sent, Utters (fun _ => False) p.msg

/-- No vote was sent, and no transaction in the `out` list of `T` is active. -/
structure Lonely (T : TxnId) (x : Ctx Replica Addr Msg Event) : Prop where
  alone : x.state.Alone T
  hushed : Hushed x

/-- A cascade from `T` sends no votes. -/
theorem cascadeAbort_hushed (hx : Lonely T x) (fuel : ℕ) :
    wp (cascadeAbort env fuel T) (fun _ => Hushed) Hushed x := by
  cases fuel with
  | zero => exact hx.hushed
  | succ fuel =>
      simp only [cascadeAbort, wp_bind, wp_withStore, wp_emit, wp_read]
      split
      · exact hx.hushed
      · simp only [wp_bind, wp_derefActive]
        refine ⟨fun txn htxn => ?_, fun _ => hx.hushed, fun _ => hx.hushed⟩
        -- the loop changes nothing but the counters
        refine wp_mono (fun _ y hy => hy.2) (fun _ hy => hy) (wp_forM (I := fun y =>
          y.state.activeTxns = x.state.activeTxns ∧ Hushed y) (fun out hout y hy => ?_)
          ⟨rfl, hx.hushed⟩)
        have hnone : y.state.activeTxns.lookup out = none := by
          rw [hy.1]
          exact AList.lookup_eq_none.2 (hx.alone out ⟨txn, htxn, hout⟩)
        simp only [wp_bind, wp_read, hnone, wp_update]
        exact hy

/-! ### The steps that cascade -/

/-- The table of active transactions stays as it is. -/
theorem update_lonely {f : Replica → Replica} (hf : ∀ r, (f r).activeTxns = r.activeTxns) :
    Prog.Keeps (Lonely T) (update f : ReplicaM Unit) := by
  intro x hx
  refine ⟨?_, hx.hushed⟩
  rintro R ⟨txn, htxn, hR⟩
  rw [hf] at htxn ⊢
  exact hx.alone R ⟨txn, htxn, hR⟩

theorem modifyPending_lonely (tid : TxnId) (f : PendingTransaction → PendingTransaction) :
    Prog.Keeps (Lonely T) (modifyPending tid f) := by
  refine update_lonely fun r => ?_
  unfold mapPending
  split <;> rfl

theorem send_lonely {ps : List Pkt} (hps : ∀ p ∈ ps, Utters (fun _ => False) p.msg) :
    Prog.Keeps (Lonely T) (send ps : ReplicaM Unit) := by
  intro x hx
  refine ⟨hx.alone, fun p hp => ?_⟩
  rcases List.mem_append.1 hp with hold | hnew
  · exact hx.hushed p hold
  · exact hps p hnew

theorem emit_lonely (e : Event) : Prog.Keeps (Lonely T) (emit e : ReplicaM Unit) :=
  fun _ hx => ⟨hx.alone, hx.hushed⟩

/-- A null pointer is entered for `T` at most. -/
theorem activePtr_lonely : Prog.Keeps (Lonely T) (activePtr T) := by
  intro x hx
  rw [wp_activePtr]
  refine ⟨fun _ _ => hx, fun _ => ⟨?_, hx.hushed⟩⟩
  rintro R ⟨txn, htxn, -⟩
  rw [AList.lookup_insert] at htxn
  cases htxn

theorem notifyCommitToReplica_lonely (req : PendingTransaction) (msg : CommitMsg) :
    Prog.Keeps (Lonely T) (notifyCommitToReplica env ω req msg) := by
  refine .bind (update_lonely fun _ => rfl) fun _ => .ite (.forM fun p _ => ?_) ?_
  · refine send_lonely fun p hp => ?_
    rw [List.mem_singleton.1 hp]
    trivial
  · refine .bind (send_lonely fun p hp => ?_) fun _ => .when (modifyPending_lonely _ _)
    obtain ⟨i, _, rfl⟩ := List.mem_map.1 hp
    trivial

theorem applyToStore_lonely (msg : CommitMsg) : Prog.Keeps (Lonely msg.tid) (applyToStore msg) := by
  refine .bind (modifyPending_lonely _ _) fun _ => .bind activePtr_lonely fun txn => ?_
  split
  · exact .bind (update_lonely fun _ => rfl) fun _ => emit_lonely _
  · exact .bind (.deref _) fun _ => .bind (update_lonely fun _ => rfl) fun _ => emit_lonely _
  · exact .pure _

theorem carryOut_lonely (msg : CommitMsg) (req : PendingTransaction) :
    Prog.Keeps (Lonely msg.tid) (carryOut env ω msg req) :=
  .bind (.when (notifyCommitToReplica_lonely _ _)) fun _ => .when (applyToStore_lonely _)

/-- Before the cascade. -/
theorem Lonely.bind {α β : Type} {p : ReplicaM α} {k : α → ReplicaM β} (hx : Lonely T x)
    (hp : Prog.Keeps (Lonely T) p)
    (hk : ∀ a y, Lonely T y → wp (k a) (fun _ => Hushed) Hushed y) :
    wp (p >>= k) (fun _ => Hushed) Hushed x := by
  rw [wp_bind]
  exact wp_mono hk (fun _ hy => hy.hushed) (hp x hx)

/-- After the cascade. -/
theorem hushed_bind {p : ReplicaM Unit} {k : Unit → ReplicaM Unit}
    (hp : wp p (fun _ => Hushed) Hushed x) (hk : Speaks (fun _ => False) (k ())) :
    wp (p >>= k) (fun _ => Hushed) Hushed x := by
  rw [wp_bind]
  exact wp_mono (fun _ y hy => hk y hy) (fun _ hy => hy) hp

theorem settleDependents_hushed {msg : CommitMsg} (hx : Lonely msg.tid x) :
    wp (settleDependents env msg) (fun _ => Hushed) Hushed x := by
  unfold settleDependents
  split_ifs
  · exact notifyForFollowingDependenies_sends _ x hx.hushed
  · exact cascadeAbort_hushed hx _

/-- **A commit** whose cascade meets no active transaction. -/
theorem handleCommit_hushed {msg : CommitMsg} (hx : Lonely msg.tid x) :
    wp (handleCommit env ω msg) (fun _ => Hushed) Hushed x := by
  refine hx.bind (fun _ hy => hy) fun pending y hy => ?_
  cases pending with
  | none => exact hy.hushed
  | some req =>
      refine hy.bind (update_lonely fun _ => rfl) fun _ z hz => hushed_bind ?_ (.update _)
      unfold commitPending
      split_ifs
      · exact hz.hushed
      · refine hz.bind (fun _ hy => hy) fun log y hy => hy.bind (.deref _) fun _ y hy => ?_
        refine hy.bind (update_lonely fun _ => rfl) fun _ y hy => ?_
        refine hy.bind (carryOut_lonely msg req) fun _ y hy => ?_
        refine hy.bind activePtr_lonely fun txn y hy => hushed_bind (settleDependents_hushed hy) ?_
        exact .bind (.update _) fun _ => .bind (.when (.bind (.deref _) fun _ => .pure _)) fun _ =>
          .bind (.update _) fun _ => .update _

/-- **A decision of the coordinators** whose cascade meets no active transaction. -/
theorem handleDecision_hushed {msg : NotifyDecision} (hx : Lonely msg.tid x) :
    wp (handleDecisionFromCoordinatorReplica env msg) (fun _ => Hushed) Hushed x := by
  refine hx.bind (fun _ hy => hy) fun pending y hy => ?_
  cases pending with
  | none => exact hy.hushed
  | some req =>
      refine hushed_bind ?_ (.bind (.bind (.read _) fun ptr => ?_) fun _ => .update _)
      · unfold endConcurrencyControl
        split_ifs
        · exact hy.hushed
        · refine hy.bind (fun _ hy => hy) fun active z hz => ?_
          exact hushed_bind (cascadeAbort_hushed hz _) (.update _)
      · cases ptr with
        | none => exact .pure _
        | some ptr => exact .bind (.deref _) fun _ => .pure _

/-- A commit that does not cascade. -/
theorem handleCommit_uncascaded {src dst : Addr} {msg : CommitMsg}
    (hnone : x.state.cascades (.recv ⟨src, dst, .commit msg⟩) = none) (hx : Hushed x) :
    wp (handleCommit env ω msg) (fun _ => Hushed) Hushed x := by
  by_cases hcommit : msg.state.code = CommitResult.commit.code
  · exact handleCommit_sends (fun hne => absurd hcommit hne) x hx
  · simp only [handleCommit, wp_bind, wp_read]
    cases hreq : x.state.pendingTxns.lookup msg.tid with
    | none => exact hx
    | some req =>
        simp only [cascades, hreq, Option.bind_some] at hnone
        simp only [wp_bind, wp_update, wp_eraseClient]
        unfold commitPending
        split_ifs with hpart
        · exact hx
        · cases hlog : x.state.log.find req.lsn with
          | none =>
              simp only [wp_bind, wp_read, hlog, wp_deref_none]
              exact hx
          | some e =>
              rw [if_pos ⟨Bool.eq_true_of_not_eq_false hpart, by rw [hlog]; rfl, hcommit⟩] at hnone
              cases hnone

/-- **A step** sends no votes if its cascade meets no active transaction, in the modes in which
no prepare is handed out. -/
theorem handleInput_hushed {r : Replica} {input : Input Addr Msg Act}
    (hprepares : ∀ tid, r.pendingPrepares.lookup tid = none)
    (halone : ∀ T, r.cascades input = some T → r.Alone T) :
    Hushed (handleInput env ω input { state := r }).state := by
  have hstart : Hushed { state := r } := fun p hp => absurd hp List.not_mem_nil
  refine wp_state (x := handleInput env ω input) (P := Hushed) ?_
  cases input with
  | act a =>
      cases a with
      | client a => exact hstart
      | timer t => exact handleTimer_sends t _ hstart
  | recv p =>
      obtain ⟨src, dst, m⟩ := p
      show wp (handleMessage env ω src m) (fun _ => Hushed) Hushed _
      cases m with
      | replicateTransaction m => exact handleReplicateTransaction_sends _ _ _ hstart
      | replicateTransactionReply m => exact handleReplicateTransactionReply_sends _ _ hstart
      | prepareTransaction m => exact handlePrepareTxn_sends _ _ _ hstart
      | prepareTransactionReply m =>
          simp only [handleMessage, handlePrepareTransactionReply, wp_bind, wp_read, hprepares]
          exact hstart
      | commit m =>
          cases hT : r.cascades (.recv ⟨src, dst, .commit m⟩) with
          | none => exact handleCommit_uncascaded hT hstart
          | some T =>
              have hTm : T = m.tid := by
                simp only [cascades, Option.bind_eq_some_iff] at hT
                obtain ⟨req, -, hif⟩ := hT
                split_ifs at hif
                exact (Option.some.inj hif).symm
              exact handleCommit_hushed ⟨hTm ▸ halone T hT, hstart⟩
      | replicateCommit m => exact handleReplicateCommit_sends _ _ hstart
      | getData m =>
          have hread : Speaks (fun _ => False) (handleRead env src m) :=
            .bind (readKeys_sends _ _) fun _ => sendMessage_sends trivial
          exact hread _ hstart
      | notifyDecision m =>
          by_cases hT : m.tid ∈ r.pendingTxns ∧ m.state ≠ .prepared
          · exact handleDecision_hushed ⟨halone _ (if_pos hT), hstart⟩
          · by_cases hprepared : m.state = .prepared
            · exact handleDecisionFromCoordinatorReplica_sends (absurd hprepared) _ hstart
            · have hnone : r.pendingTxns.lookup m.tid = none :=
                AList.lookup_eq_none.2 fun hpending => hT ⟨hpending, hprepared⟩
              simp only [handleMessage, handleDecisionFromCoordinatorReplica, wp_bind, wp_read,
                hnone]
              exact hstart
      | notifyReplicateResult m => exact handleReplicateResult_sends _ _ hstart
      | parallelModeCommit m => exact handleParallelModeCommit_sends _ _ _ hstart
      | _ => exact hstart

end Replica

/-! ### Runs -/

variable {cfg : Config} {w : GlobalState} {tr : List RunStep}

/-- What a step sends. -/
def RunStep.sent (cfg : Config) (x : RunStep) : List Pkt :=
  (cfg.system.handle x.node x.choice x.input { state := x.before.state x.node }).state.sent

/-- The world a step leads to. -/
def RunStep.after (cfg : Config) (x : RunStep) : GlobalState :=
  cfg.system.next x.before x.node x.choice x.input

/-- A replica has aborted the transaction. -/
def Aborted (h : History) (n : Node) (tid : TxnId) : Prop :=
  (n, .cascaded tid) ∈ h ∨ ∃ ts, (n, .applied tid .abort ts) ∈ h

/-- **Cascading aborts are reported as aborts.** -/
structure Config.Reported (cfg : Config) (tr : List RunStep) : Prop where
  /-- No replica votes for a transaction it has aborted. -/
  honest : ∀ x ∈ tr, ∀ s i, x.node = .replica s i → ∀ p ∈ RunStep.sent cfg x, ∀ m,
    p.msg = .vote m → m.vote = .prepared →
      ¬ Aborted (RunStep.after cfg x).history (.replica s i) m.tid
  /-- A cascade tells every coordinator of every active transaction it reaches. -/
  told : ∀ x ∈ tr, ∀ s i, x.node = .replica s i → ∀ T,
    (GlobalState.replica x.before s i).cascades x.input = some T →
      ∀ R ∈ (GlobalState.replica x.before s i).activeTxns,
        Relation.TransGen (GlobalState.replica x.before s i).Follows T R →
          ∀ c < cfg.n, ∃ p ∈ RunStep.sent cfg x, p.dst = .coordinator c ∧
            ∃ m, p.msg = .vote m ∧ m.tid = R ∧ m.vote = .abort
  /-- A coordinator keeps the primary shard it knows. -/
  kept : ∀ x ∈ tr, ∀ c, x.node = .coordinator c → ∀ src dst m,
    x.input = .recv ⟨src, dst, .vote m⟩ → ∀ req req',
      (GlobalState.coordinator x.before c).pendingCommits.lookup m.tid = some req →
      ((RunStep.after cfg x).coordinator c).pendingCommits.lookup m.tid = some req' →
        req'.primaryShard = req.primaryShard

/-- The cascade of a step, if there is one, meets no active transaction. -/
def alone : StepCond := fun w n _ input =>
  ∀ s i, n = .replica s i → ∀ T, (GlobalState.replica w s i).cascades input = some T →
    (GlobalState.replica w s i).Alone T

instance : ∀ w n ω input, Decidable (alone w n ω input)
  | w, .replica s i, _, input =>
      match h : (GlobalState.replica w s i).cascades input with
      | none => .isTrue fun _ _ hn T hT => by cases hn; cases h.symm.trans hT
      | some T =>
          decidable_of_iff ((GlobalState.replica w s i).Alone T)
            ⟨fun halone _ _ hn T' hT' => by cases hn; cases h.symm.trans hT'; exact halone,
              fun hall => hall s i rfl T h⟩
  | _, .client _, _, _ => .isTrue fun _ _ hn => by cases hn
  | _, .coordinator _, _, _ => .isTrue fun _ _ hn => by cases hn

/-- The replica sends no vote. -/
theorem sent_unvoted (hmode : cfg.mode = .parallel) {C : StepCond} (hw : cfg.system.Reach C w)
    {n : Node} {ω : Choice} {input : Input Addr Msg Act} (halone : alone w n ω input) :
    ∀ p ∈ RunStep.sent cfg ⟨w, n, ω, input⟩, ∀ m, p.msg ≠ .vote m := by
  intro p hp m hm
  cases n with
  | client tid =>
      have hkind := (Client.handleInput_sends ⟨cfg, tid⟩ ω input).sent hp
      rw [Client.Utters, hm] at hkind
      exact hkind.1
  | coordinator c =>
      have hkind := (Coordinator.handleInput_sends ⟨cfg, c⟩ ω input).sent hp
      rw [hm] at hkind
      exact hkind
  | replica s i =>
      have hok := (Config.invariant (.inr (.inl hmode)) hw).1 (.replica s i)
      have hhushed : Replica.Hushed
          (Replica.handleInput ⟨cfg, s, i⟩ ω input { state := w.replica s i }).state :=
        Replica.handleInput_hushed hok.prepares (halone s i rfl)
      have hkind := hhushed p hp
      rw [hm] at hkind
      exact hkind

/-- Where every cascade is alone, nobody votes. -/
theorem net_unvoted (hmode : cfg.mode = .parallel) (hw : cfg.system.Reach alone w) :
    ∀ p ∈ w.net, ∀ m, p.msg ≠ .vote m := by
  refine hw.induct (J := fun w => ∀ p ∈ w.net, ∀ m, p.msg ≠ .vote m)
    (fun p hp => absurd hp List.not_mem_nil) ?_
  intro w n ω input hw ih _ halone p hp
  rcases List.mem_append.1 hp with hold | hnew
  · exact ih p hold
  · exact sent_unvoted hmode hw halone p hnew

/-- No replica votes to abort. -/
theorem sent_unaborted (s : Shard) (i : ℕ) {ω : Choice} {input : Input Addr Msg Act} {p : Pkt}
    {m : Vote} (hp : p ∈ RunStep.sent cfg ⟨w, .replica s i, ω, input⟩) (hm : p.msg = .vote m) :
    m.vote = .prepared := by
  have hspeaks : Replica.Speaks (fun v => v.vote = .prepared)
      (Replica.handleInput ⟨cfg, s, i⟩ ω input) := Replica.handleInput_speaks (fun _ => rfl) input
  have hkind := hspeaks.sent hp
  rw [hm] at hkind
  exact hkind

/-- **The votes of a cascade.** In every run of the parallel mode, cascading aborts are reported
as aborts exactly if no cascade of the run meets an active transaction that read from the
aborted one. -/
theorem cascade_reported (hmode : cfg.mode = .parallel) (hrun : cfg.system.Trace tr w) :
    cfg.Reported tr ↔ ∀ x ∈ tr, alone x.before x.node x.choice x.input := by
  constructor
  · -- there is a coordinator, and it would have to be told
    intro hreported x hx s i hnode T hT R hR hactive
    obtain ⟨hen, -⟩ := hrun.of_mem hx
    have hin : 0 < cfg.n := by
      cases hinput : x.input with
      | act a =>
          rw [hinput] at hT
          cases hT
      | recv p =>
          rw [hinput] at hen
          rcases Config.owner_eq hen.2.2 with ⟨_, _, _, hn⟩ | ⟨_, _, _, hn, hin⟩ | ⟨_, _, hn, _⟩
          · rw [hnode] at hn
            cases hn
          · exact Nat.zero_lt_of_lt hin.2
          · rw [hnode] at hn
            cases hn
    obtain ⟨p, hp, -, m, hm, -, habort⟩ :=
      hreported.told x hx s i hnode T hT R hactive (.single hR) 0 hin
    obtain ⟨w', n, ω, input⟩ := x
    obtain rfl : n = .replica s i := hnode
    rw [sent_unaborted s i hp hm] at habort
    cases habort
  · intro halone
    have hreach : ∀ x ∈ tr, cfg.system.Reach alone x.before := by
      intro x hx
      obtain ⟨-, tr', hbefore, hsub⟩ := hrun.of_mem hx
      exact hbefore.reach fun y hy => halone y (hsub y hy)
    refine ⟨?_, ?_, ?_⟩
    · intro x hx s i hnode p hp m hm
      exact absurd hm (sent_unvoted hmode (hreach x hx) (halone x hx) p hp m)
    · intro x hx s i hnode T hT R hactive hpath
      obtain ⟨R', hfirst, hR'⟩ := Replica.first_active hpath hactive
      exact absurd hR' (halone x hx s i hnode T hT R' hfirst)
    · intro x hx c hnode src dst m hinput
      obtain ⟨hen, -⟩ := hrun.of_mem hx
      rw [hinput] at hen
      exact absurd rfl (net_unvoted hmode (hreach x hx) _ hen.2.1 m)

/-! ### Two runs -/

/-- The client `7` waits for its prepare in vain, five times. -/
def fiveTimeouts : Commands :=
  (List.replicate 4 [act 7 (.prepareTimeout 0), act 7 .wake, act 7 (.task 0),
    act 7 (.task 0)]).flatten ++ [act 7 (.prepareTimeout 0), act 7 .wake]

/-- Nobody has read what `7` wrote when its client gives up. -/
def unreadGivenUp : Commands :=
  [act 7 (.put "a" "1"), act 7 .commit, act 7 (.task 0), act 7 (.task 0), deliver 0] ++ fiveTimeouts ++
    [deliver 13]

theorem unreadGivenUp_runs : ((threeReplicas .parallel 1).run anyStep unreadGivenUp).isSome := by
  decide +kernel

theorem cascade_reported_unread :
    (threeReplicas .parallel 1).Reported ([] ++ (threeReplicas .parallel 1).system.steps
      (threeReplicas .parallel 1).system.start unreadGivenUp) := by
  refine (cascade_reported rfl
    (Protocol.Trace.exec .start (Option.some_get unreadGivenUp_runs).symm)).2 ?_
  decide +kernel

/-- The deployment with a key loaded, in the parallel mode. -/
def loadedParallel : Config :=
  { threeReplicas .parallel 1 with
    store := fun _ _ => TxnStore.load "a" "0" {} (.occ { store := {} }) }

/-- The transaction `9` reads what `7` pre-committed and is prepared; then the client of `7`
gives up. -/
def readGivenUp : Commands :=
  [act 7 (.put "a" "1"), act 7 .commit, act 7 (.task 0), act 7 (.task 0), deliver 0, deliver 2,
    deliver 6, deliver 7, act 9 (.get "a"), act 9 (.task 0), deliver 9, deliver 10, act 9 .wake,
    act 9 (.put "a" "2"), act 9 .commit, act 9 (.task 0), deliver 11] ++ fiveTimeouts ++ [deliver 23]

theorem readGivenUp_runs : (loadedParallel.run anyStep readGivenUp).isSome := by
  decide +kernel

/-- The votes for a transaction among packets. -/
def votesFor (tid : TxnId) (ps : List Pkt) : List CommitResult :=
  ps.filterMap fun p => match p.msg with
    | .vote m => if m.tid = tid then some m.vote else none
    | _ => none

theorem mem_votesFor {tid : TxnId} {ps : List Pkt} {v : CommitResult} (h : v ∈ votesFor tid ps) :
    ∃ p ∈ ps, ∃ m, p.msg = .vote m ∧ m.tid = tid ∧ m.vote = v := by
  obtain ⟨p, hp, hv⟩ := List.mem_filterMap.1 h
  split at hv
  · rename_i m hm
    split_ifs at hv with htid
    exact ⟨p, hp, m, hm, htid, Option.some.inj hv⟩
  · cases hv

/-- **The vote of a cascade.** The abort of `7` takes `9` with it; the coordinators hear that `7`
is prepared, and nothing of `9`. -/
theorem cascade_votes_prepared :
    ¬ ∀ (tr : List RunStep) (w : GlobalState), loadedParallel.system.Trace tr w →
      loadedParallel.Reported tr := by
  intro hall
  have hreported := hall _ _ (Protocol.Trace.exec .start (Option.some_get readGivenUp_runs).symm)
  have hbad : ∃ x ∈ [] ++ loadedParallel.system.steps loadedParallel.system.start readGivenUp,
      x.node = .replica 0 0 ∧ .prepared ∈ votesFor 7 (RunStep.sent loadedParallel x) ∧
        (Node.replica 0 0, Event.cascaded 7) ∈ (RunStep.after loadedParallel x).history := by
    decide +kernel
  obtain ⟨x, hx, hnode, hvote, haborted⟩ := hbad
  obtain ⟨p, hp, m, hm, htid, hprepared⟩ := mem_votesFor hvote
  rw [← htid] at haborted
  exact hreported.honest x hx 0 0 hnode p hp m hm hprepared (.inl haborted)

end D2PC
