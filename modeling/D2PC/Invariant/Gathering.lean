import D2PC.Invariant.Client
import D2PC.Invariant.Rounds

/-!
# The client in the slow mode

A round of the slow mode asks the primary shard alone, and its promise is answered with the final
decision or fails. Whatever reason is given for the answers that reach the client is a reason for
its commit.

* `Promise.Backed` : an answer for a reason;
* `Client.Waiting` : the invariant of a client, phase by phase;
* `Client.handleInput_waits` : every step;
* `Config.waiting` : every run.
-/

namespace D2PC

open Prog Ctx

/-- An answered promise failed or holds a final decision, and a success has the reason `k`. -/
def Promise.Backed (k : Prop) (p : Promise) : Prop :=
  p.done = true → (p.fail = true ∨ p.reachFinalDecision = true) ∧ (p.reply = replyOk → k)

section Promises

variable {k k' : Prop} {p : Promise}

theorem Promise.Backed.mono (hp : p.Backed k) (hk : k → k') : p.Backed k' :=
  fun hdone => ⟨(hp hdone).1, fun hok => hk ((hp hdone).2 hok)⟩

/-- The status a round takes from its promise. -/
theorem Promise.Backed.reason (hp : p.Backed k) (hdone : p.done = true)
    (hok : p.getPrepareReply = replyOk) : k := by
  obtain ⟨hfinal, hreason⟩ := hp hdone
  apply hreason
  rw [getPrepareReply] at hok
  split_ifs at hok with hfail hreach
  · exact hok
  · exact hok
  · exact absurd (hfinal.resolve_left hfail) hreach

theorem Promise.Backed.replyFinal {r : ℕ} (hr : r = replyOk → k) (t : Timestamp) :
    (p.replyFinal r t).Backed k :=
  fun _ => ⟨.inr rfl, hr⟩

theorem Promise.Backed.timeout (s : Shard) : (p.replyShard s replyTimeout {}).Backed k := by
  intro _
  rw [replyShard, if_pos (by decide)]
  refine ⟨.inl rfl, fun hok => ?_⟩
  have hok : replyTimeout = replyOk := hok
  exact absurd hok (by decide)

end Promises

/-- What the phase of a client says of its queue, its requests and its promise. -/
def Client.PhaseWaits (k : Prop) (c : Client) : Prop :=
  match c.phase with
  | .running => c.tasks = [] ∧ ∀ s, c.pendingReqs.lookup s = none
  | .reading _ _ _ _ => Reading c
  | .preparing _ => (∀ t ∈ c.tasks, ¬ t.IsGet) ∧
      (∀ s, c.pendingReqs.lookup s ≠ some .getData) ∧ ∀ p, c.promise = some p → p.Backed k
  | .finished => True

/-- **The invariant** of a client in the slow mode. It never asks for the outcome. -/
structure Client.Waiting (k : Prop) (c : Client) : Prop where
  parallel : ∀ s, c.pendingParallelCommits.lookup s = none
  tasks : ∀ s ps a, Task.parallelModeCommit s ps a ∉ c.tasks
  phase : c.PhaseWaits k

/-- What a client sends in the slow mode: prepares to leaders, and a commit for the reason `k`. -/
def Client.Words (cfg : Config) (tid : TxnId) (k : Prop) (p : Pkt) : Prop :=
  match p.msg with
  | .prepareTransaction _ => ∃ s, p.dst = .replica s (cfg.leader s)
  | .commit m => m.tid = tid ∧ (m.state = .commit → k)
  | .parallelModeCommit _ => False
  | _ => True

/-- The obligation of an operation of a client. -/
structure Client.Waits (cfg : Config) (tid : TxnId) (k : Prop)
    (x : Ctx Client Addr Msg Event) : Prop where
  node : x.state.Waiting k
  sent : ∀ p ∈ x.sent, Client.Words cfg tid k p

namespace Client

variable {cfg : Config} {k k' : Prop} {tid : TxnId} {ω : Choice} {s : Shard} {c : Client}
  {x : Ctx Client Addr Msg Event}

theorem Waiting.mono (hc : c.Waiting k) (hk : k → k') : c.Waiting k' := by
  refine ⟨hc.parallel, hc.tasks, ?_⟩
  have hphase := hc.phase
  unfold PhaseWaits at hphase ⊢
  split at hphase
  · exact hphase
  · exact hphase
  · exact ⟨hphase.1, hphase.2.1, fun p hp => (hphase.2.2 p hp).mono hk⟩
  · trivial

theorem Waits.update (hx : Waits cfg tid k x) (hc : c.Waiting k) :
    Waits cfg tid k { x with state := c } :=
  ⟨hc, hx.sent⟩

theorem Waits.send_one (hx : Waits cfg tid k x) {p : Pkt} (hp : Words cfg tid k p) :
    Waits cfg tid k { x with sent := x.sent ++ [p] } := by
  refine ⟨hx.node, fun q hq => ?_⟩
  rcases List.mem_append.1 hq with hold | hnew
  · exact hx.sent q hold
  · rw [List.mem_singleton.1 hnew]
    exact hp

/-! ### Replies and timeouts -/

/-- A request for data is outstanding only in the read phase, and is the only request; or the
client is done. -/
theorem Waiting.getData (hc : c.Waiting k) (hreq : c.pendingReqs.lookup s = some .getData) :
    c.phase = .finished ∨ ((∃ s keys record rest, c.phase = .reading s keys record rest) ∧
      c.tasks = [] ∧ ∀ s', (c.pendingReqs.erase s).lookup s' = none) := by
  have hphase := hc.phase
  cases hp : c.phase with
  | running =>
    rw [PhaseWaits, hp] at hphase
    rw [hphase.2 s] at hreq
    cases hreq
  | reading s₀ keys record rest =>
    rw [PhaseWaits, hp] at hphase
    refine .inr ⟨⟨_, _, _, _, rfl⟩, ?_⟩
    cases hphase with
    | idle _ hall =>
      rw [hall s] at hreq
      cases hreq
    | queued _ _ _ _ hall _ =>
      rw [hall s] at hreq
      cases hreq
    | sent s₁ htasks hone _ =>
      refine ⟨htasks, fun s' => ?_⟩
      rw [Table.lookup_erase_eq]
      split_ifs with hs
      · rfl
      · cases hreq' : c.pendingReqs.lookup s' with
        | none => rfl
        | some req =>
          rw [(hone s' req hreq').1, (hone s _ hreq).1] at hs
          exact absurd rfl hs
  | preparing n =>
    rw [PhaseWaits, hp] at hphase
    exact absurd hreq (hphase.2.1 s)
  | finished => exact .inl rfl

/-- A request to prepare is outstanding only in a round or afterwards. -/
theorem Waiting.prepare (hc : c.Waiting k) {req : LRClient.PendingPrepare}
    (hreq : c.pendingReqs.lookup s = some (.prepare req)) :
    c.phase = .finished ∨ ∃ n, c.phase = .preparing n := by
  have hphase := hc.phase
  cases hp : c.phase with
  | running =>
    rw [PhaseWaits, hp] at hphase
    rw [hphase.2 s] at hreq
    cases hreq
  | reading s₀ keys record rest =>
    rw [PhaseWaits, hp] at hphase
    cases hphase with
    | idle _ hall =>
      rw [hall s] at hreq
      cases hreq
    | queued _ _ _ _ hall _ =>
      rw [hall s] at hreq
      cases hreq
    | sent s₁ _ hone _ => cases (hone s _ hreq).2
  | preparing n => exact .inr ⟨n, rfl⟩
  | finished => exact .inl rfl

/-- A client that is done may be written to. -/
theorem Waiting.finished {d : Client} (hc : c.Waiting k) (hp : c.phase = .finished)
    (hphase : d.phase = c.phase) (htasks : d.tasks = c.tasks)
    (hpar : d.pendingParallelCommits = c.pendingParallelCommits) : d.Waiting k := by
  refine ⟨hpar ▸ hc.parallel, htasks ▸ hc.tasks, ?_⟩
  rw [PhaseWaits, hphase, hp]
  trivial

/-- In a round requests are dropped and shards forget their promise. -/
theorem Waiting.round {d : Client} {n : ℕ} (hc : c.Waiting k) (hp : c.phase = .preparing n)
    (hphase : d.phase = c.phase) (htasks : d.tasks = c.tasks)
    (hpar : d.pendingParallelCommits = c.pendingParallelCommits)
    (hreqs : ∀ s, d.pendingReqs.lookup s ≠ some .getData)
    (hpromise : ∀ p, d.promise = some p → p.Backed k) : d.Waiting k := by
  refine ⟨hpar ▸ hc.parallel, htasks ▸ hc.tasks, ?_⟩
  have hold := hc.phase
  rw [PhaseWaits, hp] at hold
  rw [PhaseWaits, hphase, hp]
  exact ⟨htasks ▸ hold.1, hreqs, hpromise⟩

/-- The requests of a round, one of them dropped. -/
theorem erase_ne_getData {t : Table Shard LRClient.PendingRequest}
    (ht : ∀ s, t.lookup s ≠ some .getData) (s s' : Shard) :
    (t.erase s).lookup s' ≠ some .getData := by
  intro h
  exact ht s' (lookup_of_erase h)

/-- Shards forget their promise, which no phase speaks of. -/
theorem Waiting.setWaiting (hc : c.Waiting k) (waiting : Table Shard ℕ) :
    ({ c with waiting := waiting } : Client).Waiting k := by
  refine ⟨hc.parallel, hc.tasks, ?_⟩
  have hphase := hc.phase
  cases hp : c.phase with
  | running =>
    rw [PhaseWaits, hp] at hphase
    simp only [PhaseWaits]
    exact hphase
  | reading s₀ keys record rest =>
    rw [PhaseWaits, hp] at hphase
    simp only [PhaseWaits]
    cases hphase with
    | idle htasks hall => exact .idle htasks hall
    | queued s keys a htasks hall hopen => exact .queued s keys a htasks hall hopen
    | sent s htasks hone hopen => exact .sent s htasks hone hopen
  | preparing n =>
    rw [PhaseWaits, hp] at hphase
    simp only [PhaseWaits]
    exact hphase
  | finished => simp only [PhaseWaits]

/-- The one read that was waited for is answered. -/
theorem answerRead_waits (hx : Waits cfg tid k x)
    (hreq : x.state.pendingReqs.lookup s = some .getData) (f : Promise → Promise) :
    wp (erasePendingReq s >>= fun _ => replyGet ω s f) (fun _ => Waits cfg tid k)
      (Waits cfg tid k) x := by
  -- whatever the answer is, no read is outstanding any more
  have hstate : ∀ promise waiting, ({ x.state with
      pendingReqs := x.state.pendingReqs.erase s
      promise := promise
      waiting := waiting } : Client).Waiting k := by
    intro promise waiting
    rcases hx.node.getData hreq with hp | ⟨⟨s₀, keys, record, rest, hp⟩, htasks, hnone⟩
    · exact hx.node.finished hp rfl rfl rfl
    · refine ⟨hx.node.parallel, hx.node.tasks, ?_⟩
      simp only [PhaseWaits, hp]
      exact .idle htasks hnone
  simp only [wp_bind, erasePendingReq, wp_update, replyGet, wp_read]
  split
  · simp only [clearWaiting, wp_update]
    exact hx.update (hstate _ _)
  · simp only [wp_bind, clearWaiting, setPromise, wp_update]
    exact hx.update (hstate _ _)

theorem handleGetDataReply_waits (msg : GetDataReply) :
    Keeps (Waits cfg tid k) (handleGetDataReply ω s msg) := by
  intro x hx
  rw [handleGetDataReply, wp_bind, wp_read]
  split
  · exact hx
  · exact hx
  · rename_i hreq
    exact answerRead_waits hx hreq _

theorem getDateTimeoutCallback_waits : Keeps (Waits cfg tid k) (getDateTimeoutCallback ω s) := by
  intro x hx
  rw [getDateTimeoutCallback, wp_bind, wp_read]
  split
  · rename_i hreq
    exact answerRead_waits hx hreq _
  · exact hx

/-- The promise of a round is answered. -/
theorem Waiting.answer (hc : c.Waiting k) {req : LRClient.PendingPrepare}
    (hreq : c.pendingReqs.lookup s = some (.prepare req)) {p : Promise} (hp : p.Backed k)
    (waiting : Table Shard ℕ) {reqs : Table Shard LRClient.PendingRequest}
    (hreqs : (∀ s', c.pendingReqs.lookup s' ≠ some .getData) →
      ∀ s', reqs.lookup s' ≠ some .getData) :
    ({ c with promise := some p, waiting := waiting, pendingReqs := reqs } : Client).Waiting k := by
  rcases hc.prepare hreq with hfin | ⟨n, hround⟩
  · exact hc.finished hfin rfl rfl rfl
  · have hphase := hc.phase
    rw [PhaseWaits, hround] at hphase
    refine hc.round hround rfl rfl rfl (hreqs hphase.2.1) fun q hq => ?_
    rw [← Option.some.inj hq]
    exact hp

/-- The request of a round is dropped. -/
theorem Waiting.dropPrepare (hc : c.Waiting k) {req : LRClient.PendingPrepare}
    (hreq : c.pendingReqs.lookup s = some (.prepare req)) :
    ({ c with pendingReqs := c.pendingReqs.erase s } : Client).Waiting k := by
  rcases hc.prepare hreq with hfin | ⟨n, hround⟩
  · exact hc.finished hfin rfl rfl rfl
  · have hphase := hc.phase
    rw [PhaseWaits, hround] at hphase
    exact hc.round hround rfl rfl rfl (fun s' => erase_ne_getData hphase.2.1 s s') hphase.2.2

theorem prepareTimeoutCallback_waits : Keeps (Waits cfg tid k) (prepareTimeoutCallback ω s) := by
  intro x hx
  rw [prepareTimeoutCallback, wp_bind, wp_read]
  split
  · rename_i req hreq
    simp only [wp_bind, erasePendingReq, wp_update, wp_read]
    split
    · exact hx.update (hx.node.dropPrepare hreq)
    · rename_i p hp
      exact hx.update (hx.node.answer hreq (.timeout s) _ fun h s' => erase_ne_getData h s s')
  · exact hx

/-- A reply is taken for the answer of the round. -/
theorem handlePrepareTxnReply_waits (hslow : cfg.mode = .slow) (msg : PrepareTransactionReply)
    (hk : msg.state = .prepareOk → k) :
    Keeps (Waits cfg tid k) (handlePrepareTxnReply ⟨cfg, tid⟩ ω s msg) := by
  intro x hx
  rw [handlePrepareTxnReply, wp_bind, wp_read]
  split
  · exact hx
  · exact hx
  · rename_i req hreq
    have hcollect : collectReply ⟨cfg, tid⟩ req msg =
        (true, { req with state := msg.state, timestamp := msg.timestamp }) := by
      rw [collectReply, if_neg]
      rw [hslow]
      exact fun h => h.elim (fun h => by cases h) (fun h => by cases h)
    have hreason : ∀ r : ℕ, r = (if msg.state = .prepareOk then 0 else 1) → r = replyOk → k := by
      intro r hr hok
      by_cases hstate : msg.state = .prepareOk
      · exact hk hstate
      · rw [if_neg hstate] at hr
        exact absurd (hr.symm.trans hok) (by decide)
    simp only [respond, hcollect, LogEntryState.reported, prepareCallback, wp_bind, wp_read]
    have hdrop := hx.update (hx.node.dropPrepare hreq)
    split
    · simp only [wp_pure, erasePendingReq, wp_update]
      exact hdrop
    · rename_i p hp
      simp only [wp_ite, wp_pure, hslow, true_or, not_true_eq_false, false_implies, and_true,
        true_implies, wp_bind, clearWaiting, setPromise, wp_update, erasePendingReq]
      exact ⟨fun _ => hdrop, fun _ => hx.update (hx.node.answer hreq
        (.replyFinal (hreason _ rfl) _) _ fun h s' => erase_ne_getData h s s')⟩

theorem handleParallelModeCommitReply_waits (msg : ParallelModeCommitReply) :
    Keeps (Waits cfg tid k) (handleParallelModeCommitReply ω s msg) := by
  intro x hx
  rw [handleParallelModeCommitReply, wp_bind, wp_read, hx.node.parallel s]
  exact hx

theorem parallelModeCommitTimeout_waits :
    Keeps (Waits cfg tid k) (parallelModeCommitTimeout s) := by
  intro x hx
  have hsame : x.state.pendingParallelCommits.erase s = x.state.pendingParallelCommits :=
    AList.ext (List.kerase_of_notMem_keys (AList.lookup_eq_none.1 (hx.node.parallel s)))
  rw [parallelModeCommitTimeout, wp_update, hsame]
  exact hx

/-! ### Tasks -/

/-- A round asks the leader of the primary shard. -/
theorem runTask_prepare_waits (hslow : cfg.mode = .slow) (txn : Transaction) (a : ℕ)
    (hp : x.state.phase = .finished ∨ ∃ n, x.state.phase = .preparing n) (hx : Waits cfg tid k x) :
    wp (runTask ⟨cfg, tid⟩ ω (.prepare s txn a)) (fun _ => Waits cfg tid k)
      (Waits cfg tid k) x := by
  have hstate : ∀ waiting, ∀ reqs : Table Shard LRClient.PendingRequest,
      ((∀ s', x.state.pendingReqs.lookup s' ≠ some .getData) →
        ∀ s', reqs.lookup s' ≠ some .getData) →
      ({ x.state with waiting := waiting, pendingReqs := reqs } : Client).Waiting k := by
    intro waiting reqs hreqs
    rcases hp with hp | ⟨n, hp⟩
    · exact hx.node.finished hp rfl rfl rfl
    · have hphase := hx.node.phase
      rw [PhaseWaits, hp] at hphase
      exact hx.node.round hp rfl rfl rfl (hreqs hphase.2.1) hphase.2.2
  have hinsert : ∀ req, (∀ s', x.state.pendingReqs.lookup s' ≠ some .getData) →
      ∀ s', (x.state.pendingReqs.insert s (.prepare req)).lookup s' ≠ some .getData := by
    intro req h s'
    rw [Table.lookup_insert_eq]
    split_ifs
    · intro h
      cases h
    · exact h s'
  have hmode : ¬(cfg.mode = .carousel ∨ cfg.mode = .rc) := by
    rw [hslow]
    exact fun h => h.elim (fun h => by cases h) (fun h => by cases h)
  simp only [runTask, wp_bind, wp_update, invokePrepare, sendPrepare, if_neg hmode, wp_when,
    sendMessageToReplica, wp_send, erasePendingReq]
  have hset : ∀ req, Waits cfg tid k { x with state := { x.state with
      waiting := x.state.waiting.insert s a
      pendingReqs := x.state.pendingReqs.insert s (.prepare req) } } :=
    fun req => hx.update (hstate _ _ (hinsert req))
  refine ⟨fun _ => ⟨fun _ => ?_, fun _ => ?_⟩, fun _ => ⟨fun _ => ?_, fun _ => hset _⟩⟩
  · exact ((hset { leader := cfg.leader s, state := ω.garbageLogState }).send_one
      (p := ⟨_, _, .prepareTransaction _⟩) ⟨s, rfl⟩).update
      (hstate _ _ fun h s' => erase_ne_getData (hinsert _ h) s s')
  · exact (hset _).send_one (p := ⟨_, _, .prepareTransaction _⟩) ⟨s, rfl⟩
  · exact hx.update (hstate _ _ fun h s' => erase_ne_getData (hinsert _ h) s s')

/-- A task is taken out of the queue. -/
theorem Waiting.takeTask {n : ℕ} (hc : c.Waiting k)
    (hp : c.phase = .finished ∨ ∃ n, c.phase = .preparing n) :
    ({ c with tasks := c.tasks.eraseIdx n } : Client).Waiting k := by
  refine ⟨hc.parallel, fun s ps a h => hc.tasks s ps a (List.mem_of_mem_eraseIdx h), ?_⟩
  have hphase := hc.phase
  rcases hp with hp | ⟨m, hp⟩
  · simp only [PhaseWaits, hp]
  · rw [PhaseWaits, hp] at hphase
    simp only [PhaseWaits, hp]
    exact ⟨fun t ht => hphase.1 t (List.mem_of_mem_eraseIdx ht), hphase.2⟩

/-- A read is asked for. -/
theorem runTask_get_waits {keys : List Key} {a : ℕ} {s₀ : Shard} {keys₀ : List Key} {record : Bool}
    {rest : List (Shard × List Key)} (hx : Waits cfg tid k x)
    (hp : x.state.phase = .reading s₀ keys₀ record rest)
    (hnone : ∀ s, x.state.pendingReqs.lookup s = none)
    (hopen : ∀ p, x.state.promise = some p → p.done = false) :
    wp (runTask ⟨cfg, tid⟩ ω (.get s keys a)) (fun _ => Waits cfg tid k) (Waits cfg tid k)
      { x with state := { x.state with tasks := [] } } := by
  simp only [runTask, wp_bind, wp_update, invokeGetData, wp_when, sendMessageToReplica, wp_send]
  have htask : ∀ (s' : Shard) (ps : List Shard) (a' : ℕ),
      Task.parallelModeCommit s' ps a' ∉ ([] : List Task) := fun _ _ _ => List.not_mem_nil
  refine ⟨fun _ => ?_, fun _ => ?_⟩
  · refine ⟨⟨hx.node.parallel, htask, ?_⟩, ?_⟩
    · simp only [PhaseWaits, hp]
      refine .sent s rfl (fun s' req hreq => ?_) hopen
      rw [Table.lookup_insert_eq, hnone s'] at hreq
      split_ifs at hreq with hs
      cases hreq
      exact ⟨hs, rfl⟩
    · exact (hx.send_one (p := ⟨.client tid s, .replica s (readReplica ⟨cfg, tid⟩),
        .getData { tid := tid, keys := keys }⟩) trivial).sent
  · refine hx.update ⟨hx.node.parallel, htask, ?_⟩
    simp only [PhaseWaits, hp]
    exact .idle rfl hnone

/-- A client that is done runs what is left. -/
theorem runTask_finished_waits (hslow : cfg.mode = .slow) {t : Task}
    (ht : ∀ s ps a, t ≠ .parallelModeCommit s ps a) (hp : x.state.phase = .finished)
    (hx : Waits cfg tid k x) :
    wp (runTask ⟨cfg, tid⟩ ω t) (fun _ => Waits cfg tid k) (Waits cfg tid k) x := by
  cases t with
  | get s keys a =>
    simp only [runTask, wp_bind, wp_update, invokeGetData, wp_when, sendMessageToReplica, wp_send]
    refine ⟨fun _ => ?_, fun _ => hx.update (hx.node.finished hp rfl rfl rfl)⟩
    exact (hx.send_one (p := ⟨_, _, .getData _⟩) trivial).update
      (hx.node.finished hp rfl rfl rfl)
  | prepare s txn a => exact runTask_prepare_waits hslow txn a (.inl hp) hx
  | parallelModeCommit s ps a => exact absurd rfl (ht s ps a)

theorem handleTask_waits (hslow : cfg.mode = .slow) (i : ℕ) :
    Keeps (Waits cfg tid k) (handleTask ⟨cfg, tid⟩ ω i) := by
  intro x hx
  rw [handleTask, wp_bind, wp_read]
  split
  · exact hx
  · rename_i t htask
    have hmem : t ∈ x.state.tasks := List.mem_of_getElem? htask
    have hphase := hx.node.phase
    have hnot : ∀ s ps a, t ≠ .parallelModeCommit s ps a := by
      rintro s ps a rfl
      exact hx.node.tasks s ps a hmem
    rw [wp_bind, wp_update]
    have hall : ∀ phase, x.state.phase = phase →
        wp (runTask ⟨cfg, tid⟩ ω t) (fun _ => Waits cfg tid k) (Waits cfg tid k)
          { x with state := { x.state with tasks := x.state.tasks.eraseIdx i } } := by
      intro phase hp
      cases phase with
      | running =>
        rw [PhaseWaits, hp] at hphase
        rw [hphase.1] at hmem
        cases hmem
      | reading s₀ keys₀ record rest =>
        rw [PhaseWaits, hp] at hphase
        cases hphase with
        | idle htasks _ =>
          rw [htasks] at hmem
          cases hmem
        | sent _ htasks _ _ =>
          rw [htasks] at hmem
          cases hmem
        | queued s keys a htasks hnone hopen =>
          -- the queue holds just this read
          have hi : i = 0 := by
            rw [htasks] at htask
            cases i with
            | zero => rfl
            | succ i => cases htask
          rw [htasks, List.mem_singleton] at hmem
          subst hi hmem
          have herase : x.state.tasks.eraseIdx 0 = [] := by
            rw [htasks]
            rfl
          rw [herase]
          exact runTask_get_waits hx hp hnone hopen
      | preparing n =>
        rw [PhaseWaits, hp] at hphase
        have hx₁ := hx.update (hx.node.takeTask (n := i) (.inr ⟨n, hp⟩))
        cases t with
        | get s keys a => exact absurd trivial (hphase.1 _ hmem)
        | prepare s txn a => exact runTask_prepare_waits hslow txn a (.inr ⟨n, hp⟩) hx₁
        | parallelModeCommit s ps a => exact absurd rfl (hnot s ps a)
      | finished =>
        exact runTask_finished_waits hslow hnot hp (hx.update (hx.node.takeTask (.inl hp)))
    exact hall _ rfl

/-! ### Rounds -/

/-- A client in a round. -/
def InRoundWaits (cfg : Config) (tid : TxnId) (k : Prop)
    (x : Ctx Client Addr Msg Event) : Prop :=
  Waits cfg tid k x ∧ ∃ n, x.state.phase = .preparing n

/-- A client that sends its decision. -/
theorem invokeCommit_waits {state : LogEntryState} (hk : state = .commit → k)
    (hpar : ∀ s, x.state.pendingParallelCommits.lookup s = none)
    (htasks : ∀ s ps a, Task.parallelModeCommit s ps a ∉ x.state.tasks)
    (hsent : ∀ p ∈ x.sent, Words cfg tid k p) :
    wp (invokeCommit ⟨cfg, tid⟩ state) (fun _ => Waits cfg tid k) (Waits cfg tid k) x := by
  rw [invokeCommit, wp_bind, wp_read, wp_bind]
  refine wp_mono (fun _ x' hx' => ?_) (fun _ hx' => hx'.elim)
    (wp_forM (I := fun x' => (∀ s, x'.state.pendingParallelCommits.lookup s = none) ∧
      (∀ s ps a, Task.parallelModeCommit s ps a ∉ x'.state.tasks) ∧
        ∀ p ∈ x'.sent, Words cfg tid k p) (D := fun _ => False) (fun p _ x' hx' => ?_)
      ⟨hpar, htasks, hsent⟩)
  · rw [wp_update]
    exact ⟨⟨hx'.1, hx'.2.1, trivial⟩, hx'.2.2⟩
  · simp only [wp_bind, clearWaiting, wp_update, sendMessageToReplica, wp_send]
    refine ⟨hx'.1, hx'.2.1, fun q hq => ?_⟩
    rcases List.mem_append.1 hq with hold | hnew
    · exact hx'.2.2 q hold
    · rw [List.mem_singleton.1 hnew]
      exact ⟨rfl, hk⟩

theorem finish_waits {status : ℕ} (hk : status = replyOk → k) :
    Keeps (Waits cfg tid k) (finish ⟨cfg, tid⟩ status) := by
  intro x hx
  rw [finish, wp_ite]
  refine ⟨fun hok => ?_, fun _ => ?_⟩
  · rw [wp_bind, wp_emit]
    exact invokeCommit_waits (fun _ => hk hok) hx.node.parallel hx.node.tasks hx.sent
  · rw [abort, wp_bind, wp_emit]
    exact invokeCommit_waits (fun h => by cases h) hx.node.parallel hx.node.tasks hx.sent

/-- Only the buffers change. -/
theorem modifyBuffer_waits (s : Shard) (f : Transaction → Transaction) :
    Keeps (InRoundWaits cfg tid k) (modifyBuffer ⟨cfg, tid⟩ s f) := by
  intro x hx
  obtain ⟨hx, n, hp⟩ := hx
  have hphase := hx.node.phase
  rw [PhaseWaits, hp] at hphase
  exact ⟨hx.update (hx.node.round hp rfl rfl rfl hphase.2.1 hphase.2.2), n, hp⟩

theorem addPrepareTask_waits (s : Shard) :
    Keeps (InRoundWaits cfg tid k) (addPrepareTask ⟨cfg, tid⟩ s) := by
  intro x hx
  obtain ⟨hx, n, hp⟩ := hx
  have hphase := hx.node.phase
  rw [PhaseWaits, hp] at hphase
  simp only [addPrepareTask, wp_bind, wp_read, addTask, wp_update]
  have hnew : ∀ t ∈ x.state.promise.toList.map fun p : Promise =>
      Task.prepare s (x.state.buffered ⟨cfg, tid⟩ s) p.address, ∃ a, t = .prepare s
        (x.state.buffered ⟨cfg, tid⟩ s) a := by
    intro t ht
    obtain ⟨p, _, rfl⟩ := List.mem_map.1 ht
    exact ⟨_, rfl⟩
  refine ⟨hx.update ⟨hx.node.parallel, fun s' ps a ht => ?_, ?_⟩, n, hp⟩
  · rcases List.mem_append.1 ht with hold | hin
    · exact hx.node.tasks s' ps a hold
    · obtain ⟨_, heq⟩ := hnew _ hin
      cases heq
  · simp only [PhaseWaits, hp]
    refine ⟨fun t ht => ?_, hphase.2⟩
    rcases List.mem_append.1 ht with hold | hin
    · exact hphase.1 t hold
    · obtain ⟨_, heq⟩ := hnew _ hin
      rw [heq]
      exact id

theorem prepareAtPrimary_waits (participants : List Shard) (primary : Shard) :
    Keeps (InRoundWaits cfg tid k) (prepareAtPrimary ⟨cfg, tid⟩ participants primary) := by
  refine .bind (modifyBuffer_waits _ _) fun _ => .bind (.forM fun p _ => ?_) fun _ =>
    .bind (modifyBuffer_waits _ _) fun _ => addPrepareTask_waits _
  refine .bind (.gets _) fun txn => .bind (.forM fun r _ => modifyBuffer_waits _ _) fun _ => ?_
  exact .forM fun w _ => modifyBuffer_waits _ _

/-- A round begins with a new promise. -/
theorem round_waits (hslow : cfg.mode = .slow) (n : ℕ)
    (hpar : ∀ s, x.state.pendingParallelCommits.lookup s = none)
    (htasks : ∀ s ps a, Task.parallelModeCommit s ps a ∉ x.state.tasks)
    (hgets : ∀ t ∈ x.state.tasks, ¬ t.IsGet)
    (hreqs : ∀ s, x.state.pendingReqs.lookup s ≠ some .getData)
    (hsent : ∀ p ∈ x.sent, Words cfg tid k p) :
    wp (round ⟨cfg, tid⟩ n) (fun _ => Waits cfg tid k) (Waits cfg tid k) x := by
  rw [round, wp_bind, wp_update, prepare, wp_bind, wp_bind, wp_read, wp_bind, newPromise, wp_update,
    if_pos (.inl hslow), wp_bind]
  have hround : InRoundWaits cfg tid k { x with state := { x.state with
      phase := .preparing n
      promises := x.state.promises + 1
      promise := some
        { address := x.state.promises, participantNumber := x.state.participants.length } } } :=
    ⟨⟨⟨hpar, htasks, hgets, hreqs, fun p hp => by cases hp; intro h; cases h⟩, hsent⟩, n, rfl⟩
  rw [wp_deref]
  refine ⟨fun primary _ => ?_, fun _ => hround.1⟩
  rw [wp_bind]
  refine wp_mono (fun _ x' hx' => hx'.1) (fun _ hx' => hx'.1)
    (prepareAtPrimary_waits x.state.participants primary _ hround)

theorem commit_waits (hslow : cfg.mode = .slow) (hx : Waits cfg tid k x)
    (hp : x.state.phase = .running) :
    wp (commit ⟨cfg, tid⟩) (fun _ => Waits cfg tid k) (Waits cfg tid k) x := by
  have hphase := hx.node.phase
  rw [PhaseWaits, hp] at hphase
  simp only [commit, wp_bind, wp_read, wp_emit]
  refine round_waits hslow 0 hx.node.parallel hx.node.tasks (fun t ht => ?_) (fun s => ?_) hx.sent
  · have ht : t ∈ x.state.tasks := ht
    rw [hphase.1] at ht
    cases ht
  · show x.state.pendingReqs.lookup s ≠ _
    rw [hphase.2 s]
    intro h
    cases h

/-! ### Between two calls -/

/-- A client that waits for nothing, whatever its phase. -/
structure Rests (cfg : Config) (tid : TxnId) (k : Prop)
    (x : Ctx Client Addr Msg Event) : Prop where
  parallel : ∀ s, x.state.pendingParallelCommits.lookup s = none
  tasks : x.state.tasks = []
  requests : ∀ s, x.state.pendingReqs.lookup s = none
  sent : ∀ p ∈ x.sent, Words cfg tid k p

theorem Rests.running (hx : Rests cfg tid k x) (hp : x.state.phase = .running) :
    Waits cfg tid k x := by
  refine ⟨⟨hx.parallel, fun s ps a ht => ?_, ?_⟩, hx.sent⟩
  · rw [hx.tasks] at ht
    cases ht
  · rw [PhaseWaits, hp]
    exact ⟨hx.tasks, hx.requests⟩

/-- The buffers, the participants, the phase and the promise do not matter. -/
theorem Rests.congr {y : Ctx Client Addr Msg Event} (hx : Rests cfg tid k x)
    (htasks : y.state.tasks = x.state.tasks)
    (hreqs : y.state.pendingReqs = x.state.pendingReqs)
    (hpar : y.state.pendingParallelCommits = x.state.pendingParallelCommits)
    (hsent : y.sent = x.sent) : Rests cfg tid k y :=
  ⟨hpar ▸ hx.parallel, htasks.trans hx.tasks, hreqs ▸ hx.requests, hsent ▸ hx.sent⟩

theorem queueRead_waits (hx : Rests cfg tid k x)
    (hopen : ∀ p, x.state.promise = some p → p.done = false) (keys : List Key) (record : Bool)
    (rest : List (Shard × List Key)) :
    wp (do
      addTask fun p => .get s keys p.address
      update fun c => { c with phase := .reading s keys record rest })
      (fun _ => Waits cfg tid k) (Waits cfg tid k) x := by
  simp only [addTask, wp_bind, wp_update, hx.tasks, List.nil_append]
  refine ⟨⟨hx.parallel, fun s' ps a ht => ?_, ?_⟩, hx.sent⟩
  · obtain ⟨p, _, heq⟩ := List.mem_map.1 ht
    cases heq
  · simp only [PhaseWaits]
    cases hpromise : x.state.promise with
    | none => exact .idle rfl hx.requests
    | some p =>
      refine .queued s keys p.address rfl hx.requests fun q hq => ?_
      rw [← Option.some.inj hq]
      exact hopen p hpromise

theorem readNext_waits (hx : Rests cfg tid k x) (l : List (Shard × List Key)) :
    wp (readNext l) (fun _ => Waits cfg tid k) (Waits cfg tid k) x := by
  cases l with
  | nil => exact Rests.running (hx.congr rfl rfl rfl rfl) rfl
  | cons q rest =>
    obtain ⟨s, keys⟩ := q
    rw [readNext, wp_bind, wp_update]
    refine queueRead_waits ?_ (fun p hp => ?_) keys true rest
    · exact hx.congr rfl rfl rfl rfl
    · obtain ⟨q, _, rfl⟩ := Option.map_eq_some_iff.1 hp
      rfl

theorem put_waits (hx : Rests cfg tid k x) (hp : x.state.phase = .running) (key : Key)
    (value : Value) :
    wp (put ⟨cfg, tid⟩ key value) (fun _ => Waits cfg tid k) (Waits cfg tid k) x := by
  simp only [put, addParticipant, modifyBuffer, wp_bind, wp_update]
  exact Rests.running (hx.congr rfl rfl rfl rfl) hp

theorem get_waits (hx : Rests cfg tid k x) (hp : x.state.phase = .running) (key : Key) :
    wp (get ⟨cfg, tid⟩ key) (fun _ => Waits cfg tid k) (Waits cfg tid k) x := by
  rw [get, wp_bind, addParticipant, wp_update, wp_bind, wp_read, wp_ite]
  refine ⟨fun _ => Rests.running (hx.congr rfl rfl rfl rfl) hp, fun _ => ?_⟩
  rw [wp_bind, newPromise, wp_update]
  refine queueRead_waits ?_ (fun p hp => ?_) _ _ _
  · exact hx.congr rfl rfl rfl rfl
  · cases hp
    rfl

theorem multiGet_waits (hx : Rests cfg tid k x) (keys : List Key) :
    wp (multiGet ⟨cfg, tid⟩ keys) (fun _ => Waits cfg tid k) (Waits cfg tid k) x := by
  rw [multiGet, wp_bind]
  refine wp_mono (fun _ x₁ hx₁ => ?_) (fun _ hd => hd)
    (wp_forM (fun key _ x' hx' => Rests.congr hx' rfl rfl rfl rfl) hx)
  rw [wp_bind, newPromise, wp_update]
  have hx₂ : Rests cfg tid k { x₁ with state := { x₁.state with
      promises := x₁.state.promises + 1
      promise := some { address := x₁.state.promises, participantNumber := 0 } } } :=
    Rests.congr hx₁ rfl rfl rfl rfl
  cases askedShards ⟨cfg, tid⟩ keys with
  | cons q rest => exact readNext_waits hx₂ _
  | nil =>
    refine ⟨⟨hx₂.parallel, fun s ps a ht => ?_, .idle hx₂.tasks hx₂.requests⟩, hx₂.sent⟩
    have ht : Task.parallelModeCommit s ps a ∈ x₁.state.tasks := ht
    rw [show x₁.state.tasks = [] from hx₂.tasks] at ht
    cases ht

/-! ### Every step -/

/-- The application thread goes on, with the next read or with the outcome of the round. -/
theorem wake_waits (hslow : cfg.mode = .slow) : Keeps (Waits cfg tid k) (wake ⟨cfg, tid⟩) := by
  intro x hx
  rw [wake, wp_bind, wp_read]
  have hphase := hx.node.phase
  split
  · rename_i n p heq
    obtain ⟨hp, hq⟩ := Prod.mk.inj heq
    obtain ⟨hsome, hdone⟩ := Option.filter_eq_some_iff.1 hq
    rw [PhaseWaits, hp] at hphase
    rw [wp_bind, wp_update, wp_ite]
    have hx₁ : Waits cfg tid k { x with state := { x.state with promise := none } } :=
      hx.update (hx.node.round hp rfl rfl rfl hphase.2.1 (fun _ h => by cases h))
    refine ⟨fun _ => finish_waits (fun hok => (hphase.2.2 p hsome).reason hdone hok) _ hx₁,
      fun _ => round_waits hslow _ hx.node.parallel hx.node.tasks hphase.1 hphase.2.1 hx.sent⟩
  · rename_i s keys record rest p heq
    obtain ⟨hp, hq⟩ := Prod.mk.inj heq
    obtain ⟨hsome, hdone⟩ := Option.filter_eq_some_iff.1 hq
    rw [PhaseWaits, hp] at hphase
    -- an answered promise: the read is neither queued nor outstanding
    have hrests : Rests cfg tid k x := by
      cases hphase with
      | idle htasks hnone => exact ⟨hx.node.parallel, htasks, hnone, hx.sent⟩
      | queued _ _ _ _ _ hopen =>
        rw [hopen p hsome] at hdone
        cases hdone
      | sent _ _ _ hopen =>
        rw [hopen p hsome] at hdone
        cases hdone
    rw [wp_bind, wp_when]
    refine ⟨fun _ => ?_, fun _ => readNext_waits hrests _⟩
    exact wp_mono (fun _ x₁ hx₁ => readNext_waits hx₁ _) (fun _ hd => hd)
      (wp_forM (fun key _ x' hx' => Rests.congr hx' rfl rfl rfl rfl) hrests)
  · exact hx

/-- A call of the application. -/
theorem call_waits {y : ClientM Unit}
    (hy : ∀ x, Waits cfg tid k x → Rests cfg tid k x → x.state.phase = .running →
      wp y (fun _ => Waits cfg tid k) (Waits cfg tid k) x) : Keeps (Waits cfg tid k) (call y) := by
  intro x hx
  rw [call, wp_bind, wp_read]
  have hphase := hx.node.phase
  split
  · rename_i hp
    rw [PhaseWaits, hp] at hphase
    exact hy x hx ⟨hx.node.parallel, hphase.1, hphase.2, hx.sent⟩ hp
  · exact hx

theorem handleAction_waits (hslow : cfg.mode = .slow) (a : Action) :
    Keeps (Waits cfg tid k) (handleAction ⟨cfg, tid⟩ ω a) := by
  cases a with
  | get key => exact call_waits fun x _ hrests hp => get_waits hrests hp key
  | multiGet keys => exact call_waits fun x _ hrests _ => multiGet_waits hrests keys
  | put key value => exact call_waits fun x _ hrests hp => put_waits hrests hp key value
  | commit => exact call_waits fun x hx _ hp => commit_waits hslow hx hp
  | abort =>
    refine call_waits fun x hx _ _ => ?_
    rw [abort, wp_bind, wp_emit]
    exact invokeCommit_waits (fun h => by cases h) hx.node.parallel hx.node.tasks hx.sent
  | wake => exact wake_waits hslow
  | task i => exact handleTask_waits hslow i
  | prepareTimeout s => exact prepareTimeoutCallback_waits
  | getTimeout s => exact getDateTimeoutCallback_waits
  | parallelModeCommitTimeout s => exact parallelModeCommitTimeout_waits

/-- The input tells this client that its transaction is prepared. -/
def Assures (tid : TxnId) : Input Addr Msg Act → Prop
  | .recv p => ∃ m, p.msg = .prepareTransactionReply m ∧ m.tid = tid ∧ m.state = .prepareOk
  | _ => False

/-- **A step of a client** in the slow mode. -/
theorem handleInput_waits (hslow : cfg.mode = .slow) {input : Input Addr Msg Act}
    (hk : Assures tid input → k) : Keeps (Waits cfg tid k) (handleInput ⟨cfg, tid⟩ ω input) := by
  cases input with
  | act a =>
    cases a with
    | client a => exact handleAction_waits hslow a
    | timer t => exact .pure _
  | recv p =>
    obtain ⟨src, dst, msg⟩ := p
    cases dst with
    | client t s =>
      cases msg with
      | prepareTransactionReply m =>
        intro x hx
        rw [handleInput, handleMessage, wp_when]
        refine ⟨fun htid => ?_, fun _ => hx⟩
        exact handlePrepareTxnReply_waits hslow m
          (fun hok => hk ⟨m, rfl, of_decide_eq_true htid, hok⟩) x hx
      | getDataReply m => exact .when (handleGetDataReply_waits m)
      | parallelModeCommitReply m => exact .when (handleParallelModeCommitReply_waits m)
      | _ => exact .pure _
    | _ => exact .pure _

end Client

/-! ### Every run -/

/-- A commit that is sent has the reason `K`, and a client prepares at leaders. -/
def SlowWords (cfg : Config) (K : History → TxnId → Prop) (h : History) (p : Pkt) : Prop :=
  match p.msg with
  | .prepareTransaction _ => p.src = .sendOnly ∨ ∃ s, p.dst = .replica s (cfg.leader s)
  | .commit m => m.state = .commit → K h m.tid
  | .parallelModeCommit _ => False
  | _ => True

/-- The invariant of a process; only that of a client says something. -/
def WaitingNode (K : History → TxnId → Prop) (h : History) : (n : Node) → Local n → Prop
  | .client tid, c => Client.Waiting (K h tid) c
  | _, _ => True

section Run

variable {cfg : Config} {C : StepCond} {w : GlobalState} {K : History → TxnId → Prop}

theorem Client.Waiting.init (k : Prop) : Client.Waiting k {} :=
  ⟨fun _ => rfl, fun _ _ _ => List.not_mem_nil, rfl, fun _ => rfl⟩

theorem Client.Words.slow {h : History} {p : Pkt} {tid : TxnId}
    (hp : Client.Words cfg tid (K h tid) p) : SlowWords cfg K h p := by
  obtain ⟨src, dst, msg⟩ := p
  cases msg with
  | prepareTransaction m => exact .inr hp
  | commit m =>
    obtain ⟨rfl, hreason⟩ := hp
    exact hreason
  | parallelModeCommit m => exact hp.elim
  | _ => trivial

theorem SlowWords.mono (hmono : ∀ h es tid, K h tid → K (h ++ es) tid) {h es : History} {p : Pkt}
    (hp : SlowWords cfg K h p) : SlowWords cfg K (h ++ es) p := by
  obtain ⟨src, dst, msg⟩ := p
  cases msg with
  | prepareTransaction m => exact hp
  | commit m => exact fun hstate => hmono _ _ _ (hp hstate)
  | parallelModeCommit m => exact hp.elim
  | _ => trivial

/-- Coordinators and replicas send neither, and a replica prepares pieces. -/
theorem Msg.ofCoordinator.slowWords {h : History} {p : Pkt} (hp : p.msg.ofCoordinator) :
    SlowWords cfg K h p := by
  obtain ⟨src, dst, msg⟩ := p
  cases msg with
  | prepareTransaction m => exact hp.elim
  | commit m => exact hp.elim
  | parallelModeCommit m => exact hp.elim
  | _ => trivial

theorem slowWords_of_replica {env : ReplicaEnv} {ω : Choice} {input : Input Addr Msg Act}
    {r : Replica} {h : History} {p : Pkt}
    (hp : p ∈ (Replica.handleInput env ω input { state := r }).state.sent) :
    SlowWords cfg K h p := by
  have hkind := (Replica.handleInput_sends env ω input).sent hp
  obtain ⟨src, dst, msg⟩ := p
  cases msg with
  | prepareTransaction m =>
    obtain ⟨_, _, _, _, _, _, hpiece⟩ := Replica.handleInput_handedOut hp rfl
    exact .inl (congrArg Packet.src hpiece)
  | commit m => exact hkind.elim
  | parallelModeCommit m => exact hkind.elim
  | _ => trivial

/-- **The slow mode.** Where a client is assured of a transaction only for the reason `K`, every
commit that is sent has that reason, and nobody asks for an outcome. -/
theorem Config.waiting (hslow : cfg.mode = .slow)
    (hmono : ∀ h es tid, K h tid → K (h ++ es) tid)
    (hC : ∀ w tid ω input, C w (.client tid) ω input → cfg.system.Enabled w (.client tid) input →
      Client.Assures tid input → K w.history tid)
    (hw : cfg.system.Reach C w) :
    (∀ tid, Client.Waiting (K w.history tid) (w.client tid)) ∧
      ∀ p ∈ w.net, SlowWords cfg K w.history p := by
  suffices hall : (∀ n, WaitingNode K w.history n (w.state n)) ∧
      ∀ p ∈ w.net, SlowWords cfg K w.history p from ⟨fun tid => hall.1 (.client tid), hall.2⟩
  refine hw.invariant (fun n => ?_) (fun _ _ _ => SlowWords.mono hmono)
    (fun h n n' es x _ hx => ?_) ?_
  · cases n with
    | client tid => exact Client.Waiting.init _
    | replica s i => trivial
    | coordinator c => trivial
  · cases n with
    | client tid =>
      exact Client.Waiting.mono (show Client.Waiting (K h tid) x from hx) (hmono h _ tid)
    | replica s i => trivial
    | coordinator c => trivial
  · intro (w : GlobalState) n ω input _ hnode _ hen hc
    cases n with
    | client tid =>
      have hstart : Client.Waits cfg tid (K w.history tid)
          ({ state := w.client tid } : Ctx Client Addr Msg Event) :=
        ⟨hnode (.client tid), fun p hp => absurd hp List.not_mem_nil⟩
      have hgood : ∀ y : Ctx Client Addr Msg Event, Client.Waits cfg tid (K w.history tid) y →
          Good (fun h => WaitingNode K h (.client tid)) (SlowWords cfg K) w.history
            (.client tid) y := by
        intro y hy
        have hmore := hmono w.history (y.events.map (Node.client tid, ·)) tid
        exact ⟨hy.node.mono hmore, fun p hp => (hy.sent p hp).slow.mono hmono⟩
      exact wp_mono (fun _ y hy => hgood y hy) (fun y hy => hgood y hy)
        (Client.handleInput_waits hslow (fun h => hC w tid ω input hc hen h) _ hstart)
    | replica s i => exact wp_of_state ⟨trivial, fun p hp => slowWords_of_replica hp⟩
    | coordinator c =>
      exact (Coordinator.handleInput_sends ⟨cfg, c⟩ ω input).good (fun _ _ => trivial)
        (fun _ _ => trivial) Msg.ofCoordinator.slowWords

end Run

end D2PC
