import D2PC.Protocol.Client

/-!
# The reads of a client, call by call

A read of `Client` is spread over two threads: the application thread hands a task to the
transport thread and sleeps until its promise is answered. Seen from the application each
shard that is asked gives one answer, a reply or a timeout, and the call returns what it makes
of the answers. This module writes the calls down in that way and shows that the two threads
compute the same.

* `Answer`, `Answer.fulfil` : an answer, and what it does to the promise;
* `getReturns`, `multiGetReturns` : what `Get` and `MultiGet` return for given answers, and the
  client they leave behind;
* `get_served`, `multiGet_served` : the event handlers return and leave the same.
-/

namespace D2PC

namespace Client

open Ctx Prog

/-! ### Answers -/

/-- What a shard answers a read with: a reply, or nothing before the timeout. -/
inductive Answer where
  | reply (m : GetDataReply)
  | timeout
  deriving DecidableEq

/-- The code the promise gets. -/
def Answer.code : Answer → ℕ
  | .reply m => m.state.code
  | .timeout => replyTimeout

/-- `GetCallback` and `GetTimeout`: the promise gets the first version of a reply. -/
def Answer.fulfil (p : Promise) : Answer → Promise
  | .reply m =>
      match m.keys with
      | [] => p.replyFinal m.state.code {}
      | v :: _ => p.replyRead m.state.code ⟨v.timestamp, 0⟩ v.value
  | .timeout => p.replyCode replyTimeout

@[simp] theorem Answer.fulfil_done (p : Promise) (a : Answer) : (a.fulfil p).done = true := by
  cases a with
  | timeout => rfl
  | reply m =>
      simp only [fulfil]
      split <;> rfl

@[simp] theorem Answer.fulfil_reply (p : Promise) (a : Answer) : (a.fulfil p).reply = a.code := by
  cases a with
  | timeout => rfl
  | reply m =>
      simp only [fulfil, code]
      split <;> rfl

@[simp] theorem Answer.fulfil_address (p : Promise) (a : Answer) :
    (a.fulfil p).address = p.address := by
  cases a with
  | timeout => rfl
  | reply m =>
      simp only [fulfil]
      split <;> rfl

/-! ### The calls -/

/-- `addReadSet` for each of the keys. -/
def recordReads (env : ClientEnv) (s : Shard) (t : Timestamp) (keys : List Key) (c : Client) :
    Client :=
  keys.foldl (fun c key =>
    { c with txns := c.txns.insert s ((c.buffered env s).addReadSet key t) }) c

/-- What `BufferClient` does with a promise that is answered. -/
def recordAnswer (env : ClientEnv) (s : Shard) (keys : List Key) (p : Promise) (c : Client) :
    Client :=
  if p.reply = replyOk then recordReads env s p.timestamp keys c else c

/-- `Get`, where `a` is the answer if the shard is asked: the code and the value. -/
def getReturns (env : ClientEnv) (a : Answer) (key : Key) (c : Client) : (ℕ × Value) × Client :=
  let s := env.cfg.keyToShard key
  let txn := c.buffered env s
  match txn.writeSet.lookup key with
  | some value => ((replyOk, value), c)
  | none =>
      let p := a.fulfil { address := c.promises, participantNumber := 0 }
      ((p.reply, p.value), if key ∈ txn.readSet then c else recordAnswer env s [key] p c)

/-- The loop of `MultiGet` over the shards it asks, with the promise they share. -/
def readShards (env : ClientEnv) (answers : Shard → Answer) :
    List (Shard × List Key) → Promise → Client → ℕ × Client
  | [], p, c => (p.reply, c)
  | (s, keys) :: rest, p, c =>
      let p := (answers s).fulfil p.reset
      let c := recordAnswer env s keys p c
      if p.reply = replyFail then (p.reply, c) else readShards env answers rest p c

/-- `MultiGet`: the code, or `none` if the thread waits forever. -/
def multiGetReturns (env : ClientEnv) (answers : Shard → Answer) (keys : List Key) (c : Client) :
    Option (ℕ × Client) :=
  match askedShards env keys with
  | [] => none
  | q :: rest =>
      some (readShards env answers (q :: rest)
        { address := c.promises, participantNumber := 0 } c)

/-! ### The two threads -/

/-- The answers of a run are for its transaction. -/
def Answer.For (tid : TxnId) : Answer → Prop
  | .reply m => m.tid = tid
  | .timeout => True

/-- The transport thread sends the request that was handed to it, and the answer arrives. -/
def serveRead (env : ClientEnv) (s : Shard) (a : Answer) : ClientM Unit := do
  handleAction env {} (.task 0)
  match a with
  | .reply m => handleMessage env {} s (.getDataReply m)
  | .timeout => handleAction env {} (.getTimeout s)

/-- The application thread sleeps until the answer is there, and wakes up with the promise. -/
def awaitRead (env : ClientEnv) (s : Shard) (a : Answer) : ClientM (Option Promise) := do
  serveRead env s a
  let p ← read (·.promise)
  handleAction env {} .wake
  pure p

/-- The reads that are left of a `MultiGet`, until the thread has returned from the call. -/
def awaitReads (env : ClientEnv) (answers : Shard → Answer) :
    List (Shard × List Key) → ClientM (Option Promise)
  | [] => pure none
  | (s, _) :: rest => do
      let p ← awaitRead env s (answers s)
      match ← read (·.phase) with
      | .running => pure p
      | _ => awaitReads env answers rest

/-- `MultiGet`, from the call to the return. -/
def awaitMultiGet (env : ClientEnv) (answers : Shard → Answer) (keys : List Key) :
    ClientM (Option Promise) := do
  handleAction env {} (.multiGet keys)
  awaitReads env answers (askedShards env keys)

/-- `Get`, from the call to the return; no promise is waited for when the call returns at
once. -/
def awaitGet (env : ClientEnv) (a : Answer) (key : Key) : ClientM (Option Promise) := do
  handleAction env {} (.get key)
  match ← read (·.phase) with
  | .running => pure none
  | _ => awaitRead env (env.cfg.keyToShard key) a

variable {env : ClientEnv} {s : Shard} {keys : List Key} {p : Promise}
variable {x : Ctx Client Addr Msg Event}

/-- A read is on its way to the transport thread. -/
structure Asked (s : Shard) (keys : List Key) (record : Bool) (rest : List (Shard × List Key))
    (p : Promise) (c : Client) : Prop where
  phase : c.phase = .reading s keys record rest
  tasks : c.tasks = [.get s keys p.address]
  promise : c.promise = some p

theorem serveRead_spec {record : Bool} {rest : List (Shard × List Key)} {a : Answer}
    (h : Asked s keys record rest p x.state) (ha : a.For env.tid) :
    wp (serveRead env s a) (fun _ y => y.state.phase = x.state.phase ∧ y.state.tasks = [] ∧
      y.state.promise = some (a.fulfil p) ∧ y.state.txns = x.state.txns) (fun _ => False) x := by
  -- the request is pending and the shard waits for the promise when the answer arrives
  have hask : wp (handleAction env {} (.task 0)) (fun _ y => y.state.phase = x.state.phase ∧
      y.state.tasks = [] ∧ y.state.promise = some p ∧ y.state.txns = x.state.txns ∧
      y.state.pendingReqs.lookup s = some .getData ∧ y.state.waiting.lookup s = some p.address)
      (fun _ => False) x := by
    simp only [handleAction, handleTask, wp_bind, wp_read, h.tasks, List.getElem?_cons_zero,
      wp_update, runTask, invokeGetData, wp_when, sendMessageToReplica, wp_send, if_true,
      List.eraseIdx_cons_zero, Table.lookup_insert_eq, h.promise]
    exact ⟨fun _ => ⟨trivial, trivial, trivial, trivial, trivial, trivial⟩, fun hnot => by cases hnot⟩
  have hreply : ∀ (y : Ctx Client Addr Msg Event) (f : Promise → Promise),
      y.state.promise = some p → y.state.waiting.lookup s = some p.address →
      wp (replyGet {} s f) (fun _ z => z.state.phase = y.state.phase ∧
        z.state.tasks = y.state.tasks ∧ z.state.promise = some (f p) ∧
        z.state.txns = y.state.txns) (fun _ => False) y := by
    intro y f hp hwait
    simp only [replyGet, wp_bind, wp_read, waitingOn, hwait, hp, Option.filter, decide_true,
      Bool.true_or, if_true, clearWaiting, wp_update, setPromise]
    exact ⟨trivial, trivial, trivial, trivial⟩
  unfold serveRead
  rw [wp_bind]
  refine wp_mono (fun _ y hy => ?_) (fun _ hy => hy) hask
  obtain ⟨hphase, htasks, hpromise, htxns, hreq, hwait⟩ := hy
  cases a with
  | reply m =>
      have htid : m.tid = env.tid := ha
      simp only [handleMessage, htid, decide_true, when, if_true, handleGetDataReply, wp_bind,
        wp_read, hreq, erasePendingReq, wp_update]
      refine wp_mono (fun _ z hz => ?_) (fun _ hz => hz) (hreply _ _ hpromise hwait)
      obtain ⟨h₁, h₂, h₃, h₄⟩ := hz
      exact ⟨h₁.trans hphase, h₂.trans htasks, h₃, h₄.trans htxns⟩
  | timeout =>
      simp only [handleAction, getDateTimeoutCallback, wp_bind, wp_read, hreq, erasePendingReq,
        wp_update]
      refine wp_mono (fun _ z hz => ?_) (fun _ hz => hz) (hreply _ _ hpromise hwait)
      obtain ⟨h₁, h₂, h₃, h₄⟩ := hz
      exact ⟨h₁.trans hphase, h₂.trans htasks, h₃, h₄.trans htxns⟩

/-- The loop that records the reads, as one update. -/
theorem forM_addReadSet (t : Timestamp) (keys : List Key) (x : Ctx Client Addr Msg Event) :
    (keys.forM fun key => modifyBuffer env s (·.addReadSet key t)) x =
      .done () { x with state := recordReads env s t keys x.state } := by
  induction keys generalizing x with
  | nil => rfl
  | cons key keys ih =>
      show (modifyBuffer env s (·.addReadSet key t) >>= fun _ =>
        keys.forM fun key => modifyBuffer env s (·.addReadSet key t)) x = _
      exact ih _

theorem recordReads_frame (t : Timestamp) (keys : List Key) (c : Client) :
    (recordReads env s t keys c).phase = c.phase ∧ (recordReads env s t keys c).tasks = c.tasks ∧
      (recordReads env s t keys c).promise = c.promise := by
  induction keys generalizing c with
  | nil => exact ⟨rfl, rfl, rfl⟩
  | cons key keys ih => exact ih _

theorem recordAnswer_frame (c : Client) :
    (recordAnswer env s keys p c).phase = c.phase ∧
      (recordAnswer env s keys p c).tasks = c.tasks ∧
      (recordAnswer env s keys p c).promise = c.promise := by
  unfold recordAnswer
  split
  · exact recordReads_frame p.timestamp keys c
  · exact ⟨rfl, rfl, rfl⟩

/-- The thread wakes up: the answer is recorded and the next shard is asked. -/
theorem wake_reading {record : Bool} {rest : List (Shard × List Key)}
    (hphase : x.state.phase = .reading s keys record rest) (hpromise : x.state.promise = some p)
    (hdone : p.done = true) :
    wake env x = readNext (if p.reply = replyFail then [] else rest) { x with
      state := if record then recordAnswer env s keys p x.state else x.state } := by
  simp only [wake, read_bind, hphase, hpromise, Option.filter, hdone, if_true]
  unfold recordAnswer
  by_cases hok : p.reply = replyOk
  · cases record with
    | true =>
        simp only [hok, decide_true, Bool.true_and, when, if_true, bind, forM_addReadSet]
    | false => rw [hok]; rfl
  · simp only [hok, decide_false, Bool.false_and, when, if_false, ite_self, bind]
    rfl

/-- What is recorded depends on the buffers only. -/
theorem recordAnswer_txns {c c' : Client} (h : c.txns = c'.txns) :
    (recordAnswer env s keys p c).txns = (recordAnswer env s keys p c').txns := by
  have hreads : ∀ (t : Timestamp) (keys : List Key) (c c' : Client), c.txns = c'.txns →
      (recordReads env s t keys c).txns = (recordReads env s t keys c').txns := by
    intro t keys
    induction keys with
    | nil => exact fun c c' h => h
    | cons key keys ih =>
        intro c c' h
        apply ih
        show c.txns.insert s _ = c'.txns.insert s _
        rw [buffered, buffered, h]
  unfold recordAnswer
  split
  · exact hreads p.timestamp keys c c' h
  · exact h

/-- Where the thread is after a read: back from the call, or waiting for the next shard. -/
def Resumed (p : Promise) (rest : List (Shard × List Key)) (c : Client) : Prop :=
  match rest with
  | [] => c.phase = .running
  | (s, keys) :: rest => Asked s keys true rest p.reset c

/-- **One read.** The thread wakes up with the answer, which is recorded. -/
theorem awaitRead_spec {record : Bool} {rest : List (Shard × List Key)} {a : Answer}
    (h : Asked s keys record rest p x.state) (ha : a.For env.tid) :
    wp (awaitRead env s a) (fun r y => r = some (a.fulfil p) ∧
      y.state.txns =
        (if record then recordAnswer env s keys (a.fulfil p) x.state else x.state).txns ∧
      Resumed (a.fulfil p) (if a.code = replyFail then [] else rest) y.state)
      (fun _ => False) x := by
  unfold awaitRead
  simp only [wp_bind, wp_read, wp_pure]
  refine wp_mono (fun _ y hy => ?_) (fun _ hy => hy) (serveRead_spec h ha)
  obtain ⟨hphase, htasks, hpromise, htxns⟩ := hy
  have hwake : wake env y = _ := wake_reading (hphase.trans h.phase) hpromise (Answer.fulfil_done p a)
  rw [Answer.fulfil_reply] at hwake
  have hsame : (if record then recordAnswer env s keys (a.fulfil p) y.state else y.state).txns =
      (if record then recordAnswer env s keys (a.fulfil p) x.state else x.state).txns := by
    split
    · exact recordAnswer_txns htxns
    · exact htxns
  have hframe : (if record then recordAnswer env s keys (a.fulfil p) y.state else y.state).tasks =
      y.state.tasks ∧
      (if record then recordAnswer env s keys (a.fulfil p) y.state else y.state).promise =
      y.state.promise := by
    split
    · exact (recordAnswer_frame y.state).2
    · exact ⟨rfl, rfl⟩
  show wp (wake env) _ _ y
  unfold wp
  rw [hwake]
  cases hrest : (if a.code = replyFail then [] else rest) with
  | nil => exact ⟨hpromise, hsame, rfl⟩
  | cons q rest' =>
      refine ⟨hpromise, hsame, rfl, ?_, ?_⟩
      · show _ ++ (Option.map Promise.reset _).toList.map _ = _
        rw [hframe.1, hframe.2, htasks, hpromise]
        rfl
      · show Option.map Promise.reset _ = _
        rw [hframe.2, hpromise]
        rfl

/-- The loop depends on the buffers only. -/
theorem readShards_txns {answers : Shard → Answer} (l : List (Shard × List Key)) (p : Promise)
    {c c' : Client} (h : c.txns = c'.txns) :
    (readShards env answers l p c).1 = (readShards env answers l p c').1 ∧
      (readShards env answers l p c).2.txns = (readShards env answers l p c').2.txns := by
  induction l generalizing p c c' with
  | nil => exact ⟨rfl, h⟩
  | cons q l ih =>
      simp only [readShards]
      split
      · exact ⟨rfl, recordAnswer_txns h⟩
      · exact ih _ (recordAnswer_txns h)

/-- **The reads that are left.** The thread returns from the call with the code and the buffers
of the loop over the answers. -/
theorem awaitReads_spec (answers : Shard → Answer) (hanswers : ∀ s, (answers s).For env.tid)
    (q : Shard × List Key) (rest : List (Shard × List Key)) (p₀ : Promise)
    (h : Asked q.1 q.2 true rest p₀.reset x.state) :
    wp (awaitReads env answers (q :: rest)) (fun r y => y.state.phase = .running ∧
      r.map Promise.reply = some (readShards env answers (q :: rest) p₀ x.state).1 ∧
      y.state.txns = (readShards env answers (q :: rest) p₀ x.state).2.txns)
      (fun _ => False) x := by
  induction rest generalizing q p₀ x with
  | nil =>
      simp only [awaitReads, wp_bind]
      refine wp_mono (fun r y hy => ?_) (fun _ hy => hy) (awaitRead_spec h (hanswers q.1))
      obtain ⟨rfl, htxns, hresumed⟩ := hy
      rw [ite_self] at hresumed
      have hphase : y.state.phase = .running := hresumed
      simp only [wp_read, hphase, wp_pure, readShards, Answer.fulfil_reply, ite_self]
      exact ⟨trivial, congrArg some (Answer.fulfil_reply _ _), htxns⟩
  | cons q' rest ih =>
      simp only [awaitReads, wp_bind]
      refine wp_mono (fun r y hy => ?_) (fun _ hy => hy) (awaitRead_spec h (hanswers q.1))
      obtain ⟨rfl, htxns, hresumed⟩ := hy
      rw [readShards, Answer.fulfil_reply]
      by_cases hfail : (answers q.1).code = replyFail
      · rw [if_pos hfail] at hresumed
        have hphase : y.state.phase = .running := hresumed
        simp only [wp_read, hphase, wp_pure, if_pos hfail]
        exact ⟨trivial, congrArg some (Answer.fulfil_reply _ _), htxns⟩
      · rw [if_neg hfail] at hresumed
        have hasked : Asked q'.1 q'.2 true rest ((answers q.1).fulfil p₀.reset).reset y.state :=
          hresumed
        obtain ⟨hcode, hbuffers⟩ := readShards_txns (q' :: rest)
          ((answers q.1).fulfil p₀.reset) htxns
        simp only [wp_read, hasked.phase, if_neg hfail]
        refine wp_mono (fun r z hz => ?_) (fun _ hz => hz) (ih q' _ hasked)
        obtain ⟨hphase, hr, hz⟩ := hz
        exact ⟨hphase, hr.trans (congrArg some hcode), hz.trans hbuffers⟩

/-- **`MultiGet`.** From the call to the return the two threads do what the loop over the
answers does. -/
theorem multiGet_served (answers : Shard → Answer) (hanswers : ∀ s, (answers s).For env.tid)
    (hphase : x.state.phase = .running) (htasks : x.state.tasks = []) {r : ℕ × Client}
    (hr : multiGetReturns env answers keys x.state = some r) :
    wp (awaitMultiGet env answers keys) (fun p y => y.state.phase = .running ∧
      p.map Promise.reply = some r.1 ∧ y.state.txns = r.2.txns) (fun _ => False) x := by
  unfold multiGetReturns at hr
  cases hasked : askedShards env keys with
  | nil =>
      rw [hasked] at hr
      cases hr
  | cons q rest =>
      rw [hasked] at hr
      obtain rfl := Option.some.inj hr
      simp only [awaitMultiGet, handleAction, call, multiGet, newPromise, hasked, readNext, addTask,
        wp_bind, wp_read, wp_update, hphase]
      refine wp_mono (fun _ y hy => ?_) (fun _ hy => hy)
        (wp_forM (I := fun y : Ctx Client Addr Msg Event => y.state.tasks = [] ∧
          y.state.promises = x.state.promises ∧ y.state.txns = x.state.txns)
          (fun key _ y hy => hy) ⟨htasks, rfl, rfl⟩)
      obtain ⟨htasks, hnext, htxns⟩ := hy
      refine wp_mono (fun p z hz => ?_) (fun _ hz => hz) (awaitReads_spec answers hanswers q rest
        { address := x.state.promises, participantNumber := 0 } ⟨rfl, ?_, ?_⟩)
      · obtain ⟨hphase, hp, hz⟩ := hz
        refine ⟨hphase, hp.trans (congrArg some (readShards_txns (q :: rest) _ ?_).1),
          hz.trans (readShards_txns (q :: rest) _ ?_).2⟩
        · exact htxns
        · exact htxns
      · show y.state.tasks ++ [Task.get q.1 q.2 y.state.promises] = _
        rw [htasks, hnext]
        rfl
      · show some (Promise.reset _) = some (Promise.reset _)
        rw [hnext]

/-- **`Get`.** A key of the write set is answered at once, any other by its shard. -/
theorem get_served (a : Answer) (ha : a.For env.tid) (key : Key)
    (hphase : x.state.phase = .running) (htasks : x.state.tasks = []) :
    wp (awaitGet env a key) (fun r y => y.state.phase = .running ∧
      (∀ p, r = some p → (p.reply, p.value) = (getReturns env a key x.state).1) ∧
      (r = none → key ∈ (x.state.buffered env (env.cfg.keyToShard key)).writeSet) ∧
      y.state.txns = (getReturns env a key x.state).2.txns) (fun _ => False) x := by
  simp only [awaitGet, handleAction, call, get, addParticipant, wp_bind, wp_read, wp_update, hphase]
  refine (wp_ite _ _ _).2 ⟨fun hin => ?_, fun hout => ?_⟩
  · have hown : key ∈ (x.state.buffered env (env.cfg.keyToShard key)).writeSet := hin
    obtain ⟨value, hvalue⟩ := Option.isSome_iff_exists.1 (AList.lookup_isSome.2 hown)
    have hreturns : getReturns env a key x.state = ((replyOk, value), x.state) := by
      simp only [getReturns, hvalue]
    rw [hreturns]
    exact ⟨rfl, fun p hp => (by cases hp), fun _ => hown, rfl⟩
  · have hnone : (x.state.buffered env (env.cfg.keyToShard key)).writeSet.lookup key = none :=
      AList.lookup_eq_none.2 hout
    simp only [newPromise, addTask, wp_bind, wp_update]
    refine wp_mono (fun r y hy => ?_) (fun _ hy => hy) (awaitRead_spec
      (p := { address := x.state.promises, participantNumber := 0 }) ⟨rfl, ?_, rfl⟩ ha)
    · obtain ⟨rfl, htxns, hresumed⟩ := hy
      rw [ite_self] at hresumed
      refine ⟨hresumed, fun p hp => ?_, fun hr => (by cases hr), htxns.trans ?_⟩
      · obtain rfl := Option.some.inj hp
        simp only [getReturns, hnone]
      · simp only [getReturns, hnone]
        show Client.txns (if decide (key ∉ (x.state.buffered env
          (env.cfg.keyToShard key)).readSet) = true then _ else _) = _
        by_cases hread : key ∈ (x.state.buffered env (env.cfg.keyToShard key)).readSet
        · rw [if_pos hread, if_neg (by simpa using hread)]
        · rw [if_neg hread, if_pos (by simpa using hread)]
          exact recordAnswer_txns rfl
    · show x.state.tasks ++ _ = _
      rw [htasks]
      rfl

end Client

end D2PC
