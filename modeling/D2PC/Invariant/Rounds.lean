import D2PC.Invariant.Client
import D2PC.Invariant.Moves
import D2PC.Invariant.Kinds
import D2PC.Invariant.Run

/-!
# What a client buffers and sends, in every mode

Before it starts to commit a client routes every key it writes or reads to the buffer of its
shard. A round sends each participant its own buffer, or in the slow modes the union of all
buffers to the primary shard. `SetParticipants` appends: the list in a message is that of the
start only if there is no second round (`once`).

* `Client.SameCall` : replies and timeouts leave the call of the application alone;
* `Client.RoundOk`, `RoundPkt` : the invariant of a client and of its messages;
* `Client.handleInput_rounds` : a step of a client keeps it, in every mode;
* `Config.rounds` : it holds in every run; with `once` in the runs without a second round.
-/

namespace D2PC

open Prog Ctx

namespace Client

/-! ### Replies and timeouts -/

/-- Nothing but the promise and the requests in flight changed. -/
structure SameCall (x y : Ctx Client Addr Msg Event) : Prop where
  phase : y.state.phase = x.state.phase
  participants : y.state.participants = x.state.participants
  txns : y.state.txns = x.state.txns
  tasks : y.state.tasks = x.state.tasks
  sent : y.sent = x.sent
  events : y.events = x.events

section SameCall

variable {env : ClientEnv} {ω : Choice} {s : Shard} {x : Ctx Client Addr Msg Event}

theorem SameCall.refl (x : Ctx Client Addr Msg Event) : SameCall x x :=
  ⟨rfl, rfl, rfl, rfl, rfl, rfl⟩

/-- A handler that leaves the call alone. -/
abbrev Aside {α : Type} (x : Ctx Client Addr Msg Event) (p : ClientM α) : Prop :=
  Prog.Keeps (SameCall x) p

theorem setPromise_aside (p : Promise) : Aside x (setPromise p) :=
  fun _ hy => ⟨hy.phase, hy.participants, hy.txns, hy.tasks, hy.sent, hy.events⟩

theorem clearWaiting_aside (s : Shard) : Aside x (clearWaiting s) :=
  fun _ hy => ⟨hy.phase, hy.participants, hy.txns, hy.tasks, hy.sent, hy.events⟩

theorem erasePendingReq_aside (s : Shard) : Aside x (erasePendingReq s) :=
  fun _ hy => ⟨hy.phase, hy.participants, hy.txns, hy.tasks, hy.sent, hy.events⟩

theorem parallelModeCommitTimeout_aside (s : Shard) : Aside x (parallelModeCommitTimeout s) :=
  fun _ hy => ⟨hy.phase, hy.participants, hy.txns, hy.tasks, hy.sent, hy.events⟩

theorem replyGet_aside (f : Promise → Promise) : Aside x (replyGet ω s f) := by
  refine .bind (.gets _) fun o => ?_
  cases o with
  | none => exact clearWaiting_aside s
  | some p => exact .bind (clearWaiting_aside s) fun _ => setPromise_aside _

theorem handleGetDataReply_aside (msg : GetDataReply) : Aside x (handleGetDataReply ω s msg) := by
  refine .bind (.gets _) fun o => ?_
  cases o with
  | none => exact .pure ()
  | some r =>
      cases r with
      | prepare _ => exact .crash
      | getData => exact .bind (erasePendingReq_aside s) fun _ => replyGet_aside _

theorem prepareCallback_aside (shard : Shard) (state timestamp : ℕ) :
    Aside x (prepareCallback env ω s shard state timestamp) := by
  refine .bind (.gets _) fun o => ?_
  cases o with
  | none => exact .pure ()
  | some p =>
      refine .ite (.pure ()) (.ite ?_ (setPromise_aside _))
      exact .bind (clearWaiting_aside s) fun _ => setPromise_aside _

theorem handlePrepareTxnReply_aside (msg : PrepareTransactionReply) :
    Aside x (handlePrepareTxnReply env ω s msg) := by
  refine .bind (.gets _) fun o => ?_
  cases o with
  | none => exact .pure ()
  | some r =>
      cases r with
      | getData => exact .crash
      | prepare req =>
          simp only
          split
          · exact .bind (prepareCallback_aside _ _ _) fun _ => erasePendingReq_aside s
          · exact fun _ hy => ⟨hy.phase, hy.participants, hy.txns, hy.tasks, hy.sent, hy.events⟩

theorem handleParallelModeCommitReply_aside (msg : ParallelModeCommitReply) :
    Aside x (handleParallelModeCommitReply ω s msg) := by
  refine .bind (.gets _) fun o => ?_
  cases o with
  | none => exact .pure ()
  | some _ =>
      refine .bind (parallelModeCommitTimeout_aside s) fun _ => ?_
      exact .bind (erasePendingReq_aside s) fun _ => replyGet_aside _

theorem prepareTimeoutCallback_aside : Aside x (prepareTimeoutCallback ω s) := by
  refine .bind (.gets _) fun o => ?_
  cases o with
  | none => exact .pure ()
  | some r =>
      cases r with
      | getData => exact .pure ()
      | prepare _ =>
          refine .bind (erasePendingReq_aside s) fun _ => .bind (.gets _) fun o => ?_
          cases o with
          | none => exact .pure ()
          | some p => exact setPromise_aside _

theorem getDateTimeoutCallback_aside : Aside x (getDateTimeoutCallback ω s) := by
  refine .bind (.gets _) fun o => ?_
  cases o with
  | none => exact .pure ()
  | some r =>
      cases r with
      | prepare _ => exact .pure ()
      | getData => exact .bind (erasePendingReq_aside s) fun _ => replyGet_aside _

/-- **A message** leaves the call of the application alone. -/
theorem handleMessage_aside (msg : Msg) : Aside x (handleMessage env ω s msg) := by
  cases msg with
  | prepareTransactionReply m => exact .when (handlePrepareTxnReply_aside m)
  | getDataReply m => exact .when (handleGetDataReply_aside m)
  | parallelModeCommitReply m => exact .when (handleParallelModeCommitReply_aside m)
  | _ => exact .pure ()

end SameCall

end Client

/-! ### The invariant -/

/-- What `t` writes and reads at a key, `f` tells of that key too. -/
structure Transaction.Within (t : Transaction) (f : Key → Transaction) : Prop where
  writes : ∀ k v, t.writeSet.lookup k = some v → (f k).writeSet.lookup k = some v
  reads : ∀ k v, t.readSet.lookup k = some v → (f k).readSet.lookup k = some v

/-- The transaction writes or reads the key. -/
def Transaction.Holds (t : Transaction) (k : Key) : Prop := k ∈ t.writeSet ∨ k ∈ t.readSet

/-- The modes that gather everything at the primary shard. -/
def Config.Gathers (cfg : Config) : Prop := cfg.mode = .slow ∨ cfg.mode = .rc

/-- What a client starts to commit: every key is in the buffer of its shard, and that shard is
a participant. -/
structure Planned (cfg : Config) (tid : TxnId) (st : Start) : Prop where
  nodup : st.participants.Nodup
  primary : st.primary = Client.primaryNumber (Client.primaryShard ⟨cfg, tid⟩ st.participants)
  routed : ∀ s k, (st.piece tid s).Holds k → cfg.keyToShard k = s ∧ s ∈ st.participants

/-- The transaction sent to shard `s` in a round, or queued for it. -/
structure Carried (once : Prop) (cfg : Config) (tid : TxnId) (st : Start) (s : Shard)
    (txn : Transaction) : Prop where
  id : txn.id = tid
  member : s ∈ st.participants
  primary : txn.primaryShard = st.primary
  listed : ∀ q, q ∈ txn.participants ↔ q ∈ st.participants
  same : once → txn.participants = st.participants
  gathered : cfg.Gathers → st.primary = s ∧
    txn.Within (fun k => st.piece tid (cfg.keyToShard k)) ∧
    ∀ p ∈ st.participants, (st.piece tid p).Within fun _ => txn
  own : ¬ cfg.Gathers → txn.writeSet = (st.piece tid s).writeSet ∧
    txn.readSet = (st.piece tid s).readSet

/-- What is handed to the transport thread in a round. -/
def QueuedOk (once : Prop) (cfg : Config) (tid : TxnId) (st : Start) : Task → Prop
  | .get _ _ _ => True
  | .prepare s txn _ => Carried once cfg tid st s txn
  | .parallelModeCommit _ participants _ => once → participants = st.participants

/-- The task is a read. -/
def Task.IsGet : Task → Prop
  | .get _ _ _ => True
  | _ => False

/-- Before the client starts. -/
structure BeforeStart (cfg : Config) (h : History) (tid : TxnId) (c : Client) : Prop where
  start : startOf h tid = none
  nodup : c.participants.Nodup
  ids : ∀ s, (c.buffered ⟨cfg, tid⟩ s).id = tid
  unlisted : ∀ s, (c.buffered ⟨cfg, tid⟩ s).participants = []
  routed : ∀ s k, (c.buffered ⟨cfg, tid⟩ s).Holds k → cfg.keyToShard k = s ∧ s ∈ c.participants
  tasks : ∀ t ∈ c.tasks, t.IsGet

/-- After the client started with `st`. -/
structure AfterStart (once : Prop) (cfg : Config) (h : History) (tid : TxnId) (st : Start)
    (c : Client) : Prop where
  start : startOf h tid = some st
  plan : Planned cfg tid st
  participants : c.participants = st.participants
  ids : ∀ s, (c.buffered ⟨cfg, tid⟩ s).id = tid
  listed : ∀ s, ∀ q ∈ (c.buffered ⟨cfg, tid⟩ s).participants, q ∈ st.participants
  sound : ∀ s, (c.buffered ⟨cfg, tid⟩ s).Within fun k => st.piece tid (cfg.keyToShard k)
  own : ∀ s, (st.piece tid s).Within fun _ => c.buffered ⟨cfg, tid⟩ s
  pieces : ¬ cfg.Gathers → ∀ s,
    (c.buffered ⟨cfg, tid⟩ s).writeSet = (st.piece tid s).writeSet ∧
    (c.buffered ⟨cfg, tid⟩ s).readSet = (st.piece tid s).readSet
  tasks : ∀ t ∈ c.tasks, QueuedOk once cfg tid st t

/-- The keys are asked where they belong. -/
def AskedRight (cfg : Config) (participants : List Shard) (l : List (Shard × List Key)) : Prop :=
  ∀ q ∈ l, ∀ key ∈ q.2, cfg.keyToShard key = q.1 ∧ q.1 ∈ participants

/-- What holds of a client in each phase. -/
def RoundOk (once : Prop) (cfg : Config) (tid : TxnId) (h : History) (c : Client) : Prop :=
  match c.phase with
  | .running => BeforeStart cfg h tid c
  | .reading s keys _ rest =>
      BeforeStart cfg h tid c ∧ AskedRight cfg c.participants ((s, keys) :: rest)
  | .preparing _ => ∃ st, AfterStart once cfg h tid st c
  | .finished => (∃ st, AfterStart once cfg h tid st c) ∨
      (startOf h tid = none ∧ ∀ t ∈ c.tasks, t.IsGet)

/-- The transaction of a message, with its primary shard. -/
def PrepareTransaction.txn (m : PrepareTransaction) : Transaction :=
  { Replica.transactionOf m with primaryShard := m.primaryShard }

/-- What holds of the messages of a client; a prepare from elsewhere is sent by a replica. -/
def RoundPkt (once : Prop) (cfg : Config) (h : History) (p : Pkt) : Prop :=
  match p.msg with
  | .prepareTransaction m => p.src = .sendOnly ∨ ∃ s, p.src = .client m.tid s ∧
      (∃ st, startOf h m.tid = some st ∧ Planned cfg m.tid st ∧
        Carried once cfg m.tid st s m.txn) ∧
      (∃ j, p.dst = .replica s j) ∧ m.mode = Client.commitMode cfg.mode
  | .parallelModeCommit m =>
      ∃ st, startOf h m.tid = some st ∧ Planned cfg m.tid st ∧
        (once → m.participants = st.participants)
  | _ => True

section Frames

variable {once : Prop} {cfg : Config} {tid : TxnId} {h es : History} {c c' : Client} {st : Start}

theorem RoundPkt.mono {p : Pkt} (hp : RoundPkt once cfg h p) : RoundPkt once cfg (h ++ es) p := by
  obtain ⟨src, dst, msg⟩ := p
  cases msg with
  | prepareTransaction m =>
      refine hp.imp_right fun hp => ?_
      obtain ⟨s, hsrc, ⟨st, hst, hrest⟩, hdst⟩ := hp
      exact ⟨s, hsrc, ⟨st, startOf_mono hst, hrest⟩, hdst⟩
  | parallelModeCommit m =>
      obtain ⟨st, hst, hrest⟩ := hp
      exact ⟨st, startOf_mono hst, hrest⟩
  | _ => trivial

/-- Only the participants, the buffers and the tasks count, and whether the client started. -/
theorem BeforeStart.congr (hc : BeforeStart cfg h tid c) {h' : History}
    (hstart : startOf h' tid = startOf h tid) (hps : c'.participants = c.participants)
    (htxns : c'.txns = c.txns) (htasks : ∀ t ∈ c'.tasks, t ∈ c.tasks ∨ t.IsGet) :
    BeforeStart cfg h' tid c' := by
  have hbuf : ∀ s, c'.buffered ⟨cfg, tid⟩ s = c.buffered ⟨cfg, tid⟩ s := fun s => by
    rw [Client.buffered, Client.buffered, htxns]
  refine ⟨hstart.trans hc.start, hps ▸ hc.nodup, fun s => hbuf s ▸ hc.ids s,
    fun s => hbuf s ▸ hc.unlisted s, fun s k hk => ?_, fun t ht => ?_⟩
  · rw [hbuf] at hk
    rw [hps]
    exact hc.routed s k hk
  · exact (htasks t ht).elim (hc.tasks t) id

theorem AfterStart.congr (hc : AfterStart once cfg h tid st c) {h' : History}
    (hstart : startOf h' tid = startOf h tid) (hps : c'.participants = c.participants)
    (htxns : c'.txns = c.txns) (htasks : ∀ t ∈ c'.tasks, t ∈ c.tasks) :
    AfterStart once cfg h' tid st c' := by
  have hbuf : ∀ s, c'.buffered ⟨cfg, tid⟩ s = c.buffered ⟨cfg, tid⟩ s := fun s => by
    rw [Client.buffered, Client.buffered, htxns]
  exact ⟨hstart.trans hc.start, hc.plan, hps.trans hc.participants, fun s => hbuf s ▸ hc.ids s,
    fun s => hbuf s ▸ hc.listed s, fun s => hbuf s ▸ hc.sound s, fun s => hbuf s ▸ hc.own s,
    fun hg s => hbuf s ▸ hc.pieces hg s, fun t ht => hc.tasks t (htasks t ht)⟩

/-- The same phase. -/
theorem RoundOk.congr (hc : RoundOk once cfg tid h c) {h' : History}
    (hstart : startOf h' tid = startOf h tid) (hphase : c'.phase = c.phase)
    (hps : c'.participants = c.participants) (htxns : c'.txns = c.txns)
    (htasks : ∀ t ∈ c'.tasks, t ∈ c.tasks) : RoundOk once cfg tid h' c' := by
  unfold RoundOk at hc ⊢
  rw [hphase]
  split at hc
  · exact hc.congr hstart hps htxns fun t ht => .inl (htasks t ht)
  · exact ⟨hc.1.congr hstart hps htxns fun t ht => .inl (htasks t ht), hps ▸ hc.2⟩
  · obtain ⟨st, hst⟩ := hc
    exact ⟨st, hst.congr hstart hps htxns htasks⟩
  · refine hc.imp (fun ⟨st, hst⟩ => ⟨st, hst.congr hstart hps htxns htasks⟩) fun hc => ?_
    exact ⟨hstart.trans hc.1, fun t ht => hc.2 t (htasks t ht)⟩

/-- A client that started is past its start. -/
theorem RoundOk.afterStart (hc : RoundOk once cfg tid h c) (hst : startOf h tid = some st) :
    AfterStart once cfg h tid st c := by
  have hafter : (∃ st, AfterStart once cfg h tid st c) → AfterStart once cfg h tid st c := by
    rintro ⟨st', hst'⟩
    cases hst.symm.trans hst'.start
    exact hst'
  unfold RoundOk at hc
  split at hc
  · cases hst.symm.trans hc.start
  · cases hst.symm.trans hc.1.start
  · exact hafter hc
  · rcases hc with hc | hc
    · exact hafter hc
    · cases hst.symm.trans hc.1

end Frames

namespace Client

/-! ### Before the start -/

variable {once : Prop} {cfg : Config} {tid : TxnId} {h : History} {st : Start} {s : Shard}
  {ω : Choice} {x : Ctx Client Addr Msg Event}

/-- The obligation of an operation. -/
abbrev RoundGood (once : Prop) (cfg : Config) (tid : TxnId) (h : History)
    (x : Ctx Client Addr Msg Event) : Prop :=
  Good (RoundOk once cfg tid) (RoundPkt once cfg) h (.client tid) x

/-- A client that has not started, whatever its phase says. -/
structure Unstarted (once : Prop) (cfg : Config) (tid : TxnId) (h : History)
    (x : Ctx Client Addr Msg Event) : Prop where
  node : BeforeStart cfg (past h (.client tid) x) tid x.state
  sent : ∀ p ∈ x.sent, RoundPkt once cfg (past h (.client tid) x) p

theorem buffered_ne {c : Client} {txn : Transaction} {s' : Shard} (hs : s' ≠ s) :
    buffered ⟨cfg, tid⟩ { c with txns := c.txns.insert s txn } s' = buffered ⟨cfg, tid⟩ c s' := by
  rw [buffered, buffered, Table.lookup_insert_eq, if_neg hs]

/-- A shard takes part. -/
theorem Unstarted.join (hx : Unstarted once cfg tid h x) (s : Shard) :
    Unstarted once cfg tid h { x with state := { x.state with
      participants := if s ∈ x.state.participants then x.state.participants
        else x.state.participants ++ [s] } } := by
  have hc := hx.node
  refine ⟨⟨hc.start, ?_, hc.ids, hc.unlisted, fun s' k hk => ?_, hc.tasks⟩, hx.sent⟩
  · by_cases hs : s ∈ x.state.participants
    · simp only [if_pos hs]
      exact hc.nodup
    · simp only [if_neg hs]
      exact hc.nodup.append (List.nodup_singleton s) (List.disjoint_singleton.2 hs)
  · refine ⟨(hc.routed s' k hk).1, ?_⟩
    show s' ∈ if s ∈ x.state.participants then x.state.participants
      else x.state.participants ++ [s]
    split_ifs
    · exact (hc.routed s' k hk).2
    · exact List.mem_append_left _ (hc.routed s' k hk).2

/-- The shards that took part before still do, and this one does. -/
theorem mem_joined {ps : List Shard} {s s' : Shard} (h : s' ∈ ps ∨ s' = s) :
    s' ∈ if s ∈ ps then ps else ps ++ [s] := by
  split_ifs with hs
  · rcases h with h | rfl
    · exact h
    · exact hs
  · rcases h with h | rfl
    · exact List.mem_append_left _ h
    · exact List.mem_append_right _ (List.mem_singleton.2 rfl)

/-- A key enters the buffer of its shard. -/
theorem Unstarted.buffer (hx : Unstarted once cfg tid h x) {f : Transaction → Transaction}
    {key : Key} (hf : ∀ t, (f t).id = t.id ∧ (f t).participants = t.participants ∧
      ∀ k, (f t).Holds k → k = key ∨ t.Holds k)
    (hkey : cfg.keyToShard key = s ∧ s ∈ x.state.participants) :
    Unstarted once cfg tid h { x with state := { x.state with
      txns := x.state.txns.insert s (f (x.state.buffered ⟨cfg, tid⟩ s)) } } := by
  have hc := hx.node
  have hbuf : ∀ s', buffered ⟨cfg, tid⟩ { x.state with
      txns := x.state.txns.insert s (f (x.state.buffered ⟨cfg, tid⟩ s)) } s' =
      if s' = s then f (x.state.buffered ⟨cfg, tid⟩ s) else x.state.buffered ⟨cfg, tid⟩ s' := by
    intro s'
    split_ifs with hs
    · rw [hs, buffered_insert]
    · exact buffered_ne hs
  refine ⟨⟨hc.start, hc.nodup, fun s' => ?_, fun s' => ?_, fun s' k hk => ?_, hc.tasks⟩, hx.sent⟩
  · rw [hbuf]
    split_ifs
    · exact (hf _).1.trans (hc.ids s)
    · exact hc.ids s'
  · rw [hbuf]
    split_ifs
    · exact (hf _).2.1.trans (hc.unlisted s)
    · exact hc.unlisted s'
  · rw [hbuf] at hk
    split_ifs at hk with hs
    · subst hs
      rcases (hf _).2.2 k hk with rfl | hold
      · exact hkey
      · exact hc.routed s' k hold
    · exact hc.routed s' k hk

theorem holds_addWriteSet {t : Transaction} {key k : Key} {v : Value}
    (hk : (t.addWriteSet key v).Holds k) : k = key ∨ t.Holds k := by
  rcases hk with hk | hk
  · rcases (AList.mem_insert _).1 hk with rfl | hk
    · exact .inl rfl
    · exact .inr (.inl hk)
  · exact .inr (.inr hk)

theorem holds_addReadSet {t : Transaction} {key k : Key} {v : Timestamp}
    (hk : (t.addReadSet key v).Holds k) : k = key ∨ t.Holds k := by
  rcases hk with hk | hk
  · exact .inr (.inl hk)
  · rcases (AList.mem_insert _).1 hk with rfl | hk
    · exact .inl rfl
    · exact .inr (.inr hk)

/-- The promise and the phase do not matter. -/
theorem Unstarted.update (hx : Unstarted once cfg tid h x) (phase : Phase) (promises : ℕ)
    (promise : Option Promise) : Unstarted once cfg tid h { x with state := { x.state with
      phase := phase, promises := promises, promise := promise } } :=
  ⟨hx.node.congr rfl rfl rfl fun _ ht => .inl ht, hx.sent⟩

theorem Unstarted.good (hx : Unstarted once cfg tid h x) (hphase : x.state.phase = .running) :
    RoundGood once cfg tid h x := by
  refine ⟨?_, hx.sent⟩
  simp only [RoundOk, hphase]
  exact hx.node

/-- A read is queued. -/
theorem queueRead_rounds (hx : Unstarted once cfg tid h x) {keys : List Key} {record : Bool}
    {rest : List (Shard × List Key)}
    (hl : AskedRight cfg x.state.participants ((s, keys) :: rest)) :
    wp (do
      addTask fun p => .get s keys p.address
      update fun c => { c with phase := .reading s keys record rest })
      (fun _ => RoundGood once cfg tid h) (RoundGood once cfg tid h) x := by
  simp only [addTask, wp_bind, wp_update]
  refine ⟨⟨hx.node.congr rfl rfl rfl fun t ht => ?_, hl⟩, hx.sent⟩
  rcases List.mem_append.1 ht with hold | hnew
  · exact .inl hold
  · obtain ⟨p, _, rfl⟩ := List.mem_map.1 hnew
    exact .inr trivial

theorem readNext_rounds (hx : Unstarted once cfg tid h x) {l : List (Shard × List Key)}
    (hl : AskedRight cfg x.state.participants l) :
    wp (readNext l) (fun _ => RoundGood once cfg tid h) (RoundGood once cfg tid h) x := by
  cases l with
  | nil => exact (hx.update .running _ none).good rfl
  | cons q rest =>
      obtain ⟨s, keys⟩ := q
      rw [readNext, wp_bind, wp_update]
      exact queueRead_rounds (hx.update _ _ _) hl

theorem put_rounds (hx : Unstarted once cfg tid h x) (hphase : x.state.phase = .running)
    (key : Key) (value : Value) :
    wp (put ⟨cfg, tid⟩ key value) (fun _ => RoundGood once cfg tid h) (RoundGood once cfg tid h)
      x := by
  simp only [put, addParticipant, modifyBuffer, wp_bind, wp_update]
  exact Unstarted.good (Unstarted.buffer (hx.join (cfg.keyToShard key))
    (f := (·.addWriteSet key value)) (fun _ => ⟨rfl, rfl, fun _ => holds_addWriteSet⟩)
    ⟨rfl, mem_joined (.inr rfl)⟩) hphase

theorem get_rounds (hx : Unstarted once cfg tid h x) (hphase : x.state.phase = .running)
    (key : Key) :
    wp (get ⟨cfg, tid⟩ key) (fun _ => RoundGood once cfg tid h) (RoundGood once cfg tid h) x := by
  have hx₁ := hx.join (cfg.keyToShard key)
  rw [get, wp_bind, addParticipant, wp_update, wp_bind, wp_read, wp_ite]
  refine ⟨fun _ => hx₁.good hphase, fun _ => ?_⟩
  rw [wp_bind, newPromise, wp_update]
  refine queueRead_rounds (hx₁.update _ _ _) fun q hq k hk => ?_
  cases List.mem_singleton.1 hq
  cases List.mem_singleton.1 hk
  exact ⟨rfl, mem_joined (.inr rfl)⟩

/-- `MultiGet`: all shards that are asked take part. -/
theorem multiGet_rounds (hx : Unstarted once cfg tid h x) (keys : List Key) :
    wp (multiGet ⟨cfg, tid⟩ keys) (fun _ => RoundGood once cfg tid h) (RoundGood once cfg tid h)
      x := by
  rw [multiGet, wp_bind]
  refine wp_mono (fun _ x₁ hx₁ => ?_) (fun _ hd => hd)
    (wp_forM_each (P := fun key y => cfg.keyToShard key ∈ y.state.participants)
      (fun key _ x' hx' => ?_) hx)
  · rw [wp_bind, newPromise, wp_update]
    have hasked : AskedRight cfg x₁.state.participants (askedShards ⟨cfg, tid⟩ keys) := by
      intro q hq key hkey
      obtain ⟨hq, _⟩ := List.mem_filter.1 hq
      obtain ⟨s, _, rfl⟩ := List.mem_map.1 hq
      obtain ⟨hmem, hs⟩ := List.mem_filter.1 hkey
      have hroute : cfg.keyToShard key = s := of_decide_eq_true hs
      refine ⟨hroute, ?_⟩
      rw [← hroute]
      exact hx₁.2 key hmem
    have hx₂ := hx₁.1.update x₁.state.phase (x₁.state.promises + 1)
      (some { address := x₁.state.promises, participantNumber := 0 })
    cases hshards : askedShards ⟨cfg, tid⟩ keys with
    | cons q rest =>
        rw [hshards] at hasked
        exact readNext_rounds hx₂ hasked
    | nil =>
        refine ⟨⟨hx₁.1.node.congr rfl rfl rfl fun _ ht => .inl ht, ?_⟩, hx₁.1.sent⟩
        intro q hq key hkey
        cases List.mem_singleton.1 hq
        exact absurd hkey List.not_mem_nil
  · exact ⟨hx'.join _, mem_joined (.inr rfl), fun key' _ hold => mem_joined (.inl hold)⟩

/-! ### A round -/

/-- A client that started. -/
structure InRound (once : Prop) (cfg : Config) (tid : TxnId) (h : History) (st : Start)
    (x : Ctx Client Addr Msg Event) : Prop where
  node : AfterStart once cfg (past h (.client tid) x) tid st x.state
  sent : ∀ p ∈ x.sent, RoundPkt once cfg (past h (.client tid) x) p

/-- The buffer of `s` names the participants. -/
structure Lists (once : Prop) (cfg : Config) (tid : TxnId) (st : Start) (s : Shard) (c : Client) :
    Prop where
  mem : ∀ q, q ∈ (c.buffered ⟨cfg, tid⟩ s).participants ↔ q ∈ st.participants
  same : once → (c.buffered ⟨cfg, tid⟩ s).participants = st.participants

theorem InRound.good (hx : InRound once cfg tid h st x) {k : ℕ}
    (hphase : x.state.phase = .preparing k) : RoundGood once cfg tid h x := by
  refine ⟨?_, hx.sent⟩
  simp only [RoundOk, hphase]
  exact ⟨st, hx.node⟩

/-- The buffer of a shard is written. -/
theorem InRound.buffer (hx : InRound once cfg tid h st x) {txn : Transaction}
    (hid : txn.id = tid) (hlisted : ∀ q ∈ txn.participants, q ∈ st.participants)
    (hsound : txn.Within fun k => st.piece tid (cfg.keyToShard k))
    (hown : (st.piece tid s).Within fun _ => txn)
    (hpiece : ¬ cfg.Gathers → txn.writeSet = (st.piece tid s).writeSet ∧
      txn.readSet = (st.piece tid s).readSet) :
    InRound once cfg tid h st { x with state := { x.state with
      txns := x.state.txns.insert s txn } } := by
  have hc := hx.node
  have hbuf : ∀ s', buffered ⟨cfg, tid⟩ { x.state with txns := x.state.txns.insert s txn } s' =
      if s' = s then txn else x.state.buffered ⟨cfg, tid⟩ s' := by
    intro s'
    split_ifs with hs
    · rw [hs, buffered_insert]
    · exact buffered_ne hs
  refine ⟨⟨hc.start, hc.plan, hc.participants, fun s' => ?_, fun s' => ?_, fun s' => ?_,
    fun s' => ?_, fun hg s' => ?_, hc.tasks⟩, hx.sent⟩ <;> rw [hbuf] <;> split_ifs with hs
  · exact hid
  · exact hc.ids s'
  · exact hlisted
  · exact hc.listed s'
  · exact hsound
  · exact hc.sound s'
  · rw [hs]
    exact hown
  · exact hc.own s'
  · rw [hs]
    exact hpiece hg
  · exact hc.pieces hg s'

/-- Tasks are handed to the transport thread. -/
theorem InRound.queue (hx : InRound once cfg tid h st x) {t : Promise → Task}
    (ht : ∀ p, QueuedOk once cfg tid st (t p)) :
    InRound once cfg tid h st { x with state := { x.state with
      tasks := x.state.tasks ++ x.state.promise.toList.map t } } := by
  have hc := hx.node
  refine ⟨⟨hc.start, hc.plan, hc.participants, hc.ids, hc.listed, hc.sound, hc.own, hc.pieces,
    fun t' ht' => ?_⟩, hx.sent⟩
  rcases List.mem_append.1 ht' with hold | hnew
  · exact hc.tasks t' hold
  · obtain ⟨p, _, rfl⟩ := List.mem_map.1 hnew
    exact ht p

theorem setParticipants_rounds {D : Ctx Client Addr Msg Event → Prop}
    (hx : InRound once cfg tid h st x)
    (hfresh : once → (x.state.buffered ⟨cfg, tid⟩ s).participants = []) :
    wp (setParticipants ⟨cfg, tid⟩ s st.participants)
      (fun _ y => InRound once cfg tid h st y ∧ Lists once cfg tid st s y.state ∧
        y.state.phase = x.state.phase ∧
        ∀ s' ≠ s, y.state.buffered ⟨cfg, tid⟩ s' = x.state.buffered ⟨cfg, tid⟩ s') D x := by
  have hc := hx.node
  have hmem : ∀ q, q ∈ (x.state.buffered ⟨cfg, tid⟩ s).participants ++ st.participants ↔
      q ∈ st.participants := fun q => by
    rw [List.mem_append]
    exact ⟨fun hq => hq.elim (hc.listed s q) id, .inr⟩
  rw [setParticipants, modifyBuffer, wp_update, foldl_addParticipant]
  refine ⟨hx.buffer (hc.ids s) (fun q hq => (hmem q).1 hq) ⟨(hc.sound s).writes, (hc.sound s).reads⟩
    ⟨(hc.own s).writes, (hc.own s).reads⟩ (fun hg => hc.pieces hg s), ⟨fun q => ?_, fun ho => ?_⟩,
    rfl, fun s' hs => buffered_ne hs⟩
  · rw [buffered_insert]
    exact hmem q
  · rw [buffered_insert]
    show _ ++ _ = _
    rw [hfresh ho]
    rfl

theorem setPrimaryShard_rounds {D : Ctx Client Addr Msg Event → Prop}
    (hx : InRound once cfg tid h st x) (hl : Lists once cfg tid st s x.state)
    {p : Option Shard} (hp : primaryNumber p = st.primary) :
    wp (setPrimaryShard ⟨cfg, tid⟩ s p)
      (fun _ y => InRound once cfg tid h st y ∧ Lists once cfg tid st s y.state ∧
        (y.state.buffered ⟨cfg, tid⟩ s).primaryShard = st.primary ∧
        (y.state.buffered ⟨cfg, tid⟩ s).writeSet =
          (x.state.buffered ⟨cfg, tid⟩ s).writeSet ∧
        (y.state.buffered ⟨cfg, tid⟩ s).readSet = (x.state.buffered ⟨cfg, tid⟩ s).readSet ∧
        y.state.phase = x.state.phase ∧
        ∀ s' ≠ s, y.state.buffered ⟨cfg, tid⟩ s' = x.state.buffered ⟨cfg, tid⟩ s') D x := by
  have hc := hx.node
  rw [setPrimaryShard, modifyBuffer, wp_update]
  refine ⟨hx.buffer (hc.ids s) (hc.listed s) ⟨(hc.sound s).writes, (hc.sound s).reads⟩
    ⟨(hc.own s).writes, (hc.own s).reads⟩ (fun hg => hc.pieces hg s), ⟨fun q => ?_, fun ho => ?_⟩,
    ?_, ?_, ?_, rfl, fun s' hs => buffered_ne hs⟩
  · rw [buffered_insert]
    exact hl.mem q
  · rw [buffered_insert]
    exact hl.same ho
  · rw [buffered_insert]
    exact hp
  · rw [buffered_insert]
  · rw [buffered_insert]

/-- The other modes: one participant of a round. -/
theorem preparePiece_rounds {D : Ctx Client Addr Msg Event → Prop} (hg : ¬ cfg.Gathers)
    (hx : InRound once cfg tid h st x) (hs : s ∈ st.participants)
    (hfresh : once → (x.state.buffered ⟨cfg, tid⟩ s).participants = []) :
    wp (do
      setParticipants ⟨cfg, tid⟩ s st.participants
      setPrimaryShard ⟨cfg, tid⟩ s (primaryShard ⟨cfg, tid⟩ st.participants)
      addPrepareTask ⟨cfg, tid⟩ s
      when (primaryShard ⟨cfg, tid⟩ st.participants = some s) (addParallelTask ⟨cfg, tid⟩ s))
      (fun _ y => InRound once cfg tid h st y ∧ y.state.phase = x.state.phase ∧
        ∀ s' ≠ s, y.state.buffered ⟨cfg, tid⟩ s' = x.state.buffered ⟨cfg, tid⟩ s') D x := by
  rw [wp_bind]
  refine wp_mono (fun _ x₁ hx₁ => ?_) (fun _ hd => hd) (setParticipants_rounds hx hfresh)
  obtain ⟨hx₁, hl₁, hp₁, hne₁⟩ := hx₁
  rw [wp_bind]
  refine wp_mono (fun _ x₂ hx₂ => ?_) (fun _ hd => hd)
    (setPrimaryShard_rounds hx₁ hl₁ hx₁.node.plan.primary.symm)
  obtain ⟨hx₂, hl₂, hprim, _, _, hp₂, hne₂⟩ := hx₂
  have hqueued : Carried once cfg tid st s (x₂.state.buffered ⟨cfg, tid⟩ s) :=
    ⟨hx₂.node.ids s, hs, hprim, hl₂.mem, hl₂.same, fun hg' => absurd hg' hg,
      fun _ => hx₂.node.pieces hg s⟩
  have hx₃ := hx₂.queue (t := fun p => .prepare s (x₂.state.buffered ⟨cfg, tid⟩ s) p.address)
    fun _ => hqueued
  simp only [addPrepareTask, addParallelTask, addTask, wp_bind, wp_read, wp_update, wp_when]
  refine ⟨fun _ => ⟨hx₃.queue fun _ => hl₂.same, hp₂.trans hp₁, fun s' hs' => ?_⟩,
    fun _ => ⟨hx₃, hp₂.trans hp₁, fun s' hs' => ?_⟩⟩
  · exact (hne₂ s' hs').trans (hne₁ s' hs')
  · exact (hne₂ s' hs').trans (hne₁ s' hs')

/-- All participants of a round; each is listed once. -/
theorem preparePieces_rounds {D : Ctx Client Addr Msg Event → Prop} (hg : ¬ cfg.Gathers)
    (l : List Shard) : ∀ {x : Ctx Client Addr Msg Event}, InRound once cfg tid h st x → l.Nodup →
    (∀ p ∈ l, p ∈ st.participants) →
    (once → ∀ p ∈ l, (x.state.buffered ⟨cfg, tid⟩ p).participants = []) →
    wp (l.forM fun p => do
      setParticipants ⟨cfg, tid⟩ p st.participants
      setPrimaryShard ⟨cfg, tid⟩ p (primaryShard ⟨cfg, tid⟩ st.participants)
      addPrepareTask ⟨cfg, tid⟩ p
      when (primaryShard ⟨cfg, tid⟩ st.participants = some p) (addParallelTask ⟨cfg, tid⟩ p))
      (fun _ y => InRound once cfg tid h st y ∧ y.state.phase = x.state.phase ∧
        ∀ s ∉ l, y.state.buffered ⟨cfg, tid⟩ s = x.state.buffered ⟨cfg, tid⟩ s) D x := by
  induction l with
  | nil => exact fun hx _ _ _ => ⟨hx, rfl, fun _ _ => rfl⟩
  | cons p l ih =>
      intro x hx hnodup hsub hfresh
      obtain ⟨hp, hl⟩ := List.nodup_cons.1 hnodup
      rw [List.forM, wp_bind]
      refine wp_mono (fun _ x₁ hx₁ => ?_) (fun _ hd => hd) (preparePiece_rounds hg hx
        (hsub p (List.mem_cons_self ..)) fun ho => hfresh ho p (List.mem_cons_self ..))
      obtain ⟨hx₁, hp₁, hne₁⟩ := hx₁
      refine wp_mono (fun _ x₂ hx₂ => ?_) (fun _ hd => hd) (ih hx₁ hl
        (fun q hq => hsub q (List.mem_cons_of_mem _ hq)) fun ho q hq => ?_)
      · obtain ⟨hx₂, hp₂, hne₂⟩ := hx₂
        refine ⟨hx₂, hp₂.trans hp₁, fun s hs => ?_⟩
        exact (hne₂ s fun hsl => hs (List.mem_cons_of_mem _ hsl)).trans
          (hne₁ s fun hsp => hs (hsp ▸ List.mem_cons_self ..))
      · rw [hne₁ q fun heq => hp (heq ▸ hq)]
        exact hfresh ho q (List.mem_cons_of_mem _ hq)

theorem prepareAtAll_rounds (hg : ¬ cfg.Gathers) (hx : InRound once cfg tid h st x) {k : ℕ}
    (hphase : x.state.phase = .preparing k)
    (hfresh : once → ∀ s, (x.state.buffered ⟨cfg, tid⟩ s).participants = []) :
    wp (prepareAtAll ⟨cfg, tid⟩ st.participants (primaryShard ⟨cfg, tid⟩ st.participants))
      (fun _ => RoundGood once cfg tid h) (RoundGood once cfg tid h) x := by
  rw [prepareAtAll, wp_bind]
  refine wp_mono (fun _ x₁ hx₁ => ?_) (fun _ hd => hd) (preparePieces_rounds hg st.participants hx
    hx.node.plan.nodup (fun _ hp => hp) fun ho p _ => hfresh ho p)
  obtain ⟨hx₁, hp₁, hne₁⟩ := hx₁
  have hphase₁ := hp₁.trans hphase
  rw [wp_when]
  refine ⟨fun hout => ?_, fun _ => hx₁.good hphase₁⟩
  rw [wp_bind, wp_deref]
  refine ⟨fun p hp => ?_, fun _ => hx₁.good hphase₁⟩
  -- the primary shard is led from the region of the client, and no participant is
  have hnot : p ∉ st.participants := by
    intro hmem
    rw [Bool.and_eq_true, decide_eq_true_eq, Bool.not_eq_true', List.any_eq_false] at hout
    obtain ⟨hpar, hfar⟩ := hout
    simp only [primaryShard, show cfg.mode = .parallel from hpar] at hp
    split at hp
    · rename_i q hq
      exact hfar q (List.mem_filter.1 (List.mem_of_getLast? hq)).1
        (List.mem_filter.1 (List.mem_of_getLast? hq)).2
    · exact hfar p hmem (List.mem_filter.1 (List.mem_of_getLast? hp)).2
  rw [wp_bind]
  refine wp_mono (fun _ x₂ hx₂ => ?_) (fun _ hd => hd) (setParticipants_rounds (s := p) hx₁ ?_)
  · obtain ⟨hx₂, hl₂, hp₂, _⟩ := hx₂
    simp only [addParallelTask, addTask, wp_bind, wp_read, wp_update]
    exact InRound.good (hx₂.queue fun _ => hl₂.same) (hp₂.trans hphase₁)
  · intro ho
    rw [hne₁ p hnot]
    exact hfresh ho p

/-- A read or write that belongs to the transaction ends no fact about the buffer. -/
theorem Within.addReadSet {st : Start} (hplan : Planned cfg tid st) {t : Transaction} {k : Key}
    {v : Timestamp} (hv : (st.piece tid (cfg.keyToShard k)).readSet.lookup k = some v) {p : Shard}
    (hp : (st.piece tid p).Within fun _ => t) :
    (st.piece tid p).Within fun _ => t.addReadSet k v := by
  refine ⟨hp.writes, fun k' v' hv' => ?_⟩
  rw [Transaction.addReadSet, Table.lookup_insert_eq]
  split_ifs with hk
  · subst hk
    have hroute := (hplan.routed p k' (.inr (AList.lookup_isSome.1 (by rw [hv']; rfl)))).1
    rw [hroute, hv'] at hv
    exact hv.symm
  · exact hp.reads k' v' hv'

theorem Within.addWriteSet {st : Start} (hplan : Planned cfg tid st) {t : Transaction} {k : Key}
    {v : Value} (hv : (st.piece tid (cfg.keyToShard k)).writeSet.lookup k = some v) {p : Shard}
    (hp : (st.piece tid p).Within fun _ => t) :
    (st.piece tid p).Within fun _ => t.addWriteSet k v := by
  refine ⟨fun k' v' hv' => ?_, hp.reads⟩
  rw [Transaction.addWriteSet, Table.lookup_insert_eq]
  split_ifs with hk
  · subst hk
    have hroute := (hplan.routed p k' (.inl (AList.lookup_isSome.1 (by rw [hv']; rfl)))).1
    rw [hroute, hv'] at hv
    exact hv.symm
  · exact hp.writes k' v' hv'

/-- The client gathers at the primary shard. -/
structure Gathering (once : Prop) (cfg : Config) (tid : TxnId) (h : History) (st : Start)
    (s : Shard) (k : ℕ) (x : Ctx Client Addr Msg Event) : Prop where
  round : InRound once cfg tid h st x
  lists : Lists once cfg tid st s x.state
  phase : x.state.phase = .preparing k

theorem Gathering.addReadSet {j : ℕ} (hg : cfg.Gathers)
    (hx : Gathering once cfg tid h st s j x) {k : Key} {v : Timestamp}
    (hv : (st.piece tid (cfg.keyToShard k)).readSet.lookup k = some v) :
    Gathering once cfg tid h st s j { x with state := { x.state with
      txns := x.state.txns.insert s ((x.state.buffered ⟨cfg, tid⟩ s).addReadSet k v) } } := by
  have hc := hx.round.node
  refine ⟨hx.round.buffer (hc.ids s) (hc.listed s) ⟨(hc.sound s).writes, fun k' v' hv' => ?_⟩
    (Within.addReadSet hc.plan hv (hc.own s)) fun hng => absurd hg hng, ⟨fun q => ?_, fun ho => ?_⟩,
    hx.phase⟩
  · rw [Transaction.addReadSet, Table.lookup_insert_eq] at hv'
    split_ifs at hv' with hk
    · cases hv'
      rw [hk]
      exact hv
    · exact (hc.sound s).reads k' v' hv'
  · rw [buffered_insert]
    exact hx.lists.mem q
  · rw [buffered_insert]
    exact hx.lists.same ho

theorem Gathering.addWriteSet {j : ℕ} (hg : cfg.Gathers)
    (hx : Gathering once cfg tid h st s j x) {k : Key} {v : Value}
    (hv : (st.piece tid (cfg.keyToShard k)).writeSet.lookup k = some v) :
    Gathering once cfg tid h st s j { x with state := { x.state with
      txns := x.state.txns.insert s ((x.state.buffered ⟨cfg, tid⟩ s).addWriteSet k v) } } := by
  have hc := hx.round.node
  refine ⟨hx.round.buffer (hc.ids s) (hc.listed s) ⟨fun k' v' hv' => ?_, (hc.sound s).reads⟩
    (Within.addWriteSet hc.plan hv (hc.own s)) fun hng => absurd hg hng,
    ⟨fun q => ?_, fun ho => ?_⟩, hx.phase⟩
  · rw [Transaction.addWriteSet, Table.lookup_insert_eq] at hv'
    split_ifs at hv' with hk
    · cases hv'
      rw [hk]
      exact hv
    · exact (hc.sound s).writes k' v' hv'
  · rw [buffered_insert]
    exact hx.lists.mem q
  · rw [buffered_insert]
    exact hx.lists.same ho

/-- What is gathered from one participant. -/
theorem gather_rounds {D : Ctx Client Addr Msg Event → Prop} {j : ℕ} (hg : cfg.Gathers)
    (hx : Gathering once cfg tid h st s j x) (p : Shard) :
    wp (do
      let txn ← read (·.buffered ⟨cfg, tid⟩ p)
      txn.readSet.toList.forM fun r => modifyBuffer ⟨cfg, tid⟩ s (·.addReadSet r.1 r.2)
      txn.writeSet.toList.forM fun w => modifyBuffer ⟨cfg, tid⟩ s (·.addWriteSet w.1 w.2))
      (fun _ y => Gathering once cfg tid h st s j y ∧
        ((st.piece tid p).Within fun _ => y.state.buffered ⟨cfg, tid⟩ s) ∧
        ∀ q, ((st.piece tid q).Within fun _ => x.state.buffered ⟨cfg, tid⟩ s) →
          (st.piece tid q).Within fun _ => y.state.buffered ⟨cfg, tid⟩ s) D x := by
  have hsound := hx.round.node.sound p
  have hown := hx.round.node.own p
  have hplan := hx.round.node.plan
  rw [wp_bind, wp_read, wp_bind]
  -- the reads
  refine wp_mono (fun _ x₁ hx₁ => ?_) (fun _ hd => hd)
    (wp_forM_each (P := fun r y => (y.state.buffered ⟨cfg, tid⟩ s).readSet.lookup r.1 = some r.2)
      (I := fun y => Gathering once cfg tid h st s j y ∧
        ∀ q, ((st.piece tid q).Within fun _ => x.state.buffered ⟨cfg, tid⟩ s) →
          (st.piece tid q).Within fun _ => y.state.buffered ⟨cfg, tid⟩ s)
      (fun r hr y hy => ?_) ⟨hx, fun _ hq => hq⟩)
  · -- the writes
    obtain ⟨⟨hx₁, hkeep₁⟩, hreads⟩ := hx₁
    refine wp_mono (fun _ x₂ hx₂ => ?_) (fun _ hd => hd)
      (wp_forM_each
        (P := fun w y => (y.state.buffered ⟨cfg, tid⟩ s).writeSet.lookup w.1 = some w.2)
        (I := fun y => Gathering once cfg tid h st s j y ∧
          (y.state.buffered ⟨cfg, tid⟩ s).readSet = (x₁.state.buffered ⟨cfg, tid⟩ s).readSet ∧
          ∀ q, ((st.piece tid q).Within fun _ => x.state.buffered ⟨cfg, tid⟩ s) →
            (st.piece tid q).Within fun _ => y.state.buffered ⟨cfg, tid⟩ s)
        (fun w hw y hy => ?_) ⟨hx₁, rfl, hkeep₁⟩)
    · obtain ⟨⟨hx₂, hsame, hkeep₂⟩, hwrites⟩ := hx₂
      refine ⟨hx₂, ⟨fun k v hv => ?_, fun k v hv => ?_⟩, hkeep₂⟩
      · exact hwrites (k, v) (Table.mem_toList.2 (hown.writes k v hv))
      · rw [hsame]
        exact hreads (k, v) (Table.mem_toList.2 (hown.reads k v hv))
    · obtain ⟨hy, hsame, hkeep⟩ := hy
      have hw' := hsound.writes w.1 w.2 (Table.mem_toList.1 hw)
      rw [modifyBuffer, wp_update]
      refine ⟨⟨hy.addWriteSet hg hw', ?_, fun q hq => ?_⟩, ?_, fun w' hw'' hold => ?_⟩
      · rw [buffered_insert]
        exact hsame
      · rw [buffered_insert]
        exact Within.addWriteSet hplan hw' (hkeep q hq)
      · rw [buffered_insert]
        exact AList.lookup_insert _
      · rw [buffered_insert, Transaction.addWriteSet, Table.lookup_insert_eq]
        split_ifs with hk
        · have hold' := hsound.writes w'.1 w'.2 (Table.mem_toList.1 hw'')
          rw [hk, hw'] at hold'
          exact hold'
        · exact hold
  · obtain ⟨hy, hkeep⟩ := hy
    have hr' := hsound.reads r.1 r.2 (Table.mem_toList.1 hr)
    rw [modifyBuffer, wp_update]
    refine ⟨⟨hy.addReadSet hg hr', fun q hq => ?_⟩, ?_, fun r' hr'' hold => ?_⟩
    · rw [buffered_insert]
      exact Within.addReadSet hplan hr' (hkeep q hq)
    · rw [buffered_insert]
      exact AList.lookup_insert _
    · rw [buffered_insert, Transaction.addReadSet, Table.lookup_insert_eq]
      split_ifs with hk
      · have hold' := hsound.reads r'.1 r'.2 (Table.mem_toList.1 hr'')
        rw [hk, hr'] at hold'
        exact hold'
      · exact hold

/-- The slow modes: what is sent to the primary shard is everything. -/
theorem prepareAtPrimary_rounds (hg : cfg.Gathers) (hx : InRound once cfg tid h st x) {k : ℕ}
    (hphase : x.state.phase = .preparing k)
    (hprimary : primaryShard ⟨cfg, tid⟩ st.participants = some s) (hs : s ∈ st.participants)
    (hfresh : once → (x.state.buffered ⟨cfg, tid⟩ s).participants = []) :
    wp (prepareAtPrimary ⟨cfg, tid⟩ st.participants s) (fun _ => RoundGood once cfg tid h)
      (RoundGood once cfg tid h) x := by
  have hnumber : st.primary = s := by
    rw [hx.node.plan.primary, hprimary]
    rfl
  rw [prepareAtPrimary, wp_bind]
  refine wp_mono (fun _ x₁ hx₁ => ?_) (fun _ hd => hd) (setParticipants_rounds hx hfresh)
  obtain ⟨hx₁, hl₁, hp₁, _⟩ := hx₁
  rw [wp_bind]
  refine wp_mono (fun _ x₂ hx₂ => ?_) (fun _ hd => hd)
    (wp_forM_each (P := fun p y => (st.piece tid p).Within fun _ => y.state.buffered ⟨cfg, tid⟩ s)
      (fun p _ y hy => ?_) (⟨hx₁, hl₁, hp₁.trans hphase⟩ : Gathering once cfg tid h st s k x₁))
  · obtain ⟨hx₂, hall⟩ := hx₂
    rw [wp_bind]
    refine wp_mono (fun _ x₃ hx₃ => ?_) (fun _ hd => hd)
      (setPrimaryShard_rounds (p := some s) hx₂.round hx₂.lists hnumber.symm)
    obtain ⟨hx₃, hl₃, hprim, hw₃, hr₃, hp₃, _⟩ := hx₃
    simp only [addPrepareTask, addTask, wp_bind, wp_read, wp_update]
    refine InRound.good (hx₃.queue fun _ => ?_) (hp₃.trans hx₂.phase)
    refine ⟨hx₃.node.ids s, hs, hprim, hl₃.mem, hl₃.same, fun _ => ⟨hnumber, hx₃.node.sound s,
      fun p hp => ⟨fun k v hv => ?_, fun k v hv => ?_⟩⟩, fun hng => absurd hg hng⟩
    · rw [hw₃]
      exact (hall p hp).writes k v hv
    · rw [hr₃]
      exact (hall p hp).reads k v hv
  · refine wp_mono (fun _ z hz => ⟨hz.1, hz.2.1, fun q _ hq => hz.2.2 q hq⟩) (fun _ hd => hd)
      (gather_rounds hg hy p)

/-! ### The end -/

/-- A client that makes no further call. -/
structure Closing (once : Prop) (cfg : Config) (tid : TxnId) (h : History)
    (x : Ctx Client Addr Msg Event) : Prop where
  node : (∃ st, AfterStart once cfg (past h (.client tid) x) tid st x.state) ∨
    (startOf (past h (.client tid) x) tid = none ∧ ∀ t ∈ x.state.tasks, t.IsGet)
  sent : ∀ p ∈ x.sent, RoundPkt once cfg (past h (.client tid) x) p

theorem InRound.closing (hx : InRound once cfg tid h st x) : Closing once cfg tid h x :=
  ⟨.inl ⟨st, hx.node⟩, hx.sent⟩

/-- The decision is recorded and sent to all participants. -/
theorem decide_rounds (hx : Closing once cfg tid h x) (b : Bool) (state : LogEntryState) :
    wp (emit (.decided b) >>= fun _ => invokeCommit ⟨cfg, tid⟩ state)
      (fun _ => RoundGood once cfg tid h) (RoundGood once cfg tid h) x := by
  have hx₁ : Closing once cfg tid h { x with events := x.events ++ [.decided b] } := by
    refine ⟨?_, fun p hp => ?_⟩
    · rw [past_emit]
      refine hx.node.imp (fun ⟨st, hst⟩ => ⟨st, hst.congr (startOf_decided ..) rfl rfl
        fun _ ht => ht⟩) fun hno => ⟨(startOf_decided ..).trans hno.1, hno.2⟩
    · rw [past_emit]
      exact (hx.sent p hp).mono
  simp only [wp_bind, wp_emit, invokeCommit, wp_read]
  refine wp_mono (fun _ y hy => ?_) (fun _ hd => hd) (wp_forM (fun p _ y hy => ?_) hx₁)
  · rw [wp_update]
    refine ⟨?_, hy.sent⟩
    exact hy.node.imp (fun ⟨st, hst⟩ => ⟨st, hst.congr rfl rfl rfl fun _ ht => ht⟩) id
  · simp only [clearWaiting, sendMessageToReplica, wp_bind, wp_update, wp_send]
    refine ⟨hy.node.imp (fun ⟨st, hst⟩ => ⟨st, hst.congr rfl rfl rfl fun _ ht => ht⟩) id,
      fun q hq => ?_⟩
    rcases List.mem_append.1 hq with hold | hnew
    · exact hy.sent q hold
    · rw [List.mem_singleton.1 hnew]
      trivial

theorem finish_rounds (hx : Closing once cfg tid h x) (status : ℕ) :
    wp (finish ⟨cfg, tid⟩ status) (fun _ => RoundGood once cfg tid h) (RoundGood once cfg tid h)
      x := by
  rw [finish, wp_ite]
  exact ⟨fun _ => decide_rounds hx true .commit, fun _ => decide_rounds hx false .abort⟩

/-- **A round**, from the choice of the primary shard to the wait. -/
theorem round_rounds (hx : InRound once cfg tid h st x) (k : ℕ)
    (hfresh : once → ∀ s, (x.state.buffered ⟨cfg, tid⟩ s).participants = []) :
    wp (round ⟨cfg, tid⟩ k) (fun _ => RoundGood once cfg tid h) (RoundGood once cfg tid h) x := by
  have hps := hx.node.participants
  have hx₁ : InRound once cfg tid h st { x with state := { x.state with
      phase := .preparing k
      participants := st.participants
      promises := x.state.promises + 1
      promise := some
        { address := x.state.promises, participantNumber := st.participants.length } } } :=
    ⟨hx.node.congr rfl hps.symm rfl fun _ ht => ht, hx.sent⟩
  simp only [round, prepare, newPromise, wp_bind, wp_update, wp_read, wp_ite, wp_pure, hps]
  refine ⟨fun hg => ?_, fun hg => ⟨fun _ => finish_rounds hx₁.closing _, fun _ => ?_⟩⟩
  · rw [wp_deref]
    refine ⟨fun p hp => ?_, fun _ => hx₁.good rfl⟩
    have hmem : p ∈ st.participants := by
      have hget : st.participants[tid % st.participants.length]? = some p := by
        rcases hg with hm | hm
        · simpa only [primaryShard, show cfg.mode = .slow from hm] using hp
        · simpa only [primaryShard, show cfg.mode = .rc from hm] using hp
      exact List.mem_of_getElem? hget
    refine wp_mono (fun _ y hy => hy) (fun _ hd => hd)
      (prepareAtPrimary_rounds hg hx₁ rfl hp hmem fun ho => hfresh ho p)
  · exact wp_mono (fun _ y hy => hy) (fun _ hd => hd)
      (prepareAtAll_rounds hg hx₁ rfl hfresh)

/-- `Commit`: what is recorded is what the buffers hold. -/
theorem commit_rounds (hx : Unstarted once cfg tid h x) :
    wp (commit ⟨cfg, tid⟩) (fun _ => RoundGood once cfg tid h) (RoundGood once cfg tid h) x := by
  have hc := hx.node
  simp only [commit, wp_bind, wp_read, wp_emit]
  have hpiece : ∀ s, Start.piece ⟨x.state.participants,
      primaryNumber (primaryShard ⟨cfg, tid⟩ x.state.participants), x.state.txns⟩ tid s =
      x.state.buffered ⟨cfg, tid⟩ s := fun _ => rfl
  have hplan : Planned cfg tid ⟨x.state.participants,
      primaryNumber (primaryShard ⟨cfg, tid⟩ x.state.participants), x.state.txns⟩ :=
    ⟨hc.nodup, rfl, fun s k hk => hc.routed s k hk⟩
  suffices hround : InRound once cfg tid h ⟨x.state.participants,
      primaryNumber (primaryShard ⟨cfg, tid⟩ x.state.participants), x.state.txns⟩
      { x with events := x.events ++ [.started x.state.participants
        (primaryNumber (primaryShard ⟨cfg, tid⟩ x.state.participants)) x.state.txns] } from
    round_rounds hround 0 fun _ s => hc.unlisted s
  refine ⟨⟨?_, hplan, rfl, hc.ids, fun s q hq => ?_, fun s => ⟨fun k v hv => ?_, fun k v hv => ?_⟩,
    fun s => ⟨fun _ _ hv => hv, fun _ _ hv => hv⟩, fun _ s => ⟨rfl, rfl⟩, fun t ht => ?_⟩,
    fun p hp => ?_⟩
  · rw [past_emit, startOf_append, hc.start]
    simp [startOf, startEvent]
  · rw [hc.unlisted s] at hq
    cases hq
  · rw [hpiece, (hc.routed s k (.inl (AList.lookup_isSome.1 (by rw [hv]; rfl)))).1]
    exact hv
  · rw [hpiece, (hc.routed s k (.inr (AList.lookup_isSome.1 (by rw [hv]; rfl)))).1]
    exact hv
  · have hget := hc.tasks t ht
    cases t with
    | get s keys a => trivial
    | prepare s txn a => exact hget.elim
    | parallelModeCommit s ps a => exact hget.elim
  · rw [past_emit]
    exact (hx.sent p hp).mono

/-- The client would start another round. -/
def Retries (c : Client) : Prop :=
  ∃ k p, c.phase = .preparing k ∧ c.promise.filter (·.done) = some p ∧
    ¬ (p.getPrepareReply = replyOk ∨ p.getPrepareReply = replyAbort ∨
      p.getPrepareReply = replyFail ∨ commitRetries ≤ k + 1)

theorem wake_rounds (hx : RoundGood once cfg tid h x) (hretry : once → ¬ Retries x.state) :
    wp (wake ⟨cfg, tid⟩) (fun _ => RoundGood once cfg tid h) (RoundGood once cfg tid h) x := by
  simp only [wake, wp_bind, wp_read]
  have hnode := hx.node
  cases hp : x.state.phase with
  | running => exact hx
  | finished => exact hx
  | preparing k =>
      simp only [RoundOk, hp] at hnode
      obtain ⟨st, hst⟩ := hnode
      cases hq : x.state.promise.filter (·.done) with
      | none => exact hx
      | some p =>
          have hx₁ : InRound once cfg tid h st
              { x with state := { x.state with promise := none } } :=
            ⟨hst.congr rfl rfl rfl fun _ ht => ht, hx.sent⟩
          simp only [wp_bind, wp_update, wp_ite]
          refine ⟨fun _ => finish_rounds hx₁.closing _, fun hstatus => ?_⟩
          exact round_rounds hx₁ _ fun ho => absurd ⟨k, p, hp, hq, hstatus⟩ (hretry ho)
  | reading s keys record rest =>
      simp only [RoundOk, hp] at hnode
      obtain ⟨hbefore, hasked⟩ := hnode
      cases hq : x.state.promise.filter (·.done) with
      | none => exact hx
      | some p =>
          have hx₁ : Unstarted once cfg tid h x := ⟨hbefore, hx.sent⟩
          have hrest : ∀ {ps}, (∀ s ∈ x.state.participants, s ∈ ps) →
              AskedRight cfg ps (if p.reply = replyFail then [] else rest) := by
            intro ps hps q hq key hkey
            split_ifs at hq
            · cases hq
            · obtain ⟨hroute, hmem⟩ := hasked q (List.mem_cons_of_mem _ hq) key hkey
              exact ⟨hroute, hps _ hmem⟩
          simp only [wp_bind, wp_when]
          refine ⟨fun _ => ?_, fun _ => readNext_rounds hx₁ (hrest fun _ hs => hs)⟩
          refine wp_mono (fun _ y (hy : Unstarted once cfg tid h y ∧
              y.state.participants = x.state.participants) => ?_)
            (fun _ hd => hd) (wp_forM (fun key hkey y hy => ?_) ⟨hx₁, rfl⟩)
          · exact readNext_rounds hy.1 (hrest fun s hs => by rw [hy.2]; exact hs)
          rw [modifyBuffer, wp_update]
          refine ⟨hy.1.buffer (f := (·.addReadSet key p.timestamp))
            (fun _ => ⟨rfl, rfl, fun _ => holds_addReadSet⟩) ?_, hy.2⟩
          rw [hy.2]
          exact hasked (s, keys) (List.mem_cons_self ..) key hkey

/-! ### Messages -/

/-- The message holds the transaction. -/
theorem prepareMessage_txn (env : ClientEnv) (txn : Transaction) :
    (prepareMessage env txn).txn.id = txn.id ∧
      (prepareMessage env txn).txn.participants = txn.participants ∧
      (prepareMessage env txn).txn.primaryShard = txn.primaryShard ∧
      (prepareMessage env txn).txn.writeSet = txn.writeSet ∧
      (prepareMessage env txn).txn.readSet = txn.readSet := by
  refine ⟨rfl, rfl, rfl, Table.ofList_toList _, ?_⟩
  have hreads : (txn.readSet.toList.map fun r => (⟨r.1, r.2.id, r.2.timestamp⟩ : ReadSetEntry)).map
      (fun r => (r.key, (⟨r.readTs, r.replica⟩ : Timestamp))) = txn.readSet.toList := by
    rw [List.map_map]
    exact List.map_id _
  show Table.ofList (List.map _ (List.map _ _)) = _
  rw [hreads, Table.ofList_toList]

theorem Carried.message {txn : Transaction} (ht : Carried once cfg tid st s txn) :
    Carried once cfg tid st s (prepareMessage ⟨cfg, tid⟩ txn).txn := by
  obtain ⟨hid, hps, hprim, hw, hr⟩ := prepareMessage_txn ⟨cfg, tid⟩ txn
  refine ⟨hid.trans ht.id, ht.member, hprim.trans ht.primary, hps ▸ ht.listed, hps ▸ ht.same,
    fun hg => ?_, fun hg => ?_⟩
  · obtain ⟨hp, hsound, hall⟩ := ht.gathered hg
    refine ⟨hp, ⟨hw ▸ hsound.writes, hr ▸ hsound.reads⟩, fun p hp => ?_⟩
    exact ⟨hw ▸ (hall p hp).writes, hr ▸ (hall p hp).reads⟩
  · rw [hw, hr]
    exact ht.own hg

/-- The transport thread runs a task. -/
theorem runTask_rounds (hx : RoundGood once cfg tid h x) {t : Task}
    (ht : t.IsGet ∨ ∃ st, startOf (past h (.client tid) x) tid = some st ∧ Planned cfg tid st ∧
      QueuedOk once cfg tid st t) :
    wp (runTask ⟨cfg, tid⟩ ω t) (fun _ => RoundGood once cfg tid h) (RoundGood once cfg tid h)
      x := by
  -- the requests in flight do not matter
  have hupdate : ∀ {y : Ctx Client Addr Msg Event} {c : Client}, RoundGood once cfg tid h y →
      c.phase = y.state.phase → c.participants = y.state.participants → c.txns = y.state.txns →
      c.tasks = y.state.tasks → RoundGood once cfg tid h { y with state := c } := by
    intro y c hy hphase hps htxns htasks
    exact hy.update (hy.node.congr rfl hphase hps htxns fun t ht => htasks ▸ ht)
  cases t with
  | get s keys a =>
      simp only [runTask, invokeGetData, sendMessageToReplica, wp_bind, wp_update, wp_when,
        wp_send]
      have hx₁ := hupdate (c := { x.state with waiting := x.state.waiting.insert s a }) hx rfl rfl
        rfl rfl
      refine ⟨fun _ => ?_, fun _ => hx₁⟩
      exact hupdate (hx₁.send_one (by trivial)) rfl rfl rfl rfl
  | prepare s txn a =>
      obtain hget | ⟨st, hst, hplan, hcarried⟩ := ht
      · exact hget.elim
      have hid : txn.id = tid := hcarried.id
      have hmsg : ∀ j, RoundPkt once cfg (past h (.client tid) x) ⟨.client tid s, .replica s j,
          .prepareTransaction (prepareMessage ⟨cfg, tid⟩ txn)⟩ := by
        intro j
        refine .inr ⟨s, ?_, ⟨st, ?_, ?_, ?_⟩, ⟨j, rfl⟩, rfl⟩
        · show Addr.client tid s = .client txn.id s
          rw [hid]
        · show startOf _ txn.id = some st
          rw [hid]
          exact hst
        · show Planned cfg txn.id st
          rw [hid]
          exact hplan
        · show Carried once cfg txn.id st s _
          rw [hid]
          exact Carried.message hcarried
      have hx₁ := hupdate (c := { x.state with
        waiting := x.state.waiting.insert s a
        pendingReqs := x.state.pendingReqs.insert s
          (.prepare { leader := cfg.leader s, state := ω.garbageLogState }) }) hx rfl rfl rfl rfl
      have herase : ∀ {y : Ctx Client Addr Msg Event}, RoundGood once cfg tid h y →
          wp (when (!ω.sendOk 0) (erasePendingReq s)) (fun _ => RoundGood once cfg tid h)
            (RoundGood once cfg tid h) y := by
        intro y hy
        rw [wp_when]
        exact ⟨fun _ => hupdate hy rfl rfl rfl rfl, fun _ => hy⟩
      simp only [runTask, invokePrepare, sendPrepare, wp_bind, wp_update, wp_ite, wp_when,
        sendMessageToAll, sendMessageToReplica, wp_send]
      refine ⟨fun _ => ?_, fun _ => ⟨fun _ => ?_, fun _ => ?_⟩⟩
      · refine (wp_when _ _).1 (herase (hx₁.send fun p hp => ?_))
        obtain ⟨j, _, rfl⟩ := List.mem_map.1 hp
        exact hmsg j
      · exact (wp_when _ _).1 (herase (hx₁.send_one (hmsg _)))
      · exact (wp_when _ _).1 (herase hx₁)
  | parallelModeCommit s ps a =>
      obtain hget | ⟨st, hst, hplan, hsame⟩ := ht
      · exact hget.elim
      simp only [runTask, invokeParallelCommit, sendMessageToReplica, wp_bind, wp_update, wp_when,
        wp_send]
      have hx₁ := hupdate (c := { x.state with waiting := x.state.waiting.insert s a }) hx rfl rfl
        rfl rfl
      refine ⟨fun _ => ?_, fun _ => hx₁⟩
      have hp : RoundPkt once cfg (past h (.client tid) x) ⟨.client tid s,
          .replica s (cfg.leader s), .parallelModeCommit { tid := tid, participants := ps }⟩ :=
        ⟨st, hst, hplan, hsame⟩
      exact hupdate (hx₁.send_one hp) rfl rfl rfl rfl

/-- A task is what was queued. -/
theorem RoundOk.task {c : Client} (hc : RoundOk once cfg tid h c) {t : Task} (ht : t ∈ c.tasks) :
    t.IsGet ∨ ∃ st, startOf h tid = some st ∧ Planned cfg tid st ∧ QueuedOk once cfg tid st t := by
  unfold RoundOk at hc
  split at hc
  · exact .inl (hc.tasks t ht)
  · exact .inl (hc.1.tasks t ht)
  · obtain ⟨st, hst⟩ := hc
    exact .inr ⟨st, hst.start, hst.plan, hst.tasks t ht⟩
  · rcases hc with ⟨st, hst⟩ | ⟨_, hgets⟩
    · exact .inr ⟨st, hst.start, hst.plan, hst.tasks t ht⟩
    · exact .inl (hgets t ht)

theorem handleTask_rounds (hx : RoundGood once cfg tid h x) (i : ℕ) :
    wp (handleTask ⟨cfg, tid⟩ ω i) (fun _ => RoundGood once cfg tid h) (RoundGood once cfg tid h)
      x := by
  simp only [handleTask, wp_bind, wp_read]
  cases ht : x.state.tasks[i]? with
  | none => exact hx
  | some t =>
      have hx₁ : RoundGood once cfg tid h
          { x with state := { x.state with tasks := x.state.tasks.eraseIdx i } } :=
        hx.update (hx.node.congr rfl rfl rfl rfl fun _ => List.mem_of_mem_eraseIdx)
      simp only [wp_bind, wp_update]
      exact runTask_rounds hx₁ (RoundOk.task hx.node (List.mem_of_getElem? ht))

/-! ### Every step -/

/-- What leaves the call alone. -/
theorem aside_rounds {p : ClientM Unit} (hx : RoundGood once cfg tid h x) (hp : Aside x p) :
    wp p (fun _ => RoundGood once cfg tid h) (RoundGood once cfg tid h) x := by
  have hsame : ∀ {y : Ctx Client Addr Msg Event}, SameCall x y → RoundGood once cfg tid h y := by
    intro y hy
    have hpast : past h (.client tid) y = past h (.client tid) x := by
      rw [past, past, hy.events]
    refine ⟨?_, fun q hq => ?_⟩
    · rw [hpast]
      exact hx.node.congr rfl hy.phase hy.participants hy.txns fun t ht => hy.tasks ▸ ht
    · rw [hpast]
      exact hx.sent q (hy.sent ▸ hq)
  exact wp_mono (fun _ _ hy => hsame hy) (fun _ hy => hsame hy) (hp x (.refl x))

theorem call_rounds (hx : RoundGood once cfg tid h x) {y : ClientM Unit}
    (hy : Unstarted once cfg tid h x → x.state.phase = .running →
      wp y (fun _ => RoundGood once cfg tid h) (RoundGood once cfg tid h) x) :
    wp (call y) (fun _ => RoundGood once cfg tid h) (RoundGood once cfg tid h) x := by
  simp only [call, wp_bind, wp_read]
  have hnode := hx.node
  split
  · rename_i hp
    simp only [RoundOk, hp] at hnode
    exact hy ⟨hnode, hx.sent⟩ hp
  · exact hx

theorem handleAction_rounds (hx : RoundGood once cfg tid h x) {a : Action}
    (hretry : once → a = .wake → ¬ Retries x.state) :
    wp (handleAction ⟨cfg, tid⟩ ω a) (fun _ => RoundGood once cfg tid h)
      (RoundGood once cfg tid h) x := by
  cases a with
  | get key => exact call_rounds hx fun hc hp => get_rounds hc hp key
  | multiGet keys => exact call_rounds hx fun hc _ => multiGet_rounds hc keys
  | put key value => exact call_rounds hx fun hc hp => put_rounds hc hp key value
  | commit => exact call_rounds hx fun hc _ => commit_rounds hc
  | abort =>
      refine call_rounds hx fun hc _ => decide_rounds ⟨.inr ⟨hc.node.start, hc.node.tasks⟩,
        hc.sent⟩ false .abort
  | wake => exact wake_rounds hx fun ho => hretry ho rfl
  | task i => exact handleTask_rounds hx i
  | prepareTimeout s => exact aside_rounds hx prepareTimeoutCallback_aside
  | getTimeout s => exact aside_rounds hx getDateTimeoutCallback_aside
  | parallelModeCommitTimeout s => exact aside_rounds hx (parallelModeCommitTimeout_aside s)

/-- **A step of a client** keeps the invariant, in every mode. -/
theorem handleInput_rounds {c : Client} (hc : RoundOk once cfg tid h c)
    {input : Input Addr Msg Act}
    (hretry : once → input = .act (.client .wake) → ¬ Retries c) :
    wp (handleInput ⟨cfg, tid⟩ ω input) (fun _ => RoundGood once cfg tid h)
      (RoundGood once cfg tid h) { state := c } := by
  have hx : RoundGood once cfg tid h { state := c } := Good.start hc
  cases input with
  | act a =>
      cases a with
      | client a => exact handleAction_rounds hx fun ho ha => hretry ho (ha ▸ rfl)
      | timer t => exact hx
  | recv p =>
      obtain ⟨src, dst, msg⟩ := p
      cases dst with
      | client t s => exact aside_rounds hx (handleMessage_aside msg)
      | _ => exact hx

end Client

/-! ### Every run -/

/-- The invariant of a process; only that of a client says something. -/
def RoundNode (once : Prop) (cfg : Config) (h : History) : (n : Node) → Local n → Prop
  | .client tid, c => RoundOk once cfg tid h c
  | _, _ => True

section Run

variable {once : Prop} {cfg : Config} {C : StepCond} {w : GlobalState}

theorem RoundOk.init (tid : TxnId) : RoundOk once cfg tid [] {} :=
  ⟨rfl, List.nodup_nil, fun _ => rfl, fun _ => rfl,
    fun s k hk => hk.elim (fun hk => absurd hk (by simp [Client.buffered]))
      fun hk => absurd hk (by simp [Client.buffered]), fun _ h => by cases h⟩

theorem RoundNode.frame {h : History} {n n' : Node} (hn : n ≠ n') (es : List Event) {x : Local n}
    (hx : RoundNode once cfg h n x) : RoundNode once cfg (h ++ es.map (n', ·)) n x := by
  cases n with
  | client tid =>
      exact RoundOk.congr hx (startOf_frame hn es) rfl rfl rfl fun _ ht => ht
  | replica s i => trivial
  | coordinator c => trivial

theorem Msg.ofCoordinator.round {p : Pkt} {h : History} (hp : p.msg.ofCoordinator) :
    RoundPkt once cfg h p := by
  obtain ⟨src, dst, msg⟩ := p
  cases msg with
  | prepareTransaction m => exact hp.elim
  | parallelModeCommit m => exact hp.elim
  | _ => trivial

/-- What a replica sends tells nothing of a round. -/
theorem roundPkt_of_replica {env : ReplicaEnv} {ω : Choice} {input : Input Addr Msg Act}
    {r : Replica} {h : History} {p : Pkt}
    (hp : p ∈ (Replica.handleInput env ω input { state := r }).state.sent) :
    RoundPkt once cfg h p := by
  have hkind := (Replica.handleInput_sends env ω input).sent hp
  obtain ⟨src, dst, msg⟩ := p
  cases msg with
  | prepareTransaction m =>
      obtain ⟨_, _, _, _, _, _, hpiece⟩ := Replica.handleInput_handedOut hp rfl
      exact .inl (congrArg Packet.src hpiece)
  | parallelModeCommit m => exact hkind.elim
  | _ => trivial

/-- **Rounds.** The invariant of the clients and of their messages in every run, in every
mode; `once` may be assumed where no client starts a second round. -/
theorem Config.rounds
    (honce : once → ∀ (w : GlobalState) tid ω, C w (.client tid) ω (.act (.client .wake)) →
      ¬ Client.Retries (w.client tid))
    (hw : cfg.system.Reach C w) :
    (∀ tid, RoundOk once cfg tid w.history (w.client tid)) ∧
      ∀ p ∈ w.net, RoundPkt once cfg w.history p := by
  suffices hall : (∀ n, RoundNode once cfg w.history n (w.state n)) ∧
      ∀ p ∈ w.net, RoundPkt once cfg w.history p from ⟨fun tid => hall.1 (.client tid), hall.2⟩
  refine hw.invariant (fun n => ?_) (fun _ _ _ => RoundPkt.mono)
    (fun _ _ _ es _ hn => RoundNode.frame hn es) ?_
  · cases n with
    | client tid =>
        have hc : RoundOk once cfg tid [] {} := RoundOk.init tid
        exact hc
    | replica s i => trivial
    | coordinator c => trivial
  · intro (w : GlobalState) n ω input _ hnode _ hen hc
    cases n with
    | client tid =>
        refine Client.handleInput_rounds (hnode (.client tid)) fun ho hwake => ?_
        subst hwake
        exact honce ho w tid ω hc
    | replica s i =>
        exact wp_of_state ⟨trivial, fun p hp => roundPkt_of_replica hp⟩
    | coordinator c =>
        exact (Coordinator.handleInput_sends ⟨cfg, c⟩ ω input).good (fun _ _ => trivial)
          (fun _ _ => trivial) Msg.ofCoordinator.round

end Run

end D2PC
