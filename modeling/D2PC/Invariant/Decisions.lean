import D2PC.System

/-!
# When a client decides

Of all the steps of a client only the calls `Commit` and `Abort` and the wake-up after the
last round record a decision; every reply, timeout and task is silent.

* `Client.givesUp` : the wake-up that decides to abort;
* `Client.handleInput_abort` : an abort is decided there, or before the first round.
-/

namespace D2PC

open Prog Ctx

namespace Client

/-- The application thread finds its promise answered with a refusal that is not retried. -/
def givesUp (c : Client) : Bool :=
  match c.phase, c.promise.filter (·.done) with
  | .preparing retryNum, some p =>
      decide (p.getPrepareReply ≠ replyOk) && decide (p.getPrepareReply = replyAbort ∨
        p.getPrepareReply = replyFail ∨ commitRetries ≤ retryNum + 1)
  | _, _ => false

variable {env : ClientEnv} {ω : Choice} {x : Ctx Client Addr Msg Event} {es : List Event}

/-- What the step recorded so far. -/
def Recorded (es : List Event) (x : Ctx Client Addr Msg Event) : Prop := x.events = es

/-! ### Silent steps -/

theorem replyGet_silent (hx : Recorded es x) (s : Shard) (f : Promise → Promise) :
    wp (replyGet ω s f) (fun _ => Recorded es) (Recorded es) x := by
  simp only [replyGet, wp_bind, wp_read]
  split <;> exact hx

theorem prepareCallback_silent (hx : Recorded es x) (s shard : Shard) (state timestamp : ℕ) :
    wp (prepareCallback env ω s shard state timestamp) (fun _ => Recorded es) (Recorded es) x := by
  simp only [prepareCallback, wp_bind, wp_read]
  split
  · exact hx
  · simp only [wp_ite, wp_pure, wp_bind, clearWaiting, setPromise, wp_update]
    exact ⟨fun _ => hx, fun _ => ⟨fun _ => hx, fun _ => hx⟩⟩

theorem handleMessage_silent (hx : Recorded es x) (s : Shard) (m : Msg) :
    wp (handleMessage env ω s m) (fun _ => Recorded es) (Recorded es) x := by
  cases m with
  | prepareTransactionReply m =>
      rw [handleMessage, wp_when]
      refine ⟨fun _ => ?_, fun _ => hx⟩
      simp only [handlePrepareTxnReply, wp_bind, wp_read]
      split
      · exact hx
      · exact hx
      · split
        · rw [wp_bind]
          exact wp_mono (fun _ y hy => hy) (fun _ hy => hy) (prepareCallback_silent hx ..)
        · exact hx
  | getDataReply m =>
      rw [handleMessage, wp_when]
      refine ⟨fun _ => ?_, fun _ => hx⟩
      simp only [handleGetDataReply, wp_bind, wp_read]
      split
      · exact hx
      · exact hx
      · simp only [wp_bind, erasePendingReq, wp_update]
        refine replyGet_silent ?_ s _
        exact hx
  | parallelModeCommitReply m =>
      rw [handleMessage, wp_when]
      refine ⟨fun _ => ?_, fun _ => hx⟩
      simp only [handleParallelModeCommitReply, wp_bind, wp_read]
      split
      · exact hx
      · simp only [wp_bind, erasePendingReq, wp_update]
        refine replyGet_silent ?_ s _
        exact hx
  | _ => exact hx

theorem handleTask_silent (hx : Recorded es x) (i : ℕ) :
    wp (handleTask env ω i) (fun _ => Recorded es) (Recorded es) x := by
  simp only [handleTask, wp_bind, wp_read]
  split
  · exact hx
  · rename_i t _
    cases t with
    | get s keys a =>
        simp only [runTask, invokeGetData, sendMessageToReplica, wp_bind, wp_update, wp_when,
          wp_send]
        exact ⟨fun _ => hx, fun _ => hx⟩
    | prepare s txn a =>
        simp only [runTask, invokePrepare, sendPrepare, sendMessageToAll, sendMessageToReplica,
          erasePendingReq, wp_bind, wp_update, wp_ite, wp_when, wp_send]
        exact ⟨fun _ => ⟨fun _ => hx, fun _ => hx⟩, fun _ => ⟨fun _ => ⟨fun _ => hx, fun _ => hx⟩,
          fun _ => ⟨fun _ => hx, fun _ => hx⟩⟩⟩
    | parallelModeCommit s ps a =>
        simp only [runTask, invokeParallelCommit, sendMessageToReplica, wp_bind, wp_update, wp_when,
          wp_send]
        exact ⟨fun _ => hx, fun _ => hx⟩

theorem readNext_silent (hx : Recorded es x) (l : List (Shard × List Key)) :
    wp (readNext l) (fun _ => Recorded es) (Recorded es) x := by
  cases l with
  | nil => exact hx
  | cons q l => exact hx

theorem prepareAtAll_silent (hx : Recorded es x) (ps : List Shard) (primary : Option Shard) :
    wp (prepareAtAll env ps primary) (fun _ => Recorded es) (Recorded es) x := by
  rw [prepareAtAll, wp_bind]
  refine wp_mono (fun _ y hy => ?_) (fun _ hy => hy) (wp_forM (fun p _ y hy => ?_) hx)
  · simp only [wp_when, wp_bind, wp_deref]
    exact ⟨fun _ => ⟨fun p _ => hy, fun _ => hy⟩, fun _ => hy⟩
  · simp only [wp_bind, setParticipants, setPrimaryShard, addPrepareTask, addParallelTask, addTask,
      modifyBuffer, wp_update, wp_read, wp_when]
    exact ⟨fun _ => hy, fun _ => hy⟩

theorem prepareAtPrimary_silent (hx : Recorded es x) (ps : List Shard) (primary : Shard) :
    wp (prepareAtPrimary env ps primary) (fun _ => Recorded es) (Recorded es) x := by
  rw [prepareAtPrimary, wp_bind, setParticipants, modifyBuffer, wp_update, wp_bind]
  refine wp_mono (fun _ y hy => hy) (fun _ hy => hy)
    (wp_forM (I := Recorded es) (fun p _ y hy => ?_) hx)
  rw [wp_bind, wp_read, wp_bind]
  exact wp_mono (fun _ z hz => wp_forM (fun _ _ _ hu => hu) hz) (fun _ hz => hz)
    (wp_forM (I := Recorded es) (fun _ _ _ hz => hz) hy)

theorem invokeCommit_silent (hx : Recorded es x) (state : LogEntryState) :
    wp (invokeCommit env state) (fun _ => Recorded es) (Recorded es) x := by
  simp only [invokeCommit, wp_bind, wp_read]
  exact wp_mono (fun _ y hy => hy) (fun _ hy => hy) (wp_forM (fun p _ y hy => hy) hx)

/-! ### Decisions -/

/-- A step that decides to commit at most. -/
def NoAbort (x : Ctx Client Addr Msg Event) : Prop := Event.decided false ∉ x.events

theorem finish_noAbort (hx : NoAbort x) : wp (finish env replyOk) (fun _ => NoAbort) NoAbort x := by
  rw [finish, if_pos rfl, wp_bind, wp_emit]
  refine wp_mono (fun _ y hy => ?_) (fun y hy => ?_) (invokeCommit_silent rfl .commit)
  all_goals
    rw [NoAbort, show y.events = _ from hy, List.mem_append, List.mem_singleton]
    exact fun h => h.elim hx (fun h => by cases h)

/-- A round without participants succeeds at once. -/
theorem round_noAbort (hx : NoAbort x) (k : ℕ) : wp (round env k) (fun _ => NoAbort) NoAbort x := by
  have hsilent : ∀ {y z : Ctx Client Addr Msg Event}, NoAbort y → Recorded y.events z → NoAbort z :=
    fun hy hz => by rwa [NoAbort, show _ = _ from hz]
  simp only [round, prepare, newPromise, wp_bind, wp_update, wp_read, wp_ite, wp_deref, wp_pure]
  refine ⟨fun _ => ⟨fun p _ => ?_, fun _ => hx⟩, fun _ => ⟨fun _ => finish_noAbort hx, fun _ => ?_⟩⟩
  · exact wp_mono (fun _ y hy => hsilent hx hy) (fun y hy => hsilent hx hy)
      (prepareAtPrimary_silent rfl ..)
  · exact wp_mono (fun _ y hy => hsilent hx hy) (fun y hy => hsilent hx hy)
      (prepareAtAll_silent rfl ..)

/-- An abort that was recorded has its reason: the call came before the first round, or the
promise of the last round was answered with a refusal. -/
def Gave (c : Client) (input : Input Addr Msg Act) (x : Ctx Client Addr Msg Event) : Prop :=
  .decided false ∈ x.events →
    c.phase = .running ∨ (input = .act (.client .wake) ∧ c.givesUp = true)

theorem wake_abort (c : Client) :
    wp (wake env) (fun _ => Gave c (.act (.client .wake))) (Gave c (.act (.client .wake)))
      { state := c } := by
  have hnone : NoAbort { state := c } := List.not_mem_nil
  have hgave : ∀ {y}, NoAbort y → Gave c (.act (.client .wake)) y := fun hy h => absurd h hy
  simp only [wake, wp_bind, wp_read]
  cases hphase : c.phase with
  | running => exact hgave hnone
  | finished => exact hgave hnone
  | reading s keys record rest =>
      cases c.promise.filter (·.done) with
      | none => exact hgave hnone
      | some p =>
          have hread : ∀ {y : Ctx Client Addr Msg Event} l, Recorded [] y →
              wp (readNext l) (fun _ => Gave c (.act (.client .wake)))
                (Gave c (.act (.client .wake))) y := fun l hy =>
            wp_mono (fun _ z hz => hgave (by rw [NoAbort, show _ = _ from hz]; exact List.not_mem_nil))
              (fun z hz => hgave (by rw [NoAbort, show _ = _ from hz]; exact List.not_mem_nil))
              (readNext_silent hy l)
          simp only [wp_bind, wp_when]
          refine ⟨fun _ => wp_mono (fun _ y hy => hread _ hy) (fun y hy => hgave ?_)
            (wp_forM (I := Recorded []) (D := Recorded []) (fun _ _ _ hy => hy) rfl),
            fun _ => hread _ rfl⟩
          rw [NoAbort, show _ = _ from hy]
          exact List.not_mem_nil
  | preparing k =>
      cases hp : c.promise.filter (·.done) with
      | none => exact hgave hnone
      | some p =>
          simp only [wp_bind, wp_update, wp_ite]
          refine ⟨fun hlast => ?_, fun _ => wp_mono (fun _ y hy => hgave hy) (fun y hy => hgave hy)
            (round_noAbort hnone _)⟩
          by_cases hok : p.getPrepareReply = replyOk
          · rw [hok]
            exact wp_mono (fun _ y hy => hgave hy) (fun y hy => hgave hy) (finish_noAbort hnone)
          · have hup : c.givesUp = true := by
              simp only [givesUp, hphase, hp, Bool.and_eq_true, decide_eq_true_eq]
              exact ⟨hok, hlast.resolve_left hok⟩
            rw [finish, if_neg hok, abort, wp_bind, wp_emit]
            exact wp_mono (fun _ _ _ _ => .inr ⟨rfl, hup⟩) (fun _ _ _ => .inr ⟨rfl, hup⟩)
              (invokeCommit_silent rfl .abort)

/-- **When an abort is decided.** -/
theorem handleInput_abort (env : ClientEnv) (ω : Choice) (c : Client)
    (input : Input Addr Msg Act) :
    wp (handleInput env ω input) (fun _ => Gave c input) (Gave c input) { state := c } := by
  have hgave : ∀ {y : Ctx Client Addr Msg Event}, Recorded [] y → Gave c input y := by
    intro y hy h
    rw [show y.events = [] from hy] at h
    cases h
  have hcall : ∀ {p : ClientM Unit}, wp (call p) (fun _ => Gave c input) (Gave c input)
      { state := c } := by
    intro p
    simp only [call, wp_bind, wp_read]
    split
    · rename_i hphase
      have htrivial : ∀ {y}, Gave c input y := fun _ => .inl hphase
      unfold wp
      split <;> exact htrivial
    · exact hgave rfl
  cases input with
  | recv p =>
      obtain ⟨src, dst, msg⟩ := p
      cases dst with
      | client t s =>
          exact wp_mono (fun _ y hy => hgave hy) (fun y hy => hgave hy)
            (handleMessage_silent rfl s msg)
      | _ => exact hgave rfl
  | act a =>
      cases a with
      | timer t => exact hgave rfl
      | client a =>
          cases a with
          | wake => exact wake_abort c
          | task i =>
              exact wp_mono (fun _ y hy => hgave hy) (fun y hy => hgave hy)
                (handleTask_silent rfl i)
          | prepareTimeout s =>
              simp only [handleInput, handleAction, prepareTimeoutCallback, wp_bind, wp_read]
              split
              · simp only [wp_bind, erasePendingReq, wp_update, wp_read]
                split <;> exact hgave rfl
              · exact hgave rfl
          | getTimeout s =>
              simp only [handleInput, handleAction, getDateTimeoutCallback, wp_bind, wp_read]
              split
              · simp only [wp_bind, erasePendingReq, wp_update]
                exact wp_mono (fun _ y hy => hgave hy) (fun y hy => hgave hy)
                  (replyGet_silent rfl s _)
              · exact hgave rfl
          | parallelModeCommitTimeout s => exact hgave rfl
          | get key => exact hcall
          | multiGet keys => exact hcall
          | put key value => exact hcall
          | commit => exact hcall
          | abort => exact hcall

end Client

end D2PC
