import D2PC.Vr.System

/-!
# Buffered prepare messages

A replica that cannot take a prepare message yet keeps it until the next state transfer. At the
end of `HandleStateTransfer` the buffer is copied and cleared, and then the loop runs over the
cleared buffer, not over the copy.

* `handleStateTransferWith` : the handler, with what it does with a buffered message left open;
* `Taken` : every buffered message is passed on, once and in order, after the transfer;
* `taken_iff` : this is so exactly when nothing is buffered.
-/

namespace D2PC.Vr.Replica

open Ctx Prog

variable {σ Op : Type} (env : Env σ Op)

/-- `HandleStateTransfer`, up to the buffered messages. -/
def transfer (msg : StateTransfer Op) : M σ Op Unit := do
  let r ← read id
  let oldLastOp ← transferEntries r.lastOp msg.entries
  when (decide (r.view < msg.view)) (enterView env msg.view)
  commitUpTo env msg.opnum
  sendPrepareOKs env oldLastOp

/-- `HandleStateTransfer` as it is written, with `HandlePrepare` as a parameter. The copy of the
buffer is not read. -/
def handleStateTransferWith (handle : Node → Prepare Op → M σ Op Unit) (msg : StateTransfer Op) :
    M σ Op Unit := do
  let r ← read id
  when (!decide (msg.view < r.view)) do
    transfer env msg
    let _pending ← read (·.pendingPrepares)
    update fun r => { r with pendingPrepares := [] }
    let pendingPrepares ← read (·.pendingPrepares)
    pendingPrepares.forM fun msgpair => handle msgpair.1 msgpair.2

/-- What is meant: the transfer, and then every message that was buffered. -/
def transferThenEach (handle : Node → Prepare Op → M σ Op Unit) (msg : StateTransfer Op) :
    M σ Op Unit := do
  transfer env msg
  let pending ← read (·.pendingPrepares)
  update fun r => { r with pendingPrepares := [] }
  pending.forM fun msgpair => handle msgpair.1 msgpair.2

theorem bind_bind {S α β γ : Type} (x : Prog S α) (f : α → Prog S β) (g : β → Prog S γ) :
    (x >>= f) >>= g = x >>= fun a => f a >>= g := by
  funext c
  simp only [bind]
  cases x c <;> rfl

theorem handleStateTransfer_eq (msg : StateTransfer Op) :
    handleStateTransfer env msg = handleStateTransferWith env (handlePrepare env) msg := by
  funext c
  rw [handleStateTransfer, handleStateTransferWith, read_bind, read_bind]
  by_cases hold : msg.view < c.state.view
  · have hguard : (!decide (msg.view < (id c.state).view)) = false := by simpa using hold
    rw [hguard]
    rfl
  · have hguard : (!decide (msg.view < (id c.state).view)) = true := by simpa using hold
    rw [hguard]
    -- the steps of the transfer as one handler
    show (transferEntries c.state.lastOp msg.entries >>= fun oldLastOp =>
        when (decide (c.state.view < msg.view)) (enterView env msg.view) >>= fun _ =>
        commitUpTo env msg.opnum >>= fun _ => sendPrepareOKs env oldLastOp >>= fun _ =>
        update fun r => { r with pendingPrepares := [] }) c =
      ((transferEntries c.state.lastOp msg.entries >>= fun oldLastOp =>
        when (decide (c.state.view < msg.view)) (enterView env msg.view) >>= fun _ =>
        commitUpTo env msg.opnum >>= fun _ => sendPrepareOKs env oldLastOp) >>= fun _ =>
        update fun r => { r with pendingPrepares := [] }) c
    simp only [bind_bind]

/-! ### The transfer leaves the buffer alone -/

/-- What is buffered. -/
def Buffers (ps : List (Node × Prepare Op)) (c : Ctx (Replica σ Op) Node (Msg Op) (Event Op)) :
    Prop :=
  c.state.pendingPrepares = ps

variable {ps : List (Node × Prepare Op)}

theorem update_buffers {f : Replica σ Op → Replica σ Op}
    (hf : ∀ r, (f r).pendingPrepares = r.pendingPrepares) :
    Keeps (Buffers ps) (update f : M σ Op Unit) :=
  .modify fun c hc => (hf c.state).trans hc

theorem send_buffers (packets : List (Packet Node (Msg Op))) :
    Keeps (Buffers ps) (send packets : M σ Op Unit) :=
  .modify fun _ hc => hc

theorem emit_buffers (e : Event Op) : Keeps (Buffers ps) (emit e : M σ Op Unit) :=
  .modify fun _ hc => hc

theorem transferEntries_buffers (es : List (LogEntry Op)) (oldLastOp : ℕ) :
    Keeps (Buffers ps) (transferEntries oldLastOp es : M σ Op ℕ) := by
  induction es generalizing oldLastOp with
  | nil => exact .pure _
  | cons e es ih =>
    refine .bind (.gets _) fun r => .ite (ih _) (.ite ?_ ?_)
    · refine .bind (.deref _) fun entry => .ite (ih _) ?_
      exact .bind (update_buffers fun _ => rfl) fun _ => ih _
    · exact .bind (update_buffers fun _ => rfl) fun _ => ih _

theorem enterView_buffers (newview : ℕ) : Keeps (Buffers ps) (enterView env newview) := by
  refine .bind (update_buffers fun _ => rfl) fun _ => .bind (.gets _) fun r => .ite ?_ ?_
  · exact update_buffers fun _ => rfl
  · exact update_buffers fun _ => rfl

theorem commitNext_buffers : Keeps (Buffers ps) (commitNext env) := by
  refine .bind (update_buffers fun _ => rfl) fun _ => .bind (.gets _) fun r => ?_
  refine .bind (.deref _) fun entry => .bind (emit_buffers _) fun _ => ?_
  refine .bind (update_buffers fun _ => rfl) fun _ => ?_
  cases r.clientAddresses.lookup entry.request.clientid with
  | some addr => exact send_buffers _
  | none => exact .pure _

theorem commitTimes_buffers (k : ℕ) : Keeps (Buffers ps) (commitTimes env k) := by
  induction k with
  | zero => exact .pure _
  | succ k ih => exact .bind (commitNext_buffers env) fun _ => ih

theorem sendPrepareOKs_buffers (oldLastOp : ℕ) :
    Keeps (Buffers ps) (sendPrepareOKs env oldLastOp) := by
  refine .bind (.gets _) fun lastOp => .forM fun i _ => .bind (.gets _) fun r => .when ?_
  refine .bind (.deref _) fun entry => .bind (update_buffers fun _ => rfl) fun _ => ?_
  exact .bind (emit_buffers _) fun _ => .bind (.gets _) fun r => send_buffers _

theorem transfer_buffers (msg : StateTransfer Op) : Keeps (Buffers ps) (transfer env msg) := by
  refine .bind (.gets _) fun r => .bind (transferEntries_buffers _ _) fun oldLastOp => ?_
  refine .bind (.when (enterView_buffers env _)) fun _ => ?_
  refine .bind (.bind (.gets _) fun k => commitTimes_buffers env _) fun _ => ?_
  exact sendPrepareOKs_buffers env _

/-! ### What becomes of the buffer -/

variable {c : Ctx (Replica σ Op) Node (Msg Op) (Event Op)} {msg : StateTransfer Op}

/-- **Every buffered message is taken**: whatever `HandlePrepare` does, the handler does what
passing each of them to it would, once and in order, after the transfer; and one that fits the log
of its view is in it then, and acknowledged. -/
def Taken (c : Ctx (Replica σ Op) Node (Msg Op) (Event Op)) (msg : StateTransfer Op) : Prop :=
  (∀ handle, handleStateTransferWith env handle msg c = transferThenEach env handle msg c) ∧
  ∀ p ∈ c.state.pendingPrepares,
    let before := (transfer env msg c).state.state
    let after := (handleStateTransfer env msg c).state
    p.2.view = before.view → p.2.batchstart ≤ before.lastOp + 1 →
      p.2.opnum ≤ after.state.lastOp ∧
      ⟨.replica env.myIdx, .replica (env.cfg.leader before.view),
        .prepareOK p.2.view p.2.opnum env.myIdx⟩ ∈ after.sent

/-- A handler of prepare messages that only records that it was called. -/
def note (_ : Node) (p : Prepare Op) : M σ Op Unit := emit (.accepted p.view p.opnum)

theorem forM_note (ps : List (Node × Prepare Op)) :
    ps.forM (fun msgpair => note msgpair.1 msgpair.2) c =
      .done () { c with events := c.events ++ ps.map fun p => .accepted p.2.view p.2.opnum } := by
  induction ps generalizing c with
  | nil =>
    rw [List.map_nil, List.append_nil]
    rfl
  | cons p ps ih =>
    refine (ih (c := { c with events := c.events ++ [.accepted p.2.view p.2.opnum] })).trans ?_
    rw [List.map_cons, List.append_assoc, List.singleton_append]

/-- After the transfer, the loop runs over an empty list. -/
theorem handleStateTransferWith_done (handle : Node → Prepare Op → M σ Op Unit)
    (hview : c.state.view ≤ msg.view) {c' : Ctx (Replica σ Op) Node (Msg Op) (Event Op)}
    (hdone : transfer env msg c = .done () c') :
    handleStateTransferWith env handle msg c =
      .done () { c' with state := { c'.state with pendingPrepares := [] } } := by
  rw [handleStateTransferWith, read_bind, when, if_pos (by simpa using hview)]
  simp only [bind, hdone]
  rfl

theorem transferThenEach_done (handle : Node → Prepare Op → M σ Op Unit)
    {c' : Ctx (Replica σ Op) Node (Msg Op) (Event Op)} (hdone : transfer env msg c = .done () c') :
    transferThenEach env handle msg c =
      c'.state.pendingPrepares.forM (fun msgpair => handle msgpair.1 msgpair.2)
        { c' with state := { c'.state with pendingPrepares := [] } } := by
  rw [transferThenEach]
  simp only [bind, hdone]
  rfl

/-- **The buffered messages are taken** by a transfer that returns exactly if there are none. -/
theorem taken_iff (hview : c.state.view ≤ msg.view)
    (hends : (transfer env msg c).isDead = false) :
    Taken env c msg ↔ c.state.pendingPrepares = [] := by
  obtain ⟨c', hdone⟩ : ∃ c', transfer env msg c = .done () c' := by
    cases hrun : transfer env msg c with
    | done _ c' => exact ⟨c', rfl⟩
    | dead c' =>
      rw [hrun] at hends
      cases hends
  have hkept : c'.state.pendingPrepares = c.state.pendingPrepares := by
    have h := wp_state (transfer_buffers env msg c rfl)
    rw [hdone] at h
    exact h
  constructor
  · rintro ⟨heach, -⟩
    have h := heach note
    rw [handleStateTransferWith_done env note hview hdone, transferThenEach_done env note hdone,
      forM_note, hkept] at h
    have hevents : c'.events = c'.events ++
        c.state.pendingPrepares.map fun p => .accepted p.2.view p.2.opnum :=
      congrArg (fun result => result.state.events) h
    exact List.map_eq_nil_iff.mp (List.self_eq_append_right.mp hevents)
  · intro hnil
    refine ⟨fun handle => ?_, fun p hp => ?_⟩
    · rw [handleStateTransferWith_done env handle hview hdone,
        transferThenEach_done env handle hdone, hkept, hnil]
      rfl
    · rw [hnil] at hp
      cases hp

/-! ### A prepare message that came too early -/

/-- Replica 1 of three, of an application that does nothing. -/
def second : Env Unit ℕ where
  cfg := { n := 3, f := 1 }
  myIdx := 1
  batchSize := 1
  app :=
    { init := ()
      leaderUpcall := fun _ op s => ((true, op), s)
      replicaUpcall := fun _ op s => (op, s) }

/-- The second request of the view has arrived before the first. -/
def ahead : Ctx (Replica Unit ℕ) Node (Msg ℕ) (Event ℕ) where
  state :=
    { app := ()
      pendingPrepares := [(.replica 0,
        { view := 0
          opnum := 2
          batchstart := 2
          request := [⟨20, 1, 2⟩] })] }

/-- The transfer of the first request. -/
def missing : StateTransfer ℕ where
  view := 0
  opnum := 0
  entries := [⟨0, 1, ⟨10, 1, 1⟩⟩]

theorem taken_iff_ahead : Taken second ahead missing ↔ ahead.state.pendingPrepares = [] :=
  taken_iff second (by decide) (by decide +kernel)

/-- The buffered request fits the log now, but it is neither added nor acknowledged. -/
theorem not_taken_ahead : ¬Taken second ahead missing := by
  rintro ⟨-, hall⟩
  obtain ⟨hlast, -⟩ := hall _ List.mem_cons_self (by decide +kernel) (by decide +kernel)
  exact absurd hlast (by decide +kernel)

end D2PC.Vr.Replica
