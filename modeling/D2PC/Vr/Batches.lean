import D2PC.Vr.System

/-!
# Batches

The leader of a view sends the requests since the last batch, those with the numbers after
`lastBatchEnd` up to `lastOp`. `EnterView` sets the one to the other, but a leader that completes
a view change takes `lastOp` from the chosen log only afterwards.

* `Batched` : what holds of a replica: its log is contiguous, and a leader numbered the requests
  of its batch in its view;
* `Carries` : a prepare message has the requests of a batch;
* `Matched` : the steps in which the numbers stay in place;
* `batches_of_matched` : in runs of such steps every batch is one of the current view;
* `batch_of_old_view` : a view change after which it is not.
-/

namespace D2PC.Vr

open Ctx Prog

variable {σ Op : Type}

/-! ### Pieces of a log -/

/-- A contiguous piece of a log that ends with an operation. -/
def Piece (es : List (LogEntry Op)) (last : ℕ) : Prop :=
  ∃ a, 1 ≤ a ∧ Log.Numbered a es ∧ a + es.length = last + 1

theorem piece_dump {l : Log Op} {last : ℕ} (h : l.Spans 1 last) (first : ℕ) :
    Piece (l.dump first) last := by
  have hlen := h.length
  rw [Log.dump_eq (h.start_eq ▸ Nat.one_pos) (h.start_eq ▸ h.numbered), h.start_eq]
  generalize max first 1 - 1 = k
  by_cases hk : k ≤ l.entries.length
  · refine ⟨1 + k, by omega, h.numbered.drop k, ?_⟩
    rw [List.length_drop]
    omega
  · refine ⟨last + 1, by omega, ?_, ?_⟩
    · rw [List.drop_of_length_le (by omega)]
      exact Log.Numbered.nil
    · rw [List.length_drop]
      omega

/-! ### The invariant -/

/-- **Batches of the view.** The log is contiguous up to `lastOp`; a leader in normal status has
numbered what is after `lastBatchEnd` in its view; and batches are closed by such leaders only. -/
structure Batched (cfg : Config) (i : ℕ) (r : Replica σ Op) : Prop where
  log : r.log.Spans 1 r.lastOp
  leading : r.status = .normal → cfg.leader r.view = i →
    r.lastBatchEnd ≤ r.lastOp ∧ ∀ e ∈ r.log.entries.drop r.lastBatchEnd, e.view = r.view
  closing : r.closeBatchTimeout = true → r.status = .normal ∧ cfg.leader r.view = i
  collected : ∀ u j m, (r.doViewChangeQuorum.getMessages u).lookup j = some m →
    Piece m.entries m.lastOp

/-- What is known of a packet: the logs in it are contiguous, and a view is announced to its leader
before and to the others after it has started. -/
def BatchPacket (cfg : Config) (p : Packet Node (Msg Op)) : Prop :=
  match p.msg with
  | .stateTransfer m => ∃ a, 1 ≤ a ∧ Log.Numbered a m.entries
  | .doViewChange m => p.dst = .replica (cfg.leader m.view) ∧ Piece m.entries m.lastOp
  | .startView m => p.dst ≠ .replica (cfg.leader m.view) ∧ Piece m.entries m.lastOp
  | _ => True

/-- What the invariant does not speak of. -/
structure SameBatch (r r' : Replica σ Op) : Prop where
  log : r'.log = r.log
  lastOp : r'.lastOp = r.lastOp
  lastBatchEnd : r'.lastBatchEnd = r.lastBatchEnd
  status : r'.status = r.status
  view : r'.view = r.view
  closing : r'.closeBatchTimeout = r.closeBatchTimeout
  collected : r'.doViewChangeQuorum = r.doViewChangeQuorum

theorem SameBatch.refl (r : Replica σ Op) : SameBatch r r :=
  ⟨rfl, rfl, rfl, rfl, rfl, rfl, rfl⟩

theorem SameBatch.trans {r r' r'' : Replica σ Op} (h : SameBatch r r') (h' : SameBatch r' r'') :
    SameBatch r r'' :=
  ⟨h'.log.trans h.log, h'.lastOp.trans h.lastOp, h'.lastBatchEnd.trans h.lastBatchEnd,
    h'.status.trans h.status, h'.view.trans h.view, h'.closing.trans h.closing,
    h'.collected.trans h.collected⟩

/-- A handler that has not touched what the invariant speaks of. -/
def FrameCtx (cfg : Config) (r : Replica σ Op) (c : Ctx (Replica σ Op) Node (Msg Op) (Event Op)) :
    Prop :=
  SameBatch r c.state ∧ ∀ p ∈ c.sent, BatchPacket cfg p

/-- The invariant in the middle of a handler. -/
def BatchCtx (cfg : Config) (i : ℕ) (c : Ctx (Replica σ Op) Node (Msg Op) (Event Op)) : Prop :=
  Batched cfg i c.state ∧ ∀ p ∈ c.sent, BatchPacket cfg p

theorem Batched.same {cfg : Config} {i : ℕ} {r r' : Replica σ Op} (h : Batched cfg i r)
    (hs : SameBatch r r') : Batched cfg i r' := by
  refine ⟨?_, ?_, ?_, ?_⟩
  · rw [hs.log, hs.lastOp]
    exact h.log
  · rw [hs.status, hs.view, hs.lastBatchEnd, hs.lastOp, hs.log]
    exact h.leading
  · rw [hs.closing, hs.status, hs.view]
    exact h.closing
  · rw [hs.collected]
    exact h.collected

/-- The next request of a leader. -/
theorem Batched.propose {cfg : Config} {i : ℕ} {r : Replica σ Op} (h : Batched cfg i r)
    (req : Request Op) (hleader : r.status = .normal ∧ cfg.leader r.view = i) {timeout : Bool} :
    Batched cfg i { r with
      lastOp := r.lastOp + 1
      log := r.log.append
        { view := r.view
          opnum := r.lastOp + 1
          request := req }
      closeBatchTimeout := timeout } := by
  have hlen := h.log.length
  obtain ⟨hle, hview⟩ := h.leading hleader.1 hleader.2
  refine ⟨⟨h.log.start_eq, h.log.numbered.concat hlen.symm, ?_⟩, fun _ _ => ⟨?_, ?_⟩,
    fun _ => hleader, h.collected⟩
  · rw [Log.entries_append, List.length_append, List.length_singleton]
    show _ = r.lastOp + 1 + 1
    omega
  · exact Nat.le_succ_of_le hle
  · intro e he
    have he : e ∈ (r.log.entries ++ [_]).drop r.lastBatchEnd := he
    rw [List.drop_append_of_le_length (by omega)] at he
    rcases List.mem_append.mp he with hold | hnew
    · exact hview e hold
    · rw [List.mem_singleton.mp hnew]

namespace Replica

variable {env : Env σ Op}

section Keep

variable {r : Replica σ Op} {f : Replica σ Op → Replica σ Op}

theorem update_frame (hf : ∀ r, SameBatch r (f r)) :
    Keeps (FrameCtx env.cfg r) (update f : M σ Op Unit) :=
  .modify fun c hc => ⟨hc.1.trans (hf c.state), hc.2⟩

theorem send_frame {packets : List (Packet Node (Msg Op))}
    (h : ∀ p ∈ packets, BatchPacket env.cfg p) :
    Keeps (FrameCtx env.cfg r) (send packets : M σ Op Unit) := by
  refine .modify fun c hc => ⟨hc.1, fun p hp => ?_⟩
  rcases List.mem_append.mp hp with hold | hnew
  · exact hc.2 p hold
  · exact h p hnew

theorem emit_frame (e : Event Op) :
    Keeps (FrameCtx env.cfg r) (emit e : M σ Op Unit) :=
  .modify fun _ hc => hc

theorem sendTo_frame {dst : Node} {m : Msg Op}
    (h : BatchPacket env.cfg ⟨.replica env.myIdx, dst, m⟩) :
    Keeps (FrameCtx env.cfg r) (sendTo env dst m) := by
  refine send_frame fun p hp => ?_
  rw [List.mem_singleton.mp hp]
  exact h

theorem sendMessageToAll_frame {m : Msg Op}
    (h : ∀ j, j ≠ env.myIdx → BatchPacket env.cfg ⟨.replica env.myIdx, .replica j, m⟩) :
    Keeps (FrameCtx env.cfg r) (sendMessageToAll env m) := by
  refine send_frame fun p hp => ?_
  obtain ⟨j, hj, rfl⟩ := List.mem_map.mp hp
  exact h j (of_decide_eq_true (List.mem_filter.mp hj).2)

theorem commitNext_frame : Keeps (FrameCtx env.cfg r) (commitNext env) := by
  refine .bind (update_frame fun _ => ⟨rfl, rfl, rfl, rfl, rfl, rfl, rfl⟩) fun _ =>
    .bind (.gets _) fun r => ?_
  refine .bind (.deref _) fun entry => .bind (emit_frame _) fun _ => ?_
  refine .bind (update_frame fun _ => ⟨rfl, rfl, rfl, rfl, rfl, rfl, rfl⟩) fun _ => ?_
  cases r.clientAddresses.lookup entry.request.clientid with
  | some addr => exact sendTo_frame trivial
  | none => exact .pure _

theorem commitTimes_frame (k : ℕ) : Keeps (FrameCtx env.cfg r) (commitTimes env k) := by
  induction k with
  | zero => exact .pure _
  | succ k ih => exact .bind commitNext_frame fun _ => ih

theorem commitUpTo_frame (upto : ℕ) : Keeps (FrameCtx env.cfg r) (commitUpTo env upto) :=
  .bind (.gets _) fun _ => commitTimes_frame _

theorem updateClientTable_frame (req : Request Op) :
    Keeps (FrameCtx env.cfg r) (updateClientTable req : M σ Op Unit) :=
  update_frame fun _ => ⟨rfl, rfl, rfl, rfl, rfl, rfl, rfl⟩

theorem sendPrepareOK_frame (view opnum : ℕ) :
    Keeps (FrameCtx env.cfg r) (sendPrepareOK env view opnum) :=
  .bind (emit_frame _) fun _ => .bind (.gets _) fun _ => sendTo_frame trivial

theorem sendPrepareOKs_frame (oldLastOp : ℕ) :
    Keeps (FrameCtx env.cfg r) (sendPrepareOKs env oldLastOp) := by
  refine .bind (.gets _) fun lastOp => .forM fun i _ => .bind (.gets _) fun r => .when ?_
  refine .bind (.deref _) fun entry => .bind (updateClientTable_frame _) fun _ => ?_
  exact sendPrepareOK_frame _ _

theorem requestStateTransfer_frame :
    Keeps (FrameCtx env.cfg r) (requestStateTransfer env) := by
  refine .bind (.gets _) fun r => .when ?_
  refine .bind (update_frame fun _ => ⟨rfl, rfl, rfl, rfl, rfl, rfl, rfl⟩) fun _ => ?_
  exact sendMessageToAll_frame fun _ _ => trivial

theorem bufferPrepare_frame (remote : Node) (msg : Prepare Op) :
    Keeps (FrameCtx env.cfg r) (bufferPrepare env remote msg) :=
  .bind requestStateTransfer_frame fun _ =>
    update_frame fun _ => ⟨rfl, rfl, rfl, rfl, rfl, rfl, rfl⟩

/-- A handler that leaves the replica alone keeps the invariant. -/
theorem of_frame {α : Type} {x : M σ Op α} (hx : ∀ {r}, Keeps (FrameCtx env.cfg r) x) :
    Keeps (BatchCtx env.cfg env.myIdx) x := fun c hc =>
  wp_mono (fun _ _ h => ⟨hc.1.same h.1, h.2⟩) (fun _ h => ⟨hc.1.same h.1, h.2⟩)
    (hx c ⟨SameBatch.refl c.state, hc.2⟩)

end Keep

/-! ### Handlers that leave the log alone -/

section Handlers

variable {c : Ctx (Replica σ Op) Node (Msg Op) (Event Op)}

/-- A view is entered with an empty batch, if the log is contiguous then. -/
theorem enterView_wp (hlog : c.state.log.Spans 1 c.state.lastOp)
    (hsent : ∀ p ∈ c.sent, BatchPacket env.cfg p) (newview : ℕ) :
    wp (enterView env newview) (fun _ c' => BatchCtx env.cfg env.myIdx c' ∧
      c'.state.lastOp = c.state.lastOp ∧ c'.state.view = newview) (fun _ => False) c := by
  have hlen := hlog.length
  have hnone : c.state.log.entries.drop c.state.lastOp = [] :=
    List.drop_of_length_le (by omega)
  simp only [enterView, wp_bind, wp_update, wp_read, wp_ite, id]
  constructor
  · intro hleader
    refine ⟨⟨⟨hlog, fun _ _ => ⟨le_rfl, ?_⟩, fun _ => ⟨rfl, of_decide_eq_true hleader⟩, ?_⟩,
      hsent⟩, trivial, trivial⟩
    · intro e he
      rw [hnone] at he
      cases he
    · intro u j m hm
      cases hm
  · intro hleader
    refine ⟨⟨⟨hlog, fun _ h => absurd (decide_eq_true h) hleader, (fun h => by cases h), ?_⟩, hsent⟩, trivial,
      trivial⟩
    intro u j m hm
    cases hm

theorem startViewChange_batch (newview : ℕ) :
    Keeps (BatchCtx env.cfg env.myIdx) (startViewChange env newview) := by
  refine .bind (.modify fun c hc => ⟨⟨hc.1.log, (fun h => by cases h), (fun h => by cases h), hc.1.collected⟩, hc.2⟩) fun _ =>
    .bind (.gets _) fun r => ?_
  exact of_frame (sendMessageToAll_frame fun _ _ => trivial)

/-- The requests of a batch are in the log. -/
theorem batch_eq {l : Log Op} {last : ℕ} (h : l.Spans 1 last) (first k : ℕ) (hfirst : 1 ≤ first)
    (hlast : first + k ≤ last + 1) (c : Ctx (Replica σ Op) Node (Msg Op) (Event Op)) :
    batch l first k c = .done (((l.entries.drop (first - 1)).take k).map (·.request)) c := by
  induction k generalizing first with
  | zero =>
    rw [List.take_zero]
    rfl
  | succ k ih =>
    obtain ⟨e, hfind, -, hget⟩ := h.find hfirst (by omega)
    obtain ⟨hlt, hget⟩ := List.getElem?_eq_some_iff.mp hget
    rw [batch, hfind, List.drop_eq_getElem_cons hlt, hget, List.take_succ_cons, List.map_cons]
    have hnext := ih (first + 1) (by omega) (by omega)
    have hpred : first + 1 - 1 = first - 1 + 1 := by omega
    rw [hpred] at hnext
    simp only [bind, deref, pure, hnext]

/-- A prepare message with the requests of the leader up to the last one. -/
structure Carries (r : Replica σ Op) (m : Prepare Op) : Prop where
  view : m.view = r.view
  opnum : m.opnum = r.lastOp
  start : m.batchstart ≤ r.lastOp + 1
  length : m.request.length = r.lastOp + 1 - m.batchstart
  request : ∀ k, m.batchstart ≤ k → k ≤ r.lastOp → ∃ e, r.log.find k = some e ∧ e.opnum = k ∧
    e.view = r.view ∧ m.request[k - m.batchstart]? = some e.request

/-- The prepare message of a batch. -/
def batchPrepare (r : Replica σ Op) : Prepare Op where
  view := r.view
  opnum := r.lastOp
  batchstart := r.lastBatchEnd + 1
  request := ((r.log.entries.drop r.lastBatchEnd).take (r.lastOp - r.lastBatchEnd)).map (·.request)

/-- What `CloseBatch` leaves. -/
def closed (r : Replica σ Op) : Replica σ Op :=
  { r with
    lastPrepare := batchPrepare r
    lastBatchEnd := r.lastOp
    resendPrepareTimeout := true
    closeBatchTimeout := false }

/-- **`CloseBatch`** of a contiguous log sends one message. -/
theorem closeBatch_eq (h : c.state.log.Spans 1 c.state.lastOp)
    (hle : c.state.lastBatchEnd ≤ c.state.lastOp) :
    closeBatch env c = .done () { c with
      state := closed c.state
      sent := c.sent ++ ((List.range env.cfg.n).filter fun i => i ≠ env.myIdx).map fun i =>
        ⟨.replica env.myIdx, .replica i, .prepare (batchPrepare c.state)⟩ } := by
  have hbatch := batch_eq h (c.state.lastBatchEnd + 1)
    (c.state.lastOp + 1 - (c.state.lastBatchEnd + 1)) (by omega) (by omega) c
  have hcount : c.state.lastOp + 1 - (c.state.lastBatchEnd + 1) =
    c.state.lastOp - c.state.lastBatchEnd := by omega
  rw [hcount, Nat.add_sub_cancel] at hbatch
  rw [closeBatch, read_bind]
  simp only [bind, id, hcount, hbatch]
  rfl

/-- The message carries the batch. -/
theorem batchPrepare_carries {i : ℕ} {r : Replica σ Op} (h : Batched env.cfg i r)
    (hnormal : r.status = .normal) (hleader : env.cfg.leader r.view = i) :
    Carries (closed r) (batchPrepare r) := by
  obtain ⟨hle, hview⟩ := h.leading hnormal hleader
  have hlen := h.log.length
  refine ⟨rfl, rfl, Nat.succ_le_succ hle, ?_, fun k hk hk' => ?_⟩
  · show (((r.log.entries.drop r.lastBatchEnd).take (r.lastOp - r.lastBatchEnd)).map _).length = _
    rw [List.length_map, List.length_take, List.length_drop]
    show _ = r.lastOp + 1 - (r.lastBatchEnd + 1)
    omega
  · have hk : r.lastBatchEnd + 1 ≤ k := hk
    have hk' : k ≤ r.lastOp := hk'
    obtain ⟨e, hfind, hop, hget⟩ := h.log.find (by omega) hk'
    have hdrop : (r.log.entries.drop r.lastBatchEnd)[k - (r.lastBatchEnd + 1)]? = some e := by
      rw [List.getElem?_drop, ← hget]
      congr 1
      omega
    refine ⟨e, hfind, hop, hview e (List.mem_of_getElem? hdrop), ?_⟩
    show (((r.log.entries.drop r.lastBatchEnd).take (r.lastOp - r.lastBatchEnd)).map
      (·.request))[k - (r.lastBatchEnd + 1)]? = _
    rw [List.getElem?_map, List.getElem?_take, if_pos (by omega), hdrop]
    rfl

/-- Every prepare message sent so far carries the batch that the state ends with. -/
def Closing (c : Ctx (Replica σ Op) Node (Msg Op) (Event Op)) : Prop :=
  ∀ p ∈ c.sent, ∀ m, p.msg = .prepare m → Carries c.state m

/-- A leader closes a batch. -/
theorem closeBatch_wp (hc : BatchCtx env.cfg env.myIdx c) (hnormal : c.state.status = .normal)
    (hleader : env.cfg.leader c.state.view = env.myIdx) :
    wp (closeBatch env) (fun _ c' => BatchCtx env.cfg env.myIdx c' ∧
      ((∀ p ∈ c.sent, ∀ m, p.msg ≠ .prepare m) → Closing c')) (fun _ => False) c := by
  have hlen := hc.1.log.length
  have hdrop : c.state.log.entries.drop c.state.lastOp = [] :=
    List.drop_of_length_le (by omega)
  rw [wp, closeBatch_eq hc.1.log (hc.1.leading hnormal hleader).1]
  refine ⟨⟨⟨hc.1.log, fun _ _ => ⟨le_rfl, ?_⟩, (fun h => by cases h), hc.1.collected⟩, ?_⟩, ?_⟩
  · intro e he
    have he : e ∈ c.state.log.entries.drop c.state.lastOp := he
    rw [hdrop] at he
    cases he
  · intro p hp
    rcases List.mem_append.mp hp with hold | hnew
    · exact hc.2 p hold
    · obtain ⟨j, -, rfl⟩ := List.mem_map.mp hnew
      trivial
  · intro hnone p hp m hm
    rcases List.mem_append.mp hp with hold | hnew
    · exact absurd hm (hnone p hold m)
    · obtain ⟨j, -, rfl⟩ := List.mem_map.mp hnew
      rw [← Msg.prepare.inj hm]
      exact batchPrepare_carries hc.1 hnormal hleader

/-- A leader in normal status, which has not sent a prepare message yet. -/
structure LeadCtx (env : Env σ Op) (c : Ctx (Replica σ Op) Node (Msg Op) (Event Op)) : Prop where
  batch : BatchCtx env.cfg env.myIdx c
  leads : c.state.status = .normal ∧ env.cfg.leader c.state.view = env.myIdx
  none : ∀ p ∈ c.sent, ∀ m, p.msg ≠ .prepare m

theorem LeadCtx.update (h : LeadCtx env c) {r : Replica σ Op} (hs : SameBatch c.state r) :
    LeadCtx env { c with state := r } := by
  refine ⟨⟨h.batch.1.same hs, h.batch.2⟩, ?_, h.none⟩
  show r.status = _ ∧ env.cfg.leader r.view = _
  rw [hs.status, hs.view]
  exact h.leads

theorem LeadCtx.closing (h : LeadCtx env c) : Closing c :=
  fun p hp m hm => absurd hm (h.none p hp m)

theorem Closing.update (h : Closing c) {r : Replica σ Op} (hs : SameBatch c.state r) :
    Closing { c with state := r } := by
  intro p hp m hm
  obtain ⟨hview, hop, hstart, hlength, hrequest⟩ := h p hp m hm
  refine ⟨hview.trans hs.view.symm, hop.trans hs.lastOp.symm, ?_, ?_, fun k hk hk' => ?_⟩
  · show m.batchstart ≤ r.lastOp + 1
    rw [hs.lastOp]
    exact hstart
  · show _ = r.lastOp + 1 - _
    rw [hs.lastOp]
    exact hlength
  · show ∃ e : LogEntry Op, r.log.find k = _ ∧ _ ∧ e.view = r.view ∧ _
    rw [hs.log, hs.view]
    exact hrequest k hk (hs.lastOp ▸ hk')

/-- **A request** of which the client table has nothing. -/
theorem takeRequest_wp (h : LeadCtx env c) (remote : Node) (req : Request Op) :
    wp (takeRequest env remote req) (fun _ c' => BatchCtx env.cfg env.myIdx c' ∧ Closing c')
      (fun _ => False) c := by
  rw [takeRequest, updateClientTable, wp_bind, wp_update]
  have h₁ : LeadCtx env { c with state := { c.state with
      clientTable := c.state.clientTable.insert req.clientid
        (if ((c.state.clientTable.lookup req.clientid).getD {}).lastReqId = req.clientreqid then
          (c.state.clientTable.lookup req.clientid).getD {}
        else { lastReqId := req.clientreqid, replied := false, reply := none }) } } :=
    h.update ⟨rfl, rfl, rfl, rfl, rfl, rfl, rfl⟩
  revert h₁
  generalize ({ c with state := _ } : Ctx (Replica σ Op) Node (Msg Op) (Event Op)) = c₁
  intro h₁
  rw [wp_bind, wp_read]
  generalize env.app.leaderUpcall _ _ _ = up
  obtain ⟨⟨replicate, res⟩, app⟩ := up
  show wp (Ctx.update _ >>= fun _ => if replicate = false then _ else _) _ _ c₁
  rw [wp_bind, wp_update]
  have h₂ : LeadCtx env { c₁ with state := { c₁.state with app := app } } :=
    h₁.update ⟨rfl, rfl, rfl, rfl, rfl, rfl, rfl⟩
  cases replicate with
  | false =>
    rw [if_pos rfl, wp_bind, wp_update, sendTo, wp_send]
    refine ⟨⟨h₂.batch.1.same ⟨rfl, rfl, rfl, rfl, rfl, rfl, rfl⟩, fun p hp => ?_⟩,
      fun p hp m hm => ?_⟩
    · rcases List.mem_append.mp hp with hold | hnew
      · exact h₂.batch.2 p hold
      · rw [List.mem_singleton.mp hnew]
        trivial
    · rcases List.mem_append.mp hp with hold | hnew
      · exact absurd hm (h₂.none p hold m)
      · rw [List.mem_singleton.mp hnew] at hm
        cases hm
  | true =>
    rw [if_neg Bool.noConfusion, wp_bind, wp_update, wp_bind, wp_emit]
    have h₃ : ∀ timeout, LeadCtx env { c₁ with
        state := { c₁.state with
          app := app
          lastOp := c₁.state.lastOp + 1
          log := c₁.state.log.append
            { view := c₁.state.view
              opnum := c₁.state.lastOp + 1
              request := ⟨res, req.clientid, req.clientreqid⟩ }
          closeBatchTimeout := timeout }
        events := c₁.events ++ [.proposed
          { view := c₁.state.view
            opnum := c₁.state.lastOp + 1
            request := ⟨res, req.clientid, req.clientreqid⟩ }] } := fun timeout =>
      ⟨⟨h₂.batch.1.propose _ h₂.leads, h₂.batch.2⟩, h₂.leads, h₂.none⟩
    show wp (if _ then closeBatch env >>= fun _ => Ctx.update _
      else Ctx.update _ >>= fun _ => Ctx.update _) _ _ _
    rw [wp_ite]
    constructor
    · intro _
      rw [wp_bind]
      refine wp_mono (fun _ c' hc' => ?_) (fun _ h => h) (closeBatch_wp
        (h₃ c₁.state.closeBatchTimeout).batch (h₃ _).leads.1 (h₃ _).leads.2)
      exact ⟨⟨hc'.1.1.same ⟨rfl, rfl, rfl, rfl, rfl, rfl, rfl⟩, hc'.1.2⟩,
        (hc'.2 (h₃ true).none).update ⟨rfl, rfl, rfl, rfl, rfl, rfl, rfl⟩⟩
    · intro _
      exact ⟨⟨(h₃ true).batch.1.same ⟨rfl, rfl, rfl, rfl, rfl, rfl, rfl⟩, (h₃ true).batch.2⟩,
        (h₃ true).closing.update ⟨rfl, rfl, rfl, rfl, rfl, rfl, rfl⟩⟩

/-- **Requests**: whatever the client table has. -/
theorem handleRequest_wp (hc : BatchCtx env.cfg env.myIdx c)
    (hnone : ∀ p ∈ c.sent, ∀ m, p.msg ≠ .prepare m) (remote : Node) (req : Request Op) :
    wp (handleRequest env remote req) (fun _ c' => BatchCtx env.cfg env.myIdx c' ∧ Closing c')
      (fun _ => False) c := by
  have hclosing : Closing c := fun p hp m hm => absurd hm (hnone p hp m)
  rw [handleRequest, wp_bind, wp_read, wp_when]
  refine ⟨fun hleads => ?_, fun _ => ⟨hc, hclosing⟩⟩
  obtain ⟨hnormal, hleader⟩ := Bool.and_eq_true_iff.mp hleads
  have h : LeadCtx env { c with state := { c.state with
      clientAddresses := c.state.clientAddresses.insert req.clientid remote } } :=
    (LeadCtx.mk hc ⟨of_decide_eq_true hnormal, of_decide_eq_true hleader⟩ hnone).update
      ⟨rfl, rfl, rfl, rfl, rfl, rfl, rfl⟩
  rw [wp_bind, wp_update]
  cases (id c.state).clientTable.lookup req.clientid with
  | none => exact takeRequest_wp h remote req
  | some entry =>
    show wp (if _ then pure () else if _ then _ else takeRequest env remote req) _ _ _
    rw [wp_ite]
    refine ⟨fun _ => ⟨h.batch, h.closing⟩, fun _ => ?_⟩
    rw [wp_ite]
    refine ⟨fun _ => ?_, fun _ => takeRequest_wp h remote req⟩
    -- a request that was answered is answered again
    split
    · rw [sendTo, wp_send]
      refine ⟨⟨h.batch.1, fun p hp => ?_⟩, fun p hp m hm => ?_⟩
      · rcases List.mem_append.mp hp with hold | hnew
        · exact h.batch.2 p hold
        · rw [List.mem_singleton.mp hnew]
          trivial
      · rcases List.mem_append.mp hp with hold | hnew
        · exact absurd hm (h.none p hold m)
        · rw [List.mem_singleton.mp hnew] at hm
          cases hm
    · exact ⟨h.batch, h.closing⟩

/-! ### Followers -/

/-- The invariant of a replica that does not lead. -/
def FollowCtx (env : Env σ Op) (c : Ctx (Replica σ Op) Node (Msg Op) (Event Op)) : Prop :=
  BatchCtx env.cfg env.myIdx c ∧ env.cfg.leader c.state.view ≠ env.myIdx

theorem appendRequests_batch (view : ℕ) (reqs : List (Request Op)) {op : ℕ}
    (hc : FollowCtx env c) (hop : op ≤ c.state.lastOp + 1) :
    wp (appendRequests view op reqs) (fun _ => FollowCtx env) (FollowCtx env) c := by
  induction reqs generalizing c op with
  | nil => exact hc
  | cons req reqs ih =>
    rw [appendRequests, wp_bind, wp_read, wp_bind, wp_when]
    refine ⟨fun hnew => ?_, fun hold => ?_⟩
    · have hlast : op = c.state.lastOp + 1 := by
        have hnot : ¬op ≤ c.state.lastOp := by simpa using hnew
        omega
      have hlen := hc.1.1.log.length
      rw [wp_bind, wp_update, updateClientTable, wp_update]
      refine ih ⟨⟨⟨⟨hc.1.1.log.start_eq, hc.1.1.log.numbered.concat (hlast.trans hlen.symm), ?_⟩,
        fun _ h => absurd h hc.2, fun h => absurd (hc.1.1.closing h).2 hc.2,
        hc.1.1.collected⟩, hc.1.2⟩, hc.2⟩ ?_
      · show 1 + (c.state.log.entries ++ [_]).length = c.state.lastOp + 1 + 1
        rw [List.length_append, List.length_singleton]
        omega
      · show op + 1 ≤ c.state.lastOp + 1 + 1
        omega
    · refine ih hc ?_
      have hle : op ≤ c.state.lastOp := by simpa using hold
      omega

theorem handlePrepare_batch (remote : Node) (msg : Prepare Op) :
    Keeps (BatchCtx env.cfg env.myIdx) (handlePrepare env remote msg) := by
  intro c hc
  rw [handlePrepare, wp_bind, wp_read, wp_ite]
  refine ⟨fun _ => hc, fun _ => ?_⟩
  rw [wp_ite]
  refine ⟨fun _ => hc, fun _ => ?_⟩
  rw [wp_ite]
  refine ⟨fun _ => of_frame (bufferPrepare_frame remote msg) c hc, fun _ => ?_⟩
  rw [wp_ite]
  refine ⟨fun _ => hc, fun hleader => ?_⟩
  have hfollow : env.cfg.leader c.state.view ≠ env.myIdx := fun h => hleader (decide_eq_true h)
  have hc' : BatchCtx env.cfg env.myIdx { c with state := { c.state with
      viewChangeTimeout := true } } := ⟨hc.1.same ⟨rfl, rfl, rfl, rfl, rfl, rfl, rfl⟩, hc.2⟩
  rw [wp_bind, wp_update, wp_ite]
  refine ⟨fun _ => of_frame (sendPrepareOK_frame _ _) _ hc', fun _ => ?_⟩
  rw [wp_ite]
  refine ⟨fun _ => of_frame (bufferPrepare_frame remote msg) _ hc', fun hstart => ?_⟩
  rw [wp_bind]
  exact wp_mono (fun _ c'' hc'' => of_frame (sendPrepareOK_frame _ _) c'' hc''.1) (fun _ h => h.1)
    (appendRequests_batch msg.view msg.request ⟨hc', hfollow⟩ (not_lt.mp hstart))

theorem handlePrepareOK_frame {r : Replica σ Op} (view opnum replicaIdx : ℕ) :
    Keeps (FrameCtx env.cfg r) (handlePrepareOK env view opnum replicaIdx) := by
  refine .bind (.gets _) fun r => .ite (.pure _) (.ite (.pure _) (.ite requestStateTransfer_frame
    (.ite (.pure _) ?_)))
  refine .bind (update_frame fun _ => ⟨rfl, rfl, rfl, rfl, rfl, rfl, rfl⟩) fun _ => .when ?_
  refine .bind (emit_frame _) fun _ => .bind (commitUpTo_frame _) fun _ => .when ?_
  refine .bind (.gets _) fun r => .bind (sendMessageToAll_frame fun _ _ => trivial) fun _ => ?_
  exact update_frame fun _ => ⟨rfl, rfl, rfl, rfl, rfl, rfl, rfl⟩

theorem handleCommit_frame {r : Replica σ Op} (view opnum : ℕ) :
    Keeps (FrameCtx env.cfg r) (handleCommit env view opnum) := by
  refine .bind (.gets _) fun r => .ite (.pure _) (.ite (.pure _) (.ite requestStateTransfer_frame
    (.ite .crash ?_)))
  refine .bind (update_frame fun _ => ⟨rfl, rfl, rfl, rfl, rfl, rfl, rfl⟩) fun _ => ?_
  exact .ite (.pure _) (.ite requestStateTransfer_frame (commitUpTo_frame _))

theorem handleRequestStateTransfer_batch (remote : Node) (view opnum : ℕ) :
    Keeps (BatchCtx env.cfg env.myIdx) (handleRequestStateTransfer env remote view opnum) := by
  intro c hc
  rw [handleRequestStateTransfer, wp_bind, wp_read, wp_ite]
  refine ⟨fun _ => hc, fun _ => ?_⟩
  rw [wp_ite]
  refine ⟨fun _ => of_frame requestStateTransfer_frame c hc, fun _ => ?_⟩
  obtain ⟨a, ha, hpiece, -⟩ := piece_dump hc.1.log (opnum + 1)
  have hpacket : ∀ v k, BatchPacket env.cfg ⟨.replica env.myIdx, remote,
      .stateTransfer ⟨v, k, c.state.log.dump (opnum + 1)⟩⟩ := fun _ _ => ⟨a, ha, hpiece⟩
  exact of_frame (sendTo_frame (hpacket _ _)) c hc

/-! ### View changes -/

theorem collectStartViewChange_batch (replicaIdx lastCommitted : ℕ) :
    Keeps (BatchCtx env.cfg env.myIdx) (collectStartViewChange env replicaIdx lastCommitted) := by
  intro c hc
  have hc' : ∀ q, BatchCtx env.cfg env.myIdx { c with state := { c.state with
      startViewChangeQuorum := q } } := fun q =>
    ⟨hc.1.same ⟨rfl, rfl, rfl, rfl, rfl, rfl, rfl⟩, hc.2⟩
  rw [collectStartViewChange, wp_bind, wp_read, wp_bind, wp_update, wp_when]
  refine ⟨fun _ => ?_, fun _ => hc' _⟩
  rw [wp_when]
  refine ⟨fun _ => ?_, fun _ => hc' _⟩
  rw [wp_bind, wp_emit]
  have hpacket : ∀ v committed first, BatchPacket env.cfg ⟨.replica env.myIdx,
      .replica (env.cfg.leader c.state.view), .doViewChange ⟨c.state.view, v, c.state.lastOp,
        committed, c.state.log.dump first, env.myIdx⟩⟩ := fun _ _ _ =>
    ⟨rfl, piece_dump hc.1.log _⟩
  exact of_frame (sendTo_frame (hpacket _ _ _)) _ ⟨(hc' _).1, hc.2⟩

theorem handleStartViewChange_batch (view replicaIdx lastCommitted : ℕ) :
    Keeps (BatchCtx env.cfg env.myIdx)
      (handleStartViewChange env view replicaIdx lastCommitted) := by
  refine .bind (.gets _) fun r => .ite (.pure _) (.ite (.pure _) ?_)
  refine .bind (.when (startViewChange_batch _)) fun _ => ?_
  exact collectStartViewChange_batch _ _

theorem handleTimer_batch (t : ReplicaTimer) :
    Keeps (BatchCtx env.cfg env.myIdx) (handleTimer env t) := by
  cases t with
  | viewChange => exact .bind (.gets _) fun r => .when (startViewChange_batch _)
  | nullCommit =>
    refine .bind (.gets _) fun r => .when (.bind (.gets _) fun r => ?_)
    exact of_frame (sendMessageToAll_frame fun _ _ => trivial)
  | stateTransfer =>
    exact fun c hc => ⟨hc.1.same ⟨rfl, rfl, rfl, rfl, rfl, rfl, rfl⟩, hc.2⟩
  | resendPrepare =>
    refine .bind (.gets _) fun r => .when (.bind (.gets _) fun r => .when ?_)
    exact of_frame (sendMessageToAll_frame fun _ _ => trivial)
  | closeBatch =>
    intro c hc
    rw [handleTimer, wp_bind, wp_read, wp_when]
    refine ⟨fun hrunning => ?_, fun _ => hc⟩
    obtain ⟨hnormal, hleader⟩ := hc.1.closing hrunning
    exact wp_mono (fun _ _ h => h.1) (fun _ h => h.elim) (closeBatch_wp hc hnormal hleader)

/-! ### State transfer -/

/-- The entries of a transfer that are not executed yet. -/
def notExecuted (r : Replica σ Op) (es : List (LogEntry Op)) : List (LogEntry Op) :=
  es.dropWhile fun e => e.opnum ≤ r.lastCommitted

/-- The entry is in the log with its view. -/
def knows (r : Replica σ Op) (e : LogEntry Op) : Bool :=
  (r.log.find e.opnum).any fun old => old.view = e.view

/-- The entries from the first one on that is not in the log with its view. -/
def differing (r : Replica σ Op) (es : List (LogEntry Op)) : List (LogEntry Op) :=
  es.dropWhile r.knows

/-- The log goes on with the entries. -/
def extend (r : Replica σ Op) (es : List (LogEntry Op)) : Replica σ Op :=
  { r with
    lastOp := r.lastOp + es.length
    log := { r.log with entries := r.log.entries ++ es } }

/-- The log goes on with the entries after what comes before them. -/
def takeOver (r : Replica σ Op) : List (LogEntry Op) → Replica σ Op
  | [] => r
  | e :: es =>
      extend { r with
        lastOp := e.opnum - 1
        log := { r.log with entries := r.log.entries.take (e.opnum - 1) } } (e :: es)

theorem extend_nil (r : Replica σ Op) : extend r [] = r := by
  rw [extend, List.append_nil]
  rfl

theorem extend_cons (r : Replica σ Op) (e : LogEntry Op) (es : List (LogEntry Op)) :
    extend (extend r [e]) es = extend r (e :: es) := by
  simp only [extend, List.append_assoc, List.singleton_append, List.length_cons, List.length_nil,
    Nat.zero_add, Nat.add_assoc, Nat.add_comm 1]

/-- At the end of the log nothing is cut off. -/
theorem takeOver_end {r : Replica σ Op} (hlog : r.log.Spans 1 r.lastOp) {e : LogEntry Op}
    (he : e.opnum = r.lastOp + 1) (es : List (LogEntry Op)) :
    takeOver r (e :: es) = extend r (e :: es) := by
  have hlen := hlog.length
  rw [takeOver, he, Nat.add_sub_cancel, List.take_of_length_le (by omega)]

/-- Entries after the end of the log are appended. -/
theorem transferEntries_extend {es : List (LogEntry Op)} (oldLastOp : ℕ)
    (hes : Log.Numbered (c.state.lastOp + 1) es) (hnew : c.state.lastCommitted ≤ c.state.lastOp) :
    wp (transferEntries oldLastOp es) (fun _ c' => c' = { c with state := extend c.state es })
      (fun _ => False) c := by
  induction es generalizing c with
  | nil =>
    rw [extend_nil]
    exact rfl
  | cons e es ih =>
    have hop : e.opnum = c.state.lastOp + 1 := hes 0 e rfl
    rw [transferEntries, wp_bind, wp_read, wp_ite]
    refine ⟨fun h => ?_, fun _ => ?_⟩
    · have h : e.opnum ≤ c.state.lastCommitted := h
      omega
    rw [wp_ite]
    refine ⟨fun h => ?_, fun _ => ?_⟩
    · have h : e.opnum ≤ c.state.lastOp := h
      omega
    rw [wp_bind, wp_update, ← extend_cons]
    refine ih (c := { c with state := extend c.state [e] }) (fun k e' he' => ?_) ?_
    · rw [hes (k + 1) e' he']
      show _ = c.state.lastOp + 1 + 1 + k
      omega
    · show c.state.lastCommitted ≤ c.state.lastOp + 1
      omega

/-- Entries in the log are replaced from the first one of another view on. -/
theorem transferEntries_differing {es : List (LogEntry Op)} {a : ℕ} (oldLastOp : ℕ)
    (hlog : c.state.log.Spans 1 c.state.lastOp) (ha : 1 ≤ a) (hes : Log.Numbered a es)
    (hgap : a ≤ c.state.lastOp + 1) (hnew : c.state.lastCommitted < a) :
    wp (transferEntries oldLastOp es)
      (fun _ c' => c' = { c with state := takeOver c.state (differing c.state es) })
      (fun _ => False) c := by
  induction es generalizing a with
  | nil => exact rfl
  | cons e es ih =>
    have hop : e.opnum = a := hes 0 e rfl
    have hrest : Log.Numbered (a + 1) es := fun k e' he' => by
      rw [hes (k + 1) e' he']
      omega
    by_cases hin : a ≤ c.state.lastOp
    · obtain ⟨old, hfind, -, -⟩ := hlog.find ha hin
      rw [transferEntries, wp_bind, wp_read, wp_ite]
      refine ⟨fun h => ?_, fun _ => ?_⟩
      · have h : e.opnum ≤ c.state.lastCommitted := h
        omega
      rw [wp_ite]
      refine ⟨fun _ => ?_, fun h => ?_⟩
      · rw [wp_bind]
        show wp (deref (c.state.log.find e.opnum)) _ _ _
        rw [hop, hfind, wp_deref_some, wp_ite]
        refine ⟨fun hview => ?_, fun hview => ?_⟩
        · have hsame : c.state.knows e = true := by
            rw [knows, hop, hfind]
            exact decide_eq_true hview
          rw [differing, List.dropWhile_cons_of_pos hsame]
          exact ih (by omega) hrest (by omega) (by omega)
        · have hother : ¬c.state.knows e = true := by
            rw [knows, hop, hfind]
            exact fun h => hview (of_decide_eq_true h)
          have hstate : { c.state with
              lastOp := a
              log := (c.state.log.removeAfter a).append e } = extend { c.state with
                lastOp := e.opnum - 1
                log := { c.state.log with entries := c.state.log.entries.take (e.opnum - 1) } }
                [e] := by
            rw [hlog.removeAfter_eq Nat.one_pos ha, hop, extend, List.length_singleton,
              Nat.sub_add_cancel ha]
            rfl
          rw [differing, List.dropWhile_cons_of_neg hother, wp_bind, wp_update, hstate, takeOver,
            ← extend_cons]
          refine transferEntries_extend a (fun k e' he' => ?_) ?_
          · rw [hrest k e' he']
            show _ = e.opnum - 1 + 1 + 1 + k
            omega
          · show c.state.lastCommitted ≤ e.opnum - 1 + 1
            omega
      · have h : ¬e.opnum ≤ c.state.lastOp := h
        omega
    · have hend : e.opnum = c.state.lastOp + 1 := by omega
      have hnone : ¬c.state.knows e = true := by
        have hlen := hlog.length
        rw [knows, hend, Log.find_eq (by rw [hlog.start_eq]; omega), hlog.start_eq,
          List.getElem?_eq_none (by omega)]
        exact Bool.noConfusion
      rw [differing, List.dropWhile_cons_of_neg hnone, takeOver_end hlog hend]
      exact transferEntries_extend oldLastOp (hend ▸ hop ▸ hes) (by omega)

/-- The entries that a transfer takes over. -/
def takenOver (r : Replica σ Op) (es : List (LogEntry Op)) : List (LogEntry Op) :=
  differing r (notExecuted r es)

/-- **A transfer** that leaves no gap. -/
theorem transferEntries_wp {es : List (LogEntry Op)} {a : ℕ} (oldLastOp : ℕ)
    (hlog : c.state.log.Spans 1 c.state.lastOp) (ha : 1 ≤ a) (hes : Log.Numbered a es)
    (hgap : ∀ e ∈ (notExecuted c.state es).head?, e.opnum ≤ c.state.lastOp + 1) :
    wp (transferEntries oldLastOp es)
      (fun _ c' => c' = { c with state := takeOver c.state (takenOver c.state es) })
      (fun _ => False) c := by
  induction es generalizing a with
  | nil => exact rfl
  | cons e es ih =>
    have hop : e.opnum = a := hes 0 e rfl
    by_cases hold : e.opnum ≤ c.state.lastCommitted
    · have hdrop : notExecuted c.state (e :: es) = notExecuted c.state es :=
        List.dropWhile_cons_of_pos (decide_eq_true hold)
      rw [hdrop] at hgap
      rw [takenOver, hdrop, transferEntries, wp_bind, wp_read, wp_ite]
      exact ⟨fun _ => ih (Nat.le_add_left 1 a) (hes.drop 1) hgap, fun h => absurd hold h⟩
    · have hkeep : notExecuted c.state (e :: es) = e :: es :=
        List.dropWhile_cons_of_neg fun h => hold (of_decide_eq_true h)
      rw [hkeep] at hgap
      rw [takenOver, hkeep]
      exact transferEntries_differing oldLastOp hlog ha hes (hop ▸ hgap e rfl)
        (hop ▸ not_le.mp hold)

/-- The log stays contiguous. -/
theorem takeOver_spans {r : Replica σ Op} (hlog : r.log.Spans 1 r.lastOp)
    {es : List (LogEntry Op)} {a : ℕ} (ha : 1 ≤ a) (hes : Log.Numbered a es)
    (hgap : ∀ e ∈ es.head?, e.opnum ≤ r.lastOp + 1) :
    (takeOver r es).log.Spans 1 (takeOver r es).lastOp := by
  cases es with
  | nil => exact hlog
  | cons e es =>
    have hlen := hlog.length
    have hop : e.opnum = a := hes 0 e rfl
    have hle := hgap e rfl
    have htake : (r.log.entries.take (e.opnum - 1)).length = e.opnum - 1 :=
      List.length_take_of_le (by omega)
    refine ⟨hlog.start_eq, (hlog.numbered.take _).append ?_, ?_⟩
    · have hstart : 1 + (r.log.entries.take (e.opnum - 1)).length = a := by omega
      rw [hstart]
      exact hes
    · show 1 + (r.log.entries.take (e.opnum - 1) ++ (e :: es)).length =
        e.opnum - 1 + (e :: es).length + 1
      rw [List.length_append, htake]
      omega

/-- **A transfer that fits.** It begins in the log or right after it; and what a leader takes over
in its own view goes as far as its last batch, and is of the view from there on. -/
structure Fits (env : Env σ Op) (r : Replica σ Op) (m : StateTransfer Op) : Prop where
  gap : ∀ e ∈ (notExecuted r m.entries).head?, e.opnum ≤ r.lastOp + 1
  leading : m.view = r.view → r.status = .normal → env.cfg.leader r.view = env.myIdx →
    (∀ e ∈ (takenOver r m.entries).getLast?, r.lastBatchEnd ≤ e.opnum) ∧
    ∀ e ∈ takenOver r m.entries, r.lastBatchEnd < e.opnum → e.view = r.view

/-- What is not known yet begins no later than right after the log, if the rest does. -/
theorem differing_gap {r : Replica σ Op} (hlog : r.log.Spans 1 r.lastOp)
    {es : List (LogEntry Op)} {a : ℕ} (ha : 1 ≤ a) (hes : Log.Numbered a es)
    (hgap : ∀ e ∈ es.head?, e.opnum ≤ r.lastOp + 1) :
    ∀ e ∈ (differing r es).head?, e.opnum ≤ r.lastOp + 1 := by
  induction es generalizing a with
  | nil => exact hgap
  | cons e es ih =>
    by_cases hknown : r.knows e = true
    · rw [differing, List.dropWhile_cons_of_pos hknown]
      refine ih (Nat.le_add_left 1 a) (hes.drop 1) fun e' he' => ?_
      have hlen := hlog.length
      have hop : e.opnum = a := hes 0 e rfl
      have hop' : e'.opnum = a + 1 + 0 :=
        hes.drop 1 0 e' (by rw [← List.head?_eq_getElem?]; exact he')
      rw [knows, Log.find_eq (by rw [hlog.start_eq]; omega), hlog.start_eq] at hknown
      have hlt : e.opnum - 1 < r.log.entries.length := by
        by_contra hnot
        rw [List.getElem?_eq_none (not_lt.mp hnot)] at hknown
        cases hknown
      omega
    · rw [differing, List.dropWhile_cons_of_neg hknown]
      exact hgap

/-- A leader goes on with its batch. -/
theorem Fits.batched {r : Replica σ Op} {m : StateTransfer Op} (hr : Batched env.cfg env.myIdx r)
    {a : ℕ} (ha : 1 ≤ a) (hes : Log.Numbered a (takenOver r m.entries))
    (hlog : (takeOver r (takenOver r m.entries)).log.Spans 1
      (takeOver r (takenOver r m.entries)).lastOp)
    (hfits : Fits env r m) (hview : m.view = r.view) :
    Batched env.cfg env.myIdx (takeOver r (takenOver r m.entries)) := by
  cases htaken : takenOver r m.entries with
  | nil => exact hr
  | cons e es =>
    rw [htaken] at hes hlog
    refine ⟨hlog, fun hnormal hleader => ?_, hr.closing, hr.collected⟩
    have hnormal : r.status = .normal := hnormal
    have hleader : env.cfg.leader r.view = env.myIdx := hleader
    obtain ⟨hreaches, hviews⟩ := hfits.leading hview hnormal hleader
    rw [htaken] at hreaches hviews
    have hop : e.opnum = a := hes 0 e rfl
    obtain ⟨hle, hbatch⟩ := hr.leading hnormal hleader
    refine ⟨?_, fun x hx => ?_⟩
    · show r.lastBatchEnd ≤ e.opnum - 1 + (es.length + 1)
      obtain ⟨last, hlast⟩ : ∃ last, (e :: es).getLast? = some last :=
        ⟨_, List.getLast?_eq_some_getLast (List.cons_ne_nil e es)⟩
      have hnumber : last.opnum = a + es.length := by
        rw [List.getLast?_eq_getElem?] at hlast
        exact hes es.length last hlast
      have := hreaches last hlast
      omega
    · have hx : x ∈ (r.log.entries.take (e.opnum - 1) ++ (e :: es)).drop r.lastBatchEnd := hx
      obtain ⟨k, hk⟩ := List.mem_iff_getElem?.mp hx
      rw [List.getElem?_drop, List.getElem?_append, List.getElem?_take] at hk
      split_ifs at hk with hin hold
      · -- an entry that was in the batch before
        refine hbatch x (List.mem_of_getElem? (i := k) ?_)
        rw [List.getElem?_drop]
        exact hk
      · have hnumber := hes _ x hk
        have hlen := hlog.length
        have htake : (r.log.entries.take (e.opnum - 1)).length ≤ e.opnum - 1 := by
          rw [List.length_take]
          omega
        exact hviews x (List.mem_of_getElem? hk) (by omega)

theorem handleStateTransfer_wp {m : StateTransfer Op} (hc : BatchCtx env.cfg env.myIdx c)
    (hpacket : ∃ a, 1 ≤ a ∧ Log.Numbered a m.entries)
    (hfits : c.state.view ≤ m.view → Fits env c.state m) :
    wp (handleStateTransfer env m) (fun _ => BatchCtx env.cfg env.myIdx)
      (BatchCtx env.cfg env.myIdx) c := by
  rw [handleStateTransfer, wp_bind, wp_read, wp_when]
  refine ⟨fun hnew => ?_, fun _ => hc⟩
  have hle : c.state.view ≤ m.view := by simpa using hnew
  obtain ⟨a, ha, hes⟩ := hpacket
  have hf := hfits hle
  obtain ⟨b, hb, hnot, -⟩ := hes.dropWhile fun e => e.opnum ≤ c.state.lastCommitted
  obtain ⟨d, hd, htaken, -⟩ := hnot.dropWhile c.state.knows
  have hspans := takeOver_spans hc.1.log (by omega) htaken
    (differing_gap hc.1.log (by omega) hnot hf.gap)
  rw [wp_bind]
  refine wp_mono ?_ (fun _ h => h.elim) (transferEntries_wp _ hc.1.log ha hes hf.gap)
  rintro oldLastOp _ rfl
  rw [wp_bind]
  have htail : ∀ c' : Ctx (Replica σ Op) Node (Msg Op) (Event Op),
      BatchCtx env.cfg env.myIdx c' →
      wp (commitUpTo env m.opnum >>= fun _ => sendPrepareOKs env oldLastOp >>= fun _ =>
        Ctx.update fun r => { r with pendingPrepares := [] })
        (fun _ => BatchCtx env.cfg env.myIdx) (BatchCtx env.cfg env.myIdx) c' :=
    of_frame (.bind (commitUpTo_frame _) fun _ => .bind (sendPrepareOKs_frame _) fun _ =>
      update_frame fun _ => ⟨rfl, rfl, rfl, rfl, rfl, rfl, rfl⟩)
  rw [wp_when]
  refine ⟨fun _ => ?_, fun hsame => ?_⟩
  · exact wp_mono (fun _ c' h => htail c' h.1) (fun _ h => h.elim)
      (@enterView_wp _ _ env { c with state := takeOver c.state (takenOver c.state m.entries) }
        hspans hc.2 m.view)
  · have hview : m.view = c.state.view := by
      have hge : ¬c.state.view < m.view := by simpa using hsame
      omega
    exact htail _ ⟨hf.batched hc.1 (by omega) htaken hspans hview, hc.2⟩

/-! ### The log of a view change -/

/-- The log of a view change message is installed. -/
def installed (r : Replica σ Op) (lastOp : ℕ) : List (LogEntry Op) → Log Op
  | [] => r.log
  | e :: es => (r.log.removeAfter (lastOp + 1)).install (e :: es)

theorem installLog_wp (lastOp : ℕ) (es : List (LogEntry Op)) :
    wp (installLog lastOp es)
      (fun _ c' => c' = { c with state := { c.state with log := installed c.state lastOp es } })
      (fun c' => c' = c) c := by
  cases es with
  | nil => exact rfl
  | cons e es =>
    rw [installLog, wp_bind, wp_read]
    show wp (if _ then crash else Ctx.update _) _ _ _
    rw [wp_ite]
    exact ⟨fun _ => rfl, fun _ => rfl⟩

/-- **A log that is connected**: it ends where the message does, if that has no entries, and
otherwise no earlier than these begin. -/
def Joins (r : Replica σ Op) (lastOp : ℕ) (es : List (LogEntry Op)) : Prop :=
  if es = [] then r.lastOp = lastOp else lastOp ≤ r.lastOp + es.length

/-- The log that was installed ends with the message. -/
theorem installed_spans {r : Replica σ Op} (hlog : r.log.Spans 1 r.lastOp) {lastOp : ℕ}
    {es : List (LogEntry Op)} (hes : Piece es lastOp) (hjoins : Joins r lastOp es) :
    (installed r lastOp es).Spans 1 lastOp := by
  obtain ⟨a, ha, hnumbered, hlen⟩ := hes
  cases es with
  | nil =>
    rw [Joins, if_pos rfl] at hjoins
    exact hjoins ▸ hlog
  | cons e es =>
    rw [Joins, if_neg (List.cons_ne_nil e es)] at hjoins
    have hcut := hlog.removeAfter Nat.one_pos (Nat.le_add_left 1 lastOp)
    have hinstall := hcut.install Nat.one_pos ha hnumbered (by omega) (by omega)
    have hend : a + (e :: es).length - 1 = lastOp := by omega
    rw [hend] at hinstall
    exact hinstall

/-- A message of a view change is looked at. -/
def Accepts (r : Replica σ Op) (view : ℕ) : Prop :=
  r.view < view ∨ r.view = view ∧ r.status = .viewChange

theorem accepts_of_not {r : Replica σ Op} {view : ℕ} (hold : ¬view < r.view)
    (hsame : ¬(view = r.view ∧ r.status ≠ .viewChange)) : Accepts r view := by
  by_cases heq : view = r.view
  · refine .inr ⟨heq.symm, ?_⟩
    by_contra hstatus
    exact hsame ⟨heq, hstatus⟩
  · exact .inl (by omega)

theorem handleStartView_wp {m : StartView Op} (hc : BatchCtx env.cfg env.myIdx c)
    (hpiece : Piece m.entries m.lastOp) (hother : env.cfg.leader m.view ≠ env.myIdx)
    (hjoins : Accepts c.state m.view → Joins c.state m.lastOp m.entries) :
    wp (handleStartView env m) (fun _ => BatchCtx env.cfg env.myIdx)
      (BatchCtx env.cfg env.myIdx) c := by
  rw [handleStartView, wp_bind, wp_read, wp_ite]
  refine ⟨fun _ => hc, fun hold => ?_⟩
  rw [wp_ite]
  refine ⟨fun _ => hc, fun hsame => ?_⟩
  have hspans := installed_spans hc.1.log hpiece (hjoins (accepts_of_not hold hsame))
  rw [wp_bind]
  refine wp_mono ?_ (fun c' h => ?_) (installLog_wp m.lastOp m.entries)
  · rintro - _ rfl
    simp only [enterView, wp_bind, wp_update, wp_read, wp_ite, id]
    refine ⟨fun hleader => absurd (of_decide_eq_true hleader) hother, fun _ => ?_⟩
    refine wp_mono (fun _ c' h => of_frame (sendPrepareOKs_frame _) c' h) (fun _ h => h)
      (of_frame (commitUpTo_frame _) _ ⟨?_, hc.2⟩)
    refine ⟨hspans, fun _ h => absurd h hother, (fun h => by cases h), fun u j x hx => ?_⟩
    cases hx
  · rw [h]
    exact hc

/-! ### The choice of a log -/

/-- The log chosen is the own one or that of a message. -/
theorem latestLog_cases (log : Log Op) (msgs : List (DoViewChange Op)) :
    latestLog log msgs = (log.lastViewstamp, none) ∨
      ∃ x ∈ msgs, latestLog log msgs = ((x.lastNormalView, x.lastOp), some x) := by
  rw [latestLog]
  induction msgs using List.reverseRecOn with
  | nil => exact .inl rfl
  | append_singleton msgs x ih =>
    rw [List.foldl_concat]
    split_ifs with hlater
    · exact .inr ⟨x, List.mem_append_right _ (List.mem_singleton_self x), rfl⟩
    · rcases ih with hown | ⟨y, hy, heq⟩
      · exact .inl hown
      · exact .inr ⟨y, List.mem_append_left _ hy, heq⟩

/-- The messages for a view that are there with the one that has arrived. -/
def votes (r : Replica σ Op) (m : DoViewChange Op) : Table ℕ (DoViewChange Op) :=
  (r.doViewChangeQuorum.add m.view m.replicaIdx m).getMessages m.view

/-- **A view change in place.** If it completes, the log that is chosen ends where that of the new
leader does. -/
def InPlace (env : Env σ Op) (r : Replica σ Op) (m : DoViewChange Op) : Prop :=
  env.cfg.quorumSize - 1 ≤ (votes r m).size →
    (latestLog r.log (byReplica env.cfg (votes r m))).1.2 = r.lastOp

/-- **The chosen message is read.** If the view change completes, `latestMsg` still points to it. -/
def ReadsChosen (env : Env σ Op) (stray : Stray Op) (r : Replica σ Op) (m : DoViewChange Op) :
    Prop :=
  env.cfg.quorumSize - 1 ≤ (votes r m).size →
    ∀ x ∈ (latestLog r.log (byReplica env.cfg (votes r m))).2, stray.latestMsg x = some x

theorem pointedTo_eq {stray : Stray Op} {chosen : Option (DoViewChange Op)}
    (h : ∀ x ∈ chosen, stray.latestMsg x = some x) :
    (pointedTo stray chosen : M σ Op (Option (DoViewChange Op))) = pure chosen := by
  cases chosen with
  | none => rfl
  | some x =>
    rw [pointedTo, h x rfl]
    rfl

theorem mem_byReplica {α : Type} {cfg : Config} {msgs : Table ℕ α} {x : α}
    (h : x ∈ byReplica cfg msgs) : ∃ j, msgs.lookup j = some x := by
  obtain ⟨j, -, hj⟩ := List.mem_filterMap.mp h
  exact ⟨j, hj⟩

/-- The view is started with a log that ends where that of the leader did. -/
theorem start_wp (hlog : c.state.log.Spans 1 c.state.lastOp)
    (hsent : ∀ p ∈ c.sent, BatchPacket env.cfg p) {view latest : ℕ}
    (hleader : env.cfg.leader view = env.myIdx) (hlast : latest = c.state.lastOp) (e : Event Op)
    {tail : M σ Op Unit} (htail : ∀ c', BatchCtx env.cfg env.myIdx c' →
      env.cfg.leader c'.state.view = env.myIdx →
      wp tail (fun _ => BatchCtx env.cfg env.myIdx) (BatchCtx env.cfg env.myIdx) c') :
    wp (emit e >>= fun _ => enterView env view >>= fun _ =>
      Ctx.update (fun r => { r with lastOp := latest }) >>= fun _ =>
      Ctx.read (·.log.entries) >>= fun l => emit (.started view l) >>= fun _ => tail)
      (fun _ => BatchCtx env.cfg env.myIdx) (BatchCtx env.cfg env.myIdx) c := by
  rw [wp_bind, wp_emit, wp_bind]
  refine wp_mono ?_ (fun _ h => h.elim)
    (@enterView_wp _ _ env { c with events := c.events ++ [e] } hlog hsent view)
  rintro _ c' ⟨hc', hop, hview⟩
  rw [wp_bind, wp_update, wp_bind, wp_read, wp_bind, wp_emit]
  refine htail _ ⟨hc'.1.same ⟨rfl, hlast.trans hop.symm, rfl, rfl, rfl, rfl, rfl⟩, hc'.2⟩ ?_
  show env.cfg.leader c'.state.view = _
  rw [hview]
  exact hleader

/-- The leader announces the view. -/
theorem announce_wp (hc : BatchCtx env.cfg env.myIdx c)
    (hleader : env.cfg.leader c.state.view = env.myIdx) (first : ℕ) :
    wp (Ctx.read id >>= fun r => sendMessageToAll env (.startView
      { view := r.view
        lastOp := r.lastOp
        lastCommitted := r.lastCommitted
        entries := r.log.dump first })) (fun _ => BatchCtx env.cfg env.myIdx)
      (BatchCtx env.cfg env.myIdx) c := by
  rw [wp_bind, wp_read]
  have hpacket : ∀ committed j, j ≠ env.myIdx → BatchPacket env.cfg ⟨.replica env.myIdx,
      .replica j, .startView ⟨c.state.view, c.state.lastOp, committed, c.state.log.dump first⟩⟩ :=
    fun _ j hj => ⟨fun heq => hj ((Ir.Node.replica.inj heq).trans hleader),
      piece_dump hc.1.log first⟩
  exact of_frame (sendMessageToAll_frame (hpacket _)) c hc

theorem collectDoViewChange_wp {m : DoViewChange Op} (hc : BatchCtx env.cfg env.myIdx c)
    (hpiece : Piece m.entries m.lastOp) (hleader : env.cfg.leader m.view = env.myIdx)
    (hplace : InPlace env c.state m) {stray : Stray Op} (hreads : ReadsChosen env stray c.state m) :
    wp (collectDoViewChange env stray m) (fun _ => BatchCtx env.cfg env.myIdx)
      (BatchCtx env.cfg env.myIdx) c := by
  have hcollected : ∀ j x, (votes c.state m).lookup j = some x →
      Piece x.entries x.lastOp := by
    intro j x hx
    rw [votes, D2PC.Ir.QuorumSet.getMessages_add, if_pos rfl, Table.lookup_insert_eq] at hx
    split_ifs at hx with hj
    · rw [← Option.some.inj hx]
      exact hpiece
    · exact hc.1.collected _ j x hx
  have hr : Batched env.cfg env.myIdx { c.state with
      doViewChangeQuorum := c.state.doViewChangeQuorum.add m.view m.replicaIdx m } := by
    refine ⟨hc.1.log, hc.1.leading, hc.1.closing, fun u j x hx => ?_⟩
    have hx : ((c.state.doViewChangeQuorum.add m.view m.replicaIdx m).getMessages u).lookup j =
      some x := hx
    by_cases hu : u = m.view
    · rw [hu] at hx
      exact hcollected j x hx
    · rw [D2PC.Ir.QuorumSet.getMessages_add, if_neg hu] at hx
      exact hc.1.collected u j x hx
  rw [collectDoViewChange, wp_bind, wp_read, wp_bind, wp_update, wp_when]
  refine ⟨fun hquorum => ?_, fun _ => ⟨hr, hc.2⟩⟩
  have hlast : (latestLog c.state.log (byReplica env.cfg (votes c.state m))).1.2 =
    c.state.lastOp := hplace (of_decide_eq_true hquorum)
  have hreads := hreads (of_decide_eq_true hquorum)
  rcases latestLog_cases c.state.log (byReplica env.cfg (votes c.state m)) with
    hown | ⟨x, hx, heq⟩
  · rw [hown] at hlast hreads
    rw [votes] at hown
    rw [id, hown]
    show wp (pointedTo stray none >>= _) _ _ _
    rw [pointedTo_eq hreads]
    exact start_wp hc.1.log hc.2 hleader hlast _ fun c' hc' hleader' => announce_wp hc' hleader' _
  · rw [heq] at hlast hreads
    rw [votes] at heq
    rw [id, heq]
    show wp (pointedTo stray (some x) >>= _) _ _ _
    rw [pointedTo_eq hreads]
    obtain ⟨j, hj⟩ := mem_byReplica hx
    have hlast : x.lastOp = c.state.lastOp := hlast
    have hjoins : Joins c.state x.lastOp x.entries := by
      rw [Joins]
      split_ifs
      · exact hlast.symm
      · omega
    have hspans := installed_spans hc.1.log (hcollected j x hj) hjoins
    rw [hlast] at hspans
    show wp (installLog x.lastOp x.entries >>= _) _ _ _
    rw [wp_bind]
    refine wp_mono ?_ (fun c' h => ?_) (installLog_wp x.lastOp x.entries)
    · rintro - _ rfl
      refine @start_wp _ _ env { c with state := { c.state with
        doViewChangeQuorum := c.state.doViewChangeQuorum.add m.view m.replicaIdx m
        log := installed c.state x.lastOp x.entries } } (hlast.symm ▸ hspans) hc.2 m.view _ hleader
        hlast _ _ fun c' hc' hleader' => ?_
      show wp (commitUpTo env x.lastCommitted >>= _) _ _ _
      rw [wp_bind]
      refine wp_mono (fun _ c'' h => ?_) (fun _ h => ⟨hc'.1.same h.1, h.2⟩)
        (commitUpTo_frame x.lastCommitted c' ⟨SameBatch.refl c'.state, hc'.2⟩)
      exact announce_wp ⟨hc'.1.same h.1, h.2⟩ (h.1.view.symm ▸ hleader') _
    · rw [h]
      exact ⟨hr, hc.2⟩

theorem handleDoViewChange_wp {m : DoViewChange Op} (hc : BatchCtx env.cfg env.myIdx c)
    (hpiece : Piece m.entries m.lastOp) (hleader : env.cfg.leader m.view = env.myIdx)
    {stray : Stray Op} (hplace : Accepts c.state m.view →
      InPlace env c.state m ∧ ReadsChosen env stray c.state m) :
    wp (handleDoViewChange env stray m) (fun _ => BatchCtx env.cfg env.myIdx)
      (BatchCtx env.cfg env.myIdx) c := by
  rw [handleDoViewChange, wp_bind, wp_read, wp_ite]
  refine ⟨fun _ => hc, fun hold => ?_⟩
  rw [wp_ite]
  refine ⟨fun _ => hc, fun hsame => ?_⟩
  obtain ⟨hp, hreads⟩ := hplace (accepts_of_not hold hsame)
  rw [wp_bind, wp_when]
  refine ⟨fun _ => ?_, fun _ => collectDoViewChange_wp hc hpiece hleader hp hreads⟩
  have hkept := startViewChange_batch m.view c hc
  simp only [startViewChange, sendMessageToAll, wp_bind, wp_update, wp_read, wp_send] at hkept ⊢
  exact collectDoViewChange_wp hkept hpiece hleader hp hreads

end Handlers

end Replica

/-! ### Runs -/

open Vr.Replica

variable {dep : Deployment σ Op}

/-- **The steps in which the numbers stay in place.** A view change completes with a log as long as
that of its new leader, which is read from the message it was chosen for; the log of a view that
starts is connected to that of the replica; and so is a transfer, which leaves the batch of a leader
as it is. -/
def Matched (dep : Deployment σ Op) (w : GlobalState σ Op) (n : Node) (stray : Stray Op)
    (input : Input Node (Msg Op) (Act Op)) : Prop :=
  match n, input with
  | .replica i, .recv p =>
      let r : Replica σ Op := w.state (.replica i)
      match p.msg with
      | .doViewChange m =>
          Accepts r m.view → InPlace (dep.env i) r m ∧ ReadsChosen (dep.env i) stray r m
      | .startView m => Accepts r m.view → Joins r m.lastOp m.entries
      | .stateTransfer m => r.view ≤ m.view → Fits (dep.env i) r m
      | _ => True
  | _, _ => True

instance {r : Replica σ Op} {view : ℕ} : Decidable (Accepts r view) :=
  inferInstanceAs (Decidable (_ ∨ _ ∧ _))

instance {env : Env σ Op} {r : Replica σ Op} {m : DoViewChange Op} : Decidable (InPlace env r m) :=
  inferInstanceAs (Decidable (_ → _))

instance [DecidableEq Op] {env : Env σ Op} {stray : Stray Op} {r : Replica σ Op}
    {m : DoViewChange Op} : Decidable (ReadsChosen env stray r m) :=
  inferInstanceAs (Decidable (_ → ∀ _ ∈ _, _))

instance {r : Replica σ Op} {lastOp : ℕ} {es : List (LogEntry Op)} :
    Decidable (Joins r lastOp es) :=
  inferInstanceAs (Decidable (if es = [] then _ else _))

instance {env : Env σ Op} {r : Replica σ Op} {m : StateTransfer Op} : Decidable (Fits env r m) :=
  decidable_of_iff ((∀ e ∈ (notExecuted r m.entries).head?, e.opnum ≤ r.lastOp + 1) ∧
    (m.view = r.view → r.status = .normal → env.cfg.leader r.view = env.myIdx →
      (∀ e ∈ (takenOver r m.entries).getLast?, r.lastBatchEnd ≤ e.opnum) ∧
      ∀ e ∈ takenOver r m.entries, r.lastBatchEnd < e.opnum → e.view = r.view))
    ⟨fun h => ⟨h.1, h.2⟩, fun h => ⟨h.1, h.2⟩⟩

instance [DecidableEq Op] (w : GlobalState σ Op) (n : Node) (ω : Stray Op)
    (input : Input Node (Msg Op) (Act Op)) : Decidable (Matched dep w n ω input) :=
  match n, input with
  | .client _, _ => .isTrue trivial
  | .replica _, .act _ => .isTrue trivial
  | .replica i, .recv ⟨_, _, msg⟩ =>
    match msg with
    | .doViewChange m => inferInstanceAs (Decidable
        (Accepts (w.state (.replica i)) m.view → InPlace (dep.env i) (w.state (.replica i)) m ∧
          ReadsChosen (dep.env i) ω (w.state (.replica i)) m))
    | .startView m => inferInstanceAs (Decidable
        (Accepts (w.state (.replica i)) m.view →
          Joins (w.state (.replica i)) m.lastOp m.entries))
    | .stateTransfer m => inferInstanceAs (Decidable
        ((w.state (.replica i)).view ≤ m.view → Fits (dep.env i) (w.state (.replica i)) m))
    | .request _ | .reply _ | .prepare _ | .prepareOK .. | .commit .. | .requestStateTransfer .. |
        .startViewChange .. => .isTrue trivial

/-- The invariant of a process. -/
def BatchNode (cfg : Config) (_ : History Op) : (n : Node) → State σ Op n → Prop
  | .replica i, r => Batched cfg i r
  | .client _, _ => True

theorem batched_initial (cfg : Config) (n : Node) : BatchNode cfg [] n (dep.initial n) := by
  cases n with
  | client c => trivial
  | replica i =>
    refine ⟨⟨rfl, Log.Numbered.nil, rfl⟩, fun _ _ => ⟨le_rfl, fun e he => ?_⟩, (fun h => by cases h),
      fun u j m hm => ?_⟩
    · cases he
    · cases hm

/-- **A step of a replica** keeps the invariant. -/
theorem replica_batch {w : GlobalState σ Op} {i : ℕ} {ω : Stray Op}
    {input : Input Node (Msg Op) (Act Op)}
    (hr : Batched dep.cfg i (w.state (.replica i))) (hpackets : ∀ p ∈ w.net, BatchPacket dep.cfg p)
    (hen : dep.system.Enabled w (.replica i) input) (hcond : Matched dep w (.replica i) ω input) :
    wp (dep.handle (.replica i) ω input) (fun _ => BatchCtx dep.cfg i) (BatchCtx dep.cfg i)
      { state := w.state (.replica i) } := by
  have hc : BatchCtx (dep.env i).cfg (dep.env i).myIdx
      ({ state := w.state (.replica i) } : Ctx (Replica σ Op) Node (Msg Op) (Event Op)) :=
    ⟨hr, fun p hp => absurd hp List.not_mem_nil⟩
  cases input with
  | act a =>
    cases a with
    | client a => exact hc
    | timer t =>
      show wp (when (i < dep.cfg.n) (handleTimer (dep.env i) t)) _ _ _
      exact Keeps.when (handleTimer_batch t) _ hc
  | recv p =>
    obtain ⟨-, hmem, howner⟩ := hen
    obtain ⟨src, dst, msg⟩ := p
    have hdst : dst = .replica i := by
      cases dst with
      | client c => cases howner
      | replica j =>
        have howner : (if j < dep.cfg.n then some (D2PC.Ir.Node.replica j) else none) =
          some (.replica i) := howner
        split_ifs at howner
        exact Option.some.inj howner
    have hpacket := hpackets _ hmem
    cases msg with
    | request req =>
      exact wp_mono (fun _ _ h => h.1) (fun _ h => h.elim)
        (handleRequest_wp hc (fun p hp => absurd hp List.not_mem_nil) src req)
    | reply m => exact hc
    | prepare m => exact handlePrepare_batch src m _ hc
    | prepareOK view opnum replicaIdx => exact of_frame (handlePrepareOK_frame _ _ _) _ hc
    | commit view opnum => exact of_frame (handleCommit_frame _ _) _ hc
    | requestStateTransfer view opnum => exact handleRequestStateTransfer_batch src _ _ _ hc
    | stateTransfer m => exact handleStateTransfer_wp hc hpacket hcond
    | startViewChange view replicaIdx lastCommitted =>
      exact handleStartViewChange_batch _ _ _ _ hc
    | doViewChange m =>
      obtain ⟨hleader, hpiece⟩ := hpacket
      refine handleDoViewChange_wp hc hpiece ?_ hcond
      exact (D2PC.Ir.Node.replica.inj (hdst.symm.trans hleader)).symm
    | startView m =>
      obtain ⟨hother, hpiece⟩ := hpacket
      refine handleStartView_wp hc hpiece (fun h => hother ?_) hcond
      have hi : dep.cfg.leader m.view = i := h
      rw [hi]
      exact hdst

/-- **The invariant** of every run of matched steps. -/
theorem batched_of_matched {w : GlobalState σ Op} (hw : dep.system.Reach (Matched dep) w) :
    (∀ n, BatchNode dep.cfg w.history n (w.state n)) ∧ ∀ p ∈ w.net, BatchPacket dep.cfg p := by
  have hmono : ∀ (h es : History Op) (p : Packet Node (Msg Op)), BatchPacket dep.cfg p →
    BatchPacket dep.cfg p := fun _ _ _ hp => hp
  refine hw.invariant (batched_initial dep.cfg) hmono (fun h n n' es s hne hs => ?_) ?_
  · cases n with
    | client c => trivial
    | replica i => exact hs
  · intro w n ω input _ hnodes hpackets hen hcond
    cases n with
    | client c =>
      refine (client_requests c ω input).good (fun _ _ => trivial) (fun _ _ => trivial)
        fun {p h} hp => ?_
      obtain ⟨req, hreq, -⟩ := hp
      rw [BatchPacket, hreq]
      trivial
    | replica i =>
      exact wp_mono (fun _ _ h => ⟨h.1, h.2⟩) (fun _ h => ⟨h.1, h.2⟩)
        (replica_batch (hnodes (.replica i)) hpackets hen hcond)

/-- **The batch of a leader**: it ends with the log, and its requests were numbered in the view. -/
def BatchOfView (r : Replica σ Op) : Prop :=
  r.lastBatchEnd ≤ r.lastOp ∧ ∀ k, r.lastBatchEnd < k → k ≤ r.lastOp →
    ∃ e, r.log.find k = some e ∧ e.opnum = k ∧ e.view = r.view

/-- The inputs with which a batch is closed. -/
def ClosesBatch : Input Node (Msg Op) (Act Op) → Prop
  | .recv p => ∃ req, p.msg = .request req
  | .act a => a = .timer .closeBatch

/-- **Batching.** -/
def Batching (dep : Deployment σ Op) (w : GlobalState σ Op) : Prop :=
  ∀ i, let r : Replica σ Op := w.state (.replica i)
    (r.status = .normal → dep.cfg.leader r.view = i → BatchOfView r) ∧
    ∀ ω input, ClosesBatch input →
      wp (dep.handle (.replica i) ω input) (fun _ => Closing) Closing { state := r }

theorem Batched.batchOfView {cfg : Config} {i : ℕ} {r : Replica σ Op} (h : Batched cfg i r)
    (hnormal : r.status = .normal) (hleader : cfg.leader r.view = i) : BatchOfView r := by
  obtain ⟨hle, hview⟩ := h.leading hnormal hleader
  refine ⟨hle, fun k hk hk' => ?_⟩
  obtain ⟨e, hfind, hop, hget⟩ := h.log.find (by omega) hk'
  refine ⟨e, hfind, hop, hview e (List.mem_of_getElem? (i := k - 1 - r.lastBatchEnd) ?_)⟩
  rw [List.getElem?_drop, ← hget]
  congr 1
  omega

/-- **Batches.** In every run of matched steps the batch of a leader is one of its view, and every
prepare message that is sent when a batch is closed carries it. -/
theorem batches_of_matched (dep : Deployment σ Op) {w : GlobalState σ Op}
    (hw : dep.system.Reach (Matched dep) w) : Batching dep w := by
  obtain ⟨hnodes, -⟩ := batched_of_matched hw
  intro i
  have hr : Batched dep.cfg i (w.state (.replica i)) := hnodes (.replica i)
  have hc : BatchCtx (dep.env i).cfg (dep.env i).myIdx
      ({ state := w.state (.replica i) } : Ctx (Replica σ Op) Node (Msg Op) (Event Op)) :=
    ⟨hr, fun p hp => absurd hp List.not_mem_nil⟩
  have hnone : ∀ p ∈ ({ state := w.state (.replica i) } :
      Ctx (Replica σ Op) Node (Msg Op) (Event Op)).sent, ∀ m, p.msg ≠ .prepare m :=
    fun p hp => absurd hp List.not_mem_nil
  have hstart : Closing ({ state := w.state (.replica i) } :
      Ctx (Replica σ Op) Node (Msg Op) (Event Op)) := fun p hp => absurd hp List.not_mem_nil
  refine ⟨hr.batchOfView, fun ω input hcloses => ?_⟩
  cases input with
  | recv p =>
    obtain ⟨req, hreq⟩ := hcloses
    show wp (Replica.handleMessage (dep.env i) ω p.src p.msg) _ _ _
    rw [hreq]
    exact wp_mono (fun _ _ h => h.2) (fun _ h => h.elim) (handleRequest_wp hc hnone p.src req)
  | act a =>
    have ha : a = .timer .closeBatch := hcloses
    rw [ha]
    show wp (when (i < dep.cfg.n) (handleTimer (dep.env i) .closeBatch)) _ _ _
    rw [wp_when]
    refine ⟨fun _ => ?_, fun _ => hstart⟩
    rw [handleTimer, wp_bind, wp_read, wp_when]
    refine ⟨fun hrunning => ?_, fun _ => hstart⟩
    obtain ⟨hnormal, hleader⟩ := hr.closing hrunning
    exact wp_mono (fun _ _ h => h.2 hnone) (fun _ h => h.elim) (closeBatch_wp hc hnormal hleader)

/-! ### Two view changes -/

/-- Three replicas of an application that does nothing. -/
def threeReplicas : Deployment Unit ℕ where
  cfg := { n := 3, f := 1 }
  batchSize := 1
  app :=
    { init := ()
      leaderUpcall := fun _ op s => ((true, op), s)
      replicaUpcall := fun _ op s => (op, s) }

/-- A client sends an operation to all replicas. -/
def invoke (op : ℕ) : Protocol.Cmd Node (Act ℕ) (Stray ℕ) :=
  .act (.client 9) {} (.client (.invoke op))

/-- Both followers have the request when replica 2 gives up on the leader, and the new leader
takes another one. -/
def changeInPlace : List (Protocol.Cmd Node (Act ℕ) (Stray ℕ)) :=
  [invoke 10, .deliver 0 {}, .deliver 3 {}, .deliver 4 {},
    .act (.replica 2) {} (.timer .viewChange),
    .deliver 8 {}, .deliver 10 {}, .deliver 11 {}, .deliver 13 {}, invoke 20, .deliver 16 {}]

theorem changeInPlace_runs : (threeReplicas.system.exec (Matched threeReplicas)
    threeReplicas.system.start changeInPlace).isSome := by
  decide +kernel

theorem batches_inPlace : Batching threeReplicas
    ((threeReplicas.system.exec (Matched threeReplicas) threeReplicas.system.start
      changeInPlace).get changeInPlace_runs) :=
  batches_of_matched threeReplicas (Protocol.Reach.exec .start (Option.some_get _).symm)

/-- Only replica 2 has the request when it gives up on the leader. -/
def changeBehind : List (Protocol.Cmd Node (Act ℕ) (Stray ℕ)) :=
  [invoke 10, .deliver 0 {}, .deliver 4 {}, .act (.replica 2) {} (.timer .viewChange),
    .deliver 7 {}, .deliver 9 {}, .deliver 10 {}]

theorem changeBehind_runs : (threeReplicas.system.exec (fun _ _ _ _ => True)
    threeReplicas.system.start changeBehind).isSome := by
  decide +kernel

/-- The entry of the chosen log is in the batch of the new leader. -/
theorem changeBehind_oldView : ∃ e,
    let r : Replica Unit ℕ := ((threeReplicas.system.exec (fun _ _ _ _ => True)
      threeReplicas.system.start changeBehind).get changeBehind_runs).state (.replica 1)
    r.status = .normal ∧ threeReplicas.cfg.leader r.view = 1 ∧
      r.lastBatchEnd < 1 ∧ 1 ≤ r.lastOp ∧ r.log.find 1 = some e ∧ e.view ≠ r.view :=
  ⟨{ view := 0, opnum := 1, request := { op := 10, clientid := 9, clientreqid := 1 } },
    by decide +kernel⟩

/-- **Not every batch is of the current view**: the leader has taken the log of replica 2 and
counts its entry into the next batch. -/
theorem batch_of_old_view : ∃ w, threeReplicas.system.Reach (fun _ _ _ _ => True) w ∧
    ¬Batching threeReplicas w := by
  refine ⟨_, Protocol.Reach.exec .start (Option.some_get changeBehind_runs).symm, fun h => ?_⟩
  obtain ⟨e, hnormal, hleader, hlt, hle, hfind, hview⟩ := changeBehind_oldView
  obtain ⟨-, hbatch⟩ := (h 1).1 hnormal hleader
  obtain ⟨e', hfind', -, hview'⟩ := hbatch 1 hlt hle
  rw [hfind] at hfind'
  exact hview (Option.some.inj hfind' ▸ hview')

end D2PC.Vr
