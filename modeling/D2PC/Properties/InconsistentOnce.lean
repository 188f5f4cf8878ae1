import D2PC.Properties.IrDurability
import D2PC.Properties.RecordMerge

/-!
# Inconsistent operations are executed once

A replica executes an inconsistent operation when it finds it tentative in its record, and marks
it finalised. A view change replaces the record by the merge of others, in which the first copy
of an inconsistent operation is kept, in whatever state it is.

* `Retaining` : no view change takes back that an operation is finalised;
* `performed_once` : in such runs no replica executes an operation twice, and a merge keeps what
  is finalised exactly if it meets a finalised copy first;
* `performed_twice` : a run in which a replica does.
-/

namespace D2PC.Ir

open Prog Ctx

variable {σ Op Res : Type} {h : History Op Res} {i : ℕ} {o : OpId} {r : Replica σ Op Res}

/-! ### Executions -/

/-- The event is a call of `ExecInconsistentUpcall` by replica `i`. -/
def performs (i : ℕ) (o : OpId) : Node × Event Op Res → Bool
  | (.replica j, .replica (.performed o' _)) => j == i && o' == o
  | _ => false

/-- How often replica `i` has executed the operation. -/
def times (h : History Op Res) (i : ℕ) (o : OpId) : ℕ := h.countP (performs i o)

/-- The operations the replica has executed. -/
def performedBy (h : History Op Res) (i : ℕ) : List OpId :=
  h.filterMap fun x =>
    match x with
    | (.replica j, .replica (.performed o _)) => if j = i then some o else none
    | _ => none

theorem mem_performedBy : o ∈ performedBy h i ↔ 0 < times h i o := by
  rw [performedBy, List.mem_filterMap, times, List.countP_pos_iff]
  refine exists_congr fun x => and_congr_right fun _ => ?_
  obtain ⟨n, e⟩ := x
  cases n with
  | client c => exact iff_of_false (fun h => by cases h) Bool.false_ne_true
  | replica j =>
    cases e with
    | client e => exact iff_of_false (fun h => by cases h) Bool.false_ne_true
    | replica e =>
      cases e with
      | performed o' op =>
        show (if j = i then some o' else none) = some o ↔ (j == i && o' == o) = true
        by_cases hj : j = i
        · simp [hj]
        · simp [hj]
      | _ => exact iff_of_false (fun h => by cases h) Bool.false_ne_true

theorem times_append (es : History Op Res) : times (h ++ es) i o = times h i o + times es i o :=
  List.countP_append

/-- The record has the operation finalised. -/
def Final (R : Record Op Res) (o : OpId) : Prop := ∃ e, R.lookup o = some e ∧ e.state = .finalized

instance (R : Record Op Res) (o : OpId) : Decidable (Final R o) :=
  match hl : R.lookup o with
  | none => isFalse fun ⟨e, he, _⟩ => by rw [hl] at he; cases he
  | some e =>
      if hs : e.state = .finalized then isTrue ⟨e, hl, hs⟩
      else isFalse fun ⟨e', he, hs'⟩ => by
        rw [hl] at he
        cases he
        exact hs hs'

/-- **What a replica has executed** it has executed once, and it is finalised in its record. -/
def Once (h : History Op Res) (i : ℕ) (r : Replica σ Op Res) : Prop :=
  ∀ o, times h i o ≤ 1 ∧ (0 < times h i o → Final r.record o)

/-! ### The condition -/

/-- The messages that are merged when this one arrives. -/
def mergeInput (cfg : Config) (r : Replica σ Op Res) (m : DoViewChange Op Res) :
    List (DoViewChange Op Res) :=
  (List.range cfg.n).filterMap
    ((r.doViewChangeQuorum.add m.newView m.replicaIdx m).getMessages m.newView).lookup

/-- The message completes the quorum of a leader. -/
def Completes (cfg : Config) (j : ℕ) (r : Replica σ Op Res) (m : DoViewChange Op Res) : Prop :=
  (r.view < m.newView ∨ m.newView = r.view ∧ r.status ≠ .normal) ∧ j = cfg.leader m.newView ∧
    cfg.f ≤ ((r.doViewChangeQuorum.add m.newView m.replicaIdx m).getMessages m.newView).size

/-- The first copy of the operation that a merge meets is finalised. -/
def FirstFinal (records : List (DoViewChange Op Res)) (r : Replica σ Op Res) (o : OpId) : Prop :=
  ∃ e ∈ (Replica.latestEntries records r o).head?, e.state = .finalized

instance (records : List (DoViewChange Op Res)) (r : Replica σ Op Res) (o : OpId) :
    Decidable (FirstFinal records r o) :=
  inferInstanceAs (Decidable (∃ e ∈ (Replica.latestEntries records r o).head?, _))

/-- **No view change takes back an execution.** A merge meets a finalised copy first of every
operation its leader has executed, and of every inconsistent operation that is finalised in one
of the latest records; and what a replica has executed is finalised in the record it is sent. -/
def Retains (cfg : Config) (h : History Op Res) (j : ℕ) (r : Replica σ Op Res) :
    Msg Op Res → Prop
  | .doViewChange m => Completes cfg j r m →
      (∀ o ∈ performedBy h j, FirstFinal (mergeInput cfg r m) r o) ∧
      ∀ R ∈ Replica.latestRecords (mergeInput cfg r m) r, ∀ p ∈ R.toList,
        p.2.type = .inconsistent → p.2.state = .finalized →
          FirstFinal (mergeInput cfg r m) r p.1
  | .startView R v => (r.view < v ∨ v = r.view ∧ r.status ≠ .normal) →
      ∀ o ∈ performedBy h j, Final R o
  | _ => True

instance (cfg : Config) (j : ℕ) (r : Replica σ Op Res) (m : DoViewChange Op Res) :
    Decidable (Completes cfg j r m) :=
  inferInstanceAs (Decidable ((_ ∨ _) ∧ _))

instance (cfg : Config) (h : History Op Res) (j : ℕ) (r : Replica σ Op Res) (m : Msg Op Res) :
    Decidable (Retains cfg h j r m) :=
  match m with
  | .doViewChange m => inferInstanceAs (Decidable (Completes cfg j r m → _ ∧ _))
  | .startView _ _ => inferInstanceAs (Decidable (_ → _))
  | .proposeInconsistent _ _ => isTrue trivial
  | .finalizeInconsistent _ => isTrue trivial
  | .proposeConsensus _ _ => isTrue trivial
  | .finalizeConsensus _ _ => isTrue trivial
  | .replyInconsistent _ _ _ _ => isTrue trivial
  | .replyConsensus _ _ _ _ _ => isTrue trivial
  | .confirm _ _ _ => isTrue trivial

/-- The condition on the steps; no replica is started again. -/
def Retaining (dep : Deployment σ Op Res) (w : GlobalState σ Op Res) (n : Node) (_ : Unit)
    (input : Input Node (Msg Op Res) (Act Op)) : Prop :=
  match n, input with
  | .replica j, .recv p => Retains dep.cfg w.history j (w.state (.replica j)) p.msg
  | .replica _, .act (.replica .restart) => False
  | _, _ => True

instance (dep : Deployment σ Op Res) (w : GlobalState σ Op Res) (n : Node) (ω : Unit)
    (input : Input Node (Msg Op Res) (Act Op)) : Decidable (Retaining dep w n ω input) :=
  match n, input with
  | .replica j, .recv p =>
      inferInstanceAs (Decidable (Retains dep.cfg w.history j (w.state (.replica j)) p.msg))
  | .replica _, .act (.replica .restart) => isFalse id
  | .replica _, .act (.replica .viewChangeTimeout) => isTrue trivial
  | .replica _, .act (.client _) => isTrue trivial
  | .client _, .recv _ => isTrue trivial
  | .client _, .act _ => isTrue trivial

/-- Only restarts are left out. -/
def NoRestart (_ : GlobalState σ Op Res) (_ : Node) (_ : Unit)
    (input : Input Node (Msg Op Res) (Act Op)) : Prop :=
  match input with
  | .act (.replica .restart) => False
  | _ => True

/-! ### What the handlers keep -/

/-- The context of a handler of replica `i`. -/
abbrev ReplicaCtx (σ Op Res : Type) := Ctx (Replica σ Op Res) Node (Msg Op Res) (Event Op Res)

/-- `Once`, with what the handler has recorded. -/
def OnceAt (h : History Op Res) (i : ℕ) (c : ReplicaCtx σ Op Res) : Prop :=
  Once (c.past h (.replica i)) i c.state

/-- The event is another one than an execution. -/
def Other (e : ReplicaEvent Op Res) : Prop := ∀ o op, e ≠ .performed o op

theorem times_other {e : ReplicaEvent Op Res} (he : Other e) (j : ℕ) :
    times [(Node.replica j, Event.replica e)] i o = 0 := by
  rw [times, List.countP_eq_zero]
  intro x hx
  rw [List.mem_singleton.mp hx]
  cases e with
  | performed o' op => exact absurd rfl (he o' op)
  | _ => exact Bool.false_ne_true

theorem Once.mono_record {r' : Replica σ Op Res} (hr : Once h i r)
    (hkeep : ∀ o, Final r.record o → Final r'.record o) : Once h i r' :=
  fun o => ⟨(hr o).1, fun hpos => hkeep o ((hr o).2 hpos)⟩

/-- Only the own executions count. -/
theorem Once.mono_history {h' : History Op Res} (hr : Once h i r)
    (hsame : ∀ o, times h' i o = times h i o) : Once h' i r := by
  intro o
  rw [hsame o]
  exact hr o

/-- Another event is recorded. -/
theorem Once.other (hr : Once h i r) {e : ReplicaEvent Op Res} (he : Other e) :
    Once (h ++ [(Node.replica i, Event.replica e)]) i r := by
  refine hr.mono_history fun o => ?_
  rw [times_append, times_other he, Nat.add_zero]

theorem Once.frame (hr : Once h i r) {n : Node} (hn : n ≠ .replica i)
    (es : List (Event Op Res)) : Once (h ++ es.map (n, ·)) i r := by
  refine hr.mono_history fun o => ?_
  have hzero : times (es.map (n, ·)) i o = 0 := by
    rw [times, List.countP_eq_zero]
    intro x hx
    obtain ⟨e, -, rfl⟩ := List.mem_map.mp hx
    cases n with
    | client c => exact Bool.false_ne_true
    | replica j =>
      cases e with
      | client e => exact Bool.false_ne_true
      | replica e =>
        cases e with
        | performed o' op =>
          intro hperforms
          have hj : (j == i && o' == o) = true := hperforms
          rw [Bool.and_eq_true, beq_iff_eq] at hj
          exact hn (by rw [hj.1])
        | _ => exact Bool.false_ne_true
  rw [times_append, hzero, Nat.add_zero]

section Keeps

variable {α : Type}

theorem once_send (ps : List (Packet Node (Msg Op Res))) :
    Keeps (OnceAt h i) (send ps : Prog (ReplicaCtx σ Op Res) Unit) := by
  intro c hc
  exact hc

theorem once_emit {e : ReplicaEvent Op Res} (he : Other e) :
    Keeps (OnceAt h i) (emit (.replica e) : Prog (ReplicaCtx σ Op Res) Unit) := by
  intro c hc
  rw [wp_emit]
  show Once _ i c.state
  rw [past_emit]
  exact Once.other hc he

theorem once_update {f : Replica σ Op Res → Replica σ Op Res}
    (hf : ∀ r o, Final r.record o → Final (f r).record o) :
    Keeps (OnceAt h i) (update f : Prog (ReplicaCtx σ Op Res) Unit) := by
  intro c hc
  exact Once.mono_record hc (hf c.state)

end Keeps

theorem Final.insert {R : Record Op Res} {e : RecordEntry Op Res} {o' : OpId} (hR : Final R o)
    (he : o = o' → e.state = .finalized) : Final (R.insert o' e) o := by
  obtain ⟨e₀, hl, hs⟩ := hR
  by_cases heq : o = o'
  · exact ⟨e, by rw [Table.lookup_insert_eq, if_pos heq], he heq⟩
  · exact ⟨e₀, by rw [Table.lookup_insert_eq, if_neg heq, hl], hs⟩

/-- An operation that is new to the record is entered. -/
theorem Once.add (hr : Once h i r) (hnew : r.record.lookup o = none) (e : RecordEntry Op Res) :
    Once h i { r with record := r.record.insert o e } := by
  refine hr.mono_record fun o' hfin => hfin.insert fun heq => ?_
  obtain ⟨e₀, hl, -⟩ := hfin
  rw [heq, hnew] at hl
  cases hl

variable [DecidableEq Res] [Inhabited Res] {dep : Deployment σ Op Res}

omit [DecidableEq Res] in
theorem once_proposeInconsistent {c : ReplicaCtx σ Op Res} (hc : OnceAt h i c) (remote : Node)
    (op : Op) : wp (Replica.handleProposeInconsistent (dep.replicaEnv i) remote o op)
      (fun _ => OnceAt h i) (OnceAt h i) c := by
  simp only [Replica.handleProposeInconsistent, wp_bind, wp_read]
  cases hl : c.state.record.lookup o with
  | some entry => exact hc
  | none =>
    simp only [wp_bind, wp_read, Replica.addEntry, Replica.reply, wp_update, wp_send]
    exact Once.add hc hl _

omit [DecidableEq Res] [Inhabited Res] in
theorem once_proposeConsensus {c : ReplicaCtx σ Op Res} (hc : OnceAt h i c) (remote : Node)
    (op : Op) : wp (Replica.handleProposeConsensus (dep.replicaEnv i) remote o op)
      (fun _ => OnceAt h i) (OnceAt h i) c := by
  simp only [Replica.handleProposeConsensus, wp_bind, wp_read]
  cases hl : c.state.record.lookup o with
  | some entry => exact hc
  | none =>
    simp only [wp_bind, wp_read, Replica.addEntry, Replica.reply, wp_update, wp_emit, wp_send]
    show Once _ i _
    rw [past_emit]
    have hother := Once.other hc (e := .executed c.state.view o op
      ((dep.replicaEnv i).app.execConsensusUpcall op c.state.app).1) (fun _ _ h => by cases h)
    have hadd := hother.add (o := o) hl
      { view := c.state.view
        opid := o
        state := .tentative
        type := .consensus
        request := op
        result := ((dep.replicaEnv i).app.execConsensusUpcall op c.state.app).1 }
    exact hadd

omit [DecidableEq Res] [Inhabited Res] in
theorem once_finalizeConsensus {c : ReplicaCtx σ Op Res} (hc : OnceAt h i c) (remote : Node)
    (res : Res) : wp (Replica.handleFinalizeConsensus (dep.replicaEnv i) remote o res)
      (fun _ => OnceAt h i) (OnceAt h i) c := by
  simp only [Replica.handleFinalizeConsensus, wp_bind, wp_read]
  cases hl : c.state.record.lookup o with
  | none => exact hc
  | some entry =>
    simp only [wp_bind, wp_read, Replica.addEntry, Replica.reply, wp_update, wp_emit, wp_send]
    show Once _ i _
    rw [past_emit]
    have hother := Once.other hc (e := .confirmed c.state.view o res) (fun _ _ h => by cases h)
    exact hother.mono_record fun o' hfin => hfin.insert fun _ => rfl

omit [DecidableEq Res] [Inhabited Res] in
/-- **The execution**: the operation was tentative, so it was not executed before. -/
theorem once_finalizeInconsistent {c : ReplicaCtx σ Op Res} (hc : OnceAt h i c) (remote : Node) :
    wp (Replica.handleFinalizeInconsistent (dep.replicaEnv i) remote o)
      (fun _ => OnceAt h i) (OnceAt h i) c := by
  simp only [Replica.handleFinalizeInconsistent, wp_bind, wp_read]
  cases hl : c.state.record.lookup o with
  | none => exact hc
  | some entry =>
    simp only [wp_when, wp_bind, wp_read, Replica.addEntry, Replica.reply, wp_update, wp_emit,
      wp_send]
    refine ⟨fun htentative => ?_, fun _ => hc⟩
    have htentative : entry.state = .tentative := of_decide_eq_true htentative
    show Once _ i _
    rw [past_emit]
    intro o'
    have hlast : times [(Node.replica i, (dep.replicaEnv i).log (.performed o entry.request))] i o' =
        if o = o' then 1 else 0 := by
      show times [(Node.replica i, Event.replica (.performed o entry.request))] i o' = _
      by_cases heq : o = o'
      · rw [if_pos heq, heq]
        simp [times, performs]
      · rw [if_neg heq]
        simp [times, performs, heq]
    rw [times_append, hlast]
    obtain ⟨hle, hfin⟩ := hc o'
    by_cases heq : o = o'
    · have hnone : times (c.past h (.replica i)) i o' = 0 := by
        by_contra hne
        obtain ⟨e, he, hs⟩ := hfin (Nat.pos_of_ne_zero hne)
        rw [← heq, hl] at he
        cases he
        rw [htentative] at hs
        cases hs
      refine ⟨?_, fun _ => ⟨{ entry with opid := o, state := .finalized }, ?_, rfl⟩⟩
      · show times (c.past h (.replica i)) i o' + _ ≤ 1
        rw [hnone, if_pos heq]
      · rw [← heq]
        exact AList.lookup_insert _
    · rw [if_neg heq, Nat.add_zero]
      exact ⟨hle, fun hpos => (hfin hpos).insert fun h => absurd h.symm heq⟩

/-! ### View changes -/

omit [DecidableEq Res] [Inhabited Res] in
theorem gatherAt_kept (e : RecordEntry Op Res) (es : List (RecordEntry Op Res)) :
    es.foldl Replica.gatherAt (some e, none) = (some e, none) := by
  induction es with
  | nil => rfl
  | cons e' es ih =>
    have hstep : Replica.gatherAt (some e, none) e' = (some e, none) := by
      rw [Replica.gatherAt]
      split_ifs
      · rfl
      · rfl
      · rfl
      · rename_i hsome
        exact absurd rfl hsome
    rw [List.foldl_cons, hstep, ih]

omit [Inhabited Res] in
/-- A finalised copy that is met first is kept. -/
theorem FirstFinal.merged {E : Type} {env : Replica.Env σ Op Res E}
    {records : List (DoViewChange Op Res)} (hfirst : FirstFinal records r o) :
    Final (Replica.irMergeRecords env records r).1 o := by
  obtain ⟨e, he, hs⟩ := hfirst
  refine ⟨e, Replica.lookup_merge_kept ?_, hs⟩
  rw [Replica.gather_at_eq]
  cases hes : Replica.latestEntries records r o with
  | nil =>
    rw [hes] at he
    cases he
  | cons e' es =>
    rw [hes] at he
    have heq : e' = e := Option.some.inj he
    have hstep : Replica.gatherAt (none, none) e' = (some e', none) := by
      rw [heq, Replica.gatherAt, if_pos hs]
      split_ifs <;> rfl
    rw [List.foldl_cons, hstep, gatherAt_kept, heq]

omit [Inhabited Res] in
/-- **The merge** keeps an inconsistent operation finalised exactly if a finalised copy is met
first. -/
theorem final_merge_iff {E : Type} {env : Replica.Env σ Op Res E}
    {records : List (DoViewChange Op Res)}
    (htype : ∀ e ∈ Replica.latestEntries records r o, e.type = .inconsistent) :
    Final (Replica.irMergeRecords env records r).1 o ↔ FirstFinal records r o := by
  rw [Final, Replica.lookup_merge_inconsistent htype]
  rfl

omit [Inhabited Res] in
theorem once_collect {c : ReplicaCtx σ Op Res} (hc : OnceAt h i c) {m : DoViewChange Op Res}
    (hmerge : i = dep.cfg.leader c.state.view →
      dep.cfg.f ≤ ((c.state.doViewChangeQuorum.add m.newView m.replicaIdx m).getMessages
        m.newView).size →
      ∀ o, 0 < times (c.past h (.replica i)) i o →
        FirstFinal (mergeInput dep.cfg c.state m) c.state o) :
    wp (Replica.collectDoViewChange (dep.replicaEnv i) m) (fun _ => OnceAt h i) (OnceAt h i) c := by
  simp only [Replica.collectDoViewChange, wp_bind, wp_read, wp_when, wp_update, wp_emit, id_eq]
  refine ⟨fun hleader => ⟨fun hsize => ?_, fun _ => hc⟩, fun _ => hc⟩
  have hfirst := hmerge (of_decide_eq_true hleader) (of_decide_eq_true hsize)
  simp only [Replica.sendMessageToAll, wp_send]
  show Once _ i _
  have hmerged : Once (c.past h (.replica i)) i
      { c.state with record := (Replica.irMergeRecords (dep.replicaEnv i)
        (mergeInput dep.cfg c.state m) c.state).1 } :=
    fun o => ⟨(hc o).1, fun hpos => (hfirst o hpos).merged⟩
  have hcontributed := hmerged.other (e := .contributed c.state.view c.state.latestNormalView
    c.state.record) (fun _ _ h => by cases h)
  have hdone := hcontributed.other (e := .merged m.newView (Replica.irMergeRecords
    (dep.replicaEnv i) (mergeInput dep.cfg c.state m) c.state).1) (fun _ _ h => by cases h)
  refine (hdone.mono_history fun o => ?_).mono_record fun o hfin => hfin
  simp only [past, List.map_append, List.map_cons, List.map_nil, List.append_assoc]
  rfl

omit [DecidableEq Res] [Inhabited Res] in
/-- The condition, for the handler of a message of a view change. -/
theorem Retains.first {m : DoViewChange Op Res} (hret : Retains dep.cfg h i r (.doViewChange m))
    (hview : r.view < m.newView ∨ m.newView = r.view ∧ r.status ≠ .normal)
    (hleader : i = dep.cfg.leader m.newView)
    (hsize : dep.cfg.f ≤ ((r.doViewChangeQuorum.add m.newView m.replicaIdx m).getMessages
      m.newView).size) (hpos : 0 < times h i o) :
    FirstFinal (mergeInput dep.cfg r m) r o :=
  (hret ⟨hview, hleader, hsize⟩).1 o (mem_performedBy.mpr hpos)

omit [Inhabited Res] in
theorem once_doViewChange (hr : Once h i r) {m : DoViewChange Op Res}
    (hret : Retains dep.cfg h i r (.doViewChange m)) :
    wp (Replica.handleDoViewChange (dep.replicaEnv i) m) (fun _ => OnceAt h i) (OnceAt h i)
      { state := r } := by
  have hstart : OnceAt h i ({ state := r } : ReplicaCtx σ Op Res) := by
    rw [OnceAt, past_start]
    exact hr
  simp only [Replica.handleDoViewChange, wp_bind, wp_read, wp_ite, wp_pure, wp_when, id_eq]
  refine ⟨fun _ => hstart, fun hlt => ⟨fun heq => ⟨fun hstatus => ?_, fun _ => hstart⟩,
    fun hne => ?_⟩⟩
  · refine once_collect hstart fun hleader hsize o hpos => ?_
    rw [past_start] at hpos
    have hstatus : r.status ≠ .normal := of_decide_eq_true hstatus
    exact hret.first (.inr ⟨heq, hstatus⟩) (by rw [heq]; exact hleader) hsize hpos
  · have hview : r.view < m.newView := lt_of_le_of_ne (not_lt.mp hlt) (Ne.symm hne)
    simp only [Replica.broadcastDoViewChangeMessages, wp_update, wp_bind, wp_read, wp_emit,
      wp_send, wp_when, id_eq]
    -- the record is sent to the leader, or the replica is the leader itself
    have hsent : ∀ sent, wp (Replica.collectDoViewChange (dep.replicaEnv i) m)
        (fun _ => OnceAt h i) (OnceAt h i)
        { state := { r with
            view := m.newView
            status := if r.status = .normal then .viewChange else r.status }
          sent := sent
          events := [] ++ [(dep.replicaEnv i).log (.contributed m.newView r.latestNormalView
            r.record)] } := by
      intro sent
      have hother : Other (.contributed m.newView r.latestNormalView r.record) :=
        fun _ _ h => by cases h
      have htimes : ∀ o, times (h ++ [(Node.replica i, Event.replica (.contributed m.newView
          r.latestNormalView r.record))]) i o = times h i o := fun o => by
        rw [times_append, times_other hother, Nat.add_zero]
      refine once_collect ?_ fun hleader hsize o hpos => ?_
      · exact (hr.mono_history htimes).mono_record fun _ hfin => hfin
      · exact hret.first (.inl hview) hleader hsize (lt_of_lt_of_eq hpos (htimes o))
    exact ⟨fun _ => hsent _, fun _ => hsent _⟩

omit [DecidableEq Res] [Inhabited Res] in
theorem once_startView (hr : Once h i r) {R : Record Op Res} {v : ℕ}
    (hret : Retains dep.cfg h i r (.startView R v)) :
    wp (Replica.handleStartView (dep.replicaEnv i) R v) (fun _ => OnceAt h i) (OnceAt h i)
      { state := r } := by
  have hstart : OnceAt h i ({ state := r } : ReplicaCtx σ Op Res) := by
    rw [OnceAt, past_start]
    exact hr
  simp only [Replica.handleStartView, wp_bind, wp_read, wp_when, wp_update, id_eq]
  refine ⟨fun haccept => ?_, fun _ => hstart⟩
  have hview : r.view < v ∨ v = r.view ∧ r.status ≠ .normal := by
    simp only [Bool.not_or, Bool.and_eq_true, Bool.not_eq_true', decide_eq_false_iff_not,
      not_lt, not_and] at haccept
    rcases haccept.1.lt_or_eq with hlt | heq
    · exact .inl hlt
    · exact .inr ⟨heq.symm, haccept.2 heq.symm⟩
  show Once _ i _
  rw [past_start]
  exact fun o => ⟨(hr o).1, fun hpos => hret hview o (mem_performedBy.mpr hpos)⟩

/-- **Every step of a replica**, but for a restart. -/
theorem once_handle (hr : Once h i r) {remote : Node} {m : Msg Op Res}
    (hret : Retains dep.cfg h i r m) :
    wp (Replica.handleMessage (dep.replicaEnv i) remote m) (fun _ => OnceAt h i) (OnceAt h i)
      { state := r } := by
  have hstart : OnceAt h i ({ state := r } : ReplicaCtx σ Op Res) := by
    rw [OnceAt, past_start]
    exact hr
  cases m with
  | proposeInconsistent o op => exact once_proposeInconsistent hstart remote op
  | finalizeInconsistent o => exact once_finalizeInconsistent hstart remote
  | proposeConsensus o op => exact once_proposeConsensus hstart remote op
  | finalizeConsensus o res => exact once_finalizeConsensus hstart remote res
  | doViewChange m => exact once_doViewChange hr hret
  | startView R v => exact once_startView hr hret
  | replyInconsistent v j o f => exact hstart
  | confirm v j o => exact hstart
  | replyConsensus v j o res f => exact hstart

omit [DecidableEq Res] [Inhabited Res] in
theorem once_timeout (hr : Once h i r) :
    wp (Replica.handleViewChangeTimeout (dep.replicaEnv i)) (fun _ => OnceAt h i) (OnceAt h i)
      { state := r } := by
  have hstart : OnceAt h i ({ state := r } : ReplicaCtx σ Op Res) := by
    rw [OnceAt, past_start]
    exact hr
  have hkeeps : Keeps (OnceAt h i) (Replica.handleViewChangeTimeout (dep.replicaEnv i)) := by
    refine .bind (once_update fun _ _ hfin => hfin) fun _ => ?_
    refine .bind (.gets _) fun r => .bind (once_emit fun _ _ h => by cases h) fun _ => ?_
    exact .bind (once_send _) fun _ => .when (once_send _)
  exact hkeeps _ hstart

/-! ### Whole runs -/

/-- The invariant of a process. -/
def NodeOnce (h : History Op Res) : (n : Node) → State σ Op Res n → Prop
  | .replica i, r => Once h i r
  | .client _, _ => True

theorem once_invariant {w : GlobalState σ Op Res} (hw : dep.system.Reach (Retaining dep) w) :
    (∀ n, NodeOnce w.history n (w.state n)) ∧ ∀ p ∈ w.net, True := by
  -- packets have no invariant
  have hfree : ∀ (h es : List (Node × Event Op Res)) (_ : Packet Node (Msg Op Res)), True → True :=
    fun _ _ _ h => h
  refine hw.invariant (fun n => ?_) hfree
    (fun h n n' es s hne hs => ?_) ?_
  · cases n with
    | client c => trivial
    | replica i => exact fun o => ⟨Nat.zero_le _, fun hpos => absurd hpos (Nat.lt_irrefl 0)⟩
  · cases n with
    | client c => trivial
    | replica i => exact Once.frame hs (Ne.symm hne) es
  · intro w n ω input _ hnodes _ _ hcond
    have hgood : ∀ (i : ℕ) (x : Prog (ReplicaCtx σ Op Res) Unit),
        wp x (fun _ => OnceAt w.history i) (OnceAt w.history i) { state := w.state (.replica i) } →
        wp x (fun _ => Good (fun h (s : State σ Op Res (.replica i)) => NodeOnce h _ s)
          (fun _ _ => True) w.history (.replica i))
          (Good (fun h (s : State σ Op Res (.replica i)) => NodeOnce h _ s) (fun _ _ => True)
            w.history (.replica i)) { state := w.state (.replica i) } := fun i x hx =>
      wp_mono (fun _ c hc => ⟨hc, fun _ _ => trivial⟩) (fun c hc => ⟨hc, fun _ _ => trivial⟩) hx
    cases n with
    | client c =>
      exact wp_of_state ⟨trivial, fun _ _ => trivial⟩
    | replica i =>
      have hr : Once w.history i (w.state (.replica i)) := hnodes (.replica i)
      have hstart : OnceAt w.history i
          ({ state := w.state (.replica i) } : ReplicaCtx σ Op Res) := by
        rw [OnceAt, past_start]
        exact hr
      cases input with
      | recv p => exact hgood i _ (once_handle hr hcond)
      | act a =>
        cases a with
        | client a => exact hgood i _ hstart
        | replica a =>
          cases a with
          | restart => exact absurd hcond id
          | viewChangeTimeout =>
            refine hgood i _ ?_
            show wp (when _ _) _ _ _
            rw [wp_when]
            exact ⟨fun _ => once_timeout hr, fun _ => hstart⟩

/-- **At most once.** In every run in which no view change takes back that an operation is
finalised, no replica executes an operation twice; and a merge keeps every inconsistent operation
finalised that is so in one of the latest records exactly if it meets a finalised copy first. -/
theorem performed_once (dep : Deployment σ Op Res) :
    (∀ w, dep.system.Reach (Retaining dep) w → ∀ i o, times w.history i o ≤ 1) ∧
    ∀ (env : Replica.Env σ Op Res (Event Op Res)) (records : List (DoViewChange Op Res))
      (r : Replica σ Op Res) (o : OpId),
      (∀ R e, Replica.Latest records r R → R.lookup o = some e → e.type = .inconsistent) →
      (((∃ R, Replica.Latest records r R ∧ Final R o) →
        Final (Replica.irMergeRecords env records r).1 o) ↔
      ((∃ R, Replica.Latest records r R ∧ Final R o) → FirstFinal records r o)) := by
  refine ⟨fun w hw i o => ((once_invariant hw).1 (.replica i) o).1, fun env records r o htype => ?_⟩
  refine imp_congr_right fun _ => final_merge_iff fun e he => ?_
  obtain ⟨R, hR, hl⟩ := Replica.mem_latestEntries.mp he
  exact htype R e hR hl

instance (w : GlobalState σ Op Res) (n : Node) (ω : Unit)
    (input : Input Node (Msg Op Res) (Act Op)) : Decidable (NoRestart w n ω input) :=
  match input with
  | .act (.replica .restart) => isFalse id
  | .act (.replica .viewChangeTimeout) => isTrue trivial
  | .act (.client _) => isTrue trivial
  | .recv _ => isTrue trivial

/-- The leader of view 1 executes an operation. -/
def executedByLeader : List (Protocol.Cmd Node (Act ℕ) Unit) :=
  clientAct (.invokeInconsistent 5) :: deliverAll [0, 1, 3, 4, 6]

/-- Replica 0, where the operation is tentative, starts the view change, and then the message of
the client arrives at the leader a second time. -/
def executedAgain : List (Protocol.Cmd Node (Act ℕ) Unit) :=
  executedByLeader ++ replicaAct 0 .viewChangeTimeout :: deliverAll [10, 6]

/-- Replica 0 executes it as well before its record is merged; both messages arrive again in the
new view. -/
def executedByBoth : List (Protocol.Cmd Node (Act ℕ) Unit) :=
  executedByLeader ++ .deliver 5 () :: replicaAct 0 .viewChangeTimeout :: deliverAll [11, 6, 14, 5]

theorem executedAgain_runs : (threeEchoes.system.exec NoRestart threeEchoes.system.start
    executedAgain).isSome := by
  decide +kernel

theorem executedByBoth_runs : (threeEchoes.system.exec (Retaining threeEchoes)
    threeEchoes.system.start executedByBoth).isSome := by
  decide +kernel

theorem performed_once_both :
    (Option.get _ executedByBoth_runs).history.any (performs 0 (1, 1)) = true ∧
      times (Option.get _ executedByBoth_runs).history 0 (1, 1) ≤ 1 :=
  ⟨by decide +kernel, (performed_once threeEchoes).1 _
    (Protocol.Reach.exec .start (Option.some_get executedByBoth_runs).symm) 0 (1, 1)⟩

/-- **Executed twice.** The tentative copy of replica 0 comes before the finalised one of the
leader, the operation is tentative again in the merged record, and the leader executes it again. -/
theorem performed_twice : ∃ w, threeEchoes.system.Reach NoRestart w ∧
    times w.history 1 (1, 1) = 2 :=
  ⟨_, Protocol.Reach.exec .start (Option.some_get executedAgain_runs).symm, by decide +kernel⟩

end D2PC.Ir
