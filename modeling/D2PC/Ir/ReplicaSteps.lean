import D2PC.Ir.Invariant

/-!
# Operations at a replica

Consensus messages are handled in normal status only; then the record of a replica stays what
the invariant says of its view.

* `RecordAt.execute`, `RecordAt.finalize` : the record when a consensus operation is executed or
  finalised;
* `ReplicaOk.setInconsistent`, `ReplicaOk.act` : the replica that does it;
* `handleProposeConsensus_ok` and the other handlers of operations.
-/

namespace D2PC.Ir

open Prog Ctx

variable {σ Op Res : Type} [DecidableEq Res]
variable {cfg : Config} {h : History Op Res} {i view : ℕ} {o : OpId} {res : Res}
variable {R R₀ : Record Op Res} {e : RecordEntry Op Res} {r : Replica σ Op Res}

/-! ### Operations -/

section Record

omit [DecidableEq Res]

/-- An entry of an inconsistent operation is set. -/
theorem RecordAt.setInconsistent (hR : RecordAt h i view R₀ R) (he : e.type = .inconsistent)
    (hold : ∀ e', R.lookup o = some e' → e'.type = .inconsistent) :
    RecordAt h i view R₀ (R.insert o e) := by
  have hkeep : ∀ o' e', R.lookup o' = some e' → e'.type = .consensus →
      (R.insert o e).lookup o' = some e' := by
    intro o' e' he' ht
    rw [Table.lookup_insert_eq, if_neg]
    · exact he'
    · rintro rfl
      exact absurd ((hold e' he').symm.trans ht) RecordEntryType.noConfusion
  have hback : ∀ o' e', (R.insert o e).lookup o' = some e' → e'.type = .consensus →
      R.lookup o' = some e' := by
    intro o' e' he' ht
    rw [Table.lookup_insert_eq] at he'
    split_ifs at he' with heq
    · cases he'
      exact absurd (he.symm.trans ht) RecordEntryType.noConfusion
    · exact he'
  refine ⟨fun o' e₀ he₀ ht => ?_, fun o' e' he' ht => hR.tentative o' e' (hback o' e' he' ht) ht,
    fun o' e' he' ht => hR.finalized o' e' (hback o' e' he' ht) ht, fun o' res hx => ?_,
    fun o' hc => ?_⟩
  · obtain ⟨e', he', ht', hs'⟩ := hR.start o' e₀ he₀ ht
    exact ⟨e', hkeep o' e' he' ht', ht', hs'⟩
  · obtain ⟨e', he', ht', hs'⟩ := hR.executed o' res hx
    exact ⟨e', hkeep o' e' he' ht', ht', hs'⟩
  · obtain ⟨e', he', ht', hs'⟩ := hR.confirmed o' hc
    exact ⟨e', hkeep o' e' he' ht', ht', hs'⟩

/-- A consensus operation is executed. -/
theorem RecordAt.execute (hR : RecordAt h i view R₀ R) (hnew : R.lookup o = none) {op : Op}
    (hview : e.view = view) (hstate : e.state = .tentative) (htype : e.type = .consensus) :
    RecordAt (h ++ [(Node.replica i, Event.replica (.executed view o op e.result))]) i view R₀
      (R.insert o e) := by
  set es : History Op Res :=
    [(Node.replica i, Event.replica (.executed view o op e.result))] with hes
  have hkeep : ∀ o' e', R.lookup o' = some e' → (R.insert o e).lookup o' = some e' := by
    intro o' e' he'
    rw [Table.lookup_insert_eq, if_neg]
    · exact he'
    · rintro rfl
      rw [hnew] at he'
      cases he'
  have hback : ∀ o' e', (R.insert o e).lookup o' = some e' → R.lookup o' = some e' ∨
      o' = o ∧ e' = e := by
    intro o' e' he'
    rw [Table.lookup_insert_eq] at he'
    split_ifs at he' with heq
    · exact .inr ⟨heq, (Option.some.inj he').symm⟩
    · exact .inl he'
  refine ⟨fun o' e₀ he₀ ht => ?_, fun o' e' he' ht hs => ?_, fun o' e' he' ht hs => ?_,
    fun o' res hx => ?_, fun o' hc => ?_⟩
  · obtain ⟨e', he', hrest⟩ := hR.start o' e₀ he₀ ht
    exact ⟨e', hkeep o' e' he', hrest⟩
  · rcases hback o' e' he' with hold | ⟨rfl, rfl⟩
    · obtain ⟨hx, hv⟩ := hR.tentative o' e' hold ht hs
      exact ⟨hx.mono es, hv⟩
    · exact ⟨⟨op, mem_concat.2 (.inr ⟨rfl, rfl⟩)⟩, hview⟩
  · rcases hback o' e' he' with hold | ⟨rfl, rfl⟩
    · exact (hR.finalized o' e' hold ht hs).imp_left (·.mono es)
    · exact absurd (hstate.symm.trans hs) RecordEntryState.noConfusion
  · obtain ⟨op', hmem⟩ := hx
    rcases mem_concat.1 hmem with hold | ⟨_, heq⟩
    · obtain ⟨e', he', hrest⟩ := hR.executed o' res ⟨op', hold⟩
      exact ⟨e', hkeep o' e' he', hrest⟩
    · cases heq
      refine ⟨e, ?_, htype, fun _ => rfl⟩
      rw [Table.lookup_insert_eq, if_pos rfl]
  · obtain ⟨res, hmem⟩ := hc
    rcases mem_concat.1 hmem with hold | ⟨_, heq⟩
    · obtain ⟨e', he', hrest⟩ := hR.confirmed o' ⟨res, hold⟩
      exact ⟨e', hkeep o' e' he', hrest⟩
    · cases heq

/-- A consensus operation is finalised for its client. -/
theorem RecordAt.finalize (hR : RecordAt h i view R₀ R) (o : OpId) (e' : RecordEntry Op Res)
    (hfin : Finalizing h o e'.result) (htype : e'.type = .consensus)
    (hstate : e'.state = .finalized) :
    RecordAt (h ++ [(Node.replica i, Event.replica (.confirmed view o e'.result))]) i view R₀
      (R.insert o e') := by
  set es : History Op Res :=
    [(Node.replica i, Event.replica (.confirmed view o e'.result))] with hes
  have hnew : (R.insert o e').lookup o = some e' := by
    rw [Table.lookup_insert_eq, if_pos rfl]
  have hkeep : ∀ o' e₁, o' ≠ o → R.lookup o' = some e₁ →
      (R.insert o e').lookup o' = some e₁ := by
    intro o' e₁ hne he₁
    rw [Table.lookup_insert_eq, if_neg hne]
    exact he₁
  have hback : ∀ o' e₁, (R.insert o e').lookup o' = some e₁ → R.lookup o' = some e₁ ∨
      o' = o ∧ e₁ = e' := by
    intro o' e₁ he₁
    rw [Table.lookup_insert_eq] at he₁
    split_ifs at he₁ with heq
    · exact .inr ⟨heq, (Option.some.inj he₁).symm⟩
    · exact .inl he₁
  refine ⟨fun o' e₀ he₀ ht => ?_, fun o' e₁ he₁ ht hs => ?_, fun o' e₁ he₁ ht hs => ?_,
    fun o' res hx => ?_, fun o' hc => ?_⟩
  · by_cases heq : o' = o
    · rw [heq]
      exact ⟨e', hnew, htype, hstate⟩
    · obtain ⟨e₁, he₁, hrest⟩ := hR.start o' e₀ he₀ ht
      exact ⟨e₁, hkeep o' e₁ heq he₁, hrest⟩
  · rcases hback o' e₁ he₁ with hold | ⟨rfl, rfl⟩
    · obtain ⟨hx, hv⟩ := hR.tentative o' e₁ hold ht hs
      exact ⟨hx.mono es, hv⟩
    · exact absurd (hstate.symm.trans hs) RecordEntryState.noConfusion
  · rcases hback o' e₁ he₁ with hold | ⟨rfl, rfl⟩
    · exact (hR.finalized o' e₁ hold ht hs).imp_left (·.mono es)
    · exact .inl (hfin.mono es)
  · by_cases heq : o' = o
    · rw [heq]
      exact ⟨e', hnew, htype, fun hten => absurd (hstate.symm.trans hten)
        RecordEntryState.noConfusion⟩
    · obtain ⟨op, hmem⟩ := hx
      rcases mem_concat.1 hmem with hold | ⟨_, heq⟩
      · obtain ⟨e₁, he₁, hrest⟩ := hR.executed o' res ⟨op, hold⟩
        exact ⟨e₁, hkeep o' e₁ heq he₁, hrest⟩
      · cases heq
  · by_cases heq : o' = o
    · rw [heq]
      exact ⟨e', hnew, htype, hstate⟩
    · obtain ⟨res, hmem⟩ := hc
      rcases mem_concat.1 hmem with hold | ⟨_, heq'⟩
      · obtain ⟨e₁, he₁, hrest⟩ := hR.confirmed o' ⟨res, hold⟩
        exact ⟨e₁, hkeep o' e₁ heq he₁, hrest⟩
      · cases heq'
        exact absurd rfl heq

theorem Entries.insert (hR : Entries cfg h R) (he : EntryOk cfg h o e) :
    Entries cfg h (R.insert o e) := by
  intro o' e' he'
  rw [Table.lookup_insert_eq] at he'
  split_ifs at he' with heq
  · cases he'
    rw [heq]
    exact he
  · exact hR o' e' he'

theorem Entries.empty : Entries cfg h (∅ : Record Op Res) := by
  intro o e he
  cases he

end Record

theorem ReplicaOk.setInconsistent (hr : ReplicaOk cfg h i r) (he : e.type = .inconsistent)
    (hinv : Invoked h o .inconsistent)
    (hold : ∀ e', r.record.lookup o = some e' → e'.type = .inconsistent) (app : σ) :
    ReplicaOk cfg h i { r with record := r.record.insert o e, app := app } := by
  have hentry : EntryOk cfg h o e := by
    refine ⟨by rw [he]; exact hinv, fun ht => ?_⟩
    exact absurd (he.symm.trans ht) RecordEntryType.noConfusion
  refine ⟨hr.normal, hr.changing, hr.entries.insert hentry, ?_, hr.acted, hr.executed,
    hr.contributed, hr.merged, hr.unique, hr.collected, hr.collecting, hr.ahead⟩
  obtain ⟨R₀, hstart, hat⟩ := hr.record
  exact ⟨R₀, hstart, hat.setInconsistent he hold⟩

/-- **A consensus operation** is executed or finalised in the current view. -/
theorem ReplicaOk.act (hr : ReplicaOk cfg h i r) (hnormal : r.status = .normal)
    {ev : ReplicaEvent Op Res}
    (hev : (∃ o op res, ev = .executed r.view o op res) ∨ ∃ o res, ev = .confirmed r.view o res)
    (hentries : Entries cfg (h ++ [(Node.replica i, Event.replica ev)]) R)
    (hrecord : RecordOk cfg (h ++ [(Node.replica i, Event.replica ev)]) i r.view R)
    (hfresh : ∀ o op res, ev = .executed r.view o op res → ∃ R₀, Started cfg h r.view R₀ ∧
      ∀ e₀, R₀.lookup o = some e₀ → e₀.type ≠ .consensus) (app : σ) :
    ReplicaOk cfg (h ++ [(Node.replica i, Event.replica ev)]) i
      { r with record := R, app := app } := by
  set es : History Op Res := [(Node.replica i, Event.replica ev)] with hes
  have hview := hr.normal hnormal
  have hexec : ∀ v o res, Executed (h ++ es) i v o res → Executed h i v o res ∨
      v = r.view ∧ ∃ op, ev = .executed r.view o op res := by
    rintro v o res ⟨op, hmem⟩
    rcases mem_concat.1 hmem with hold | ⟨_, heq⟩
    · exact .inl ⟨op, hold⟩
    · cases heq
      rcases hev with ⟨o', op', res', heq⟩ | ⟨o', res', heq⟩
      · cases heq
        exact .inr ⟨rfl, op, rfl⟩
      · cases heq
  have hconf : ∀ v o, Confirmed (h ++ es) i v o → Confirmed h i v o ∨ v = r.view := by
    rintro v o ⟨res, hmem⟩
    rcases mem_concat.1 hmem with hold | ⟨_, heq⟩
    · exact .inl ⟨res, hold⟩
    · cases heq
      rcases hev with ⟨o', op', res', heq⟩ | ⟨o', res', heq⟩
      · cases heq
      · cases heq
        exact .inr rfl
  have hacted : ∀ v o, (∃ res, Executed (h ++ es) i v o res) ∨ Confirmed (h ++ es) i v o →
      ((∃ res, Executed h i v o res) ∨ Confirmed h i v o) ∨ v = r.view := by
    rintro v o (⟨res, hx⟩ | hc)
    · exact (hexec v o res hx).imp (fun hx => .inl ⟨res, hx⟩) And.left
    · exact (hconf v o hc).imp_left .inr
  have hquiet : ∀ v, v ≠ r.view → Quiet h es i v := fun v hv =>
    ⟨fun o res hx => (hexec v o res hx).resolve_right fun heq => hv heq.1,
      fun o hc => (hconf v o hc).resolve_right hv⟩
  have hother : ∀ e, (∀ o op res, e ≠ .executed r.view o op res) →
      (∀ o res, e ≠ .confirmed r.view o res) → (Node.replica i, Event.replica e) ∈ h ++ es →
      (Node.replica i, Event.replica e) ∈ h := by
    intro e hne hnc hmem
    rcases mem_concat.1 hmem with hold | ⟨_, heq⟩
    · exact hold
    · cases heq
      rcases hev with ⟨o', op', res', heq⟩ | ⟨o', res', heq⟩
      · exact absurd heq (hne o' op' res')
      · exact absurd heq (hnc o' res')
  refine ⟨hr.normal, hr.changing, hentries, ?_, fun v o hx => ?_, fun v o res hx => ?_,
    fun u l R' hc => ?_, fun u R' hm => ?_, fun u R₁ R₂ h₁ h₂ => ?_, fun u j m hl => ?_,
    hr.collecting, hr.ahead⟩
  · show RecordOk cfg (h ++ es) i r.latestNormalView R
    rw [hview]
    exact hrecord
  · rcases hacted v o hx with hold | rfl
    · exact hr.acted v o hold
    · exact hview.ge
  · rcases hexec v o res hx with hold | ⟨rfl, op, heq⟩
    · obtain ⟨R₀, hstart, hnot⟩ := hr.executed v o res hold
      exact ⟨R₀, hstart.mono es, hnot⟩
    · obtain ⟨R₀, hstart, hnot⟩ := hfresh o op res heq
      exact ⟨R₀, hstart.mono es, hnot⟩
  · obtain ⟨hu, hl, hE, hR, hlast⟩ := hr.contributed u l R'
      (hother _ (fun _ _ _ heq => by cases heq) (fun _ _ heq => by cases heq) hc)
    refine ⟨hu, hl, hE.mono es, hR.mono (hquiet l ?_), fun v o hx hv => ?_⟩
    · omega
    · rcases hacted v o hx with hold | rfl
      · exact hlast v o hold hv
      · omega
  · obtain ⟨hi, hpos, hu, hn, hE, hM, ⟨cert⟩⟩ := hr.merged u R'
      (hother _ (fun _ _ _ heq => by cases heq) (fun _ _ heq => by cases heq) hm)
    exact ⟨hi, hpos, hu, hn, hE.mono es, hM, ⟨cert.mono es⟩⟩
  · exact hr.unique u R₁ R₂
      (hother _ (fun _ _ _ heq => by cases heq) (fun _ _ heq => by cases heq) h₁)
      (hother _ (fun _ _ _ heq => by cases heq) (fun _ _ heq => by cases heq) h₂)
  · obtain ⟨hne, hlt, hidx, hv, R', hR', hc⟩ := hr.collected u j m hl
    exact ⟨hne, hlt, hidx, hv, R', hR', hc.mono es⟩

/-! ### The handlers for operations -/

section Handlers

variable {dep : Deployment σ Op Res} {src dst : Node} {op : Op}

abbrev ReplicaGood (dep : Deployment σ Op Res) (h : History Op Res) (i : ℕ) :
    Ctx (Replica σ Op Res) Node (Msg Op Res) (Event Op Res) → Prop :=
  Ctx.Good (fun h r => ReplicaOk dep.cfg h i r) (PacketOk dep.cfg) h (.replica i)

/-- An operation is of one type. -/
def Kinds (h : History Op Res) : Prop :=
  ∀ o, Invoked h o .consensus → ¬ Invoked h o .inconsistent

omit [DecidableEq Res] in
theorem EntryOk.consensus (he : EntryOk cfg h o e) (hkinds : Kinds h)
    (hinv : Invoked h o .consensus) : e.type = .consensus := by
  cases htype : e.type with
  | consensus => rfl
  | inconsistent =>
      have hinv' := he.invoked
      rw [htype] at hinv'
      exact absurd hinv' (hkinds o hinv)

omit [DecidableEq Res] in
theorem EntryOk.inconsistent (he : EntryOk cfg h o e) (hkinds : Kinds h)
    (hinv : Invoked h o .inconsistent) : e.type = .inconsistent := by
  cases htype : e.type with
  | inconsistent => rfl
  | consensus =>
      have hinv' := he.invoked
      rw [htype] at hinv'
      exact absurd hinv (hkinds o hinv')

theorem handleProposeInconsistent_ok [Inhabited Res] (hr : ReplicaOk dep.cfg h i r)
    (hp : PacketOk dep.cfg h ⟨src, dst, .proposeInconsistent o op⟩) :
    Prog.wp (Replica.handleProposeInconsistent (dep.replicaEnv i) src o op)
      (fun _ => ReplicaGood dep h i) (ReplicaGood dep h i) { state := r } := by
  simp only [Replica.handleProposeInconsistent, wp_bind, wp_read]
  cases hl : r.record.lookup o with
  | some entry =>
      simp only [Replica.reply, wp_send]
      exact Good.send_one (Good.start hr) trivial
  | none =>
      simp only [Replica.reply, Replica.addEntry, wp_bind, wp_read, wp_update, wp_send]
      refine Good.send_one (Good.update (Good.start hr) ?_) trivial
      rw [past_start]
      refine hr.setInconsistent rfl hp.2 (fun e' he' => ?_) r.app
      rw [hl] at he'
      cases he'

theorem handleFinalizeInconsistent_ok (hi : i < dep.cfg.n) (hkinds : Kinds h)
    (hr : ReplicaOk dep.cfg h i r)
    (hp : PacketOk dep.cfg h ⟨src, dst, .finalizeInconsistent o⟩) :
    Prog.wp (Replica.handleFinalizeInconsistent (dep.replicaEnv i) src o)
      (fun _ => ReplicaGood dep h i) (ReplicaGood dep h i) { state := r } := by
  simp only [Replica.handleFinalizeInconsistent, wp_bind, wp_read]
  cases hl : r.record.lookup o with
  | none => exact Good.start hr
  | some entry =>
      simp only [Replica.reply, Replica.addEntry, wp_when, wp_bind, wp_read, wp_update, wp_send,
        wp_emit]
      refine ⟨fun _ => ?_, fun _ => Good.start hr⟩
      have htype := (hr.entries o entry hl).inconsistent hkinds hp.2
      have hset := hr.setInconsistent (e := { entry with opid := o, state := .finalized }) htype
        hp.2 (fun e' he' => by
          rw [hl] at he'
          cases he'
          exact htype) (dep.app.execInconsistentUpcall entry.request r.app)
      refine Good.send_one (Good.record (fun _ es _ hp => hp.mono es) (Good.start hr) ?_) ?_
      · rw [past_start]
        refine hset.frame fun e hne hmem => ?_
        rcases mem_concat.1 hmem with hold | ⟨_, heq⟩
        · exact hold
        · cases heq
          exact absurd rfl (hne _ _)
      · exact ⟨hp.1, hi, .inr (hp.2.mono _)⟩

theorem handleProposeConsensus_ok (hi : i < dep.cfg.n) (hkinds : Kinds h)
    (hr : ReplicaOk dep.cfg h i r) (hnormal : r.status = .normal)
    (hp : PacketOk dep.cfg h ⟨src, dst, .proposeConsensus o op⟩) :
    Prog.wp (Replica.handleProposeConsensus (dep.replicaEnv i) src o op)
      (fun _ => ReplicaGood dep h i) (ReplicaGood dep h i) { state := r } := by
  obtain ⟨hsrc, hinv⟩ := hp
  have hrecord := hr.record
  rw [hr.normal hnormal] at hrecord
  obtain ⟨R₀, hstart, hat⟩ := hrecord
  simp only [Replica.handleProposeConsensus, wp_bind, wp_read]
  cases hl : r.record.lookup o with
  | some entry =>
      simp only [Replica.reply, wp_send]
      refine Good.send_one (Good.start hr) ?_
      rw [past_start]
      have hentry := hr.entries o entry hl
      have htype := hentry.consensus hkinds hinv
      refine ⟨hsrc, hi, fun hten => ?_, fun hfin => ?_⟩
      · have hstate : entry.state = .tentative := by
          cases hstate : entry.state with
          | tentative => rfl
          | finalized =>
              rw [hstate] at hten
              cases hten
        obtain ⟨hx, hv⟩ := hat.tentative o entry hl htype hstate
        rw [hv]
        exact hx
      · exact hentry.origin htype (of_decide_eq_true hfin)
  | none =>
      simp only [Replica.reply, Replica.addEntry, wp_bind, wp_read, wp_update, wp_send, wp_emit]
      set result := ((dep.replicaEnv i).app.execConsensusUpcall op r.app).1 with hresult
      refine Good.send_one (Good.record (fun _ es _ hp => hp.mono es) (Good.start hr) ?_) ?_
      · rw [past_start]
        refine hr.act hnormal (.inl ⟨o, op, result, rfl⟩) ?_ ?_ (fun o' op' res' heq => ?_) _
        · refine (hr.entries.mono _).insert ⟨hinv.mono _, fun _ hfin => ?_⟩
          cases hfin
        · exact ⟨R₀, hstart.mono _, hat.execute (e := { view := r.view
                                                        opid := o
                                                        state := .tentative
                                                        type := .consensus
                                                        request := op
                                                        result := result }) hl rfl rfl rfl⟩
        · cases heq
          refine ⟨R₀, hstart, fun e₀ he₀ htype => ?_⟩
          obtain ⟨e, he, _⟩ := hat.start o e₀ he₀ htype
          rw [hl] at he
          cases he
      · refine ⟨hsrc, hi, fun _ => ⟨op, mem_past_emit _⟩, fun hfin => ?_⟩
        cases hfin

theorem handleFinalizeConsensus_ok (hi : i < dep.cfg.n) (hkinds : Kinds h)
    (hr : ReplicaOk dep.cfg h i r) (hnormal : r.status = .normal)
    (hp : PacketOk dep.cfg h ⟨src, dst, .finalizeConsensus o res⟩)
    (hinv : Invoked h o .consensus) :
    Prog.wp (Replica.handleFinalizeConsensus (dep.replicaEnv i) src o res)
      (fun _ => ReplicaGood dep h i) (ReplicaGood dep h i) { state := r } := by
  obtain ⟨hsrc, hfin⟩ := hp
  have hrecord := hr.record
  rw [hr.normal hnormal] at hrecord
  obtain ⟨R₀, hstart, hat⟩ := hrecord
  simp only [Replica.handleFinalizeConsensus, wp_bind, wp_read]
  cases hl : r.record.lookup o with
  | none => exact Good.start hr
  | some entry =>
      simp only [Replica.reply, Replica.addEntry, wp_bind, wp_read, wp_update, wp_send, wp_emit]
      have htype := (hr.entries o entry hl).consensus hkinds hinv
      refine Good.send_one (Good.record (fun _ es _ hp => hp.mono es) (Good.start hr) ?_) ?_
      · rw [past_start]
        refine hr.act hnormal (.inr ⟨o, res, rfl⟩) ?_ ?_ (fun o' op' res' heq => by cases heq) _
        · refine (hr.entries.mono _).insert ⟨?_, fun _ _ => .inl ⟨res, hfin.mono _⟩⟩
          show Invoked _ o entry.type
          rw [htype]
          exact hinv.mono _
        · refine ⟨R₀, hstart.mono _, ?_⟩
          exact hat.finalize o { entry with opid := o, state := .finalized, result := res }
            hfin htype rfl
      · exact ⟨hsrc, hi, .inl ⟨⟨res, mem_past_emit _⟩, res, hfin.mono _⟩⟩

end Handlers

end D2PC.Ir
