import D2PC.Ir.ClientSteps
import D2PC.Ir.ViewChangeSteps

/-!
# Durability of consensus results

A result a client has reported stays: every record merged for a later view has the operation
finalised with that result. The argument is about the quorum of a merge. It meets the replicas
the result rests on; those that were in the view of the result have the operation in their
record, and the others are in a later view, which started with it.

This needs two things that the code does not ensure (`Cautious`): consensus operations are
handled in normal status only, and the timer of the slow path does not decide another result than
the one the fast path has reported.

* `invariant` : the invariant along every such run;
* `outcome_finalized`, `outcome_tentative` : what a merge makes of an operation;
* `consensus_durable` : the result stays;
* `viewChange_forgets` : a run with view changes, in which it does not.
-/

namespace D2PC.Ir

open Prog Ctx

variable {σ Op Res : Type} [DecidableEq Res] {dep : Deployment σ Op Res}

/-! ### The invariant -/

/-- The condition on the steps. -/
def Cautious (dep : Deployment σ Op Res) (w : GlobalState σ Op Res) (n : Node) (_ : Unit)
    (i : Input Node (Msg Op Res) (Act Op)) : Prop :=
  match n, i with
  | .replica j, .recv p => Ready (w.state (.replica j)) p.msg
  | .client c, .act (.client a) => Consistent dep c (w.state (.client c)) a
  | _, _ => True

instance (dep : Deployment σ Op Res) (w : GlobalState σ Op Res) (n : Node) (ω : Unit)
    (i : Input Node (Msg Op Res) (Act Op)) : Decidable (Cautious dep w n ω i) :=
  match n, i with
  | .replica j, .recv p =>
      inferInstanceAs (Decidable (Ready (w.state (.replica j)) p.msg))
  | .client c, .act (.client a) =>
      inferInstanceAs (Decidable (Consistent dep c (w.state (.client c)) a))
  | .replica _, .act _ => isTrue trivial
  | .client _, .recv _ => isTrue trivial
  | .client _, .act (.replica _) => isTrue trivial

variable {h : History Op Res} {o : OpId} {res : Res} {v u : ℕ} {R : Record Op Res}

/-- The invariant of the processes. -/
def Invariant (dep : Deployment σ Op Res) (h : History Op Res)
    (state : (n : Node) → State σ Op Res n) : Prop :=
  ∀ n, NodeOk dep.cfg h n (state n)

variable {state : (n : Node) → State σ Op Res n}

namespace Invariant

theorem replica (hinv : Invariant dep h state) (i : ℕ) :
    ReplicaOk dep.cfg h i (state (.replica i)) := hinv (.replica i)

theorem client (hinv : Invariant dep h state) (c : ℕ) :
    ClientOk dep.cfg h c (state (.client c)) := hinv (.client c)

theorem kinds (hinv : Invariant dep h state) : Kinds h := by
  rintro ⟨c, r⟩
  exact (hinv.client c).kinds r

theorem finalizing (hinv : Invariant dep h state) (hf : Finalizing h o res) :
    Invoked h o .consensus :=
  ((hinv.client o.1).finalizing o.2 res hf).1

theorem contributed (hinv : Invariant dep h state) {j l : ℕ}
    (hc : Contributed h j u l R) : Entries dep.cfg h R :=
  ((hinv.replica j).contributed u l R hc).2.2.1

theorem merged (hinv : Invariant dep h state) (hm : Merged dep.cfg h u R) :
    0 < u ∧ Entries dep.cfg h R ∧ Master R ∧ Nonempty (Certificate dep.cfg h u R) := by
  obtain ⟨_, hpos, _, _, hrest⟩ := (hinv.replica _).merged u R hm
  exact ⟨hpos, hrest⟩

/-- A view starts with one record. -/
theorem started_unique (hinv : Invariant dep h state) {R' : Record Op Res}
    (hR : Started dep.cfg h v R) (hR' : Started dep.cfg h v R') : R = R' := by
  rcases hR with ⟨hv, rfl⟩ | hm
  · rcases hR' with ⟨_, rfl⟩ | hm'
    · rfl
    · have hpos := (hinv.merged hm').1
      omega
  · rcases hR' with ⟨hv, rfl⟩ | hm'
    · have hpos := (hinv.merged hm).1
      omega
    · exact (hinv.replica _).unique v R R' hm hm'

end Invariant

/-- **The invariant** holds in every cautious run. -/
theorem invariant [Inhabited Res] (hn : dep.cfg.n = 2 * dep.cfg.f + 1)
    (happ : dep.app.KeepsMajority) {w : GlobalState σ Op Res}
    (hw : dep.system.Reach (Cautious dep) w) : Invariant dep w.history w.state ∧
      ∀ p ∈ w.net, PacketOk dep.cfg w.history p := by
  refine hw.invariant (NodeOk.init dep) (fun _ es _ hp => hp.mono es)
    (fun _ _ _ es _ hne hs => hs.frame hne es) ?_
  intro w n ω input _ hnodes hpackets hen hcond
  have hinv : Invariant dep w.history w.state := hnodes
  cases n with
  | replica i =>
      cases input with
      | recv p =>
          obtain ⟨_, hmem, howner⟩ := hen
          obtain ⟨src, dst, m⟩ := p
          obtain ⟨hdst, hi⟩ : dst = .replica i ∧ i < dep.cfg.n := by
            cases dst with
            | client c => cases howner
            | replica j =>
                change (if j < dep.cfg.n then some (Node.replica j) else none) = _ at howner
                split_ifs at howner with hj
                cases howner
                exact ⟨rfl, hj⟩
          rw [hdst] at hmem
          exact replica_recv_good hn happ hi hinv.kinds (fun o res => hinv.finalizing)
            (fun j u l R => hinv.contributed)
            (fun u R hm => ⟨(hinv.merged hm).2.1, (hinv.merged hm).2.2.1⟩) (hinv.replica i)
            (hpackets _ hmem) hcond
      | act a =>
          cases a with
          | client a => exact Good.start (hinv.replica i)
          | replica a =>
              show Prog.wp (when _ _) _ _ _
              rw [wp_when]
              refine ⟨fun hi => ?_, fun _ => Good.start (hinv.replica i)⟩
              exact replica_act_good (of_decide_eq_true hi) (hinv.replica i) a
  | client c =>
      cases input with
      | recv p =>
          obtain ⟨_, hmem, howner⟩ := hen
          obtain ⟨src, dst, m⟩ := p
          obtain rfl : dst = .client c := by
            cases dst with
            | client c' =>
                cases howner
                rfl
            | replica j =>
                change (if j < dep.cfg.n then some (Node.replica j) else none) = _ at howner
                split_ifs at howner
                cases howner
          exact client_recv_good (hinv.client c) (hpackets _ hmem)
      | act a =>
          cases a with
          | replica a => exact Good.start (hinv.client c)
          | client a => exact client_act_good (hinv.client c) hcond

/-! ### What a merge makes of an operation -/

namespace Certificate

variable {cfg : Config} (cert : Certificate cfg h u R)

/-- The entries for an operation in the records that are merged. -/
def entries (o : OpId) : List (RecordEntry Op Res) :=
  cert.order.filterMap fun i => (cert.record i).lookup o

theorem entries_eq (o : OpId) :
    (cert.order.map cert.record).filterMap (fun R' => R'.lookup o) = cert.entries o :=
  List.filterMap_map

theorem mem_entries {e : RecordEntry Op Res} :
    e ∈ cert.entries o ↔ ∃ i ∈ cert.order, (cert.record i).lookup o = some e :=
  List.mem_filterMap

/-- A finalised entry is kept. -/
theorem outcome_finalized (htype : ∀ e ∈ cert.entries o, e.type = .consensus)
    (hresult : ∀ e ∈ cert.entries o, e.state = .finalized → e.result = res)
    (hsome : ∃ e ∈ cert.entries o, e.state = .finalized) : Holds R o res := by
  have hout := cert.outcome o
  rw [cert.entries_eq o] at hout
  obtain ⟨hkept, _⟩ := hout htype
  obtain ⟨e, he, hstate⟩ := hsome
  have hfound : ((cert.entries o).find? Replica.isFinalized).isSome :=
    List.find?_isSome.2 ⟨e, he, decide_eq_true hstate⟩
  obtain ⟨e', hfind⟩ := Option.isSome_iff_exists.1 hfound
  have hmem := List.mem_of_find?_eq_some hfind
  have hfinalized : Replica.isFinalized e' = true := List.find?_some hfind
  have hstate' : e'.state = .finalized := of_decide_eq_true hfinalized
  exact ⟨e', hkept e' hfind, htype e' hmem, hstate', hresult e' hmem hstate'⟩

/-- A majority of the replicas that contribute has the same tentative result. -/
theorem outcome_tentative (htype : ∀ e ∈ cert.entries o, e.type = .consensus)
    (hten : ∀ e ∈ cert.entries o, e.state = .tentative) {S : Finset ℕ}
    (hS : ∀ i ∈ S, i ∈ cert.order ∧ ∃ e, (cert.record i).lookup o = some e ∧ e.result = res)
    (hcard : (cfg.f + 1) / 2 + 1 ≤ S.card) : Holds R o res := by
  have hout := cert.outcome o
  rw [cert.entries_eq o] at hout
  obtain ⟨_, hmajority⟩ := hout htype
  have hlength : (cert.entries o).length ≤ cfg.f + 1 := by
    have hsub : cert.order.toFinset ⊆ cert.quorum := fun i hi =>
      ((cert.mem_order i).1 (List.mem_toFinset.1 hi)).1
    calc (cert.entries o).length ≤ cert.order.length := List.length_filterMap_le _ _
      _ = cert.order.toFinset.card := (List.toFinset_card_of_nodup cert.nodup).symm
      _ ≤ cert.quorum.card := Finset.card_le_card hsub
      _ = cfg.f + 1 := cert.card
  have hcount : S.card ≤ ((cert.entries o).map (·.result)).count res :=
    Replica.card_le_count cert.nodup hS
  refine hmajority res hten (Replica.majorityResult_eq (hcard.trans hcount) hlength) ?_
  have hpos : 0 < ((cert.entries o).map (·.result)).count res := by omega
  intro hnil
  rw [hnil] at hpos
  cases hpos

end Certificate

/-! ### Durability -/

section Durable

variable (hinv : Invariant dep h state)
include hinv

/-- What a success rests on: it was not in the record the view started with, or that record had
the result. -/
theorem start_result (hev : Evidence dep.cfg h o res v) {R₀ : Record Op Res}
    (hstart : Started dep.cfg h v R₀) {e₀ : RecordEntry Op Res} (he₀ : R₀.lookup o = some e₀)
    (htype : e₀.type = .consensus) : e₀.result = res := by
  have hnot : ∀ i res', ¬ Executed h i v o res' := by
    intro i res' hx
    obtain ⟨R₁, hstart₁, hno⟩ := (hinv.replica i).executed v o res' hx
    rw [hinv.started_unique hstart₁ hstart] at hno
    exact hno e₀ he₀ htype
  rcases hev with ⟨S, _, hcard, hall⟩ | ⟨S, _, _, _, ⟨i, res', hx⟩ | ⟨R₁, hm, hh⟩⟩
  · have hpos : 0 < S.card := lt_of_lt_of_le (Nat.succ_pos _) hcard
    obtain ⟨i, hi⟩ := Finset.card_pos.1 hpos
    exact absurd (hall i hi) (hnot i res)
  · exact absurd hx (hnot i res')
  · rw [hinv.started_unique (.inr hm) hstart] at hh
    obtain ⟨e, he, _, _, hres⟩ := hh
    rw [he₀] at he
    cases he
    exact hres

/-- What a replica that contributed has in its record. -/
theorem contributed_record (cert : Certificate dep.cfg h u R) {i : ℕ} (hi : i ∈ cert.order) :
    ∃ R₀, Started dep.cfg h cert.max R₀ ∧ RecordAt h i cert.max R₀ (cert.record i) := by
  obtain ⟨hq, hmax⟩ := (cert.mem_order i).1 hi
  have hc := cert.contributed i hq
  obtain ⟨_, _, _, hrecord, _⟩ := (hinv.replica i).contributed _ _ _ hc
  rw [hmax] at hrecord
  exact hrecord

/-- An operation is of one type in all records. -/
theorem entries_consensus (cert : Certificate dep.cfg h u R) (hcons : Invoked h o .consensus) :
    ∀ e ∈ cert.entries o, e.type = .consensus := by
  intro e he
  obtain ⟨i, hi, hl⟩ := cert.mem_entries.1 he
  have hc := cert.contributed i ((cert.mem_order i).1 hi).1
  exact (hinv.contributed hc o e hl).consensus hinv.kinds hcons

/-- A replica that acted in a view contributes the record of a view not before it. -/
theorem acted_le_latest (cert : Certificate dep.cfg h u R) {i : ℕ} (hi : i ∈ cert.quorum)
    (hacted : (∃ res, Executed h i v o res) ∨ Confirmed h i v o) (hlater : v < u) :
    v ≤ cert.latest i := by
  have hc := cert.contributed i hi
  obtain ⟨_, _, _, _, hlast⟩ := (hinv.replica i).contributed _ _ _ hc
  exact hlast v o hacted hlater

omit hinv in
/-- The quorum of a merge and that of a success meet. -/
theorem quorums_meet (hn : dep.cfg.n = 2 * dep.cfg.f + 1) (cert : Certificate dep.cfg h u R)
    {S : Finset ℕ} (hS : S ⊆ Finset.range dep.cfg.n) {k : ℕ} (hk : dep.cfg.f + k ≤ S.card) :
    k ≤ (S ∩ cert.quorum).card := by
  have hunion : (S ∪ cert.quorum).card ≤ dep.cfg.n := by
    have hle := Finset.card_le_card (Finset.union_subset hS cert.deployed)
    rw [Finset.card_range] at hle
    exact hle
  have hsum := Finset.card_union_add_card_inter S cert.quorum
  have hcard := cert.card
  omega

/-- **A merge of records of a later view.** That view started with the operation. -/
theorem durable_later (cert : Certificate dep.cfg h u R) (hcons : Invoked h o .consensus)
    (hfinal : ∀ res', Finalizing h o res' → res' = res)
    (hheld : ∀ R₀, Started dep.cfg h cert.max R₀ → Holds R₀ o res) : Holds R o res := by
  have hentry : ∀ i ∈ cert.order, ∃ R₀ e₀, RecordAt h i cert.max R₀ (cert.record i) ∧
      R₀.lookup o = some e₀ ∧ e₀.type = .consensus ∧ e₀.result = res := by
    intro i hi
    obtain ⟨R₀, hstart, hat⟩ := contributed_record hinv cert hi
    obtain ⟨e₀, he₀, htype₀, _, hres₀⟩ := hheld R₀ hstart
    exact ⟨R₀, e₀, hat, he₀, htype₀, hres₀⟩
  have htype := entries_consensus hinv cert hcons
  refine cert.outcome_finalized htype (fun e he hstate => ?_) ?_
  · obtain ⟨i, hi, hl⟩ := cert.mem_entries.1 he
    obtain ⟨R₀, e₀, hat, he₀, _, hres₀⟩ := hentry i hi
    rcases hat.finalized o e hl (htype e he) hstate with hf | ⟨e₁, he₁, _, hres₁⟩
    · exact hfinal _ hf
    · rw [he₀] at he₁
      cases he₁
      exact hres₁.symm.trans hres₀
  · obtain ⟨i, hi⟩ := List.exists_mem_of_ne_nil _ cert.nonempty
    obtain ⟨R₀, e₀, hat, he₀, htype₀, _⟩ := hentry i hi
    obtain ⟨e, he, _, hstate⟩ := hat.start o e₀ he₀ htype₀
    exact ⟨e, cert.mem_entries.2 ⟨i, hi, he⟩, hstate⟩

/-- **A merge of records of the view of the success.** -/
theorem durable_same (hn : dep.cfg.n = 2 * dep.cfg.f + 1) (cert : Certificate dep.cfg h u R)
    (hcons : Invoked h o .consensus) (hfinal : ∀ res', Finalizing h o res' → res' = res)
    (hev : Evidence dep.cfg h o res cert.max) (hlater : cert.max < u) : Holds R o res := by
  have htype := entries_consensus hinv cert hcons
  have hresult : ∀ e ∈ cert.entries o, e.state = .finalized → e.result = res := by
    intro e he hstate
    obtain ⟨i, hi, hl⟩ := cert.mem_entries.1 he
    obtain ⟨R₀, hstart, hat⟩ := contributed_record hinv cert hi
    rcases hat.finalized o e hl (htype e he) hstate with hf | ⟨e₀, he₀, htype₀, hres₀⟩
    · exact hfinal _ hf
    · rw [← hres₀]
      exact start_result hinv hev hstart he₀ htype₀
  have horder : ∀ i ∈ cert.quorum, (∃ res, Executed h i cert.max o res) ∨
      Confirmed h i cert.max o → i ∈ cert.order := by
    intro i hi hacted
    have hle := acted_le_latest hinv cert hi hacted hlater
    exact (cert.mem_order i).2 ⟨hi, le_antisymm (cert.le_max i hi) hle⟩
  rcases hev with ⟨S, hS, hcard, hall⟩ | ⟨S, hS, hcard, hall, _⟩
  · by_cases hsome : ∃ e ∈ cert.entries o, e.state = .finalized
    · exact cert.outcome_finalized htype hresult hsome
    · -- all are tentative, and those of the super quorum have the result
      have hten : ∀ e ∈ cert.entries o, e.state = .tentative := by
        intro e he
        cases hstate : e.state with
        | tentative => rfl
        | finalized => exact absurd ⟨e, he, hstate⟩ hsome
      refine cert.outcome_tentative htype hten (fun i hi => ?_)
        (quorums_meet hn cert hS (k := (dep.cfg.f + 1) / 2 + 1) hcard)
      obtain ⟨hiS, hiQ⟩ := Finset.mem_inter.1 hi
      have hio := horder i hiQ (.inl ⟨res, hall i hiS⟩)
      obtain ⟨R₀, _, hat⟩ := contributed_record hinv cert hio
      obtain ⟨e, he, _, hres⟩ := hat.executed o res (hall i hiS)
      exact ⟨hio, e, he, hres (hten e (cert.mem_entries.2 ⟨i, hio, he⟩))⟩
  · obtain ⟨i, hi⟩ := Finset.card_pos.1 (quorums_meet hn cert hS hcard)
    obtain ⟨hiS, hiQ⟩ := Finset.mem_inter.1 hi
    have hio := horder i hiQ (.inr (hall i hiS))
    obtain ⟨R₀, _, hat⟩ := contributed_record hinv cert hio
    obtain ⟨e, he, _, hstate⟩ := hat.confirmed o (hall i hiS)
    exact cert.outcome_finalized htype hresult ⟨e, cert.mem_entries.2 ⟨i, hio, he⟩, hstate⟩

/-- **Durability**, by induction on the view of the merge. -/
theorem merged_holds (hn : dep.cfg.n = 2 * dep.cfg.f + 1) (hsucc : Succeeded h o res v)
    (hm : Merged dep.cfg h u R) (hlater : v < u) : Holds R o res := by
  obtain ⟨hcons, hfinal, hev, _⟩ := (hinv.client o.1).succeeded o.2 res v hsucc
  induction u using Nat.strong_induction_on generalizing R with
  | _ u ih =>
      obtain ⟨_, _, _, ⟨cert⟩⟩ := hinv.merged hm
      have hbelow : cert.max < u := by
        obtain ⟨i, hi⟩ := List.exists_mem_of_ne_nil _ cert.nonempty
        obtain ⟨hq, hmax⟩ := (cert.mem_order i).1 hi
        have hc := cert.contributed i hq
        rw [← hmax]
        exact ((hinv.replica i).contributed _ _ _ hc).2.1
      have hle : v ≤ cert.max := by
        obtain ⟨S, hS, hcard, hacted⟩ : ∃ S ⊆ Finset.range dep.cfg.n,
            dep.cfg.f + 1 ≤ S.card ∧ ∀ i ∈ S, (∃ res, Executed h i v o res) ∨
              Confirmed h i v o := by
          rcases hev with ⟨S, hS, hcard, hall⟩ | ⟨S, hS, hcard, hall, _⟩
          · refine ⟨S, hS, le_trans ?_ hcard, fun i hi => .inl ⟨res, hall i hi⟩⟩
            unfold Config.fastQuorumSize
            omega
          · exact ⟨S, hS, hcard, fun i hi => .inr (hall i hi)⟩
        obtain ⟨i, hi⟩ := Finset.card_pos.1 (quorums_meet hn cert hS hcard)
        obtain ⟨hiS, hiQ⟩ := Finset.mem_inter.1 hi
        exact (acted_le_latest hinv cert hiQ (hacted i hiS) hlater).trans (cert.le_max i hiQ)
      rcases hle.eq_or_lt with heq | hlt
      · rw [heq] at hev
        exact durable_same hinv hn cert hcons hfinal hev hbelow
      · refine durable_later hinv cert hcons hfinal fun R₀ hstart => ?_
        rcases hstart with ⟨hzero, _⟩ | hm₀
        · omega
        · exact ih cert.max hbelow hm₀ hlt

end Durable

/-- **IR durability.** In every run that meets the condition, a result a client has reported is
in every record merged for a later view, finalised. -/
theorem consensus_durable [Inhabited Res] (dep : Deployment σ Op Res)
    (hn : dep.cfg.n = 2 * dep.cfg.f + 1) (happ : dep.app.KeepsMajority)
    (w : GlobalState σ Op Res) (hw : dep.system.Reach (Cautious dep) w) (o : OpId) (res : Res)
    (v u : ℕ) (R : Record Op Res) (hsucc : Succeeded w.history o res v)
    (hmerged : Merged dep.cfg w.history u R) (hlater : v < u) : Holds R o res :=
  merged_holds (invariant hn happ hw).1 hn hsucc hmerged hlater

/-! ### Schedules -/

/-- At most `f` replicas have failed. One that is started again fails for good. -/
def FewFailed (dep : Deployment σ Op Res) (w : GlobalState σ Op Res) : Prop :=
  ((List.range dep.cfg.n).filter fun i => w.crashed (.replica i)).length ≤ dep.cfg.f

/-- The event is the installation of a record with the property, merged for the view. -/
def installs (cfg : Config) (u : ℕ) (p : Record Op Res → Bool) : Node × Event Op Res → Bool
  | (.replica i, .replica (.merged u' R)) => i == cfg.leader u && u' == u && p R
  | _ => false

omit [DecidableEq Res] in
theorem exists_installed {cfg : Config} {p : Record Op Res → Bool}
    (hinstalled : ∃ x ∈ h, installs cfg u p x = true) :
    ∃ R, Merged cfg h u R ∧ p R = true := by
  obtain ⟨⟨n, e⟩, hmem, hx⟩ := hinstalled
  cases n with
  | client c => cases hx
  | replica i =>
      cases e with
      | client e => cases hx
      | replica e =>
          cases e with
          | merged u' R =>
              simp only [installs, Bool.and_eq_true, beq_iff_eq] at hx
              obtain ⟨⟨hi, hu⟩, hp⟩ := hx
              rw [hi, hu] at hmem
              exact ⟨R, hmem, hp⟩
          | _ => cases hx

/-- The event is the report of the result. -/
def reports (o : OpId) (res : ℕ) (v : ℕ) : Node × Event ℕ ℕ → Bool
  | (.client c, .client e) => c == o.1 && decide (e = .succeeded o.2 res v)
  | _ => false

theorem Succeeded.of_reports {h : History ℕ ℕ} {res : ℕ}
    (hreported : ∃ x ∈ h, reports o res v x = true) : Succeeded h o res v := by
  obtain ⟨⟨n, e⟩, hmem, hx⟩ := hreported
  cases n with
  | replica i => cases hx
  | client c =>
      cases e with
      | replica e => cases hx
      | client e =>
          simp only [reports, Bool.and_eq_true, beq_iff_eq, decide_eq_true_eq] at hx
          rw [hx.1, hx.2] at hmem
          exact hmem

/-- An application whose results are the operations. -/
def echo : App Unit ℕ ℕ where
  init := ()
  execInconsistentUpcall := fun _ s => s
  execConsensusUpcall := fun op s => (op, s)
  sync := fun _ s => s
  merge := fun _ _ majority s => (majority, s)

theorem echo_keepsMajority : echo.KeepsMajority := fun _ _ _ _ _ _ _ _ hres => hres

/-- Three replicas of the application. -/
def threeEchoes : Deployment Unit ℕ ℕ where
  cfg := ⟨3, 1⟩
  app := echo
  decide := fun op _ => op

instance (w : GlobalState Unit ℕ ℕ) : Decidable (FewFailed threeEchoes w) := Nat.decLe _ _

def clientAct (a : ClientAct ℕ) : Protocol.Cmd Node (Act ℕ) Unit := .act (.client 1) () (.client a)

def replicaAct (i : ℕ) (a : ReplicaAct) : Protocol.Cmd Node (Act ℕ) Unit :=
  .act (.replica i) () (.replica a)

/-- Packets are delivered, by their positions. -/
def deliverAll (packets : List ℕ) : List (Protocol.Cmd Node (Act ℕ) Unit) :=
  packets.map fun k => .deliver k ()

/-- Two replicas execute and confirm an operation. -/
def slowSuccess : List (Protocol.Cmd Node (Act ℕ) Unit) :=
  clientAct (.invokeConsensus 7) :: deliverAll [0, 1, 3, 4] ++
    clientAct (.timeout (.slowPath 1)) :: deliverAll [5, 6, 8, 9]

/-- One of the two starts a view change. -/
def thenViewChange : List (Protocol.Cmd Node (Act ℕ) Unit) :=
  slowSuccess ++ replicaAct 0 .viewChangeTimeout :: deliverAll [11]

/-- Two replicas execute and confirm an operation after they have sent their records, and start
the view with the record of the leader. -/
def duringViewChange : List (Protocol.Cmd Node (Act ℕ) Unit) :=
  [replicaAct 0 .viewChangeTimeout, replicaAct 2 .viewChangeTimeout,
    clientAct (.invokeConsensus 7)] ++ deliverAll [4, 6, 7, 8] ++
  clientAct (.timeout (.slowPath 1)) :: deliverAll [9, 11, 12, 13, 1, 16, 17] ++
  replicaAct 0 .viewChangeTimeout :: deliverAll [19]

theorem thenViewChange_runs : (threeEchoes.system.exec (Cautious threeEchoes)
    threeEchoes.system.start thenViewChange).isSome := by
  decide +kernel

theorem duringViewChange_runs : (threeEchoes.system.exec (fun w _ _ _ => FewFailed threeEchoes w)
    threeEchoes.system.start duringViewChange).isSome := by
  decide +kernel

/-- After the view change the operation is there, finalised. -/
theorem thenViewChange_durable :
    Succeeded (Option.get _ thenViewChange_runs).history (1, 1) 7 0 ∧
      ∃ R, Merged ⟨3, 1⟩ (Option.get _ thenViewChange_runs).history 1 R ∧ Holds R (1, 1) 7 := by
  have hsucc : Succeeded (Option.get _ thenViewChange_runs).history (1, 1) 7 0 :=
    .of_reports (by decide +kernel)
  obtain ⟨R, hmerged, _⟩ : ∃ R, Merged ⟨3, 1⟩ (Option.get _ thenViewChange_runs).history 1 R ∧ _ :=
    exists_installed (p := fun _ => true) (by decide +kernel)
  exact ⟨hsucc, R, hmerged, consensus_durable threeEchoes rfl echo_keepsMajority _
    (Protocol.Reach.exec .start (Option.some_get thenViewChange_runs).symm) (1, 1) 7 0 1 R hsucc
    hmerged (by decide)⟩

/-- A run in which the record of a later view does not have the operation. -/
theorem not_holds_of_installs {w : GlobalState Unit ℕ ℕ} {o : OpId} {res u : ℕ}
    (hinstalled : ∃ x ∈ w.history, installs threeEchoes.cfg u (fun R => (R.lookup o).isNone) x) :
    ∃ R, Merged threeEchoes.cfg w.history u R ∧ ¬ Holds R o res := by
  obtain ⟨R, hmerged, hnone⟩ := exists_installed hinstalled
  refine ⟨R, hmerged, ?_⟩
  rintro ⟨e, he, _⟩
  rw [he] at hnone
  cases hnone

/-- **Forgotten results.** What was executed and confirmed in a view before it started is not in the
record it starts with. -/
theorem viewChange_forgets :
    ∃ w, threeEchoes.system.Reach (fun w _ _ _ => FewFailed threeEchoes w) w ∧
      FewFailed threeEchoes w ∧ Succeeded w.history (1, 1) 7 1 ∧
      ∃ R, Merged threeEchoes.cfg w.history 2 R ∧ ¬ Holds R (1, 1) 7 :=
  ⟨_, Protocol.Reach.exec .start (Option.some_get duringViewChange_runs).symm, by decide +kernel,
    .of_reports (by decide +kernel), not_holds_of_installs (by decide +kernel)⟩

end D2PC.Ir
