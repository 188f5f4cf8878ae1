import D2PC.Ir.ReplicaSteps

/-!
# View changes

A replica that leaves its view gives the record of its latest normal view to the merge for the
next one. The leader that merges `f + 1` of them starts the view with the result.

* `ReplicaOk.leave`, `ReplicaOk.contribute` : a replica leaves its view;
* `ReplicaOk.start` : a replica starts a view;
* `merge_outcome`, `merge_entries`, `merge_master` : the merged record;
* `certificate` : how it came about.
-/

namespace D2PC.Ir

open Prog Ctx

variable {σ Op Res : Type} [DecidableEq Res]
variable {cfg : Config} {h : History Op Res} {i view : ℕ} {o : OpId} {res : Res}
variable {R R₀ : Record Op Res} {e : RecordEntry Op Res} {r : Replica σ Op Res}

/-! ### Leaving a view -/

/-- **A replica leaves its view** for a later one. -/
theorem ReplicaOk.leave (hr : ReplicaOk cfg h i r) {u : ℕ} (hu : r.view < u) {status : Status}
    (hstatus : status ≠ .normal) : ReplicaOk cfg h i { r with status := status, view := u } := by
  have hle : r.latestNormalView ≤ r.view := by
    by_cases hn : r.status = .normal
    · exact (hr.normal hn).le
    · exact (hr.changing hn).le
  refine ⟨fun hn => absurd hn hstatus, fun _ => ?_, hr.entries, hr.record, hr.acted, hr.executed,
    fun u' l R' hc => ?_, fun u' R' hm => ?_, hr.unique, hr.collected,
    fun _ => .inr (hr.ahead u hu), fun u' hu' => hr.ahead u' (hu.trans hu')⟩
  · exact lt_of_le_of_lt hle hu
  · obtain ⟨hu', hrest⟩ := hr.contributed u' l R' hc
    exact ⟨hu'.trans hu.le, hrest⟩
  · obtain ⟨hi, hpos, hu', _, hrest⟩ := hr.merged u' R' hm
    refine ⟨hi, hpos, hu'.trans hu.le, fun heq => ?_, hrest⟩
    have heq' : u' = u := heq
    omega

/-- The record is given to the merge for the view that was entered. -/
theorem ReplicaOk.contribute (hr : ReplicaOk cfg h i r) (hstatus : r.status ≠ .normal) :
    ReplicaOk cfg (h ++ [(Node.replica i, Event.replica
      (.contributed r.view r.latestNormalView r.record))]) i r := by
  set es : History Op Res := [(Node.replica i, Event.replica
    (.contributed r.view r.latestNormalView r.record))] with hes
  have hexec : ∀ v o res, Executed (h ++ es) i v o res → Executed h i v o res := by
    rintro v o res ⟨op, hmem⟩
    rcases mem_concat.1 hmem with hold | ⟨_, heq⟩
    · exact ⟨op, hold⟩
    · cases heq
  have hconf : ∀ v o, Confirmed (h ++ es) i v o → Confirmed h i v o := by
    rintro v o ⟨res, hmem⟩
    rcases mem_concat.1 hmem with hold | ⟨_, heq⟩
    · exact ⟨res, hold⟩
    · cases heq
  have hmerged : ∀ u R, (Node.replica i, Event.replica (.merged u R)) ∈ h ++ es →
      (Node.replica i, Event.replica (.merged u R)) ∈ h := by
    intro u R hmem
    rcases mem_concat.1 hmem with hold | ⟨_, heq⟩
    · exact hold
    · cases heq
  have hquiet : ∀ v, Quiet h es i v := fun v => ⟨hexec v, hconf v⟩
  have hacted : ∀ v o, (∃ res, Executed (h ++ es) i v o res) ∨ Confirmed (h ++ es) i v o →
      (∃ res, Executed h i v o res) ∨ Confirmed h i v o := by
    rintro v o (⟨res, hx⟩ | hc)
    · exact .inl ⟨res, hexec v o res hx⟩
    · exact .inr (hconf v o hc)
  refine ⟨hr.normal, hr.changing, hr.entries.mono es, hr.record.mono (hquiet _),
    fun v o hx => hr.acted v o (hacted v o hx), fun v o res hx => ?_, fun u l R' hc => ?_,
    fun u R' hm => ?_, fun u R₁ R₂ h₁ h₂ => hr.unique u R₁ R₂ (hmerged _ _ h₁) (hmerged _ _ h₂),
    fun u j m hl => ?_, hr.collecting, hr.ahead⟩
  · obtain ⟨R₀, hstart, hnot⟩ := hr.executed v o res (hexec v o res hx)
    exact ⟨R₀, hstart.mono es, hnot⟩
  · rcases mem_concat.1 hc with hold | ⟨_, heq⟩
    · obtain ⟨hu, hl, hE, hR, hlast⟩ := hr.contributed u l R' hold
      exact ⟨hu, hl, hE.mono es, hR.mono (hquiet _),
        fun v o hx => hlast v o (hacted v o hx)⟩
    · cases heq
      exact ⟨le_rfl, hr.changing hstatus, hr.entries.mono es,
        hr.record.mono (hquiet _), fun v o hx _ => hr.acted v o (hacted v o hx)⟩
  · obtain ⟨hi, hpos, hu, hn, hE, hM, ⟨cert⟩⟩ := hr.merged u R' (hmerged _ _ hm)
    exact ⟨hi, hpos, hu, hn, hE.mono es, hM, ⟨cert.mono es⟩⟩
  · obtain ⟨hne, hlt, hidx, hv, R', hR', hc⟩ := hr.collected u j m hl
    exact ⟨hne, hlt, hidx, hv, R', hR', hc.mono es⟩

/-! ### Starting a view -/

omit [DecidableEq Res] in
/-- A view starts with the record of its leader. -/
theorem RecordAt.start_view (hM : Master R) (hexec : ∀ o res, ¬ Executed h i view o res)
    (hconf : ∀ o, ¬ Confirmed h i view o) : RecordAt h i view R R := by
  refine ⟨fun o e he ht => ⟨e, he, ht, hM o e he ht⟩, fun o e he ht hs => ?_,
    fun o e he ht _ => .inr ⟨e, he, ht, rfl⟩, fun o res hx => absurd hx (hexec o res),
    fun o hc => absurd hc (hconf o)⟩
  exact absurd ((hM o e he ht).symm.trans hs) RecordEntryState.noConfusion

/-- **A replica starts a view**, with the record it merged itself or was sent. -/
theorem ReplicaOk.start (hr : ReplicaOk cfg h i r) {u : ℕ} (hu : r.view ≤ u)
    (hlt : r.latestNormalView < u) {es : History Op Res}
    (hes : es = [] ∨ es = [(Node.replica i, Event.replica (.merged u R))] ∧ i = cfg.leader u ∧
      (∀ R', (Node.replica i, Event.replica (.merged u R')) ∉ h) ∧
      Nonempty (Certificate cfg h u R))
    (hm : Merged cfg (h ++ es) u R) (hE : Entries cfg (h ++ es) R) (hM : Master R)
    {q : QuorumSet ℕ (DoViewChange Op Res)}
    (hq : ∀ u' j m, (q.getMessages u').lookup j = some m → j ≠ i ∧ j < cfg.n ∧ m.replicaIdx = j ∧
      m.newView = u' ∧ ∃ R, m.record = some R ∧
        Contributed h j u' m.latestNormalView R)
    (hahead : ∀ u', u < u' → q.getMessages u' = ∅) (app : σ) :
    ReplicaOk cfg (h ++ es) i
      { status := .normal
        view := u
        latestNormalView := u
        record := R
        doViewChangeQuorum := q
        app := app } := by
  have hown : ∀ e, (Node.replica i, Event.replica e) ∈ h ++ es →
      (Node.replica i, Event.replica e) ∈ h ∨ e = .merged u R := by
    intro e hmem
    rcases hes with rfl | ⟨rfl, _⟩
    · rw [List.append_nil] at hmem
      exact .inl hmem
    · rcases mem_concat.1 hmem with hold | ⟨_, heq⟩
      · exact .inl hold
      · cases heq
        exact .inr rfl
  have hexec : ∀ v o res, Executed (h ++ es) i v o res → Executed h i v o res := by
    rintro v o res ⟨op, hmem⟩
    exact ⟨op, (hown _ hmem).resolve_right fun heq => by cases heq⟩
  have hconf : ∀ v o, Confirmed (h ++ es) i v o → Confirmed h i v o := by
    rintro v o ⟨res, hmem⟩
    exact ⟨res, (hown _ hmem).resolve_right fun heq => by cases heq⟩
  have hquiet : ∀ v, Quiet h es i v := fun v => ⟨hexec v, hconf v⟩
  have hacted : ∀ v o, (∃ res, Executed (h ++ es) i v o res) ∨ Confirmed (h ++ es) i v o →
      v ≤ r.latestNormalView ∧ ((∃ res, Executed h i v o res) ∨ Confirmed h i v o) := by
    rintro v o (⟨res, hx⟩ | hc)
    · exact ⟨hr.acted v o (.inl ⟨res, hexec v o res hx⟩), .inl ⟨res, hexec v o res hx⟩⟩
    · exact ⟨hr.acted v o (.inr (hconf v o hc)), .inr (hconf v o hc)⟩
  refine ⟨fun _ => rfl, fun hn => absurd rfl hn, hE, ⟨R, .inr hm, ?_⟩,
    fun v o hx => ((hacted v o hx).1.trans hlt.le), fun v o res hx => ?_,
    fun u' l R' hc => ?_, fun u' R' hm' => ?_, fun u' R₁ R₂ h₁ h₂ => ?_,
    fun u' j m hl => ?_, fun hn => absurd rfl hn, hahead⟩
  · refine RecordAt.start_view hM (fun o res hx => ?_) fun o hc => ?_
    · have hle := (hacted u o (.inl ⟨res, hx⟩)).1
      omega
    · have hle := (hacted u o (.inr hc)).1
      omega
  · obtain ⟨R₀, hstart, hnot⟩ := hr.executed v o res (hexec v o res hx)
    exact ⟨R₀, hstart.mono es, hnot⟩
  · obtain ⟨hu', hl, hE', hR, hlast⟩ := hr.contributed u' l R'
      ((hown _ hc).resolve_right fun heq => by cases heq)
    exact ⟨hu'.trans hu, hl, hE'.mono es, hR.mono (hquiet _),
      fun v o hx => hlast v o (hacted v o hx).2⟩
  · rcases hown _ hm' with hold | heq
    · obtain ⟨hi, hpos, hu', _, hE', hM', ⟨cert⟩⟩ := hr.merged u' R' hold
      exact ⟨hi, hpos, hu'.trans hu, fun _ => rfl, hE'.mono es, hM', ⟨cert.mono es⟩⟩
    · cases heq
      rcases hes with rfl | ⟨_, hi, _, ⟨cert⟩⟩
      · rw [List.append_nil] at hm'
        obtain ⟨hi, hpos, hu', _, hE', hM', ⟨cert⟩⟩ := hr.merged u R hm'
        exact ⟨hi, hpos, le_rfl, fun _ => rfl, hE, hM', ⟨cert.mono []⟩⟩
      · exact ⟨hi, by omega, le_rfl, fun _ => rfl, hE, hM, ⟨cert.mono es⟩⟩
  · rcases hown _ h₁ with hold₁ | heq₁
    · rcases hown _ h₂ with hold₂ | heq₂
      · exact hr.unique u' R₁ R₂ hold₁ hold₂
      · cases heq₂
        rcases hes with rfl | ⟨_, _, hfresh, _⟩
        · rw [List.append_nil] at h₂
          exact hr.unique u R₁ R hold₁ h₂
        · exact absurd hold₁ (hfresh R₁)
    · cases heq₁
      rcases hown _ h₂ with hold₂ | heq₂
      · rcases hes with rfl | ⟨_, _, hfresh, _⟩
        · rw [List.append_nil] at h₁
          exact hr.unique u R R₂ h₁ hold₂
        · exact absurd hold₂ (hfresh R₂)
      · cases heq₂
        rfl
  · obtain ⟨hne, hltn, hidx, hv, R', hR', hc⟩ := hq u' j m hl
    exact ⟨hne, hltn, hidx, hv, R', hR', hc.mono es⟩

/-! ### Merging -/

section Merge

variable {E : Type} {env : Replica.Env σ Op Res E} {records : List (DoViewChange Op Res)}

/-- What a merge makes of the latest records. -/
theorem merge_outcome (happ : env.app.KeepsMajority) :
    Outcome env.cfg (Replica.latestRecords records r)
      (Replica.irMergeRecords env records r).1 := by
  intro o htype
  have hat := Replica.lookup_gather (Replica.latestRecords records r) o
  rw [Replica.gatherAt_consensus _ htype] at hat
  set es := (Replica.latestRecords records r).filterMap fun R' => R'.lookup o
  refine ⟨fun e he => Replica.lookup_merge_kept ?_, fun res hten hmaj hne => ?_⟩
  · have hany : es.any Replica.isFinalized = true := by
      rw [List.any_eq_true]
      exact ⟨e, List.mem_of_find?_eq_some he, List.find?_some he⟩
    rw [hat, he, hany]
    rfl
  · have hnone : es.find? Replica.isFinalized = none := by
      rw [List.find?_eq_none]
      intro e he
      rw [Replica.isFinalized, decide_eq_true_iff, hten e he]
      exact RecordEntryState.noConfusion
    have hany : es.any Replica.isFinalized = false := by
      rw [List.any_eq_false]
      exact List.find?_eq_none.1 hnone
    have hempty : es.isEmpty = false := List.isEmpty_eq_false_iff.2 hne
    rw [hnone, hany, hempty] at hat
    obtain ⟨e, he, hstate, ht, hres⟩ := Replica.lookup_merge_majority happ hat hne hmaj
    exact ⟨e, he, ht.trans (htype _ (List.head_mem hne)), hstate, hres⟩

/-- The entries of the merged record come from the latest records. -/
theorem merge_entry (he : (Replica.irMergeRecords env records r).1.lookup o = some e) :
    (∃ R' ∈ Replica.latestRecords records r, R'.lookup o = some e ∧
      (e.type = .consensus → e.state = .finalized)) ∨
    ∃ R' ∈ Replica.latestRecords records r, ∃ e', R'.lookup o = some e' ∧ e.type = e'.type ∧
      e.view = r.view ∧ e.state = .finalized := by
  have hmem := Replica.gatherAt_mem
    ((Replica.latestRecords records r).filterMap fun R' => R'.lookup o)
  rw [← Replica.lookup_gather] at hmem
  rcases Replica.lookup_merge_cases he with hkept | ⟨es, entry, hes, hin, hv, hs, ht⟩
  · obtain ⟨hin, hs⟩ := hmem.1 e hkept
    obtain ⟨R', hR', hl⟩ := List.mem_filterMap.1 hin
    exact .inl ⟨R', hR', hl, hs⟩
  · obtain ⟨R', hR', hl⟩ := List.mem_filterMap.1 (hmem.2 es hes entry hin)
    exact .inr ⟨R', hR', entry, hl, ht, hv, hs⟩

theorem merge_master : Master (Replica.irMergeRecords env records r).1 := by
  intro o e he ht
  rcases merge_entry he with ⟨_, _, _, hs⟩ | ⟨_, _, _, _, _, _, hs⟩
  · exact hs ht
  · exact hs

theorem merge_entries
    (hlatest : ∀ R' ∈ Replica.latestRecords records r, Entries cfg h R')
    (hm : Merged cfg h r.view (Replica.irMergeRecords env records r).1) :
    Entries cfg h (Replica.irMergeRecords env records r).1 := by
  intro o e he
  rcases merge_entry he with ⟨R', hR', hl, _⟩ | ⟨R', hR', e', hl, ht, hv, hs⟩
  · exact hlatest R' hR' o e hl
  · have hok := hlatest R' hR' o e' hl
    refine ⟨by rw [ht]; exact hok.invoked, fun htype hstate => .inr ⟨_, by rw [hv]; exact hm, ?_⟩⟩
    exact ⟨e, he, htype, hstate, rfl⟩

end Merge

omit [DecidableEq Res] in
/-- Filtering the elements found is filtering what they are found for. -/
theorem filterMap_filter_map {α β γ : Type} (js : List α) (f : α → Option β) (p : β → Bool)
    (g : β → γ) (g' : α → γ) (hg : ∀ j b, f j = some b → g' j = g b) :
    ((js.filterMap f).filter p).map g = (js.filter fun j => (f j).any p).map g' := by
  induction js with
  | nil => rfl
  | cons j js ih =>
      cases hf : f j with
      | none =>
          rw [List.filterMap_cons_none hf, ih, List.filter_cons_of_neg (by rw [hf]; simp)]
      | some b =>
          rw [List.filterMap_cons_some hf]
          cases hp : p b with
          | true =>
              rw [List.filter_cons_of_pos hp, List.map_cons, ih,
                List.filter_cons_of_pos (by rw [hf]; exact hp), List.map_cons, hg j b hf]
          | false =>
              rw [List.filter_cons_of_neg (by rw [hp]; exact Bool.false_ne_true), ih,
                List.filter_cons_of_neg (by rw [hf]; simpa using hp)]

/-- The messages that are merged, in the order of the replicas. -/
def mergedMessages (cfg : Config) (msgs : Table ℕ (DoViewChange Op Res)) :
    List (DoViewChange Op Res) :=
  (List.range cfg.n).filterMap msgs.lookup

/-! ### Who contributed what -/

section Contributions

variable {msgs : Table ℕ (DoViewChange Op Res)} {top j : ℕ} {m : DoViewChange Op Res}

/-- The latest normal view of replica `j`: that of its message, and the leader's own. -/
def latestOf (msgs : Table ℕ (DoViewChange Op Res)) (r : Replica σ Op Res) (j : ℕ) : ℕ :=
  (msgs.lookup j).elim r.latestNormalView fun m => m.latestNormalView

/-- The record of replica `j`. -/
def recordOf (msgs : Table ℕ (DoViewChange Op Res)) (r : Replica σ Op Res) (j : ℕ) :
    Record Op Res :=
  (msgs.lookup j).elim r.record fun m => m.record.getD ∅

/-- Those whose records are merged, in the order in which they are: the leader `i` comes last. -/
def mergeOrder (cfg : Config) (msgs : Table ℕ (DoViewChange Op Res)) (r : Replica σ Op Res)
    (i top : ℕ) : List ℕ :=
  ((List.range cfg.n).filter fun j => (msgs.lookup j).any fun m => m.latestNormalView = top) ++
    if r.latestNormalView = top then [i] else []

omit [DecidableEq Res] in
theorem latestOf_some (hl : msgs.lookup j = some m) : latestOf msgs r j = m.latestNormalView := by
  rw [latestOf, hl, Option.elim_some]

omit [DecidableEq Res] in
theorem latestOf_none (hl : msgs.lookup j = none) : latestOf msgs r j = r.latestNormalView := by
  rw [latestOf, hl, Option.elim_none]

omit [DecidableEq Res] in
theorem recordOf_some (hl : msgs.lookup j = some m) :
    recordOf msgs r j = m.record.getD ∅ := by
  rw [recordOf, hl, Option.elim_some]

omit [DecidableEq Res] in
theorem recordOf_none (hl : msgs.lookup j = none) : recordOf msgs r j = r.record := by
  rw [recordOf, hl, Option.elim_none]

omit [DecidableEq Res] in
theorem mem_heard_iff : j ∈ Votes.heard msgs ↔ ∃ m, msgs.lookup j = some m := by
  rw [Votes.mem_heard, ← AList.lookup_isSome, Option.isSome_iff_exists]

omit [DecidableEq Res] in
/-- The first in the order are the senders of messages with that view. -/
theorem mem_senders (hdeployed : ∀ j m, msgs.lookup j = some m → j < cfg.n) :
    j ∈ (List.range cfg.n).filter (fun j =>
        (msgs.lookup j).any fun m => decide (m.latestNormalView = top)) ↔
      ∃ m, msgs.lookup j = some m ∧ m.latestNormalView = top := by
  rw [List.mem_filter, List.mem_range]
  constructor
  · rintro ⟨_, hany⟩
    cases hl : msgs.lookup j with
    | none =>
        rw [hl] at hany
        cases hany
    | some m =>
        rw [hl] at hany
        exact ⟨m, rfl, of_decide_eq_true hany⟩
  · rintro ⟨m, hl, heq⟩
    refine ⟨hdeployed j m hl, ?_⟩
    rw [hl]
    exact decide_eq_true heq

omit [DecidableEq Res] in
theorem mem_mergeOrder (hdeployed : ∀ j m, msgs.lookup j = some m → j < cfg.n)
    (hnone : msgs.lookup i = none) : j ∈ mergeOrder cfg msgs r i top ↔
      j ∈ insert i (Votes.heard msgs) ∧ latestOf msgs r j = top := by
  rw [mergeOrder, List.mem_append, mem_senders hdeployed, Finset.mem_insert, mem_heard_iff]
  constructor
  · rintro (⟨m, hl, heq⟩ | hself)
    · exact ⟨.inr ⟨m, hl⟩, (latestOf_some hl).trans heq⟩
    · split_ifs at hself with heq
      · rw [List.mem_singleton.1 hself, latestOf_none hnone]
        exact ⟨.inl rfl, heq⟩
      · cases hself
  · rintro ⟨rfl | ⟨m, hl⟩, heq⟩
    · right
      rw [latestOf_none hnone] at heq
      rw [if_pos heq]
      exact List.mem_singleton_self _
    · left
      exact ⟨m, hl, (latestOf_some hl).symm.trans heq⟩

omit [DecidableEq Res] in
theorem nodup_mergeOrder (hdeployed : ∀ j m, msgs.lookup j = some m → j < cfg.n)
    (hnone : msgs.lookup i = none) : (mergeOrder cfg msgs r i top).Nodup := by
  refine List.Nodup.append (List.nodup_range.filter _) ?_ ?_
  · split_ifs
    · exact List.nodup_singleton i
    · exact List.nodup_nil
  · intro j hj hj'
    split_ifs at hj' with heq
    · rw [List.mem_singleton.1 hj'] at hj
      obtain ⟨m, hl, _⟩ := (mem_senders hdeployed).1 hj
      rw [hnone] at hl
      cases hl
    · cases hj'

omit [DecidableEq Res] in
/-- The latest records are those of the replicas in the order. -/
theorem latestRecords_eq (hnone : msgs.lookup i = none) :
    Replica.latestRecords (mergedMessages cfg msgs) r =
      (mergeOrder cfg msgs r i (Replica.maxNormalView (mergedMessages cfg msgs) r)).map
        (recordOf msgs r) := by
  set records := mergedMessages cfg msgs with hrecords
  set top := Replica.maxNormalView records r with htop
  have hmap := filterMap_filter_map (List.range cfg.n) msgs.lookup
    (fun m => decide (m.latestNormalView = top)) (fun m => m.record.getD ∅) (recordOf msgs r)
    fun _ _ hl => recordOf_some hl
  have hunfold : Replica.latestRecords records r =
      ((records.filter fun m => m.latestNormalView = top).map fun m => m.record.getD ∅) ++
        if r.latestNormalView = top then [r.record] else [] := rfl
  rw [hunfold, mergeOrder, List.map_append]
  refine congrArg₂ _ hmap ?_
  split_ifs
  · rw [List.map_singleton, recordOf_none hnone]
  · rfl

/-- **The certificate of a merge.** -/
theorem certificate {E : Type} {env : Replica.Env σ Op Res E} (happ : env.app.KeepsMajority)
    (hi : i < env.cfg.n)
    (hmsgs : ∀ j m, msgs.lookup j = some m → j ≠ i ∧ j < env.cfg.n ∧ m.replicaIdx = j ∧
      m.newView = r.view ∧ ∃ R, m.record = some R ∧
        Contributed h j r.view m.latestNormalView R)
    (hsize : msgs.size = env.cfg.f)
    (hown : Contributed h i r.view r.latestNormalView r.record) :
    Nonempty (Certificate env.cfg h r.view
      (Replica.irMergeRecords env (mergedMessages env.cfg msgs) r).1) := by
  set records := mergedMessages env.cfg msgs with hrecords
  have hnone : msgs.lookup i = none := by
    cases hl : msgs.lookup i with
    | none => rfl
    | some m => exact absurd rfl (hmsgs i m hl).1
  have hdeployed : ∀ j m, msgs.lookup j = some m → j < env.cfg.n := fun j m hl => (hmsgs j m hl).2.1
  refine ⟨{ quorum := insert i (Votes.heard msgs)
            latest := latestOf msgs r
            record := recordOf msgs r
            max := Replica.maxNormalView records r
            order := mergeOrder env.cfg msgs r i (Replica.maxNormalView records r)
            deployed := fun j hj => ?_
            card := ?_
            contributed := fun j hj => ?_
            le_max := fun j hj => ?_
            nodup := nodup_mergeOrder hdeployed hnone
            mem_order := fun j => mem_mergeOrder hdeployed hnone
            nonempty := ?_
            outcome := ?_ }⟩
  · rw [Finset.mem_range]
    rcases Finset.mem_insert.1 hj with rfl | hj
    · exact hi
    · obtain ⟨m, hl⟩ := mem_heard_iff.1 hj
      exact hdeployed j m hl
  · have hnot : i ∉ Votes.heard msgs := by
      rw [mem_heard_iff]
      rintro ⟨m, hl⟩
      exact (hmsgs i m hl).1 rfl
    rw [Finset.card_insert_of_notMem hnot, Votes.heard,
      List.toFinset_card_of_nodup msgs.keys_nodup, ← Table.size_eq_keys_length, hsize]
  · rcases Finset.mem_insert.1 hj with rfl | hj
    · rw [latestOf_none hnone, recordOf_none hnone]
      exact hown
    · obtain ⟨m, hl⟩ := mem_heard_iff.1 hj
      obtain ⟨_, _, _, _, R, hR, hc⟩ := hmsgs j m hl
      rw [latestOf_some hl, recordOf_some hl, hR, Option.getD_some]
      exact hc
  · rcases Finset.mem_insert.1 hj with rfl | hj
    · rw [latestOf_none hnone]
      exact (Replica.le_maxNormalView records r).1
    · obtain ⟨m, hl⟩ := mem_heard_iff.1 hj
      rw [latestOf_some hl]
      refine (Replica.le_maxNormalView records r).2 m ?_
      exact List.mem_filterMap.2 ⟨j, List.mem_range.2 (hdeployed j m hl), hl⟩
  · rcases Replica.maxNormalView_attained records r with heq | ⟨m, hm, heq⟩
    · exact List.ne_nil_of_mem ((mem_mergeOrder hdeployed hnone).2
        ⟨Finset.mem_insert_self _ _, (latestOf_none hnone).trans heq⟩)
    · obtain ⟨j, _, hl⟩ := List.mem_filterMap.1 hm
      exact List.ne_nil_of_mem ((mem_mergeOrder hdeployed hnone).2
        ⟨Finset.mem_insert_of_mem (mem_heard_iff.2 ⟨m, hl⟩), (latestOf_some hl).trans heq⟩)
  · rw [← latestRecords_eq hnone]
    exact merge_outcome happ

end Contributions

end D2PC.Ir
