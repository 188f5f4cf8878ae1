import D2PC.Ir.Merge

/-!
# What the merge of the records keeps

`IrMergeRecords` fills the new record and groups the tentative entries in one pass over the latest
records, and removes a group when a finalised entry shows up later.

* `merge_exact` : the merged record has the operations of the latest records and no others, with
  the results of the finalised ones, and all consensus operations are finalised;
* `fast_quorum_recovered` : a result at a fast quorum is the only one with a majority in any
  `f + 1` records.
-/

namespace D2PC.Ir.Replica

variable {σ Op Res E : Type} [DecidableEq Res] {env : Env σ Op Res E}
variable {records : List (DoViewChange Op Res)} {r : Replica σ Op Res} {o : OpId}

/-! ### The arguments of the merge of the application -/

/-- `d`, `u` and the majority results in `d`. -/
structure MergeArguments (Op Res : Type) where
  d : Table OpId (List (RecordEntry Op Res))
  u : Table OpId (List (RecordEntry Op Res))
  majorityResultsInD : Table OpId Res

/-- What `IrMergeRecords` passes to `Merge`. -/
def mergeArguments (env : Env σ Op Res E) (records : List (DoViewChange Op Res))
    (r : Replica σ Op Res) : MergeArguments Op Res :=
  let grouped := (gather (latestRecords records r)).entriesByOpid.toList
  { d := Table.ofList (grouped.filter fun p => (majorityResult env.cfg p.2).isSome)
    u := Table.ofList (grouped.filter fun p => (majorityResult env.cfg p.2).isNone)
    majorityResultsInD := Table.ofList (grouped.filterMap fun p =>
      (majorityResult env.cfg p.2).map fun res => (p.1, res)) }

/-- The results of `Merge`. -/
def mergeResults (env : Env σ Op Res E) (records : List (DoViewChange Op Res))
    (r : Replica σ Op Res) : Table OpId Res :=
  let a := mergeArguments env records r
  (env.app.merge a.d a.u a.majorityResultsInD
    (env.app.sync (gather (latestRecords records r)).kept r.app)).1

/-- An entry of `merged`. -/
def mergedEntry (view : ℕ) (grouped : Table OpId (List (RecordEntry Op Res))) (p : OpId × Res) :
    Option (OpId × RecordEntry Op Res) :=
  ((grouped.lookup p.1).getD []).head?.map fun entry =>
    (p.1, { view := view
            opid := p.1
            state := .finalized
            type := entry.type
            request := entry.request
            result := p.2 })

theorem irMergeRecords_eq : (irMergeRecords env records r).1 =
    ((mergeResults env records r).toList.filterMap (mergedEntry r.view
      (gather (latestRecords records r)).entriesByOpid)).foldl (fun R p => R.insert p.1 p.2)
      (gather (latestRecords records r)).kept := rfl


/-- Every grouped operation is in one of `d` and `u`. -/
theorem mem_mergeArguments {es : List (RecordEntry Op Res)}
    (hg : (gather (latestRecords records r)).entriesByOpid.lookup o = some es) :
    o ∈ (mergeArguments env records r).d ∨ o ∈ (mergeArguments env records r).u := by
  cases hmaj : majorityResult env.cfg es with
  | none =>
    right
    rw [← AList.lookup_isSome, mergeArguments]
    simp only
    rw [Table.lookup_ofList_filter_value _ (fun es => (majorityResult env.cfg es).isNone), hg, Option.filter_some, hmaj]
    rfl
  | some res =>
    left
    rw [← AList.lookup_isSome, mergeArguments]
    simp only
    rw [Table.lookup_ofList_filter_value _ (fun es => (majorityResult env.cfg es).isSome), hg, Option.filter_some, hmaj]
    rfl

/-! ### The latest records -/

/-- A record among those with the largest latest normal view, of the messages and the own one. -/
def Latest (records : List (DoViewChange Op Res)) (r : Replica σ Op Res) (R : Record Op Res) :
    Prop :=
  (∃ m ∈ records, (∀ m' ∈ records, m'.latestNormalView ≤ m.latestNormalView) ∧
    r.latestNormalView ≤ m.latestNormalView ∧ R = m.record.getD ∅) ∨
  ((∀ m' ∈ records, m'.latestNormalView ≤ r.latestNormalView) ∧ R = r.record)

omit [DecidableEq Res] in
theorem eq_maxNormalView_iff {v : ℕ}
    (hv : v = r.latestNormalView ∨ ∃ m ∈ records, m.latestNormalView = v) :
    v = maxNormalView records r ↔
      (∀ m' ∈ records, m'.latestNormalView ≤ v) ∧ r.latestNormalView ≤ v := by
  obtain ⟨hown, hall⟩ := le_maxNormalView records r
  constructor
  · rintro rfl
    exact ⟨hall, hown⟩
  · rintro ⟨hrecords, hr⟩
    apply le_antisymm
    · rcases hv with rfl | ⟨m, hm, rfl⟩
      · exact hown
      · exact hall m hm
    · rcases maxNormalView_attained records r with heq | ⟨m, hm, heq⟩
      · rw [← heq]
        exact hr
      · rw [← heq]
        exact hrecords m hm

omit [DecidableEq Res] in
theorem mem_latestRecords {R : Record Op Res} :
    R ∈ latestRecords records r ↔ Latest records r R := by
  have hmax : latestRecords records r =
      ((records.filter fun m => m.latestNormalView = maxNormalView records r).map
        fun m => m.record.getD ∅) ++
      if r.latestNormalView = maxNormalView records r then [r.record] else [] := rfl
  rw [hmax, List.mem_append, List.mem_map, Latest]
  refine or_congr (exists_congr fun m => ?_) ?_
  · rw [List.mem_filter, decide_eq_true_iff, and_assoc]
    refine and_congr_right fun hm => ?_
    rw [eq_maxNormalView_iff (.inr ⟨m, hm, rfl⟩), and_assoc, eq_comm (a := R)]
  · have hown : r.latestNormalView = maxNormalView records r ↔
        (∀ m' ∈ records, m'.latestNormalView ≤ r.latestNormalView) ∧
          r.latestNormalView ≤ r.latestNormalView := eq_maxNormalView_iff (.inl rfl)
    by_cases hall : ∀ m' ∈ records, m'.latestNormalView ≤ r.latestNormalView
    · rw [if_pos (hown.mpr ⟨hall, le_rfl⟩), List.mem_singleton]
      exact ⟨fun h => ⟨hall, h⟩, fun h => h.2⟩
    · rw [if_neg fun h => hall (hown.mp h).1]
      exact iff_of_false List.not_mem_nil fun h => hall h.1

/-! ### The merged record, operation by operation -/

/-- `Merge` returns exactly one result for every operation of `d` and `u`. -/
def Answered (env : Env σ Op Res E) (records : List (DoViewChange Op Res))
    (r : Replica σ Op Res) : Prop :=
  ∀ o, o ∈ mergeResults env records r ↔
    o ∈ (mergeArguments env records r).d ∨ o ∈ (mergeArguments env records r).u

omit [DecidableEq Res] in
/-- **An inconsistent operation**: its first entry is kept. -/
theorem gatherAt_inconsistent (es : List (RecordEntry Op Res))
    (htype : ∀ e ∈ es, e.type = .inconsistent) :
    es.foldl gatherAt (none, none) = (es.head?, none) := by
  induction es using List.reverseRecOn with
  | nil => rfl
  | append_singleton es e ih =>
    rw [List.foldl_append, ih fun e' he' => htype e' (List.mem_append_left _ he'),
      List.foldl_cons, List.foldl_nil, gatherAt,
      if_pos (htype e (List.mem_append_right _ (List.mem_singleton_self e)))]
    cases es with
    | nil => rfl
    | cons e' es => rfl

/-- **A grouped operation** gets the result of the application. -/
theorem lookup_merge_grouped (happ : Answered env records r) {es : List (RecordEntry Op Res)}
    (hg : (gather (latestRecords records r)).at o = (none, some es)) (hne : es ≠ []) :
    ∃ e, (irMergeRecords env records r).1.lookup o = some e ∧ e.state = .finalized ∧
      e.type = (es.head hne).type := by
  have hentries : (gather (latestRecords records r)).entriesByOpid.lookup o = some es :=
    congrArg Prod.snd hg
  have hmem : o ∈ mergeResults env records r :=
    (happ o).mpr (mem_mergeArguments hentries)
  obtain ⟨res, hres⟩ := Option.isSome_iff_exists.1 (AList.lookup_isSome.2 hmem)
  refine ⟨{ view := r.view
            opid := o
            state := .finalized
            type := (es.head hne).type
            request := (es.head hne).request
            result := res }, ?_, rfl, rfl⟩
  rw [irMergeRecords_eq]
  refine Table.lookup_foldl_insert_of_mem (Table.nodup_filterMap (Table.toList_nodup _)
    fun p q hq => ?_) (List.mem_filterMap.2 ⟨(o, res), Table.mem_toList.2 hres, ?_⟩) _
  · obtain ⟨_, _, rfl⟩ := Option.map_eq_some_iff.1 hq
    rfl
  · rw [mergedEntry, hentries, Option.getD_some, List.head?_eq_some_head hne]
    rfl

/-- The entries of an operation in the latest records. -/
def latestEntries (records : List (DoViewChange Op Res)) (r : Replica σ Op Res) (o : OpId) :
    List (RecordEntry Op Res) :=
  (latestRecords records r).filterMap fun R => R.lookup o

omit [DecidableEq Res] in
theorem mem_latestEntries {e : RecordEntry Op Res} :
    e ∈ latestEntries records r o ↔ ∃ R, Latest records r R ∧ R.lookup o = some e := by
  rw [latestEntries, List.mem_filterMap]
  exact exists_congr fun R => and_congr_left fun _ => mem_latestRecords

omit [DecidableEq Res] in
theorem gather_at_eq :
    (gather (latestRecords records r)).at o =
      (latestEntries records r o).foldl gatherAt (none, none) :=
  lookup_gather _ o

/-- What the merged record has for an operation of one type. -/
theorem lookup_merge_none
    (hg : (gather (latestRecords records r)).at o = (none, none)) :
    (irMergeRecords env records r).1.lookup o = none := by
  cases hl : (irMergeRecords env records r).1.lookup o with
  | none => rfl
  | some e =>
    rcases lookup_merge_cases hl with h | ⟨es, _, h, _⟩
    · rw [hg] at h
      cases h
    · rw [hg] at h
      cases h

theorem lookup_merge_inconsistent
    (htype : ∀ e ∈ latestEntries records r o, e.type = .inconsistent) :
    (irMergeRecords env records r).1.lookup o = (latestEntries records r o).head? := by
  have hg : (gather (latestRecords records r)).at o =
      (latestEntries records r o).foldl gatherAt (none, none) := gather_at_eq
  rw [gatherAt_inconsistent _ htype] at hg
  cases hhead : (latestEntries records r o).head? with
  | some e =>
    rw [hhead] at hg
    exact lookup_merge_kept hg
  | none =>
    rw [hhead] at hg
    exact lookup_merge_none hg

theorem lookup_merge_consensus (happ : Answered env records r)
    (htype : ∀ e ∈ latestEntries records r o, e.type = .consensus) :
    (∀ e, (latestEntries records r o).find? isFinalized = some e →
      (irMergeRecords env records r).1.lookup o = some e) ∧
    (latestEntries records r o ≠ [] → (latestEntries records r o).find? isFinalized = none →
      ∃ e, (irMergeRecords env records r).1.lookup o = some e ∧ e.state = .finalized) ∧
    (latestEntries records r o = [] → (irMergeRecords env records r).1.lookup o = none) := by
  have hg : (gather (latestRecords records r)).at o =
      (latestEntries records r o).foldl gatherAt (none, none) := gather_at_eq
  rw [gatherAt_consensus _ htype] at hg
  refine ⟨fun e hfind => ?_, fun hne hfind => ?_, fun hnil => ?_⟩
  · have hany : (latestEntries records r o).any isFinalized = true := by
      rw [List.any_eq_true]
      exact ⟨e, List.mem_of_find?_eq_some hfind, List.find?_some hfind⟩
    rw [hfind, hany, Bool.true_or, if_pos rfl] at hg
    exact lookup_merge_kept hg
  · have hany : (latestEntries records r o).any isFinalized = false := by
      rw [List.any_eq_false]
      exact List.find?_eq_none.mp hfind
    rw [hfind, hany, Bool.false_or, List.isEmpty_eq_false_iff.mpr hne,
      if_neg Bool.false_ne_true] at hg
    obtain ⟨e, hl, hstate, -⟩ := lookup_merge_grouped happ hg hne
    exact ⟨e, hl, hstate⟩
  · rw [hnil] at hg
    exact lookup_merge_none hg

/-- Every operation is of one type in all of the latest records. -/
def OneType (records : List (DoViewChange Op Res)) (r : Replica σ Op Res) : Prop :=
  ∀ o R R' e e', Latest records r R → Latest records r R' → R.lookup o = some e →
    R'.lookup o = some e' → e.type = e'.type

omit [DecidableEq Res] in
theorem OneType.cases (hone : OneType records r) (o : OpId) :
    (∀ e ∈ latestEntries records r o, e.type = .inconsistent) ∨
    ∀ e ∈ latestEntries records r o, e.type = .consensus := by
  by_cases hall : ∀ e ∈ latestEntries records r o, e.type = .inconsistent
  · exact .inl hall
  · right
    push Not at hall
    obtain ⟨e', he', hne⟩ := hall
    obtain ⟨R', hR', hl'⟩ := mem_latestEntries.mp he'
    intro e he
    obtain ⟨R, hR, hl⟩ := mem_latestEntries.mp he
    rw [hone o R R' e e' hR hR' hl hl']
    cases htype : e'.type with
    | inconsistent => exact absurd htype hne
    | consensus => rfl

/-- The merged record has an operation exactly if one of the latest records has it. -/
theorem mem_merge_iff (happ : Answered env records r) (hone : OneType records r) :
    o ∈ (irMergeRecords env records r).1 ↔ latestEntries records r o ≠ [] := by
  rw [← AList.lookup_isSome]
  rcases hone.cases o with htype | htype
  · rw [lookup_merge_inconsistent htype, List.isSome_head?]
  · obtain ⟨hfinal, hgrouped, hnone⟩ := lookup_merge_consensus happ htype
    constructor
    · intro hsome hnil
      rw [hnone hnil] at hsome
      cases hsome
    · intro hne
      cases hfind : (latestEntries records r o).find? isFinalized with
      | some e =>
        rw [hfinal e hfind]
        rfl
      | none =>
        obtain ⟨e, hl, -⟩ := hgrouped hne hfind
        rw [hl]
        rfl

/-- **The merge is exact.** It has the operations of the latest records, each once; a consensus
operation that is finalised in one of them has a result it is finalised with in one of them; and
every consensus operation is finalised. -/
theorem merge_exact (happ : Answered env records r) (hone : OneType records r) :
    ((irMergeRecords env records r).1.toList.map Prod.fst).Nodup ∧
    (∀ o, o ∈ (irMergeRecords env records r).1 ↔ ∃ R, Latest records r R ∧ o ∈ R) ∧
    (∀ o R e, Latest records r R → R.lookup o = some e → e.type = .consensus →
      e.state = .finalized → ∃ R' e' e₀, Latest records r R' ∧ R'.lookup o = some e' ∧
        e'.state = .finalized ∧ (irMergeRecords env records r).1.lookup o = some e₀ ∧
        e₀.result = e'.result) ∧
    (∀ o e, (irMergeRecords env records r).1.lookup o = some e → e.type = .consensus →
      e.state = .finalized) := by
  refine ⟨Table.toList_nodup _, fun o => ?_, fun o R e hR hl htype hstate => ?_,
    fun o e hl htype => ?_⟩
  · rw [mem_merge_iff happ hone]
    constructor
    · intro hne
      obtain ⟨e, he⟩ := List.exists_mem_of_ne_nil _ hne
      obtain ⟨R, hR, hl⟩ := mem_latestEntries.mp he
      exact ⟨R, hR, AList.lookup_isSome.1 (by rw [hl]; rfl)⟩
    · rintro ⟨R, hR, hmem⟩
      obtain ⟨e, hl⟩ := Option.isSome_iff_exists.1 (AList.lookup_isSome.2 hmem)
      exact List.ne_nil_of_mem (mem_latestEntries.mpr ⟨R, hR, hl⟩)
  · have hmem : e ∈ latestEntries records r o := mem_latestEntries.mpr ⟨R, hR, hl⟩
    have hall : ∀ e ∈ latestEntries records r o, e.type = .consensus := by
      rcases hone.cases o with hinc | hcons
      · rw [hinc e hmem] at htype
        cases htype
      · exact hcons
    have hfound : ((latestEntries records r o).find? isFinalized).isSome :=
      List.find?_isSome.2 ⟨e, hmem, decide_eq_true hstate⟩
    obtain ⟨e', hfind⟩ := Option.isSome_iff_exists.1 hfound
    obtain ⟨R', hR', hl'⟩ := mem_latestEntries.mp (List.mem_of_find?_eq_some hfind)
    have hstate' : isFinalized e' = true := List.find?_some hfind
    exact ⟨R', e', e', hR', hl', of_decide_eq_true hstate',
      (lookup_merge_consensus happ hall).1 e' hfind, rfl⟩
  · rcases lookup_merge_cases hl with hkept | ⟨_, _, _, _, _, hstate, _⟩
    · rw [gather_at_eq] at hkept
      exact ((gatherAt_mem _).1 e hkept).2 htype
    · exact hstate

/-! ### An application that answers -/

/-- An application that keeps the majority results, and has 0 as the result of the others. -/
def keeper : App Unit ℕ ℕ where
  init := ()
  execInconsistentUpcall := fun _ s => s
  execConsensusUpcall := fun op s => (op, s)
  sync := fun _ s => s
  merge := fun d u majorityResultsInD s =>
    (Table.ofList ((d.toList ++ u.toList).map fun p =>
      (p.1, (majorityResultsInD.lookup p.1).getD 0)), s)

theorem keeper_answered {env : Env Unit ℕ ℕ E} (happ : env.app = keeper)
    (records : List (DoViewChange ℕ ℕ)) (r : Replica Unit ℕ ℕ) : Answered env records r := by
  intro o
  rw [mergeResults, happ]
  show o ∈ Table.ofList _ ↔ _
  rw [Table.mem_ofList, List.map_map, List.mem_map]
  constructor
  · rintro ⟨p, hp, rfl⟩
    rcases List.mem_append.mp hp with hp | hp
    · exact .inl (Table.mem_keys_toList.mp (List.mem_map_of_mem hp))
    · exact .inr (Table.mem_keys_toList.mp (List.mem_map_of_mem hp))
  · rintro (h | h)
    · obtain ⟨p, hp, rfl⟩ := List.mem_map.mp (Table.mem_keys_toList.mpr h)
      exact ⟨p, List.mem_append_left _ hp, rfl⟩
    · obtain ⟨p, hp, rfl⟩ := List.mem_map.mp (Table.mem_keys_toList.mpr h)
      exact ⟨p, List.mem_append_right _ hp, rfl⟩

/-- The leader of view 1 of three replicas. -/
def leader : Env Unit ℕ ℕ Unit where
  cfg := { n := 3, f := 1 }
  myIdx := 1
  app := keeper
  log := fun _ => ()

/-- A tentative consensus operation and an inconsistent one. -/
def proposed : Record ℕ ℕ :=
  .ofList [((7, 1), ⟨0, (7, 1), .tentative, .consensus, 3, 5⟩),
    ((7, 2), ⟨0, (7, 2), .tentative, .inconsistent, 4, 0⟩)]

def ownState : Replica Unit ℕ ℕ := { view := 1, record := proposed, app := () }

/-- What replica 0 has sent. -/
def sentRecord : List (DoViewChange ℕ ℕ) := [⟨0, some proposed, 1, 0⟩]

theorem latest_proposed {R : Record ℕ ℕ} (hR : Latest sentRecord ownState R) : R = proposed := by
  rcases hR with ⟨m, hm, -, -, rfl⟩ | ⟨-, rfl⟩
  · rw [List.mem_singleton.mp hm]
    rfl
  · rfl

theorem merge_exact_proposed :
    (7, 1) ∈ (irMergeRecords leader sentRecord ownState).1 :=
  ((merge_exact (keeper_answered rfl sentRecord ownState) fun o R R' e e' hR hR' hl hl' => by
    rw [latest_proposed hR] at hl
    rw [latest_proposed hR', hl] at hl'
    rw [Option.some.inj hl']).2.1 (7, 1)).mpr
    ⟨proposed, .inr ⟨by decide, rfl⟩, by decide⟩

/-! ### The fast path -/

/-- The records a leader merges are those of `f + 1` replicas, itself included, all of one latest
normal view. -/
structure Chosen (cfg : Config) (hold : ℕ → Record Op Res) (myIdx : ℕ)
    (records : List (DoViewChange Op Res)) (r : Replica σ Op Res) : Prop where
  own : r.record = hold myIdx
  deployed : myIdx < cfg.n
  others : ∀ m ∈ records, m.replicaIdx < cfg.n ∧ m.replicaIdx ≠ myIdx ∧
    m.record = some (hold m.replicaIdx) ∧ m.latestNormalView = r.latestNormalView
  nodup : (records.map (·.replicaIdx)).Nodup
  card : records.length = cfg.f

/-- The replicas whose records are merged, in this order. -/
def mergeOrder (records : List (DoViewChange Op Res)) (myIdx : ℕ) : List ℕ :=
  records.map (·.replicaIdx) ++ [myIdx]

namespace Chosen

variable {hold : ℕ → Record Op Res} (hc : Chosen env.cfg hold env.myIdx records r)
include hc

omit [DecidableEq Res] in
theorem order_nodup : (mergeOrder records env.myIdx).Nodup := by
  refine List.nodup_append.mpr ⟨hc.nodup, List.nodup_singleton _, fun i hi j hj => ?_⟩
  obtain ⟨m, hm, rfl⟩ := List.mem_map.mp hi
  rw [List.mem_singleton.mp hj]
  exact (hc.others m hm).2.1

omit [DecidableEq Res] in
theorem order_length : (mergeOrder records env.myIdx).length = env.cfg.f + 1 := by
  rw [mergeOrder, List.length_append, List.length_map, hc.card, List.length_singleton]

omit [DecidableEq Res] in
theorem order_lt : ∀ i ∈ mergeOrder records env.myIdx, i < env.cfg.n := by
  intro i hi
  rcases List.mem_append.mp hi with hi | hi
  · obtain ⟨m, hm, rfl⟩ := List.mem_map.mp hi
    exact (hc.others m hm).1
  · rw [List.mem_singleton.mp hi]
    exact hc.deployed

omit [DecidableEq Res] in
/-- All of the records are latest records. -/
theorem latestRecords_eq : latestRecords records r = (mergeOrder records env.myIdx).map hold := by
  have hview : maxNormalView records r = r.latestNormalView := by
    rcases maxNormalView_attained records r with heq | ⟨m, hm, heq⟩
    · exact heq.symm
    · rw [← heq]
      exact (hc.others m hm).2.2.2
  have hfilter : (records.filter fun m => m.latestNormalView = maxNormalView records r) =
      records := by
    rw [List.filter_eq_self]
    intro m hm
    rw [hview]
    exact decide_eq_true (hc.others m hm).2.2.2
  have hmap : (records.map fun m => m.record.getD ∅) = records.map fun m => hold m.replicaIdx :=
    List.map_congr_left fun m hm => by rw [(hc.others m hm).2.2.1, Option.getD_some]
  show ((records.filter fun m => m.latestNormalView = maxNormalView records r).map
    fun m => m.record.getD ∅) ++
    (if r.latestNormalView = maxNormalView records r then [r.record] else []) = _
  rw [hfilter, hmap, if_pos hview.symm, mergeOrder, List.map_append, List.map_map, hc.own]
  rfl

omit [DecidableEq Res] in
theorem latestEntries_eq (o : OpId) :
    latestEntries records r o =
      (mergeOrder records env.myIdx).filterMap fun i => (hold i).lookup o := by
  rw [latestEntries, hc.latestRecords_eq, List.filterMap_map]
  rfl

/-- **A fast quorum is recovered.** Of the `f + 1` records so many have the result that it is the
only one with a majority, and the operation is in `d` with it. -/
theorem fast_quorum_recovered (hn : env.cfg.n = 2 * env.cfg.f + 1) {res : Res} {Q : Finset ℕ}
    (hdeployed : Q ⊆ Finset.range env.cfg.n) (hfast : env.cfg.fastQuorumSize ≤ Q.card)
    (hQ : ∀ i ∈ Q, ∃ e, (hold i).lookup o = some e ∧ e.state = .tentative ∧ e.result = res)
    (htype : ∀ i ∈ mergeOrder records env.myIdx, ∀ e, (hold i).lookup o = some e →
      e.type = .consensus)
    (hopen : ∀ i ∈ mergeOrder records env.myIdx, ∀ e, (hold i).lookup o = some e →
      e.state ≠ .finalized) :
    ∃ es, (mergeArguments env records r).d.lookup o = some es ∧
      (mergeArguments env records r).majorityResultsInD.lookup o = some res ∧
      (mergeArguments env records r).u.lookup o = none ∧
      (env.cfg.f + 1) / 2 + 1 ≤ (es.map (·.result)).count res ∧
      ∀ res', (env.cfg.f + 1) / 2 + 1 ≤ (es.map (·.result)).count res' → res' = res := by
  set order := mergeOrder records env.myIdx with horder
  set es := order.filterMap fun i => (hold i).lookup o with hes
  have hmem : ∀ e ∈ es, ∃ i ∈ order, (hold i).lookup o = some e := fun e he =>
    List.mem_filterMap.mp he
  have hcard : order.toFinset.card = env.cfg.f + 1 := by
    rw [List.toFinset_card_of_nodup hc.order_nodup, hc.order_length]
  -- the two quorums meet in more than half of the smaller one
  have hmeet : (env.cfg.f + 1) / 2 + 1 ≤ (Q ∩ order.toFinset).card := by
    have hunion : (Q ∪ order.toFinset).card ≤ env.cfg.n := by
      have hsub : Q ∪ order.toFinset ⊆ Finset.range env.cfg.n := by
        refine Finset.union_subset hdeployed fun i hi => ?_
        exact Finset.mem_range.mpr (hc.order_lt i (List.mem_toFinset.mp hi))
      have hle := Finset.card_le_card hsub
      rw [Finset.card_range] at hle
      exact hle
    have hsum := Finset.card_union_add_card_inter Q order.toFinset
    rw [Config.fastQuorumSize] at hfast
    omega
  have hcount : (env.cfg.f + 1) / 2 + 1 ≤ (es.map (·.result)).count res := by
    refine hmeet.trans (card_le_count hc.order_nodup fun i hi => ?_)
    obtain ⟨hiQ, hi⟩ := Finset.mem_inter.mp hi
    obtain ⟨e, he, -, hres⟩ := hQ i hiQ
    exact ⟨List.mem_toFinset.mp hi, e, he, hres⟩
  have hlength : es.length ≤ env.cfg.f + 1 := by
    rw [← hc.order_length]
    exact List.length_filterMap_le _ _
  have hgrouped : (gather (latestRecords records r)).entriesByOpid.lookup o = some es := by
    have hg : (gather (latestRecords records r)).at o =
        (latestEntries records r o).foldl gatherAt (none, none) := gather_at_eq
    rw [hc.latestEntries_eq, gatherAt_consensus _ fun e he => by
      obtain ⟨i, hi, hl⟩ := hmem e he
      exact htype i hi e hl] at hg
    have hany : es.any isFinalized = false := by
      rw [List.any_eq_false]
      intro e he hfin
      obtain ⟨i, hi, hl⟩ := hmem e he
      exact hopen i hi e hl (of_decide_eq_true hfin)
    have hne : es ≠ [] := by
      intro hnil
      rw [hnil] at hcount
      exact absurd hcount (by simp)
    rw [← horder, ← hes, hany, Bool.false_or, List.isEmpty_eq_false_iff.mpr hne,
      if_neg Bool.false_ne_true] at hg
    exact congrArg Prod.snd hg
  have hmaj : majorityResult env.cfg es = some res := majorityResult_eq hcount hlength
  refine ⟨es, ?_, ?_, ?_, hcount, fun res' hres' => majority_unique hcount hres' hlength⟩
  · refine (Table.lookup_ofList_filter_value _ (fun es => (majorityResult env.cfg es).isSome) o).trans ?_
    rw [hgrouped, Option.filter_some, hmaj]
    rfl
  · refine Table.lookup_ofList (Table.nodup_filterMap (Table.toList_nodup _)
      fun p q hq => ?_) (List.mem_filterMap.mpr ⟨(o, es), Table.mem_toList.mpr hgrouped, ?_⟩)
    · obtain ⟨_, _, rfl⟩ := Option.map_eq_some_iff.mp hq
      rfl
    · rw [hmaj]
      rfl
  · refine (Table.lookup_ofList_filter_value _ (fun es => (majorityResult env.cfg es).isNone) o).trans ?_
    rw [hgrouped, Option.filter_some, hmaj]
    rfl

end Chosen

theorem fast_quorum_recovered_proposed :
    (mergeArguments leader sentRecord ownState).majorityResultsInD.lookup (7, 1) = some 5 := by
  have hc : Chosen leader.cfg (fun _ => proposed) leader.myIdx sentRecord ownState :=
    ⟨rfl, by decide, by decide, by decide, rfl⟩
  have hentry : ∀ e, proposed.lookup (7, 1) = some e →
      e = ⟨0, (7, 1), .tentative, .consensus, 3, 5⟩ := fun e he =>
    (Option.some.inj (he.symm.trans (by decide)))
  have hQ : ∀ i ∈ Finset.range leader.cfg.n, ∃ e, proposed.lookup (7, 1) = some e ∧
      e.state = .tentative ∧ e.result = 5 := fun _ _ =>
    ⟨⟨0, (7, 1), .tentative, .consensus, 3, 5⟩, by decide, rfl, rfl⟩
  obtain ⟨-, -, h, -⟩ := hc.fast_quorum_recovered rfl (Finset.Subset.refl _) (by decide) hQ
    (fun _ _ e he => by rw [hentry e he]) (fun _ _ e he => by rw [hentry e he]; decide)
  exact h

end D2PC.Ir.Replica
