import Mathlib.Data.Finset.Card
import Mathlib.Data.List.Nodup
import D2PC.Ir.Replica

/-!
# What a merge does with one operation

`IrMergeRecords` walks over all entries of the latest records. Seen from one operation it is a
fold over the entries of that operation, one for each record that has it.

* `lookup_gather` : the entries of the other operations do not matter;
* `gatherAt_consensus` : for a consensus operation the first finalised entry is kept, and without
  one all its entries are handed to the merge of the application;
* `lookup_merge_finalized`, `lookup_merge_majority` : what the merged record holds for it.
-/

namespace D2PC.Ir.Replica

variable {σ Op Res E : Type}

/-! ### One operation -/

/-- What has been gathered for one operation: the entry that is kept and the tentative entries. -/
abbrev GatheredAt (Op Res : Type) := Option (RecordEntry Op Res) × Option (List (RecordEntry Op Res))

/-- One more entry of the operation. -/
def gatherAt (g : GatheredAt Op Res) (entry : RecordEntry Op Res) : GatheredAt Op Res :=
  if entry.type = .inconsistent then (g.1.or (some entry), g.2)
  else if entry.state = .finalized then (g.1.or (some entry), none)
  else if g.1.isSome then g
  else (g.1, some (g.2.getD [] ++ [entry]))

/-- What is gathered for the operation `o`. -/
def Gathered.at (g : Gathered Op Res) (o : OpId) : GatheredAt Op Res :=
  (g.kept.lookup o, g.entriesByOpid.lookup o)

theorem lookup_keep (kept : Record Op Res) (o o' : OpId) (entry : RecordEntry Op Res) :
    (if o ∈ kept then kept else kept.insert o entry).lookup o' =
      if o' = o then (kept.lookup o).or (some entry) else kept.lookup o' := by
  by_cases hmem : o ∈ kept
  · obtain ⟨e, he⟩ := Option.isSome_iff_exists.1 (AList.lookup_isSome.2 hmem)
    rw [if_pos hmem]
    split_ifs with heq
    · rw [heq, he]
      rfl
    · rfl
  · rw [if_neg hmem, Table.lookup_insert_eq, AList.lookup_eq_none.2 hmem]
    rfl

theorem Gathered.at_add (g : Gathered Op Res) (o o' : OpId) (entry : RecordEntry Op Res) :
    (g.add o entry).at o' = if o' = o then gatherAt (g.at o) entry else g.at o' := by
  by_cases hinc : entry.type = .inconsistent
  · rw [Gathered.add, if_pos hinc, gatherAt, if_pos hinc, Gathered.at, lookup_keep]
    by_cases heq : o' = o
    · rw [if_pos heq, if_pos heq, heq]
      rfl
    · rw [if_neg heq, if_neg heq]
      rfl
  · by_cases hfin : entry.state = .finalized
    · rw [Gathered.add, if_neg hinc, if_pos hfin, gatherAt, if_neg hinc, if_pos hfin, Gathered.at,
        lookup_keep, Table.lookup_erase_eq]
      split_ifs with heq
      · rfl
      · rfl
    · rw [Gathered.add, if_neg hinc, if_neg hfin, gatherAt, if_neg hinc, if_neg hfin]
      by_cases hmem : o ∈ g.kept
      · have hsome : (g.at o).1.isSome = true := AList.lookup_isSome.2 hmem
        rw [if_pos hmem, if_pos hsome]
        split_ifs with heq
        · rw [heq]
        · rfl
      · have hnone : ¬ (g.at o).1.isSome = true := fun hsome => hmem (AList.lookup_isSome.1 hsome)
        rw [if_neg hmem, if_neg hnone, Gathered.at, Table.lookup_insert_eq]
        split_ifs with heq
        · rw [heq]
          rfl
        · rfl

/-- The entries of one record: at most one of them is of the operation. -/
theorem Gathered.at_foldl (l : List (OpId × RecordEntry Op Res)) (hl : (l.map Prod.fst).Nodup)
    (g : Gathered Op Res) (o : OpId) :
    (l.foldl (fun g p => g.add p.1 p.2) g).at o =
      match l.find? fun p => p.1 = o with
      | some p => gatherAt (g.at o) p.2
      | none => g.at o := by
  induction l generalizing g with
  | nil => rfl
  | cons p l ih =>
      obtain ⟨o', entry⟩ := p
      rw [List.map_cons, List.nodup_cons] at hl
      rw [List.foldl_cons, ih hl.2, Gathered.at_add, List.find?_cons]
      by_cases heq : o' = o
      · subst heq
        have hnone : l.find? (fun p => decide (p.1 = o')) = none := by
          rw [List.find?_eq_none]
          intro p hp
          rw [decide_eq_true_iff]
          intro heq
          exact hl.1 (List.mem_map.2 ⟨p, hp, heq⟩)
        simp [hnone]
      · simp [heq, Ne.symm heq]

theorem find?_toList (r : Record Op Res) (o : OpId) :
    r.toList.find? (fun p => p.1 = o) = (r.lookup o).map fun e => (o, e) := by
  cases hl : r.lookup o with
  | none =>
      rw [Option.map_none, List.find?_eq_none]
      rintro ⟨o', e⟩ hp
      rw [decide_eq_true_iff]
      rintro rfl
      rw [Table.mem_toList.1 hp] at hl
      cases hl
  | some e =>
      cases hfind : r.toList.find? fun p => decide (p.1 = o) with
      | none =>
          have hnot := List.find?_eq_none.1 hfind (o, e) (Table.mem_toList.2 hl)
          simp at hnot
      | some p =>
          obtain ⟨o', e'⟩ := p
          have heq := List.find?_some hfind
          have hp := List.mem_of_find?_eq_some hfind
          rw [decide_eq_true_iff] at heq
          cases heq
          rw [Table.mem_toList.1 hp] at hl
          cases hl
          rfl

/-- **One operation.** What is gathered for it is the fold over its own entries. -/
theorem lookup_gather (latest : List (Record Op Res)) (o : OpId) :
    (gather latest).at o = (latest.filterMap fun r => r.lookup o).foldl gatherAt (none, none) := by
  have hfold : ∀ (g : Gathered Op Res),
      (latest.foldl (fun g r => r.toList.foldl (fun g p => g.add p.1 p.2) g) g).at o =
        (latest.filterMap fun r => r.lookup o).foldl gatherAt (g.at o) := by
    induction latest with
    | nil => exact fun g => rfl
    | cons r latest ih =>
        intro g
        rw [List.foldl_cons, ih, Gathered.at_foldl _ r.toList_nodup, find?_toList]
        cases hl : r.lookup o with
        | none => simp [hl]
        | some e => simp [hl]
  exact hfold {}

/-- What is kept and what is gathered are entries of the operation; a consensus operation is kept
only if it is finalised. -/
theorem gatherAt_mem (es : List (RecordEntry Op Res)) :
    (∀ e, (es.foldl gatherAt (none, none)).1 = some e →
      e ∈ es ∧ (e.type = .consensus → e.state = .finalized)) ∧
    ∀ l, (es.foldl gatherAt (none, none)).2 = some l → ∀ e ∈ l, e ∈ es := by
  induction es using List.reverseRecOn with
  | nil => exact ⟨(fun _ h => by cases h), fun _ h => by cases h⟩
  | append_singleton es e ih =>
      rw [List.foldl_append, List.foldl_cons, List.foldl_nil]
      set g := es.foldl gatherAt (none, none)
      have hold : ∀ e', g.1 = some e' → e' ∈ es ++ [e] ∧
          (e'.type = .consensus → e'.state = .finalized) := fun e' he' =>
        ⟨List.mem_append_left _ (ih.1 e' he').1, (ih.1 e' he').2⟩
      have hlast : e ∈ es ++ [e] := List.mem_append_right _ (List.mem_singleton_self e)
      have hor : ∀ e', g.1.or (some e) = some e' → g.1 = some e' ∨ e' = e := by
        intro e' he'
        cases hg : g.1 with
        | none =>
            rw [hg] at he'
            exact .inr (Option.some.inj he').symm
        | some e₀ =>
            rw [hg] at he'
            exact .inl he'
      unfold gatherAt
      split_ifs with hinc hfin hsome
      · refine ⟨fun e' he' => ?_, fun l hl e' he' => List.mem_append_left _ (ih.2 l hl e' he')⟩
        rcases hor e' he' with hg | rfl
        · exact hold e' hg
        · exact ⟨hlast, fun ht => absurd (hinc.symm.trans ht) RecordEntryType.noConfusion⟩
      · refine ⟨fun e' he' => ?_, fun _ h => by cases h⟩
        rcases hor e' he' with hg | rfl
        · exact hold e' hg
        · exact ⟨hlast, fun _ => hfin⟩
      · exact ⟨hold, fun l hl e' he' => List.mem_append_left _ (ih.2 l hl e' he')⟩
      · refine ⟨hold, fun l hl e' he' => ?_⟩
        cases hl
        rcases List.mem_append.1 he' with hin | hin
        · cases hg : g.2 with
          | none =>
              rw [hg] at hin
              cases hin
          | some l₀ =>
              rw [hg] at hin
              exact List.mem_append_left _ (ih.2 l₀ hg e' hin)
        · rw [List.mem_singleton.1 hin]
          exact hlast

/-! ### Consensus operations -/

/-- The entry is finalised. -/
def isFinalized (e : RecordEntry Op Res) : Bool := decide (e.state = .finalized)

/-- **A consensus operation.** Its first finalised entry is kept; without one, all its entries
are gathered. -/
theorem gatherAt_consensus (es : List (RecordEntry Op Res))
    (htype : ∀ e ∈ es, e.type = .consensus) :
    es.foldl gatherAt (none, none) =
      (es.find? isFinalized,
        if es.any isFinalized || es.isEmpty then none else some es) := by
  induction es using List.reverseRecOn with
  | nil => rfl
  | append_singleton es e ih =>
      have hcons : e.type ≠ .inconsistent := by
        rw [htype e (List.mem_append_right _ (List.mem_singleton_self _))]
        exact RecordEntryType.noConfusion
      rw [List.foldl_append, ih fun e' he' => htype e' (List.mem_append_left _ he'),
        List.foldl_cons, List.foldl_nil, gatherAt, if_neg hcons, List.find?_append, List.any_append]
      by_cases hfin : e.state = .finalized
      · simp [hfin, isFinalized]
      · have hnot : isFinalized e = false := decide_eq_false hfin
        rw [if_neg hfin]
        by_cases hany : es.any isFinalized = true
        · have hsome : (es.find? isFinalized).isSome := by
            rw [List.find?_isSome]
            simpa using hany
          obtain ⟨e', he'⟩ := Option.isSome_iff_exists.1 hsome
          simp [hany, he']
        · have hnone : es.find? isFinalized = none := by
            rw [List.find?_eq_none]
            simpa using hany
          rw [Bool.not_eq_true] at hany
          cases es with
          | nil => simp [hnot]
          | cons e' es => simp [hany, hnone, hnot]

/-! ### The merged record -/

section Merged

variable [DecidableEq Res] {env : Env σ Op Res E} {records : List (DoViewChange Op Res)}
variable {r : Replica σ Op Res} {o : OpId} {es : List (RecordEntry Op Res)}

/-- **Nothing is invented.** An entry of the merged record was kept, or is new, of the merged view,
finalised, and for an operation that was gathered. -/
theorem lookup_merge_cases {e : RecordEntry Op Res}
    (he : (irMergeRecords env records r).1.lookup o = some e) :
    ((gather (latestRecords records r)).at o).1 = some e ∨
      ∃ es entry, ((gather (latestRecords records r)).at o).2 = some es ∧ entry ∈ es ∧
        e.view = r.view ∧ e.state = .finalized ∧ e.type = entry.type := by
  unfold irMergeRecords at he
  set g := gather (latestRecords records r)
  set results := (env.app.merge
    (Table.ofList (g.entriesByOpid.toList.filter fun p => (majorityResult env.cfg p.2).isSome))
    (Table.ofList (g.entriesByOpid.toList.filter fun p => (majorityResult env.cfg p.2).isNone))
    (Table.ofList (g.entriesByOpid.toList.filterMap fun p =>
      (majorityResult env.cfg p.2).map fun res => (p.1, res)))
    (env.app.sync g.kept r.app)).1 with hresults
  set merged := results.toList.filterMap fun p =>
    ((g.entriesByOpid.lookup p.1).getD []).head?.map fun entry =>
      (p.1, { view := r.view
              opid := p.1
              state := .finalized
              type := entry.type
              request := entry.request
              result := p.2 : RecordEntry Op Res }) with hmerged
  have he' : (merged.foldl (fun R p => R.insert p.1 p.2) g.kept).lookup o = some e := he
  by_cases hmem : o ∈ merged.map Prod.fst
  · right
    obtain ⟨⟨o', e'⟩, hin, rfl⟩ := List.mem_map.1 hmem
    have hkeys : (merged.map Prod.fst).Nodup := by
      refine Table.nodup_filterMap (Table.toList_nodup _) fun p q hq => ?_
      obtain ⟨_, _, rfl⟩ := Option.map_eq_some_iff.1 hq
      rfl
    rw [Table.lookup_foldl_insert_of_mem hkeys hin] at he'
    cases he'
    obtain ⟨p, _, hp⟩ := List.mem_filterMap.1 hin
    obtain ⟨entry, hhead, heq⟩ := Option.map_eq_some_iff.1 hp
    cases heq
    cases hentries : g.entriesByOpid.lookup p.1 with
    | none =>
        rw [hentries] at hhead
        cases hhead
    | some es =>
        rw [hentries, Option.getD_some] at hhead
        exact ⟨es, entry, hentries, List.mem_of_head? hhead, rfl, rfl, rfl⟩
  · left
    rw [Table.lookup_foldl_insert_of_notMem hmem] at he'
    exact he'

/-- **A finalised operation** keeps its entry. -/
theorem lookup_merge_kept {e : RecordEntry Op Res}
    (hg : (gather (latestRecords records r)).at o = (some e, none)) :
    (irMergeRecords env records r).1.lookup o = some e := by
  have hkept : (gather (latestRecords records r)).kept.lookup o = some e := congrArg Prod.fst hg
  have hentries : (gather (latestRecords records r)).entriesByOpid.lookup o = none :=
    congrArg Prod.snd hg
  unfold irMergeRecords
  rw [← hkept]
  apply Table.lookup_foldl_insert_of_notMem
  rw [List.mem_map]
  rintro ⟨⟨o', e'⟩, hmem, rfl⟩
  obtain ⟨p, _, hp⟩ := List.mem_filterMap.1 hmem
  obtain ⟨entry, hhead, heq⟩ := Option.map_eq_some_iff.1 hp
  cases heq
  rw [hentries] at hhead
  cases hhead

/-- There is room for only one majority. -/
theorem majority_unique {cfg : Config} {res res' : Res}
    (hmany : (cfg.f + 1) / 2 + 1 ≤ (es.map (·.result)).count res)
    (hmany' : (cfg.f + 1) / 2 + 1 ≤ (es.map (·.result)).count res')
    (hfew : es.length ≤ cfg.f + 1) : res' = res := by
  by_contra hne
  have htwo : (es.map (·.result)).count res' + (es.map (·.result)).count res ≤ es.length := by
    have hsplit := List.length_eq_countP_add_countP (l := es.map (·.result)) (· == res)
    have hle : (es.map (·.result)).count res' ≤
        (es.map (·.result)).countP fun a => decide ¬ (a == res) = true := by
      rw [List.count_eq_countP]
      apply List.countP_mono_left
      intro a _ ha
      rw [eq_of_beq ha]
      simpa using hne
    rw [List.length_map, ← List.count_eq_countP] at hsplit
    omega
  omega

/-- A result that is frequent enough, when there is room for only one. -/
theorem majorityResult_eq {cfg : Config} {res : Res}
    (hmany : (cfg.f + 1) / 2 + 1 ≤ (es.map (·.result)).count res)
    (hfew : es.length ≤ cfg.f + 1) : majorityResult cfg es = some res := by
  have hfind : ∀ res' k, (res', k) ∈ (tally (es.map (·.result))).toList →
      (cfg.f + 1) / 2 + 1 ≤ k → res' = res := by
    intro res' k hmem hk
    obtain ⟨_, hcount⟩ := mem_tally.1 hmem
    exact majority_unique hmany (by rw [hcount]; exact hk) hfew
  have hpresent : (res, (es.map (·.result)).count res) ∈ (tally (es.map (·.result))).toList := by
    rw [mem_tally]
    refine ⟨List.count_pos_iff.1 ?_, rfl⟩
    omega
  unfold majorityResult
  cases hfound : (tally (es.map (·.result))).toList.find?
      fun c => decide ((cfg.f + 1) / 2 + 1 ≤ c.2) with
  | none =>
      have hnot := List.find?_eq_none.1 hfound _ hpresent
      rw [decide_eq_true_iff] at hnot
      exact absurd hmany hnot
  | some c =>
      have hk := List.find?_some hfound
      rw [decide_eq_true_iff] at hk
      rw [Option.map_some, hfind c.1 c.2 (List.mem_of_find?_eq_some hfound) hk]

/-- Every replica with the result has its own entry. -/
theorem card_le_count {order : List ℕ} (horder : order.Nodup) {record : ℕ → Record Op Res}
    {res : Res} {S : Finset ℕ}
    (hS : ∀ i ∈ S, i ∈ order ∧ ∃ e, (record i).lookup o = some e ∧ e.result = res) :
    S.card ≤ ((order.filterMap fun i => (record i).lookup o).map (·.result)).count res := by
  have hsub : S ⊆ (order.filter fun i =>
      (((record i).lookup o).map fun e => e.result == res).getD false).toFinset := by
    intro i hi
    obtain ⟨hmem, e, he, hres⟩ := hS i hi
    rw [List.mem_toFinset, List.mem_filter]
    refine ⟨hmem, ?_⟩
    rw [he, Option.map_some, Option.getD_some, hres]
    exact beq_self_eq_true res
  rw [List.count_eq_countP, List.countP_map, List.countP_filterMap,
    List.countP_eq_length_filter, ← List.toFinset_card_of_nodup (horder.filter _)]
  exact Finset.card_le_card hsub

/-- **A tentative operation** with a majority result is finalised with it. -/
theorem lookup_merge_majority (happ : env.app.KeepsMajority) {res : Res}
    (hg : (gather (latestRecords records r)).at o = (none, some es))
    (hne : es ≠ []) (hmaj : majorityResult env.cfg es = some res) :
    ∃ e, (irMergeRecords env records r).1.lookup o = some e ∧ e.state = .finalized ∧
      e.type = (es.head hne).type ∧ e.result = res := by
  have hentries : (gather (latestRecords records r)).entriesByOpid.lookup o = some es :=
    congrArg Prod.snd hg
  have hmem : (o, es) ∈ (gather (latestRecords records r)).entriesByOpid.toList :=
    Table.mem_toList.2 hentries
  have hkeys := (gather (latestRecords records r)).entriesByOpid.toList_nodup
  unfold irMergeRecords
  set g := gather (latestRecords records r)
  set d := Table.ofList (g.entriesByOpid.toList.filter fun p =>
    (majorityResult env.cfg p.2).isSome) with hd
  set u := Table.ofList (g.entriesByOpid.toList.filter fun p =>
    (majorityResult env.cfg p.2).isNone)
  set majority := Table.ofList (g.entriesByOpid.toList.filterMap fun p =>
    (majorityResult env.cfg p.2).map fun res => (p.1, res)) with hmajority
  have hlookd : d.lookup o = some es := by
    refine Table.lookup_ofList (hkeys.sublist (List.filter_sublist.map _)) ?_
    rw [List.mem_filter, hmaj]
    exact ⟨hmem, rfl⟩
  have hlookm : majority.lookup o = some res := by
    refine Table.lookup_ofList (Table.nodup_filterMap hkeys fun p q hq => ?_) ?_
    · obtain ⟨_, _, rfl⟩ := Option.map_eq_some_iff.1 hq
      rfl
    · rw [List.mem_filterMap]
      exact ⟨(o, es), hmem, by rw [hmaj]; rfl⟩
  have hresult := happ d u majority (env.app.sync g.kept r.app) o es res hlookd hlookm
  refine ⟨{ view := r.view
            opid := o
            state := .finalized
            type := (es.head hne).type
            request := (es.head hne).request
            result := res }, ?_, rfl, rfl, rfl⟩
  refine Table.lookup_foldl_insert_of_mem (Table.nodup_filterMap (Table.toList_nodup _)
    fun p q hq => ?_) ?_ _
  · obtain ⟨_, _, rfl⟩ := Option.map_eq_some_iff.1 hq
    rfl
  · rw [List.mem_filterMap]
    refine ⟨(o, res), Table.mem_toList.2 hresult, ?_⟩
    rw [hentries, Option.getD_some, List.head?_eq_some_head hne]
    rfl

/-- The largest latest normal view, of the messages and the own one. -/
def maxNormalView (records : List (DoViewChange Op Res)) (r : Replica σ Op Res) : ℕ :=
  (records.map (·.latestNormalView)).foldl max r.latestNormalView

omit [DecidableEq Res] in
theorem le_maxNormalView (records : List (DoViewChange Op Res)) (r : Replica σ Op Res) :
    r.latestNormalView ≤ maxNormalView records r ∧
      ∀ m ∈ records, m.latestNormalView ≤ maxNormalView records r := by
  have hfold : ∀ (l : List ℕ) (b : ℕ), b ≤ l.foldl max b ∧ ∀ x ∈ l, x ≤ l.foldl max b := by
    intro l
    induction l with
    | nil => exact fun b => ⟨le_rfl, fun _ h => by cases h⟩
    | cons y l ih =>
        intro b
        obtain ⟨hb, hl⟩ := ih (max b y)
        refine ⟨(le_max_left b y).trans hb, fun x hx => ?_⟩
        rcases List.mem_cons.1 hx with rfl | hx
        · exact (le_max_right b x).trans hb
        · exact hl x hx
  obtain ⟨hb, hl⟩ := hfold (records.map (·.latestNormalView)) r.latestNormalView
  exact ⟨hb, fun m hm => hl _ (List.mem_map_of_mem hm)⟩

omit [DecidableEq Res] in
theorem maxNormalView_attained (records : List (DoViewChange Op Res)) (r : Replica σ Op Res) :
    r.latestNormalView = maxNormalView records r ∨
      ∃ m ∈ records, m.latestNormalView = maxNormalView records r := by
  have hfold : ∀ (l : List ℕ) (b : ℕ), b = l.foldl max b ∨ l.foldl max b ∈ l := by
    intro l
    induction l with
    | nil => exact fun b => .inl rfl
    | cons y l ih =>
        intro b
        rw [List.foldl_cons]
        rcases ih (max b y) with heq | hmem
        · rcases Nat.le_total y b with hle | hle
          · left
            rw [← heq, Nat.max_eq_left hle]
          · right
            rw [← heq, Nat.max_eq_right hle]
            exact List.mem_cons_self
        · exact .inr (List.mem_cons_of_mem _ hmem)
  rcases hfold (records.map (·.latestNormalView)) r.latestNormalView with heq | hmem
  · exact .inl heq
  · obtain ⟨m, hm, heq⟩ := List.mem_map.1 hmem
    exact .inr ⟨m, hm, heq⟩

end Merged

end D2PC.Ir.Replica
