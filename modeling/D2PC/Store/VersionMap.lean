import D2PC.Store.TapirStore
import Mathlib.Order.Bounds.Basic
import Mathlib.Order.Interval.Set.Basic

/-!
# The store as a multi-version map

The searches of `VersionedKVStore` as the code does them, by `upper_bound` and a step back in the
ordered set of versions, against the history of calls. Of several writes of a key at one timestamp
the first one counts. `commitGet` raises the last read of a version if there is one, and nothing
enters the first: the table of last reads stays empty.

* `VersionedKVStore.getAt`, `VersionedKVStore.getRange` : the searches;
* `multi_version_map` : what they find after every history of calls;
* `last_read_iff` : the last reads are right exactly where there is nothing to report;
* `committed_read_unknown` : a read that was committed and is not known.
-/

namespace D2PC

/-! ### The searches -/

namespace Versions

/-- `upper_bound`: the position of the first version after `t`. Positions stand for iterators,
the length for `end()`. -/
def upperBound (vs : Versions) (t : Timestamp) : ℕ :=
  vs.entries.findIdx fun e => decide (t < e.1)

/-- `getValue`: one step back from there, and `end()` at the beginning. -/
def getValue (vs : Versions) (t : Timestamp) : Option ℕ :=
  if vs.upperBound t = 0 then none else some (vs.upperBound t - 1)

/-- The version valid at `t` is the last one that is not after it. -/
theorem filter_getLast? {es : List (Timestamp × Value)} (h : es.Pairwise fun a b => a.1 < b.1)
    (t : Timestamp) : (es.filter fun e => decide (e.1 ≤ t)).getLast? =
      if es.findIdx (fun e => decide (t < e.1)) = 0 then none
      else es[es.findIdx (fun e => decide (t < e.1)) - 1]? := by
  induction es with
  | nil => rfl
  | cons e es ih =>
      obtain ⟨he, hes⟩ := List.pairwise_cons.1 h
      by_cases hlt : t < e.1
      · have hnone : (e :: es).filter (fun e => decide (e.1 ≤ t)) = [] := by
          rw [List.filter_eq_nil_iff]
          intro b hb hle
          rcases List.mem_cons.1 hb with rfl | hb
          · exact absurd (of_decide_eq_true hle) (not_le.2 hlt)
          · exact absurd (of_decide_eq_true hle) (not_le.2 (lt_trans hlt (he b hb)))
        rw [hnone, List.findIdx_cons, decide_eq_true hlt]
        rfl
      · have hle : decide (e.1 ≤ t) = true := decide_eq_true (not_lt.1 hlt)
        rw [List.filter_cons, if_pos hle, List.findIdx_cons, decide_eq_false hlt,
          List.getLast?_cons, ih hes]
        have hbound : es.findIdx (fun e => decide (t < e.1)) ≤ es.length :=
          List.findIdx_le_length
        simp only [cond_false, Nat.add_one_ne_zero, if_false, Nat.add_one_sub_one]
        cases hn : es.findIdx fun e => decide (t < e.1) with
        | zero => rfl
        | succ n =>
            rw [hn] at hbound
            simp only [Nat.add_one_ne_zero, if_false, Nat.add_one_sub_one,
              List.getElem?_cons_succ]
            rw [List.getElem?_eq_getElem hbound]
            rfl

end Versions

namespace VersionedKVStore

/-- `inStore`. -/
def inStore (s : VersionedKVStore) (key : Key) : Bool := !(s.versions key).entries.isEmpty

/-- `get` at a timestamp: the value valid then. -/
def getAt (s : VersionedKVStore) (key : Key) (t : Timestamp) : Option (Timestamp × Value) :=
  if s.inStore key then
    match (s.versions key).getValue t with
    | none => none
    | some it => (s.versions key).entries[it]?
  else none

/-- `getRange`: the timestamps of the version valid at `t` and of the next one. The caller's
`range` keeps its second component where there is no next one. -/
def getRange (s : VersionedKVStore) (key : Key) (t : Timestamp) (range : Timestamp × Timestamp) :
    Option (Timestamp × Timestamp) :=
  if s.inStore key then
    match (s.versions key).getValue t with
    | none => none
    | some it =>
        (s.versions key).entries[it]?.map fun e =>
          (e.1, ((s.versions key).entries[it + 1]?.map Prod.fst).getD range.2)
  else none

variable {s : VersionedKVStore} {key : Key} {t : Timestamp}

theorem getAt_eq : s.getAt key t =
    ((s.versions key).entries.filter fun e => decide (e.1 ≤ t)).getLast? := by
  rw [Versions.filter_getLast? (s.versions key).sorted, getAt, inStore, Versions.getValue,
    Versions.upperBound]
  cases (s.versions key).entries with
  | nil => rfl
  | cons e es =>
      simp only [List.isEmpty_cons, Bool.not_false, if_true]
      split_ifs <;> rfl

theorem getRange_eq {range : Timestamp × Timestamp} : s.getRange key t range =
    (s.getAt key t).map fun e => (e.1, (((s.versions key).entries.find? fun e =>
      decide (t < e.1)).map Prod.fst).getD range.2) := by
  rw [getRange, getAt, Versions.getValue, List.find?_eq_getElem?_findIdx, Versions.upperBound]
  split_ifs with hin hbegin
  · rfl
  · simp only [Nat.sub_add_cancel (Nat.one_le_iff_ne_zero.2 hbegin)]
  · rfl

end VersionedKVStore

/-- The timestamp-ordered store asks the same search. -/
theorem TrackedKVStore.getValue_eq (s : TrackedKVStore) (key : Key) (t : Timestamp) :
    s.getValue key t = s.getAt key t := VersionedKVStore.getAt_eq.symm

theorem TrackedKVStore.getRange_eq (s : TrackedKVStore) (key : Key) (t : Timestamp) :
    s.getRange key t = s.toVersionedKVStore.getRange key t ({}, {}) := by
  rw [VersionedKVStore.getRange_eq, TrackedKVStore.getRange, getValue_eq]
  rfl

/-! ### Histories -/

/-- A call that changes the store. -/
inductive VersionCall where
  | put (key : Key) (value : Value) (t : Timestamp)
  | commitGet (key : Key) (readTime commit : Timestamp)

namespace VersionCall

/-- The effect of a call. -/
def apply (s : TrackedKVStore) : VersionCall → TrackedKVStore
  | .put key value t => s.put key value t
  | .commitGet key readTime commit => s.commitGet key readTime commit

/-- The store after a history of calls. -/
def run (h : List VersionCall) : TrackedKVStore := h.foldl apply {}

/-- The value a call writes to the key at `t`. -/
def writes (key : Key) (t : Timestamp) : VersionCall → Option Value
  | .put key' value t' => if key' = key ∧ t' = t then some value else none
  | .commitGet _ _ _ => none

/-- The value of the first write of the key at `t`. -/
def firstValue (h : List VersionCall) (key : Key) (t : Timestamp) : Option Value :=
  h.findSome? (writes key t)

/-- The timestamps at which the key was written. -/
def times (h : List VersionCall) (key : Key) : Set Timestamp :=
  { t | ∃ value, .put key value t ∈ h }

variable {h : List VersionCall} {key : Key} {t : Timestamp} {v : Value}

theorem run_concat (c : VersionCall) : run (h ++ [c]) = apply (run h) c := by
  rw [run, List.foldl_concat]
  rfl

theorem versions_commitGet (s : TrackedKVStore) (key key' : Key) (readTime commit : Timestamp) :
    (s.commitGet key readTime commit).versions key' = s.versions key' := by
  unfold TrackedKVStore.commitGet
  split
  · split
    · split_ifs <;> rfl
    · rfl
  · rfl

theorem mem_times : t ∈ times h key ↔ ∃ v, firstValue h key t = some v := by
  rw [← Option.isSome_iff_exists, firstValue, List.findSome?_isSome_iff]
  constructor
  · rintro ⟨value, hmem⟩
    exact ⟨_, hmem, by rw [writes, if_pos ⟨rfl, rfl⟩]; rfl⟩
  · rintro ⟨c, hmem, hc⟩
    cases c with
    | put key' value t' =>
        rw [writes] at hc
        split_ifs at hc with heq
        · obtain ⟨rfl, rfl⟩ := heq
          exact ⟨value, hmem⟩
        · cases hc
    | commitGet => cases hc

/-- **The versions** are the first writes at each timestamp. -/
theorem hasVersion_run : (run h).HasVersion key t v ↔ firstValue h key t = some v := by
  induction h using List.reverseRecOn generalizing key t v with
  | nil => exact ⟨fun h => (by cases h), fun h => (by cases h)⟩
  | append_singleton h c ih =>
      rw [run_concat, firstValue, List.findSome?_append, Option.or_eq_some_iff, ← firstValue, ← ih]
      cases c with
      | commitGet key' readTime commit =>
          have hno : [VersionCall.commitGet key' readTime commit].findSome? (writes key t) ≠
              some v := fun h => by cases h
          rw [apply, VersionedKVStore.HasVersion, versions_commitGet]
          exact ⟨.inl, fun h => h.resolve_right fun h => hno h.2⟩
      | put key' value t' =>
          rw [apply, TrackedKVStore.put, VersionedKVStore.HasVersion,
            VersionedKVStore.versions_put]
          split_ifs with hkey
          · -- the version is entered where its timestamp is free
            subst hkey
            have hfree : (∀ v', (t', v') ∉ ((run h).versions key).entries) ↔
                firstValue h key t' = none := by
              rw [Option.eq_none_iff_forall_ne_some]
              exact forall_congr' fun v' => not_congr ih
            show (t, v) ∈ insertVersion t' value _ ↔ _
            rw [mem_insertVersion_iff ((run h).versions key).sorted, hfree, Prod.mk.injEq,
              List.findSome?_singleton, writes]
            refine or_congr_right ⟨?_, ?_⟩
            · rintro ⟨⟨rfl, rfl⟩, hnone⟩
              exact ⟨hnone, if_pos ⟨rfl, rfl⟩⟩
            · rintro ⟨hnone, hsome⟩
              split_ifs at hsome with heq
              cases hsome
              rw [heq.2]
              exact ⟨⟨rfl, rfl⟩, hnone⟩
          · have hno : [VersionCall.put key' value t'].findSome? (writes key t) ≠ some v := by
              rw [List.findSome?_singleton, writes, if_neg fun heq => hkey heq.1.symm]
              intro h
              cases h
            exact ⟨.inl, fun h => h.resolve_right fun h => hno h.2⟩

end VersionCall

/-! ### What is found -/

/-- The last of an ordered list of versions. -/
theorem getLast?_eq_some_iff {es : List (Timestamp × Value)}
    (h : es.Pairwise fun a b => a.1 < b.1) {e : Timestamp × Value} :
    es.getLast? = some e ↔ e ∈ es ∧ ∀ x ∈ es, x.1 ≤ e.1 := by
  constructor
  · exact fun he => ⟨List.mem_of_getLast? he, fun x hx => TapirStore.le_of_getLast? h he hx⟩
  · rintro ⟨hmem, hmax⟩
    obtain ⟨l, hl⟩ : ∃ l, es.getLast? = some l :=
      ⟨_, List.getLast?_eq_some_getLast (List.ne_nil_of_mem hmem)⟩
    obtain ⟨front, rfl⟩ := List.getLast?_eq_some_iff.1 hl
    have hge := hmax l (List.mem_append_right _ (List.mem_singleton_self l))
    rcases List.mem_append.1 hmem with hfront | hlast
    · have hlt := (List.pairwise_append.1 h).2.2 e hfront l (List.mem_singleton_self l)
      exact absurd hge (not_le.2 hlt)
    · rw [hl, List.mem_singleton.1 hlast]

namespace VersionedKVStore

variable {s : VersionedKVStore} {key : Key} {t : Timestamp} {e : Timestamp × Value}

theorem get_eq_some : s.get key = some e ↔
    s.HasVersion key e.1 e.2 ∧ ∀ u v, s.HasVersion key u v → u ≤ e.1 := by
  rw [get, Versions.latest, getLast?_eq_some_iff (s.versions key).sorted]
  refine and_congr_right fun _ => ⟨fun hmax u v hv => hmax (u, v) hv, fun hmax x hx => ?_⟩
  exact hmax x.1 x.2 hx

theorem getAt_eq_some : s.getAt key t = some e ↔ s.HasVersion key e.1 e.2 ∧ e.1 ≤ t ∧
    ∀ u v, s.HasVersion key u v → u ≤ t → u ≤ e.1 := by
  rw [getAt_eq, getLast?_eq_some_iff ((s.versions key).sorted.filter _), List.mem_filter,
    decide_eq_true_eq, and_assoc]
  refine and_congr_right fun _ => and_congr_right fun _ => ⟨fun hmax u v hv hle => ?_, ?_⟩
  · exact hmax (u, v) (List.mem_filter.2 ⟨hv, decide_eq_true hle⟩)
  · intro hmax x hx
    obtain ⟨hmem, hle⟩ := List.mem_filter.1 hx
    exact hmax x.1 x.2 hmem (of_decide_eq_true hle)

theorem get_eq_none : s.get key = none ↔ ∀ u v, ¬ s.HasVersion key u v := by
  rw [get, Versions.latest, List.getLast?_eq_none_iff, List.eq_nil_iff_forall_not_mem]
  exact ⟨fun hno u v => hno (u, v), fun hno x => hno x.1 x.2⟩

theorem getAt_eq_none : s.getAt key t = none ↔ ∀ u v, s.HasVersion key u v → ¬ u ≤ t := by
  rw [getAt_eq, List.getLast?_eq_none_iff, List.filter_eq_nil_iff]
  refine ⟨fun hno u v hv hle => hno (u, v) hv (decide_eq_true hle), fun hno x hx hle => ?_⟩
  exact hno x.1 x.2 hx (of_decide_eq_true hle)

end VersionedKVStore

section Map

open VersionCall Set

variable {h : List VersionCall} {key : Key} {t : Timestamp} {e : Timestamp × Value}

theorem VersionCall.mem_times_iff {u : Timestamp} :
    u ∈ times h key ↔ ∃ v, (run h).HasVersion key u v := by
  rw [mem_times]
  exact exists_congr fun v => hasVersion_run.symm

theorem get_run : (run h).get key = some e ↔
    IsGreatest (times h key) e.1 ∧ firstValue h key e.1 = some e.2 := by
  rw [VersionedKVStore.get_eq_some, hasVersion_run, and_comm]
  refine and_congr_left fun hfirst => ⟨fun hmax => ⟨?_, ?_⟩, fun hmax u v hv => ?_⟩
  · exact mem_times.2 ⟨e.2, hfirst⟩
  · intro u hu
    obtain ⟨v, hv⟩ := mem_times_iff.1 hu
    exact hmax u v hv
  · exact hmax.2 (mem_times_iff.2 ⟨v, hv⟩)

theorem getAt_run : (run h).getAt key t = some e ↔
    IsGreatest (times h key ∩ Iic t) e.1 ∧ firstValue h key e.1 = some e.2 := by
  rw [VersionedKVStore.getAt_eq_some, hasVersion_run, and_comm]
  refine and_congr_left fun hfirst =>
    ⟨fun ⟨hle, hmax⟩ => ⟨⟨?_, hle⟩, ?_⟩, fun hmax => ⟨hmax.1.2, ?_⟩⟩
  · exact mem_times.2 ⟨e.2, hfirst⟩
  · rintro u ⟨hu, hut⟩
    obtain ⟨v, hv⟩ := mem_times_iff.1 hu
    exact hmax u v hv hut
  · exact fun u v hv hut => hmax.2 ⟨mem_times_iff.2 ⟨v, hv⟩, hut⟩

theorem get_run_none : (run h).get key = none ↔ times h key = ∅ := by
  rw [VersionedKVStore.get_eq_none, eq_empty_iff_forall_notMem]
  exact forall_congr' fun u => by rw [mem_times_iff, not_exists]

theorem getAt_run_none : (run h).getAt key t = none ↔ times h key ∩ Iic t = ∅ := by
  rw [VersionedKVStore.getAt_eq_none, eq_empty_iff_forall_notMem]
  refine forall_congr' fun u => ⟨fun hno hu => ?_, fun hno v hv hle => ?_⟩
  · obtain ⟨v, hv⟩ := mem_times_iff.1 hu.1
    exact hno v hv hu.2
  · exact hno ⟨mem_times_iff.2 ⟨v, hv⟩, hle⟩

/-- The next version is the first after `t`. -/
theorem nextVersion_run {u : Timestamp} (hu : (run h).nextVersion key t = some u) :
    IsLeast (times h key ∩ Ioi t) u := by
  obtain ⟨e, he, heq⟩ := Option.map_eq_some_iff.1 hu
  have hversion : (run h).HasVersion key e.1 e.2 := List.mem_of_find?_eq_some he
  refine ⟨⟨?_, ?_⟩, fun x hx => ?_⟩
  · rw [← heq]
    exact mem_times_iff.2 ⟨e.2, hversion⟩
  · rw [← heq]
    exact of_decide_eq_true
      (List.find?_some (p := fun e : Timestamp × Value => decide (t < e.1)) he)
  · obtain ⟨v, hv⟩ := mem_times_iff.1 hx.1
    exact TapirStore.nextVersion_some hu hv hx.2

theorem nextVersion_run_none (hu : (run h).nextVersion key t = none) :
    times h key ∩ Ioi t = ∅ := by
  rw [eq_empty_iff_forall_notMem]
  rintro x ⟨hx, hlt⟩
  obtain ⟨v, hv⟩ := mem_times_iff.1 hx
  exact TapirStore.nextVersion_none hu hv hlt

/-- After the greatest element up to `t` comes the first one after `t`. -/
theorem inter_Ioi_eq {A : Set Timestamp} {a : Timestamp} (ha : IsGreatest (A ∩ Iic t) a) :
    A ∩ Ioi a = A ∩ Ioi t := by
  ext x
  refine and_congr_right fun hx => ⟨fun hax => ?_, fun htx => ?_⟩
  · by_contra hnot
    exact absurd (ha.2 ⟨hx, mem_Iic.2 (not_lt.1 hnot)⟩) (not_le.2 hax)
  · exact mem_Ioi.2 (lt_of_le_of_lt ha.1.2 htx)

theorem getRange_run {range r : Timestamp × Timestamp} :
    (run h).toVersionedKVStore.getRange key t range = some r ↔
      IsGreatest (times h key ∩ Iic t) r.1 ∧ (IsLeast (times h key ∩ Ioi r.1) r.2 ∨
        (times h key ∩ Ioi r.1 = ∅ ∧ r.2 = range.2)) := by
  have hnext : ((((run h).versions key).entries.find? fun e => decide (t < e.1)).map Prod.fst) =
      (run h).nextVersion key t := rfl
  rw [VersionedKVStore.getRange_eq, hnext, Option.map_eq_some_iff]
  constructor
  · rintro ⟨e, he, rfl⟩
    have hmax := (getAt_run.1 he).1
    refine ⟨hmax, ?_⟩
    rw [inter_Ioi_eq hmax]
    cases hu : (run h).nextVersion key t with
    | none => exact .inr ⟨nextVersion_run_none hu, rfl⟩
    | some u => exact .inl (nextVersion_run hu)
  · obtain ⟨a, b⟩ := r
    rintro ⟨hmax, hleast⟩
    obtain ⟨v, hv⟩ := mem_times.1 hmax.1.1
    refine ⟨(a, v), getAt_run.2 ⟨hmax, hv⟩, Prod.ext rfl ?_⟩
    rw [inter_Ioi_eq hmax] at hleast
    cases hu : (run h).nextVersion key t with
    | none =>
        rcases hleast with hleast | hempty
        · rw [nextVersion_run_none hu] at hleast
          exact absurd hleast.1 (notMem_empty b)
        · exact hempty.2.symm
    | some u =>
        rcases hleast with hleast | hempty
        · exact (nextVersion_run hu).unique hleast
        · have hmem := (nextVersion_run hu).1
          rw [hempty.1] at hmem
          exact absurd hmem (notMem_empty u)

/-- **A multi-version map.** After every history of calls, with any keys, values and timestamps
in any order: `get` finds the version with the greatest timestamp, `get` at `t` the one with the
greatest timestamp not above `t`, each with the value of the first write at this timestamp, and
they fail exactly where there is none; `getRange` finds the timestamp of the version valid at `t`
and the next greater one, and leaves the second component alone exactly where there is none.
Timestamps are compared by time and then by id. -/
theorem multi_version_map (h : List VersionCall) (key : Key) (t : Timestamp)
    (range : Timestamp × Timestamp) :
    (∀ e, (run h).get key = some e ↔
      IsGreatest (times h key) e.1 ∧ firstValue h key e.1 = some e.2) ∧
    ((run h).get key = none ↔ times h key = ∅) ∧
    (∀ e, (run h).getAt key t = some e ↔
      IsGreatest (times h key ∩ Iic t) e.1 ∧ firstValue h key e.1 = some e.2) ∧
    ((run h).getAt key t = none ↔ times h key ∩ Iic t = ∅) ∧
    (∀ r, (run h).toVersionedKVStore.getRange key t range = some r ↔
      IsGreatest (times h key ∩ Iic t) r.1 ∧ (IsLeast (times h key ∩ Ioi r.1) r.2 ∨
        (times h key ∩ Ioi r.1 = ∅ ∧ r.2 = range.2))) ∧
    ((run h).toVersionedKVStore.getRange key t range = none ↔ times h key ∩ Iic t = ∅) ∧
    ∀ a b : Timestamp, a < b ↔
      a.timestamp < b.timestamp ∨ (a.timestamp = b.timestamp ∧ a.id < b.id) := by
  refine ⟨fun _ => get_run, get_run_none, fun _ => getAt_run, getAt_run_none,
    fun _ => getRange_run, ?_, fun a b => ?_⟩
  · rw [VersionedKVStore.getRange_eq, Option.map_eq_none_iff]
    exact getAt_run_none
  · rw [Timestamp.lt_def]
    split_ifs <;> omega

/-- Writes out of order, with two values at one timestamp. -/
example : (run [.put "a" "2" ⟨5, 0⟩, .put "a" "1" ⟨3, 1⟩, .put "a" "0" ⟨3, 1⟩]).getAt "a" ⟨4, 0⟩ =
    some (⟨3, 1⟩, "1") := by
  decide

end Map

/-! ### The last reads -/

section LastReads

open VersionCall Set

/-- The commit timestamps of the committed reads that selected the version `u` of the key. -/
def readers (h : List VersionCall) (key : Key) (u : Timestamp) : Set Timestamp :=
  { commit | ∃ before readTime after e, h = before ++ .commitGet key readTime commit :: after ∧
    (run before).getAt key readTime = some e ∧ e.1 = u }

/-- The last read of a version, if there is the version, is the greatest of its committed reads;
it is unknown exactly if there is no version or no read. -/
def ReadKnown (h : List VersionCall) (key : Key) (version : Option (Timestamp × Value))
    (lastRead : Option Timestamp) : Prop :=
  (∀ commit, lastRead = some commit ↔
    ∃ e, version = some e ∧ IsGreatest (readers h key e.1) commit) ∧
  (lastRead = none ↔ ∀ e, version = some e → readers h key e.1 = ∅)

/-- Nothing enters the table of last reads. -/
theorem lastReads_run (h : List VersionCall) : (run h).lastReads = ∅ := by
  induction h using List.reverseRecOn with
  | nil => rfl
  | append_singleton h c ih =>
      rw [run_concat]
      cases c with
      | put key value t => exact ih
      | commitGet key readTime commit =>
          have hnone : (run h).lastReads.lookup key = none := by
            rw [ih]
            rfl
          rw [apply, TrackedKVStore.commitGet, hnone]
          cases (run h).getValue key readTime <;> exact ih

theorem readKnown_none_iff {h : List VersionCall} {key : Key}
    {version : Option (Timestamp × Value)} :
    ReadKnown h key version none ↔ ∀ e, version = some e → readers h key e.1 = ∅ := by
  refine ⟨fun hknown => hknown.2.1 rfl, fun hempty => ⟨fun commit => ⟨(fun h => by cases h), ?_⟩, ?_⟩⟩
  · rintro ⟨e, he, hmax⟩
    have hmem := hmax.1
    rw [hempty e he] at hmem
    exact absurd hmem (notMem_empty commit)
  · exact ⟨fun _ => hempty, fun _ => rfl⟩

/-- **Last reads.** After every history of calls, `getLastRead` of the latest version and of the
one valid at `t` are right exactly if no committed read selected these versions. -/
theorem last_read_iff (h : List VersionCall) (key : Key) (t : Timestamp) :
    (ReadKnown h key ((run h).get key) ((run h).getLastRead key) ↔
      ∀ e, (run h).get key = some e → readers h key e.1 = ∅) ∧
    (ReadKnown h key ((run h).getAt key t) ((run h).getLastReadAt key t) ↔
      ∀ e, (run h).getAt key t = some e → readers h key e.1 = ∅) := by
  have hlookup : (run h).lastReads.lookup key = none := by
    rw [lastReads_run]
    rfl
  have hlatest : (run h).getLastRead key = none := by
    rw [TrackedKVStore.getLastRead, hlookup]
    cases (run h).get key <;> rfl
  have hvalid : (run h).getLastReadAt key t = none := by
    rw [TrackedKVStore.getLastReadAt, hlookup]
    rfl
  rw [hlatest, hvalid]
  exact ⟨readKnown_none_iff, readKnown_none_iff⟩

/-- **A read is not known.** The read of the only version was committed at 5. -/
theorem committed_read_unknown :
    ¬ ReadKnown [.put "a" "1" ⟨3, 0⟩, .commitGet "a" ⟨3, 0⟩ ⟨5, 0⟩] "a"
      ((run [.put "a" "1" ⟨3, 0⟩, .commitGet "a" ⟨3, 0⟩ ⟨5, 0⟩]).get "a")
      ((run [.put "a" "1" ⟨3, 0⟩, .commitGet "a" ⟨3, 0⟩ ⟨5, 0⟩]).getLastRead "a") := by
  intro hknown
  have hempty := hknown.2.1 rfl (⟨3, 0⟩, "1") rfl
  have hmem : (⟨5, 0⟩ : Timestamp) ∈
      readers [.put "a" "1" ⟨3, 0⟩, .commitGet "a" ⟨3, 0⟩ ⟨5, 0⟩] "a" ⟨3, 0⟩ :=
    ⟨[.put "a" "1" ⟨3, 0⟩], ⟨3, 0⟩, [], (⟨3, 0⟩, "1"), rfl, rfl, rfl⟩
  rw [hempty] at hmem
  exact absurd hmem (notMem_empty _)

end LastReads

end D2PC
