import Mathlib.Data.List.AList

/-!
# Finite tables

The hash maps of a program are modelled by association lists without repeated
keys. `AList` supplies the representation and its laws; this module adds what a
program does with a map besides looking up and writing: count its entries, walk
over them, and rebuild it from a list of pairs.

* `Table.lookup_insert_eq`, `Table.lookup_erase_eq` : lookup after a write, as one `if`;
* `Table.mem_toList`, `Table.toList_nodup` : the entries as a list of pairs;
* `Table.lookup_ofList`, `Table.lookup_foldl_insert_of_mem` : pairs that were written one after
  the other are read back;
* `Table.lookup_foldl_bucket`, `Table.lookup_ofList_filter`, `Table.lookup_ofList_filter_value` :
  entries gathered under a key, and the entries with some of the keys or some of the values;
* `Table.mem_ofList`, `Table.lookup_ofList_filterMap` : what a table written from a list holds;
* `Table.ofList_toList` : writing out a table and reading it back is the identity;
* `Table.exists_of_size_eq` : a table whose keys lie in a list and whose size is the
  length of that list holds an entry for every element of the list;
* `Table.size_eq_length_iff` : the same as an equivalence, for a list without repetitions;
* `Table.above_lt` : fewer keys rank above a higher key.
-/

/-- A finite map from `κ` to `ν`. -/
abbrev Table (κ ν : Type) := AList (fun _ : κ => ν)

namespace Table

variable {κ ν ν' : Type} [DecidableEq κ]

/-- Tables are compared entry by entry, by a test that also evaluates in proofs. -/
instance [DecidableEq ν] : DecidableEq (Table κ ν) := fun t t' =>
  decidable_of_iff (t.entries = t'.entries) AList.ext_iff.symm

theorem lookup_insert_eq (t : Table κ ν) (k k' : κ) (v : ν) :
    (t.insert k v).lookup k' = if k' = k then some v else t.lookup k' := by
  split_ifs with h
  · subst h
    exact AList.lookup_insert t
  · exact AList.lookup_insert_ne h

theorem lookup_erase_eq (t : Table κ ν) (k k' : κ) :
    (t.erase k).lookup k' = if k' = k then none else t.lookup k' := by
  split_ifs with h
  · subst h
    exact AList.lookup_erase k' t
  · exact AList.lookup_erase_ne h

/-- An entry that is forgotten need not have been written. -/
theorem erase_insert (t : Table κ ν) (k : κ) (v : ν) : (t.insert k v).erase k = t.erase k := by
  refine AList.ext ?_
  show List.kerase k (List.kinsert k v t.entries) = List.kerase k t.entries
  exact List.kerase_cons_eq rfl

/-- The number of entries. -/
def size (t : Table κ ν) : ℕ := t.entries.length

/-- The entries as pairs, oldest write first. -/
def toList (t : Table κ ν) : List (κ × ν) :=
  (t.entries.map fun e => (e.1, e.2)).reverse

/-- Write the pairs of a list one after the other: a later pair replaces an
earlier one with the same key. -/
def ofList (l : List (κ × ν)) : Table κ ν :=
  l.foldl (fun t p => t.insert p.1 p.2) ∅

theorem mem_toList {t : Table κ ν} {k : κ} {v : ν} :
    (k, v) ∈ t.toList ↔ t.lookup k = some v := by
  rw [← Option.mem_def, AList.mem_lookup_iff]
  simp only [toList, List.mem_reverse, List.mem_map, Prod.mk.injEq]
  constructor
  · rintro ⟨⟨a, b⟩, he, rfl, rfl⟩
    exact he
  · intro he
    exact ⟨⟨k, v⟩, he, rfl, rfl⟩

omit [DecidableEq κ] in
/-- No key occurs twice among the pairs. -/
theorem toList_nodup (t : Table κ ν) : (t.toList.map Prod.fst).Nodup := by
  have hkeys : t.toList.map Prod.fst = t.keys.reverse := by
    simp [toList, AList.keys, List.keys, List.map_reverse, Function.comp_def]
  rw [hkeys]
  exact List.nodup_reverse.2 t.keys_nodup

theorem mem_keys_toList {t : Table κ ν} {k : κ} : k ∈ t.toList.map Prod.fst ↔ k ∈ t := by
  rw [← AList.lookup_isSome, Option.isSome_iff_exists]
  simp only [List.mem_map, Prod.exists, exists_and_right, exists_eq_right, mem_toList]

theorem ofList_concat (l : List (κ × ν)) (k : κ) (v : ν) :
    ofList (l ++ [(k, v)]) = (ofList l).insert k v := by
  simp [ofList]

theorem ofList_toList (t : Table κ ν) : ofList t.toList = t := by
  obtain ⟨es, hes⟩ := t
  induction es with
  | nil => rfl
  | cons e es ih =>
      obtain ⟨k, v⟩ := e
      have htail := (List.nodupKeys_cons.1 hes).2
      have hsplit : toList (⟨⟨k, v⟩ :: es, hes⟩ : Table κ ν) =
          toList (⟨es, htail⟩ : Table κ ν) ++ [(k, v)] := by
        simp [toList]
      rw [hsplit, ofList_concat, ih htail]
      exact (AList.mk_cons_eq_insert ⟨k, v⟩ es hes).symm

omit [DecidableEq κ] in
/-- Keys that do not repeat do not repeat after a filter that keeps the keys. -/
theorem nodup_filterMap {l : List (κ × ν)} (hl : (l.map Prod.fst).Nodup)
    {f : κ × ν → Option (κ × ν')} (hf : ∀ p q, f p = some q → q.1 = p.1) :
    ((l.filterMap f).map Prod.fst).Nodup := by
  refine hl.sublist ?_
  induction l with
  | nil => exact .slnil
  | cons p l ih =>
      rw [List.map_cons, List.nodup_cons] at hl
      cases hfp : f p with
      | none =>
          rw [List.filterMap_cons_none hfp, List.map_cons]
          exact (ih hl.2).cons p.1
      | some q =>
          rw [List.filterMap_cons_some hfp, List.map_cons, List.map_cons, hf p q hfp]
          exact (ih hl.2).cons_cons p.1

/-- Writing pairs with other keys leaves an entry as it is. -/
theorem lookup_foldl_insert_of_notMem {l : List (κ × ν)} {k : κ} (hk : k ∉ l.map Prod.fst)
    (t : Table κ ν) : (l.foldl (fun t p => t.insert p.1 p.2) t).lookup k = t.lookup k := by
  induction l generalizing t with
  | nil => rfl
  | cons p l ih =>
      rw [List.map_cons, List.mem_cons, not_or] at hk
      rw [List.foldl_cons, ih hk.2, lookup_insert_eq, if_neg hk.1]

/-- Pairs without repeated keys can all be read back. -/
theorem lookup_foldl_insert_of_mem {l : List (κ × ν)} (hl : (l.map Prod.fst).Nodup) {k : κ}
    {v : ν} (hmem : (k, v) ∈ l) (t : Table κ ν) :
    (l.foldl (fun t p => t.insert p.1 p.2) t).lookup k = some v := by
  induction l generalizing t with
  | nil => cases hmem
  | cons p l ih =>
      rw [List.map_cons, List.nodup_cons] at hl
      rw [List.foldl_cons]
      rcases List.mem_cons.1 hmem with heq | htail
      · rw [lookup_foldl_insert_of_notMem (by rw [← heq] at hl; exact hl.1), lookup_insert_eq,
          ← heq, if_pos rfl]
      · exact ih hl.2 htail _

/-- What is read back was written. -/
theorem mem_of_lookup_foldl {l : List (κ × ν)} {t : Table κ ν} {k : κ} {v : ν}
    (h : (l.foldl (fun t p => t.insert p.1 p.2) t).lookup k = some v) :
    (k, v) ∈ l ∨ t.lookup k = some v := by
  induction l generalizing t with
  | nil => exact .inr h
  | cons p l ih =>
      rw [List.foldl_cons] at h
      rcases ih h with htail | hhead
      · exact .inl (List.mem_cons_of_mem _ htail)
      · rw [lookup_insert_eq] at hhead
        split_ifs at hhead with hk
        · cases hhead
          exact .inl (hk ▸ List.mem_cons_self ..)
        · exact .inr hhead

theorem mem_of_lookup_ofList {l : List (κ × ν)} {k : κ} {v : ν}
    (h : (ofList l).lookup k = some v) : (k, v) ∈ l :=
  (mem_of_lookup_foldl h).resolve_right (by simp)

theorem lookup_ofList {l : List (κ × ν)} (hl : (l.map Prod.fst).Nodup) {k : κ} {v : ν}
    (hmem : (k, v) ∈ l) : (ofList l).lookup k = some v :=
  lookup_foldl_insert_of_mem hl hmem ∅

/-- Entries are gathered in buckets: every element of a list changes the value under its own
key. Where each key is there already, a bucket holds what its own elements made of it. -/
theorem lookup_foldl_bucket {α : Type} (key : α → κ) (f : ν → α → ν) (d : ν) {l : List α}
    {t : Table κ ν} (hl : ∀ a ∈ l, key a ∈ t) (k : κ) :
    (l.foldl (fun (t : Table κ ν) a => t.insert (key a) (f ((t.lookup (key a)).getD d) a))
      t).lookup k = (t.lookup k).map fun v => (l.filter fun a => key a = k).foldl f v := by
  induction l generalizing t with
  | nil => simp
  | cons a l ih =>
      have ha : key a ∈ t := hl a (List.mem_cons_self ..)
      obtain ⟨v, hv⟩ := Option.isSome_iff_exists.1 (AList.lookup_isSome.2 ha)
      rw [List.foldl_cons, ih fun b hb => (AList.mem_insert _).2 (.inr
        (hl b (List.mem_cons_of_mem _ hb))), lookup_insert_eq]
      by_cases hk : key a = k
      · subst hk
        simp [hv]
      · rw [if_neg (Ne.symm hk), List.filter_cons_of_neg (by simpa using hk)]

/-- The same value under every key of a list. -/
theorem lookup_foldl_const (v : ν) (l : List κ) (t : Table κ ν) (k : κ) :
    (l.foldl (fun (t : Table κ ν) a => t.insert a v) t).lookup k =
      if k ∈ l then some v else t.lookup k := by
  induction l generalizing t with
  | nil => simp
  | cons a l ih =>
      rw [List.foldl_cons, ih, lookup_insert_eq]
      by_cases hk : k = a
      · simp [hk]
      · simp [hk]

/-- The entries under some of the keys, written out and read back. -/
theorem lookup_ofList_filter (t : Table κ ν) (p : κ → Bool) (k : κ) :
    (ofList (t.toList.filter fun e => p e.1)).lookup k = if p k then t.lookup k else none := by
  have hnodup : ((t.toList.filter fun e => p e.1).map Prod.fst).Nodup :=
    t.toList_nodup.sublist (List.filter_sublist.map _)
  split_ifs with hp
  · cases hk : t.lookup k with
    | some v => exact lookup_ofList hnodup (List.mem_filter.2 ⟨mem_toList.2 hk, hp⟩)
    | none =>
        refine lookup_foldl_insert_of_notMem (fun hmem => ?_) ∅
        obtain ⟨e, he, rfl⟩ := List.mem_map.1 hmem
        rw [mem_toList.1 (List.mem_filter.1 he).1] at hk
        cases hk
  · refine lookup_foldl_insert_of_notMem (fun hmem => hp ?_) ∅
    obtain ⟨e, he, rfl⟩ := List.mem_map.1 hmem
    exact (List.mem_filter.1 he).2

/-- The entries with some of the values, written out and read back. -/
theorem lookup_ofList_filter_value (t : Table κ ν) (p : ν → Bool) (k : κ) :
    (ofList (t.toList.filter fun q => p q.2)).lookup k = (t.lookup k).filter p := by
  cases hl : t.lookup k with
  | none =>
    cases hf : (ofList (t.toList.filter fun q => p q.2)).lookup k with
    | none => rfl
    | some v =>
      have hmem := (List.mem_filter.1 (mem_of_lookup_ofList hf)).1
      rw [mem_toList.1 hmem] at hl
      cases hl
  | some v =>
    by_cases hp : p v = true
    · rw [Option.filter_some, if_pos hp]
      refine lookup_ofList (t.toList_nodup.sublist (List.filter_sublist.map _)) ?_
      exact List.mem_filter.2 ⟨mem_toList.2 hl, hp⟩
    · rw [Option.filter_some, if_neg hp]
      cases hf : (ofList (t.toList.filter fun q => p q.2)).lookup k with
      | none => rfl
      | some v' =>
        obtain ⟨hmem, hp'⟩ := List.mem_filter.1 (mem_of_lookup_ofList hf)
        rw [mem_toList.1 hmem] at hl
        cases hl
        exact absurd hp' hp

theorem mem_foldl_insert {l : List (κ × ν)} {t : Table κ ν} {k : κ}
    (hk : k ∈ t ∨ k ∈ l.map Prod.fst) : k ∈ l.foldl (fun t p => t.insert p.1 p.2) t := by
  induction l generalizing t with
  | nil => exact hk.resolve_right List.not_mem_nil
  | cons p l ih =>
      refine ih ?_
      rcases hk with hk | hk
      · exact .inl ((AList.mem_insert _).mpr (.inr hk))
      · rcases List.mem_cons.mp hk with rfl | hk
        · exact .inl ((AList.mem_insert _).mpr (.inl rfl))
        · exact .inr hk

theorem mem_ofList {l : List (κ × ν)} {k : κ} : k ∈ ofList l ↔ k ∈ l.map Prod.fst := by
  constructor
  · intro hk
    obtain ⟨v, hv⟩ := Option.isSome_iff_exists.mp (AList.lookup_isSome.mpr hk)
    exact List.mem_map.mpr ⟨(k, v), mem_of_lookup_ofList hv, rfl⟩
  · intro hk
    exact mem_foldl_insert (.inr hk)

/-- A table made of at most one entry for every key. -/
theorem lookup_ofList_filterMap {keys : List κ} (hkeys : keys.Nodup)
    {entry : κ → Option (κ × ν)} (hentry : ∀ k p, entry k = some p → p.1 = k) {k : κ} {v : ν} :
    (ofList (keys.filterMap entry)).lookup k = some v ↔ k ∈ keys ∧ entry k = some (k, v) := by
  constructor
  · intro hl
    obtain ⟨k', hmem, hk'⟩ := List.mem_filterMap.mp (mem_of_lookup_ofList hl)
    have heq : k = k' := hentry k' _ hk'
    rw [heq] at hk' ⊢
    exact ⟨hmem, hk'⟩
  · rintro ⟨hmem, hk⟩
    refine lookup_ofList ?_ (List.mem_filterMap.mpr ⟨k, hmem, hk⟩)
    rw [List.map_filterMap]
    refine hkeys.filterMap fun a a' b hb hb' => ?_
    obtain ⟨p, hp, rfl⟩ := Option.map_eq_some_iff.mp hb
    obtain ⟨p', hp', heq⟩ := Option.map_eq_some_iff.mp hb'
    rw [← hentry a p hp, ← heq, hentry a' p' hp']

omit [DecidableEq κ] in
theorem size_eq_keys_length (t : Table κ ν) : t.size = t.keys.length := by
  simp [size, AList.keys, List.keys]

omit [DecidableEq κ] in
theorem size_ne_zero {t : Table κ ν} {k : κ} (hk : k ∈ t) : t.size ≠ 0 := by
  intro hzero
  rw [size_eq_keys_length] at hzero
  have hmem := AList.mem_keys.1 hk
  rw [List.length_eq_zero_iff.1 hzero] at hmem
  exact absurd hmem List.not_mem_nil

/-- A write does not lose entries. -/
theorem size_le_insert (t : Table κ ν) (k : κ) (v : ν) : t.size ≤ size (t.insert k v) := by
  rw [size_eq_keys_length, size_eq_keys_length, AList.keys_insert, List.length_cons]
  have herase : t.keys.length - 1 ≤ (t.keys.erase k).length := List.le_length_erase
  omega

/-- A write adds at most one entry. -/
theorem size_insert_le (t : Table κ ν) (k : κ) (v : ν) : size (t.insert k v) ≤ t.size + 1 := by
  rw [size_eq_keys_length, size_eq_keys_length, AList.keys_insert, List.length_cons]
  exact Nat.succ_le_succ (List.erase_sublist.length_le)

/-- **Pigeonhole for tables.** Keys drawn from `l` and as many entries as `l` is
long: then no element of `l` is missing. -/
theorem exists_of_size_eq {t : Table κ ν} {l : List κ} (hsub : ∀ k ∈ t, k ∈ l)
    (hsize : l.length ≤ t.size) {k : κ} (hk : k ∈ l) : ∃ v, t.lookup k = some v := by
  have hsubset : t.keys ⊆ l := fun a ha => hsub a ha
  have hperm : t.keys.Perm l := by
    refine (List.subperm_of_subset t.keys_nodup hsubset).perm_of_length_le ?_
    rwa [← size_eq_keys_length]
  have hmem : k ∈ t := AList.mem_keys.2 (hperm.mem_iff.2 hk)
  exact Option.isSome_iff_exists.1 (AList.lookup_isSome.2 hmem)

/-- Counting settles which keys are there: the keys are drawn from `l`, and `l` does not
repeat. -/
theorem size_eq_length_iff {t : Table κ ν} {l : List κ} (hsub : ∀ k ∈ t, k ∈ l)
    (hl : l.Nodup) : t.size = l.length ↔ ∀ k ∈ l, k ∈ t := by
  constructor
  · intro hsize k hk
    obtain ⟨v, hv⟩ := exists_of_size_eq hsub (Nat.le_of_eq hsize.symm) hk
    exact AList.lookup_isSome.1 (by rw [hv]; rfl)
  · intro hall
    have hperm : t.keys.Perm l := by
      rw [List.perm_ext_iff_of_nodup t.keys_nodup hl]
      exact fun k => ⟨hsub k, hall k⟩
    rw [size_eq_keys_length, hperm.length_eq]

/-! ### Ranks -/

/-- How many keys rank above `k`. -/
def above (t : Table κ ν) (rank : κ → ℕ) (k : κ) : ℕ :=
  (t.keys.filter fun k' => rank k < rank k').length

omit [DecidableEq κ] in
theorem above_le_size (t : Table κ ν) (rank : κ → ℕ) (k : κ) : t.above rank k ≤ t.size := by
  rw [size_eq_keys_length]
  exact List.length_filter_le _ _

omit [DecidableEq κ] in
/-- Fewer keys rank above a higher one. -/
theorem above_lt {t : Table κ ν} {rank : κ → ℕ} {k k' : κ} (hk' : k' ∈ t)
    (hlt : rank k < rank k') : t.above rank k' < t.above rank k := by
  have hsub : (t.keys.filter fun a => rank k' < rank a) =
      (t.keys.filter fun a => rank k < rank a).filter fun a => rank k' < rank a := by
    rw [List.filter_filter]
    refine List.filter_congr fun a _ => ?_
    rw [Bool.eq_iff_iff, Bool.and_eq_true, decide_eq_true_iff, decide_eq_true_iff]
    exact ⟨fun h => ⟨h, Nat.lt_trans hlt h⟩, fun h => h.1⟩
  rw [above, above, hsub, List.length_filter_lt_length_iff_exists]
  refine ⟨k', List.mem_filter.2 ⟨AList.mem_keys.1 hk', decide_eq_true hlt⟩, ?_⟩
  rw [decide_eq_true_iff]
  exact Nat.lt_irrefl _

end Table
