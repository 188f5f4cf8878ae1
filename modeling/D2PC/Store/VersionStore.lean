import D2PC.Types

/-!
# The multi-version key-value store

`VersionedKVStore` of `store/common/backend/versionstore.cc`: for every key an ordered set
of versions, and the list of transactions that pre-committed a write to it. A `std::set`
ignores the insertion of an element that compares equal to one it holds, so a write at the
timestamp of an existing version is lost.

* `Versions` : the versions of one key, sorted by construction;
* `Versions.latest_insert` : the latest version after an insertion;
* `VersionedKVStore.get_put`, `VersionedKVStore.get_install` : the latest version of every
  key after one write, and after the writes of a whole transaction;
* `VersionedKVStore.hasVersion_install` : all versions after the writes of a transaction;
* `VersionedKVStore.pending_announce`, `VersionedKVStore.pending_install` : the lists of
  pre-committed writers after a pre-commit and after a commit.
-/

namespace D2PC

/-- Insertion into an ordered list of versions: nothing happens when the timestamp is
already there. -/
def insertVersion (t : Timestamp) (v : Value) :
    List (Timestamp × Value) → List (Timestamp × Value)
  | [] => [(t, v)]
  | e :: es =>
      if t < e.1 then (t, v) :: e :: es
      else if e.1 < t then e :: insertVersion t v es
      else e :: es

theorem mem_insertVersion {t : Timestamp} {v : Value} {e : Timestamp × Value}
    {es : List (Timestamp × Value)} (h : e ∈ insertVersion t v es) : e = (t, v) ∨ e ∈ es := by
  induction es with
  | nil => exact .inl (by simpa [insertVersion] using h)
  | cons e' es ih =>
      simp only [insertVersion] at h
      split_ifs at h with h₁ h₂
      · simpa using h
      · rcases List.mem_cons.1 h with rfl | h
        · exact .inr (List.mem_cons_self ..)
        · exact (ih h).imp_right (List.mem_cons_of_mem _)
      · exact .inr h

/-- What an insertion adds to an ordered list: the version, if its timestamp is not taken. -/
theorem mem_insertVersion_iff {t : Timestamp} {v : Value} {e : Timestamp × Value}
    {es : List (Timestamp × Value)} (h : es.Pairwise (fun a b => a.1 < b.1)) :
    e ∈ insertVersion t v es ↔ e ∈ es ∨ (e = (t, v) ∧ ∀ v', (t, v') ∉ es) := by
  induction es with
  | nil => simp [insertVersion]
  | cons e' es ih =>
      obtain ⟨he, hes⟩ := List.pairwise_cons.1 h
      simp only [insertVersion]
      split_ifs with h₁ h₂
      · have hfree : ∀ v', (t, v') ∉ e' :: es := by
          intro v' hmem
          rcases List.mem_cons.1 hmem with heq | hmem
          · rw [← heq] at h₁
            exact lt_irrefl _ h₁
          · exact lt_irrefl _ (lt_trans h₁ (he _ hmem))
        rw [List.mem_cons, or_comm]
        exact or_congr_right (and_iff_left hfree).symm
      · have hne : ∀ v', (t, v') ≠ e' := by
          intro v' heq
          rw [← heq] at h₂
          exact lt_irrefl _ h₂
        simp only [List.mem_cons, ih hes, hne, false_or, or_assoc]
      · have heq : t = e'.1 := le_antisymm (not_lt.1 h₂) (not_lt.1 h₁)
        refine (or_iff_left ?_).symm
        rintro ⟨_, hfree⟩
        apply hfree e'.2
        rw [heq]
        exact List.mem_cons_self ..

theorem insertVersion_sorted {t : Timestamp} {v : Value} {es : List (Timestamp × Value)}
    (h : es.Pairwise (fun a b => a.1 < b.1)) :
    (insertVersion t v es).Pairwise (fun a b => a.1 < b.1) := by
  induction es with
  | nil => simp [insertVersion]
  | cons e es ih =>
      obtain ⟨he, hes⟩ := List.pairwise_cons.1 h
      simp only [insertVersion]
      split_ifs with h₁ h₂
      · refine List.pairwise_cons.2 ⟨fun b hb => ?_, h⟩
        rcases List.mem_cons.1 hb with rfl | hb
        · exact h₁
        · exact lt_trans h₁ (he b hb)
      · refine List.pairwise_cons.2 ⟨fun b hb => ?_, ih hes⟩
        rcases mem_insertVersion hb with rfl | hb
        · exact h₂
        · exact he b hb
      · exact h

/-- The version that remains the latest when `e` is inserted: `e` itself, unless there is
one that is not older. -/
def newest (e : Timestamp × Value) : Option (Timestamp × Value) → Timestamp × Value
  | none => e
  | some l => if l.1 < e.1 then e else l

theorem newest_cases (e : Timestamp × Value) (o : Option (Timestamp × Value)) :
    newest e o = e ∨ o = some (newest e o) := by
  cases o with
  | none => exact .inl rfl
  | some l =>
      simp only [newest]
      split_ifs
      · exact .inl rfl
      · exact .inr rfl

theorem le_newest (e : Timestamp × Value) (o : Option (Timestamp × Value)) :
    e.1 ≤ (newest e o).1 ∧ ∀ l, o = some l → l.1 ≤ (newest e o).1 := by
  cases o with
  | none => exact ⟨le_refl _, fun l hl => by cases hl⟩
  | some l =>
      simp only [newest]
      split_ifs with h
      · exact ⟨le_refl _, fun l' hl' => by cases hl'; exact le_of_lt h⟩
      · exact ⟨not_lt.1 h, fun l' hl' => by cases hl'; exact le_refl _⟩

theorem getLast?_insertVersion {t : Timestamp} {v : Value} {es : List (Timestamp × Value)}
    (h : es.Pairwise (fun a b => a.1 < b.1)) :
    (insertVersion t v es).getLast? = some (newest (t, v) es.getLast?) := by
  induction es with
  | nil => rfl
  | cons e es ih =>
      obtain ⟨he, hes⟩ := List.pairwise_cons.1 h
      have hlast : ∀ l, (e :: es).getLast? = some l → e.1 ≤ l.1 := by
        intro l hl
        rcases List.mem_cons.1 (List.mem_of_getLast? hl) with rfl | hmem
        · exact le_refl _
        · exact le_of_lt (he l hmem)
      obtain ⟨l, hl⟩ : ∃ l, (e :: es).getLast? = some l :=
        ⟨_, List.getLast?_eq_some_getLast (List.cons_ne_nil e es)⟩
      simp only [insertVersion]
      split_ifs with h₁ h₂
      · have hnot : ¬ l.1 < t := not_lt.2 (le_trans (le_of_lt h₁) (hlast l hl))
        rw [List.getLast?_cons_cons, hl]
        simp [newest, hnot]
      · -- the new version goes behind `e`, where the induction hypothesis speaks
        cases es with
        | nil => simp [insertVersion, newest, h₂]
        | cons e' es =>
            obtain ⟨a, as, has⟩ : ∃ a as, insertVersion t v (e' :: es) = a :: as := by
              simp only [insertVersion]
              split_ifs <;> exact ⟨_, _, rfl⟩
            rw [List.getLast?_cons_cons, ← ih hes, has, List.getLast?_cons_cons]
      · have hnot : ¬ l.1 < t := not_lt.2 (le_trans (not_lt.1 h₂) (hlast l hl))
        rw [hl]
        simp [newest, hnot]

/-- The versions of one key, as the ordered set the code keeps. -/
structure Versions where
  entries : List (Timestamp × Value)
  sorted : entries.Pairwise (fun a b => a.1 < b.1)

namespace Versions

/-- No version. -/
def empty : Versions := ⟨[], List.Pairwise.nil⟩

/-- `set::insert`. -/
def insert (vs : Versions) (t : Timestamp) (v : Value) : Versions :=
  ⟨insertVersion t v vs.entries, insertVersion_sorted vs.sorted⟩

/-- The version with the greatest timestamp, `*rbegin()`. -/
def latest (vs : Versions) : Option (Timestamp × Value) := vs.entries.getLast?

@[simp] theorem latest_empty : empty.latest = none := rfl

theorem latest_insert (vs : Versions) (t : Timestamp) (v : Value) :
    (vs.insert t v).latest = some (newest (t, v) vs.latest) :=
  getLast?_insertVersion vs.sorted

end Versions

/-- `VersionedKVStore`. -/
structure VersionedKVStore where
  store : Table Key Versions := ∅
  precommits : Table Key (List TxnId) := ∅

namespace VersionedKVStore

/-- The versions of a key; none for a key that was never written. -/
def versions (s : VersionedKVStore) (key : Key) : Versions :=
  (s.store.lookup key).getD Versions.empty

/-- The transactions whose pre-committed write to the key is pending. -/
def pending (s : VersionedKVStore) (key : Key) : List TxnId :=
  (s.precommits.lookup key).getD []

/-- The most recent value and timestamp of a key. -/
def get (s : VersionedKVStore) (key : Key) : Option (Timestamp × Value) :=
  (s.versions key).latest

/-- The read of the parallel mode. When a pre-committed write to the key is pending, the
last such transaction is returned and the out-parameter `value` is left alone. -/
def getDependency (s : VersionedKVStore) (key : Key) (value : Timestamp × Value) :
    Option ((Timestamp × Value) × TxnId) :=
  match s.get key with
  | none => none
  | some v =>
      match (s.pending key).getLast? with
      | none => some (v, 0)
      | some tid => some (value, tid)

/-- Write a version. -/
def put (s : VersionedKVStore) (key : Key) (value : Value) (t : Timestamp) :
    VersionedKVStore :=
  { s with store := s.store.insert key ((s.versions key).insert t value) }

/-- Add the transaction to the key's list of pre-committed writers. -/
def preCommit (s : VersionedKVStore) (key : Key) (tid : TxnId) : VersionedKVStore :=
  { s with precommits := s.precommits.insert key (s.pending key ++ [tid]) }

/-- Remove the transaction from the key's list of pre-committed writers. -/
def commit (s : VersionedKVStore) (key : Key) (tid : TxnId) : VersionedKVStore :=
  match s.get key with
  | none => s
  | some _ =>
      match s.precommits.lookup key with
      | none => s
      | some l => { s with precommits := s.precommits.insert key (l.filter (· ≠ tid)) }

theorem versions_put (s : VersionedKVStore) (key key' : Key) (value : Value) (t : Timestamp) :
    (s.put key value t).versions key' =
      if key' = key then (s.versions key).insert t value else s.versions key' := by
  simp only [versions, put, Table.lookup_insert_eq]
  split_ifs <;> rfl

/-- **A write.** The latest version of the key becomes the new one unless there is one that
is not older; other keys keep theirs. -/
theorem get_put (s : VersionedKVStore) (key key' : Key) (value : Value) (t : Timestamp) :
    (s.put key value t).get key' =
      if key' = key then some (newest (t, value) (s.get key)) else s.get key' := by
  simp only [get, versions_put]
  split_ifs with h
  · exact Versions.latest_insert _ _ _
  · rfl

@[simp] theorem get_preCommit (s : VersionedKVStore) (key key' : Key) (tid : TxnId) :
    (s.preCommit key tid).get key' = s.get key' := rfl

@[simp] theorem get_commit (s : VersionedKVStore) (key key' : Key) (tid : TxnId) :
    (s.commit key tid).get key' = s.get key' := by
  unfold commit
  split
  · rfl
  · split <;> rfl

/-! ### Whole write sets -/

/-- Commit of transaction `id`: write every pair at the commit time and take the
transaction off the key's list of pre-committed writers. -/
def install (s : VersionedKVStore) (writes : Table Key Value) (id : TxnId) (timestamp : ℕ) :
    VersionedKVStore :=
  writes.toList.foldl (fun s w => (s.put w.1 w.2 ⟨timestamp, 0⟩).commit w.1 id) s

/-- Pre-commit of transaction `id`: enter it in the list of every key it writes. -/
def announce (s : VersionedKVStore) (writes : Table Key Value) (id : TxnId) :
    VersionedKVStore :=
  writes.toList.foldl (fun s w => s.preCommit w.1 id) s

@[simp] theorem get_announce (s : VersionedKVStore) (writes : Table Key Value) (id : TxnId)
    (key : Key) : (s.announce writes id).get key = s.get key := by
  unfold announce
  induction writes.toList generalizing s with
  | nil => rfl
  | cons w ws ih => rw [List.foldl_cons, ih, get_preCommit]

theorem versions_commit (s : VersionedKVStore) (key key' : Key) (tid : TxnId) :
    (s.commit key tid).versions key' = s.versions key' := by
  unfold commit
  split
  · rfl
  · split <;> rfl

/-- **Commit.** Every key of the write set gets a version at the commit time; other keys keep
theirs. -/
theorem versions_install (s : VersionedKVStore) (writes : Table Key Value) (id : TxnId)
    (timestamp : ℕ) (key : Key) :
    (s.install writes id timestamp).versions key =
      match writes.lookup key with
      | some v => (s.versions key).insert ⟨timestamp, 0⟩ v
      | none => s.versions key := by
  have hfold : ∀ (ws : List (Key × Value)) (s : VersionedKVStore), (ws.map Prod.fst).Nodup →
      (∀ v, (key, v) ∈ ws → ((ws.foldl (fun s w => (s.put w.1 w.2 ⟨timestamp, 0⟩).commit w.1 id)
        s).versions key = (s.versions key).insert ⟨timestamp, 0⟩ v)) ∧
      (key ∉ ws.map Prod.fst → (ws.foldl (fun s w => (s.put w.1 w.2 ⟨timestamp, 0⟩).commit w.1 id)
        s).versions key = s.versions key) := by
    intro ws
    induction ws with
    | nil => simp
    | cons w ws ih =>
        intro s hnodup
        rw [List.map_cons] at hnodup
        obtain ⟨hw, hws⟩ := List.nodup_cons.1 hnodup
        obtain ⟨hin, hout⟩ := ih ((s.put w.1 w.2 ⟨timestamp, 0⟩).commit w.1 id) hws
        simp only [List.foldl_cons, List.mem_cons, List.map_cons, not_or]
        constructor
        · rintro v (rfl | hv)
          · rw [hout hw, versions_commit, versions_put, if_pos rfl]
          · have hne : key ≠ w.1 := by
              rintro rfl
              exact hw (List.mem_map.2 ⟨_, hv, rfl⟩)
            rw [hin v hv, versions_commit, versions_put, if_neg hne]
        · rintro ⟨hne, hnot⟩
          rw [hout hnot, versions_commit, versions_put, if_neg hne]
  obtain ⟨hin, hout⟩ := hfold writes.toList s writes.toList_nodup
  cases hlook : writes.lookup key with
  | some v => exact hin v (Table.mem_toList.2 hlook)
  | none =>
      refine hout fun hmem => ?_
      rw [Table.mem_keys_toList] at hmem
      exact AList.lookup_eq_none.1 hlook hmem

/-- Every key of the write set ends with the newer of its old version and the committed one;
other keys keep theirs. -/
theorem get_install (s : VersionedKVStore) (writes : Table Key Value) (id : TxnId)
    (timestamp : ℕ) (key : Key) :
    (s.install writes id timestamp).get key =
      match writes.lookup key with
      | some v => some (newest (⟨timestamp, 0⟩, v) (s.get key))
      | none => s.get key := by
  rw [get, versions_install]
  cases writes.lookup key with
  | some v => exact Versions.latest_insert _ _ _
  | none => rfl

/-- The store holds the value `v` of the key as of `t`. -/
def HasVersion (s : VersionedKVStore) (key : Key) (t : Timestamp) (v : Value) : Prop :=
  (t, v) ∈ (s.versions key).entries

instance (s : VersionedKVStore) (key : Key) (t : Timestamp) (v : Value) :
    Decidable (s.HasVersion key t v) :=
  inferInstanceAs (Decidable (_ ∈ _))

/-- A commit adds the versions whose timestamps are not taken. -/
theorem hasVersion_install {s : VersionedKVStore} {writes : Table Key Value} {id : TxnId}
    {timestamp : ℕ} {key : Key} {t : Timestamp} {v : Value} :
    (s.install writes id timestamp).HasVersion key t v ↔ s.HasVersion key t v ∨
      (t = ⟨timestamp, 0⟩ ∧ writes.lookup key = some v ∧
        ∀ v', ¬ s.HasVersion key ⟨timestamp, 0⟩ v') := by
  unfold HasVersion
  rw [versions_install]
  cases hlook : writes.lookup key with
  | some value =>
      show (t, v) ∈ insertVersion _ _ _ ↔ _
      rw [mem_insertVersion_iff (s.versions key).sorted, Prod.mk.injEq, Option.some.injEq, and_assoc,
        eq_comm (a := value)]
  | none => simp

/-! ### The lists of pre-committed writers -/

theorem pending_preCommit (s : VersionedKVStore) (key key' : Key) (tid : TxnId) :
    (s.preCommit key tid).pending key' =
      if key' = key then s.pending key' ++ [tid] else s.pending key' := by
  simp only [preCommit, pending, Table.lookup_insert_eq]
  split_ifs with hkey
  · rw [hkey]
    rfl
  · rfl

/-- A committed writer leaves the list of a key that has a version. -/
theorem pending_commit {s : VersionedKVStore} {key : Key} (hkey : (s.get key).isSome)
    (key' : Key) (tid : TxnId) :
    (s.commit key tid).pending key' =
      if key' = key then (s.pending key').filter (· ≠ tid) else s.pending key' := by
  obtain ⟨v, hv⟩ := Option.isSome_iff_exists.1 hkey
  simp only [commit, hv]
  cases hlook : s.precommits.lookup key with
  | none =>
      split_ifs with heq
      · subst heq
        simp [pending, hlook]
      · rfl
  | some l =>
      simp only [pending, Table.lookup_insert_eq]
      split_ifs with heq
      · subst heq
        rw [hlook]
        rfl
      · rfl

/-- **Pre-commit**, for the lists: the transaction is entered behind the others. -/
theorem pending_announce (s : VersionedKVStore) (writes : Table Key Value) (id : TxnId)
    (key : Key) :
    (s.announce writes id).pending key =
      if key ∈ writes then s.pending key ++ [id] else s.pending key := by
  have hfold : ∀ (ws : List (Key × Value)) (s : VersionedKVStore), (ws.map Prod.fst).Nodup →
      (ws.foldl (fun s w => s.preCommit w.1 id) s).pending key =
        if key ∈ ws.map Prod.fst then s.pending key ++ [id] else s.pending key := by
    intro ws
    induction ws with
    | nil =>
        intro s _
        rfl
    | cons w ws ih =>
        intro s hnodup
        rw [List.map_cons, List.nodup_cons] at hnodup
        rw [List.foldl_cons, ih _ hnodup.2, pending_preCommit, List.map_cons]
        by_cases hkey : key = w.1
        · subst hkey
          simp [hnodup.1]
        · simp only [hkey, if_false, List.mem_cons, false_or]
  rw [announce, hfold _ _ writes.toList_nodup]
  simp only [Table.mem_keys_toList]

/-- **Commit**, for the lists: the transaction leaves those of the keys it writes. -/
theorem pending_install (s : VersionedKVStore) (writes : Table Key Value) (id : TxnId)
    (timestamp : ℕ) (key : Key) :
    (s.install writes id timestamp).pending key =
      if key ∈ writes then (s.pending key).filter (· ≠ id) else s.pending key := by
  have hstep : ∀ (s : VersionedKVStore) (w : Key × Value),
      ((s.put w.1 w.2 ⟨timestamp, 0⟩).commit w.1 id).pending key =
        if key = w.1 then (s.pending key).filter (· ≠ id) else s.pending key := by
    intro s w
    have hsome : ((s.put w.1 w.2 ⟨timestamp, 0⟩).get w.1).isSome := by
      rw [get_put, if_pos rfl]
      rfl
    rw [pending_commit hsome]
    rfl
  have hfold : ∀ (ws : List (Key × Value)) (s : VersionedKVStore), (ws.map Prod.fst).Nodup →
      (ws.foldl (fun s w => (s.put w.1 w.2 ⟨timestamp, 0⟩).commit w.1 id) s).pending key =
        if key ∈ ws.map Prod.fst then (s.pending key).filter (· ≠ id) else s.pending key := by
    intro ws
    induction ws with
    | nil =>
        intro s _
        rfl
    | cons w ws ih =>
        intro s hnodup
        rw [List.map_cons, List.nodup_cons] at hnodup
        rw [List.foldl_cons, ih _ hnodup.2, hstep, List.map_cons]
        by_cases hkey : key = w.1
        · subst hkey
          simp [hnodup.1]
        · simp only [hkey, if_false, List.mem_cons, false_or]
  rw [install, hfold _ _ writes.toList_nodup]
  simp only [Table.mem_keys_toList]

section
variable {s : VersionedKVStore} {writes : Table Key Value} {id : TxnId} {timestamp : ℕ}
variable {key : Key} {v : Timestamp × Value}

/-- A commit never takes a key back to an older version. -/
theorem get_install_mono (writes : Table Key Value) (id : TxnId) (timestamp : ℕ)
    (h : s.get key = some v) :
    ∃ v', (s.install writes id timestamp).get key = some v' ∧ v.1 ≤ v'.1 := by
  rw [get_install]
  cases writes.lookup key with
  | none => exact ⟨v, h, le_refl _⟩
  | some value => exact ⟨_, rfl, (le_newest _ _).2 v h⟩

/-- A written key is at least as new as the commit. -/
theorem get_install_written (h : key ∈ writes) :
    ∃ v', (s.install writes id timestamp).get key = some v' ∧ ⟨timestamp, 0⟩ ≤ v'.1 := by
  obtain ⟨value, hvalue⟩ := Option.isSome_iff_exists.1 (AList.lookup_isSome.2 h)
  rw [get_install, hvalue]
  exact ⟨_, rfl, (le_newest (⟨timestamp, 0⟩, value) _).1⟩

/-- A latest version after a commit was there before, or carries the commit time. -/
theorem get_install_cases (h : (s.install writes id timestamp).get key = some v) :
    s.get key = some v ∨ v.1 = ⟨timestamp, 0⟩ := by
  rw [get_install] at h
  cases hlook : writes.lookup key with
  | none => rw [hlook] at h; exact .inl h
  | some value =>
      rw [hlook] at h
      cases h
      rcases newest_cases (⟨timestamp, 0⟩, value) (s.get key) with heq | heq
      · exact .inr (by rw [heq])
      · exact .inl heq

end

end VersionedKVStore

end D2PC
