import Mathlib.Data.List.Sort
import D2PC.Ir.LockService

/-!
# The locks after a view change

`LockServer::Sync` computes the locks from a record: for every key it puts the clients with a
successful lock and those with a successful unlock into two sets, and takes the difference with
`std::set_difference`, which goes through both in the order in which they iterate.

* `setDifference_eq_singleton_iff` : when the algorithm leaves one element;
* `recovers_iff` : the records whose locks it finds;
* `lookup_sync_ascending`, `recovers_ascending_iff` : with sets in ascending order it computes the
  difference, and forgets only what was locked again;
* `relocked` : a record whose lock is forgotten.
-/

namespace D2PC.Ir.LockService.Server

/-! ### The difference of two ranges -/

section Steps

variable {a b : ClientId} {as bs : List ClientId}

theorem setDifference_nil : setDifference as [] = as := by
  cases as <;> rfl

theorem setDifference_skip (hb : b < a) :
    setDifference (a :: as) (b :: bs) = setDifference (a :: as) bs := by
  have hstep : (b :: bs).dropWhile (fun x => decide (x < a)) =
      bs.dropWhile fun x => decide (x < a) := List.dropWhile_cons_of_pos (decide_eq_true hb)
  rw [setDifference, setDifference, hstep]

theorem setDifference_write (ha : a < b) :
    setDifference (a :: as) (b :: bs) = a :: setDifference as (b :: bs) := by
  have hstep : (b :: bs).dropWhile (fun x => decide (x < a)) = b :: bs :=
    List.dropWhile_cons_of_neg fun h => lt_asymm ha (of_decide_eq_true h)
  rw [setDifference, hstep]
  show (if a < b then _ else _) = _
  rw [if_pos ha]

theorem setDifference_drop : setDifference (a :: as) (a :: bs) = setDifference as bs := by
  have hstep : (a :: bs).dropWhile (fun x => decide (x < a)) = a :: bs :=
    List.dropWhile_cons_of_neg fun h => lt_irrefl a (of_decide_eq_true h)
  rw [setDifference, hstep]
  show (if a < a then _ else _) = _
  rw [if_neg (lt_irrefl a)]

end Steps

/-- What is written is a part of the first range. -/
theorem setDifference_sublist (as bs : List ClientId) : (setDifference as bs).Sublist as := by
  induction as generalizing bs with
  | nil => exact .slnil
  | cons a as iha =>
    induction bs with
    | nil =>
      rw [setDifference_nil]
    | cons b bs ihb =>
      rcases lt_trichotomy a b with hlt | rfl | hlt
      · rw [setDifference_write hlt]
        exact (iha _).cons_cons a
      · rw [setDifference_drop]
        exact (iha _).cons a
      · rw [setDifference_skip hlt]
        exact ihb

theorem setDifference_self (as : List ClientId) : setDifference as as = [] := by
  induction as with
  | nil => rfl
  | cons a as ih => rw [setDifference_drop, ih]

/-- An element that is only in the first range is written, whatever the orders. -/
theorem mem_setDifference {as bs : List ClientId} {x : ClientId} (hx : x ∈ as) (hnot : x ∉ bs) :
    x ∈ setDifference as bs := by
  induction as generalizing bs with
  | nil => cases hx
  | cons a as iha =>
    induction bs with
    | nil =>
      rw [setDifference_nil]
      exact hx
    | cons b bs ihb =>
      have hne : x ≠ b := fun heq => hnot (heq ▸ List.mem_cons_self)
      have hrest : x ∉ bs := fun h => hnot (List.mem_cons_of_mem _ h)
      rcases lt_trichotomy a b with hlt | rfl | hlt
      · rw [setDifference_write hlt]
        rcases List.mem_cons.mp hx with rfl | hmem
        · exact List.mem_cons_self
        · exact List.mem_cons_of_mem _ (iha hmem hnot)
      · rw [setDifference_drop]
        exact iha ((List.mem_cons.mp hx).resolve_left hne) hrest
      · rw [setDifference_skip hlt]
        exact ihb hrest

/-- Two orders of the same elements cancel out only if they are the same. -/
theorem setDifference_eq_nil_iff {as bs : List ClientId} (has : as.Nodup) (hperm : bs.Perm as) :
    setDifference as bs = [] ↔ as = bs := by
  constructor
  · intro hnil
    induction as generalizing bs with
    | nil => exact (List.perm_nil.mp hperm).symm
    | cons a as ih =>
      cases bs with
      | nil => exact absurd (hperm.mem_iff.mpr List.mem_cons_self) List.not_mem_nil
      | cons b bs =>
        have hbs : (b :: bs).Nodup := hperm.nodup_iff.mpr has
        rcases lt_trichotomy a b with hlt | rfl | hlt
        · rw [setDifference_write hlt] at hnil
          cases hnil
        · rw [setDifference_drop] at hnil
          rw [ih (List.nodup_cons.mp has).2 (List.Perm.cons_inv hperm) hnil]
        · -- the first element of the second range is skipped, and written later
          rw [setDifference_skip hlt] at hnil
          have hmem := mem_setDifference (hperm.mem_iff.mp List.mem_cons_self)
            (List.nodup_cons.mp hbs).1
          rw [hnil] at hmem
          cases hmem
  · rintro rfl
    exact setDifference_self as

/-- What comes right after `c` in the list is larger. -/
def LargerNext (c : ClientId) : List ClientId → Prop
  | [] => True
  | a :: as => (a = c → ∀ d ∈ as.head?, c < d) ∧ LargerNext c as

theorem largerNext_of_notMem {as : List ClientId} {c : ClientId} (h : c ∉ as) :
    LargerNext c as := by
  induction as with
  | nil => trivial
  | cons d as ih =>
    exact ⟨fun heq => absurd (heq ▸ List.mem_cons_self) h,
      ih fun hmem => h (List.mem_cons_of_mem d hmem)⟩

/-- **One element more.** The difference is that element exactly if both ranges have the others in
the same order, and what follows it is larger. -/
theorem setDifference_eq_singleton_iff {as bs : List ClientId} {c : ClientId} (has : as.Nodup)
    (hc : c ∈ as) (hperm : bs.Perm (as.erase c)) :
    setDifference as bs = [c] ↔ as.erase c = bs ∧ LargerNext c as := by
  induction as generalizing bs with
  | nil => cases hc
  | cons a as ih =>
    obtain ⟨ha, has'⟩ := List.nodup_cons.mp has
    by_cases heq : a = c
    · subst heq
      rw [List.erase_cons_head] at hperm ⊢
      have hnext : LargerNext a as := largerNext_of_notMem ha
      cases bs with
      | nil =>
        rw [List.nil_perm.mp hperm, setDifference_nil]
        refine iff_of_true rfl ⟨rfl, ?_⟩
        exact ⟨fun _ d hd => absurd hd (Option.not_mem_none d), trivial⟩
      | cons b bs =>
        have hb : b ≠ a := fun h => ha (hperm.mem_iff.mp (h ▸ List.mem_cons_self))
        rcases lt_or_gt_of_ne hb with hlt | hlt
        · -- `b` is skipped
          rw [setDifference_skip hlt]
          refine iff_of_false (fun h => ?_) ?_
          · have hbs : (b :: bs).Nodup := hperm.nodup_iff.mpr has'
            have hmem := mem_setDifference (List.mem_cons_of_mem a
              (hperm.mem_iff.mp List.mem_cons_self)) (List.nodup_cons.mp hbs).1
            rw [h] at hmem
            exact hb (List.mem_singleton.mp hmem)
          · rintro ⟨rfl, hlarger, -⟩
            exact lt_asymm hlt (hlarger rfl b rfl)
        · rw [setDifference_write hlt, List.cons.injEq, and_iff_right rfl,
            setDifference_eq_nil_iff has' hperm]
          constructor
          · rintro rfl
            exact ⟨rfl, fun _ d hd => by rw [← Option.some.inj hd]; exact hlt, hnext⟩
          · exact fun h => h.1
    · have hc' : c ∈ as := (List.mem_cons.mp hc).resolve_left (Ne.symm heq)
      have herase : (a :: as).erase c = a :: as.erase c :=
        List.erase_cons_tail (by simpa using heq)
      rw [herase] at hperm ⊢
      have hother : ∀ bs', a ∉ bs' → ¬setDifference (a :: as) bs' = [c] := by
        intro bs' hnot h
        have hmem : a ∈ setDifference (a :: as) bs' := mem_setDifference List.mem_cons_self hnot
        rw [h] at hmem
        exact heq (List.mem_singleton.mp hmem)
      cases bs with
      | nil => exact absurd (hperm.mem_iff.mpr List.mem_cons_self) List.not_mem_nil
      | cons b bs =>
        have hbs : (b :: bs).Nodup := hperm.nodup_iff.mpr (herase ▸ has.erase c)
        rcases lt_trichotomy a b with hlt | rfl | hlt
        · refine iff_of_false (fun h => ?_) (fun h => hlt.ne (List.cons.inj h.1).1)
          rw [setDifference_write hlt] at h
          exact heq (List.cons.inj h).1
        · rw [setDifference_drop, ih has' hc' (List.Perm.cons_inv hperm), List.cons.injEq,
            and_iff_right rfl]
          exact and_congr_right fun _ => ⟨fun h => ⟨fun h' => absurd h' heq, h⟩, fun h => h.2⟩
        · refine iff_of_false (fun h => ?_) (fun h => hlt.ne' (List.cons.inj h.1).1)
          rw [setDifference_skip hlt] at h
          have hb : b ∈ as.erase c := by
            have := hperm.mem_iff.mp (List.mem_cons_self (a := b) (l := bs))
            exact (List.mem_cons.mp this).resolve_left hlt.ne
          have hmem := mem_setDifference (List.mem_cons_of_mem a (List.mem_of_mem_erase hb))
            (List.nodup_cons.mp hbs).1
          rw [h] at hmem
          have hbc : b = c := List.mem_singleton.mp hmem
          rw [hbc] at hb
          exact (has'.not_mem_erase) hb

/-- A set of two elements that is iterated downwards. -/
example : setDifference [2, 1] [1] = [2, 1] := by decide

/-! ### `Sync` -/

/-- What is known of the order: every element comes once. -/
def Iterates (iterate : Finset ClientId → List ClientId) : Prop :=
  ∀ s, (iterate s).Nodup ∧ ∀ c, c ∈ iterate s ↔ c ∈ s

section Sync

variable {iterate : Finset ClientId → List ClientId} {record : Record Request Reply} {key : Key}
variable {client : ClientId} {type : Bool} {s : Server}

theorem mem_succeededSet : client ∈ succeededSet record key type ↔
    ∃ o e, record.lookup o = some e ∧ e.request.key = key ∧ e.request.type = type ∧
      e.result.status = 0 ∧ e.request.clientid = client := by
  rw [succeededSet, List.mem_toFinset, succeeded, List.mem_dedup, List.mem_filterMap]
  constructor
  · rintro ⟨⟨o, e⟩, hmem, h⟩
    split_ifs at h with hcond
    exact ⟨o, e, Table.mem_toList.mp hmem, hcond.1, hcond.2.1, hcond.2.2, Option.some.inj h⟩
  · rintro ⟨o, e, hl, hkey, htype, hstatus, hclient⟩
    refine ⟨(o, e), Table.mem_toList.mpr hl, ?_⟩
    rw [if_pos ⟨hkey, htype, hstatus⟩, hclient]

/-- A key is locked if the difference of its two sets is one client. -/
theorem lookup_sync (hiter : Iterates iterate) :
    (sync iterate record s).locks.lookup key = some client ↔
      setDifference (iterate (succeededSet record key true))
        (iterate (succeededSet record key false)) = [client] := by
  have hnodup : ∀ key, (setDifference (iterate (succeededSet record key true))
      (iterate (succeededSet record key false))).dedup =
      setDifference (iterate (succeededSet record key true))
        (iterate (succeededSet record key false)) := fun key => by
    rw [List.dedup_eq_self]
    exact (hiter _).1.sublist (setDifference_sublist _ _)
  rw [sync, Table.lookup_ofList_filterMap (List.nodup_dedup _)]
  · simp only [hnodup]
    constructor
    · rintro ⟨-, h⟩
      split at h
      · rename_i c hc
        rw [hc, (Prod.mk.inj (Option.some.inj h)).2]
      · cases h
    · intro h
      rw [h]
      refine ⟨?_, rfl⟩
      -- a key without operations has two empty sets
      have hmem : client ∈ iterate (succeededSet record key true) :=
        (setDifference_sublist _ _).subset (by rw [h]; exact List.mem_singleton_self client)
      obtain ⟨o, e, hl, hkey, -⟩ := mem_succeededSet.mp (((hiter _).2 client).mp hmem)
      rw [List.mem_dedup, ← hkey]
      exact List.mem_map.mpr ⟨(o, e), Table.mem_toList.mpr hl, rfl⟩
  · intro k p h
    simp only at h
    split at h
    · rw [← Option.some.inj h]
    · cases h

/-! ### Lock histories -/

/-- The successful operations of a client on a key by request id: true for a lock, false for an
unlock. -/
def lockHistory (record : Record Request Reply) (key : Key) (client : ClientId) : List Bool :=
  ((record.toList.filter fun p => p.2.request.key = key ∧ p.2.request.clientid = client ∧
    p.2.result.status = 0).insertionSort fun p q => p.1.2 ≤ q.1.2).map fun p => p.2.request.type

/-- **The final holder** of a key: its last successful operation is a lock. -/
def Holder (record : Record Request Reply) (key : Key) (client : ClientId) : Prop :=
  (lockHistory record key client).getLast? = some true

/-- **A legal history**: every client locks and unlocks in turn, and at most one holds the key in
the end. -/
structure Legal (record : Record Request Reply) : Prop where
  alternates : ∀ key client i b, (lockHistory record key client)[i]? = some b →
    b = decide (i % 2 = 0)
  unique : ∀ key client client', Holder record key client → Holder record key client' →
    client = client'

theorem mem_lockHistory {b : Bool} :
    b ∈ lockHistory record key client ↔ client ∈ succeededSet record key b := by
  rw [mem_succeededSet, lockHistory, List.mem_map]
  constructor
  · rintro ⟨⟨o, e⟩, hmem, rfl⟩
    rw [List.mem_insertionSort, List.mem_filter] at hmem
    obtain ⟨hkey, hclient, hstatus⟩ := of_decide_eq_true hmem.2
    exact ⟨o, e, Table.mem_toList.mp hmem.1, hkey, rfl, hstatus, hclient⟩
  · rintro ⟨o, e, hl, hkey, htype, hstatus, hclient⟩
    refine ⟨(o, e), ?_, htype⟩
    rw [List.mem_insertionSort, List.mem_filter]
    exact ⟨Table.mem_toList.mpr hl, decide_eq_true ⟨hkey, hclient, hstatus⟩⟩

theorem Holder.mem (h : Holder record key client) : client ∈ succeededSet record key true :=
  mem_lockHistory.mp (List.mem_of_getLast? h)

/-- Who has unlocked has locked before. -/
theorem Legal.locked (hlegal : Legal record) (h : client ∈ succeededSet record key false) :
    client ∈ succeededSet record key true := by
  rw [← mem_lockHistory] at h ⊢
  cases hlist : lockHistory record key client with
  | nil =>
    rw [hlist] at h
    cases h
  | cons b bs =>
    have hb : b = decide (0 % 2 = 0) := hlegal.alternates key client 0 b (by rw [hlist]; rfl)
    rw [hb]
    exact List.mem_cons_self

/-- Who has locked and does not hold the key has unlocked. -/
theorem unlocked_of_not_holder (h : client ∈ succeededSet record key true)
    (hnot : ¬Holder record key client) : client ∈ succeededSet record key false := by
  rw [← mem_lockHistory] at h ⊢
  rcases List.eq_nil_or_concat (lockHistory record key client) with hnil | ⟨bs, b, hconcat⟩
  · rw [hnil] at h
    cases h
  · rw [List.concat_eq_append] at hconcat
    cases b with
    | true =>
      refine absurd ?_ hnot
      rw [Holder, hconcat, List.getLast?_concat]
    | false =>
      rw [hconcat]
      exact List.mem_append_right _ (List.mem_singleton_self false)

/-- Without a final holder both sets of the key are the same. -/
theorem Legal.succeededSet_eq (hlegal : Legal record) (hnone : ∀ client, ¬Holder record key client) :
    succeededSet record key true = succeededSet record key false :=
  Finset.ext fun c => ⟨fun h => unlocked_of_not_holder h (hnone c), fun h => hlegal.locked h⟩

/-- A final holder that never unlocked the key is the only element that the first set has more. -/
theorem Legal.succeededSet_erase (hlegal : Legal record) (hholder : Holder record key client)
    (hnever : client ∉ succeededSet record key false) :
    (succeededSet record key true).erase client = succeededSet record key false := by
  ext c
  rw [Finset.mem_erase]
  constructor
  · rintro ⟨hne, hc⟩
    exact unlocked_of_not_holder hc fun h => hne (hlegal.unique key c client h hholder)
  · intro hc
    exact ⟨fun h => hnever (h ▸ hc), hlegal.locked hc⟩

/-- A final holder that unlocked the key before is in both sets, and these are the same. -/
theorem Legal.succeededSet_eq_of_mem (hlegal : Legal record) (hholder : Holder record key client)
    (hbefore : client ∈ succeededSet record key false) :
    succeededSet record key true = succeededSet record key false := by
  ext c
  by_cases hc : c = client
  · rw [hc]
    exact iff_of_true hholder.mem hbefore
  · exact ⟨fun h => unlocked_of_not_holder h fun hh => hc (hlegal.unique key c client hh hholder),
      fun h => hlegal.locked h⟩

/-! ### Which locks are found -/

/-- The locks after `Sync` are those of the final holders. -/
def Recovers (iterate : Finset ClientId → List ClientId) (record : Record Request Reply) : Prop :=
  ∀ s key client,
    (sync iterate record s).locks.lookup key = some client ↔ Holder record key client

/-- **What `Sync` needs of a final holder**: it never unlocked the key, the clients that locked the
key are iterated like those that unlocked it, with the holder somewhere between, and what follows
the holder is larger. -/
structure Found (iterate : Finset ClientId → List ClientId) (record : Record Request Reply)
    (key : Key) (client : ClientId) : Prop where
  never : client ∉ succeededSet record key false
  between : (iterate (succeededSet record key true)).erase client =
    iterate (succeededSet record key false)
  larger : LargerNext client (iterate (succeededSet record key true))

/-- One key: its lock is the final holder's exactly if the holder is `Found`. -/
theorem lookup_sync_holder (hiter : Iterates iterate) (hlegal : Legal record)
    (hholder : Holder record key client) :
    (sync iterate record s).locks.lookup key = some client ↔ Found iterate record key client := by
  rw [lookup_sync hiter]
  by_cases hnever : client ∈ succeededSet record key false
  · refine iff_of_false (fun h => ?_) fun h => h.never hnever
    rw [hlegal.succeededSet_eq_of_mem hholder hnever, setDifference_self] at h
    cases h
  · obtain ⟨hnodup, hmem⟩ := hiter (succeededSet record key true)
    obtain ⟨hnodup', hmem'⟩ := hiter (succeededSet record key false)
    have hperm : (iterate (succeededSet record key false)).Perm
        ((iterate (succeededSet record key true)).erase client) := by
      rw [List.perm_ext_iff_of_nodup hnodup' (hnodup.erase client)]
      intro c
      rw [hmem', hnodup.mem_erase_iff, hmem, ← hlegal.succeededSet_erase hholder hnever,
        Finset.mem_erase]
    rw [setDifference_eq_singleton_iff hnodup ((hmem client).mpr hholder.mem) hperm]
    exact ⟨fun h => ⟨hnever, h.1, h.2⟩, fun h => ⟨h.between, h.larger⟩⟩

/-- If every final holder is `Found`, so are their locks. -/
theorem recovers_of_found (hiter : Iterates iterate) (hlegal : Legal record)
    (h : ∀ key client, Holder record key client → Found iterate record key client) :
    Recovers iterate record := by
  intro s key client
  refine ⟨fun hl => ?_, fun hholder =>
    (lookup_sync_holder hiter hlegal hholder).mpr (h key client hholder)⟩
  -- a lock that is found is one of the holder, if there is any
  by_cases hsome : ∃ c, Holder record key c
  · obtain ⟨c, hc⟩ := hsome
    have hl' := (lookup_sync_holder (s := s) hiter hlegal hc).mpr (h key c hc)
    rw [hl] at hl'
    rw [Option.some.inj hl']
    exact hc
  · have hnone : ∀ c, ¬Holder record key c := fun c hc => hsome ⟨c, hc⟩
    rw [lookup_sync hiter, hlegal.succeededSet_eq hnone, setDifference_self] at hl
    cases hl

theorem Recovers.found (h : Recovers iterate record) (hiter : Iterates iterate)
    (hlegal : Legal record) (hholder : Holder record key client) :
    Found iterate record key client :=
  (lookup_sync_holder hiter hlegal hholder).mp ((h {} key client).mpr hholder)

/-- **Lock recovery.** After `Sync` the locks are those of the final holders exactly if each of
them is `Found`. -/
theorem recovers_iff (hiter : Iterates iterate) (hlegal : Legal record) :
    Recovers iterate record ↔
      ∀ key client, Holder record key client → Found iterate record key client := by
  constructor
  · intro h key client hholder
    exact h.found hiter hlegal hholder
  · intro h
    exact recovers_of_found hiter hlegal h

end Sync

/-! ### Ascending order -/

/-- On ascending ranges the algorithm computes the difference. -/
theorem setDifference_ascending {as bs : List ClientId} (has : as.Pairwise (· < ·))
    (hbs : bs.Pairwise (· < ·)) : setDifference as bs = as.filter fun a => decide (a ∉ bs) := by
  induction as generalizing bs with
  | nil => rfl
  | cons a as iha =>
    obtain ⟨ha, has'⟩ := List.pairwise_cons.mp has
    induction bs with
    | nil =>
      rw [setDifference_nil, List.filter_eq_self.mpr]
      exact fun x _ => decide_eq_true List.not_mem_nil
    | cons b bs ihb =>
      obtain ⟨hb, hbs'⟩ := List.pairwise_cons.mp hbs
      rcases lt_trichotomy a b with hlt | rfl | hlt
      · have hnot : a ∉ b :: bs := fun h => by
          rcases List.mem_cons.mp h with rfl | hmem
          · exact lt_irrefl a hlt
          · exact lt_asymm hlt (hb a hmem)
        rw [setDifference_write hlt, iha has' hbs,
          List.filter_cons_of_pos (p := fun x => decide (x ∉ b :: bs)) (decide_eq_true hnot)]
      · rw [setDifference_drop, iha has' hbs', List.filter_cons_of_neg
          (p := fun x => decide (x ∉ a :: bs)) fun h => of_decide_eq_true h List.mem_cons_self]
        refine List.filter_congr fun x hx => decide_eq_decide.mpr ?_
        rw [List.mem_cons, not_or, and_iff_right (ha x hx).ne']
      · rw [setDifference_skip hlt, ihb hbs']
        refine List.filter_congr fun x hx => decide_eq_decide.mpr ?_
        have hne : x ≠ b := by
          rcases List.mem_cons.mp hx with rfl | hmem
          · exact hlt.ne'
          · exact (hlt.trans (ha x hmem)).ne'
        rw [List.mem_cons, not_or, and_iff_right hne]

section Ascending

variable {record : Record Request Reply} {key : Key} {client : ClientId} {s : Server}

theorem pairwise_ascending (s : Finset ClientId) : (ascending s).Pairwise (· < ·) :=
  (Finset.sortedLT_sort s).pairwise

theorem iterates_ascending : Iterates ascending := fun s =>
  ⟨s.sort_nodup _, fun _ => s.mem_sort _⟩

/-- **Ascending sets.** With sets in ascending order the difference is that of the sets. -/
theorem lookup_sync_ascending : (sync ascending record s).locks.lookup key = some client ↔
    succeededSet record key true \ succeededSet record key false = {client} := by
  rw [lookup_sync iterates_ascending,
    setDifference_ascending (pairwise_ascending _) (pairwise_ascending _)]
  have hnodup : ((ascending (succeededSet record key true)).filter fun c =>
      decide (c ∉ ascending (succeededSet record key false))).Nodup :=
    (iterates_ascending _).1.filter _
  have hset : ((ascending (succeededSet record key true)).filter fun c =>
      decide (c ∉ ascending (succeededSet record key false))).toFinset =
        succeededSet record key true \ succeededSet record key false := by
    ext c
    rw [List.mem_toFinset, List.mem_filter, (iterates_ascending _).2, decide_eq_true_eq,
      (iterates_ascending _).2, Finset.mem_sdiff]
  rw [← hset]
  constructor
  · intro h
    rw [h, List.toFinset_cons, List.toFinset_nil, insert_empty_eq]
  · intro h
    rw [← List.perm_singleton]
    refine (List.perm_ext_iff_of_nodup hnodup (List.nodup_singleton client)).mpr fun c => ?_
    rw [← List.mem_toFinset, h, Finset.mem_singleton, List.mem_singleton]

theorem LargerNext.of_pairwise {as : List ClientId} (has : as.Pairwise (· < ·)) :
    LargerNext client as := by
  induction as with
  | nil => trivial
  | cons a as ih =>
    obtain ⟨ha, has'⟩ := List.pairwise_cons.mp has
    refine ⟨?_, ih has'⟩
    rintro rfl d hd
    exact ha d (List.mem_of_mem_head? hd)

/-- With sets in ascending order a final holder is found if it never unlocked the key. -/
theorem found_ascending (hlegal : Legal record) (hholder : Holder record key client)
    (hnever : client ∉ succeededSet record key false) : Found ascending record key client := by
  refine ⟨hnever, ?_, .of_pairwise (pairwise_ascending _)⟩
  rw [← hlegal.succeededSet_erase hholder hnever]
  refine List.Perm.eq_of_pairwise (fun a b _ _ hab hba => absurd hba hab.asymm)
    ((pairwise_ascending _).sublist List.erase_sublist) (pairwise_ascending _) ?_
  refine (List.perm_ext_iff_of_nodup ((iterates_ascending _).1.erase _)
    (iterates_ascending _).1).mpr fun c => ?_
  rw [(iterates_ascending _).1.mem_erase_iff, (iterates_ascending _).2, (iterates_ascending _).2,
    Finset.mem_erase]

/-- With sets in ascending order only a lock after an unlock is forgotten. -/
theorem recovers_ascending_iff (hlegal : Legal record) : Recovers ascending record ↔
    ∀ key client, Holder record key client → client ∉ succeededSet record key false := by
  constructor
  · intro h key client hholder
    exact (h.found iterates_ascending hlegal hholder).never
  · intro h
    exact recovers_of_found iterates_ascending hlegal fun key client hholder =>
      found_ascending hlegal hholder (h key client hholder)

end Ascending

/-! ### A lock that is found and one that is forgotten -/

theorem lockHistory_eq_nil {record : Record Request Reply} {key : Key} {client : ClientId}
    (hnone : ∀ p ∈ record.toList, ¬(p.2.request.key = key ∧ p.2.request.clientid = client)) :
    lockHistory record key client = [] := by
  rw [lockHistory, List.filter_eq_nil_iff.mpr]
  · rfl
  · intro p hp hcond
    obtain ⟨hkey, hclient, -⟩ := of_decide_eq_true hcond
    exact hnone p hp ⟨hkey, hclient⟩

/-- The client asks for a lock or an unlock of the key, and succeeds. -/
def succeeds (client i : ℕ) (type : Bool) : OpId × RecordEntry Request Reply :=
  ((client, i), ⟨0, (client, i), .finalized, if type then .consensus else .inconsistent,
    ⟨client, "k", type⟩, ⟨"k", 0⟩⟩)

/-- Client 1 locks the key and unlocks it, and client 2 locks it. -/
def handedOver : Record Request Reply :=
  Table.ofList [succeeds 1 1 true, succeeds 1 2 false, succeeds 2 1 true]

/-- Client 1 locks the key, unlocks it and locks it again. -/
def lockedTwice : Record Request Reply :=
  Table.ofList [succeeds 1 1 true, succeeds 1 2 false, succeeds 1 3 true]

theorem handedOver_request : ∀ p ∈ handedOver.toList,
    p.2.request.key = "k" ∧ (p.2.request.clientid = 1 ∨ p.2.request.clientid = 2) := by decide

theorem lockedTwice_request : ∀ p ∈ lockedTwice.toList,
    p.2.request.key = "k" ∧ p.2.request.clientid = 1 := by decide

theorem lockHistory_handedOver (key : Key) (client : ClientId) :
    lockHistory handedOver key client =
      if key = "k" ∧ client = 1 then [true, false]
      else if key = "k" ∧ client = 2 then [true] else [] := by
  split_ifs with h₁ h₂
  · rw [h₁.1, h₁.2]
    decide
  · rw [h₂.1, h₂.2]
    decide
  · refine lockHistory_eq_nil fun p hp hcond => ?_
    obtain ⟨hkey, hclient⟩ := handedOver_request p hp
    rw [hcond.1, hcond.2] at *
    rcases hclient with hclient | hclient
    · exact h₁ ⟨hkey, hclient⟩
    · exact h₂ ⟨hkey, hclient⟩

theorem lockHistory_lockedTwice (key : Key) (client : ClientId) :
    lockHistory lockedTwice key client =
      if key = "k" ∧ client = 1 then [true, false, true] else [] := by
  split_ifs with h
  · rw [h.1, h.2]
    decide
  · refine lockHistory_eq_nil fun p hp hcond => h ?_
    obtain ⟨hkey, hclient⟩ := lockedTwice_request p hp
    exact ⟨hcond.1 ▸ hkey, hcond.2 ▸ hclient⟩

/-- Client 2 holds the key in the end, and nobody else does. -/
theorem holder_handedOver {key : Key} {client : ClientId} :
    Holder handedOver key client ↔ key = "k" ∧ client = 2 := by
  rw [Holder, lockHistory_handedOver]
  split_ifs with h₁ h₂
  · refine iff_of_false (by decide) fun h => ?_
    rw [h₁.2] at h
    exact absurd h.2 (by decide)
  · exact iff_of_true rfl h₂
  · exact iff_of_false (fun h => by cases h) h₂

theorem legal_handedOver : Legal handedOver where
  alternates key client i b hb := by
    rw [lockHistory_handedOver] at hb
    split_ifs at hb
    · rcases i with _ | _ | i
      · exact (Option.some.inj hb).symm
      · exact (Option.some.inj hb).symm
      · cases hb
    · rcases i with _ | i
      · exact (Option.some.inj hb).symm
      · cases hb
    · cases hb
  unique key client client' h h' := by
    rw [(holder_handedOver.mp h).2, (holder_handedOver.mp h').2]

theorem legal_lockedTwice : Legal lockedTwice where
  alternates key client i b hb := by
    rw [lockHistory_lockedTwice] at hb
    split_ifs at hb
    · rcases i with _ | _ | _ | i
      · exact (Option.some.inj hb).symm
      · exact (Option.some.inj hb).symm
      · exact (Option.some.inj hb).symm
      · cases hb
    · cases hb
  unique key client client' h h' := by
    rw [Holder, lockHistory_lockedTwice] at h h'
    split_ifs at h with hc
    · split_ifs at h' with hc'
      · rw [hc.2, hc'.2]
      · cases h'
    · cases h

theorem holder_lockedTwice : Holder lockedTwice "k" 1 := by
  rw [Holder, lockHistory_lockedTwice]
  rfl

theorem unlocked_lockedTwice : 1 ∈ succeededSet lockedTwice "k" false := by
  rw [← mem_lockHistory, lockHistory_lockedTwice]
  exact List.mem_cons_of_mem _ List.mem_cons_self

theorem unlocked_handedOver : succeededSet handedOver "k" false = {1} := by decide

/-- A lock that was handed over is found, one that was taken again is not, though the sets are in
ascending order. -/
theorem recovers_iff_records : Recovers ascending handedOver ∧ ¬Recovers ascending lockedTwice := by
  constructor
  · refine (recovers_iff iterates_ascending legal_handedOver).mpr fun key client hholder => ?_
    obtain ⟨rfl, rfl⟩ := holder_handedOver.mp hholder
    refine found_ascending legal_handedOver hholder ?_
    rw [unlocked_handedOver]
    decide
  · intro h
    have hfound :=
      (recovers_iff iterates_ascending legal_lockedTwice).mp h "k" 1 holder_lockedTwice
    exact hfound.never unlocked_lockedTwice

/-- **A lock that is forgotten.** The client holds the key in the end, and no order of the sets
gives it the lock. -/
theorem relocked : Legal lockedTwice ∧ Holder lockedTwice "k" 1 ∧
    ∀ iterate, Iterates iterate → (∀ s, (sync iterate lockedTwice s).locks.lookup "k" ≠ some 1) ∧
      ¬Recovers iterate lockedTwice := by
  refine ⟨legal_lockedTwice, holder_lockedTwice, fun iterate hiter => ?_⟩
  have hlost : ∀ s, (sync iterate lockedTwice s).locks.lookup "k" ≠ some 1 := fun s h =>
    ((lookup_sync_holder hiter legal_lockedTwice holder_lockedTwice).mp h).never
      unlocked_lockedTwice
  exact ⟨hlost, fun h => hlost {} ((h {} "k" 1).mpr holder_lockedTwice)⟩

end D2PC.Ir.LockService.Server
