import Mathlib.Data.Finset.Card
import Mathlib.Data.List.TakeDrop

/-!
# Replicated logs that go through views

A group of replicas keeps a log. It goes through numbered views; in a view the log only grows, and
a new view starts with the log of one of a quorum of replicas. What a quorum accepted in a view is
in the log of every later view, if the choice falls on a replica that entered the latest view, and
among those on the longest log.

* `ViewRecord` : what the replicas accepted and contributed, and the logs of the views;
* `ViewRecord.Sound` : what the replicas have to see to;
* `ViewRecord.Elected.keeps` : a log that is chosen for a view has what was accepted before;
* `ViewRecord.Sound.base_keeps` : every later view starts with what was accepted;
* `ViewRecord.Chosen.agree` : what is accepted in two views is the same;
* `prefix_of_numbered` : of two numbered lists that agree one is a prefix of the other.
-/

/-- The record of a log that goes through views. -/
structure ViewRecord (ι α : Type) where
  /-- The log a view was started with. -/
  base : ℕ → Option (List α)
  /-- The log of a view so far. -/
  log : ℕ → List α
  /-- The replica has the log of the view up to the number. -/
  accepted : ι → ℕ → ℕ → Prop
  /-- The replica gave the log to the choice for the first view; the last one it entered is the
  second. -/
  contributed : ι → ℕ → ℕ → List α → Prop

namespace ViewRecord

variable {ι α : Type} (R : ViewRecord ι α) (members : Finset ι) (q : ℕ)

/-- A quorum of the members accepted the log of the view up to the number. -/
def Chosen (v k : ℕ) : Prop :=
  ∃ Q ⊆ members, q ≤ Q.card ∧ ∀ j ∈ Q, ∃ k', k ≤ k' ∧ R.accepted j v k'

/-- The log is the best one that a quorum of the members contributed for the view: no one entered a
later view, and of those who entered the same one no one has a longer log. -/
def Elected (v : ℕ) (l : List α) : Prop :=
  ∃ Q ⊆ members, q ≤ Q.card ∧ ∃ u, (∃ i ∈ Q, R.contributed i v u l) ∧
    ∀ j ∈ Q, ∃ u' l', R.contributed j v u' l' ∧ (u' < u ∨ u' = u ∧ l'.length ≤ l.length)

/-- **What the replicas have to see to.** -/
structure Sound : Prop where
  /-- Two quorums meet. -/
  meet : members.card < q + q
  /-- The log of a view grows from the one it was started with. -/
  grown : ∀ v l, R.base v = some l → l <+: R.log v
  /-- Only what is in the log of a view is accepted. -/
  within : ∀ i v k, R.accepted i v k → k ≤ (R.log v).length
  /-- A replica has the log of the view it entered last, from its start on. -/
  contribution : ∀ i v u l, R.contributed i v u l →
    u < v ∧ (∃ l₀, R.base u = some l₀ ∧ l₀ <+: l) ∧ l <+: R.log u
  /-- What a replica accepted, it keeps until a later view starts. -/
  kept : ∀ i v k v' u l, R.accepted i v k → R.contributed i v' u l → v < v' →
    v ≤ u ∧ (v = u → k ≤ l.length)
  /-- Every view but the first was started with the best log. -/
  elected : ∀ v l, R.base v = some l → 0 < v → R.Elected members q v l

variable {R members q}

theorem Chosen.mono {v k k' : ℕ} (h : R.Chosen members q v k') (hk : k ≤ k') :
    R.Chosen members q v k := by
  obtain ⟨Q, hsub, hcard, hQ⟩ := h
  refine ⟨Q, hsub, hcard, fun j hj => ?_⟩
  obtain ⟨k₀, hk₀, hacc⟩ := hQ j hj
  exact ⟨k₀, hk.trans hk₀, hacc⟩

/-- More was recorded. -/
structure Later (R R' : ViewRecord ι α) : Prop where
  accepted : ∀ i v k, R.accepted i v k → R'.accepted i v k
  contributed : ∀ i v u l, R.contributed i v u l → R'.contributed i v u l

theorem Chosen.later {R' : ViewRecord ι α} (hR : R.Later R') {v k : ℕ}
    (h : R.Chosen members q v k) : R'.Chosen members q v k := by
  obtain ⟨Q, hsub, hcard, hQ⟩ := h
  refine ⟨Q, hsub, hcard, fun j hj => ?_⟩
  obtain ⟨k₀, hk₀, hacc⟩ := hQ j hj
  exact ⟨k₀, hk₀, hR.accepted j v k₀ hacc⟩

theorem Elected.later {R' : ViewRecord ι α} (hR : R.Later R') {v : ℕ} {l : List α}
    (h : R.Elected members q v l) : R'.Elected members q v l := by
  obtain ⟨Q, hsub, hcard, u, ⟨i, hi, hcon⟩, hbest⟩ := h
  refine ⟨Q, hsub, hcard, u, ⟨i, hi, hR.contributed i v u l hcon⟩, fun j hj => ?_⟩
  obtain ⟨u', l', hcon', hle⟩ := hbest j hj
  exact ⟨u', l', hR.contributed j v u' l' hcon', hle⟩

theorem Sound.quorum_pos (hR : R.Sound members q) : 0 < q := by
  have hmeet := hR.meet
  omega

/-- What is chosen is in the log of the view. -/
theorem Chosen.le_length (hR : R.Sound members q) {v k : ℕ} (h : R.Chosen members q v k) :
    k ≤ (R.log v).length := by
  obtain ⟨Q, _, hcard, hQ⟩ := h
  obtain ⟨j, hj⟩ : Q.Nonempty := by
    rw [← Finset.card_pos]
    exact Nat.lt_of_lt_of_le hR.quorum_pos hcard
  obtain ⟨k', hk', hacc⟩ := hQ j hj
  exact hk'.trans (hR.within j v k' hacc)

/-- Two quorums have a member in common. -/
theorem Sound.exists_mem (hR : R.Sound members q) {Q Q' : Finset ι} (hQ : Q ⊆ members)
    (hQ' : Q' ⊆ members) (hcard : q ≤ Q.card) (hcard' : q ≤ Q'.card) : ∃ j ∈ Q, j ∈ Q' := by
  classical
  by_contra hnone
  have hdisjoint : Disjoint Q Q' :=
    Finset.disjoint_left.2 fun j hj hj' => hnone ⟨j, hj, hj'⟩
  have hunion := Finset.card_le_card (Finset.union_subset hQ hQ')
  rw [Finset.card_union_of_disjoint hdisjoint] at hunion
  have hmeet := hR.meet
  omega

/-- **The best log** of a quorum has what was chosen in an earlier view, if the views between were
started with it. -/
theorem Elected.keeps_of (hR : R.Sound members q) {v k v' : ℕ} {l : List α}
    (hchosen : R.Chosen members q v k) (helected : R.Elected members q v' l) (hlt : v < v')
    (hbetween : ∀ u, v < u → u < v' → ∀ l₀, R.base u = some l₀ → (R.log v).take k <+: l₀) :
    (R.log v).take k <+: l := by
  obtain ⟨Q, hQ, hcard, hacc⟩ := hchosen
  obtain ⟨Q', hQ', hcard', u, ⟨i, _, hi⟩, hbest⟩ := helected
  obtain ⟨j, hj, hj'⟩ := hR.exists_mem hQ hQ' hcard hcard'
  obtain ⟨k', hk', hjacc⟩ := hacc j hj
  obtain ⟨u', l', hjcon, hle⟩ := hbest j hj'
  obtain ⟨hview, hlength⟩ := hR.kept j v k' v' u' l' hjacc hjcon hlt
  obtain ⟨hu, ⟨l₀, hbase, hl₀⟩, hl⟩ := hR.contribution i v' u l hi
  rcases Nat.lt_or_ge v u with hvu | huv
  · -- the chosen replica entered a view that started with it
    exact (hbetween u hvu hu l₀ hbase).trans hl₀
  · -- it is still in the view, and has a log that is long enough
    have huu : u' = u := by
      rcases hle with h | h
      · omega
      · exact h.1
    have hvu : v = u := by omega
    have hlong : k ≤ l.length := by
      have hshort : l'.length ≤ l.length := by
        rcases hle with h | h
        · omega
        · exact h.2
      have hkept := hlength (by omega)
      omega
    subst hvu
    refine List.prefix_of_prefix_length_le (List.take_prefix _ _) hl ?_
    rw [List.length_take]
    omega

/-- **Every later view** starts with what was chosen. -/
theorem Sound.base_keeps (hR : R.Sound members q) {v k : ℕ} (hchosen : R.Chosen members q v k)
    {v' : ℕ} {l : List α} (hbase : R.base v' = some l) (hlt : v < v') :
    (R.log v).take k <+: l := by
  induction v' using Nat.strong_induction_on generalizing l with
  | _ v' ih =>
      exact Elected.keeps_of hR hchosen (hR.elected v' l hbase (by omega)) hlt
        fun u hvu huv' l₀ hl₀ => ih u huv' hl₀ hvu

theorem Elected.keeps (hR : R.Sound members q) {v k v' : ℕ} {l : List α}
    (hchosen : R.Chosen members q v k) (helected : R.Elected members q v' l) (hlt : v < v') :
    (R.log v).take k <+: l :=
  helected.keeps_of hR hchosen hlt fun _ hvu _ _ hl₀ => hR.base_keeps hchosen hl₀ hvu

/-- What is chosen is in the log of every later view. -/
theorem Chosen.prefix_log (hR : R.Sound members q) {v k v' : ℕ} {l : List α}
    (hchosen : R.Chosen members q v k) (hbase : R.base v' = some l) (hle : v ≤ v') :
    (R.log v).take k <+: R.log v' := by
  rcases Nat.eq_or_lt_of_le hle with rfl | hlt
  · exact List.take_prefix _ _
  · exact (hR.base_keeps hchosen hbase hlt).trans (hR.grown v' l hbase)

/-- **Agreement.** What is chosen up to a number in two views is the same. -/
theorem Chosen.agree (hR : R.Sound members q) {v v' k : ℕ} {l l' : List α}
    (hchosen : R.Chosen members q v k) (hchosen' : R.Chosen members q v' k)
    (hbase : R.base v = some l) (hbase' : R.base v' = some l') :
    (R.log v).take k = (R.log v').take k := by
  have hof : ∀ {u u' : ℕ} {l₀ : List α}, u ≤ u' → R.Chosen members q u k → R.base u' = some l₀ →
      (R.log u).take k = (R.log u').take k := by
    intro u u' l₀ hle hu hbase₀
    have hpre := hu.prefix_log hR hbase₀ hle
    have hlen : ((R.log u).take k).length = k := List.length_take_of_le (hu.le_length hR)
    have heq := List.prefix_iff_eq_take.1 hpre
    rw [hlen] at heq
    exact heq
  rcases Nat.le_total v v' with hle | hle
  · exact hof hle hchosen hbase'
  · exact (hof hle hchosen' hbase).symm

end ViewRecord

/-! ### Numbered lists -/

section Numbered

variable {α : Type} {l l' : List (ℕ × α)} {first m m' : ℕ}

theorem numbered_length (hl : ∃ m, l.map Prod.fst = List.range' first m) :
    l.map Prod.fst = List.range' first l.length := by
  obtain ⟨m, hm⟩ := hl
  have hlen := congrArg List.length hm
  rw [List.length_map, List.length_range'] at hlen
  rw [hm, hlen]

theorem number_of_getElem? {x : ℕ × α} {k : ℕ} (hl : l.map Prod.fst = List.range' first m)
    (hx : l[k]? = some x) : x.1 = first + k := by
  have hnumber := congrArg (·[k]?) hl
  simp only [List.getElem?_map, hx, Option.map_some] at hnumber
  by_cases hk : k < m
  · rw [List.getElem?_range' hk, Nat.one_mul] at hnumber
    exact Option.some.inj hnumber
  · rw [List.getElem?_eq_none (by rw [List.length_range']; omega)] at hnumber
    cases hnumber

theorem prefix_of_numbered_le (hl : l.map Prod.fst = List.range' first m)
    (hl' : l'.map Prod.fst = List.range' first m') (hle : m ≤ m')
    (hagree : ∀ k a a', (k, a) ∈ l → (k, a') ∈ l' → a = a') : l <+: l' := by
  have hlen := congrArg List.length hl
  have hlen' := congrArg List.length hl'
  rw [List.length_map, List.length_range'] at hlen hlen'
  refine List.prefix_iff_getElem?.2 fun k hk => ?_
  have hx := List.getElem?_eq_getElem hk
  have hk' : k < l'.length := by omega
  have hx' := List.getElem?_eq_getElem hk'
  generalize l[k] = x at hx ⊢
  generalize l'[k] = x' at hx'
  have hnumber := number_of_getElem? hl hx
  have hnumber' := number_of_getElem? hl' hx'
  obtain ⟨i, a⟩ := x
  obtain ⟨i', a'⟩ := x'
  obtain rfl : i = i' := hnumber.trans hnumber'.symm
  have hsame := hagree i a a' (List.mem_of_getElem? hx) (List.mem_of_getElem? hx')
  rw [hx', hsame]

/-- **Of two lists that are numbered from the same number on, one is a prefix of the other**, if
they have the same under the same number. -/
theorem prefix_of_numbered (hl : l.map Prod.fst = List.range' first m)
    (hl' : l'.map Prod.fst = List.range' first m')
    (hagree : ∀ k a a', (k, a) ∈ l → (k, a') ∈ l' → a = a') : l <+: l' ∨ l' <+: l := by
  rcases Nat.le_total m m' with hle | hle
  · exact .inl (prefix_of_numbered_le hl hl' hle hagree)
  · exact .inr (prefix_of_numbered_le hl' hl hle fun k a a' ha ha' => (hagree k a' a ha' ha).symm)

end Numbered
