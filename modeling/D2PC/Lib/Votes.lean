import Mathlib.Data.Finset.Card
import D2PC.Lib.Table

/-!
# Votes collected in a table

Every voter casts one vote, and whoever counts has received the votes of some of them. The
votes received are kept in a table by voter, and counted by walking over it.

* `Votes.Received` : the table holds votes that were cast;
* `Votes.count` : how many of the votes received are of a kind;
* `Votes.count_eq_card` : that is the number of voters heard of who cast such a vote;
* `Votes.not_opposed` : two majorities, in whatever tables, are not opposed to each other.
-/

namespace Votes

variable {κ ν : Type} [DecidableEq κ] {vote : κ → ν} {voters : Finset κ} {t t' : Table κ ν}

/-- The table holds votes of the assignment. -/
def Received (vote : κ → ν) (voters : Finset κ) (t : Table κ ν) : Prop :=
  ∀ i x, t.lookup i = some x → i ∈ voters ∧ x = vote i

/-- The votes that satisfy `p`. -/
def count (p : ν → Bool) (t : Table κ ν) : ℕ := (t.toList.map Prod.snd).countP p

/-- The voters that were heard of. -/
def heard (t : Table κ ν) : Finset κ := t.keys.toFinset

theorem mem_heard {i : κ} : i ∈ heard t ↔ i ∈ t := by
  rw [heard, List.mem_toFinset, AList.mem_keys]

theorem card_heard (t : Table κ ν) : (heard t).card = t.size := by
  rw [heard, List.toFinset_card_of_nodup t.keys_nodup, Table.size_eq_keys_length]

theorem heard_insert (t : Table κ ν) (i : κ) (x : ν) : heard (t.insert i x) = insert i (heard t) := by
  ext j
  rw [Finset.mem_insert, mem_heard, mem_heard, AList.mem_insert]

theorem Received.empty : Received vote voters (∅ : Table κ ν) := by
  intro i x h
  rw [AList.lookup_empty] at h
  cases h

theorem Received.insert (h : Received vote voters t) {i : κ} {x : ν} (hi : i ∈ voters)
    (hx : x = vote i) : Received vote voters (t.insert i x) := by
  intro j y hy
  rw [Table.lookup_insert_eq] at hy
  split_ifs at hy with heq
  · cases hy
    subst heq
    exact ⟨hi, hx⟩
  · exact h j y hy

theorem Received.heard_subset (h : Received vote voters t) : heard t ⊆ voters := by
  intro i hi
  obtain ⟨x, hx⟩ := Option.isSome_iff_exists.1 (AList.lookup_isSome.2 (mem_heard.1 hi))
  exact (h i x hx).1

/-- **Counting.** The votes counted are those of the voters heard of. -/
theorem count_eq_card (h : Received vote voters t) (p : ν → Bool) :
    count p t = ((heard t).filter fun i => p (vote i) = true).card := by
  have hvotes : ∀ e ∈ t.toList, e.2 = vote e.1 := fun e he =>
    (h e.1 e.2 (Table.mem_toList.1 he)).2
  have hnodup : ((t.toList.map Prod.fst).filter fun i => p (vote i)).Nodup :=
    t.toList_nodup.filter _
  have hset : (heard t).filter (fun i => p (vote i) = true) =
      ((t.toList.map Prod.fst).filter fun i => p (vote i)).toFinset := by
    ext i
    rw [Finset.mem_filter, mem_heard, List.mem_toFinset, List.mem_filter, Table.mem_keys_toList]
  rw [hset, List.toFinset_card_of_nodup hnodup, ← List.countP_eq_length_filter, count,
    List.countP_map, List.countP_map]
  apply List.countP_congr
  intro e he
  rw [Function.comp_apply, Function.comp_apply, hvotes e he]

/-- The voters whose vote received is of a kind. -/
def supporters (p : ν → Bool) (t : Table κ ν) : Finset κ :=
  ((t.toList.filter fun e => p e.2).map Prod.fst).toFinset

theorem mem_supporters {p : ν → Bool} {i : κ} :
    i ∈ supporters p t ↔ ∃ x, t.lookup i = some x ∧ p x = true := by
  simp only [supporters, List.mem_toFinset, List.mem_map, List.mem_filter, Prod.exists,
    Table.mem_toList, exists_and_right, exists_eq_right]

theorem card_supporters (p : ν → Bool) (t : Table κ ν) : (supporters p t).card = count p t := by
  have hnodup : ((t.toList.filter fun e => p e.2).map Prod.fst).Nodup :=
    t.toList_nodup.sublist (List.filter_sublist.map _)
  rw [supporters, List.toFinset_card_of_nodup hnodup, List.length_map,
    ← List.countP_eq_length_filter, count, List.countP_map]
  rfl

theorem count_le_card (h : Received vote voters t) (p : ν → Bool) :
    count p t ≤ (voters.filter fun i => p (vote i) = true).card := by
  rw [count_eq_card h]
  exact Finset.card_le_card (Finset.filter_subset_filter _ h.heard_subset)

/-- Who received more counts no less. -/
theorem count_mono (h : Received vote voters t) (h' : Received vote voters t')
    (hsub : ∀ i ∈ t, i ∈ t') (p : ν → Bool) : count p t ≤ count p t' := by
  rw [count_eq_card h, count_eq_card h']
  apply Finset.card_le_card
  apply Finset.filter_subset_filter
  intro i hi
  exact mem_heard.2 (hsub i (mem_heard.1 hi))

omit [DecidableEq κ] in
theorem count_add_not (p : ν → Bool) (t : Table κ ν) :
    count p t + count (fun x => !p x) t = (t.toList.map Prod.snd).length := by
  rw [List.length_eq_countP_add_countP p, count, count]
  simp only [Bool.not_eq_true, Bool.decide_eq_false]

/-- **No two majorities are opposed.** A voter is on one side only. -/
theorem not_opposed (h : Received vote voters t) (h' : Received vote voters t') {q : ℕ}
    (hq : voters.card < 2 * q) {p : ν → Bool} (hp : q ≤ count p t)
    (hnot : q ≤ count (fun x => !p x) t') : False := by
  have hle := count_le_card h p
  have hle' := count_le_card h' fun x => !p x
  have hsplit := Finset.card_filter_add_card_filter_not (s := voters) fun i => p (vote i) = true
  simp only [Bool.not_eq_true, Bool.not_eq_eq_eq_not, Bool.not_true] at hsplit hle'
  omega

end Votes
