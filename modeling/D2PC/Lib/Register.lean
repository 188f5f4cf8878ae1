import Mathlib.Data.List.Infix
import Mathlib.Order.Nat
import Mathlib.Tactic.Common

/-!
# Registers that are written everywhere

A register has copies. A write is invoked, applied to the copies, and done once it was applied to
all of them; a read looks at one copy. A history is a list of events, of any type.

* `Occurs` : an event at a place of a history;
* `WriteAll` : what a history says of the writes, of those that can be relied on;
* `WriteAll.regular` : the write that was applied last to a copy was not done before any write was
  invoked that is done;
* `WriteAll.applied_of_done` : and there is one, if a write is done.
-/

namespace Register

variable {E W : Type}

/-- An event of the kind is at the place of the history. -/
def Occurs (h : List E) (i : ℕ) (P : E → Prop) : Prop := ∃ e, h[i]? = some e ∧ P e

theorem Occurs.lt {h : List E} {i : ℕ} {P : E → Prop} (ho : Occurs h i P) : i < h.length := by
  obtain ⟨e, he, -⟩ := ho
  exact (List.getElem?_eq_some_iff.1 he).1

theorem Occurs.append {h : List E} {i : ℕ} {P : E → Prop} (ho : Occurs h i P) (es : List E) :
    Occurs (h ++ es) i P := by
  obtain ⟨e, he, hP⟩ := ho
  refine ⟨e, ?_, hP⟩
  rw [List.getElem?_append_left (List.getElem?_eq_some_iff.1 he).1]
  exact he

theorem occurs_append_iff {h : List E} {i : ℕ} {P : E → Prop} (hi : i < h.length) (es : List E) :
    Occurs (h ++ es) i P ↔ Occurs h i P := by
  unfold Occurs
  rw [List.getElem?_append_left hi]

theorem occurs_concat {h : List E} {i : ℕ} {P : E → Prop} {e : E} (ho : Occurs (h ++ [e]) i P) :
    Occurs h i P ∨ i = h.length ∧ P e := by
  rcases lt_or_eq_of_le (Nat.lt_succ_iff.1 (by simpa using ho.lt)) with hi | rfl
  · exact .inl ((occurs_append_iff hi _).1 ho)
  · obtain ⟨e', he, hP⟩ := ho
    rw [List.getElem?_concat_length, Option.some.injEq] at he
    exact .inr ⟨rfl, he ▸ hP⟩

/-- **The writes of a history**, to one copy of the register. A write is invoked at a place of the
history; `honest` are those that were applied where they are done, and not twice. -/
structure WriteAll (invoked : W → ℕ) (applied done : W → E → Prop) (honest : W → Prop)
    (h : List E) : Prop where
  invoked_first : ∀ w j, Occurs h j (applied w) → invoked w < j
  applied_once : ∀ w i j, honest w → Occurs h i (applied w) → Occurs h j (applied w) → i = j
  applied_all : ∀ w j, honest w → Occurs h j (done w) → ∃ i < j, Occurs h i (applied w)

variable {invoked : W → ℕ} {applied done : W → E → Prop} {honest : W → Prop} {h : List E}
variable {p q : W} {look : E → Option W}

/-- The last of the writes that a function finds. -/
theorem exists_last (hlast : (h.filterMap look).getLast? = some q) :
    ∃ i, Occurs h i (fun e => look e = some q) ∧
      ∀ j w, Occurs h j (fun e => look e = some w) → j ≤ i := by
  induction h using List.reverseRecOn with
  | nil => cases hlast
  | append_singleton h e ih =>
      rw [List.filterMap_append] at hlast
      cases hlook : look e with
      | none =>
          rw [List.filterMap_cons_none hlook, List.filterMap_nil, List.append_nil] at hlast
          obtain ⟨i, hi, hmax⟩ := ih hlast
          refine ⟨i, hi.append _, fun j w hj => ?_⟩
          rcases occurs_concat hj with hj | ⟨-, he⟩
          · exact hmax j w hj
          · rw [hlook] at he
            cases he
      | some w =>
          rw [List.filterMap_cons_some hlook, List.filterMap_nil, List.getLast?_concat] at hlast
          refine ⟨h.length, ⟨e, List.getElem?_concat_length .., hlook.trans hlast⟩,
            fun j w hj => ?_⟩
          rcases occurs_concat hj with hj | ⟨rfl, -⟩
          · exact hj.lt.le
          · exact le_rfl

/-- **Regularity.** The write that was applied last was not done before another write was invoked
that is done. -/
theorem WriteAll.regular (hw : WriteAll invoked applied done honest h)
    (hlook : ∀ w e, look e = some w → applied w e) (hlast : (h.filterMap look).getLast? = some q)
    (hp : honest p) (hq : honest q) (happlied : ∀ e, applied p e → look e = some p) {i k : ℕ}
    (hpdone : Occurs h k (done p)) (hqdone : Occurs h i (done q)) : invoked p < i := by
  obtain ⟨l, hl, hmax⟩ := exists_last hlast
  obtain ⟨e, he, hqe⟩ := hl
  -- the last write was applied before it was done, the other after it was invoked
  obtain ⟨iq, hiq, hqapplied⟩ := hw.applied_all q i hq hqdone
  obtain rfl : iq = l := hw.applied_once q iq l hq hqapplied ⟨e, he, hlook q e hqe⟩
  obtain ⟨ip, -, hpapplied⟩ := hw.applied_all p k hp hpdone
  have hinvoked := hw.invoked_first p ip hpapplied
  obtain ⟨e', he', hpe'⟩ := hpapplied
  have hle := hmax ip p ⟨e', he', happlied e' hpe'⟩
  exact (hinvoked.trans_le hle).trans hiq

/-- Where a write is done, one was applied. -/
theorem WriteAll.applied_of_done (hw : WriteAll invoked applied done honest h)
    (hlast : (h.filterMap look).getLast? = none) (hp : honest p)
    (happlied : ∀ e, applied p e → look e = some p) (k : ℕ) : ¬ Occurs h k (done p) := by
  intro hdone
  obtain ⟨i, -, e, he, hpe⟩ := hw.applied_all p k hp hdone
  have hmem : p ∈ h.filterMap look :=
    List.mem_filterMap.2 ⟨e, List.mem_of_getElem? he, happlied e hpe⟩
  rw [List.getLast?_eq_none_iff.1 hlast] at hmem
  exact absurd hmem List.not_mem_nil

end Register
