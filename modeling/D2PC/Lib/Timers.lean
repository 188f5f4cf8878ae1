import Mathlib.Data.List.Infix
import Mathlib.Order.Nat
import Mathlib.Tactic.SplitIfs

/-!
# Timers in the order of their deadlines

A queue of timers is kept in the order of the deadlines, and those with the same deadline in the
order in which they were set. The clock moves on to the deadline of the first timer when it fires.

* `Timer.Before` : the order of two timers;
* `Timer.insert` : a timer is set;
* `Timeline` : what fired before, and what is pending, with the rules `set`, `fire` and `remove`.
-/

/-- A timer that is set for a deadline. -/
structure Timer (C : Type) where
  when : ℕ
  id : ℤ
  cb : C
  deriving DecidableEq

namespace Timer

variable {C : Type} {s t u : Timer C} {l : List (Timer C)}

/-- `t` is due before `u`, or at the same time and was set before it. -/
def Before (t u : Timer C) : Prop := t.when < u.when ∨ t.when = u.when ∧ t.id < u.id

theorem Before.le (h : t.Before u) : t.when ≤ u.when := by
  rcases h with hlt | ⟨heq, -⟩
  · exact hlt.le
  · exact heq.le

/-- The timer comes after those that are due at the same time. -/
def insert (t : Timer C) : List (Timer C) → List (Timer C)
  | [] => [t]
  | u :: us => if t.when < u.when then t :: u :: us else u :: insert t us

theorem insert_perm (t : Timer C) (l : List (Timer C)) : (t.insert l).Perm (t :: l) := by
  induction l with
  | nil => exact .refl _
  | cons u us ih =>
      rw [insert]
      split_ifs
      · exact .refl _
      · exact (ih.cons u).trans (.swap t u us)

theorem mem_insert : u ∈ t.insert l ↔ u = t ∨ u ∈ l := by
  rw [(t.insert_perm l).mem_iff, List.mem_cons]

theorem insert_pairwise (hl : l.Pairwise Before) (hid : ∀ u ∈ l, u.id < t.id) :
    (t.insert l).Pairwise Before := by
  induction l with
  | nil => exact List.pairwise_singleton _ _
  | cons u us ih =>
      obtain ⟨hu, hus⟩ := List.pairwise_cons.1 hl
      rw [insert]
      split_ifs with hlt
      · refine List.pairwise_cons.2 ⟨fun x hx => .inl ?_, hl⟩
        rcases List.mem_cons.1 hx with rfl | hx
        · exact hlt
        · exact hlt.trans_le (hu x hx).le
      · refine List.pairwise_cons.2 ⟨fun x hx => ?_, ih hus fun x hx => hid x (.tail u hx)⟩
        rcases mem_insert.1 hx with rfl | hx
        · have hu := hid u (.head us)
          unfold Before
          omega
        · exact hu x hx

end Timer

/-- **The timeline.** What fired, then what is pending, is in the order of the timers; the clock
stands between them, and `last` is the number of the timer that was set last. -/
structure Timeline {C : Type} (now : ℕ) (last : ℤ) (fired pending : List (Timer C)) : Prop where
  ordered : (fired ++ pending).Pairwise Timer.Before
  past : ∀ t ∈ fired, t.when ≤ now
  future : ∀ t ∈ pending, now ≤ t.when
  numbered : ∀ t ∈ fired ++ pending, t.id ≤ last

namespace Timeline

variable {C : Type} {now : ℕ} {last : ℤ} {fired pending pending' : List (Timer C)} {t : Timer C}

theorem start : Timeline 0 0 ([] : List (Timer C)) [] :=
  ⟨.nil, fun _ h => absurd h List.not_mem_nil, fun _ h => absurd h List.not_mem_nil,
    fun _ h => absurd h List.not_mem_nil⟩

theorem set (h : Timeline now last fired pending) {when : ℕ} (hwhen : now ≤ when) (cb : C) :
    Timeline now (last + 1) fired (Timer.insert ⟨when, last + 1, cb⟩ pending) := by
  obtain ⟨hfired, hpending, hcross⟩ := List.pairwise_append.1 h.ordered
  refine ⟨List.pairwise_append.2 ⟨hfired, ?_, fun a ha b hb => ?_⟩, h.past, fun u hu => ?_,
    fun u hu => ?_⟩
  · refine Timer.insert_pairwise hpending fun u hu => ?_
    exact Int.lt_add_one_of_le (h.numbered u (List.mem_append_right _ hu))
  · rcases Timer.mem_insert.1 hb with rfl | hb
    · have hpast := h.past a ha
      have hid := h.numbered a (List.mem_append_left _ ha)
      show a.when < when ∨ a.when = when ∧ a.id < last + 1
      omega
    · exact hcross a ha b hb
  · rcases Timer.mem_insert.1 hu with rfl | hu
    · exact hwhen
    · exact h.future u hu
  · rcases List.mem_append.1 hu with hu | hu
    · have hid := h.numbered u (List.mem_append_left _ hu)
      omega
    · rcases Timer.mem_insert.1 hu with rfl | hu
      · exact Int.le_refl (last + 1)
      · have hid := h.numbered u (List.mem_append_right _ hu)
        omega

theorem fire (h : Timeline now last fired (t :: pending)) :
    Timeline t.when last (fired ++ [t]) pending := by
  have hsame : fired ++ [t] ++ pending = fired ++ t :: pending := List.append_assoc _ _ _
  obtain ⟨-, hpending, -⟩ := List.pairwise_append.1 h.ordered
  obtain ⟨hfirst, -⟩ := List.pairwise_cons.1 hpending
  refine ⟨hsame ▸ h.ordered, fun u hu => ?_, fun u hu => (hfirst u hu).le, fun u hu => ?_⟩
  · rcases List.mem_append.1 hu with hu | hu
    · exact (h.past u hu).trans (h.future t (.head _))
    · rw [List.mem_singleton.1 hu]
  · exact h.numbered u (hsame ▸ hu)

theorem remove (h : Timeline now last fired pending) (hsub : pending'.Sublist pending) :
    Timeline now last fired pending' := by
  have hall := (List.Sublist.refl fired).append hsub
  exact ⟨h.ordered.sublist hall, h.past, fun u hu => h.future u (hsub.subset hu),
    fun u hu => h.numbered u (hall.subset hu)⟩

end Timeline
