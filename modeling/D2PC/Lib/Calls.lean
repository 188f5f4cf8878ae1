import Mathlib.Data.List.Induction
import Mathlib.Data.List.Infix

/-!
# Sequences of calls

A sequential object is a state and what each call makes of it. Statements about all
sequences of calls speak of the state a sequence leads to, and of the call since which
something holds.

* `Calls.run` : the state a sequence of calls leads to;
* `Calls.run_invariant` : what every call keeps holds throughout;
* `Calls.Throughout` : a condition on every call and the state it is made in;
* `Calls.Since` : a property holds since a certain call, made in a certain state;
* `Calls.Since.unique` : there is at most one such call.
-/

namespace Calls

variable {S O : Type} {step : S → O → S}

variable (step) in
/-- The state after a sequence of calls. -/
def run (s : S) (ops : List O) : S := ops.foldl step s

@[simp] theorem run_nil (s : S) : run step s [] = s := rfl

@[simp] theorem run_cons (s : S) (o : O) (ops : List O) :
    run step s (o :: ops) = run step (step s o) ops := rfl

theorem run_append (s : S) (ops ops' : List O) :
    run step s (ops ++ ops') = run step (run step s ops) ops' :=
  List.foldl_append

@[simp] theorem run_concat (s : S) (ops : List O) (o : O) :
    run step s (ops ++ [o]) = step (run step s ops) o := by
  rw [run_append]
  rfl

/-- **Run rule.** What every call of the sequence keeps holds after it. -/
theorem run_invariant {J : S → Prop} {s : S} (hs : J s) {ops : List O}
    (hstep : ∀ o ∈ ops, ∀ s, J s → J (step s o)) : J (run step s ops) := by
  induction ops generalizing s with
  | nil => exact hs
  | cons o ops ih =>
      rw [run_cons]
      apply ih
      · exact hstep o (List.mem_cons_self ..) s hs
      · intro o' ho'
        exact hstep o' (List.mem_cons_of_mem _ ho')

variable (step) in
/-- Every call of the sequence meets the condition in the state it is made in. -/
def Throughout (C : S → O → Prop) : S → List O → Prop
  | _, [] => True
  | s, o :: ops => C s o ∧ Throughout C (step s o) ops

instance Throughout.decidable {C : S → O → Prop} [∀ s o, Decidable (C s o)] :
    ∀ (s : S) (ops : List O), Decidable (Throughout step C s ops)
  | _, [] => inferInstanceAs (Decidable True)
  | s, o :: ops =>
      haveI := Throughout.decidable (C := C) (step s o) ops
      inferInstanceAs (Decidable (C s o ∧ Throughout step C (step s o) ops))

theorem throughout_concat {C : S → O → Prop} {s : S} {ops : List O} {o : O} :
    Throughout step C s (ops ++ [o]) ↔ Throughout step C s ops ∧ C (run step s ops) o := by
  induction ops generalizing s with
  | nil =>
      show C s o ∧ True ↔ True ∧ C s o
      exact and_comm
  | cons o' ops ih =>
      show C s o' ∧ Throughout step C (step s o') (ops ++ [o]) ↔ _
      rw [ih, ← and_assoc]
      rfl

theorem Throughout.mono {C C' : S → O → Prop} {s : S} {ops : List O}
    (h : Throughout step C s ops) (hC : ∀ s o, C s o → C' s o) : Throughout step C' s ops := by
  induction ops generalizing s with
  | nil => trivial
  | cons o ops ih => exact ⟨hC s o h.1, ih h.2⟩

/-- **Run rule under a condition.** What every call that meets the condition keeps holds after
the sequence. -/
theorem Throughout.invariant {C : S → O → Prop} {J : S → Prop} {s : S} {ops : List O}
    (h : Throughout step C s ops) (hs : J s) (hstep : ∀ s o, J s → C s o → J (step s o)) :
    J (run step s ops) := by
  induction ops generalizing s with
  | nil => exact hs
  | cons o ops ih =>
      obtain ⟨ho, hops⟩ := h
      rw [run_cons]
      exact ih hops (hstep s o hs ho)

variable (step) in
/-- `P` did not hold in the state `s`, and holds since the call `o` made in it. -/
def Since (P : S → Prop) (s₀ : S) (ops : List O) (o : O) (s : S) : Prop :=
  ∃ before after, ops = before ++ o :: after ∧ run step s₀ before = s ∧ ¬ P s ∧
    ∀ l, l <+: after → P (run step s₀ (before ++ o :: l))

variable {P : S → Prop} {s₀ s : S} {ops : List O} {o o' : O}

theorem Since.now (h : Since step P s₀ ops o s) : P (run step s₀ ops) := by
  obtain ⟨before, after, rfl, _, _, hafter⟩ := h
  exact hafter after (List.prefix_refl after)

theorem Since.start (hnot : ¬ P (run step s₀ ops)) (h : P (step (run step s₀ ops) o)) :
    Since step P s₀ (ops ++ [o]) o (run step s₀ ops) := by
  refine ⟨ops, [], rfl, rfl, hnot, ?_⟩
  intro l hl
  rw [List.prefix_nil.1 hl, run_concat]
  exact h

theorem Since.extend (h : Since step P s₀ ops o s) (hnow : P (run step s₀ (ops ++ [o']))) :
    Since step P s₀ (ops ++ [o']) o s := by
  obtain ⟨before, after, rfl, hs, hnot, hafter⟩ := h
  have hassoc : before ++ o :: after ++ [o'] = before ++ o :: (after ++ [o']) := by simp
  refine ⟨before, after ++ [o'], hassoc, hs, hnot, ?_⟩
  intro l hl
  rcases List.prefix_concat_iff.1 hl with rfl | hl
  · rw [← hassoc]
    exact hnow
  · exact hafter l hl

/-- The call and the state are determined: where the property holds throughout it cannot
begin again. -/
theorem Since.unique {s' : S} (h : Since step P s₀ ops o s) (h' : Since step P s₀ ops o' s') :
    o = o' ∧ s = s' := by
  -- a later beginning lies inside the stretch of the earlier one
  have hlater : ∀ {b a b' a' : List O} {o o' : O} {m : List O}, b ++ o :: a = b' ++ o' :: a' →
      b' = b ++ o :: m → (∀ l, l <+: a → P (run step s₀ (b ++ o :: l))) →
      P (run step s₀ b') := by
    intro b a b' a' o o' m heq hb hall
    subst hb
    apply hall
    rw [List.append_assoc, List.append_cancel_left_eq, List.cons_append, List.cons.injEq] at heq
    exact ⟨o' :: a', heq.2.symm⟩
  obtain ⟨b, a, heq, hs, hnot, hall⟩ := h
  obtain ⟨b', a', heq', hs', hnot', hall'⟩ := h'
  rw [heq] at heq'
  rcases List.append_eq_append_iff.1 heq' with ⟨m, hb, hm⟩ | ⟨m, hb, hm⟩
  · cases m with
    | nil =>
        rw [List.append_nil] at hb
        rw [List.nil_append, List.cons.injEq] at hm
        exact ⟨hm.1, by rw [← hs, ← hs', hb]⟩
    | cons c m =>
        rw [List.cons_append, List.cons.injEq] at hm
        rw [← hm.1] at hb
        exact absurd (hlater heq' hb hall) (by rw [hs']; exact hnot')
  · cases m with
    | nil =>
        rw [List.append_nil] at hb
        rw [List.nil_append, List.cons.injEq] at hm
        exact ⟨hm.1.symm, by rw [← hs, ← hs', hb]⟩
    | cons c m =>
        rw [List.cons_append, List.cons.injEq] at hm
        rw [← hm.1] at hb
        exact absurd (hlater heq'.symm hb hall') (by rw [hs]; exact hnot)

end Calls
