import Mathlib.Logic.Basic
import Mathlib.Tactic.SplitIfs

/-!
# Imperative handlers that may die

A message handler of a server reads and writes one mutable state and either returns or
kills the process (a null dereference). `Prog σ α` is such a handler as a state
transformer: the state reached is kept in both outcomes, since what was sent before the
process died has been sent.

Properties of handlers are stated with the weakest precondition `Prog.wp x Q D s`: run
from `s`, the handler ends in `Q` if it returns and in `D` if it dies. The `simp` lemmas
push `wp` through the program text, so that a proof about a handler is a case analysis of
its branches.

* `Prog.wp_bind`, `Prog.wp_modify`, `Prog.wp_when`, ... : one rule for each construct;
* `Prog.wp_mono` : the rule of consequence;
* `Prog.wp_forM` : the invariant rule for loops over a list;
* `Prog.bind_agree`, `Prog.forM_agree` : handlers that do the same from the states of interest;
* `Prog.Keeps` : an invariant of a handler, with one rule for each construct.
-/

/-- What a handler ends in: a value with the state reached, or a dead process. -/
inductive Result (σ α : Type) where
  | done (a : α) (s : σ)
  | dead (s : σ)

/-- The state reached, whatever the outcome. -/
def Result.state {σ α : Type} : Result σ α → σ
  | .done _ s => s
  | .dead s => s

/-- The process did not survive the handler. -/
def Result.isDead {σ α : Type} : Result σ α → Bool
  | .done _ _ => false
  | .dead _ => true

/-- A handler over the mutable state `σ` that returns an `α`. -/
def Prog (σ α : Type) : Type := σ → Result σ α

namespace Prog

variable {σ τ α β : Type}

instance : Monad (Prog σ) where
  pure a := fun s => .done a s
  bind x f := fun s =>
    match x s with
    | .done a s' => f a s'
    | .dead s' => .dead s'

/-- Read a part of the state. -/
def gets (f : σ → α) : Prog σ α := fun s => .done (f s) s

/-- Update the state. -/
def modify (f : σ → σ) : Prog σ Unit := fun s => .done () (f s)

/-- The process dies here. -/
def crash : Prog σ α := fun s => .dead s

/-- A conditional without an `else` branch. -/
def when (c : Bool) (x : Prog σ Unit) : Prog σ Unit := if c then x else pure ()

/-- Dereference a pointer that was looked up: a null pointer kills the process. -/
def deref : Option α → Prog σ α
  | some a => pure a
  | none => crash

/-- **Weakest precondition.** From `s` the handler returns in `Q` or dies in `D`. -/
def wp (x : Prog σ α) (Q : α → σ → Prop) (D : σ → Prop) (s : σ) : Prop :=
  match x s with
  | .done a s' => Q a s'
  | .dead s' => D s'

variable {Q Q' : α → σ → Prop} {D D' : σ → Prop} {s : σ}

@[simp] theorem wp_pure (a : α) : wp (pure a : Prog σ α) Q D s ↔ Q a s := Iff.rfl

@[simp] theorem wp_gets (f : σ → α) : wp (gets f) Q D s ↔ Q (f s) s := Iff.rfl

@[simp] theorem wp_modify {Q : Unit → σ → Prop} (f : σ → σ) :
    wp (modify f) Q D s ↔ Q () (f s) := Iff.rfl

@[simp] theorem wp_crash : wp (crash : Prog σ α) Q D s ↔ D s := Iff.rfl

@[simp] theorem wp_bind {R : β → σ → Prop} (x : Prog σ α) (f : α → Prog σ β) :
    wp (x >>= f) R D s ↔ wp x (fun a s' => wp (f a) R D s') D s := by
  simp only [wp, bind]
  cases x s <;> rfl

@[simp] theorem wp_ite (c : Prop) [Decidable c] (x y : Prog σ α) :
    wp (if c then x else y) Q D s ↔ (c → wp x Q D s) ∧ (¬ c → wp y Q D s) := by
  by_cases h : c <;> simp [h]

@[simp] theorem wp_when {Q : Unit → σ → Prop} (c : Bool) (x : Prog σ Unit) :
    wp (when c x) Q D s ↔ (c = true → wp x Q D s) ∧ (c = false → Q () s) := by
  cases c <;> simp [when]

@[simp] theorem wp_deref (o : Option α) :
    wp (deref o) Q D s ↔ (∀ a, o = some a → Q a s) ∧ (o = none → D s) := by
  cases o <;> simp [deref]

theorem wp_deref_some (a : α) : wp (deref (some a)) Q D s ↔ Q a s := Iff.rfl

theorem wp_deref_none : wp (deref (none : Option α)) Q D s ↔ D s := Iff.rfl

/-- **Consequence.** -/
theorem wp_mono {x : Prog σ α} (hQ : ∀ a s, Q a s → Q' a s) (hD : ∀ s, D s → D' s)
    (h : wp x Q D s) : wp x Q' D' s := by
  unfold wp at h ⊢
  cases hx : x s with
  | done a s' => rw [hx] at h; exact hQ a s' h
  | dead s' => rw [hx] at h; exact hD s' h

/-- Two specifications of one program. -/
theorem wp_and {x : Prog σ α} (h : wp x Q D s) (h' : wp x Q' D' s) :
    wp x (fun a s => Q a s ∧ Q' a s) (fun s => D s ∧ D' s) s := by
  unfold wp at *
  split at h
  · exact ⟨h, by simpa [*] using h'⟩
  · exact ⟨h, by simpa [*] using h'⟩

/-- **Loop rule.** An invariant that every iteration keeps, and that a dying iteration
turns into `D`, holds after the loop. -/
theorem wp_forM {l : List β} {f : β → Prog σ PUnit} {I : σ → Prop}
    (hbody : ∀ b ∈ l, ∀ s, I s → wp (f b) (fun _ => I) D s) (h : I s) :
    wp (l.forM f) (fun _ => I) D s := by
  induction l generalizing s with
  | nil => exact h
  | cons b l ih =>
      show wp (f b >>= fun _ => l.forM f) _ _ s
      rw [wp_bind]
      refine wp_mono (fun _ s' hs' => ?_) (fun _ hs' => hs')
        (hbody b (List.mem_cons_self ..) s h)
      exact ih (fun b' hb' => hbody b' (List.mem_cons_of_mem _ hb')) hs'

/-- **Two continuations.** Continuations that do the same from wherever `x` returns. -/
theorem bind_agree {x : Prog σ α} {f g : α → Prog σ β}
    (h : wp x (fun a s' => f a s' = g a s') (fun _ => True) s) : (x >>= f) s = (x >>= g) s := by
  simp only [bind]
  unfold wp at h
  cases hx : x s with
  | done a s' => rw [hx] at h; exact h
  | dead s' => rfl

/-- **Two loops.** Loops whose iterations do the same from every state of an invariant do the
same. -/
theorem forM_agree {l : List β} {f g : β → Prog σ PUnit} {I : σ → Prop}
    (hbody : ∀ b ∈ l, ∀ s, I s → f b s = g b s ∧ wp (g b) (fun _ => I) D s) (h : I s) :
    l.forM f s = l.forM g s ∧ wp (l.forM g) (fun _ => I) D s := by
  refine ⟨?_, wp_forM (fun b hb s hs => (hbody b hb s hs).2) h⟩
  induction l generalizing s with
  | nil => rfl
  | cons b l ih =>
      obtain ⟨heq, hwp⟩ := hbody b (List.mem_cons_self ..) s h
      have hhead : (f b >>= fun _ => l.forM f) s = (g b >>= fun _ => l.forM f) s := by
        simp only [bind, heq]
      refine hhead.trans (bind_agree (wp_mono (fun _ s' hs' => ?_) (fun _ _ => trivial) hwp))
      exact ih (fun b' hb' => hbody b' (List.mem_cons_of_mem _ hb')) hs'

/-- **Loop rule with progress.** Every iteration establishes its own fact, and no iteration
ends the fact of another. -/
theorem wp_forM_each {l : List β} {f : β → Prog σ PUnit} {I : σ → Prop} {P : β → σ → Prop}
    (hbody : ∀ b ∈ l, ∀ s, I s →
      wp (f b) (fun _ s' => I s' ∧ P b s' ∧ ∀ b' ∈ l, P b' s → P b' s') D s) (h : I s) :
    wp (l.forM f) (fun _ s' => I s' ∧ ∀ b ∈ l, P b s') D s := by
  -- the facts of the iterations that are done
  have hdone : ∀ l' : List β, (∀ b ∈ l', b ∈ l) → ∀ (done : List β) (s : σ),
      (∀ b ∈ done, b ∈ l) → I s → (∀ b ∈ done, P b s) →
      wp (l'.forM f) (fun _ s' => I s' ∧ (∀ b ∈ done, P b s') ∧ ∀ b ∈ l', P b s') D s := by
    intro l'
    induction l' with
    | nil => exact fun _ done s _ hI hP => ⟨hI, hP, fun b hb => absurd hb List.not_mem_nil⟩
    | cons b l' ih =>
        intro hl' done s hd hI hP
        show wp (f b >>= fun _ => l'.forM f) _ _ s
        rw [wp_bind]
        refine wp_mono (fun _ s' hs' => ?_) (fun _ hs' => hs')
          (hbody b (hl' b (List.mem_cons_self ..)) s hI)
        obtain ⟨hI', hb, hkeep⟩ := hs'
        refine wp_mono (fun _ s'' hs'' => ?_) (fun _ hs'' => hs'')
          (ih (fun c hc => hl' c (List.mem_cons_of_mem _ hc)) (b :: done) s' ?_ hI' ?_)
        · obtain ⟨hI'', hall, hrest⟩ := hs''
          refine ⟨hI'', fun c hc => hall c (List.mem_cons_of_mem _ hc), fun c hc => ?_⟩
          rcases List.mem_cons.1 hc with rfl | hc
          · exact hall c (List.mem_cons_self ..)
          · exact hrest c hc
        · intro c hc
          rcases List.mem_cons.1 hc with rfl | hc
          · exact hl' c (List.mem_cons_self ..)
          · exact hd c hc
        · intro c hc
          rcases List.mem_cons.1 hc with rfl | hc
          · exact hb
          · exact hkeep c (hd c hc) (hP c hc)
  refine wp_mono (fun _ s' hs' => ⟨hs'.1, hs'.2.2⟩) (fun _ hs' => hs')
    (hdone l (fun _ hb => hb) [] s (fun b hb => absurd hb List.not_mem_nil) h
      fun b hb => absurd hb List.not_mem_nil)

/-! ### Invariants of a handler -/

/-- Run from a state in `I`, the handler ends in `I`, whether it returns or dies. -/
def Keeps (I : σ → Prop) (x : Prog σ α) : Prop := ∀ s, I s → wp x (fun _ => I) I s

section Keeps

variable {I : σ → Prop} {x : Prog σ α}

theorem Keeps.pure (a : α) : Keeps I (Pure.pure a : Prog σ α) := fun _ hs => hs

theorem Keeps.gets (f : σ → α) : Keeps I (gets f) := fun _ hs => hs

theorem Keeps.crash : Keeps I (crash : Prog σ α) := fun _ hs => hs

theorem Keeps.modify {f : σ → σ} (hf : ∀ s, I s → I (f s)) : Keeps I (modify f) := hf

theorem Keeps.deref (o : Option α) : Keeps I (deref o) := by
  cases o with
  | none => exact .crash
  | some a => exact .pure a

theorem Keeps.bind {f : α → Prog σ β} (hx : Keeps I x) (hf : ∀ a, Keeps I (f a)) :
    Keeps I (x >>= f) := by
  intro s hs
  rw [wp_bind]
  exact wp_mono (fun a s' hs' => hf a s' hs') (fun _ hs' => hs') (hx s hs)

theorem Keeps.ite {c : Prop} [Decidable c] {y : Prog σ α} (hx : Keeps I x) (hy : Keeps I y) :
    Keeps I (if c then x else y) := by
  split_ifs
  · exact hx
  · exact hy

theorem Keeps.when {c : Bool} {x : Prog σ Unit} (hx : Keeps I x) : Keeps I (when c x) :=
  .ite hx (.pure ())

theorem Keeps.forM {l : List β} {f : β → Prog σ PUnit} (hf : ∀ b ∈ l, Keeps I (f b)) :
    Keeps I (l.forM f) :=
  fun _ hs => wp_forM hf hs

end Keeps

/-- The two ways a run ends. -/
theorem wp_cases {x : Prog σ α} (h : wp x Q D s) :
    (∃ a s', x s = .done a s' ∧ Q a s') ∨ ∃ s', x s = .dead s' ∧ D s' := by
  unfold wp at h
  cases hx : x s with
  | done a s' => rw [hx] at h; exact .inl ⟨a, s', rfl, h⟩
  | dead s' => rw [hx] at h; exact .inr ⟨s', rfl, h⟩

/-- The outcome of a run satisfies what its weakest precondition promises. -/
theorem wp_state {x : Prog σ α} {P : σ → Prop} (h : wp x (fun _ => P) P s) : P (x s).state := by
  unfold wp at h
  cases hx : x s with
  | done a s' => rw [hx] at h; exact h
  | dead s' => rw [hx] at h; exact h

theorem wp_of_state {x : Prog σ α} {P : σ → Prop} (h : P (x s).state) : wp x (fun _ => P) P s := by
  unfold wp
  cases hx : x s with
  | done a s' => rw [hx] at h; exact h
  | dead s' => rw [hx] at h; exact h

end Prog
