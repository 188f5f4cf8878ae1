import Mathlib.Order.Basic
import Mathlib.Order.Lattice
import Mathlib.Logic.Function.Basic
import Mathlib.Data.List.Nodup
import Mathlib.Data.List.Basic
import Mathlib.Tactic.Common

/-!
# Conflict serializability of multi-version schedules

A transaction reads versions of keys and writes keys; a committed transaction writes them
at one time. Two committed transactions conflict when both write a key, or one reads a key
the other writes, and the times say in which order. A set of committed transactions is
serializable when there is a serial order that agrees with every conflict.

The second half is a scheduler that guarantees it. Transactions are admitted one after the
other, with what they read being current and with no write of an active transaction among
what they touch; they commit in any order. The order of admission is then a serial order.

* `Serializable`, `Serializable.no_lost_update`;
* `Sched.Step.inv` : one step of the scheduler keeps its invariant;
* `Sched.Inv.serializable` : the invariant gives the serial order.
-/

namespace Serial

variable {K T X : Type} [LinearOrder T]

/-- What a transaction reads, with the version, and what it writes. -/
structure Access (K T : Type) where
  reads : K → Option T
  writes : K → Prop

/-- A committed transaction: its writes carry the time `time`. -/
structure Committed (K T : Type) extends Access K T where
  time : T

/-- `a` comes before `b` on some key. -/
inductive Conflict (a b : Committed K T) : Prop
  | ww (k : K) : a.writes k → b.writes k → a.time < b.time → Conflict a b
  | wr (k : K) (v : T) : a.writes k → b.reads k = some v → a.time ≤ v → Conflict a b
  | rw (k : K) (v : T) : a.reads k = some v → b.writes k → v < b.time → Conflict a b

/-- Some serial order of the transactions agrees with every conflict. -/
def Serializable (l : List (Committed K T)) : Prop :=
  ∃ rank : Fin l.length → ℕ, Function.Injective rank ∧
    ∀ i j, i ≠ j → Conflict (l.get i) (l.get j) → rank i < rank j

/-- Two transactions that read the same version of a key and overwrite it conflict both
ways. -/
theorem Serializable.no_lost_update {l : List (Committed K T)} (h : Serializable l)
    {i j : Fin l.length} (hij : i ≠ j) {k : K} {v : T}
    (hi : (l.get i).reads k = some v) (hj : (l.get j).reads k = some v)
    (hwi : (l.get i).writes k) (hwj : (l.get j).writes k)
    (hti : v < (l.get i).time) (htj : v < (l.get j).time) : False := by
  obtain ⟨rank, -, hrank⟩ := h
  have h₁ := hrank i j hij (.rw k v hi hwj htj)
  have h₂ := hrank j i hij.symm (.rw k v hj hwi hti)
  exact lt_asymm h₁ h₂

/-! ### The scheduler -/

/-- An admitted transaction with its place in the order of admission. -/
structure Entry (K T : Type) extends Access K T where
  rank : ℕ

/-- The active transactions by slot, the committed ones in the order of their commits, and
the next rank. -/
structure Sched (X K T : Type) where
  active : X → Option (Entry K T)
  committed : List (ℕ × Committed K T)
  next : ℕ

/-- A transaction may be admitted when nothing it read was overwritten by a committed
transaction, and no active transaction writes what it touches. -/
structure Admits (s : Sched X K T) (a : Access K T) : Prop where
  current : ∀ k v, a.reads k = some v → ∀ c ∈ s.committed, c.2.writes k → c.2.time ≤ v
  apart : ∀ x e, s.active x = some e → ∀ k, e.writes k → ¬ a.writes k ∧ a.reads k = none

/-- A commit time is later than every commit and every version read so far. -/
structure Later (s : Sched X K T) (t : T) : Prop where
  commits : ∀ c ∈ s.committed, c.2.time < t
  reads : ∀ c ∈ s.committed, ∀ k v, c.2.reads k = some v → v < t
  activeReads : ∀ x e, s.active x = some e → ∀ k v, e.reads k = some v → v < t

variable [DecidableEq X]

inductive Sched.Step : Sched X K T → Sched X K T → Prop
  | enter {s : Sched X K T} (x : X) (a : Access K T) : Admits s a →
      Step s { s with active := Function.update s.active x (some ⟨a, s.next⟩), next := s.next + 1 }
  | drop {s : Sched X K T} (x : X) : Step s { s with active := Function.update s.active x none }
  | move {s : Sched X K T} (x y : X) :
      Step s { s with
        active := Function.update (Function.update s.active y (s.active x)) x none }
  | commit {s : Sched X K T} (x : X) (e : Entry K T) (t : T) : s.active x = some e → Later s t →
      Step s { s with
        active := Function.update s.active x none
        committed := s.committed ++ [(e.rank, ⟨e.toAccess, t⟩)] }

/-- **The invariant.** Of two active transactions the later touches no write of the
earlier; an active transaction is ranked against the committed ones as its reads and its
future writes demand; committed conflicts follow the ranks. -/
structure Sched.Inv (s : Sched X K T) : Prop where
  pair : ∀ x y ex ey, s.active x = some ex → s.active y = some ey → ex.rank < ey.rank →
    ∀ k, ex.writes k → ¬ ey.writes k ∧ ey.reads k = none
  inj : ∀ x y ex ey, s.active x = some ex → s.active y = some ey → ex.rank = ey.rank → x = y
  activeLt : ∀ x e, s.active x = some e → e.rank < s.next
  committedLt : ∀ c ∈ s.committed, c.1 < s.next
  disjoint : ∀ x e, s.active x = some e → ∀ c ∈ s.committed, c.1 ≠ e.rank
  writeAfter : ∀ x e, s.active x = some e → ∀ c ∈ s.committed, ∀ k, e.writes k →
    (c.2.writes k ∨ c.2.reads k ≠ none) → c.1 < e.rank
  readAfter : ∀ x e, s.active x = some e → ∀ c ∈ s.committed, ∀ k v, e.reads k = some v →
    c.2.writes k → c.2.time ≤ v → c.1 < e.rank
  readBefore : ∀ x e, s.active x = some e → ∀ c ∈ s.committed, ∀ k v, e.reads k = some v →
    c.2.writes k → v < c.2.time → e.rank < c.1
  nodup : (s.committed.map Prod.fst).Nodup
  order : ∀ c ∈ s.committed, ∀ d ∈ s.committed, c.1 ≠ d.1 → Conflict c.2 d.2 → c.1 < d.1

namespace Sched

omit [DecidableEq X] in
/-- Fewer active transactions, with the entries in possibly other slots. -/
theorem Inv.of_active {s s' : Sched X K T} (h : s.Inv) (f : X → X)
    (hf : ∀ x e, s'.active x = some e → s.active (f x) = some e)
    (hinj : ∀ x y e, s'.active x = some e → s'.active y = some e → f x = f y → x = y)
    (hc : s'.committed = s.committed) (hn : s'.next = s.next) : s'.Inv where
  pair x y ex ey hx hy := h.pair _ _ ex ey (hf x ex hx) (hf y ey hy)
  inj x y ex ey hx hy hr := by
    have hxy := h.inj _ _ ex ey (hf x ex hx) (hf y ey hy) hr
    have hex := hf x ex hx
    rw [hxy, hf y ey hy] at hex
    cases hex
    exact hinj x y ex hx hy hxy
  activeLt x e hx := by rw [hn]; exact h.activeLt _ e (hf x e hx)
  committedLt := by rw [hc, hn]; exact h.committedLt
  disjoint x e hx := by rw [hc]; exact h.disjoint _ e (hf x e hx)
  writeAfter x e hx := by rw [hc]; exact h.writeAfter _ e (hf x e hx)
  readAfter x e hx := by rw [hc]; exact h.readAfter _ e (hf x e hx)
  readBefore x e hx := by rw [hc]; exact h.readBefore _ e (hf x e hx)
  nodup := by rw [hc]; exact h.nodup
  order := by rw [hc]; exact h.order

omit [LinearOrder T] in
theorem update_none {f : X → Option (Entry K T)} {x y : X} {e : Entry K T}
    (h : Function.update f x none y = some e) : y ≠ x ∧ f y = some e := by
  by_cases hy : y = x
  · rw [hy, Function.update_self] at h; cases h
  · rw [Function.update_of_ne hy] at h; exact ⟨hy, h⟩

theorem Inv.drop {s : Sched X K T} (h : s.Inv) (x : X) :
    Inv { s with active := Function.update s.active x none } :=
  h.of_active id (fun _ _ hy => (update_none hy).2) (fun _ _ _ _ _ => id) rfl rfl

theorem Inv.move {s : Sched X K T} (h : s.Inv) (x y : X) :
    Inv { s with
      active := Function.update (Function.update s.active y (s.active x)) x none } := by
  -- an entry found in `y` came from `x`, which is now empty
  refine h.of_active (fun z => if z = y then x else z) (fun z e hz => ?_)
    (fun z z' e hz hz' heq => ?_) rfl rfl
  · obtain ⟨hzx, hz⟩ := update_none hz
    split_ifs with hzy
    · rwa [hzy, Function.update_self] at hz
    · rwa [Function.update_of_ne hzy] at hz
  · have hzx := (update_none hz).1
    have hzx' := (update_none hz').1
    split_ifs at heq with h₁ h₂ h₂
    · rw [h₁, h₂]
    · exact absurd heq.symm hzx'
    · exact absurd heq hzx
    · exact heq

theorem Inv.enter {s : Sched X K T} (h : s.Inv) (x : X) {a : Access K T} (ha : Admits s a) :
    Inv { s with active := Function.update s.active x (some ⟨a, s.next⟩), next := s.next + 1 } := by
  have hcases : ∀ y e, Function.update s.active x (some ⟨a, s.next⟩) y = some e →
      (y = x ∧ e = ⟨a, s.next⟩) ∨ (y ≠ x ∧ s.active y = some e) := by
    intro y e hy
    by_cases hyx : y = x
    · rw [hyx, Function.update_self] at hy
      exact .inl ⟨hyx, (Option.some.inj hy).symm⟩
    · rw [Function.update_of_ne hyx] at hy
      exact .inr ⟨hyx, hy⟩
  refine ⟨?_, ?_, ?_, ?_, ?_, ?_, ?_, ?_, h.nodup, h.order⟩
  · intro y z ey ez hy hz hlt k hk
    rcases hcases y ey hy with ⟨-, rfl⟩ | ⟨-, hy'⟩ <;>
      rcases hcases z ez hz with ⟨-, rfl⟩ | ⟨-, hz'⟩
    · exact absurd hlt (lt_irrefl _)
    · exact absurd hlt (lt_asymm (h.activeLt z ez hz'))
    · exact ha.apart y ey hy' k hk
    · exact h.pair y z ey ez hy' hz' hlt k hk
  · intro y z ey ez hy hz heq
    rcases hcases y ey hy with ⟨hyx, rfl⟩ | ⟨-, hy'⟩ <;>
      rcases hcases z ez hz with ⟨hzx, rfl⟩ | ⟨-, hz'⟩
    · exact hyx.trans hzx.symm
    · exact absurd heq (ne_of_gt (h.activeLt z ez hz'))
    · exact absurd heq (ne_of_lt (h.activeLt y ey hy'))
    · exact h.inj y z ey ez hy' hz' heq
  · intro y e hy
    rcases hcases y e hy with ⟨rfl, rfl⟩ | ⟨hyx, hy⟩
    · exact Nat.lt_succ_self _
    · exact Nat.lt_succ_of_lt (h.activeLt y e hy)
  · exact fun c hc => Nat.lt_succ_of_lt (h.committedLt c hc)
  · intro y e hy c hc
    rcases hcases y e hy with ⟨rfl, rfl⟩ | ⟨hyx, hy⟩
    · exact ne_of_lt (h.committedLt c hc)
    · exact h.disjoint y e hy c hc
  · intro y e hy c hc k hk htouch
    rcases hcases y e hy with ⟨rfl, rfl⟩ | ⟨hyx, hy⟩
    · exact h.committedLt c hc
    · exact h.writeAfter y e hy c hc k hk htouch
  · intro y e hy c hc k v hread hwrite hle
    rcases hcases y e hy with ⟨rfl, rfl⟩ | ⟨hyx, hy⟩
    · exact h.committedLt c hc
    · exact h.readAfter y e hy c hc k v hread hwrite hle
  · intro y e hy c hc k v hread hwrite hlt
    rcases hcases y e hy with ⟨rfl, rfl⟩ | ⟨hyx, hy⟩
    · exact absurd hlt (not_lt.2 (ha.current k v hread c hc hwrite))
    · exact h.readBefore y e hy c hc k v hread hwrite hlt

theorem Inv.commit {s : Sched X K T} (h : s.Inv) {x : X} {e : Entry K T} {t : T}
    (hx : s.active x = some e) (ht : Later s t) :
    Inv { s with
      active := Function.update s.active x none
      committed := s.committed ++ [(e.rank, ⟨e.toAccess, t⟩)] } := by
  have hmem : ∀ c : ℕ × Committed K T, c ∈ s.committed ++ [(e.rank, ⟨e.toAccess, t⟩)] →
      c ∈ s.committed ∨ c = (e.rank, ⟨e.toAccess, t⟩) := by
    intro c hc
    simpa using hc
  -- another active transaction against the one that commits
  have hother : ∀ y f, Function.update s.active x none y = some f →
      s.active y = some f ∧ (f.rank < e.rank ∨ e.rank < f.rank) := by
    intro y f hy
    obtain ⟨hyx, hy⟩ := update_none hy
    exact ⟨hy, lt_or_gt_of_ne fun heq => hyx (h.inj y x f e hy hx heq)⟩
  refine ⟨?_, ?_, ?_, ?_, ?_, ?_, ?_, ?_, ?_, ?_⟩
  · exact fun y z ey ez hy hz => h.pair y z ey ez (update_none hy).2 (update_none hz).2
  · exact fun y z ey ez hy hz => h.inj y z ey ez (update_none hy).2 (update_none hz).2
  · exact fun y f hy => h.activeLt y f (update_none hy).2
  · intro c hc
    rcases hmem c hc with hc | rfl
    · exact h.committedLt c hc
    · exact h.activeLt x e hx
  · intro y f hy c hc
    rcases hmem c hc with hc | rfl
    · exact h.disjoint y f (update_none hy).2 c hc
    · obtain ⟨-, hlt | hlt⟩ := hother y f hy
      · exact ne_of_gt hlt
      · exact ne_of_lt hlt
  · intro y f hy c hc k hk htouch
    rcases hmem c hc with hc | rfl
    · exact h.writeAfter y f (update_none hy).2 c hc k hk htouch
    · obtain ⟨hy, hlt | hlt⟩ := hother y f hy
      · -- `f` came first and writes `k`, so `e` does not touch it
        obtain ⟨hnw, hnr⟩ := h.pair y x f e hy hx hlt k hk
        exact absurd htouch (not_or.2 ⟨hnw, fun hne => hne hnr⟩)
      · exact hlt
  · intro y f hy c hc k v hread hwrite hle
    rcases hmem c hc with hc | rfl
    · exact h.readAfter y f (update_none hy).2 c hc k v hread hwrite hle
    · exact absurd hle (not_le.2 (ht.activeReads y f (update_none hy).2 k v hread))
  · intro y f hy c hc k v hread hwrite hlt
    rcases hmem c hc with hc | rfl
    · exact h.readBefore y f (update_none hy).2 c hc k v hread hwrite hlt
    · obtain ⟨hy, hrank | hrank⟩ := hother y f hy
      · exact hrank
      · have hnr := (h.pair x y e f hx hy hrank k hwrite).2
        rw [hread] at hnr
        cases hnr
  · rw [List.map_append, List.nodup_append]
    refine ⟨h.nodup, by simp, fun a ha b hb => ?_⟩
    obtain ⟨c, hc, rfl⟩ := List.mem_map.1 ha
    have hb' : b = e.rank := by simpa using hb
    rw [hb']
    exact h.disjoint x e hx c hc
  · intro c hc d hd hne hconf
    rcases hmem c hc with hc | rfl <;> rcases hmem d hd with hd | rfl
    · exact h.order c hc d hd hne hconf
    · cases hconf with
      | ww k hcw hew _ => exact h.writeAfter x e hx c hc k hew (.inl hcw)
      | wr k v hcw her hle => exact h.readAfter x e hx c hc k v her hcw hle
      | rw k v hcr hew _ =>
          refine h.writeAfter x e hx c hc k hew (.inr ?_)
          rw [hcr]
          exact Option.some_ne_none v
    · cases hconf with
      | ww k _ _ hlt => exact absurd hlt (lt_asymm (ht.commits d hd))
      | wr k v _ hdr hle => exact absurd hle (not_le.2 (ht.reads d hd k v hdr))
      | rw k v her hdw hlt => exact h.readBefore x e hx d hd k v her hdw hlt
    · exact absurd rfl hne

/-- **One step.** -/
theorem Step.inv {s s' : Sched X K T} (hstep : Step s s') (h : s.Inv) : s'.Inv := by
  cases hstep with
  | enter x a ha => exact h.enter x ha
  | drop x => exact h.drop x
  | move x y => exact h.move x y
  | commit x e t hx ht => exact h.commit hx ht

omit [DecidableEq X] in
theorem inv_empty : Inv (⟨fun _ => none, [], 0⟩ : Sched X K T) := by
  refine ⟨?_, ?_, ?_, ?_, ?_, ?_, ?_, ?_, List.nodup_nil, ?_⟩ <;> simp

omit [DecidableEq X] in
/-- **The order of admission is a serial order.** -/
theorem Inv.serializable {s : Sched X K T} (h : s.Inv) :
    Serializable (s.committed.map Prod.snd) := by
  have hlen : (s.committed.map Prod.snd).length = (s.committed.map Prod.fst).length := by simp
  have hcast : ∀ {i j : Fin (s.committed.map Prod.snd).length},
      i.cast hlen = j.cast hlen → i = j := by
    intro i j h
    exact Fin.ext (by simpa [Fin.ext_iff] using h)
  refine ⟨fun i => (s.committed.map Prod.fst).get (i.cast hlen), fun i j hij => ?_,
    fun i j hij hconf => ?_⟩
  · exact hcast (List.nodup_iff_injective_get.1 h.nodup hij)
  · have hne : (s.committed.map Prod.fst).get (i.cast hlen) ≠
        (s.committed.map Prod.fst).get (j.cast hlen) := by
      intro heq
      exact hij (hcast (List.nodup_iff_injective_get.1 h.nodup heq))
    simp only [List.get_eq_getElem, List.getElem_map, Fin.val_cast] at hconf hne ⊢
    exact h.order _ (List.getElem_mem _) _ (List.getElem_mem _) hne hconf

end Sched

end Serial
