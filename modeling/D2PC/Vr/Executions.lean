import D2PC.Vr.Handlers

/-!
# Operations are executed in order

`CommitUpTo` executes one operation after the other and counts them in `lastCommitted`, which
nothing else changes. So every replica executes the operations from the first one on, each of them
once, whatever it receives and however often it changes its view.

* `executions` : what a replica executed;
* `counted_steady` : what a handler executes is counted;
* `executions_numbered` : the numbers of what a replica executed.
-/

namespace D2PC.Vr

open Ctx Prog

variable {σ Op : Type}

/-- What a replica executed, in this order. -/
def executions (h : History Op) (i : ℕ) : List (ℕ × Request Op) :=
  h.filterMap fun x => if x.1 = .replica i then executedOf x.2 else none

section Executions

variable {h : History Op} {i k : ℕ} {req : Request Op}

theorem mem_executions : (k, req) ∈ executions h i ↔ (.replica i, .executed k req) ∈ h := by
  rw [executions, List.mem_filterMap]
  constructor
  · intro hx
    obtain ⟨x, hmem, hif⟩ := hx
    obtain ⟨n, e⟩ := x
    split_ifs at hif with hn
    cases e with
    | executed k' req' =>
        obtain ⟨rfl, rfl⟩ := Prod.mk.inj (Option.some.inj hif)
        have hn : n = .replica i := hn
        exact hn ▸ hmem
    | _ => cases hif
  · intro hmem
    exact ⟨_, hmem, if_pos rfl⟩

theorem executions_own (es : List (Event Op)) :
    executions (h ++ es.map ((.replica i : Node), ·)) i = executions h i ++ es.filterMap executedOf := by
  rw [executions, executions, List.filterMap_append, List.filterMap_map]
  congr 1
  refine List.filterMap_congr fun e _ => ?_
  exact if_pos rfl

theorem executions_other {n : Node} (hn : n ≠ .replica i) (es : List (Event Op)) :
    executions (h ++ es.map (n, ·)) i = executions h i := by
  have hnone : (es.map (n, ·)).filterMap
      (fun x : Node × Event Op => if x.1 = .replica i then executedOf x.2 else none) = [] := by
    refine List.filterMap_eq_nil_iff.2 fun x hx => ?_
    obtain ⟨e, -, rfl⟩ := List.mem_map.1 hx
    exact if_neg hn
  rw [executions, executions, List.filterMap_append, hnone, List.append_nil]

end Executions

namespace Replica

variable {env : Env σ Op} {first : ℕ}

/-- What was executed since `lastCommitted` was `first` has the numbers up to it. -/
def Counted (first : ℕ) (c : Ctx (Replica σ Op) Node (Msg Op) (Event Op)) : Prop :=
  first ≤ c.state.lastCommitted ∧ (c.events.filterMap executedOf).map Prod.fst =
    List.range' (first + 1) (c.state.lastCommitted - first)

/-- The same, when the replica died. -/
def CountedDead (first : ℕ) (c : Ctx (Replica σ Op) Node (Msg Op) (Event Op)) : Prop :=
  ∃ m, (c.events.filterMap executedOf).map Prod.fst = List.range' (first + 1) m

theorem Counted.dead {c : Ctx (Replica σ Op) Node (Msg Op) (Event Op)} (hc : Counted first c) :
    CountedDead first c := ⟨_, hc.2⟩

theorem update_counts {f : Replica σ Op → Replica σ Op}
    (hf : ∀ r, (f r).lastCommitted = r.lastCommitted) :
    Maintains (Counted first) (CountedDead first) (Ctx.update f : M σ Op Unit) := by
  intro c hc
  show first ≤ (f c.state).lastCommitted ∧ _ = List.range' _ ((f c.state).lastCommitted - first)
  rw [hf]
  exact hc

theorem emit_counts {e : Event Op} (he : executedOf e = none) :
    Maintains (Counted first) (CountedDead first) (Ctx.emit e : M σ Op Unit) := by
  intro c hc
  show _ ∧ ((c.events ++ [e]).filterMap executedOf).map Prod.fst = _
  rw [List.filterMap_append, List.filterMap_cons, he, List.filterMap_nil, List.append_nil]
  exact hc

/-- **The next operation** is executed and counted. -/
theorem commitNext_counts : Maintains (Counted first) (CountedDead first) (commitNext env) := by
  intro c hc
  obtain ⟨hle, hnumbers⟩ := hc
  rw [commitNext, wp_bind, wp_update, wp_bind, wp_read, wp_bind, wp_deref]
  refine ⟨fun entry _ => ?_, fun _ => ⟨_, hnumbers⟩⟩
  generalize env.app.replicaUpcall _ _ _ = up
  obtain ⟨res, app⟩ := up
  show wp (Ctx.emit _ >>= fun _ => Ctx.update _ >>= fun _ => _) _ _ _
  rw [wp_bind, wp_emit, wp_bind, wp_update]
  have hnext : ((c.events ++ [Event.executed (c.state.lastCommitted + 1) entry.request]).filterMap
      executedOf).map Prod.fst =
      List.range' (first + 1) (c.state.lastCommitted + 1 - first) := by
    have hcount : c.state.lastCommitted + 1 - first = c.state.lastCommitted - first + 1 := by omega
    have hlast : first + 1 + 1 * (c.state.lastCommitted - first) = c.state.lastCommitted + 1 := by
      omega
    rw [List.filterMap_append, List.map_append, hnumbers, hcount, List.range'_concat, hlast]
    rfl
  split
  · exact ⟨Nat.le_succ_of_le hle, hnext⟩
  · exact ⟨Nat.le_succ_of_le hle, hnext⟩

/-- **What a handler executes is counted.** -/
theorem counted_steady : Steady env (Counted first) (CountedDead first) where
  dead _ := Counted.dead
  update hf := update_counts fun r => congrArg Prod.fst (hf r)
  emit := emit_counts
  send _ _ hc := hc
  commit := commitNext_counts
  table _ := update_counts fun _ => rfl

theorem takeRequest_counts (remote : Node) (req : Request Op) :
    Maintains (Counted first) (CountedDead first) (takeRequest env remote req) := by
  refine .bind (update_counts fun _ => rfl) fun _ => .bind (.read _) fun r => ?_
  generalize env.app.leaderUpcall _ _ _ = up
  obtain ⟨⟨replicate, res⟩, app⟩ := up
  refine .bind (update_counts fun _ => rfl) fun _ => .ite ?_ (propose_steady counted_steady _ _)
  exact .bind (update_counts fun _ => rfl) fun _ => fun _ hc => hc

theorem handleRequest_counts (remote : Node) (req : Request Op) :
    Maintains (Counted first) (CountedDead first) (handleRequest env remote req) := by
  refine .bind (.read _) fun r => .when (.bind (update_counts fun _ => rfl) fun _ => ?_)
  cases r.clientTable.lookup req.clientid with
  | none => exact takeRequest_counts remote req
  | some entry =>
      refine .ite (.pure _) (.ite ?_ (takeRequest_counts remote req))
      obtain ⟨reqId, replied, reply⟩ := entry
      cases replied with
      | false => exact .pure _
      | true =>
          cases reply with
          | none => exact .pure _
          | some reply => exact fun _ hc => hc

end Replica

/-! ### Runs -/

variable {dep : Deployment σ Op}

/-- **A step**: what a replica executes in it has the next numbers. -/
theorem step_numbered {h : History Op} {i : ℕ} {r : Replica σ Op}
    (hr : (executions h i).map Prod.fst = List.range' 1 r.lastCommitted) (ω : Stray Op)
    (input : Input Node (Msg Op) (Act Op)) :
    wp (dep.handle (.replica i) ω input)
      (fun _ c => (executions (past h (.replica i) c) i).map Prod.fst =
        List.range' 1 c.state.lastCommitted)
      (fun c => ∃ m, (executions (past h (.replica i) c) i).map Prod.fst = List.range' 1 m)
      { state := r } := by
  have hstart : Replica.Counted r.lastCommitted
      ({ state := r } : Ctx (Replica σ Op) Node (Msg Op) (Event Op)) := by
    refine ⟨le_rfl, ?_⟩
    rw [Nat.sub_self]
    rfl
  have hpast : ∀ (c : Ctx (Replica σ Op) Node (Msg Op) (Event Op)) (m : ℕ),
      (c.events.filterMap executedOf).map Prod.fst = List.range' (r.lastCommitted + 1) m →
      (executions (past h (.replica i) c) i).map Prod.fst =
        List.range' 1 (r.lastCommitted + m) := by
    intro c m hm
    rw [past, executions_own, List.map_append, hr, hm, Nat.add_comm r.lastCommitted 1,
      List.range'_append_1]
  refine wp_mono (fun _ c hc => ?_) (fun c hc => ?_)
    (handle_steady Replica.counted_steady ω (fun _ _ _ _ => Replica.handleRequest_counts _ _) _
      hstart)
  · rw [hpast c _ hc.2, Nat.add_sub_cancel' hc.1]
  · obtain ⟨m, hm⟩ := hc
    exact ⟨_, hpast c m hm⟩

/-- What a process executed, whether it is alive or not. -/
def Ordered (h : History Op) : (n : Node) → State σ Op n → Prop
  | .replica i, _ => ∃ m, (executions h i).map Prod.fst = List.range' 1 m
  | .client _, _ => True

/-- What it executed while it is alive. -/
def UpToDate (h : History Op) : (n : Node) → State σ Op n → Prop
  | .replica i, r => (executions h i).map Prod.fst = List.range' 1 r.lastCommitted
  | .client _, _ => True

/-- **Operations are executed in order.** In every run each replica has executed the operations
from the first one on, each of them once; one that is alive has got to `lastCommitted`. -/
theorem executions_numbered (dep : Deployment σ Op) {w : GlobalState σ Op}
    (hw : dep.system.Reach (fun _ _ _ _ => True) w) (i : ℕ) :
    (∃ m, (executions w.history i).map Prod.fst = List.range' 1 m) ∧
      (w.crashed (.replica i) = false → (executions w.history i).map Prod.fst =
        List.range' 1 (w.state (.replica i) : Replica σ Op).lastCommitted) := by
  have hinv : (∀ n, Ordered w.history n (w.state n)) ∧
      (∀ n, w.crashed n = false → UpToDate w.history n (w.state n)) ∧ ∀ p ∈ w.net, True := by
    refine @Protocol.Reach.invariant_live _ _ _ _ _ _ _ _ _ _ Ordered UpToDate
      (fun _ _ => True) (fun n => ?_) (fun _ _ _ h => h)
      (fun h n n' es s hne hs => ?_) (fun h n n' es s hne hs => ?_) ?_ _ hw
    · cases n with
      | client c => exact ⟨trivial, trivial⟩
      | replica i => exact ⟨⟨0, rfl⟩, rfl⟩
    · cases n with
      | client c => trivial
      | replica i =>
          show ∃ m, (executions _ i).map Prod.fst = _
          rw [executions_other hne.symm]
          exact hs
    · cases n with
      | client c => trivial
      | replica i =>
          show (executions _ i).map Prod.fst = _
          rw [executions_other hne.symm]
          exact hs
    · intro w n ω input _ _ hlive _ _ _
      cases n with
      | client c =>
          exact wp_mono (fun _ _ _ => ⟨⟨trivial, trivial⟩, fun _ _ => trivial⟩)
            (fun _ _ => ⟨trivial, fun _ _ => trivial⟩)
            (wp_of_state (P := fun _ => True) trivial)
      | replica i =>
          refine wp_mono (fun _ c hc => ⟨⟨⟨_, hc⟩, hc⟩, fun _ _ => trivial⟩)
            (fun c hc => ⟨hc, fun _ _ => trivial⟩) (step_numbered hlive ω input)
  exact ⟨hinv.1 (.replica i), hinv.2.1 (.replica i)⟩

end D2PC.Vr
