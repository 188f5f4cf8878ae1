import D2PC.Vr.Batches
import D2PC.Vr.Executions
import D2PC.Vr.ViewChanges

/-!
# The replicas agree

The replicas execute the same requests in the same order, across any number of view changes, in the
runs whose steps keep the views in order. The code lets steps happen that do not: it takes the view
of the last entry of a log for the last view in which the replica was normal, leaves what is behind
a state transfer in the log, and lets a leader count its own `PrepareOK`.

* `Orderly` : the steps that keep the views in order;
* `orderly_running` : the invariant of the runs of such steps;
* `executed_agree` : no two replicas execute different requests under one number;
* `executions_prefix` : of two replicas one has executed what the other has, and maybe more;
* `executed_kept` : what was executed is in the logs of the views from then on.
-/

namespace D2PC.Vr

open Ctx Prog Vr.Replica

variable {σ Op : Type} {dep : Deployment σ Op}

/-- **The steps that keep the views in order.** No replica is told of itself that it has an
operation; a transfer goes on with the log of the replica; a view starts with a log that connects;
and the log of a view change is chosen from those of the latest view, and read from the message it
was chosen for. -/
def Orderly (dep : Deployment σ Op) (w : GlobalState σ Op) (n : Node) (stray : Stray Op)
    (input : Input Node (Msg Op) (Act Op)) : Prop :=
  match n, input with
  | .replica i, .recv p =>
      let r : Replica σ Op := w.state (.replica i)
      match p.msg with
      | .prepareOK _ _ j => j ≠ i
      | .stateTransfer m => r.view ≤ m.view → Continues r m
      | .startView m => Accepts r m.view → Connects r m
      | .doViewChange m => Accepts r m.view →
          FromLatest (dep.env i) w.history r m ∧ ReadsChosen (dep.env i) stray r m
      | _ => True
  | _, _ => True

instance [DecidableEq Op] {r : Replica σ Op} {m : StateTransfer Op} : Decidable (Continues r m) :=
  decidable_of_iff ((m.view = r.view → r.status = .normal ∧
      (takenOver r m.entries ≠ [] → r.lastOp ≤ transferEnd r m.entries)) ∧
    (r.view < m.view → takenOver r m.entries = [] → r.lastOp ≤ transferEnd r m.entries))
    ⟨fun h => ⟨h.1, h.2⟩, fun h => ⟨h.1, h.2⟩⟩

instance [DecidableEq Op] {r : Replica σ Op} {m : StartView Op} : Decidable (Connects r m) :=
  inferInstanceAs (Decidable (_ → _))

instance {env : Env σ Op} {h : History Op} {r : Replica σ Op} {m : DoViewChange Op} :
    Decidable (FromLatest env h r m) :=
  inferInstanceAs (Decidable (_ → _ ∧ _))

instance [DecidableEq Op] (w : GlobalState σ Op) (n : Node) (ω : Stray Op)
    (input : Input Node (Msg Op) (Act Op)) : Decidable (Orderly dep w n ω input) :=
  match n, input with
  | .client _, _ => .isTrue trivial
  | .replica _, .act _ => .isTrue trivial
  | .replica i, .recv ⟨_, _, msg⟩ =>
    match msg with
    | .prepareOK _ _ j => inferInstanceAs (Decidable (j ≠ i))
    | .stateTransfer m => inferInstanceAs (Decidable
        ((w.state (.replica i)).view ≤ m.view → Continues (w.state (.replica i)) m))
    | .startView m => inferInstanceAs (Decidable
        (Accepts (w.state (.replica i)) m.view → Connects (w.state (.replica i)) m))
    | .doViewChange m => inferInstanceAs (Decidable
        (Accepts (w.state (.replica i)) m.view →
          FromLatest (dep.env i) w.history (w.state (.replica i)) m ∧
            ReadsChosen (dep.env i) ω (w.state (.replica i)) m))
    | .request _ | .reply _ | .prepare _ | .commit .. | .requestStateTransfer .. |
        .startViewChange .. => .isTrue trivial

/-! ### Runs -/

/-- What a process recorded. -/
def ViewNode (cfg : Config) (h : History Op) : (n : Node) → State σ Op n → Prop
  | .replica i, _ => NodeOk cfg h i
  | .client _, _ => True

/-- The state of a process that is alive. -/
def ViewLive (cfg : Config) (h : History Op) : (n : Node) → State σ Op n → Prop
  | .replica i, r => Running cfg h i r
  | .client _, _ => True

theorem nodeOk_initial (cfg : Config) (i : ℕ) : NodeOk cfg ([] : History Op) i :=
  ⟨fun _ he => absurd he List.not_mem_nil, fun _ _ _ _ _ hk => absurd hk List.not_mem_nil,
    fun _ _ _ _ _ hl => absurd hl List.not_mem_nil⟩

theorem running_initial (i : ℕ) :
    Running dep.cfg [] i (dep.initial (.replica i) : Replica σ Op) := by
  have hbegun : begun dep.cfg ([] : History Op) 0 = some [] := rfl
  refine ⟨⟨rfl, Log.Numbered.nil, rfl⟩, le_rfl, fun _ => rfl, (fun h => by cases h),
    ⟨Log.Numbered.nil, ⟨[], hbegun, List.nil_prefix, fun e he => absurd he List.not_mem_nil⟩,
      List.nil_prefix, fun e he => absurd he List.not_mem_nil⟩, fun _ => rfl, ⟨le_rfl, .inl rfl⟩,
    .inl rfl, fun _ _ hk => absurd hk List.not_mem_nil, fun _ _ hk => absurd hk List.not_mem_nil,
    fun _ _ _ hl => absurd hl List.not_mem_nil, fun v l _ hl => ?_, (fun v k j hj => by cases hj),
    (fun u j m hm => by cases hm), ⟨Nat.zero_le _, rfl, .inr rfl⟩, (fun h => by cases h)⟩
  rw [begun] at hl
  split_ifs at hl with hv
  · exact hv.le
  · cases hl

/-- **A step of a replica.** -/
theorem replica_runs (hcfg : dep.cfg.n = 2 * dep.cfg.f + 1) {w : GlobalState σ Op} {i : ℕ}
    {ω : Stray Op}
    {input : Input Node (Msg Op) (Act Op)} (hnodes : ∀ j, NodeOk dep.cfg w.history j)
    (hr : Running dep.cfg w.history i (w.state (.replica i)))
    (hpackets : ∀ p ∈ w.net, PacketOk dep.cfg w.history p)
    (hen : dep.system.Enabled w (.replica i) input) (hcond : Orderly dep w (.replica i) ω input) :
    wp (dep.handle (.replica i) ω input) (fun _ => Runs (dep.env i) w.history)
      (Dies (dep.env i) w.history) { state := w.state (.replica i) } := by
  have hpast : past w.history (.replica (dep.env i).myIdx)
      ({ state := w.state (.replica i) } : Ctx (Replica σ Op) Node (Msg Op) (Event Op)) =
      w.history := past_start _
  have hc : Runs (dep.env i) w.history
      ({ state := w.state (.replica i) } : Ctx (Replica σ Op) Node (Msg Op) (Event Op)) := by
    refine ⟨?_, fun p hp => absurd hp List.not_mem_nil⟩
    rw [hpast]
    exact ⟨hnodes i, hr⟩
  have hsetting : i < dep.cfg.n → Setting (dep.env i) w.history := fun hi =>
    ⟨hcfg, hi, fun j _ => hnodes j⟩
  cases input with
  | act a =>
      cases a with
      | client a => exact hc
      | timer t =>
          show wp (when (i < dep.cfg.n) (handleTimer (dep.env i) t)) _ _ _
          rw [wp_when]
          exact ⟨fun _ => handleTimer_runs hc t, fun _ => hc⟩
  | recv p =>
      obtain ⟨-, hmem, howner⟩ := hen
      obtain ⟨src, dst, msg⟩ := p
      have hdst : dst = .replica i ∧ i < dep.cfg.n := by
        cases dst with
        | client c => cases howner
        | replica j =>
            have howner : (if j < dep.cfg.n then some (Ir.Node.replica j) else none) =
              some (.replica i) := howner
            split_ifs at howner with hj
            obtain rfl := Ir.Node.replica.inj (Option.some.inj howner)
            exact ⟨rfl, hj⟩
      obtain ⟨rfl, hi⟩ := hdst
      have hs := hsetting hi
      have hpacket := hpackets _ hmem
      rw [← hpast] at hpacket
      cases msg with
      | request req => exact handleRequest_runs hc src req
      | reply m => exact hc.dies
      | prepare m => exact handlePrepare_runs hs hc src hpacket
      | prepareOK view opnum replicaIdx =>
          exact handlePrepareOK_runs hs hc hpacket.1 hpacket.2 hcond
      | commit view opnum => exact handleCommit_runs hs hc hpacket
      | requestStateTransfer view opnum => exact handleRequestStateTransfer_runs hc hpacket
      | stateTransfer m => exact handleStateTransfer_runs hs hc hpacket hcond
      | startViewChange view replicaIdx lastCommitted =>
          exact handleStartViewChange_runs hs hc _ _ _
      | doViewChange m =>
          refine handleDoViewChange_runs hs hc ?_ hpacket.2 (fun haccepts => ?_)
          · exact (Ir.Node.replica.inj hpacket.1).symm
          · rw [hpast]
            exact hcond haccepts
      | startView m => exact handleStartView_runs hs hc hpacket hcond

/-- **The invariant** of every run of orderly steps. -/
theorem orderly_running (hcfg : dep.cfg.n = 2 * dep.cfg.f + 1) {w : GlobalState σ Op}
    (hw : dep.system.Reach (Orderly dep) w) :
    (∀ i, NodeOk dep.cfg w.history i) ∧ ∀ i, w.crashed (.replica i) = false →
      Running dep.cfg w.history i (w.state (.replica i)) := by
  have hinv : (∀ n, ViewNode dep.cfg w.history n (w.state n)) ∧
      (∀ n, w.crashed n = false → ViewLive dep.cfg w.history n (w.state n)) ∧
        ∀ p ∈ w.net, PacketOk dep.cfg w.history p := by
    refine hw.invariant_live (fun n => ?_) (packetOk_append dep.cfg)
      (fun h n n' es s hne hs => ?_) (fun h n n' es s hne hs => ?_) ?_
    · cases n with
      | client c => exact ⟨trivial, trivial⟩
      | replica i => exact ⟨nodeOk_initial dep.cfg i, running_initial i⟩
    · cases n with
      | client c => trivial
      | replica i => exact NodeOk.other hs hne.symm es
    · cases n with
      | client c => trivial
      | replica i => exact Running.other hs hne.symm es
    · intro w n ω input _ hnodes hlive hpackets hen hcond
      cases n with
      | client c =>
          refine (client_requests c ω input).good (fun _ _ => ⟨trivial, trivial⟩)
            (fun _ _ => trivial) fun {p h} hp => ?_
          obtain ⟨req, hreq, -⟩ := hp
          rw [PacketOk, hreq]
          trivial
      | replica i =>
          exact replica_runs hcfg (fun j => hnodes (.replica j)) hlive hpackets hen hcond
  exact ⟨fun i => hinv.1 (.replica i), fun i => hinv.2.1 (.replica i)⟩

/-! ### What is executed -/

/-- No two replicas execute different requests under one number. -/
def Agreeing (h : History Op) : Prop :=
  ∀ i j k req req', (.replica i, .executed k req) ∈ h → (.replica j, .executed k req') ∈ h →
    req = req'

/-- Where the events of the replicas are in order, the replicas agree. -/
theorem agreeing_of_nodes {cfg : Config} {h : History Op} (hcfg : cfg.n = 2 * cfg.f + 1)
    (hnodes : ∀ i, NodeOk cfg h i) : Agreeing h := by
  intro i j k req req' hi hj
  have hsound := sound hcfg hnodes
  obtain ⟨hpos, v, l, hl, hchosen, hreq⟩ := (hnodes i).event _ hi
  obtain ⟨-, v', l', hl', hchosen', hreq'⟩ := (hnodes j).event _ hj
  have hlogs := ViewRecord.Chosen.agree hsound hchosen hchosen' hl hl'
  have hget := congrArg (·[k - 1]?) hlogs
  simp only [List.getElem?_take, if_pos (Nat.sub_lt hpos Nat.one_pos)] at hget
  have hsame : some req = some req' := hreq.symm.trans (hget.trans hreq')
  exact Option.some.inj hsame

/-- **Agreement.** In every run of orderly steps no two replicas execute different requests under
one number. -/
theorem executed_agree (dep : Deployment σ Op) (hcfg : dep.cfg.n = 2 * dep.cfg.f + 1)
    {w : GlobalState σ Op} (hw : dep.system.Reach (Orderly dep) w) : Agreeing w.history :=
  agreeing_of_nodes hcfg (orderly_running hcfg hw).1

/-- **The replicas execute the same operations in the same order**: of two replicas, one has executed
what the other has, and maybe more after it. -/
theorem executions_prefix (dep : Deployment σ Op) (hcfg : dep.cfg.n = 2 * dep.cfg.f + 1)
    {w : GlobalState σ Op} (hw : dep.system.Reach (Orderly dep) w) (i j : ℕ) :
    executions w.history i <+: executions w.history j ∨
      executions w.history j <+: executions w.history i := by
  have hall := hw.mono fun _ _ _ _ _ => trivial
  obtain ⟨⟨m, hm⟩, -⟩ := executions_numbered dep hall i
  obtain ⟨⟨m', hm'⟩, -⟩ := executions_numbered dep hall j
  exact prefix_of_numbered hm hm' fun k req req' hreq hreq' =>
    agreeing_of_nodes hcfg (orderly_running hcfg hw).1 i j k req req' (mem_executions.1 hreq)
      (mem_executions.1 hreq')

/-- **What was executed is kept**: it is in the logs of all replicas that have entered a later view
than that in which a quorum accepted it, and of those that have executed as much. -/
theorem executed_kept (dep : Deployment σ Op) (hcfg : dep.cfg.n = 2 * dep.cfg.f + 1)
    {w : GlobalState σ Op} (hw : dep.system.Reach (Orderly dep) w) {i k : ℕ} {req : Request Op}
    (hi : (.replica i, .executed k req) ∈ w.history) :
    ∃ v, Chosen dep.cfg w.history v k ∧ ∀ j, w.crashed (.replica j) = false →
      let r : Replica σ Op := w.state (.replica j)
      v < r.enteredView ∨ v = r.enteredView ∧ k ≤ r.lastOp ∨ k ≤ r.lastCommitted →
      ∃ e, r.log.find k = some e ∧ e.request = req := by
  obtain ⟨hnodes, hlive⟩ := orderly_running hcfg hw
  have hsound := sound hcfg hnodes
  obtain ⟨hpos, v, l, hl, hchosen, hreq⟩ := (hnodes i).event _ hi
  refine ⟨v, hchosen, fun j hj => ?_⟩
  intro r hcase
  have hr : Running dep.cfg w.history j r := hlive j hj
  have hspan := hr.log.length
  have hexecuted := hr.committed.1
  -- the log has what was chosen in the view, or the replica executed it in another one
  have hlog : k ≤ r.lastOp ∧ (requests r.log.entries)[k - 1]? = some req := by
    have hof : ∀ u, Chosen dep.cfg w.history u k → u ≤ r.enteredView →
        (u = r.enteredView → k ≤ r.log.entries.length) → (∃ l, begun dep.cfg w.history u = some l) →
        k ≤ r.lastOp ∧ (requests r.log.entries)[k - 1]? = some req := by
      intro u hu hle hlong hbegun
      obtain ⟨l', hl'⟩ := hbegun
      obtain ⟨hin, htake⟩ := hr.holds.take_chosen hsound hu hle hlong
      have hagree := ViewRecord.Chosen.agree hsound hchosen hu hl hl'
      have hget := congrArg (·[k - 1]?) (htake.trans hagree.symm)
      simp only [List.getElem?_take, if_pos (Nat.sub_lt hpos Nat.one_pos)] at hget
      exact ⟨by omega, hget.trans hreq⟩
    rcases hcase with hlt | ⟨heq, hle⟩ | hle
    · exact hof v hchosen hlt.le (fun heq => by omega) ⟨l, hl⟩
    · exact hof v hchosen heq.le (fun _ => by omega) ⟨l, hl⟩
    · rcases (hr.committed.2.le hle) with hzero | ⟨u, hu, hchosen'⟩
      · omega
      · exact hof u hchosen' hu (fun _ => by omega) (hchosen'.begun hsound hpos)
  obtain ⟨hle, hget⟩ := hlog
  obtain ⟨e, hfind, -, hentry⟩ := hr.log.find hpos hle
  refine ⟨e, hfind, ?_⟩
  rw [requests, List.getElem?_map, hentry] at hget
  exact Option.some.inj hget

/-- A replica gives up on the leader. -/
def giveUp (i : ℕ) : Protocol.Cmd Node (Act ℕ) (Stray ℕ) :=
  .act (.replica i) {} (.timer .viewChange)

/-- Replica 0 executes an operation that replica 1 has as well; replicas 1 and 2 change the view and
execute another one. -/
def changeKept : List (Protocol.Cmd Node (Act ℕ) (Stray ℕ)) :=
  [invoke 10, .deliver 0 {}, .deliver 3 {}, .deliver 5 {}, giveUp 2, .deliver 10 {}, .deliver 12 {},
    .deliver 13 {}, .deliver 15 {}, invoke 20, .deliver 18 {}, .deliver 21 {}, .deliver 22 {}]

theorem changeKept_orderly : (threeReplicas.system.exec (Orderly threeReplicas)
    threeReplicas.system.start changeKept).isSome := by
  decide +kernel

/-- Replicas 0 and 1 have executed the operation of the first view. -/
theorem executed_agree_changeKept :
    let w := (threeReplicas.system.exec (Orderly threeReplicas) threeReplicas.system.start
      changeKept).get changeKept_orderly
    (executions w.history 0).map Prod.fst = [1] ∧ 1 ∈ (executions w.history 1).map Prod.fst ∧
      Agreeing w.history :=
  ⟨by decide +kernel, by decide +kernel,
    executed_agree threeReplicas rfl (Protocol.Reach.exec .start (Option.some_get _).symm)⟩

/-- What replica 0 executed in the first view is in the log of replica 1. -/
theorem executed_kept_changeKept :
    let w := (threeReplicas.system.exec (Orderly threeReplicas) threeReplicas.system.start
      changeKept).get changeKept_orderly
    ∃ v, Chosen threeReplicas.cfg w.history v 1 ∧ ∀ j, w.crashed (.replica j) = false →
      let r : Replica Unit ℕ := w.state (.replica j)
      v < r.enteredView ∨ v = r.enteredView ∧ 1 ≤ r.lastOp ∨ 1 ≤ r.lastCommitted →
      ∃ e, r.log.find 1 = some e ∧ e.request = { op := 10, clientid := 9, clientreqid := 1 } :=
  executed_kept threeReplicas rfl (Protocol.Reach.exec .start (Option.some_get _).symm)
    (i := 0) (by decide +kernel)

/-! ### What the code lets happen -/

/-- Replicas 0 and 1 have each an entry of their own, of views 0 and 1. Replicas 0 and 2 take the
older one into view 2 and execute it, and then replicas 0 and 1 take the newer one into view 4. -/
def changeTwice : List (Protocol.Cmd Node (Act ℕ) (Stray ℕ)) :=
  [invoke 10, .deliver 0 {}, giveUp 2, .deliver 6 {}, .deliver 8 {}, .deliver 9 {}, .deliver 11 {},
    invoke 20, .deliver 13 {}, giveUp 2, .deliver 17 {}, .deliver 21 {}, .deliver 22 {},
    .deliver 24 {}, giveUp 0, giveUp 0, .deliver 29 {}, .deliver 31 {}, .deliver 33 {},
    .deliver 34 {}, .deliver 36 {}]

theorem changeTwice_runs : (threeReplicas.system.exec (fun _ _ _ _ => True)
    threeReplicas.system.start changeTwice).isSome := by
  decide +kernel

/-- **Not every run agrees**: the leader of view 4 takes the view of the last entry of a log for the
last view in which the replica was normal, and drops what was executed in view 2. -/
theorem executions_differ : ∃ w, threeReplicas.system.Reach (fun _ _ _ _ => True) w ∧
    ¬Agreeing w.history := by
  refine ⟨_, Protocol.Reach.exec .start (Option.some_get changeTwice_runs).symm, fun h => ?_⟩
  have hsame := h 1 2 1 { op := 20, clientid := 9, clientreqid := 2 }
    { op := 10, clientid := 9, clientreqid := 1 } (by decide +kernel) (by decide +kernel)
  exact absurd (congrArg Request.op hsame) (by decide)

end D2PC.Vr
