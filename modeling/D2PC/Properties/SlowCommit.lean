import D2PC.Invariant.SlowVotes
import D2PC.Properties.Splitting

/-!
# Commitment in the slow mode

The leader of the primary shard answers the client `LOG_STATE_PREPAREOK` and then calls
`HandleCommit` with that state: nothing is installed there, and `CascadeAbort` aborts the
transaction in the store of that leader.

* `SlowRun` : what holds in every run of the slow mode;
* `Turned` : the leader of a participant took the final decision and aborted the transaction;
* `slow_atomic_iff` : a transaction is committed atomically only if its client is not answered.
-/

namespace D2PC

open Prog Ctx

/-! ### The invariant -/

/-- A client, or a replica that does not speak to a coordinator. -/
def Quiet (p : Pkt) : Prop :=
  (p.msg.ofClient ∧ ∃ t s, p.src = .client t s) ∨
    (p.msg.ofReplica ∧ (∀ c, p.src ≠ .coordinator c) ∧ ∀ c, p.dst ≠ .coordinator c)

/-- The leader of a participant took the final decision, and aborted the transaction in its store
or has the reason `K`. -/
def DecidedBy (cfg : Config) (K : History → TxnId → Prop) (h : History) (tid : TxnId) : Prop :=
  ∃ s, Member h tid s ∧ (cfg.leaderNode s, Event.finalDecision tid) ∈ h ∧
    ((cfg.leaderNode s, Event.cascaded tid) ∈ h ∨ K h tid)

/-- **The slow mode.** The leaders that voted for a transaction keep it or have decided it, what is
committed has the reason `K`, and so has what a client is told unless it is aborted. -/
structure SlowRun (cfg : Config) (K : History → TxnId → Prop) (w : GlobalState) : Prop where
  plain : ∀ s i, w.crashed (.replica s i) = false →
    Replica.Plain ⟨cfg, s, i⟩ (fun tid => Member w.history tid s) (w.replica s i)
  done : ∀ s i, w.crashed (.replica s i) = false → ∀ tid ∈ (w.replica s i).committedTxns,
    (Node.replica s i, Event.cascaded tid) ∈ w.history ∨ K w.history tid
  applied : ∀ s i tid ts, (Node.replica s i, Event.applied tid .commit ts) ∈ w.history →
    K w.history tid
  quiet : ∀ p ∈ w.net, Quiet p
  pieces : ∀ p ∈ w.net, ∀ m, p.msg = .prepareTransaction m → p.src = .sendOnly →
    ∃ q, p.dst = .replica q (cfg.leader q)
  told : ∀ p ∈ w.net, ∀ m t s, p.msg = .prepareTransactionReply m → m.state = .prepareOk →
    p.dst = .client t s → DecidedBy cfg K w.history m.tid
  voted : ∀ p ∈ w.net, ∀ m s i, p.msg = .prepareTransactionReply m → m.state = .prepareOk →
    p.dst = .replica s i → w.crashed (cfg.leaderNode m.shard) = true ∨
      (w.replica m.shard (cfg.leader m.shard)).Voted m.tid

section Run

variable {cfg : Config} {C : StepCond} {w : GlobalState} {K : History → TxnId → Prop}

theorem DecidedBy.mono (hmono : ∀ h es tid, K h tid → K (h ++ es) tid) {h es : History}
    {tid : TxnId} (hd : DecidedBy cfg K h tid) : DecidedBy cfg K (h ++ es) tid := by
  obtain ⟨s, hmember, hfinal, hdone⟩ := hd
  exact ⟨s, hmember.mono, mem_mono hfinal, hdone.imp mem_mono (hmono h es tid)⟩

theorem Replica.Plain.mono {env : ReplicaEnv} {member member' : TxnId → Prop} {r : Replica}
    (hr : Replica.Plain env member r) (hm : ∀ tid, member tid → member' tid) :
    Replica.Plain env member' r := by
  refine ⟨hr.alone, hr.leads, hr.timed, fun tid req hreq => ?_, hr.own, hr.askers⟩
  obtain ⟨hlead, htid, hround⟩ := hr.opened tid req hreq
  exact ⟨hlead, htid, hround.imp_left fun h => ⟨hm tid h.1, h.2⟩⟩

theorem Replica.Plain.init (cfg : Config) (s : Shard) (i : ℕ) (member : TxnId → Prop) :
    Replica.Plain ⟨cfg, s, i⟩ member (cfg.init (.replica s i)) := by
  refine ⟨fun _ _ h => ?_, fun _ _ h => ?_, fun _ _ _ h => ?_, fun _ _ h => ?_, fun _ _ h => ?_,
    fun _ _ h => ?_⟩
  all_goals cases h

theorem SlowRun.start : SlowRun cfg K cfg.system.start where
  plain := fun s i _ => Replica.Plain.init cfg s i _
  done := fun _ _ _ tid htid => absurd htid (AList.notMem_empty tid)
  applied := fun _ _ _ _ h => absurd h List.not_mem_nil
  quiet := fun _ h => absurd h List.not_mem_nil
  pieces := fun _ h => absurd h List.not_mem_nil
  told := fun _ h => absurd h List.not_mem_nil
  voted := fun _ h => absurd h List.not_mem_nil

/-- **A step of another process.** It sends at most what clients send. -/
theorem SlowRun.other (hmono : ∀ h es tid, K h tid → K (h ++ es) tid) (hrun : SlowRun cfg K w)
    {n : Node} (hn : ∀ s i, n ≠ .replica s i) (ω : Choice) (input : Input Addr Msg Act)
    (hsent : ∀ p ∈ (cfg.system.handle n ω input { state := w.state n }).state.sent,
      p.msg.ofClient ∧ ∃ t s, p.src = .client t s) :
    SlowRun cfg K (cfg.system.next w n ω input) := by
  have hstate : ∀ s i, GlobalState.replica (cfg.system.next w n ω input) s i = w.replica s i :=
    fun s i => Function.update_of_ne (hn s i).symm _ _
  have hcrashed : ∀ s i, (cfg.system.next w n ω input).crashed (.replica s i) =
      w.crashed (.replica s i) := fun s i => Function.update_of_ne (hn s i).symm _ _
  have hevents : ∀ {s i e}, (Node.replica s i, e) ∈ (cfg.system.next w n ω input).history ↔
      (Node.replica s i, e) ∈ w.history := fun {s i e} => mem_frame (hn s i).symm
  have hK : ∀ {tid}, K w.history tid → K (cfg.system.next w n ω input).history tid :=
    hmono _ _ _
  -- what is new is no reply
  have hnet : ∀ p ∈ (cfg.system.next w n ω input).net, p ∈ w.net ∨
      (p.msg.ofClient ∧ ∃ t s, p.src = .client t s) :=
    fun p hp => (List.mem_append.1 hp).imp_right (hsent p)
  refine ⟨fun s i hlive => ?_, fun s i hlive tid htid => ?_, fun s i tid ts h => ?_,
    fun p hp => ?_, fun p hp m hm hsrc => ?_, fun p hp m t s hm hok hdst => ?_,
    fun p hp m s i hm hok hdst => ?_⟩
  · rw [hstate]
    exact (hrun.plain s i (hcrashed s i ▸ hlive)).mono fun tid => Member.mono
  · rw [hstate] at htid
    exact (hrun.done s i (hcrashed s i ▸ hlive) tid htid).imp hevents.2 hK
  · exact hK (hrun.applied s i tid ts (hevents.1 h))
  · exact (hnet p hp).elim (hrun.quiet p) .inl
  · rcases hnet p hp with hold | ⟨_, t, s, hclient⟩
    · exact hrun.pieces p hold m hm hsrc
    · rw [hsrc] at hclient
      cases hclient
  · rcases hnet p hp with hold | ⟨hkind, _⟩
    · exact (hrun.told p hold m t s hm hok hdst).mono hmono
    · rw [hm] at hkind
      exact hkind.elim
  · rcases hnet p hp with hold | ⟨hkind, _⟩
    · rw [hstate]
      exact (hrun.voted p hold m s i hm hok hdst).imp_left (hcrashed _ _).trans
    · rw [hm] at hkind
      exact hkind.elim

/-- The world after a replica ended a step in the context `y`. -/
def GlobalState.after (w : GlobalState) (s : Shard) (i : ℕ) (dead : Bool)
    (y : Ctx Replica Addr Msg Event) : GlobalState where
  state := Function.update w.state (.replica s i) y.state
  crashed := Function.update w.crashed (.replica s i) dead
  net := w.net ++ y.sent
  history := w.history ++ y.events.map (Node.replica s i, ·)

/-- **A step of a replica**, from what it does within the step. -/
theorem SlowRun.after (hmono : ∀ h es tid, K h tid → K (h ++ es) tid) (hrun : SlowRun cfg K w)
    {s : Shard} {i : ℕ} (hlive : w.crashed (.replica s i) = false) {dead : Bool}
    {y : Ctx Replica Addr Msg Event} (hkinds : ∀ p ∈ y.sent, p.msg.ofReplica)
    (hweak : Replica.Weak ⟨cfg, s, i⟩ (fun tid => Member w.history tid s)
      (Replica.Disclosed (w.replica s i) (K w.history) y.events) (K w.history) y)
    (hsteady : dead = false → Replica.Steady ⟨cfg, s, i⟩ (fun tid => Member w.history tid s)
      (w.replica s i) (Replica.Disclosed (w.replica s i) (K w.history) y.events)
        (K w.history) y) :
    SlowRun cfg K (w.after s i dead y) := by
  have hown : GlobalState.replica (w.after s i dead y) s i = y.state := Function.update_self _ _ _
  have hdead : (w.after s i dead y).crashed (.replica s i) = dead := Function.update_self _ _ _
  have hstate : ∀ {s' i'}, Node.replica s' i' ≠ .replica s i →
      GlobalState.replica (w.after s i dead y) s' i' = w.replica s' i' :=
    fun hne => Function.update_of_ne hne _ _
  have hcrashed : ∀ {s' i'}, Node.replica s' i' ≠ .replica s i →
      (w.after s i dead y).crashed (.replica s' i') = w.crashed (.replica s' i') :=
    fun hne => Function.update_of_ne hne _ _
  have hold : ∀ {x}, x ∈ w.history → x ∈ (w.after s i dead y).history :=
    fun hx => List.mem_append_left _ hx
  have hnew : ∀ {e}, e ∈ y.events → (Node.replica s i, e) ∈ (w.after s i dead y).history :=
    fun he => List.mem_append_right _ (List.mem_map_of_mem he)
  have hK : ∀ {tid}, K w.history tid → K (w.after s i dead y).history tid := hmono _ _ _
  have hleader : (ReplicaEnv.mk cfg s i).isLeader = true → cfg.leaderNode s = .replica s i := by
    intro hlead
    have hi : i = cfg.leader s := of_decide_eq_true hlead
    rw [Config.leaderNode, ← hi]
  have hcommitted : ∀ {tid}, tid ∈ (w.replica s i).committedTxns →
      (Node.replica s i, Event.cascaded tid) ∈ (w.after s i dead y).history ∨
        K (w.after s i dead y).history tid :=
    fun {tid} htid => (hrun.done s i hlive tid htid).imp hold hK
  refine ⟨fun s' i' hlive' => ?_, fun s' i' hlive' tid htid => ?_, fun s' i' tid ts h => ?_,
    fun p hp => ?_, fun p hp m hm hsrc => ?_, fun p hp m t s' hm hok hdst => ?_,
    fun p hp m s' i' hm hok hdst => ?_⟩
  · by_cases hne : Node.replica s' i' = .replica s i
    · cases hne
      rw [hown]
      exact (hsteady (hdead ▸ hlive')).plain.mono fun tid => Member.mono
    · rw [hstate hne]
      exact (hrun.plain s' i' (hcrashed hne ▸ hlive')).mono fun tid => Member.mono
  · by_cases hne : Node.replica s' i' = .replica s i
    · cases hne
      rw [hown] at htid
      rcases (hsteady (hdead ▸ hlive')).done tid htid with hbefore | hcascaded | hreason
      · exact hcommitted hbefore
      · exact .inl (hnew hcascaded)
      · exact .inr (hK hreason)
    · rw [hstate hne] at htid
      exact (hrun.done s' i' (hcrashed hne ▸ hlive') tid htid).imp hold hK
  · rcases List.mem_append.1 h with hbefore | hafter
    · exact hK (hrun.applied s' i' tid ts hbefore)
    · obtain ⟨e, he, heq⟩ := List.mem_map.1 hafter
      cases heq
      exact hK (hweak.applied tid ts he)
  · rcases List.mem_append.1 hp with hbefore | hafter
    · exact hrun.quiet p hbefore
    · exact .inr ⟨hkinds p hafter, (hweak.sent p hafter).1, (hweak.sent p hafter).2.1⟩
  · rcases List.mem_append.1 hp with hbefore | hafter
    · exact hrun.pieces p hbefore m hm hsrc
    · have hsaid := (hweak.sent p hafter).2.2
      rw [hm] at hsaid
      exact hsaid
  · rcases List.mem_append.1 hp with hbefore | hafter
    · exact (hrun.told p hbefore m t s' hm hok hdst).mono hmono
    · have hsaid := (hweak.sent p hafter).2.2
      rw [hm] at hsaid
      obtain ⟨hlead, hmember, hfinal, hdone⟩ := (hsaid hok).1 t s' hdst
      refine ⟨s, hmember.mono, ?_, ?_⟩
      · rw [hleader hlead]
        exact hnew hfinal
      · rw [hleader hlead]
        rcases hdone with hbefore | hcascaded | hreason
        · exact hcommitted hbefore
        · exact .inl (hnew hcascaded)
        · exact .inr (hK hreason)
  · rcases List.mem_append.1 hp with hbefore | hafter
    · by_cases hne : cfg.leaderNode m.shard = .replica s i
      · rw [hne]
        cases hne
        rcases Bool.eq_false_or_eq_true dead with hd | hd
        · exact .inl (hdead.trans hd)
        · refine .inr ?_
          rw [hown]
          refine (hsteady hd).kept m.tid ?_
          refine (hrun.voted p hbefore m s' i' hm hok hdst).resolve_left fun h => ?_
          rw [Config.leaderNode, hlive] at h
          cases h
      · rw [hstate hne]
        exact (hrun.voted p hbefore m s' i' hm hok hdst).imp_left (hcrashed hne).trans
    · have hsaid := (hweak.sent p hafter).2.2
      rw [hm] at hsaid
      obtain ⟨hshard, hlead⟩ := (hsaid hok).2 s' i' hdst
      obtain rfl : m.shard = s := hshard
      have hi : i = cfg.leader m.shard := of_decide_eq_true hlead
      rcases Bool.eq_false_or_eq_true dead with hd | hd
      · rw [hleader hlead]
        exact .inl (hdead.trans hd)
      · refine .inr ?_
        rw [← hi, hown]
        exact (hsteady hd).backed p hafter m s' i' hm hok hdst

/-- A coordinator sends nothing when a client speaks to it. -/
theorem Coordinator.silent {env : CoordinatorEnv} {ω : Choice} {p : Pkt} (hp : p.msg.ofClient)
    (c : Coordinator) :
    (Coordinator.handleInput env ω (.recv p) { state := c }).state.sent = [] := by
  obtain ⟨src, dst, msg⟩ := p
  cases msg with
  | getData m => rfl
  | prepareTransaction m => rfl
  | parallelModeCommit m => rfl
  | commit m => rfl
  | _ => exact hp.elim

/-- **What a replica receives.** -/
theorem SlowRun.admits (hrun : SlowRun cfg K w) (hwords : ∀ p ∈ w.net, SlowWords cfg K w.history p)
    (hround : ∀ p ∈ w.net, RoundPkt False cfg w.history p) {s : Shard} {i : ℕ} {p : Pkt}
    (hen : cfg.system.Enabled w (.replica s i) (.recv p)) :
    (∀ c, p.src ≠ .coordinator c) ∧
      Replica.Admits ⟨cfg, s, i⟩ (fun tid => Member w.history tid s) (K w.history) (w.replica s i)
        p.src p.msg := by
  obtain ⟨hlive, hp, howner⟩ := hen
  have hdst : p.dst = .replica s i := Config.owner_replica howner
  have hquiet := hrun.quiet p hp
  have hwords := hwords p hp
  have hround := hround p hp
  have hpieces := hrun.pieces p hp
  have hvoted := hrun.voted p hp
  obtain ⟨src, dst, msg⟩ := p
  obtain rfl : dst = .replica s i := hdst
  refine ⟨?_, ?_⟩
  · rcases hquiet with ⟨_, t, s', hsrc⟩ | ⟨_, hsrc, _⟩
    · obtain rfl : src = _ := hsrc
      intro _ h
      cases h
    · exact hsrc
  cases msg with
  | prepareTransaction m =>
      have hleader : ∀ q, Addr.replica s i = .replica q (cfg.leader q) →
          (ReplicaEnv.mk cfg s i).isLeader = true := by
        intro q hq
        cases hq
        exact decide_eq_true rfl
      rcases hround with hsrc | ⟨q, hsrc, ⟨st, hst, _, hcarried⟩, ⟨j, hq⟩, _⟩
      · obtain ⟨q, hq⟩ := hpieces m rfl hsrc
        exact ⟨hleader q hq, .inl hsrc⟩
      · have hlead : (ReplicaEnv.mk cfg s i).isLeader = true := by
          rcases hwords with hnobody | ⟨q', hq'⟩
          · rw [show src = _ from hsrc] at hnobody
            cases hnobody
          · exact hleader q' hq'
        cases hq
        exact ⟨hlead, .inr ⟨⟨m.tid, s, hsrc⟩, ⟨st, hst, hcarried.member⟩,
          (hcarried.listed s).2 hcarried.member⟩⟩
  | prepareTransactionReply m =>
      intro hlead hok hshard
      have hi : i = cfg.leader s := of_decide_eq_true hlead
      obtain rfl : m.shard = s := hshard
      have hvote := hvoted m m.shard i rfl hok rfl
      rw [Config.leaderNode, ← hi, hlive] at hvote
      exact hvote.resolve_left (fun h => by cases h)
  | commit m => exact hwords
  | parallelModeCommit m => exact hwords
  | notifyDecision m => exact hquiet.elim (fun h => h.1) fun h => h.1
  | notifyReplicateResult m => exact hquiet.elim (fun h => h.1) fun h => h.1
  | _ => trivial

/-- The context in which a step of a replica begins. -/
theorem Replica.Steady.start {env : ReplicaEnv} {member k : TxnId → Prop} {r : Replica}
    (hr : Replica.Plain env member r) :
    Replica.Steady env member r (fun _ => False) k { state := r } :=
  ⟨⟨fun _ h => absurd h List.not_mem_nil, fun _ _ h => absurd h List.not_mem_nil,
    fun _ h => h.elim⟩, hr, fun _ h => h, fun _ h => absurd h List.not_mem_nil, fun _ h => .inl h⟩

/-- **The step of a replica.** -/
theorem SlowRun.replica_step (hslow : cfg.mode = .slow) (hw : cfg.system.Reach C w)
    (hrun : SlowRun cfg K w) (hwords : ∀ p ∈ w.net, SlowWords cfg K w.history p) {s : Shard} {i : ℕ}
    {ω : Choice} {input : Input Addr Msg Act} (hlive : w.crashed (.replica s i) = false)
    (hen : cfg.system.Enabled w (.replica s i) input) :
    wp (Replica.handleInput ⟨cfg, s, i⟩ ω input)
      (fun _ y => Replica.Steady ⟨cfg, s, i⟩ (fun tid => Member w.history tid s) (w.replica s i)
        (Replica.Disclosed (w.replica s i) (K w.history) y.events) (K w.history) y)
      (fun y => Replica.Weak ⟨cfg, s, i⟩ (fun tid => Member w.history tid s)
        (Replica.Disclosed (w.replica s i) (K w.history) y.events) (K w.history) y)
      { state := w.replica s i } := by
  have hplain := hrun.plain s i hlive
  have hstart := Replica.Steady.start (k := K w.history) hplain
  have hdated : Dated cfg s i w.history none (w.replica s i) :=
    (Config.dated (fun ho : False => ho.elim) hw).2.1 (.replica s i) hlive
  cases input with
  | act a =>
      cases a with
      | client a => exact hstart.disclosed_none
      | timer t =>
          exact wp_mono (fun _ _ hy => hy.disclosed_none) (fun _ hy => hy.disclosed_none)
            (Replica.handleTimer_steady hslow t hdated.voted hstart)
  | recv p =>
      have hround := (Config.rounds (fun ho : False => ho.elim) hw).2
      obtain ⟨hsrc, hmsg⟩ := hrun.admits hwords hround hen
      refine Replica.handleMessage_steady hslow hsrc hmsg (fun tid q hq => ?_) hstart
      obtain ⟨e, he, _⟩ := hdated.entries tid q hq (.inl (hplain.leads tid q hq).2)
      rw [he]
      intro h
      cases h

/-- **Every run of the slow mode** in which a client is assured of a transaction only for the
reason `K`. -/
theorem Config.slowRun (hslow : cfg.mode = .slow) (hmono : ∀ h es tid, K h tid → K (h ++ es) tid)
    (hC : ∀ w tid ω input, C w (.client tid) ω input → cfg.system.Enabled w (.client tid) input →
      Client.Assures tid input → K w.history tid)
    (hw : cfg.system.Reach C w) : SlowRun cfg K w := by
  refine hw.induct SlowRun.start ?_
  intro (w : GlobalState) n ω input hw hrun hen _
  cases n with
  | client tid =>
      refine hrun.other hmono (fun _ _ h => by cases h) ω input fun p hp => ?_
      obtain ⟨hkind, s, hsrc⟩ := (Client.handleInput_sends ⟨cfg, tid⟩ ω input).sent hp
      exact ⟨hkind, tid, s, hsrc⟩
  | coordinator c =>
      refine hrun.other hmono (fun _ _ h => by cases h) ω input fun p hp => ?_
      cases input with
      | act a => exact absurd hp List.not_mem_nil
      | recv q =>
          have hdst : q.dst = .coordinator c := Config.owner_coordinator hen.2.2
          rcases hrun.quiet q hen.2.1 with ⟨hclient, _⟩ | ⟨_, _, hnever⟩
          · have hsent : p ∈ (Coordinator.handleInput ⟨cfg, c⟩ ω (.recv q)
                { state := w.coordinator c }).state.sent := hp
            rw [Coordinator.silent hclient] at hsent
            cases hsent
          · exact absurd hdst (hnever c)
  | replica s i =>
      have hwords := (Config.waiting hslow hmono hC hw).2
      have hlive : w.crashed (.replica s i) = false := by
        cases input with
        | recv p => exact hen.1
        | act a => exact hen
      have hkinds : ∀ p ∈ (Replica.handleInput ⟨cfg, s, i⟩ ω input
          { state := w.replica s i }).state.sent, p.msg.ofReplica :=
        fun p hp => (Replica.handleInput_sends ⟨cfg, s, i⟩ ω input).sent hp
      have hnext : cfg.system.next w (.replica s i) ω input = w.after s i
          (Replica.handleInput ⟨cfg, s, i⟩ ω input { state := w.replica s i }).isDead
          (Replica.handleInput ⟨cfg, s, i⟩ ω input { state := w.replica s i }).state := rfl
      rw [hnext]
      rcases wp_cases (hrun.replica_step hslow hw hwords hlive hen) with
        ⟨_, y, hy, hsteady⟩ | ⟨y, hy, hweak⟩
      · rw [hy] at hkinds ⊢
        exact hrun.after hmono hlive hkinds hsteady.toWeak fun _ => hsteady
      · rw [hy] at hkinds ⊢
        exact hrun.after hmono hlive hkinds hweak (fun h => by cases h)

/-! ### The client is answered -/

/-- The leader of a participant took the final decision and aborted the transaction in its
store. -/
def Turned (cfg : Config) (h : History) (tid : TxnId) : Prop :=
  ∃ s, Member h tid s ∧ (cfg.leaderNode s, Event.finalDecision tid) ∈ h ∧
    (cfg.leaderNode s, Event.cascaded tid) ∈ h

theorem Turned.mono (h es : History) (tid : TxnId) (ht : Turned cfg h tid) :
    Turned cfg (h ++ es) tid := by
  obtain ⟨s, hmember, hfinal, hdone⟩ := ht
  exact ⟨s, hmember.mono, mem_mono hfinal, mem_mono hdone⟩

theorem DecidedBy.turned {h : History} {tid : TxnId} (hd : DecidedBy cfg (Turned cfg) h tid) :
    Turned cfg h tid := by
  obtain ⟨s, hmember, hfinal, hdone | hturned⟩ := hd
  · exact ⟨s, hmember, hfinal, hdone⟩
  · exact hturned

/-- A client is assured only of transactions that were turned. -/
def Config.Honest (cfg : Config) : StepCond := fun w n _ input =>
  ∀ tid, n = .client tid → Client.Assures tid input → Turned cfg w.history tid

theorem Config.slowRun_turned (hslow : cfg.mode = .slow) (hw : cfg.system.Reach cfg.Honest w) :
    SlowRun cfg (Turned cfg) w :=
  Config.slowRun hslow Turned.mono (fun _ tid _ _ hc _ ha => hc tid rfl ha) hw

/-- Every run of the slow mode is like that: no client is answered before its transaction was
turned. -/
theorem Config.honest (hslow : cfg.mode = .slow) (hw : cfg.system.Reach anyStep w) :
    cfg.system.Reach cfg.Honest w := by
  refine hw.induct .start fun w n ω input _ hhonest hen _ => .step hhonest hen ?_
  rintro tid rfl ha
  have hrun := Config.slowRun_turned hslow hhonest
  cases input with
  | act a => exact ha.elim
  | recv p =>
      obtain ⟨m, hm, rfl, hok⟩ := ha
      obtain ⟨s, hdst⟩ := Config.owner_client hen.2.2
      exact (hrun.told p hen.2.1 m m.tid s hm hok hdst).turned

/-! ### Atomic commitment -/

/-- The final decision was taken, and the client was told so. -/
def Answered (cfg : Config) (w : GlobalState) (tid : TxnId) : Prop :=
  (∃ s, (cfg.leaderNode s, Event.finalDecision tid) ∈ w.history) ∧
    ∃ p ∈ w.net, ∃ m s, p.dst = .client tid s ∧ p.msg = .prepareTransactionReply m ∧
      m.tid = tid ∧ m.state = .prepareOk

/-- Some participant replied otherwise. -/
def Refused (w : GlobalState) (tid : TxnId) : Prop :=
  ∃ p ∈ w.net, ∃ m, p.msg = .prepareTransactionReply m ∧ m.tid = tid ∧ m.state ≠ .prepareOk

/-- The shard installs the transaction: its leader does so when it decides and never aborts it, and
tells its followers to do the same. -/
structure InstalledAt (cfg : Config) (w : GlobalState) (tid : TxnId) (s : Shard) : Prop where
  installed : tid ∈ (w.replica s (cfg.leader s)).committedTxns →
    ∃ ts, (cfg.leaderNode s, Event.applied tid .commit ts) ∈ w.history
  kept : (cfg.leaderNode s, Event.cascaded tid) ∉ w.history ∧
    ∀ ts, (cfg.leaderNode s, Event.applied tid .abort ts) ∉ w.history
  followers : ∀ p ∈ w.net, ∀ m, p.src = .replica s (cfg.leader s) → p.msg = .replicateCommit m →
    m.tid = tid → m.state = .commit

/-- **Atomic commitment**: a transaction whose client is answered is installed by all participants,
and one that a participant refused is installed by no leader. -/
structure SlowAtomic (cfg : Config) (w : GlobalState) (tid : TxnId) : Prop where
  committed : Answered cfg w tid → ∀ st, startOf w.history tid = some st → ∀ s ∈ st.participants,
    InstalledAt cfg w tid s
  aborted : Refused w tid → ∀ s ts, (cfg.leaderNode s, Event.applied tid .commit ts) ∉ w.history

/-- **Slow commits.** In every run of the slow mode, a transaction is committed atomically exactly
if its client is not answered: the leader that answers aborts the transaction itself. -/
theorem slow_atomic_iff (hslow : cfg.mode = .slow) (hw : cfg.system.Reach anyStep w) (tid : TxnId) :
    SlowAtomic cfg w tid ↔ ¬ Answered cfg w tid := by
  have hrun := Config.slowRun_turned hslow (Config.honest hslow hw)
  have hturned : ∀ p ∈ w.net, ∀ m s, p.dst = .client tid s → p.msg = .prepareTransactionReply m →
      m.tid = tid → m.state = .prepareOk → Turned cfg w.history tid := by
    rintro p hp m s hdst hm rfl hok
    exact (hrun.told p hp m m.tid s hm hok hdst).turned
  constructor
  · intro hatomic hanswered
    obtain ⟨p, hp, m, s, hdst, hm, htid, hok⟩ := hanswered.2
    obtain ⟨q, ⟨st, hst, hq⟩, _, hcascaded⟩ := hturned p hp m s hdst hm htid hok
    exact (hatomic.committed hanswered st hst q hq).kept.1 hcascaded
  · intro hnot
    refine ⟨fun hanswered => absurd hanswered hnot, fun _ s ts happlied => ?_⟩
    -- the client is never assured, so no commit is ever sent for the transaction
    have hother : SlowRun cfg (fun _ t => t ≠ tid) w := by
      refine Config.slowRun hslow (fun _ _ _ h => h) (fun v t ω input hc hen ha heq => ?_)
        hw.received
      subst heq
      cases input with
      | act a => exact ha.elim
      | recv p =>
          obtain ⟨m, hm, htid, hok⟩ := ha
          obtain ⟨s, hdst⟩ := Config.owner_client hen.2.2
          have hp := hc p rfl
          obtain ⟨q, _, hfinal, _⟩ := hturned p hp m s hdst hm htid hok
          exact hnot ⟨⟨q, hfinal⟩, p, hp, m, s, hdst, hm, htid, hok⟩
    exact hother.applied s (cfg.leader s) tid ts happlied rfl

end Run

/-- A single write over one shard, up to the answer to the client. -/
def writeAnswered : Commands :=
  writeSlow ++ [deliver 2, deliver 3, deliver 5, deliver 6, deliver 7]

theorem writeAnswered_runs : ((threeReplicas .slow 1).run anyStep writeAnswered).isSome := by
  decide +kernel

/-- The world it reaches. -/
def writeAnsweredWorld : GlobalState :=
  ((threeReplicas .slow 1).run anyStep writeAnswered).get writeAnswered_runs

theorem writeAnswered_answered : Answered (threeReplicas .slow 1) writeAnsweredWorld 7 := by
  have hfinal : ((threeReplicas .slow 1).leaderNode 0, Event.finalDecision 7) ∈
      writeAnsweredWorld.history := by
    decide +kernel
  have hreply : (writeAnsweredWorld.net[8]?).map (fun p => (p.dst, p.msg)) =
      some (.client 7 0, .prepareTransactionReply
        { tid := 7, state := .prepareOk, timestamp := 1, shard := 0, replica := 0 }) := by
    decide +kernel
  obtain ⟨p, hp, heq⟩ := Option.map_eq_some_iff.1 hreply
  obtain ⟨hdst, hmsg⟩ := Prod.mk.inj heq
  exact ⟨⟨0, hfinal⟩, p, List.mem_of_getElem? hp, _, 0, hdst, hmsg, rfl, rfl⟩

/-- **The write that is answered is aborted** by the leader that answers. -/
theorem slow_atomic_aborted : ¬ ∀ w : GlobalState, (threeReplicas .slow 1).system.Reach anyStep w →
    ∀ tid, SlowAtomic (threeReplicas .slow 1) w tid := by
  intro hall
  have hatomic := hall writeAnsweredWorld (Config.reach_run writeAnswered_runs) 7
  have hstart : (startOf writeAnsweredWorld.history 7).map (·.participants) = some [0] := by
    decide +kernel
  have hcascaded : ((threeReplicas .slow 1).leaderNode 0, Event.cascaded 7) ∈
      writeAnsweredWorld.history := by
    decide +kernel
  obtain ⟨st, hst, hparticipants⟩ := Option.map_eq_some_iff.1 hstart
  have hmem : 0 ∈ st.participants := by
    rw [hparticipants]
    exact List.mem_singleton_self 0
  exact (hatomic.committed writeAnswered_answered st hst 0 hmem).kept.1 hcascaded

theorem slow_atomic_iff_write : ¬ SlowAtomic (threeReplicas .slow 1) writeAnsweredWorld 7 := by
  have hiff : SlowAtomic (threeReplicas .slow 1) writeAnsweredWorld 7 ↔
      ¬ Answered (threeReplicas .slow 1) writeAnsweredWorld 7 :=
    slow_atomic_iff rfl (Config.reach_run writeAnswered_runs) 7
  exact fun h => hiff.1 h writeAnswered_answered

end D2PC
