import D2PC.Properties.Atomicity

/-!
# Committed writes become visible

A commit carries a timestamp down to `VersionedKVStore::put`, and a set ignores an insertion
at a timestamp it holds. The client does not send the timestamp and the votes do not carry
it, so commits are installed at time zero, where loaded keys already have a version.

* `commit_visible` : in the runs in which every commit meets the entry of its transaction and
  older versions only, what was committed is read until it is overwritten;
* `loadedKey_not_visible` : a run in which it is not.
-/

namespace D2PC

open Protocol Prog Ctx

namespace Replica

variable {env : ReplicaEnv} {ω : Choice} {x : Ctx Replica Addr Msg Event}

/-! ### The step that commits -/

/-- The store is as it was, and nothing was recorded. -/
def Still (x x' : Ctx Replica Addr Msg Event) : Prop :=
  x'.state.store = x.state.store ∧ x'.events = x.events

theorem Still.refl (x : Ctx Replica Addr Msg Event) : Still x x := ⟨rfl, rfl⟩

theorem Still.mapPending {r : Replica} {ps : List Pkt} {es : List Event}
    (hy : Still x ⟨r, ps, es⟩) (tid : TxnId) (f : PendingTransaction → PendingTransaction) :
    Still x ⟨Replica.mapPending tid f r, ps, es⟩ := by
  unfold Replica.mapPending
  split
  · exact hy
  · exact hy

theorem notifyForFollowingDependenies_still (tid : TxnId) {y : Ctx Replica Addr Msg Event}
    (hy : Still x y) :
    wp (notifyForFollowingDependenies env tid) (fun _ => Still x) (Still x) y := by
  simp only [notifyForFollowingDependenies, wp_bind, wp_read]
  split
  · exact hy
  · simp only [wp_bind, wp_derefActive]
    refine ⟨fun txn _ => wp_forM (fun out _ z hz => ?_) hy, fun _ => hy, fun _ => hy⟩
    simp only [wp_bind, wp_read]
    split
    · have hdec : Still x { z with state := Replica.mapActive out Transaction.decreaseIn z.state } := by
        unfold Replica.mapActive
        split
        · exact hz
        · exact hz
      simp only [wp_bind, wp_deref, wp_modifyActive, wp_when, wp_sendMessageToCoordinator]
      exact ⟨fun outTxn _ => ⟨fun _ => hdec, fun _ => hdec⟩, fun _ => hz⟩
    · exact hz

/-- The transaction is pending, and not only as the placeholder of one whose outcome was asked
for. -/
def participates (r : Replica) (tid : TxnId) : Bool :=
  (r.pendingTxns.lookup tid).any (·.isParticipant)

/-- What a commit does: nothing to the store, or it installs the entry of the transaction and
records that. -/
def Installs (msg : CommitMsg) (x x' : Ctx Replica Addr Msg Event) : Prop :=
  Still x x' ∨ (x.state.participates msg.tid = true ∧
    x'.state.store = x.state.store.commit msg.tid msg.timestamp ∧
    x'.events = x.events ++ [.applied msg.tid .commit msg.timestamp])

theorem Installs.still {msg : CommitMsg} {y z : Ctx Replica Addr Msg Event} (hy : Installs msg x y)
    (hz : Still y z) : Installs msg x z := by
  rcases hy with hy | hy
  · exact .inl ⟨hz.1.trans hy.1, hz.2.trans hy.2⟩
  · exact .inr ⟨hy.1, hz.1.trans hy.2.1, hz.2.trans hy.2.2⟩

theorem carryOut_installs {msg : CommitMsg} (hstate : msg.state = .commit)
    (hpart : x.state.participates msg.tid = true) (req : PendingTransaction)
    {y : Ctx Replica Addr Msg Event} (hy : Still x y) :
    wp (carryOut env ω msg req) (fun _ => Installs msg x) (Installs msg x) y := by
  have happly : ∀ {z}, Still x z → wp (applyToStore msg) (fun _ => Installs msg x)
      (Installs msg x) z := by
    intro z hz
    have hz₁ := hz.mapPending msg.tid fun req => { req with reachCommitDecision := true }
    simp only [applyToStore, wp_bind, wp_modifyPending, wp_activePtr, hstate, wp_withStore, wp_emit]
    have hcommit : ∀ {u : Ctx Replica Addr Msg Event}, Still x u → Installs msg x { u with
        state := { u.state with store := u.state.store.commit msg.tid msg.timestamp }
        events := u.events ++ [.applied msg.tid .commit msg.timestamp] } := fun hu =>
      .inr ⟨hpart, by rw [← hu.1], by rw [← hu.2]⟩
    exact ⟨fun p _ => hcommit hz₁, fun _ => hcommit hz₁⟩
  have hnotify : wp (notifyCommitToReplica env ω req msg) (fun _ => Still x) (Still x) y := by
    simp only [notifyCommitToReplica, wp_bind, wp_update, wp_ite, wp_sendMessageToAll, wp_when,
      wp_modifyPending]
    refine ⟨fun _ => wp_forM (fun _ _ z hz => hz) hy, fun _ => ⟨fun _ => ?_, fun _ => hy⟩⟩
    refine Still.mapPending ?_ _ _
    exact hy
  simp only [carryOut, wp_bind, wp_when]
  exact ⟨fun _ => wp_mono (fun _ z hz => ⟨fun _ => happly hz, fun _ => .inl hz⟩)
    (fun _ hz => .inl hz) hnotify, fun _ => ⟨fun _ => happly hy, fun _ => .inl hy⟩⟩

theorem handleCommit_installs {msg : CommitMsg} (hstate : msg.state = .commit)
    {y : Ctx Replica Addr Msg Event} (hy : Still x y)
    (hpend : y.state.pendingTxns = x.state.pendingTxns) :
    wp (handleCommit env ω msg) (fun _ => Installs msg x) (Installs msg x) y := by
  have hretire : ∀ {z} txn, Installs msg x z →
      wp (retire env msg txn) (fun _ => Installs msg x) (Installs msg x) z := by
    intro z txn hz
    simp only [retire, wp_bind, wp_erasePending, wp_when, wp_deref, wp_pure, wp_eraseActive,
      wp_update]
    exact ⟨fun _ => ⟨fun _ _ => hz, fun _ => hz⟩, fun _ => hz⟩
  have hsettle : ∀ {z} txn, Installs msg x z → wp (settleDependents env msg)
      (fun _ => wp (retire env msg txn) (fun _ => Installs msg x) (Installs msg x))
      (Installs msg x) z := by
    intro z txn hz
    rw [settleDependents, if_pos (by rw [hstate]; rfl)]
    exact wp_mono (fun _ u hu => hretire txn (hz.still hu)) (fun _ hu => hz.still hu)
      (notifyForFollowingDependenies_still msg.tid (Still.refl z))
  simp only [handleCommit, wp_bind, wp_read]
  split
  · exact .inl hy
  · rename_i req hreq
    simp only [wp_bind, wp_update, wp_eraseClient, commitPending, wp_ite, wp_erasePending, wp_read,
      wp_deref]
    refine ⟨fun _ => .inl hy, fun hnot => ⟨fun e _ => ?_, fun _ => .inl hy⟩⟩
    have hpart : x.state.participates msg.tid = true := by
      rw [participates, ← hpend, hreq]
      exact Bool.of_not_eq_false hnot
    refine wp_mono (fun _ z hz => ?_) (fun _ hz => hz) (carryOut_installs hstate hpart req hy)
    rw [wp_activePtr]
    exact ⟨fun p _ => hsettle p hz, fun _ => hsettle none hz⟩

/-- The commit an input asks for. -/
def commitOf : Input Addr Msg Act → Option CommitMsg
  | .recv ⟨_, _, .commit m⟩ => if m.state = .commit then some m else none
  | .recv ⟨_, _, .notifyReplicateResult m⟩ =>
      some { tid := m.tid, state := .commit, timestamp := m.timestamp }
  | _ => none

theorem handleInput_installs {input : Input Addr Msg Act} {msg : CommitMsg}
    (hmsg : commitOf input = some msg) :
    wp (handleInput env ω input) (fun _ => Installs msg x) (Installs msg x) x := by
  unfold commitOf at hmsg
  split at hmsg
  · split_ifs at hmsg with hstate
    cases hmsg
    exact handleCommit_installs hstate (Still.refl x) rfl
  · cases hmsg
    simp only [handleInput, handleMessage, handleReplicateResultFromCoordinatorReplica,
      handleParallelCommitResult, wp_bind, wp_read]
    split
    · exact handleCommit_installs rfl (Still.refl x) rfl
    · simp only [wp_bind, wp_derefClient, wp_sendMessage, wp_eraseClient]
      exact ⟨fun a _ => handleCommit_installs rfl (Still.refl x) rfl, fun _ => .inl (Still.refl x),
        fun _ => .inl (Still.refl x)⟩
  · cases hmsg

theorem commitOf_none {input : Input Addr Msg Act} (h : commitOf input = none) : ¬ Commits input := by
  unfold Commits
  split
  · intro hstate
    simp only [commitOf, hstate, if_true] at h
    cases h
  · simp only [commitOf] at h
    cases h
  · exact id

/-! ### Every other step -/

/-- Without a commit the versions of a leader stay. -/
theorem Ops.kv_get {T : TxnId} {C A : Prop} {x₀ : Ctx Replica Addr Msg Event}
    (h : Ops env T C A x₀ x) (hC : ¬ C) (hlead : env.isLeader = true) (hrc : env.cfg.mode ≠ .rc)
    (key : Key) : x.state.store.kv.get key = x₀.state.store.kv.get key := by
  induction h with
  | refl => rfl
  | tail _ hop ih =>
      rw [← ih]
      cases hop with
      | prepare clock m doCheck => exact (TxnStore.prepare_others _ _ _ _ _).kv key
      | preCommit hmode req hreq => exact (TxnStore.preCommit_others _ _).kv key
      | commit hC' => exact absurd hC' hC
      | abort => exact (TxnStore.abort_others _ _).kv key
      | cascade hA d => exact (TxnStore.abort_others _ _).kv key
      | replicate hfollower =>
          rcases hfollower with hf | hf
          · rw [hlead] at hf
            cases hf
          · exact absurd hf hrc
      | _ => rfl

end Replica

/-! ### Whole runs -/

variable {cfg : Config} {w : GlobalState}

/-- The write set the client of `tid` buffered for shard `s`. -/
def writesAt (h : History) (tid : TxnId) (s : Shard) : Table Key Value :=
  ((startOf h tid).map fun st => (st.piece tid s).writeSet).getD ∅

theorem writesAt_mono {h es : History} {tid : TxnId} {st : Start} (hst : startOf h tid = some st)
    (s : Shard) : writesAt (h ++ es) tid s = writesAt h tid s := by
  simp only [writesAt, startOf_mono hst, hst]

/-- A key that is written in a history is written in a longer one. -/
theorem mem_writesAt_mono {h es : History} {tid : TxnId} {s : Shard} {key : Key}
    (hkey : key ∈ writesAt h tid s) : key ∈ writesAt (h ++ es) tid s := by
  cases hst : startOf h tid with
  | some st => rwa [writesAt_mono hst]
  | none =>
      simp only [writesAt, hst, Option.map_none, Option.getD_none] at hkey
      exact absurd hkey (AList.notMem_empty key)

/-- What is committed was started. -/
theorem Config.commit_started (hdir : cfg.Direct) {C : StepCond} (hw : cfg.system.Reach C w)
    {s : Shard} {i : ℕ} {tid : TxnId} {ts : ℕ}
    (hc : (Node.replica s i, Event.applied tid .commit ts) ∈ w.history) :
    ∃ st, startOf w.history tid = some st := by
  have hinv := (Config.invariant hdir hw).1
  have hr : ReplicaOk cfg s i w.history (w.replica s i) := hinv (.replica s i)
  have hclient : ClientOk cfg tid w.history (w.client tid) := hinv (.client tid)
  have hannounced : Announced w.history tid → ∃ st, startOf w.history tid = some st := by
    intro ha
    obtain ⟨_, st, hst, _⟩ := Config.announced_parallel hdir hw ha
    exact ⟨st, hst⟩
  rcases hr.events _ hc with ⟨_, hd | ha⟩ | ⟨hstate, _⟩
  · rcases hclient.outcome hd with ha | ⟨st, hst, _⟩
    · exact hannounced ha
    · exact ⟨st, hst⟩
  · exact hannounced ha
  · cases hstate

/-- The entry of `msg.tid` has the write set of its client, and the keys written have older
versions only, or the value already. -/
def fits (w : GlobalState) (s : Shard) (store : TxnStore) (msg : CommitMsg) : Bool :=
  decide ((store.entry msg.tid).map Transaction.writeSet = some (writesAt w.history msg.tid s)) &&
    (writesAt w.history msg.tid s).toList.all fun kv =>
      (store.kv.get kv.1).all fun cur =>
        decide (cur.1 < ⟨msg.timestamp, 0⟩) || decide (cur.2 = kv.2)

/-- **Fresh commits.** A replica at which the transaction is pending as a participant hears of
its commit only while the entry fits. -/
def commitFits (w : GlobalState) : Node → Input Addr Msg Act → Bool
  | .replica s i, input =>
      match Replica.commitOf input with
      | some msg => !(w.replica s i).participates msg.tid || fits w s (w.replica s i).store msg
      | none => true
  | _, _ => true

def freshCommits : StepCond := fun w n _ input => commitFits w n input = true

instance (w : GlobalState) (n : Node) (ω : Choice) (input : Input Addr Msg Act) :
    Decidable (freshCommits w n ω input) :=
  inferInstanceAs (Decidable (_ = true))

/-- Where an element of an extended list is. -/
theorem split_append {α : Type} {h es h₁ h₂ : List α} {a : α} (heq : h ++ es = h₁ ++ a :: h₂) :
    (∃ h₃, h = h₁ ++ a :: h₃ ∧ h₂ = h₃ ++ es) ∨ ∃ es₁, es = es₁ ++ a :: h₂ := by
  rcases List.append_eq_append_iff.1 heq with ⟨es₁, _, hes⟩ | ⟨h₃, hh, hrest⟩
  · exact .inr ⟨es₁, hes⟩
  · cases h₃ with
    | nil => exact .inr ⟨[], hrest.symm⟩
    | cons b h₃ =>
        cases hrest
        exact .inl ⟨h₃, hh, rfl⟩

/-- The last commit at the leader of `s` that writes `key` is that of `tid`, which writes
`value`. -/
def LastWrite (cfg : Config) (h : History) (s : Shard) (key : Key) (value : Value) : Prop :=
  ∃ tid ts h₁ h₂, h = h₁ ++ (cfg.leaderNode s, Event.applied tid .commit ts) :: h₂ ∧
    (writesAt h tid s).lookup key = some value ∧
    ∀ tid' ts', (cfg.leaderNode s, Event.applied tid' .commit ts') ∈ h₂ →
      key ∉ writesAt h tid' s

/-- A step of another process, or one that commits nothing, makes no last write. -/
theorem LastWrite.old {C : StepCond} (hdir : cfg.Direct) (hw : cfg.system.Reach C w) {s : Shard}
    {key : Key} {value : Value} {es : History}
    (hes : ∀ tid ts, (cfg.leaderNode s, Event.applied tid .commit ts) ∉ es)
    (h : LastWrite cfg (w.history ++ es) s key value) : LastWrite cfg w.history s key value := by
  obtain ⟨tid, ts, h₁, h₂, heq, hvalue, hlast⟩ := h
  rcases split_append heq with ⟨h₃, hh, rfl⟩ | ⟨es₁, hsplit⟩
  · have hmem : (cfg.leaderNode s, Event.applied tid .commit ts) ∈ w.history := by
      rw [hh]
      exact List.mem_append_right _ (List.mem_cons_self ..)
    obtain ⟨st, hst⟩ := Config.commit_started hdir hw hmem
    refine ⟨tid, ts, h₁, h₃, hh, ?_, fun tid' ts' hlater hkey => ?_⟩
    · rwa [writesAt_mono hst] at hvalue
    · exact hlast tid' ts' (List.mem_append_left _ hlater) (mem_writesAt_mono hkey)
  · refine absurd ?_ (hes tid ts)
    rw [hsplit]
    exact List.mem_append_right _ (List.mem_cons_self ..)

/-- A commit is the last write of its keys, and hides none of other ones. -/
theorem LastWrite.commit {C : StepCond} (hdir : cfg.Direct) (hw : cfg.system.Reach C w)
    {s : Shard} {key : Key} {value : Value} {tid : TxnId} {ts : ℕ}
    (h : LastWrite cfg (w.history ++ [(cfg.leaderNode s, Event.applied tid .commit ts)]) s key
      value) :
    (writesAt w.history tid s).lookup key = some value ∨
      (key ∉ writesAt w.history tid s ∧ LastWrite cfg w.history s key value) := by
  have hsame : writesAt (w.history ++ [(cfg.leaderNode s, Event.applied tid .commit ts)]) tid s =
      writesAt w.history tid s := by
    have hframe := startOf_frame (h := w.history) (n := cfg.leaderNode s)
      ((fun h => by cases h) : Node.client tid ≠ cfg.leaderNode s) [Event.applied tid .commit ts]
    simp only [writesAt]
    exact congrArg (fun o => (o.map fun st : Start => (st.piece tid s).writeSet).getD ∅) hframe
  obtain ⟨tid₀, ts₀, h₁, h₂, heq, hvalue, hlast⟩ := h
  rcases split_append heq with ⟨h₃, hh, rfl⟩ | ⟨es₁, hsplit⟩
  · have hmem : (cfg.leaderNode s, Event.applied tid₀ .commit ts₀) ∈ w.history := by
      rw [hh]
      exact List.mem_append_right _ (List.mem_cons_self ..)
    obtain ⟨st, hst⟩ := Config.commit_started hdir hw hmem
    refine .inr ⟨?_, tid₀, ts₀, h₁, h₃, hh, ?_, fun tid' ts' hlater hkey => ?_⟩
    · rw [← hsame]
      exact hlast tid ts (List.mem_append_right _ (List.mem_singleton.2 rfl))
    · rwa [writesAt_mono hst] at hvalue
    · exact hlast tid' ts' (List.mem_append_left _ hlater) (mem_writesAt_mono hkey)
  · have hone : (cfg.leaderNode s, Event.applied tid₀ .commit ts₀) =
        (cfg.leaderNode s, Event.applied tid .commit ts) := by
      rw [← List.mem_singleton, hsplit]
      exact List.mem_append_right _ (List.mem_cons_self ..)
    cases hone
    rw [hsame] at hvalue
    exact .inl hvalue

/-- The versions of a leader after a commit that fits. -/
theorem fits_get {s : Shard} {store : TxnStore} {msg : CommitMsg}
    (hfits : fits w s store msg = true) (key : Key) :
    (∀ value, (writesAt w.history msg.tid s).lookup key = some value →
      ∃ t, (store.commit msg.tid msg.timestamp).kv.get key = some (t, value)) ∧
    (key ∉ writesAt w.history msg.tid s →
      (store.commit msg.tid msg.timestamp).kv.get key = store.kv.get key) := by
  obtain ⟨hentry, hall⟩ := (Bool.and_eq_true _ _).mp hfits
  obtain ⟨txn, htxn, hwrites⟩ := Option.map_eq_some_iff.1 (of_decide_eq_true hentry)
  rw [TxnStore.kv_commit, htxn]
  simp only [VersionedKVStore.get_install, hwrites]
  constructor
  · intro value hvalue
    have hold := List.all_eq_true.1 hall (key, value) (Table.mem_toList.2 hvalue)
    rw [hvalue]
    cases hget : store.kv.get key with
    | none => exact ⟨_, rfl⟩
    | some cur =>
        simp only [hget, Option.all_some, Bool.or_eq_true, decide_eq_true_eq] at hold
        simp only [newest]
        split_ifs with hlt
        · exact ⟨_, rfl⟩
        · exact ⟨cur.1, by rw [← hold.resolve_left hlt]⟩
  · intro hnot
    rw [AList.lookup_eq_none.2 hnot]

/-- **The last write of a key is its latest version** at the leader. -/
theorem Config.lastWrite_get (hmode : cfg.mode = .fast ∨ cfg.mode = .parallel)
    (hw : cfg.system.Reach freshCommits w) {s : Shard} {key : Key} {value : Value}
    (hlast : LastWrite cfg w.history s key value) :
    ∃ t, (w.replica s (cfg.leader s)).store.kv.get key = some (t, value) := by
  have hdir : cfg.Direct := hmode.imp_right .inl
  have hrc : cfg.mode ≠ .rc := by rcases hmode with h | h <;> rw [h] <;> (intro h; cases h)
  revert hlast
  refine hw.induct (J := fun w => LastWrite cfg w.history s key value →
    ∃ t, (GlobalState.replica w s (cfg.leader s)).store.kv.get key = some (t, value)) ?_ ?_
  · rintro ⟨tid, ts, h₁, h₂, heq, _⟩
    simp [Protocol.start] at heq
  intro (w : GlobalState) n ω input hw ih hen hcond hlast
  by_cases hn : cfg.leaderNode s = n
  · subst hn
    set x := (cfg.system.handle (cfg.leaderNode s) ω input
      { state := w.replica s (cfg.leader s) }).state
    have hstate : (GlobalState.replica (cfg.system.next w (cfg.leaderNode s) ω input) s
        (cfg.leader s)) = x.state := Function.update_self ..
    rw [hstate]
    cases hcommit : Replica.commitOf input with
    | none =>
        have hops : Replica.Ops ⟨cfg, s, cfg.leader s⟩ _ _ _ _ x := Config.step_ops hdir hw ω hen
        rw [hops.kv_get (Replica.commitOf_none hcommit) (decide_eq_true rfl) hrc]
        refine ih (hlast.old hdir hw fun tid ts hmem => ?_)
        obtain ⟨e, he, heq⟩ := List.mem_map.1 hmem
        cases heq
        rcases hops.applied_commit he with hold | ⟨hC, _⟩
        · cases hold
        · exact Replica.commitOf_none hcommit hC
    | some msg =>
        have hinst : Replica.Installs msg { state := w.replica s (cfg.leader s) } x :=
          Prog.wp_state (Replica.handleInput_installs hcommit)
        rcases hinst with ⟨hstore, hevents⟩ | ⟨hpart, hstore, hevents⟩
        · rw [hstore]
          refine ih (hlast.old hdir hw fun tid ts hmem => ?_)
          obtain ⟨e, he, _⟩ := List.mem_map.1 hmem
          have he' : e ∈ x.events := he
          rw [hevents] at he'
          cases he'
        · have hfits : fits w s (w.replica s (cfg.leader s)).store msg = true := by
            simp only [freshCommits, commitFits, Config.leaderNode, hcommit, hpart,
              Bool.not_true, Bool.false_or] at hcond
            exact hcond
          have hhist : (cfg.system.next w (cfg.leaderNode s) ω input).history = w.history ++
              [(cfg.leaderNode s, Event.applied msg.tid .commit msg.timestamp)] := by
            show w.history ++ x.events.map _ = _
            rw [hevents]
            rfl
          rw [hhist] at hlast
          rw [hstore]
          rcases hlast.commit hdir hw with hnew | ⟨hnot, hold⟩
          · exact (fits_get hfits key).1 value hnew
          · rw [(fits_get hfits key).2 hnot]
            exact ih hold
  · have hstate : (GlobalState.replica (cfg.system.next w n ω input) s (cfg.leader s)) =
        w.replica s (cfg.leader s) := Function.update_of_ne hn ..
    rw [hstate]
    refine ih (hlast.old hdir hw fun tid ts hmem => ?_)
    obtain ⟨e, _, heq⟩ := List.mem_map.1 hmem
    exact hn (congrArg Prod.fst heq).symm

/-- What a leader answers to a read of `key`. -/
def GlobalState.get (w : GlobalState) (cfg : Config) (s : Shard) (reader : TxnId) (key : Key) :
    TxnStore.GetReply :=
  (w.replica s (cfg.leader s)).store.getUpcall cfg.mode reader key

/-- A commit is visible at its leader until the next commit that writes the key, unless the
write of a pre-committed transaction is pending. -/
def Visible (cfg : Config) (w : GlobalState) : Prop :=
  ∀ s tid ts h₁ h₂ key value reader,
    w.history = h₁ ++ (cfg.leaderNode s, Event.applied tid .commit ts) :: h₂ →
    (writesAt w.history tid s).lookup key = some value →
    (∀ tid' ts', (cfg.leaderNode s, Event.applied tid' .commit ts') ∈ h₂ →
      key ∉ writesAt w.history tid' s) →
    (w.replica s (cfg.leader s)).store.kv.pending key = [] →
    (w.get cfg s reader key).status = replyOk ∧ (w.get cfg s reader key).value = value

/-- **Committed writes are visible**, in the runs whose commits are fresh. -/
theorem commit_visible (hmode : cfg.mode = .fast ∨ cfg.mode = .parallel)
    (hw : cfg.system.Reach freshCommits w) : Visible cfg w := by
  intro s tid ts h₁ h₂ key value reader heq hvalue hlast hpend
  obtain ⟨t, ht⟩ := Config.lastWrite_get hmode hw ⟨tid, ts, h₁, h₂, heq, hvalue, hlast⟩
  have hdep : (w.replica s (cfg.leader s)).store.getDependency reader key ({}, "") =
      some ((t, value), 0) := by
    have hkv : (w.replica s (cfg.leader s)).store.kv.getDependency key ({}, "") =
        some ((t, value), 0) := by
      simp only [VersionedKVStore.getDependency, ht, hpend, List.getLast?_nil]
    cases hstore : (w.replica s (cfg.leader s)).store with
    | occ st => rwa [hstore] at hkv
    | lock st => rwa [hstore] at hkv
  simp only [GlobalState.get, TxnStore.getUpcall, hdep]
  exact ⟨trivial, trivial⟩

/-- A write of one key in the fast mode, up to the commit at the leader. -/
def fastWrite : Commands := fastVote ++ [deliver 6, act 7 .wake, deliver 7]

theorem fastWrite_runs : ((threeReplicas .fast 1).run freshCommits fastWrite).isSome := by
  decide +kernel

theorem fastWrite_visible :
    ∃ w : GlobalState, (threeReplicas .fast 1).system.Reach freshCommits w ∧
      ((threeReplicas .fast 1).leaderNode 0, Event.applied 7 .commit 0) ∈ w.history ∧
      (w.get (threeReplicas .fast 1) 0 8 "a").status = replyOk ∧
      (w.get (threeReplicas .fast 1) 0 8 "a").value = "1" := by
  have hw := Config.reach_run fastWrite_runs
  refine ⟨_, hw, by decide +kernel, ?_⟩
  refine commit_visible (.inl rfl) hw 0 7 0
    (((threeReplicas .fast 1).run freshCommits fastWrite).get fastWrite_runs).history.dropLast []
    "a" "1" 8 ?_ ?_ (fun _ _ h => absurd h List.not_mem_nil) ?_
  all_goals decide +kernel

/-- The same deployment with a key loaded at `Timestamp()`. -/
def loadedKey : Config :=
  { threeReplicas .fast 1 with
    store := fun _ _ => TxnStore.load "a" "0" {} (.occ { store := {} }) }

theorem loadedKey_runs : (loadedKey.run anyStep fastWrite).isSome := by
  decide +kernel

theorem loadedKey_not_visible :
    ¬ ∀ w : GlobalState, loadedKey.system.Reach anyStep w → Visible loadedKey w := by
  intro hall
  have hget := hall _ (Config.reach_run loadedKey_runs) 0 7 0
    ((loadedKey.run anyStep fastWrite).get loadedKey_runs).history.dropLast [] "a" "1" 8
    (by decide +kernel) (by decide +kernel) (fun _ _ h => absurd h List.not_mem_nil)
    (by decide +kernel)
  have hold : (GlobalState.get ((loadedKey.run anyStep fastWrite).get loadedKey_runs) loadedKey 0 8
      "a").value = "0" := by
    decide +kernel
  rw [hold] at hget
  exact absurd hget.2 (by decide)

end D2PC
