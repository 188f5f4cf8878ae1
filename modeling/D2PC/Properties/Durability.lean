import D2PC.Invariant.Run

/-!
# Votes and announcements are durable

What the leader of a shard and the coordinators may rely on in every run of the direct
modes. Replies are matched by transaction and followers compare log numbers only, yet a
reply stands for an entry in the log of its sender with the write set the leader validated.

* `log_matching` : a follower has only entries of its leader, and no log replaces an entry;
* `vote_durable` : when a leader reaches consensus, `f + 1` replicas hold the write set it
  validated;
* `announcement_durable` : when a coordinator announces a commit, it is the one of the
  primary shard, and every participant is validated, logged and held by a majority.
-/

namespace D2PC

open Protocol

variable {cfg : Config} {w : GlobalState}

/-- A recorded entry is still in the log of the replica, unchanged up to its state. -/
theorem Config.log_kept (hdir : cfg.Direct) {C : StepCond} (hw : cfg.system.Reach C w) {s : Shard}
    {i lsn : ℕ} {e₀ : LogEntry} (he : (Node.replica s i, Event.logged lsn e₀) ∈ w.history) :
    i < cfg.n ∧ Entry cfg w.history s e₀ ∧
      ∃ e, (w.replica s i).log.find lsn = some e ∧ e₀.Same e := by
  have hr : ReplicaOk cfg s i w.history (w.replica s i) :=
    (Config.invariant hdir hw).1 (.replica s i)
  exact ⟨(Config.replica_lt hw he).2, (hr.events _ he).2, hr.log.kept lsn e₀ he⟩

/-- **Logs match.** Whenever a replica has an entry under a number, the leader of its shard has
one with the same term, transaction and write set under that number, and every log keeps
these of every entry for the rest of the run. -/
theorem log_matching {w' : GlobalState} (hdir : cfg.Direct) (hw : cfg.system.Reach anyStep w)
    (hlater : cfg.system.Later anyStep w w') {s : Shard} {i lsn : ℕ} {e : LogEntry}
    (he : (w.replica s i).log.find lsn = some e) :
    (∃ e₁, (w.replica s (cfg.leader s)).log.find lsn = some e₁ ∧
      e₁.term = e.term ∧ e₁.txn = e.txn ∧ e₁.wset = e.wset) ∧
    ∃ e', (w'.replica s i).log.find lsn = some e' ∧
      e'.term = e.term ∧ e'.txn = e.txn ∧ e'.wset = e.wset := by
  have hr : ReplicaOk cfg s i w.history (w.replica s i) :=
    (Config.invariant hdir hw).1 (.replica s i)
  obtain ⟨hid, e₀, he₀, hsame⟩ := hr.log.own lsn e he
  constructor
  · -- the entry was recorded, so the leader recorded one under the same number
    obtain ⟨_, hentry, _⟩ := Config.log_kept hdir hw he₀
    obtain ⟨e₁, he₁, hsame₁⟩ := hentry.logged
    have hnum : e₀.id = lsn := hsame.id.symm.trans hid
    rw [hnum] at he₁
    obtain ⟨_, _, e₂, he₂, hsame₂⟩ := Config.log_kept hdir hw he₁
    refine ⟨e₂, he₂, ?_, ?_, ?_⟩
    · rw [hsame₂.term, hsame.term, hsame₁.term]
    · rw [hsame₂.txn, hsame.txn, hsame₁.txn]
    · rw [hsame₂.wset, hsame.wset, hsame₁.wset]
  · -- the record is still there later, and the log still has what was recorded
    obtain ⟨es, hes⟩ := hlater.history
    have he₀' : (Node.replica s i, Event.logged lsn e₀) ∈ w'.history := by
      rw [hes]
      exact mem_mono he₀
    obtain ⟨_, _, e', he', hsame'⟩ := Config.log_kept hdir (hw.later hlater) he₀'
    refine ⟨e', he', ?_, ?_, ?_⟩
    · rw [hsame'.term, hsame.term]
    · rw [hsame'.txn, hsame.txn]
    · rw [hsame'.wset, hsame.wset]

/-- **A vote is durable.** When the leader of `s` has set `reach_consensus` for `tid`, at least
`f + 1` replicas of the shard hold an entry for `tid` with the write set it validated, which
is the same however often it validated `tid`. -/
theorem vote_durable (hdir : cfg.Direct) (hw : cfg.system.Reach anyStep w) {s : Shard}
    {tid : TxnId} (hc : Consensus cfg w.history s tid) :
    ∃ wset, (cfg.leaderNode s, Event.validated tid wset) ∈ w.history ∧
      (∀ wset', (cfg.leaderNode s, Event.validated tid wset') ∈ w.history → wset' = wset) ∧
      ∃ Q : Finset ℕ, cfg.f + 1 ≤ Q.card ∧ ∀ i ∈ Q, i < cfg.n ∧
        ∃ lsn e, (w.replica s i).log.find lsn = some e ∧ e.txn = tid ∧ e.wset = wset := by
  have hlead : ReplicaOk cfg s (cfg.leader s) w.history (w.replica s (cfg.leader s)) :=
    (Config.invariant hdir hw).1 (.replica s (cfg.leader s))
  obtain ⟨Q, hcard, hQ⟩ : Quorum w.history s tid cfg.quorumSize := hlead.events _ hc
  -- any member of the quorum tells the write set
  obtain ⟨i₀, hi₀⟩ : Q.Nonempty := by
    rw [← Finset.card_pos]
    exact Nat.lt_of_lt_of_le (Nat.succ_pos _) hcard
  obtain ⟨_, e₀, he₀, htid₀⟩ := hQ i₀ hi₀
  obtain ⟨_, hentry₀, _⟩ := Config.log_kept hdir hw he₀
  subst htid₀
  refine ⟨e₀.wset, hentry₀.validated, fun wset' hv => ?_, Q, hcard, fun i hi => ?_⟩
  · have hpiece : Piece w.history e₀.txn s wset' := hlead.events _ hv
    exact hpiece.unique hentry₀.piece
  · obtain ⟨lsn, e₁, he₁, htid₁⟩ := hQ i hi
    obtain ⟨hlt, hentry₁, e, he, hsame⟩ := Config.log_kept hdir hw he₁
    have hpiece := hentry₁.piece
    rw [htid₁] at hpiece
    exact ⟨hlt, lsn, e, he, hsame.txn.trans htid₁,
      hsame.wset.trans (hpiece.unique hentry₀.piece)⟩

/-- A deployment of three replicas for each shard, with the keys spread over two shards. -/
def threeReplicas (mode : TpcMode) (nshards : ℕ) : Config where
  n := 3
  f := 1
  nshards := nshards
  mode := mode
  keyToShard key := if key = "a" then 0 else 1
  clientId _ := 0
  closestReplica _ := some 0
  store _ _ := .occ { store := {} }
  initialTs _ _ := 0

/-- A client acts, with every send reporting success. -/
def act (tid : TxnId) (a : Client.Action) : Cmd Node Act Choice :=
  .act (.client tid) {} (.client a)

/-- The packet at a position of the network is delivered. -/
def deliver (i : ℕ) : Cmd Node Act Choice := .deliver i {}

/-- A write of one key in the fast mode, up to the reply of one follower. -/
def fastVote : Commands :=
  [act 7 (.put "a" "1"), act 7 .commit, act 7 (.task 0), deliver 0, deliver 1, deliver 2,
    deliver 4, deliver 5]

theorem fastVote_runs : ((threeReplicas .fast 1).run anyStep fastVote).isSome := by
  decide +kernel

theorem fastVote_durable :
    ∃ w : GlobalState, (threeReplicas .fast 1).system.Reach anyStep w ∧
      Consensus (threeReplicas .fast 1) w.history 0 7 ∧
      ∃ wset, ((threeReplicas .fast 1).leaderNode 0, Event.validated 7 wset) ∈ w.history ∧
        ∃ Q : Finset ℕ, 2 ≤ Q.card ∧ ∀ i ∈ Q, i < 3 ∧
          ∃ lsn e, (w.replica 0 i).log.find lsn = some e ∧ e.txn = 7 ∧ e.wset = wset := by
  have hc : Consensus (threeReplicas .fast 1)
      (((threeReplicas .fast 1).run anyStep fastVote).get fastVote_runs).history 0 7 := by
    unfold Consensus
    decide +kernel
  obtain ⟨wset, hv, _, hQ⟩ := vote_durable (.inl rfl) (Config.reach_run fastVote_runs) hc
  exact ⟨_, Config.reach_run fastVote_runs, hc, wset, hv, hQ⟩

/-- The entry of the follower after its reply was sent, and after the leader got all replies. -/
theorem fastVote_log_matching :
    ∃ w w' : GlobalState, (threeReplicas .fast 1).system.Reach anyStep w ∧
      (threeReplicas .fast 1).system.Later anyStep w w' ∧
      ∃ e, (w.replica 0 1).log.find 0 = some e ∧ e.txn = 7 ∧
        (∃ e₁, (w.replica 0 0).log.find 0 = some e₁ ∧ e₁.txn = 7) ∧
        ∃ e', (w'.replica 0 1).log.find 0 = some e' ∧ e'.txn = 7 := by
  have hsome : ((threeReplicas .fast 1).system.exec anyStep
      (((threeReplicas .fast 1).run anyStep fastVote).get fastVote_runs) [deliver 3]).isSome := by
    decide +kernel
  have hw := Config.reach_run fastVote_runs
  have hlater := Protocol.Later.exec .refl (Option.some_get hsome).symm
  have hentry : ((GlobalState.replica (((threeReplicas .fast 1).run anyStep fastVote).get
      fastVote_runs) 0 1).log.find 0).map LogEntry.txn = some 7 := by
    decide +kernel
  obtain ⟨e, he, htxn⟩ := Option.map_eq_some_iff.1 hentry
  obtain ⟨⟨e₁, he₁, _, htxn₁, _⟩, e', he', _, htxn', _⟩ :=
    log_matching (.inl rfl) hw hlater he
  exact ⟨_, _, hw, hlater, e, he, htxn, ⟨e₁, he₁, htxn₁.trans htxn⟩, e', he', htxn'.trans htxn⟩

/-! ### Announcements -/

/-- **An announcement is durable.** When coordinator `c` has sent `NotifyReplicateResult` for
`tid`, then `c` is the coordinator of the primary shard and the only one to do so, the leader
of every participant validated `tid` and logged it, and `n / 2 + 1` replicas of every
participant have `tid` in their log. -/
theorem announcement_durable (hmode : cfg.mode = .parallel) (hw : cfg.system.Reach anyStep w)
    {c : ℕ} {tid : TxnId} (ha : (Node.coordinator c, Event.announced tid) ∈ w.history) :
    ∃ st, startOf w.history tid = some st ∧ c = st.primary % cfg.n ∧
      (∀ c', (Node.coordinator c', Event.announced tid) ∈ w.history → c' = c) ∧
      ∀ s ∈ st.participants,
        (∃ wset, (cfg.leaderNode s, Event.validated tid wset) ∈ w.history) ∧
        (∃ lsn e, (w.replica s (cfg.leader s)).log.find lsn = some e ∧ e.txn = tid) ∧
        ∃ Q : Finset ℕ, cfg.n / 2 + 1 ≤ Q.card ∧ ∀ i ∈ Q, i < cfg.n ∧
          ∃ lsn e, (w.replica s i).log.find lsn = some e ∧ e.txn = tid := by
  have hdir : cfg.Direct := .inr (.inl hmode)
  have hinv := (Config.invariant hdir hw).1
  have hevent : ∀ c', (Node.coordinator c', Event.announced tid) ∈ w.history →
      CoordinatorEventOk cfg c' w.history (.announced tid) := fun c' hc' =>
    (show CoordinatorOk cfg c' w.history (w.coordinator c') from
      hinv (.coordinator c')).events _ hc'
  have hlogged : ∀ {s i}, LoggedAt w.history s i tid → i < cfg.n ∧
      ∃ lsn e, (w.replica s i).log.find lsn = some e ∧ e.txn = tid := by
    intro s i ⟨lsn, e₀, he₀, htid⟩
    obtain ⟨hlt, _, e, he, hsame⟩ := Config.log_kept hdir hw he₀
    exact ⟨hlt, lsn, e, he, hsame.txn.trans htid⟩
  obtain ⟨_, ⟨st, hst, hall⟩, hhome⟩ := hevent c ha
  have hindex : ∀ {c'}, Home cfg w.history tid c' → c' = st.primary % cfg.n := by
    intro c' ⟨st', hst', hc'⟩
    rw [Option.some.inj (hst.symm.trans hst')]
    exact hc'
  refine ⟨st, hst, hindex hhome, fun c' hc' => ?_, fun s hs => ?_⟩
  · rw [hindex (hevent c' hc').2.2, hindex hhome]
  · obtain ⟨⟨hv, hl⟩, Q, hcard, hQ⟩ := hall s hs
    exact ⟨hv, (hlogged hl).2, Q, hcard, fun i hi => hlogged (hQ i hi)⟩

/-- A write of one key in the parallel mode, up to the announcement. -/
def parallelVote : Commands :=
  [act 7 (.put "a" "1"), act 7 .commit, act 7 (.task 0), act 7 (.task 0), deliver 0, deliver 2,
    deliver 3, deliver 6, deliver 8, deliver 10, deliver 11]

theorem parallelVote_runs : ((threeReplicas .parallel 1).run anyStep parallelVote).isSome := by
  decide +kernel

theorem parallelVote_durable :
    ∃ w : GlobalState, (threeReplicas .parallel 1).system.Reach anyStep w ∧
      (Node.coordinator 0, Event.announced 7) ∈ w.history ∧
      ∃ st, startOf w.history 7 = some st ∧ 0 = st.primary % 3 ∧ ∀ s ∈ st.participants,
        ∃ Q : Finset ℕ, 2 ≤ Q.card ∧ ∀ i ∈ Q, i < 3 ∧
          ∃ lsn e, (w.replica s i).log.find lsn = some e ∧ e.txn = 7 := by
  have ha : (Node.coordinator 0, Event.announced 7) ∈
      (((threeReplicas .parallel 1).run anyStep parallelVote).get parallelVote_runs).history := by
    decide +kernel
  obtain ⟨st, hst, hc, _, hall⟩ :=
    announcement_durable rfl (Config.reach_run parallelVote_runs) ha
  exact ⟨_, Config.reach_run parallelVote_runs, ha, st, hst, hc, fun s hs => (hall s hs).2.2⟩

end D2PC
