import D2PC.Invariant.Direct

/-!
# Clients keep the invariant

One lemma for each operation of a client in the direct modes. The read phase leaves nothing
behind that a later round could confuse with a vote, since a read is waited for; within the
rounds every request belongs to a participant, so that as many answers as participants are
an answer of every participant.

* `Client.finish_good` : the decision is announced once and only for a reason;
* `Client.round_good` : what a round hands to the transport thread;
* `Client.handleInput_good` : every step.
-/

namespace D2PC

open Prog Ctx

section Frames

variable {cfg : Config} {tid : TxnId} {h es : History} {c c' : Client} {st : Start}

/-! ### Frames -/

theorem PromiseOk.mono {ps : List Shard} {p : Promise} (hp : PromiseOk cfg h tid ps p) :
    PromiseOk cfg (h ++ es) tid ps p := by
  refine ⟨hp.number, fun s r hr => ?_, hp.done, fun hf hr => (hp.reply hf hr).mono⟩
  obtain ⟨h₁, h₂, h₃⟩ := hp.replies s r hr
  exact ⟨h₁, h₂, h₃.mono⟩

theorem TaskOk.mono {t : Task} (ht : TaskOk cfg h tid t) : TaskOk cfg (h ++ es) tid t := by
  cases t with
  | get s keys a => trivial
  | prepare s txn a =>
      obtain ⟨st, hst, hrest⟩ := ht
      exact ⟨st, startOf_mono hst, hrest⟩
  | parallelModeCommit s ps a => exact ⟨ht.1, ht.2.mono⟩

theorem StartedOk.mono (hc : StartedOk cfg h tid st c) : StartedOk cfg (h ++ es) tid st c :=
  ⟨startOf_mono hc.start, hc.participants, hc.nodup, hc.primary, hc.buffers,
    fun t ht => ⟨(hc.tasks t ht).1.mono, (hc.tasks t ht).2⟩, hc.requests⟩

/-- A client in another phase, whose requests are among those it had, and whose tasks and
buffers are unchanged. -/
theorem StartedOk.shrink (hc : StartedOk cfg h tid st c) (hps : c'.participants = c.participants)
    (htxns : c'.txns = c.txns) (htasks : c'.tasks = c.tasks)
    (hreqs : ∀ s req, c'.pendingReqs.lookup s = some req → c.pendingReqs.lookup s = some req) :
    StartedOk cfg h tid st c' := by
  refine ⟨hc.start, hps.trans hc.participants, hc.nodup, hc.primary, fun s => ?_, ?_,
    fun s req hreq => hc.requests s req (hreqs s req hreq)⟩
  · rw [Client.buffered, htxns]
    exact hc.buffers s
  · rw [htasks]
    exact hc.tasks

theorem PhaseOk.frame (hc : PhaseOk cfg h tid c) {n : Node} (hn : Node.client tid ≠ n)
    (es : List Event) : PhaseOk cfg (h ++ es.map (n, ·)) tid c := by
  have hdec : ∀ b, Decided (h ++ es.map (n, ·)) tid b ↔ Decided h tid b := fun b => mem_frame hn
  have hrun : RunningOk h tid c → RunningOk (h ++ es.map (n, ·)) tid c := fun hr =>
    ⟨(startOf_frame hn es).trans hr.start, fun b hb => hr.undecided b ((hdec b).1 hb),
      hr.parallel, hr.nodup, hr.buffers⟩
  unfold PhaseOk at hc ⊢
  split at hc
  · exact ⟨hrun hc.1, hc.2⟩
  · exact ⟨hrun hc.1, hc.2⟩
  · obtain ⟨st, hst, hund, hpromise⟩ := hc
    exact ⟨st, hst.mono, fun b hb => hund b ((hdec b).1 hb), fun p hp => (hpromise p hp).mono⟩
  · exact hc.imp (fun ⟨st, hst⟩ => ⟨st, hst.mono⟩) fun hidle =>
      ⟨(startOf_frame hn es).trans hidle.1, hidle.2⟩

theorem ClientOk.frame (hc : ClientOk cfg tid h c) {n : Node} (hn : Node.client tid ≠ n)
    (es : List Event) : ClientOk cfg tid (h ++ es.map (n, ·)) c := by
  have hdec : ∀ b, Decided (h ++ es.map (n, ·)) tid b ↔ Decided h tid b := fun b => mem_frame hn
  refine ⟨hc.phase.frame hn es, ?_, fun hb => ?_⟩
  · rw [hdec, hdec]
    exact hc.once
  · rcases hc.outcome ((hdec true).1 hb) with hann | ⟨st, hst, hall⟩
    · exact .inl hann.mono
    · exact .inr ⟨st, startOf_mono hst, fun s hs => (hall s hs).mono⟩

/-- A step of the client that records nothing. -/
theorem ClientOk.update (hc : ClientOk cfg tid h c) (hphase : PhaseOk cfg h tid c') :
    ClientOk cfg tid h c' :=
  ⟨hphase, hc.once, hc.outcome⟩

/-! ### Phases -/

theorem RunningOk.shrink (hc : RunningOk h tid c) (hps : c'.participants = c.participants)
    (htxns : c'.txns = c.txns)
    (hpar : c'.pendingParallelCommits = c.pendingParallelCommits) : RunningOk h tid c' := by
  refine ⟨hc.start, hc.undecided, ?_, ?_, ?_⟩
  · rw [hpar]
    exact hc.parallel
  · rw [hps]
    exact hc.nodup
  · rw [htxns]
    exact hc.buffers

/-- Requests and parallel commits are dropped, and shards forget their promise. -/
theorem PhaseOk.drop (hc : PhaseOk cfg h tid c) (reqs : Table Shard LRClient.PendingRequest)
    (hreqs : ∀ s req, reqs.lookup s = some req → c.pendingReqs.lookup s = some req)
    (pars : Table Shard (List Shard))
    (hpars : ∀ s x, pars.lookup s = some x → c.pendingParallelCommits.lookup s = some x)
    (waiting : Table Shard ℕ) :
    PhaseOk cfg h tid { c with
      pendingReqs := reqs, pendingParallelCommits := pars, waiting := waiting } := by
  have hnone : (∀ s, c.pendingReqs.lookup s = none) → ∀ s, reqs.lookup s = none := by
    intro hall s
    cases hs : reqs.lookup s with
    | none => rfl
    | some req =>
        have hold := hreqs s req hs
        rw [hall s] at hold
        cases hold
  have hparnone : (∀ s, c.pendingParallelCommits.lookup s = none) → ∀ s, pars.lookup s = none := by
    intro hall s
    cases hs : pars.lookup s with
    | none => rfl
    | some x =>
        have hold := hpars s x hs
        rw [hall s] at hold
        cases hold
  have hrun : ∀ {phase}, RunningOk h tid c → RunningOk h tid { c with
      phase := phase, pendingReqs := reqs, pendingParallelCommits := pars,
      waiting := waiting } := fun hr =>
    ⟨hr.start, hr.undecided, hparnone hr.parallel, hr.nodup, hr.buffers⟩
  cases hphase : c.phase with
  | running =>
      simp only [PhaseOk, hphase] at hc ⊢
      exact ⟨hrun hc.1, hc.2.1, hnone hc.2.2⟩
  | reading s₀ keys record rest =>
      simp only [PhaseOk, hphase] at hc ⊢
      refine ⟨hrun hc.1, ?_⟩
      cases hc.2 with
      | idle htasks hall => exact .idle htasks (hnone hall)
      | queued s keys a htasks hall hp => exact .queued s keys a htasks (hnone hall) hp
      | sent s htasks hone hp =>
          exact .sent s htasks (fun s' req hreq => hone s' req (hreqs s' req hreq)) hp
  | preparing k =>
      simp only [PhaseOk, hphase] at hc ⊢
      obtain ⟨st, hst, hund, hpromise⟩ := hc
      exact ⟨st, hst.shrink rfl rfl rfl hreqs, hund, hpromise⟩
  | finished =>
      simp only [PhaseOk, hphase] at hc ⊢
      exact hc.imp (fun ⟨st, hst⟩ => ⟨st, hst.shrink rfl rfl rfl hreqs⟩) fun hidle =>
        ⟨hidle.1, hidle.2.1, hnone hidle.2.2.1, hparnone hidle.2.2.2⟩

theorem lookup_of_erase {ν : Type} {t : Table Shard ν} {s s' : Shard} {x : ν}
    (hx : (t.erase s).lookup s' = some x) : t.lookup s' = some x := by
  rw [Table.lookup_erase_eq] at hx
  split_ifs at hx
  exact hx

theorem PhaseOk.eraseReq (hc : PhaseOk cfg h tid c) (s : Shard) :
    PhaseOk cfg h tid { c with pendingReqs := c.pendingReqs.erase s } :=
  hc.drop _ (fun _ _ => lookup_of_erase) _ (fun _ _ hx => hx) c.waiting

theorem PhaseOk.setWaiting (hc : PhaseOk cfg h tid c) (waiting : Table Shard ℕ) :
    PhaseOk cfg h tid { c with waiting := waiting } :=
  hc.drop _ (fun _ _ hr => hr) _ (fun _ _ hx => hx) waiting

theorem PhaseOk.eraseParallel (hc : PhaseOk cfg h tid c) (s : Shard) :
    PhaseOk cfg h tid { c with pendingParallelCommits := c.pendingParallelCommits.erase s } :=
  hc.drop _ (fun _ _ hr => hr) _ (fun _ _ => lookup_of_erase) c.waiting

/-- A promise is answered: in the read phase no read is outstanding any more, in a round the
answer is a good one. -/
theorem PhaseOk.setPromise (hc : PhaseOk cfg h tid c) {p : Promise}
    (hread : ∀ s keys record rest, c.phase = .reading s keys record rest →
      c.tasks = [] ∧ ∀ s, c.pendingReqs.lookup s = none)
    (hround : ∀ k st, c.phase = .preparing k → StartedOk cfg h tid st c →
      (∀ p, c.promise = some p → PromiseOk cfg h tid st.participants p) →
      PromiseOk cfg h tid st.participants p) :
    PhaseOk cfg h tid { c with promise := some p } := by
  have hrun : ∀ {phase}, RunningOk h tid c →
      RunningOk h tid { c with phase := phase, promise := some p } := fun hr =>
    hr.shrink rfl rfl rfl
  have hstarted : ∀ {phase st}, StartedOk cfg h tid st c →
      StartedOk cfg h tid st { c with phase := phase, promise := some p } := fun hst =>
    hst.shrink rfl rfl rfl fun _ _ hr => hr
  cases hphase : c.phase with
  | running =>
      simp only [PhaseOk, hphase] at hc ⊢
      exact ⟨hrun hc.1, hc.2⟩
  | reading s₀ keys record rest =>
      simp only [PhaseOk, hphase] at hc ⊢
      obtain ⟨htasks, hall⟩ := hread _ _ _ _ hphase
      exact ⟨hrun hc.1, .idle htasks hall⟩
  | preparing k =>
      simp only [PhaseOk, hphase] at hc ⊢
      obtain ⟨st, hst, hund, hpromise⟩ := hc
      refine ⟨st, hstarted hst, hund, fun q hq => ?_⟩
      cases hq
      exact hround k st hphase hst hpromise
  | finished =>
      simp only [PhaseOk, hphase] at hc ⊢
      exact hc.imp (fun ⟨st, hst⟩ => ⟨st, hstarted hst⟩) id

/-- A request for data is outstanding only in the read phase, and is the only request. -/
theorem PhaseOk.only_getData (hc : PhaseOk cfg h tid c) {s : Shard}
    (hreq : c.pendingReqs.lookup s = some .getData) :
    (∀ k, c.phase ≠ .preparing k) ∧ c.tasks = [] ∧
      ∀ s' req, c.pendingReqs.lookup s' = some req → s' = s := by
  have hno : (∀ s, c.pendingReqs.lookup s = none) → False := fun hall => by
    rw [hall s] at hreq
    cases hreq
  have hnot : ∀ st, ¬ StartedOk cfg h tid st c := fun st hst =>
    (hst.requests s _ hreq).2 rfl
  cases hphase : c.phase with
  | running =>
      simp only [PhaseOk, hphase] at hc
      exact (hno hc.2.2).elim
  | reading s₀ keys record rest =>
      simp only [PhaseOk, hphase] at hc
      cases hc.2 with
      | idle _ hall => exact (hno hall).elim
      | queued _ _ _ _ hall _ => exact (hno hall).elim
      | sent s₁ htasks hone _ =>
          refine ⟨(fun _ h => by cases h), htasks, fun s' req hreq' => ?_⟩
          rw [(hone s' req hreq').1, (hone s _ hreq).1]
  | preparing k =>
      simp only [PhaseOk, hphase] at hc
      obtain ⟨st, hst, _⟩ := hc
      exact (hnot st hst).elim
  | finished =>
      simp only [PhaseOk, hphase] at hc
      rcases hc with ⟨st, hst⟩ | hidle
      · exact (hnot st hst).elim
      · exact (hno hidle.2.2.1).elim

/-- A request to prepare is outstanding only after the start, and at a participant. -/
theorem PhaseOk.prepare_member (hc : PhaseOk cfg h tid c) {s : Shard}
    {req : LRClient.PendingPrepare} (hreq : c.pendingReqs.lookup s = some (.prepare req)) :
    ∃ st, startOf h tid = some st ∧ s ∈ st.participants := by
  have hno : (∀ s, c.pendingReqs.lookup s = none) → False := fun hall => by
    rw [hall s] at hreq
    cases hreq
  unfold PhaseOk at hc
  split at hc
  · exact (hno hc.2.2).elim
  · cases hc.2 with
    | idle _ hall => exact (hno hall).elim
    | queued _ _ _ _ hall _ => exact (hno hall).elim
    | sent _ _ hone _ => cases (hone s _ hreq).2
  · obtain ⟨st, hst, _⟩ := hc
    exact ⟨st, hst.start, (hst.requests s _ hreq).1⟩
  · rcases hc with ⟨st, hst⟩ | hidle
    · exact ⟨st, hst.start, (hst.requests s _ hreq).1⟩
    · exact (hno hidle.2.2.1).elim

theorem PhaseOk.parallel_started (hc : PhaseOk cfg h tid c) {s : Shard} {x : List Shard}
    (hreq : c.pendingParallelCommits.lookup s = some x) : ∃ st, startOf h tid = some st := by
  have hno : (∀ s, c.pendingParallelCommits.lookup s = none) → False := fun hall => by
    rw [hall s] at hreq
    cases hreq
  unfold PhaseOk at hc
  split at hc
  · exact (hno hc.1.parallel).elim
  · exact (hno hc.1.parallel).elim
  · obtain ⟨st, hst, _⟩ := hc
    exact ⟨st, hst.start⟩
  · rcases hc with ⟨st, hst⟩ | hidle
    · exact ⟨st, hst.start⟩
    · exact (hno hidle.2.2.2).elim

theorem PhaseOk.not_reading (hc : PhaseOk cfg h tid c) (hst : startOf h tid = some st)
    {s : Shard} {keys : List Key} {record : Bool} {rest : List (Shard × List Key)} :
    c.phase ≠ .reading s keys record rest := by
  intro hphase
  simp only [PhaseOk, hphase] at hc
  rw [hc.1.start] at hst
  cases hst

/-- A step of a client that has started, which leaves phase and promise as they are. -/
theorem PhaseOk.started {d : Client} (hc : PhaseOk cfg h tid c) (hst : startOf h tid = some st)
    (hphase : d.phase = c.phase) (hpromise : d.promise = c.promise)
    (hstep : StartedOk cfg h tid st c → StartedOk cfg h tid st d) : PhaseOk cfg h tid d := by
  have heq : ∀ {st'}, StartedOk cfg h tid st' c → st' = st := fun hst' =>
    Option.some.inj (hst'.start.symm.trans hst)
  cases hp : c.phase with
  | running =>
      simp only [PhaseOk, hp] at hc
      cases hc.1.start.symm.trans hst
  | reading s keys record rest => exact absurd hp (hc.not_reading hst)
  | preparing k =>
      simp only [PhaseOk, hp] at hc
      simp only [PhaseOk, hphase, hp, hpromise]
      obtain ⟨st', hst', hrest⟩ := hc
      obtain rfl := heq hst'
      exact ⟨st', hstep hst', hrest⟩
  | finished =>
      simp only [PhaseOk, hp] at hc
      simp only [PhaseOk, hphase, hp]
      rcases hc with ⟨st', hst'⟩ | hidle
      · obtain rfl := heq hst'
        exact .inl ⟨st', hstep hst'⟩
      · cases hidle.1.symm.trans hst

/-- A participant is asked to prepare. -/
theorem PhaseOk.insertPrepare (hc : PhaseOk cfg h tid c) (hst : startOf h tid = some st)
    {s : Shard} (hs : s ∈ st.participants) (req : LRClient.PendingPrepare) :
    PhaseOk cfg h tid { c with pendingReqs := c.pendingReqs.insert s (.prepare req) } := by
  refine hc.started hst rfl rfl fun hst' => ?_
  refine ⟨hst'.start, hst'.participants, hst'.nodup, hst'.primary, hst'.buffers, hst'.tasks,
    fun s' req' hreq' => ?_⟩
  rw [Table.lookup_insert_eq] at hreq'
  split_ifs at hreq' with heq
  · cases hreq'
    rw [heq]
    exact ⟨hs, fun h => by cases h⟩
  · exact hst'.requests s' req' hreq'

/-! ### Promises -/

theorem PromiseOk.new (ps : List Shard) (a : ℕ) :
    PromiseOk cfg h tid ps { address := a, participantNumber := ps.length } :=
  ⟨rfl, nofun, nofun, nofun⟩

theorem PromiseOk.replyFinal {ps : List Shard} {p : Promise} (hp : PromiseOk cfg h tid ps p)
    (hann : Announced h tid) (r : ℕ) (t : Timestamp) :
    PromiseOk cfg h tid ps (p.replyFinal r t) :=
  ⟨hp.number, hp.replies, (fun _ _ h => by cases h), fun _ _ => hann⟩

/-- The answer of a participant. -/
theorem PromiseOk.replyShard {ps : List Shard} {p : Promise} (hp : PromiseOk cfg h tid ps p)
    {s : Shard} {r : ℕ} (hs : s ∈ ps) (hr : r = replyOk → Agreed cfg h s tid) (t : Timestamp) :
    PromiseOk cfg h tid ps (p.replyShard s r t) := by
  by_cases hok : r = replyOk
  · rw [Promise.replyShard, if_neg (not_not.2 hok)]
    refine ⟨hp.number, fun s' r' hr' => ?_, fun hdone hfail hfinal => ?_, hp.reply⟩
    · rw [Table.lookup_insert_eq] at hr'
      split_ifs at hr' with hs'
      · cases hr'
        rw [hs']
        exact ⟨hok, hs, hr hok⟩
      · exact hp.replies s' r' hr'
    · rcases Bool.or_eq_true .. ▸ hdone with hold | hnew
      · exact (hp.done hold hfail hfinal).trans (Table.size_le_insert ..)
      · exact (of_decide_eq_true hnew).ge
  · rw [Promise.replyShard, if_pos hok]
    exact ⟨hp.number, hp.replies, (fun _ h => by cases h), fun _ hreply => absurd hreply hok⟩

/-- **A successful round**: announced, or every participant agreed. -/
theorem PromiseOk.success {ps : List Shard} {p : Promise} (hp : PromiseOk cfg h tid ps p)
    (hdone : p.done = true) (hok : p.getPrepareReply = replyOk) :
    Announced h tid ∨ ∀ s ∈ ps, Agreed cfg h s tid := by
  unfold Promise.getPrepareReply at hok
  split_ifs at hok with hfail hfinal
  · exact .inl (hp.reply (.inl hfail) hok)
  · exact .inl (hp.reply (.inr hfinal) hok)
  · rw [Bool.not_eq_true] at hfail hfinal
    have hsize := hp.done hdone hfail hfinal
    rw [hp.number] at hsize
    have hkeys : ∀ s ∈ p.prepareReplies, s ∈ ps := fun s hs => by
      obtain ⟨r, hr⟩ := Option.isSome_iff_exists.1 (AList.lookup_isSome.2 hs)
      exact (hp.replies s r hr).2.1
    refine .inr fun s hs => ?_
    obtain ⟨r, hr⟩ := Table.exists_of_size_eq hkeys hsize hs
    exact (hp.replies s r hr).2.2

end Frames

/-- A client that keeps the invariant. -/
abbrev ClientGood (cfg : Config) (tid : TxnId) (h : History) :
    Ctx Client Addr Msg Event → Prop :=
  Ctx.Good (ClientOk cfg tid) (PacketOk cfg) h (.client tid)

namespace Client

variable {cfg : Config} {tid : TxnId} {h : History} {x : Ctx Client Addr Msg Event} {ω : Choice}
  {s : Shard} {st : Start}

/-- A step that records nothing. -/
theorem good_of_phase (hx : ClientGood cfg tid h x) {c : Client}
    (hc : PhaseOk cfg (past h (.client tid) x) tid c) : ClientGood cfg tid h { x with state := c } :=
  hx.update (hx.node.update hc)

/-! ### Replies and timeouts -/

theorem replyGet_good (hx : ClientGood cfg tid h x) {f : Promise → Promise}
    (hread : ∀ s keys record rest, x.state.phase = .reading s keys record rest →
      x.state.tasks = [] ∧ ∀ s, x.state.pendingReqs.lookup s = none)
    (hround : ∀ k ps p, x.state.phase = .preparing k →
      PromiseOk cfg (past h (.client tid) x) tid ps p →
      PromiseOk cfg (past h (.client tid) x) tid ps (f p)) :
    wp (replyGet ω s f) (fun _ => ClientGood cfg tid h) (ClientGood cfg tid h) x := by
  simp only [replyGet, wp_bind, wp_read]
  cases hw : waitingOn ω x.state s with
  | none => exact good_of_phase hx (hx.node.phase.setWaiting _)
  | some p =>
      simp only [wp_bind, clearWaiting, setPromise, wp_update]
      refine good_of_phase hx
        ((hx.node.phase.setWaiting (x.state.waiting.erase s)).setPromise hread ?_)
      intro k st hphase _ hpromise
      have hp : x.state.promise = some p := waitingOn_promise hw
      exact hround k _ p hphase (hpromise p hp)

theorem getData_none {c : Client} (hc : PhaseOk cfg h tid c)
    (hreq : c.pendingReqs.lookup s = some .getData) (s' : Shard) :
    (c.pendingReqs.erase s).lookup s' = none := by
  rw [Table.lookup_erase_eq]
  split_ifs with hs
  · rfl
  · cases hreq' : c.pendingReqs.lookup s' with
    | none => rfl
    | some req => exact absurd ((hc.only_getData hreq).2.2 s' req hreq') hs

/-- The one read that was waited for is answered. -/
theorem answerRead_good (hx : ClientGood cfg tid h x)
    (hreq : x.state.pendingReqs.lookup s = some .getData) (f : Promise → Promise) :
    wp (erasePendingReq s >>= fun _ => replyGet ω s f) (fun _ => ClientGood cfg tid h)
      (ClientGood cfg tid h) x := by
  have hphase := hx.node.phase
  obtain ⟨hnot, htasks, _⟩ := hphase.only_getData hreq
  simp only [wp_bind, erasePendingReq, wp_update]
  refine replyGet_good (good_of_phase hx (hphase.eraseReq s)) ?_ ?_
  · exact fun _ _ _ _ _ => ⟨htasks, getData_none hphase hreq⟩
  · exact fun k _ _ hk => absurd hk (hnot k)

theorem handleGetDataReply_good (hx : ClientGood cfg tid h x) (msg : GetDataReply) :
    wp (handleGetDataReply ω s msg) (fun _ => ClientGood cfg tid h) (ClientGood cfg tid h) x := by
  simp only [handleGetDataReply, wp_bind, wp_read]
  cases hreq : x.state.pendingReqs.lookup s with
  | none => exact hx
  | some req =>
      cases req with
      | prepare r => exact hx
      | getData => exact answerRead_good hx hreq _

theorem getDateTimeoutCallback_good (hx : ClientGood cfg tid h x) :
    wp (getDateTimeoutCallback ω s) (fun _ => ClientGood cfg tid h) (ClientGood cfg tid h) x := by
  simp only [getDateTimeoutCallback, wp_bind, wp_read]
  cases hreq : x.state.pendingReqs.lookup s with
  | none => exact hx
  | some req =>
      cases req with
      | prepare r => exact hx
      | getData => exact answerRead_good hx hreq _

theorem prepareTimeoutCallback_good (hx : ClientGood cfg tid h x) :
    wp (prepareTimeoutCallback ω s) (fun _ => ClientGood cfg tid h) (ClientGood cfg tid h) x := by
  simp only [prepareTimeoutCallback, wp_bind, wp_read]
  cases hreq : x.state.pendingReqs.lookup s with
  | none => exact hx
  | some req =>
      cases req with
      | getData => exact hx
      | prepare r =>
          have hphase := hx.node.phase
          obtain ⟨st, hst, hs⟩ := hphase.prepare_member hreq
          have hx₁ := good_of_phase hx (hphase.eraseReq s)
          simp only [wp_bind, erasePendingReq, wp_update, wp_read]
          split
          · exact hx₁
          · rename_i p hp
            refine good_of_phase hx₁ (hx₁.node.phase.setPromise ?_ ?_)
            · exact fun _ _ _ _ hread => absurd hread (hphase.not_reading hst)
            · intro k st' _ hst' hpromise
              obtain rfl : st' = st := Option.some.inj (hst'.start.symm.trans hst)
              exact (hpromise p (waitingOn_promise hp)).replyShard hs
                (fun hr => absurd hr (by decide)) _

/-- A shard whose answer is complete agreed, if that is what it answered. -/
theorem collectReply_ok (hdir : cfg.Direct) {req : LRClient.PendingPrepare}
    {msg : PrepareTransactionReply} (hmsg : msg.state = .prepareOk → Agreed cfg h s tid)
    (hstate : (collectReply ⟨cfg, tid⟩ req msg).2.state = .prepareOk) : Agreed cfg h s tid := by
  by_cases hcar : cfg.mode = .carousel
  · exact .inl hcar
  · have hmode : ¬ (cfg.mode = .carousel ∨ cfg.mode = .rc) := by
      rcases hdir with hm | hm | hm <;> simp [hm] at hcar ⊢
    simp only [collectReply, if_neg hmode] at hstate
    exact hmsg hstate

theorem Direct.not_slow (hdir : cfg.Direct) : ¬ (cfg.mode = .slow ∨ cfg.mode = .rc) := by
  rcases hdir with hm | hm | hm <;> simp [hm]

theorem prepareCallback_good (hdir : cfg.Direct) (hx : ClientGood cfg tid h x)
    (hstart : startOf (past h (.client tid) x) tid = some st) (hs : s ∈ st.participants) {r : ℕ}
    (hr : r = replyOk → Agreed cfg (past h (.client tid) x) s tid) (t : ℕ) :
    wp (prepareCallback ⟨cfg, tid⟩ ω s s r t) (fun _ => ClientGood cfg tid h)
      (ClientGood cfg tid h) x := by
  simp only [prepareCallback, wp_bind, wp_read]
  cases hw : waitingOn ω x.state s with
  | none => exact hx
  | some p =>
      simp only [if_neg (Direct.not_slow hdir), wp_ite, wp_pure, setPromise, wp_update]
      refine ⟨fun _ => hx, fun _ => good_of_phase hx (hx.node.phase.setPromise ?_ ?_)⟩
      · exact fun _ _ _ _ hread => absurd hread (hx.node.phase.not_reading hstart)
      · intro k st' _ hst' hpromise
        obtain rfl : st' = st := Option.some.inj (hst'.start.symm.trans hstart)
        exact (hpromise p (waitingOn_promise hw)).replyShard hs hr _

/-- The reply came from the shard whose socket received it. -/
theorem handlePrepareTxnReply_good (hdir : cfg.Direct) (hx : ClientGood cfg tid h x)
    {msg : PrepareTransactionReply} (hshard : msg.shard = s)
    (hmsg : msg.state = .prepareOk → Agreed cfg (past h (.client tid) x) s tid) :
    wp (handlePrepareTxnReply ⟨cfg, tid⟩ ω s msg) (fun _ => ClientGood cfg tid h)
      (ClientGood cfg tid h) x := by
  simp only [handlePrepareTxnReply, respond, LogEntryState.reported, wp_bind, wp_read]
  cases hreq : x.state.pendingReqs.lookup s with
  | none => exact hx
  | some pending =>
      cases pending with
      | getData => exact hx
      | prepare req =>
          have hphase := hx.node.phase
          obtain ⟨st, hstart, hs⟩ := hphase.prepare_member hreq
          have hagreed := @collectReply_ok _ _ _ _ hdir req msg hmsg
          simp only [hshard]
          cases hcol : collectReply ⟨cfg, tid⟩ req msg with
          | mk b req' =>
              rw [hcol] at hagreed
              cases b with
              | true =>
                  simp only [wp_bind]
                  refine wp_mono (fun _ x' hx' => ?_) (fun _ hd => hd)
                    (prepareCallback_good hdir hx hstart hs (fun hr => hagreed ?_) _)
                  · exact good_of_phase hx' (hx'.node.phase.eraseReq s)
                  · by_contra hne
                    rw [if_neg hne] at hr
                    cases hr
              | false => exact good_of_phase hx (hphase.insertPrepare hstart hs req')

theorem handleParallelModeCommitReply_good (hx : ClientGood cfg tid h x)
    {msg : ParallelModeCommitReply} (hann : Announced (past h (.client tid) x) tid) :
    wp (handleParallelModeCommitReply ω s msg) (fun _ => ClientGood cfg tid h)
      (ClientGood cfg tid h) x := by
  simp only [handleParallelModeCommitReply, wp_bind, wp_read]
  cases hreq : x.state.pendingParallelCommits.lookup s with
  | none => exact hx
  | some ps =>
      have hphase := hx.node.phase
      obtain ⟨st, hstart⟩ := hphase.parallel_started hreq
      have hphase₁ := (hphase.eraseParallel s).eraseReq s
      simp only [wp_bind, erasePendingReq, wp_update]
      refine replyGet_good (good_of_phase hx hphase₁) ?_ ?_
      · exact fun _ _ _ _ hread => absurd hread (hphase.not_reading hstart)
      · exact fun _ _ p _ hp => hp.replyFinal hann _ _

/-! ### The transport thread -/

theorem parallelModeCommitTimeout_good (hx : ClientGood cfg tid h x) :
    wp (parallelModeCommitTimeout s) (fun _ => ClientGood cfg tid h) (ClientGood cfg tid h) x :=
  good_of_phase hx (hx.node.phase.eraseParallel s)

/-- The message of a prepare task carries the piece of the shard. -/
theorem prepareMessage_ok (hdir : cfg.Direct) {txn : Transaction} {a : ℕ}
    (ht : TaskOk cfg h tid (.prepare s txn a)) {j : ℕ}
    (hj : cfg.mode ≠ .carousel → j = cfg.leader s) :
    PacketOk cfg h ⟨.client tid s, .replica s j,
      .prepareTransaction (prepareMessage ⟨cfg, tid⟩ txn)⟩ := by
  obtain ⟨st, hst, hs, hbuf, hprimary, hps⟩ := ht
  have hid : (prepareMessage ⟨cfg, tid⟩ txn).tid = tid := hbuf.id
  refine ⟨?_, ?_, s, j, ?_, rfl, hj, ?_, ?_⟩
  · rcases hdir with hm | hm | hm <;> simp [prepareMessage, commitMode, hm]
  · rcases hdir with hm | hm | hm <;> simp [prepareMessage, commitMode, hm]
  · rw [hid]
  · rw [hid]
    refine ⟨st, hst, hs, ?_⟩
    rw [prepareMessage, Table.ofList_toList, hbuf.wset]
  · rw [hid]
    exact ⟨st, hst, hprimary, hps⟩

theorem invokePrepare_good (hdir : cfg.Direct) (hx : ClientGood cfg tid h x) {txn : Transaction}
    {a : ℕ} (ht : TaskOk cfg (past h (.client tid) x) tid (.prepare s txn a)) :
    wp (invokePrepare ⟨cfg, tid⟩ ω s txn) (fun _ => ClientGood cfg tid h)
      (ClientGood cfg tid h) x := by
  obtain ⟨st, hst, hs, _⟩ := id ht
  have hx₁ := good_of_phase hx (hx.node.phase.insertPrepare hst hs
    { leader := cfg.leader s, state := ω.garbageLogState })
  have hsend : wp (sendPrepare ⟨cfg, tid⟩ ω s txn) (fun _ => ClientGood cfg tid h)
      (ClientGood cfg tid h) { x with state := { x.state with
        pendingReqs := x.state.pendingReqs.insert s
          (.prepare { leader := cfg.leader s, state := ω.garbageLogState }) } } := by
    simp only [sendPrepare, sendMessageToAll, sendMessageToReplica, wp_ite, wp_when, wp_send]
    refine ⟨fun hmode => hx₁.send fun p hp => ?_, fun _ => ⟨fun _ => ?_, fun _ => hx₁⟩⟩
    · obtain ⟨j, _, rfl⟩ := List.mem_map.1 hp
      refine prepareMessage_ok hdir ht fun hne => ?_
      have hrc : cfg.mode = .rc := hmode.resolve_left hne
      exact absurd (.inr hrc) (Direct.not_slow hdir)
    · exact hx₁.send_one (prepareMessage_ok hdir ht fun _ => rfl)
  simp only [invokePrepare, wp_bind, wp_update]
  refine wp_mono (fun _ x' hx' => ?_) (fun _ hd => hd) hsend
  simp only [erasePendingReq, wp_when, wp_update]
  exact ⟨fun _ => good_of_phase hx' (hx'.node.phase.eraseReq s), fun _ => hx'⟩

theorem invokeParallelCommit_good (hx : ClientGood cfg tid h x) {ps : List Shard} {a : ℕ}
    (ht : TaskOk cfg (past h (.client tid) x) tid (.parallelModeCommit s ps a)) :
    wp (invokeParallelCommit ⟨cfg, tid⟩ ω s ps) (fun _ => ClientGood cfg tid h)
      (ClientGood cfg tid h) x := by
  simp only [invokeParallelCommit, sendMessageToReplica, wp_when, wp_bind, wp_send, wp_update]
  refine ⟨fun _ => ?_, fun _ => hx⟩
  have hx₁ := hx.send_one (p := ⟨.client tid s, .replica s (cfg.leader s),
    .parallelModeCommit { tid := tid, participants := ps }⟩) ⟨ht.1, s, rfl, rfl, ht.2⟩
  obtain ⟨st, hst, _⟩ := ht.2
  exact good_of_phase hx₁ (hx₁.node.phase.started hst rfl rfl fun hst' =>
    hst'.shrink rfl rfl rfl fun _ _ hr => hr)

/-- A read is asked for. -/
theorem invokeGetData_good (hx : ClientGood cfg tid h x) (keys : List Key)
    (hphase : ∃ s keys record rest, x.state.phase = .reading s keys record rest)
    (htasks : x.state.tasks = []) (hreqs : ∀ s, x.state.pendingReqs.lookup s = none)
    (hpromise : ∀ p, x.state.promise = some p → p.done = false) :
    wp (invokeGetData ⟨cfg, tid⟩ ω s keys) (fun _ => ClientGood cfg tid h)
      (ClientGood cfg tid h) x := by
  simp only [invokeGetData, sendMessageToReplica, wp_when, wp_bind, wp_send, wp_update]
  refine ⟨fun _ => ?_, fun _ => hx⟩
  have hx₁ := hx.send_one (p := ⟨.client tid s, .replica s (readReplica ⟨cfg, tid⟩),
    .getData { tid := tid, keys := keys }⟩) trivial
  obtain ⟨s₀, keys₀, record, rest, hp⟩ := hphase
  have hrun := hx₁.node.phase
  simp only [PhaseOk, hp] at hrun
  refine good_of_phase hx₁ ?_
  simp only [PhaseOk, hp]
  refine ⟨hrun.1.shrink rfl rfl rfl, .sent s htasks (fun s' req hreq => ?_) hpromise⟩
  rw [Table.lookup_insert_eq, hreqs s'] at hreq
  split_ifs at hreq with heq
  cases hreq
  exact ⟨heq, rfl⟩

/-- A task of a round. -/
theorem runTask_started (hdir : cfg.Direct) (hx : ClientGood cfg tid h x)
    (hst : StartedOk cfg (past h (.client tid) x) tid st x.state) {t : Task}
    (ht : t ∈ x.state.tasks) (i : ℕ) :
    wp (runTask ⟨cfg, tid⟩ ω t) (fun _ => ClientGood cfg tid h) (ClientGood cfg tid h)
      { x with state := { x.state with tasks := x.state.tasks.eraseIdx i } } := by
  obtain ⟨hok, hnot⟩ := hst.tasks t ht
  have hx₁ := good_of_phase hx (hx.node.phase.started (d := { x.state with
      tasks := x.state.tasks.eraseIdx i }) hst.start rfl rfl fun hst' =>
    ⟨hst'.start, hst'.participants, hst'.nodup, hst'.primary, hst'.buffers,
      fun t ht => hst'.tasks t (List.mem_of_mem_eraseIdx ht), hst'.requests⟩)
  cases t with
  | get s keys a => exact absurd rfl (hnot s keys a)
  | prepare s txn a =>
      simp only [runTask, wp_bind, wp_update]
      exact invokePrepare_good hdir (good_of_phase hx₁ (hx₁.node.phase.setWaiting _)) hok
  | parallelModeCommit s ps a =>
      simp only [runTask, wp_bind, wp_update]
      exact invokeParallelCommit_good (good_of_phase hx₁ (hx₁.node.phase.setWaiting _)) hok

theorem handleTask_good (hdir : cfg.Direct) (hx : ClientGood cfg tid h x) (i : ℕ) :
    wp (handleTask ⟨cfg, tid⟩ ω i) (fun _ => ClientGood cfg tid h) (ClientGood cfg tid h) x := by
  simp only [handleTask, wp_bind, wp_read]
  cases htask : x.state.tasks[i]? with
  | none => exact hx
  | some t =>
      have hmem : t ∈ x.state.tasks := List.mem_of_getElem? htask
      have hphase := hx.node.phase
      cases hp : x.state.phase with
      | running =>
          simp only [PhaseOk, hp] at hphase
          rw [hphase.2.1] at hmem
          cases hmem
      | reading s₀ keys₀ record rest =>
          simp only [PhaseOk, hp] at hphase
          obtain ⟨hrun, hread⟩ := hphase
          cases hread with
          | idle htasks _ => rw [htasks] at hmem; cases hmem
          | sent _ htasks _ _ => rw [htasks] at hmem; cases hmem
          | queued s keys a htasks hall hpromise =>
              -- the queue holds just this read
              have hi : i = 0 := by
                rw [htasks] at htask
                cases i with
                | zero => rfl
                | succ i => cases htask
              rw [htasks, List.mem_singleton] at hmem
              subst hi hmem
              have herase : x.state.tasks.eraseIdx 0 = [] := by rw [htasks]; rfl
              simp only [runTask, wp_bind, wp_update, herase]
              refine invokeGetData_good (good_of_phase hx ?_) keys ⟨_, _, _, _, hp⟩ rfl hall
                hpromise
              simp only [PhaseOk, hp]
              exact ⟨hrun.shrink rfl rfl rfl, .idle rfl hall⟩
      | preparing k =>
          simp only [PhaseOk, hp] at hphase
          obtain ⟨st, hst, _⟩ := hphase
          exact runTask_started hdir hx hst hmem i
      | finished =>
          simp only [PhaseOk, hp] at hphase
          rcases hphase with ⟨st, hst⟩ | hidle
          · exact runTask_started hdir hx hst hmem i
          · rw [hidle.2.1] at hmem
            cases hmem

/-! ### The decision -/

/-- A client that may decide: it will be done, and it has not decided. -/
def Deciding (cfg : Config) (tid : TxnId) (h : History) (c : Client) : Prop :=
  PhaseOk cfg h tid { c with phase := .finished } ∧ ∀ b, ¬ Decided h tid b

theorem decided_emit {h : History} {tid : TxnId} (hund : ∀ b, ¬ Decided h tid b) {b b' : Bool}
    (hd : Decided (h ++ [(Node.client tid, Event.decided b)]) tid b') : b' = b := by
  rcases List.mem_append.1 hd with hold | hnew
  · exact absurd hold (hund b')
  · cases List.mem_singleton.1 hnew
    rfl

theorem startOf_decided (h : History) (tid : TxnId) (b : Bool) :
    startOf (h ++ [(Node.client tid, Event.decided b)]) tid = startOf h tid := by
  rw [startOf_append]
  exact Option.or_none

/-- The decision is recorded; the client is as good as done. -/
theorem ClientOk.decide {c : Client} (hc : Deciding cfg tid h c) (b : Bool)
    (hout : b = true → Announced h tid ∨
      ∃ st, startOf h tid = some st ∧ ∀ s ∈ st.participants, Agreed cfg h s tid) :
    ClientOk cfg tid (h ++ [(Node.client tid, Event.decided b)]) { c with phase := .finished } := by
  obtain ⟨hphase, hund⟩ := hc
  refine ⟨?_, fun hboth => ?_, fun hb => ?_⟩
  · simp only [PhaseOk, startOf_decided] at hphase ⊢
    exact hphase.imp (fun ⟨st, hst⟩ => ⟨st, hst.mono⟩) id
  · cases (decided_emit hund hboth.1).trans (decided_emit hund hboth.2).symm
  · rcases hout (decided_emit hund hb).symm with hann | ⟨st, hst, hall⟩
    · exact .inl hann.mono
    · exact .inr ⟨st, startOf_mono hst, fun s hs => (hall s hs).mono⟩

/-- The decision is sent to all participants. -/
theorem invokeCommit_good {state : LogEntryState}
    (hx : Ctx.Good (fun h c => ClientOk cfg tid h { c with phase := .finished }) (PacketOk cfg) h
      (.client tid) x)
    (hmsg : (state = .commit ∧ Decided (past h (.client tid) x) tid true) ∨
      (state = .abort ∧ Decided (past h (.client tid) x) tid false)) :
    wp (invokeCommit ⟨cfg, tid⟩ state) (fun _ => ClientGood cfg tid h) (ClientGood cfg tid h) x := by
  simp only [invokeCommit, wp_bind, wp_read]
  refine wp_mono (fun _ x' hx' => ?_) (fun _ hd => hd)
    (wp_forM (I := fun x' => Ctx.Good (fun h c => ClientOk cfg tid h { c with phase := .finished })
      (PacketOk cfg) h (.client tid) x' ∧ past h (.client tid) x' = past h (.client tid) x)
      (fun p _ x' hx' => ?_) ⟨hx, rfl⟩)
  · simp only [wp_update]
    exact ⟨hx'.1.node, hx'.1.sent⟩
  · simp only [clearWaiting, sendMessageToReplica, wp_bind, wp_update, wp_send]
    have hx₁ := hx'.1.update (s := { x'.state with waiting := x'.state.waiting.erase p })
      (hx'.1.node.update (hx'.1.node.phase.setWaiting _))
    refine ⟨hx₁.send_one ?_, hx'.2⟩
    show _ ∨ _
    rw [past_state, hx'.2]
    exact hmsg

theorem decide_good (hx : Ctx.Good (Deciding cfg tid) (PacketOk cfg) h (.client tid) x) {b : Bool}
    {state : LogEntryState} (hstate : (state = .commit ∧ b = true) ∨ (state = .abort ∧ b = false))
    (hout : b = true → Announced (past h (.client tid) x) tid ∨
      ∃ st, startOf (past h (.client tid) x) tid = some st ∧
        ∀ s ∈ st.participants, Agreed cfg (past h (.client tid) x) s tid) :
    wp (emit (.decided b) >>= fun _ => invokeCommit ⟨cfg, tid⟩ state)
      (fun _ => ClientGood cfg tid h) (ClientGood cfg tid h) x := by
  simp only [wp_bind, wp_emit]
  refine invokeCommit_good ⟨?_, fun p hp => ?_⟩ ?_
  · rw [past_emit]
    exact ClientOk.decide hx.node b hout
  · rw [past_emit]
    exact (hx.sent p hp).mono
  · have hd : Decided (past h (.client tid) { x with events := x.events ++ [.decided b] }) tid b :=
      mem_past_emit _
    rcases hstate with ⟨hs, rfl⟩ | ⟨hs, rfl⟩
    · exact .inl ⟨hs, hd⟩
    · exact .inr ⟨hs, hd⟩

theorem abort_good (hx : Ctx.Good (Deciding cfg tid) (PacketOk cfg) h (.client tid) x) :
    wp (abort ⟨cfg, tid⟩) (fun _ => ClientGood cfg tid h) (ClientGood cfg tid h) x :=
  decide_good hx (.inr ⟨rfl, rfl⟩) (fun h => by cases h)

/-- **The decision**: to commit only for a reason. -/
theorem finish_good (hx : Ctx.Good (Deciding cfg tid) (PacketOk cfg) h (.client tid) x) {status : ℕ}
    (hout : status = replyOk → Announced (past h (.client tid) x) tid ∨
      ∃ st, startOf (past h (.client tid) x) tid = some st ∧
        ∀ s ∈ st.participants, Agreed cfg (past h (.client tid) x) s tid) :
    wp (finish ⟨cfg, tid⟩ status) (fun _ => ClientGood cfg tid h) (ClientGood cfg tid h) x := by
  rw [finish, wp_ite]
  exact ⟨fun hok => decide_good hx (.inl ⟨rfl, rfl⟩) fun _ => hout hok, fun _ => abort_good hx⟩

/-! ### Rounds -/

/-- A client that started and may begin a round or decide. -/
def Ready (cfg : Config) (tid : TxnId) (st : Start) (h : History) (c : Client) : Prop :=
  StartedOk cfg h tid st c ∧ ∀ b, ¬ Decided h tid b

theorem Ready.deciding {c : Client} (hc : Ready cfg tid st h c) : Deciding cfg tid h c :=
  ⟨.inl ⟨st, hc.1.shrink rfl rfl rfl fun _ _ hr => hr⟩, hc.2⟩

/-- A round under way. -/
structure Round (cfg : Config) (tid : TxnId) (h : History) (st : Start)
    (x : Ctx Client Addr Msg Event) : Prop where
  phase : ∃ k, x.state.phase = .preparing k
  started : StartedOk cfg (past h (.client tid) x) tid st x.state
  undecided : ∀ b, ¬ Decided (past h (.client tid) x) tid b
  promise : ∀ p, x.state.promise = some p →
    PromiseOk cfg (past h (.client tid) x) tid st.participants p
  sent : ∀ p ∈ x.sent, PacketOk cfg (past h (.client tid) x) p

theorem Round.good (hx : Round cfg tid h st x) : ClientGood cfg tid h x := by
  refine ⟨⟨?_, fun hb => hx.undecided _ hb.1, fun hb => absurd hb (hx.undecided _)⟩, hx.sent⟩
  obtain ⟨k, hk⟩ := hx.phase
  simp only [PhaseOk, hk]
  exact ⟨st, hx.started, hx.undecided, hx.promise⟩

/-- A step within the round. -/
theorem Round.update (hx : Round cfg tid h st x) {c : Client} (hphase : c.phase = x.state.phase)
    (hpromise : c.promise = x.state.promise)
    (hc : StartedOk cfg (past h (.client tid) x) tid st c) :
    Round cfg tid h st { x with state := c } := by
  refine ⟨?_, hc, hx.undecided, ?_, hx.sent⟩
  · obtain ⟨k, hk⟩ := hx.phase
    exact ⟨k, hphase.trans hk⟩
  · rw [hpromise]
    exact hx.promise

/-- The buffer of a shard is written. -/
theorem Round.modifyBuffer (hx : Round cfg tid h st x) {txn : Transaction}
    (hbuf : BufferOk tid st s txn) :
    Round cfg tid h st { x with state := { x.state with txns := x.state.txns.insert s txn } } := by
  have hst := hx.started
  refine hx.update rfl rfl ⟨hst.start, hst.participants, hst.nodup, hst.primary, fun s' => ?_,
    hst.tasks, hst.requests⟩
  rw [buffered, Table.lookup_insert_eq]
  split_ifs with heq
  · rw [heq]
    exact hbuf
  · exact hst.buffers s'

theorem Round.addTask (hx : Round cfg tid h st x) {t : Promise → Task}
    (ht : ∀ p, TaskOk cfg (past h (.client tid) x) tid (t p) ∧ ∀ s keys a, t p ≠ .get s keys a) :
    Round cfg tid h st { x with state := { x.state with
      tasks := x.state.tasks ++ x.state.promise.toList.map t } } := by
  have hst := hx.started
  refine hx.update rfl rfl ⟨hst.start, hst.participants, hst.nodup, hst.primary, hst.buffers,
    fun t' ht' => ?_, hst.requests⟩
  rcases List.mem_append.1 ht' with hold | hnew
  · exact hst.tasks t' hold
  · obtain ⟨p, _, rfl⟩ := List.mem_map.1 hnew
    exact ht p

theorem foldl_addParticipant (ps : List Shard) (t : Transaction) :
    ps.foldl Transaction.addParticipant t = { t with participants := t.participants ++ ps } := by
  induction ps generalizing t with
  | nil => simp
  | cons p ps ih =>
      rw [List.foldl_cons, ih]
      simp [Transaction.addParticipant]

/-- What `setParticipants` leaves in the buffer of a shard. -/
theorem setParticipants_ok {txn : Transaction} (hbuf : BufferOk tid st s txn) :
    BufferOk tid st s (st.participants.foldl Transaction.addParticipant txn) ∧
      ∀ q, q ∈ (st.participants.foldl Transaction.addParticipant txn).participants ↔
        q ∈ st.participants := by
  rw [foldl_addParticipant]
  have hmem : ∀ q, q ∈ txn.participants ++ st.participants ↔ q ∈ st.participants := fun q => by
    rw [List.mem_append]
    exact ⟨fun hq => hq.elim (hbuf.participants q) id, .inr⟩
  exact ⟨⟨hbuf.id, hbuf.wset, fun q hq => (hmem q).1 hq⟩, hmem⟩

/-- Only the parallel mode has a primary shard among the direct modes. -/
theorem primaryShard_parallel (hdir : cfg.Direct) {ps : List Shard} {p : Shard}
    (hp : primaryShard ⟨cfg, tid⟩ ps = some p) : cfg.mode = .parallel := by
  rcases hdir with hm | hm | hm
  · simp [primaryShard, hm] at hp
  · exact hm
  · simp [primaryShard, hm] at hp

theorem buffered_insert {c : Client} {txn : Transaction} :
    buffered ⟨cfg, tid⟩ { c with txns := c.txns.insert s txn } s = txn := by
  rw [buffered, Table.lookup_insert_eq, if_pos rfl]
  rfl

/-- The buffer of `s` names all participants. -/
def Named (cfg : Config) (tid : TxnId) (st : Start) (s : Shard) (c : Client) : Prop :=
  ∀ q, q ∈ (c.buffered ⟨cfg, tid⟩ s).participants ↔ q ∈ st.participants

theorem setParticipants_round {D : Ctx Client Addr Msg Event → Prop} (hx : Round cfg tid h st x) :
    wp (setParticipants ⟨cfg, tid⟩ s st.participants)
      (fun _ x' => Round cfg tid h st x' ∧ Named cfg tid st s x'.state) D x := by
  obtain ⟨hbuf, hps⟩ := setParticipants_ok (hx.started.buffers s)
  refine ⟨hx.modifyBuffer hbuf, fun q => ?_⟩
  rw [buffered_insert]
  exact hps q

theorem setPrimaryShard_round {D : Ctx Client Addr Msg Event → Prop} (hx : Round cfg tid h st x)
    (hps : Named cfg tid st s x.state) :
    wp (setPrimaryShard ⟨cfg, tid⟩ s (primaryShard ⟨cfg, tid⟩ st.participants))
      (fun _ x' => Round cfg tid h st x' ∧ Named cfg tid st s x'.state ∧
        (x'.state.buffered ⟨cfg, tid⟩ s).primaryShard = st.primary) D x := by
  have hbuf := hx.started.buffers s
  refine ⟨hx.modifyBuffer ⟨hbuf.id, hbuf.wset, hbuf.participants⟩, fun q => ?_, ?_⟩
  · rw [buffered_insert]
    exact hps q
  · rw [buffered_insert]
    exact hx.started.primary.symm

theorem addPrepareTask_round {D : Ctx Client Addr Msg Event → Prop} (hx : Round cfg tid h st x)
    (hs : s ∈ st.participants) (hps : Named cfg tid st s x.state)
    (hprimary : (x.state.buffered ⟨cfg, tid⟩ s).primaryShard = st.primary) :
    wp (addPrepareTask ⟨cfg, tid⟩ s)
      (fun _ x' => Round cfg tid h st x' ∧ Named cfg tid st s x'.state) D x :=
  ⟨hx.addTask fun _ =>
    ⟨⟨st, hx.started.start, hs, hx.started.buffers s, hprimary, hps⟩, fun _ _ _ h => by cases h⟩, hps⟩

/-- The primary shard is asked for the outcome. -/
theorem addParallelTask_round {D : Ctx Client Addr Msg Event → Prop} (hdir : cfg.Direct)
    (hx : Round cfg tid h st x) (hs : primaryShard ⟨cfg, tid⟩ st.participants = some s)
    (hps : Named cfg tid st s x.state) :
    wp (addParallelTask ⟨cfg, tid⟩ s) (fun _ => Round cfg tid h st) D x := by
  refine hx.addTask fun p => ⟨⟨primaryShard_parallel hdir hs, st, hx.started.start, ?_, hps⟩, fun _ _ _ h => by cases h⟩
  rw [hx.started.primary, hs]
  rfl

/-- One participant of a round. -/
theorem preparePiece_round {D : Ctx Client Addr Msg Event → Prop} (hdir : cfg.Direct)
    (hx : Round cfg tid h st x) (hs : s ∈ st.participants) :
    wp (do
      setParticipants ⟨cfg, tid⟩ s st.participants
      setPrimaryShard ⟨cfg, tid⟩ s (primaryShard ⟨cfg, tid⟩ st.participants)
      addPrepareTask ⟨cfg, tid⟩ s
      when (primaryShard ⟨cfg, tid⟩ st.participants = some s) (addParallelTask ⟨cfg, tid⟩ s))
      (fun _ => Round cfg tid h st) D x := by
  rw [wp_bind]
  refine wp_mono (fun _ x₁ hx₁ => ?_) (fun _ hd => hd) (setParticipants_round hx)
  rw [wp_bind]
  refine wp_mono (fun _ x₂ hx₂ => ?_) (fun _ hd => hd) (setPrimaryShard_round hx₁.1 hx₁.2)
  rw [wp_bind]
  refine wp_mono (fun _ x₃ hx₃ => ?_) (fun _ hd => hd)
    (addPrepareTask_round hx₂.1 hs hx₂.2.1 hx₂.2.2)
  rw [wp_when]
  exact ⟨fun hprimary => addParallelTask_round hdir hx₃.1 (of_decide_eq_true hprimary) hx₃.2,
    fun _ => hx₃.1⟩

theorem prepareAtAll_round (hdir : cfg.Direct) (hx : Round cfg tid h st x) :
    wp (prepareAtAll ⟨cfg, tid⟩ st.participants (primaryShard ⟨cfg, tid⟩ st.participants))
      (fun _ => Round cfg tid h st) (ClientGood cfg tid h) x := by
  rw [prepareAtAll, wp_bind]
  refine wp_mono (fun _ x₁ hx₁ => ?_) (fun _ hd => hd)
    (wp_forM (fun s hs x' hx' => preparePiece_round hdir hx' hs) hx)
  rw [wp_when]
  refine ⟨fun _ => ?_, fun _ => hx₁⟩
  rw [wp_bind, wp_deref]
  -- no shard is led from the region of the client: the process dies
  refine ⟨fun p hp => ?_, fun _ => hx₁.good⟩
  rw [wp_bind]
  refine wp_mono (fun _ x₂ hx₂ => ?_) (fun _ hd => hd) (setParticipants_round hx₁)
  exact addParallelTask_round hdir hx₂.1 hp hx₂.2

/-- **A round**, from the choice of the primary shard to the wait. -/
theorem round_good (st : Start) (hdir : cfg.Direct) (hx : Ctx.Good (Ready cfg tid st) (PacketOk cfg) h
    (.client tid) x) (k : ℕ) :
    wp (round ⟨cfg, tid⟩ k) (fun _ => ClientGood cfg tid h) (ClientGood cfg tid h) x := by
  have hps := hx.node.1.participants
  have hx₁ : Round cfg tid h st { x with state := { x.state with
      phase := .preparing k
      participants := st.participants
      promises := x.state.promises + 1
      promise := some
        { address := x.state.promises, participantNumber := st.participants.length } } } := by
    refine ⟨⟨k, rfl⟩, hx.node.1.shrink hps.symm rfl rfl fun _ _ hr => hr, hx.node.2,
      fun p hp => ?_, hx.sent⟩
    cases hp
    exact .new _ _
  simp only [round, prepare, newPromise, wp_bind, wp_update, wp_read, hps,
    if_neg (Direct.not_slow hdir), wp_ite, wp_pure]
  refine ⟨fun hnil => ?_, fun _ => ?_⟩
  · refine finish_good ⟨Ready.deciding ⟨hx₁.started, hx₁.undecided⟩, hx₁.sent⟩ fun _ => ?_
    refine .inr ⟨st, hx₁.started.start, fun s hs => ?_⟩
    rw [hnil] at hs
    cases hs
  · exact wp_mono (fun _ x' hx' => hx'.good) (fun _ hd => hd) (prepareAtAll_round hdir hx₁)

/-- `Commit`: what is recorded is what the buffers hold. -/
theorem commit_good (hdir : cfg.Direct) (hx : ClientGood cfg tid h x)
    (hphase : x.state.phase = .running) :
    wp (commit ⟨cfg, tid⟩) (fun _ => ClientGood cfg tid h) (ClientGood cfg tid h) x := by
  have hrun := hx.node.phase
  simp only [PhaseOk, hphase] at hrun
  obtain ⟨hrun, htasks, hreqs⟩ := hrun
  simp only [commit, wp_bind, wp_read, wp_emit]
  refine round_good ⟨x.state.participants,
    primaryNumber (primaryShard ⟨cfg, tid⟩ x.state.participants), x.state.txns⟩ hdir ?_ 0
  refine ⟨⟨⟨?_, rfl, hrun.nodup, rfl, fun s => ?_, ?_, ?_⟩, fun b hb => ?_⟩, fun p hp => ?_⟩
  · rw [past_emit, startOf_append, hrun.start]
    simp [startOf, startEvent]
  · cases htxn : x.state.txns.lookup s with
    | none =>
        simp only [buffered, htxn, Option.getD_none]
        refine ⟨rfl, ?_, fun _ h => by cases h⟩
        simp only [Start.piece, htxn, Option.getD_none]
    | some txn =>
        obtain ⟨hid, hps⟩ := hrun.buffers s txn htxn
        simp only [buffered, htxn, Option.getD_some]
        refine ⟨hid, ?_, fun q hq => ?_⟩
        · simp only [Start.piece, htxn, Option.getD_some]
        · rw [hps] at hq
          cases hq
  · simp only [htasks]
    intro _ h
    cases h
  · simp only [hreqs]
    intro _ _ h
    cases h
  · rw [past_emit] at hb
    rcases List.mem_append.1 hb with hold | hnew
    · exact hrun.undecided b hold
    · cases List.mem_singleton.1 hnew
  · rw [past_emit]
    exact (hx.sent p hp).mono

/-! ### Between two calls -/

/-- What holds before the start, whatever the phase. -/
structure Idle (cfg : Config) (tid : TxnId) (h : History) (x : Ctx Client Addr Msg Event) :
    Prop where
  running : RunningOk (past h (.client tid) x) tid x.state
  tasks : x.state.tasks = []
  requests : ∀ s, x.state.pendingReqs.lookup s = none
  sent : ∀ p ∈ x.sent, PacketOk cfg (past h (.client tid) x) p

theorem Idle.good (hx : Idle cfg tid h x) (hphase : x.state.phase = .running) :
    ClientGood cfg tid h x := by
  refine ⟨⟨?_, fun hb => hx.running.undecided _ hb.1, fun hb => absurd hb (hx.running.undecided _)⟩,
    hx.sent⟩
  simp only [PhaseOk, hphase]
  exact ⟨hx.running, hx.tasks, hx.requests⟩

theorem Idle.modifyBuffer (hx : Idle cfg tid h x) {f : Transaction → Transaction}
    (hf : ∀ t, (f t).id = t.id ∧ (f t).participants = t.participants) :
    Idle cfg tid h { x with state := { x.state with
      txns := x.state.txns.insert s (f (x.state.buffered ⟨cfg, tid⟩ s)) } } := by
  have hrun := hx.running
  refine ⟨⟨hrun.start, hrun.undecided, hrun.parallel, hrun.nodup, fun s' txn htxn => ?_⟩, hx.tasks,
    hx.requests, hx.sent⟩
  rw [Table.lookup_insert_eq] at htxn
  split_ifs at htxn with heq
  · cases htxn
    rw [(hf _).1, (hf _).2]
    cases hold : x.state.txns.lookup s with
    | none => simp only [buffered, hold, Option.getD_none, and_self]
    | some t =>
        simp only [buffered, hold, Option.getD_some]
        exact hrun.buffers s t hold
  · exact hrun.buffers s' txn htxn

theorem Idle.addParticipant (hx : Idle cfg tid h x) :
    Idle cfg tid h { x with state := { x.state with
      participants := if s ∈ x.state.participants then x.state.participants
        else x.state.participants ++ [s] } } := by
  have hrun := hx.running
  refine ⟨⟨hrun.start, hrun.undecided, hrun.parallel, ?_, hrun.buffers⟩, hx.tasks, hx.requests,
    hx.sent⟩
  by_cases hs : s ∈ x.state.participants
  · simp only [if_pos hs]
    exact hrun.nodup
  · simp only [if_neg hs]
    exact hrun.nodup.append (List.nodup_singleton s) (List.disjoint_singleton.2 hs)

/-- The promise and the phase do not matter. -/
theorem Idle.update (hx : Idle cfg tid h x) (phase : Phase) (promises : ℕ)
    (promise : Option Promise) : Idle cfg tid h { x with state := { x.state with
      phase := phase, promises := promises, promise := promise } } :=
  ⟨hx.running.shrink rfl rfl rfl, hx.tasks, hx.requests, hx.sent⟩

/-- A read is queued whose promise has not been answered. -/
theorem queueRead_good (hx : Idle cfg tid h x) (hp : ∀ p, x.state.promise = some p → p.done = false)
    (keys : List Key) (record : Bool) (rest : List (Shard × List Key)) :
    wp (do
      addTask fun p => .get s keys p.address
      update fun c => { c with phase := .reading s keys record rest })
      (fun _ => ClientGood cfg tid h) (ClientGood cfg tid h) x := by
  simp only [addTask, wp_bind, wp_update, hx.tasks, List.nil_append]
  have hrun := hx.running
  refine ⟨⟨⟨hrun.shrink rfl rfl rfl, ?_⟩, fun hb => hrun.undecided _ hb.1,
    fun hb => absurd hb (hrun.undecided _)⟩, hx.sent⟩
  cases hpromise : x.state.promise with
  | none => exact .idle rfl hx.requests
  | some p =>
      refine .queued s keys p.address rfl hx.requests fun q hq => ?_
      cases hq
      exact hp p hpromise

theorem readNext_good (hx : Idle cfg tid h x) (l : List (Shard × List Key)) :
    wp (readNext l) (fun _ => ClientGood cfg tid h) (ClientGood cfg tid h) x := by
  cases l with
  | nil => exact (hx.update .running _ none).good rfl
  | cons q rest =>
      obtain ⟨s, keys⟩ := q
      rw [readNext, wp_bind, wp_update]
      refine queueRead_good (hx.update _ _ _) (fun p hp => ?_) keys true rest
      obtain ⟨q, _, rfl⟩ := Option.map_eq_some_iff.1 hp
      rfl

theorem put_good (hx : Idle cfg tid h x) (hphase : x.state.phase = .running) (key : Key)
    (value : Value) :
    wp (put ⟨cfg, tid⟩ key value) (fun _ => ClientGood cfg tid h) (ClientGood cfg tid h) x := by
  simp only [put, D2PC.Client.addParticipant, D2PC.Client.modifyBuffer, wp_bind, wp_update]
  have hx₁ := hx.addParticipant (s := cfg.keyToShard key)
  exact Idle.good (hx₁.modifyBuffer (f := (·.addWriteSet key value)) fun _ => ⟨rfl, rfl⟩) hphase

theorem get_good (hx : Idle cfg tid h x) (hphase : x.state.phase = .running) (key : Key) :
    wp (get ⟨cfg, tid⟩ key) (fun _ => ClientGood cfg tid h) (ClientGood cfg tid h) x := by
  have hx₁ := hx.addParticipant (s := cfg.keyToShard key)
  rw [get, wp_bind, D2PC.Client.addParticipant, wp_update, wp_bind, wp_read, wp_ite]
  refine ⟨fun _ => hx₁.good hphase, fun _ => ?_⟩
  rw [wp_bind, newPromise, wp_update]
  refine queueRead_good (hx₁.update _ _ _) (fun p hp => ?_) _ _ _
  cases hp
  rfl

theorem multiGet_good (hx : Idle cfg tid h x) (keys : List Key) :
    wp (multiGet ⟨cfg, tid⟩ keys) (fun _ => ClientGood cfg tid h) (ClientGood cfg tid h) x := by
  rw [multiGet, wp_bind]
  refine wp_mono (fun _ x₁ hx₁ => ?_) (fun _ hd => hd)
    (wp_forM (fun key _ x' hx' => hx'.addParticipant) hx)
  rw [wp_bind, newPromise, wp_update]
  have hx₂ := hx₁.update x₁.state.phase (x₁.state.promises + 1)
    (some { address := x₁.state.promises, participantNumber := 0 })
  cases askedShards ⟨cfg, tid⟩ keys with
  | cons q rest => exact readNext_good hx₂ _
  | nil =>
      have hund := hx₂.running.undecided
      exact ⟨⟨⟨hx₂.running.shrink rfl rfl rfl, .idle hx₂.tasks hx₂.requests⟩,
        fun hb => hund _ hb.1, fun hb => absurd hb (hund _)⟩, hx₂.sent⟩

/-- The application thread goes on, with the next read or with the outcome of the round. -/
theorem wake_good (hdir : cfg.Direct) (hx : ClientGood cfg tid h x) :
    wp (wake ⟨cfg, tid⟩) (fun _ => ClientGood cfg tid h) (ClientGood cfg tid h) x := by
  simp only [wake, wp_bind, wp_read]
  have hphase := hx.node.phase
  cases hp : x.state.phase with
  | running => exact hx
  | finished => exact hx
  | preparing k =>
      simp only [PhaseOk, hp] at hphase
      obtain ⟨st, hst, hund, hpromise⟩ := hphase
      cases hq : x.state.promise.filter (·.done) with
      | none => exact hx
      | some p =>
          obtain ⟨hsome, hdone⟩ := Option.filter_eq_some_iff.1 hq
          have hx₁ : Ctx.Good (Ready cfg tid st) (PacketOk cfg) h (.client tid)
              { x with state := { x.state with promise := none } } :=
            ⟨⟨hst.shrink rfl rfl rfl fun _ _ hr => hr, hund⟩, hx.sent⟩
          simp only [wp_bind, wp_update, wp_ite]
          refine ⟨fun _ => finish_good ⟨hx₁.node.deciding, hx₁.sent⟩ fun hok => ?_,
            fun _ => round_good _ hdir hx₁ _⟩
          exact ((hpromise p hsome).success hdone hok).imp id fun hall => ⟨st, hst.start, hall⟩
  | reading s keys record rest =>
      simp only [PhaseOk, hp] at hphase
      obtain ⟨hrun, hread⟩ := hphase
      cases hq : x.state.promise.filter (·.done) with
      | none => exact hx
      | some p =>
          obtain ⟨hsome, hdone⟩ := Option.filter_eq_some_iff.1 hq
          -- an answered promise: the read is neither queued nor outstanding
          have hidle : Idle cfg tid h x := by
            cases hread with
            | idle htasks hall => exact ⟨hrun, htasks, hall, hx.sent⟩
            | queued _ _ _ _ _ hnot => rw [hnot p hsome] at hdone; cases hdone
            | sent _ _ _ hnot => rw [hnot p hsome] at hdone; cases hdone
          simp only [wp_bind, wp_when]
          refine ⟨fun _ => ?_, fun _ => readNext_good hidle _⟩
          refine wp_mono (fun _ x₁ hx₁ => readNext_good hx₁ _) (fun _ hd => hd)
            (wp_forM (fun key _ x' hx' => ?_) hidle)
          exact hx'.modifyBuffer (f := (·.addReadSet key p.timestamp)) fun _ => ⟨rfl, rfl⟩

/-- A call of the application. -/
theorem call_good (hx : ClientGood cfg tid h x) {y : ClientM Unit}
    (hy : Idle cfg tid h x → x.state.phase = .running →
      wp y (fun _ => ClientGood cfg tid h) (ClientGood cfg tid h) x) :
    wp (call y) (fun _ => ClientGood cfg tid h) (ClientGood cfg tid h) x := by
  simp only [call, wp_bind, wp_read]
  have hphase := hx.node.phase
  split
  · rename_i hp
    simp only [PhaseOk, hp] at hphase
    exact hy ⟨hphase.1, hphase.2.1, hphase.2.2, hx.sent⟩ hp
  · exact hx

/-! ### Every step -/

theorem handleAction_good (hdir : cfg.Direct) (hx : ClientGood cfg tid h x) (a : Action) :
    wp (handleAction ⟨cfg, tid⟩ ω a) (fun _ => ClientGood cfg tid h) (ClientGood cfg tid h) x := by
  cases a with
  | get key => exact call_good hx fun hidle hp => get_good hidle hp key
  | multiGet keys => exact call_good hx fun hidle _ => multiGet_good hidle keys
  | put key value => exact call_good hx fun hidle hp => put_good hidle hp key value
  | commit => exact call_good hx fun _ hp => commit_good hdir hx hp
  | abort =>
      refine call_good hx fun hidle _ => abort_good ⟨⟨.inr ?_, hidle.running.undecided⟩, hx.sent⟩
      exact ⟨hidle.running.start, hidle.tasks, hidle.requests, hidle.running.parallel⟩
  | wake => exact wake_good hdir hx
  | task i => exact handleTask_good hdir hx i
  | prepareTimeout s => exact prepareTimeoutCallback_good hx
  | getTimeout s => exact getDateTimeoutCallback_good hx
  | parallelModeCommitTimeout s => exact parallelModeCommitTimeout_good hx

/-- **A step of a client** keeps the invariant. -/
theorem handleInput_good (hdir : cfg.Direct) {c : Client} (hc : ClientOk cfg tid h c)
    {input : Input Addr Msg Act}
    (hp : ∀ p, input = .recv p → PacketOk cfg h p ∧ ∃ s, p.dst = .client tid s) :
    wp (handleInput ⟨cfg, tid⟩ ω input) (fun _ => ClientGood cfg tid h) (ClientGood cfg tid h)
      { state := c } := by
  have hx : ClientGood cfg tid h { state := c } := Good.start hc
  have hpast : past h (.client tid) ({ state := c } : Ctx Client Addr Msg Event) = h := by
    simp [past]
  cases input with
  | act a =>
      cases a with
      | client a => exact handleAction_good hdir hx a
      | timer t => exact hx
  | recv p =>
      obtain ⟨hok, s, hdst⟩ := hp p rfl
      obtain ⟨src, dst, msg⟩ := p
      obtain rfl : dst = .client tid s := hdst
      rw [← hpast] at hok
      cases msg with
      | prepareTransactionReply m =>
          obtain ⟨hdst, hagreed⟩ := hok
          obtain ⟨htid, hshard⟩ := Addr.client.inj hdst
          rw [← htid, ← hshard] at hagreed
          rw [handleInput, handleMessage, wp_when]
          exact ⟨fun _ => handlePrepareTxnReply_good hdir hx hshard.symm hagreed, fun _ => hx⟩
      | getDataReply m =>
          rw [handleInput, handleMessage, wp_when]
          exact ⟨fun _ => handleGetDataReply_good hx m, fun _ => hx⟩
      | parallelModeCommitReply m =>
          rw [handleInput, handleMessage, wp_when]
          refine ⟨fun htid => handleParallelModeCommitReply_good hx ?_, fun _ => hx⟩
          have heq : m.tid = tid := of_decide_eq_true htid
          rw [← heq]
          exact hok.2
      | _ => exact hx

end Client

end D2PC
