import D2PC.Ir.Client
import D2PC.Store.TapirStore

/-!
# The commit decision of tapirstore

`Client::Prepare` and `Client::Commit` of `store/tapirstore/client.cc`, over the results that the
shards deliver: the reply on which a super quorum of the replicas agrees, or what
`ShardClient::TapirDecide` makes of the replies of a quorum.

* `tapirDecide_status` : what `TapirDecide` can return;
* `fastPath_replied`, `slowPath_decided` : the two ways to a result;
* `prepare_eq` : what a round returns;
* `commit_decision_iff` : the results with which a commit means that every shard said yes, and a
  retry is late enough;
* `committed_on_abstain` : a transaction that no replica has prepared is committed.
-/

namespace D2PC.Tapir

open Ctx Prog

/-! ### The results of a shard -/

/-- The `Reply` to a prepare. -/
structure Reply where
  status : ℕ := 0
  timestamp : Option Timestamp := none
  deriving DecidableEq, Inhabited

/-- The `Request` of a prepare. -/
structure Request where
  txnid : TxnId
  txn : Transaction
  timestamp : Timestamp
  deriving DecidableEq

/-- `ExecConsensusUpcall` of `tapirstore/server.cc`. -/
def execConsensusUpcall (store : TapirStore) (request : Request) : Reply × TapirStore :=
  let result := store.prepare request.txnid request.txn request.timestamp
  ({ status := result.1.1, timestamp := result.1.2.filter (·.isValid) }, result.2)

/-- The locals of `TapirDecide`. -/
structure Counted where
  okCount : ℕ := 0
  ts : Timestamp := {}

/-- The loop of `TapirDecide`. A reply with `REPLY_FAIL` is returned at once. -/
def count : Counted → List (Reply × ℕ) → Except Reply Counted
  | c, [] => .ok c
  | c, (reply, n) :: results =>
      if reply.status = replyOk then count { c with okCount := c.okCount + n } results
      else if reply.status = replyFail then .error reply
      else if reply.status = replyRetry then
        let t := reply.timestamp.getD {}
        count (if c.ts < t then { c with ts := t } else c) results
      else count c results

/-- `TapirDecide`. -/
def tapirDecide (quorumSize : ℕ) (results : List (Reply × ℕ)) : Reply :=
  match count {} results with
  | .error reply => reply
  | .ok c =>
      if quorumSize ≤ c.okCount then { status := replyOk }
      else { status := replyRetry, timestamp := some c.ts }

theorem count_error {c : Counted} {results : List (Reply × ℕ)} {reply : Reply}
    (h : count c results = .error reply) : reply.status = replyFail := by
  induction results generalizing c with
  | nil => cases h
  | cons r results ih =>
    rw [count] at h
    by_cases hok : r.1.status = replyOk
    · rw [if_pos hok] at h
      exact ih h
    · rw [if_neg hok] at h
      by_cases hfail : r.1.status = replyFail
      · rw [if_pos hfail] at h
        rw [← Except.error.inj h]
        exact hfail
      · rw [if_neg hfail] at h
        split_ifs at h <;> exact ih h

/-- `TapirDecide` returns no other code: an abstention of a replica does not count, and it is not
passed on. -/
theorem tapirDecide_status (quorumSize : ℕ) (results : List (Reply × ℕ)) :
    (tapirDecide quorumSize results).status = replyOk ∨
      (tapirDecide quorumSize results).status = replyFail ∨
      (tapirDecide quorumSize results).status = replyRetry := by
  rw [tapirDecide]
  split
  · rename_i reply h
    exact .inr (.inl (count_error h))
  · split_ifs
    · exact .inl rfl
    · exact .inr (.inr rfl)

/-! ### The client of a shard -/

/-- `ShardClient`. There is a promise while one is waited for. -/
structure ShardClient where
  client : Ir.Client Request Reply := {}
  waiting : Bool := false

/-- What a shard client records. -/
inductive Event where
  | client (e : Ir.ClientEvent Request Reply)
  /-- The promise was answered. -/
  | replied (reply : ℕ) (timestamp : Timestamp)
  deriving DecidableEq

namespace ShardClient

abbrev M := Prog (Ctx ShardClient Ir.Node (Ir.Msg Request Reply) Event)

/-- `PrepareCallback`. A reply without a timestamp has the timestamp `0`. -/
def prepareCallback (_ : ℕ) (_ : Request) (reply : Reply) : M Unit := do
  let waiting ← read (·.waiting)
  when waiting do
    update fun c => { c with waiting := false }
    emit (.replied reply.status (reply.timestamp.getD {}))

/-- The `IRClient` of a shard client. A prepare has no error continuation, and commits and aborts
are not awaited. The `config` that `TapirDecide` asks for the size of a quorum points to a local of
the constructor, so that the answer may be any number. -/
def env (cfg : Ir.Config) (quorumSize id : ℕ) : Ir.Client.Env ShardClient Request Reply Event where
  cfg := cfg
  clientid := id
  decide := fun _ results => tapirDecide quorumSize results.toList
  get := ShardClient.client
  set := fun client c => { c with client := client }
  log := Event.client
  inconsistentDone := fun _ _ => pure ()
  consensusDone := prepareCallback
  consensusFailed := fun _ _ => crash

/-- `Prepare`, when the transport thread runs its closure. -/
def prepare (cfg : Ir.Config) (quorumSize id : ℕ) (request : Request) : M Unit := do
  update fun c => { c with waiting := true }
  Ir.Client.invokeConsensus (env cfg quorumSize id) request

variable {cfg : Ir.Config} {quorumSize id reqId view : ℕ} {msgs : Table ℕ (Ir.ConsensusReply Reply)}
variable {req : Ir.PendingConsensus Request Reply}

/-- A reply of a super quorum comes to the promise unchanged, whatever it says. -/
theorem fastPath_replied {reply : Reply}
    (hfast : Ir.Client.fastPathResult (env cfg quorumSize id) msgs = some reply)
    (hfirst : req.continuationInvoked = false)
    (c : Ctx ShardClient Ir.Node (Ir.Msg Request Reply) Event) (hwaiting : c.state.waiting = true) :
    wp (Ir.Client.handleFastPathConsensus (env cfg quorumSize id) reqId view msgs req)
      (fun _ c' => .replied reply.status (reply.timestamp.getD {}) ∈ c'.events) (fun _ => False)
      c := by
  rw [Ir.Client.handleFastPathConsensus, hfast]
  simp only [Ir.Client.setPending, Ir.Client.sendFinalizeConsensus, Ir.Client.sendMessageToAll,
    wp_bind, wp_update, wp_emit, wp_send, wp_when, hfirst]
  refine ⟨fun _ => ?_, fun h => absurd h (by decide)⟩
  show wp (prepareCallback reqId req.request reply) _ _ _
  simp only [prepareCallback, wp_bind, wp_read, wp_when, wp_update, wp_emit]
  exact ⟨fun _ => List.mem_append_right _ (List.mem_singleton_self _),
    fun h => absurd (h.symm.trans hwaiting) (by decide)⟩

/-- Without a super quorum that agrees, what is finalised is what `TapirDecide` makes of the
replies. -/
theorem slowPath_decided (hslow : Ir.Client.fastPathResult (env cfg quorumSize id) msgs = none)
    (c : Ctx ShardClient Ir.Node (Ir.Msg Request Reply) Event) :
    wp (Ir.Client.handleFastPathConsensus (env cfg quorumSize id) reqId view msgs req)
      (fun _ c' => ∃ req', c'.state.client.pendingReqs.lookup reqId = some (.consensus req') ∧
        req'.decideResult = tapirDecide quorumSize (Ir.Client.results msgs).toList)
      (fun _ => False) c := by
  rw [Ir.Client.handleFastPathConsensus, hslow]
  simp only [Ir.Client.handleSlowPathConsensus, Ir.Client.setPending,
    Ir.Client.sendFinalizeConsensus, Ir.Client.sendMessageToAll, wp_bind, wp_update, wp_emit,
    wp_send]
  exact ⟨_, AList.lookup_insert _, rfl⟩

end ShardClient

/-! ### The rounds of a commit -/

/-- What a shard delivers to its promise. -/
structure Delivered where
  reply : ℕ
  timestamp : Timestamp := {}
  deriving DecidableEq

/-- What a round of `Prepare` meets: the results of the shards, the clock when they are there, and
what is in the local `ts`, which is not initialised. -/
structure Round where
  results : Shard → Delivered
  now : ℕ
  ts : ℕ

/-- The locals in the loop of `Prepare`. -/
structure Collected where
  status : ℕ
  ts : ℕ

/-- The loop of `Prepare` over the promises, up to a `REPLY_FAIL`. -/
def collect : Collected → List Delivered → Option Collected
  | c, [] => some c
  | c, p :: promises =>
      let proposed := p.timestamp.timestamp
      if p.reply = replyOk then collect c promises
      else if p.reply = replyFail then none
      else if p.reply = replyRetry then
        collect ⟨replyRetry, if c.ts < proposed then proposed else c.ts⟩ promises
      else if p.reply = replyTimeout then collect { c with status := replyRetry } promises
      -- abstentions are ignored
      else collect c promises

/-- `Prepare`: what it returns, and the timestamp after it. The `proposed` of the loop is another
variable. -/
def prepare (participants : List Shard) (round : Round) (timestamp : Timestamp) : ℕ × Timestamp :=
  let proposed := 0
  match collect ⟨replyOk, round.ts⟩ (participants.map round.results) with
  | none => (replyFail, timestamp)
  | some c =>
      if c.status = replyRetry then
        (c.status, { timestamp with
          timestamp := if proposed < round.now then round.now else proposed })
      else (c.status, timestamp)

/-- A call of `Prepare`. -/
structure Attempt where
  round : Round
  timestamp : Timestamp
  status : ℕ
  next : Timestamp

/-- What the shards are sent. -/
inductive Message where
  | prepare (shard : Shard) (timestamp : Timestamp)
  | commit (shard : Shard) (timestamp : ℕ)
  | abort (shard : Shard)
  deriving DecidableEq

/-- `COMMIT_RETRIES`. -/
def commitRetries : ℕ := 5

/-- The loop of `Commit`, over what its rounds meet: the calls of `Prepare` and the last status. -/
def commitLoop (participants : List Shard) : List Round → Timestamp → ℕ → List Attempt × ℕ
  | [], _, status => ([], status)
  | round :: rounds, timestamp, _ =>
      let result := prepare participants round timestamp
      let attempt : Attempt := ⟨round, timestamp, result.1, result.2⟩
      if result.1 = replyRetry then
        let rest := commitLoop participants rounds result.2 result.1
        (attempt :: rest.1, rest.2)
      else ([attempt], result.1)

/-- What a commit did. -/
structure Outcome where
  committed : Bool
  attempts : List Attempt
  sent : List Message

/-- `Commit` of a client at the time `now`. The status has no value before the first round, and
there is a first round. -/
def commit (participants : List Shard) (clientId now : ℕ) (rounds : ℕ → Round) : Outcome :=
  let result := commitLoop participants ((List.range commitRetries).map rounds) ⟨now, clientId⟩ 0
  let prepares := result.1.flatMap fun a => participants.map fun p => .prepare p a.timestamp
  if result.2 = replyOk then
    ⟨true, result.1, prepares ++ participants.map fun p => .commit p 0⟩
  else ⟨false, result.1, prepares ++ participants.map .abort⟩

/-! ### What a round returns -/

section Prepare

variable {participants : List Shard} {round : Round}

/-- A shard refuses. -/
def Refused (participants : List Shard) (round : Round) : Prop :=
  ∃ p ∈ participants, (round.results p).reply = replyFail

/-- A shard asks for another timestamp or does not answer, and none refuses. -/
def Retried (participants : List Shard) (round : Round) : Prop :=
  ¬Refused participants round ∧ ∃ p ∈ participants,
    (round.results p).reply = replyRetry ∨ (round.results p).reply = replyTimeout

theorem collect_none {c : Collected} {promises : List Delivered} :
    collect c promises = none ↔ ∃ d ∈ promises, d.reply = replyFail := by
  induction promises generalizing c with
  | nil => exact iff_of_false nofun nofun
  | cons d promises ih =>
    rw [collect, List.exists_mem_cons_iff]
    by_cases hok : d.reply = replyOk
    · rw [if_pos hok, ih, or_iff_right]
      rw [hok]
      decide
    · rw [if_neg hok]
      by_cases hfail : d.reply = replyFail
      · rw [if_pos hfail]
        exact iff_of_true rfl (.inl hfail)
      · rw [if_neg hfail, or_iff_right hfail]
        split_ifs <;> exact ih

/-- The status stays, or it is that of a retry. -/
theorem collect_some {c c' : Collected} {promises : List Delivered}
    (h : collect c promises = some c') :
    c'.status = if ∃ d ∈ promises, d.reply = replyRetry ∨ d.reply = replyTimeout then replyRetry
      else c.status := by
  induction promises generalizing c with
  | nil =>
    rw [← Option.some.inj h, if_neg nofun]
  | cons d promises ih =>
    rw [collect] at h
    simp only [List.exists_mem_cons_iff]
    by_cases hok : d.reply = replyOk
    · rw [if_pos hok] at h
      rw [ih h]
      refine if_congr (or_iff_right ?_).symm rfl rfl
      rw [hok]
      decide
    · rw [if_neg hok] at h
      by_cases hfail : d.reply = replyFail
      · rw [if_pos hfail] at h
        cases h
      · rw [if_neg hfail] at h
        by_cases hretry : d.reply = replyRetry
        · rw [if_pos hretry] at h
          rw [ih h, ite_self, if_pos (Or.inl (Or.inl hretry))]
        · rw [if_neg hretry] at h
          by_cases htimeout : d.reply = replyTimeout
          · rw [if_pos htimeout] at h
            rw [ih h, ite_self, if_pos (Or.inl (Or.inr htimeout))]
          · rw [if_neg htimeout] at h
            rw [ih h]
            exact if_congr (or_iff_right fun h => h.elim hretry htimeout).symm rfl rfl

instance : Decidable (Refused participants round) :=
  inferInstanceAs (Decidable (∃ p ∈ participants, (round.results p).reply = replyFail))

instance : Decidable (Retried participants round) :=
  inferInstanceAs (Decidable (_ ∧ ∃ p ∈ participants,
    (round.results p).reply = replyRetry ∨ (round.results p).reply = replyTimeout))

/-- **A round** returns `REPLY_FAIL` if a shard refuses, `REPLY_RETRY` with the time of the clock
if one asks for another timestamp, and `REPLY_OK` otherwise. -/
theorem prepare_eq (timestamp : Timestamp) : prepare participants round timestamp =
    if Refused participants round then (replyFail, timestamp)
    else if Retried participants round then
      (replyRetry, { timestamp with timestamp := round.now })
    else (replyOk, timestamp) := by
  have hnow : (if 0 < round.now then round.now else 0) = round.now := by
    split_ifs <;> omega
  rw [prepare]
  cases hcollect : collect ⟨replyOk, round.ts⟩ (participants.map round.results) with
  | none =>
    obtain ⟨d, hd, hfail⟩ := collect_none.mp hcollect
    obtain ⟨p, hp, rfl⟩ := List.mem_map.mp hd
    have hrefused : Refused participants round := ⟨p, hp, hfail⟩
    show (replyFail, timestamp) = _
    rw [if_pos hrefused]
  | some c =>
    have hnot : ¬Refused participants round := by
      rintro ⟨p, hp, hfail⟩
      have hnone : collect ⟨replyOk, round.ts⟩ (participants.map round.results) = none :=
        collect_none.mpr ⟨_, List.mem_map_of_mem hp, hfail⟩
      rw [hcollect] at hnone
      cases hnone
    have hstatus := collect_some hcollect
    simp only [List.mem_map, exists_exists_and_eq_and] at hstatus
    rw [if_neg hnot]
    by_cases hretry : Retried participants round
    · rw [if_pos hretry.2] at hstatus
      rw [if_pos hretry]
      show (if c.status = replyRetry then _ else _) = _
      rw [if_pos hstatus, hstatus, hnow]
    · rw [if_neg fun h => hretry ⟨hnot, h⟩] at hstatus
      rw [if_neg hretry]
      show (if c.status = replyRetry then _ else _) = _
      rw [if_neg, hstatus]
      rw [hstatus]
      decide

end Prepare

/-! ### The rounds that take place -/

section Loop

variable {participants : List Shard} {rounds : List Round} {timestamp : Timestamp} {status i : ℕ}
variable {a : Attempt}

/-- The rounds before one all ended in a retry. -/
def Reached (participants : List Shard) (rounds : List Round) (i : ℕ) : Prop :=
  ∀ j < i, ∀ r, rounds[j]? = some r → Retried participants r

theorem reached_succ {round : Round} : Reached participants (round :: rounds) (i + 1) ↔
    Retried participants round ∧ Reached participants rounds i := by
  constructor
  · intro h
    exact ⟨h 0 (Nat.succ_pos i) round rfl, fun j hj r hr => h (j + 1) (Nat.succ_lt_succ hj) r hr⟩
  · rintro ⟨hround, h⟩ j hj r hr
    cases j with
    | zero => exact Option.some.inj hr ▸ hround
    | succ j => exact h j (Nat.lt_of_succ_lt_succ hj) r hr

theorem status_eq_retry_iff {round : Round} :
    (prepare participants round timestamp).1 = replyRetry ↔ Retried participants round := by
  rw [prepare_eq]
  by_cases hrefused : Refused participants round
  · rw [if_pos hrefused]
    exact iff_of_false (show replyFail ≠ replyRetry by decide) fun h => h.1 hrefused
  · rw [if_neg hrefused]
    by_cases hretried : Retried participants round
    · rw [if_pos hretried]
      exact iff_of_true rfl hretried
    · rw [if_neg hretried]
      exact iff_of_false (show replyOk ≠ replyRetry by decide) hretried

/-- The loop stops after a round that does not ask for another. -/
theorem commitLoop_cons {round : Round} :
    commitLoop participants (round :: rounds) timestamp status =
    let result := prepare participants round timestamp
    if Retried participants round then
      let rest := commitLoop participants rounds result.2 result.1
      (⟨round, timestamp, result.1, result.2⟩ :: rest.1, rest.2)
    else ([⟨round, timestamp, result.1, result.2⟩], result.1) :=
  if_congr status_eq_retry_iff rfl rfl

/-- **What an attempt is**: a round that was reached, and a call of `Prepare`. -/
theorem of_attempt (h : (commitLoop participants rounds timestamp status).1[i]? = some a) :
    rounds[i]? = some a.round ∧ Reached participants rounds i ∧
      (a.status, a.next) = prepare participants a.round a.timestamp := by
  induction rounds generalizing timestamp status i with
  | nil => cases h
  | cons round rounds ih =>
    rw [commitLoop_cons] at h
    by_cases hretried : Retried participants round
    · rw [if_pos hretried] at h
      cases i with
      | zero =>
        rw [← Option.some.inj h]
        exact ⟨rfl, fun j hj => absurd hj (Nat.not_lt_zero j), rfl⟩
      | succ i =>
        obtain ⟨hround, hreached, heq⟩ := ih h
        exact ⟨hround, reached_succ.mpr ⟨hretried, hreached⟩, heq⟩
    · rw [if_neg hretried] at h
      cases i with
      | zero =>
        rw [← Option.some.inj h]
        exact ⟨rfl, fun j hj => absurd hj (Nat.not_lt_zero j), rfl⟩
      | succ i => cases h

/-- **Every round that is reached takes place.** -/
theorem exists_attempt {round : Round} (hround : rounds[i]? = some round)
    (hreached : Reached participants rounds i) :
    ∃ a, (commitLoop participants rounds timestamp status).1[i]? = some a ∧ a.round = round := by
  induction rounds generalizing timestamp status i with
  | nil => cases hround
  | cons r rounds ih =>
    rw [commitLoop_cons]
    cases i with
    | zero =>
      split_ifs
      · exact ⟨_, rfl, Option.some.inj hround⟩
      · exact ⟨_, rfl, Option.some.inj hround⟩
    | succ i =>
      obtain ⟨hretried, hreached⟩ := reached_succ.mp hreached
      rw [if_pos hretried]
      exact ih hround hreached

/-- The status after the loop is that of the last attempt. -/
theorem commitLoop_last (hne : rounds ≠ []) :
    ∃ a, (commitLoop participants rounds timestamp status).1.getLast? = some a ∧
      (commitLoop participants rounds timestamp status).2 = a.status := by
  induction rounds generalizing timestamp status with
  | nil => exact absurd rfl hne
  | cons round rounds ih =>
    rw [commitLoop_cons]
    split_ifs with hretried
    · by_cases hrest : rounds = []
      · rw [hrest]
        exact ⟨_, rfl, rfl⟩
      · obtain ⟨a, hlast, hstatus⟩ := ih hrest
        refine ⟨a, ?_, hstatus⟩
        rw [List.getLast?_cons, hlast, Option.getD_some]
    · exact ⟨_, rfl, rfl⟩

/-- An attempt that does not ask for another round is the last one. -/
theorem last_of_status (h : (commitLoop participants rounds timestamp status).1[i]? = some a)
    (hstatus : a.status ≠ replyRetry) :
    (commitLoop participants rounds timestamp status).1.getLast? = some a := by
  induction rounds generalizing timestamp status i with
  | nil => cases h
  | cons round rounds ih =>
    rw [commitLoop_cons] at h ⊢
    by_cases hretried : Retried participants round
    · rw [if_pos hretried] at h ⊢
      cases i with
      | zero =>
        rw [← Option.some.inj h] at hstatus
        exact absurd (status_eq_retry_iff.mpr hretried) hstatus
      | succ i =>
        rw [List.getLast?_cons, ih h, Option.getD_some]
    · rw [if_neg hretried] at h ⊢
      cases i with
      | zero => exact h
      | succ i => cases h

theorem timestamp_zero (h : (commitLoop participants rounds timestamp status).1[0]? = some a) :
    a.timestamp = timestamp := by
  cases rounds with
  | nil => cases h
  | cons round rounds =>
    rw [commitLoop_cons] at h
    split_ifs at h
    · rw [← Option.some.inj h]
    · rw [← Option.some.inj h]

/-- An attempt is made at the timestamp with which the one before it ended. -/
theorem timestamp_succ {b : Attempt}
    (ha : (commitLoop participants rounds timestamp status).1[i]? = some a)
    (hb : (commitLoop participants rounds timestamp status).1[i + 1]? = some b) :
    b.timestamp = a.next := by
  induction rounds generalizing timestamp status i with
  | nil => cases ha
  | cons round rounds ih =>
    rw [commitLoop_cons] at ha hb
    split_ifs at ha hb
    · cases i with
      | zero =>
        rw [← Option.some.inj ha]
        exact timestamp_zero hb
      | succ i => exact ih ha hb
    · cases hb

end Loop

/-! ### The decision -/

section Decision

variable {participants : List Shard} {clientId now : ℕ} {rounds : ℕ → Round}

/-- What a commit owes: it returns true and sends commits only if every shard said yes in the last
round, and the timestamp after a round that asks for another, which is that of the next round
(`timestamp_succ`), is not before any that a shard proposed. -/
def Sound (participants : List Shard) (o : Outcome) : Prop :=
  ((o.committed = true ∨ ∃ p t, .commit p t ∈ o.sent) →
    ∃ a, o.attempts.getLast? = some a ∧
      ∀ p ∈ participants, (a.round.results p).reply = replyOk) ∧
  ∀ a ∈ o.attempts, a.status = replyRetry → ∀ p ∈ participants,
    (a.round.results p).reply = replyRetry →
      (a.round.results p).timestamp.timestamp ≤ a.next.timestamp

/-- **When it does.** A round that is reached, and that no shard refuses, asks for another at a
time of the clock that is not before a timestamp proposed, or has no result but `REPLY_OK`. -/
def Decisive (participants : List Shard) (rounds : ℕ → Round) : Prop :=
  ∀ k < commitRetries, (∀ j < k, Retried participants (rounds j)) →
    ¬Refused participants (rounds k) →
      if Retried participants (rounds k) then
        ∀ p ∈ participants, ((rounds k).results p).reply = replyRetry →
          ((rounds k).results p).timestamp.timestamp ≤ (rounds k).now
      else ∀ p ∈ participants, ((rounds k).results p).reply = replyOk

/-- Commits are sent exactly if true is returned. -/
theorem committed_iff : ((commit participants clientId now rounds).committed = true ∨
    ∃ p t, .commit p t ∈ (commit participants clientId now rounds).sent) ↔
    (commitLoop participants ((List.range commitRetries).map rounds) ⟨now, clientId⟩ 0).2 =
      replyOk := by
  rw [commit]
  split_ifs with h
  · exact iff_of_true (.inl rfl) h
  · refine iff_of_false ?_ h
    rintro (hcommitted | ⟨p, t, hmem⟩)
    · cases hcommitted
    · rcases List.mem_append.mp hmem with hprepare | habort
      · obtain ⟨a, -, hin⟩ := List.mem_flatMap.mp hprepare
        obtain ⟨q, -, heq⟩ := List.mem_map.mp hin
        cases heq
      · obtain ⟨q, -, heq⟩ := List.mem_map.mp habort
        cases heq

theorem commit_attempts : (commit participants clientId now rounds).attempts =
    (commitLoop participants ((List.range commitRetries).map rounds) ⟨now, clientId⟩ 0).1 := by
  rw [commit]
  split_ifs
  · rfl
  · rfl

theorem getElem?_rounds {i : ℕ} {r : Round} :
    ((List.range commitRetries).map rounds)[i]? = some r ↔ i < commitRetries ∧ rounds i = r := by
  rw [List.getElem?_map, Option.map_eq_some_iff]
  constructor
  · rintro ⟨j, hj, rfl⟩
    obtain ⟨hlt, heq⟩ := List.getElem?_eq_some_iff.mp hj
    rw [List.length_range] at hlt
    rw [List.getElem_range] at heq
    exact ⟨hlt, by rw [heq]⟩
  · rintro ⟨hlt, rfl⟩
    exact ⟨i, List.getElem?_range hlt, rfl⟩

theorem reached_rounds {i : ℕ} (hi : i ≤ commitRetries) :
    Reached participants ((List.range commitRetries).map rounds) i ↔
      ∀ j < i, Retried participants (rounds j) := by
  constructor
  · intro h j hj
    exact h j hj _ (getElem?_rounds.mpr ⟨hj.trans_le hi, rfl⟩)
  · intro h j hj r hr
    obtain ⟨-, rfl⟩ := getElem?_rounds.mp hr
    exact h j hj

theorem mem_attempts {a : Attempt} (h : a ∈ (commit participants clientId now rounds).attempts) :
    ∃ i < commitRetries, a.round = rounds i ∧ (∀ j < i, Retried participants (rounds j)) ∧
      (a.status, a.next) = prepare participants a.round a.timestamp := by
  rw [commit_attempts] at h
  obtain ⟨i, hi⟩ := List.mem_iff_getElem?.mp h
  obtain ⟨hround, hreached, heq⟩ := of_attempt hi
  obtain ⟨hlt, hround⟩ := getElem?_rounds.mp hround
  exact ⟨i, hlt, hround.symm, (reached_rounds hlt.le).mp hreached, heq⟩

/-- A round that is reached takes place. -/
theorem attempt_of_reached {k : ℕ} (hk : k < commitRetries)
    (hreached : ∀ j < k, Retried participants (rounds j)) :
    ∃ a, (commit participants clientId now rounds).attempts[k]? = some a ∧ a.round = rounds k := by
  rw [commit_attempts]
  exact exists_attempt (getElem?_rounds.mpr ⟨hk, rfl⟩) ((reached_rounds hk.le).mpr hreached)

/-- A commit is made exactly if its last round returned `REPLY_OK`. -/
theorem exists_last (participants : List Shard) (clientId now : ℕ) (rounds : ℕ → Round) :
    ∃ a, (commit participants clientId now rounds).attempts.getLast? = some a ∧
    ((commitLoop participants ((List.range commitRetries).map rounds) ⟨now, clientId⟩ 0).2 =
      replyOk ↔ a.status = replyOk) := by
  rw [commit_attempts]
  obtain ⟨a, hlast, hstatus⟩ : ∃ a, (commitLoop participants ((List.range commitRetries).map rounds)
      ⟨now, clientId⟩ 0).1.getLast? = some a ∧ _ := commitLoop_last (List.cons_ne_nil _ _)
  exact ⟨a, hlast, by rw [hstatus]⟩

/-- **The commit decision.** A commit is sound exactly if its rounds are decisive. -/
theorem commit_decision_iff (participants : List Shard) (clientId now : ℕ) (rounds : ℕ → Round) :
    Sound participants (commit participants clientId now rounds) ↔
      Decisive participants rounds := by
  constructor
  · rintro ⟨hcommit, hretry⟩ k hk hreached hnot
    obtain ⟨a, hget, hround⟩ : ∃ a, (commit participants clientId now rounds).attempts[k]? =
      some a ∧ a.round = rounds k := attempt_of_reached hk hreached
    have hmem := List.mem_of_getElem? hget
    obtain ⟨-, -, -, -, heq⟩ := mem_attempts hmem
    rw [prepare_eq, hround, if_neg hnot] at heq
    split_ifs with hretried
    · rw [if_pos hretried] at heq
      intro p hp hr
      rw [← hround] at hr ⊢
      have hle := hretry a hmem (Prod.mk.inj heq).1 p hp hr
      rw [(Prod.mk.inj heq).2, ← hround] at hle
      exact hle
    · -- the round ends the loop with `REPLY_OK`
      rw [if_neg hretried] at heq
      have hstatus : a.status = replyOk := (Prod.mk.inj heq).1
      rw [commit_attempts] at hget
      have hlast := last_of_status hget (by rw [hstatus]; decide)
      rw [← commit_attempts] at hlast
      obtain ⟨b, hlast', hok⟩ := exists_last participants clientId now rounds
      rw [hlast] at hlast'
      rw [← Option.some.inj hlast', hstatus] at hok
      obtain ⟨c, hc, hall⟩ := hcommit (committed_iff.mpr (hok.mpr rfl))
      rw [hlast] at hc
      rw [← Option.some.inj hc, hround] at hall
      exact hall
  · intro h
    refine ⟨fun hcommitted => ?_, fun a hmem hstatus p hp hr => ?_⟩
    · obtain ⟨a, hlast, hok⟩ := exists_last participants clientId now rounds
      have hstatus : a.status = replyOk := hok.mp (committed_iff.mp hcommitted)
      obtain ⟨k, hk, hround, hreached, heq⟩ := mem_attempts (List.mem_of_getLast? hlast)
      have hk := h k hk hreached
      refine ⟨a, hlast, ?_⟩
      rw [prepare_eq, hround] at heq
      rw [hround]
      by_cases hrefused : Refused participants (rounds k)
      · rw [if_pos hrefused, hstatus] at heq
        exact absurd (Prod.mk.inj heq).1 (by decide)
      · by_cases hretried : Retried participants (rounds k)
        · rw [if_neg hrefused, if_pos hretried, hstatus] at heq
          exact absurd (Prod.mk.inj heq).1 (by decide)
        · have hall := hk hrefused
          rw [if_neg hretried] at hall
          exact hall
    · obtain ⟨k, hk, hround, hreached, heq⟩ := mem_attempts hmem
      have hretried : Retried participants (rounds k) := by
        rw [← status_eq_retry_iff, ← hround, ← heq, hstatus]
      have hall := h k hk hreached hretried.1
      rw [prepare_eq, hround, if_neg hretried.1, if_pos hretried] at heq
      rw [if_pos hretried, ← hround] at hall
      rw [(Prod.mk.inj heq).2, ← hround]
      exact hall p hp hr

end Decision

/-! ### Two unsound commits -/

/-- A store in which transaction 1 is prepared and will write what transaction 2 has read. -/
def conflicted : TapirStore :=
  let store := ({ linearizable := true } : TapirStore).load "x" "a" ⟨1, 1⟩
  (store.prepare 1 { writeSet := Table.ofList [("x", "b")] } ⟨5, 7⟩).2

/-- The prepare of transaction 2, of client 8. -/
def readerPrepare : Request := ⟨2, { readSet := Table.ofList [("x", ⟨1, 1⟩)] }, ⟨9, 8⟩⟩

/-- The client of the shard prepares, and hears from the three replicas. -/
def abstentions : ShardClient.M Unit := do
  ShardClient.prepare ⟨3, 1⟩ 2 8 readerPrepare
  ([0, 1, 2] : List ℕ).forM fun i =>
    Ir.Client.handleMessage (ShardClient.env ⟨3, 1⟩ 2 8)
      (.replyConsensus 0 i (8, 1) (execConsensusUpcall conflicted readerPrepare).1 false)

/-- Every round brings an abstention. -/
def abstaining (_ : ℕ) : Round := ⟨fun _ => ⟨replyAbstain, {}⟩, 9, 0⟩

/-- Every round brings a timestamp that the clock of the client has not reached. -/
def proposing (k : ℕ) : Round := ⟨fun _ => ⟨replyRetry, ⟨100, 3⟩⟩, 10 + k, 0⟩

/-- **A commit that no replica voted for.** All replicas abstain, their reply comes to the promise
over the fast path, and the transaction is committed; and a retry is made before the timestamp that
was proposed. -/
theorem committed_on_abstain :
    (execConsensusUpcall conflicted readerPrepare).1 = ⟨replyAbstain, none⟩ ∧
    .replied replyAbstain {} ∈ (abstentions { state := {} }).state.events ∧
    (commit [0] 8 9 abstaining).committed = true ∧
    ¬Sound [0] (commit [0] 8 9 abstaining) ∧ ¬Sound [0] (commit [0] 8 9 proposing) := by
  have hcommitted : (commit [0] 8 9 abstaining).committed = true := by decide +kernel
  refine ⟨by decide +kernel, by decide +kernel, hcommitted, fun h => ?_, fun h => ?_⟩
  · obtain ⟨a, hlast, hall⟩ := h.1 (.inl hcommitted)
    obtain ⟨i, -, hround, -⟩ := mem_attempts (List.mem_of_getLast? hlast)
    rw [hround] at hall
    have hreply : replyAbstain = replyOk := hall 0 (List.mem_singleton_self 0)
    exact absurd hreply (by decide)
  · obtain ⟨a, hget, hround⟩ : ∃ a, (commit [0] 8 9 proposing).attempts[0]? = some a ∧
        a.round = proposing 0 :=
      attempt_of_reached (by decide) fun j hj => absurd hj (Nat.not_lt_zero j)
    have hmem := List.mem_of_getElem? hget
    obtain ⟨-, -, -, -, heq⟩ := mem_attempts hmem
    have hrefused : ¬Refused [0] (proposing 0) := by decide
    have hretried : Retried [0] (proposing 0) := by decide
    rw [hround, prepare_eq, if_neg hrefused, if_pos hretried] at heq
    have hle := h.2 a hmem (Prod.mk.inj heq).1 0 (List.mem_singleton_self 0) (by rw [hround]; rfl)
    rw [(Prod.mk.inj heq).2, hround] at hle
    have hle : 100 ≤ 10 := hle
    exact absurd hle (by decide)

end D2PC.Tapir
