import Mathlib.Algebra.Group.Nat.Defs
import D2PC.Protocol.Config

/-!
# The client of a transaction

`Client` of `store/strongstore/client.cc` with what it is built on: one `BufferClient`,
`ShardClient` and `LRClient` for each shard, and the `Promise` the application thread waits
for. The process is that of one transaction, so the tables of the `LRClient`s, which are
keyed by transaction, are keyed by shard here.

The application thread calls `Get`, `MultiGet`, `Put`, `Commit` and `Abort`; what it hands
to the transport thread with `Timer(0)` is a task that runs at any later time, and the
thread wakes up at any time after its promise was answered.
-/

namespace D2PC

/-! ### Promises -/

/-- `Promise`, with the address it was allocated at. -/
structure Promise where
  address : ℕ
  participantNumber : ℕ
  done : Bool := false
  reply : ℕ := 0
  prepareReplies : Table Shard ℕ := ∅
  reachFinalDecision : Bool := false
  fail : Bool := false
  timestamp : Timestamp := {}
  value : Value := ""

namespace Promise

/-- `Reply` with a code only. -/
def replyCode (p : Promise) (r : ℕ) : Promise := { p with done := true, reply := r }

/-- `Reply` to a read. -/
def replyRead (p : Promise) (r : ℕ) (t : Timestamp) (v : Value) : Promise :=
  { p with done := true, reply := r, timestamp := t, value := v }

/-- `Reply` with the final decision, of the primary shard or of the parallel mode. -/
def replyFinal (p : Promise) (r : ℕ) (t : Timestamp) : Promise :=
  { p with done := true, reply := r, timestamp := t, reachFinalDecision := true }

/-- `Reply` of one shard: a refusal fails the promise, and the last of the participants
completes it. -/
def replyShard (p : Promise) (s : Shard) (r : ℕ) (t : Timestamp) : Promise :=
  if r ≠ replyOk then { p.replyCode r with fail := true }
  else
    let replies := p.prepareReplies.insert s r
    { p with
      prepareReplies := replies
      timestamp := if p.timestamp < t then t else p.timestamp
      done := p.done || decide (Table.size replies = p.participantNumber) }

/-- `GetPrepareReply` of a promise that is done. -/
def getPrepareReply (p : Promise) : ℕ :=
  if p.fail then p.reply
  else if p.reachFinalDecision then p.reply
  else
    match (p.prepareReplies.toList.map Prod.snd).find? (· ≠ replyOk) with
    | some r => r
    | none => replyOk

/-- `Reset`. -/
def reset (p : Promise) : Promise := { p with done := false }

end Promise

/-! ### State -/

/-- The code for a state: any but `LOG_STATE_PREPAREOK` is passed on as a failure. -/
def LogEntryState.reported (state : LogEntryState) : ℕ := if state = .prepareOk then 0 else 1

/-- `PendingPrepare` of an `LRClient`. -/
structure LRClient.PendingPrepare where
  leader : ℕ
  state : LogEntryState
  timestamp : ℕ := 0
  replicaReplies : Table ℕ LogEntryState := ∅
  reachFaultTolerance : Bool := false

/-- `PendingRequest` of an `LRClient`. -/
inductive LRClient.PendingRequest where
  | prepare (req : LRClient.PendingPrepare)
  | getData

/-- What was handed to the transport thread, with the address of the promise. -/
inductive Task where
  | get (shard : Shard) (keys : List Key) (promise : ℕ)
  | prepare (shard : Shard) (txn : Transaction) (promise : ℕ)
  | parallelModeCommit (shard : Shard) (participants : List Shard) (promise : ℕ)

/-- Where the application thread is: between two calls, waiting for a read (the remaining
shards of a `MultiGet` follow, and `record` tells whether the keys enter the read set),
waiting in a round of `Commit`, or done. -/
inductive Phase where
  | running
  | reading (shard : Shard) (keys : List Key) (record : Bool) (rest : List (Shard × List Key))
  | preparing (retryNum : ℕ)
  | finished

/-- The state of a client, as far as one transaction goes. -/
structure Client where
  phase : Phase := .running
  participants : List Shard := []
  /-- The transaction each `BufferClient` buffers. -/
  txns : Table Shard Transaction := ∅
  promises : ℕ := 0
  promise : Option Promise := none
  tasks : List Task := []
  /-- The promise each `ShardClient` refers to. -/
  waiting : Table Shard ℕ := ∅
  pendingReqs : Table Shard LRClient.PendingRequest := ∅
  pendingParallelCommits : Table Shard (List Shard) := ∅

abbrev ClientM := Prog (Ctx Client Addr Msg Event)

/-- Which transaction is run. -/
structure ClientEnv where
  cfg : Config
  tid : TxnId

namespace Client

open Ctx Prog

/-- `COMMIT_RETRIES`. -/
def commitRetries : ℕ := 5

/-! ### Promises and buffers -/

/-- `new Promise`. -/
def newPromise (participantNumber : ℕ) : ClientM Unit :=
  update fun c => { c with
    promises := c.promises + 1
    promise := some { address := c.promises, participantNumber := participantNumber } }

/-- The promise `waiting` of a shard refers to. A pointer to a deleted promise refers to the
current one if that was allocated in its place; otherwise writing to it has no effect. -/
def waitingOn (ω : Choice) (c : Client) (s : Shard) : Option Promise :=
  match c.waiting.lookup s with
  | none => none
  | some a => c.promise.filter fun p => decide (a = p.address) || ω.reused

theorem waitingOn_promise {ω : Choice} {c : Client} {s : Shard} {p : Promise}
    (hp : waitingOn ω c s = some p) : c.promise = some p := by
  unfold waitingOn at hp
  split at hp
  · cases hp
  · exact (Option.filter_eq_some_iff.1 hp).1

/-- Answer a promise. -/
def setPromise (p : Promise) : ClientM Unit := update fun c => { c with promise := some p }

/-- `waiting = NULL`. -/
def clearWaiting (s : Shard) : ClientM Unit :=
  update fun c => { c with waiting := c.waiting.erase s }

/-- The transaction buffered for a shard since `Begin`. -/
def buffered (env : ClientEnv) (c : Client) (s : Shard) : Transaction :=
  (c.txns.lookup s).getD { id := env.tid }

/-- Write to the transaction buffered for a shard. -/
def modifyBuffer (env : ClientEnv) (s : Shard) (f : Transaction → Transaction) : ClientM Unit :=
  update fun c => { c with txns := c.txns.insert s (f (c.buffered env s)) }

def addTask (t : Promise → Task) : ClientM Unit :=
  update fun c => { c with tasks := c.tasks ++ c.promise.toList.map t }

def addParticipant (s : Shard) : ClientM Unit :=
  update fun c => { c with
    participants := if s ∈ c.participants then c.participants else c.participants ++ [s] }

/-! ### Sending -/

/-- `SendMessageToReplica` of the `LRClient` of a shard. -/
def sendMessageToReplica (env : ClientEnv) (s : Shard) (idx : ℕ) (m : Msg) : ClientM Unit :=
  send [⟨.client env.tid s, .replica s idx, m⟩]

/-- `SendMessageToAll` of the `LRClient` of a shard. -/
def sendMessageToAll (env : ClientEnv) (s : Shard) (m : Msg) : ClientM Unit :=
  send ((List.range env.cfg.n).map fun i => ⟨.client env.tid s, .replica s i, m⟩)

/-- The `mode` of a `PrepareTransaction`; the RC mode leaves it unset. -/
def commitMode : TpcMode → CommitMode
  | .slow => .slow
  | .fast => .fast
  | .parallel => .parallel
  | .carousel => .carousel
  | .rc => .slow

/-- The message `SendPrepare` builds. -/
def prepareMessage (env : ClientEnv) (txn : Transaction) : PrepareTransaction where
  tid := txn.id
  wset := txn.writeSet.toList
  rset := txn.readSet.toList.map fun r => ⟨r.1, r.2.id, r.2.timestamp⟩
  participants := txn.participants
  primaryShard := txn.primaryShard
  mode := commitMode env.cfg.mode

def erasePendingReq (s : Shard) : ClientM Unit :=
  update fun c => { c with pendingReqs := c.pendingReqs.erase s }

/-- `SendPrepare`: to all replicas in the Carousel and RC modes, else to the leader. -/
def sendPrepare (env : ClientEnv) (ω : Choice) (s : Shard) (txn : Transaction) : ClientM Unit :=
  let m : Msg := .prepareTransaction (prepareMessage env txn)
  if env.cfg.mode = .carousel ∨ env.cfg.mode = .rc then sendMessageToAll env s m
  else when (ω.sendOk 0) (sendMessageToReplica env s (env.cfg.leader s) m)

/-- `InvokePrepare`. The request of an earlier round is replaced. -/
def invokePrepare (env : ClientEnv) (ω : Choice) (s : Shard) (txn : Transaction) :
    ClientM Unit := do
  update fun c => { c with
    pendingReqs := c.pendingReqs.insert s
      (.prepare { leader := env.cfg.leader s, state := ω.garbageLogState }) }
  sendPrepare env ω s txn
  when (!ω.sendOk 0) (erasePendingReq s)

/-- `InvokeParallelCommit`. -/
def invokeParallelCommit (env : ClientEnv) (ω : Choice) (s : Shard) (participants : List Shard) :
    ClientM Unit :=
  when (ω.sendOk 0) do
    sendMessageToReplica env s (env.cfg.leader s)
      (.parallelModeCommit { tid := env.tid, participants := participants })
    update fun c => { c with
      pendingParallelCommits := c.pendingParallelCommits.insert s participants }

/-- The replica the reads of a client go to. -/
def readReplica (env : ClientEnv) : ℕ :=
  (env.cfg.closestReplica env.tid).getD (env.cfg.clientId env.tid % env.cfg.n)

/-- `InvokeGetData`. -/
def invokeGetData (env : ClientEnv) (ω : Choice) (s : Shard) (keys : List Key) : ClientM Unit :=
  when (ω.sendOk 0) do
    sendMessageToReplica env s (readReplica env) (.getData { tid := env.tid, keys := keys })
    update fun c => { c with pendingReqs := c.pendingReqs.insert s .getData }

/-- The transport thread runs a task. -/
def runTask (env : ClientEnv) (ω : Choice) : Task → ClientM Unit
  | .get s keys promise => do
      update fun c => { c with waiting := c.waiting.insert s promise }
      invokeGetData env ω s keys
  | .prepare s txn promise => do
      update fun c => { c with waiting := c.waiting.insert s promise }
      invokePrepare env ω s txn
  | .parallelModeCommit s participants promise => do
      update fun c => { c with waiting := c.waiting.insert s promise }
      invokeParallelCommit env ω s participants

/-! ### The transaction -/

/-- `Put`. -/
def put (env : ClientEnv) (key : Key) (value : Value) : ClientM Unit := do
  let s := env.cfg.keyToShard key
  addParticipant s
  modifyBuffer env s (·.addWriteSet key value)

/-- `Get`: own writes are read from the buffer. -/
def get (env : ClientEnv) (key : Key) : ClientM Unit := do
  let s := env.cfg.keyToShard key
  addParticipant s
  let txn ← read (·.buffered env s)
  if key ∈ txn.writeSet then pure ()
  else do
    newPromise 0
    addTask fun p => .get s [key] p.address
    update fun c => { c with phase := .reading s [key] (decide (key ∉ txn.readSet)) [] }

/-- Ask the next shard of a `MultiGet`. -/
def readNext : List (Shard × List Key) → ClientM Unit
  | [] => update fun c => { c with phase := .running, promise := none }
  | (s, keys) :: rest => do
      update fun c => { c with promise := c.promise.map Promise.reset }
      addTask fun p => .get s keys p.address
      update fun c => { c with phase := .reading s keys true rest }

/-- The shards a `MultiGet` asks, each for its keys. -/
def askedShards (env : ClientEnv) (keys : List Key) : List (Shard × List Key) :=
  ((List.range env.cfg.nshards).map fun s =>
    (s, keys.filter fun key => env.cfg.keyToShard key = s)).filter fun p => p.2 ≠ []

/-- `MultiGet`: the shards are asked one after the other. If there is none to ask, the thread
waits for a promise that nobody answers. -/
def multiGet (env : ClientEnv) (keys : List Key) : ClientM Unit := do
  keys.forM fun key => addParticipant (env.cfg.keyToShard key)
  newPromise 0
  match askedShards env keys with
  | [] => update fun c => { c with phase := .reading 0 [] true [] }
  | q :: rest => readNext (q :: rest)

/-- The shard is led from the region of the client. -/
def near (env : ClientEnv) (p : Shard) : Bool :=
  decide (env.cfg.closestReplica env.tid = some (p % env.cfg.n))

/-- The primary shard `Prepare` chooses, `none` for `-1`. -/
def primaryShard (env : ClientEnv) (participants : List Shard) : Option Shard :=
  match env.cfg.mode with
  | .slow | .rc => participants[env.tid % participants.length]?
  | .parallel =>
      match (participants.filter (near env)).getLast? with
      | some p => some p
      | none => ((List.range env.cfg.nshards).filter (near env)).getLast?
  | .fast | .carousel => none

/-- The primary shard in a transaction: `-1` becomes the largest number. -/
def primaryNumber (p : Option Shard) : ℕ := p.getD (2 ^ 64 - 1)

/-- The participants are added to those of the rounds before. -/
def setParticipants (env : ClientEnv) (s : Shard) (participants : List Shard) : ClientM Unit :=
  modifyBuffer env s fun t => participants.foldl Transaction.addParticipant t

def setPrimaryShard (env : ClientEnv) (s : Shard) (primary : Option Shard) : ClientM Unit :=
  modifyBuffer env s fun t => { t with primaryShard := primaryNumber primary }

def addPrepareTask (env : ClientEnv) (s : Shard) : ClientM Unit := do
  let txn ← read (·.buffered env s)
  addTask fun p => .prepare s txn p.address

def addParallelTask (env : ClientEnv) (s : Shard) : ClientM Unit := do
  let txn ← read (·.buffered env s)
  addTask fun p => .parallelModeCommit s txn.participants p.address

/-- The slow modes: everything is gathered at the primary shard. -/
def prepareAtPrimary (env : ClientEnv) (participants : List Shard) (primary : Shard) :
    ClientM Unit := do
  setParticipants env primary participants
  participants.forM fun p => do
    let txn ← read (·.buffered env p)
    txn.readSet.toList.forM fun r => modifyBuffer env primary (·.addReadSet r.1 r.2)
    txn.writeSet.toList.forM fun w => modifyBuffer env primary (·.addWriteSet w.1 w.2)
  setPrimaryShard env primary (some primary)
  addPrepareTask env primary

/-- The other modes: every participant gets its piece, and in the parallel mode the primary
shard is asked for the outcome. -/
def prepareAtAll (env : ClientEnv) (participants : List Shard) (primary : Option Shard) :
    ClientM Unit := do
  participants.forM fun p => do
    setParticipants env p participants
    setPrimaryShard env p primary
    addPrepareTask env p
    when (primary = some p) (addParallelTask env p)
  when (decide (env.cfg.mode = .parallel) && !participants.any (near env)) do
    let primary ← deref primary
    setParticipants env primary participants
    addParallelTask env primary

/-- `Prepare` up to the wait. Without participants it returns `0` at once, except that the
slow modes divide by their number. -/
def prepare (env : ClientEnv) : ClientM (Option ℕ) := do
  let participants ← read (·.participants)
  let primary := primaryShard env participants
  newPromise participants.length
  if env.cfg.mode = .slow ∨ env.cfg.mode = .rc then do
    prepareAtPrimary env participants (← deref primary)
    pure none
  else if participants = [] then pure (some 0)
  else do
    prepareAtAll env participants primary
    pure none

/-- `InvokeCommit` at every participant. The commit timestamp is not sent. -/
def invokeCommit (env : ClientEnv) (state : LogEntryState) : ClientM Unit := do
  let participants ← read (·.participants)
  participants.forM fun p => do
    clearWaiting p
    sendMessageToReplica env p (env.cfg.leader p) (.commit { tid := env.tid, state := state })
  update fun c => { c with phase := .finished }

/-- `Abort`. -/
def abort (env : ClientEnv) : ClientM Unit := do
  emit (.decided false)
  invokeCommit env .abort

/-- `Commit` with the status of the last round. -/
def finish (env : ClientEnv) (status : ℕ) : ClientM Unit :=
  if status = replyOk then do
    emit (.decided true)
    invokeCommit env .commit
  else abort env

/-- One round of `Commit`. -/
def round (env : ClientEnv) (retryNum : ℕ) : ClientM Unit := do
  update fun c => { c with phase := .preparing retryNum }
  match ← prepare env with
  | some status => finish env status
  | none => pure ()

/-- `Commit`. -/
def commit (env : ClientEnv) : ClientM Unit := do
  let participants ← read (·.participants)
  let txns ← read (·.txns)
  emit (.started participants (primaryNumber (primaryShard env participants)) txns)
  round env 0

/-- The application thread finds its promise answered. -/
def wake (env : ClientEnv) : ClientM Unit := do
  match ← read fun c => (c.phase, c.promise.filter (·.done)) with
  | (.preparing retryNum, some p) => do
      update fun c => { c with promise := none }
      let status := p.getPrepareReply
      if status = replyOk ∨ status = replyAbort ∨ status = replyFail ∨
          commitRetries ≤ retryNum + 1 then finish env status
      else round env (retryNum + 1)
  | (.reading s keys record rest, some p) => do
      when (decide (p.reply = replyOk) && record) do
        keys.forM fun key => modifyBuffer env s (·.addReadSet key p.timestamp)
      readNext (if p.reply = replyFail then [] else rest)
  | _ => pure ()

/-! ### Replies -/

/-- `GetTimeout` and `GetCallback`: the promise gets the answer. -/
def replyGet (ω : Choice) (s : Shard) (f : Promise → Promise) : ClientM Unit := do
  match ← read fun c => waitingOn ω c s with
  | none => clearWaiting s
  | some p => do
      clearWaiting s
      setPromise (f p)

/-- `HandleGetDataReply`: the first version is taken. Without one `Reply(state, Timestamp(), "")`
is called, where the literal is converted to a `bool`: that is the reply with a final decision. -/
def handleGetDataReply (ω : Choice) (s : Shard) (msg : GetDataReply) : ClientM Unit := do
  match ← read (·.pendingReqs.lookup s) with
  | none => pure ()
  | some (.prepare _) => crash
  | some .getData => do
      erasePendingReq s
      replyGet ω s fun p =>
        match msg.keys with
        | [] => p.replyFinal msg.state.code {}
        | v :: _ => p.replyRead msg.state.code ⟨v.timestamp, 0⟩ v.value

/-- `PrepareCallback`. -/
def prepareCallback (env : ClientEnv) (ω : Choice) (s shard : Shard) (state timestamp : ℕ) :
    ClientM Unit := do
  match ← read fun c => waitingOn ω c s with
  | none => pure ()
  | some p =>
      if p.reachFinalDecision then pure ()
      else if env.cfg.mode = .slow ∨ env.cfg.mode = .rc then do
        clearWaiting s
        setPromise (p.replyFinal state ⟨timestamp, 0⟩)
      else setPromise (p.replyShard shard state ⟨timestamp, 0⟩)

/-- The states of the replies: how many, how many agree, how many refuse. -/
def countReplies (req : LRClient.PendingPrepare) : ℕ × ℕ × ℕ :=
  let states := req.replicaReplies.toList.map Prod.snd
  let okCount := states.count .prepareOk
  (states.length, okCount, states.length - okCount)

/-- `CarouselCheck`: the leader replicated the transaction, or a super majority that
includes the leader agrees. -/
def carouselCheck (env : ClientEnv) (req : LRClient.PendingPrepare) :
    Bool × LRClient.PendingPrepare :=
  if req.reachFaultTolerance then (true, req)
  else
    let (total, ok, refused) := countReplies req
    let quorum := env.cfg.fastQuorumSize
    if quorum ≤ total ∧ quorum ≤ ok ∧ req.leader ∈ req.replicaReplies then
      (true, { req with state := .prepareOk })
    else if quorum ≤ total ∧ quorum ≤ refused ∧ req.leader ∈ req.replicaReplies then
      (true, { req with state := .abort })
    else (false, req)

/-- `RCCheck`. -/
def rcCheck (env : ClientEnv) (req : LRClient.PendingPrepare) : Bool × LRClient.PendingPrepare :=
  let (total, ok, refused) := countReplies req
  let quorum := env.cfg.quorumSize
  if quorum ≤ total ∧ quorum ≤ ok then (true, { req with state := .prepareOk })
  else if quorum ≤ total ∧ quorum ≤ refused then (true, { req with state := .abort })
  else (false, req)

/-- What a reply adds to a pending prepare, and whether the shard has answered now. -/
def collectReply (env : ClientEnv) (req : LRClient.PendingPrepare)
    (msg : PrepareTransactionReply) : Bool × LRClient.PendingPrepare :=
  if env.cfg.mode = .carousel ∨ env.cfg.mode = .rc then
    let req := { req with
      replicaReplies := req.replicaReplies.insert msg.replica msg.state
      timestamp := max req.timestamp msg.timestamp }
    if env.cfg.mode = .carousel then
      match carouselCheck env req with
      | (true, req) => (true, req)
      | (false, req) => (false, if msg.reachFaultTolerance = 1 then
          { req with
            state := msg.state
            reachFaultTolerance := true
            timestamp := msg.timestamp } else req)
    else rcCheck env req
  else (true, { req with state := msg.state, timestamp := msg.timestamp })

/-- What `HandlePrepareTxnReply` makes of a pending prepare: the code and the timestamp for its
continuation, if the shard has answered now, and the prepare as it is then. -/
def respond (env : ClientEnv) (req : LRClient.PendingPrepare) (msg : PrepareTransactionReply) :
    Option (ℕ × ℕ) × LRClient.PendingPrepare :=
  match collectReply env req msg with
  | (true, req) => (some (req.state.reported, req.timestamp), req)
  | (false, req) => (none, req)

/-- `HandlePrepareTxnReply`. -/
def handlePrepareTxnReply (env : ClientEnv) (ω : Choice) (s : Shard)
    (msg : PrepareTransactionReply) : ClientM Unit := do
  match ← read (·.pendingReqs.lookup s) with
  | none => pure ()
  | some .getData => crash
  | some (.prepare req) =>
      match respond env req msg with
      | (some (code, timestamp), _) => do
          prepareCallback env ω s msg.shard code timestamp
          erasePendingReq s
      | (none, req) =>
          update fun c => { c with pendingReqs := c.pendingReqs.insert s (.prepare req) }

/-- `HandleParallelModeCommitReply`. -/
def handleParallelModeCommitReply (ω : Choice) (s : Shard) (msg : ParallelModeCommitReply) :
    ClientM Unit := do
  match ← read (·.pendingParallelCommits.lookup s) with
  | none => pure ()
  | some _ => do
      update fun c => { c with pendingParallelCommits := c.pendingParallelCommits.erase s }
      erasePendingReq s
      replyGet ω s fun p => p.replyFinal msg.state.code ⟨msg.timestamp, 0⟩

/-! ### Timeouts -/

/-- `PrepareTimeoutCallback`. -/
def prepareTimeoutCallback (ω : Choice) (s : Shard) : ClientM Unit := do
  match ← read (·.pendingReqs.lookup s) with
  | some (.prepare _) => do
      erasePendingReq s
      match ← read fun c => waitingOn ω c s with
      | none => pure ()
      | some p => setPromise (p.replyShard s replyTimeout {})
  | _ => pure ()

/-- `GetDateTimeoutCallback`. -/
def getDateTimeoutCallback (ω : Choice) (s : Shard) : ClientM Unit := do
  match ← read (·.pendingReqs.lookup s) with
  | some .getData => do
      erasePendingReq s
      replyGet ω s (·.replyCode replyTimeout)
  | _ => pure ()

/-- The timeout of a `ParallelModeCommit`; nobody is told. -/
def parallelModeCommitTimeout (s : Shard) : ClientM Unit :=
  update fun c => { c with pendingParallelCommits := c.pendingParallelCommits.erase s }

/-! ### Dispatch -/

/-- What a client does on its own: the calls of the application, a task of the transport
thread, a timeout, or the wake-up of the application thread. -/
inductive Action where
  | get (key : Key)
  | multiGet (keys : List Key)
  | put (key : Key) (value : Value)
  | commit
  | abort
  | wake
  | task (i : ℕ)
  | prepareTimeout (s : Shard)
  | getTimeout (s : Shard)
  | parallelModeCommitTimeout (s : Shard)

/-- The application calls one operation after the other. -/
def call (x : ClientM Unit) : ClientM Unit := do
  match ← read (·.phase) with
  | .running => x
  | _ => pure ()

/-- Take a task out of the queue and run it. -/
def handleTask (env : ClientEnv) (ω : Choice) (i : ℕ) : ClientM Unit := do
  match ← read (·.tasks[i]?) with
  | none => pure ()
  | some t => do
      update fun c => { c with tasks := c.tasks.eraseIdx i }
      runTask env ω t

def handleAction (env : ClientEnv) (ω : Choice) : Action → ClientM Unit
  | .get key => call (get env key)
  | .multiGet keys => call (multiGet env keys)
  | .put key value => call (put env key value)
  | .commit => call (commit env)
  | .abort => call (abort env)
  | .wake => wake env
  | .task i => handleTask env ω i
  | .prepareTimeout s => prepareTimeoutCallback ω s
  | .getTimeout s => getDateTimeoutCallback ω s
  | .parallelModeCommitTimeout s => parallelModeCommitTimeout s

/-- `ReceiveMessage` of the `LRClient` of shard `s`; other messages are dropped, and a reply
for another transaction is looked up in the tables of that one. -/
def handleMessage (env : ClientEnv) (ω : Choice) (s : Shard) : Msg → ClientM Unit
  | .prepareTransactionReply m => when (m.tid = env.tid) (handlePrepareTxnReply env ω s m)
  | .getDataReply m => when (m.tid = env.tid) (handleGetDataReply ω s m)
  | .parallelModeCommitReply m =>
      when (m.tid = env.tid) (handleParallelModeCommitReply ω s m)
  | _ => pure ()

end Client

end D2PC
