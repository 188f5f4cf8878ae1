import D2PC.Ir.Record

/-!
# The replica of inconsistent replication

`IRReplica` of `replication/ir/replica.cc`. Proposals are executed tentatively and entered in
the record, and finalised when the client says so; a view change merges the records of a
quorum. A replica that is started again dies: `PersistViewInfo` leaves an empty file, because the
serialisation is inside an assertion, and assertions are not compiled in.
-/

namespace D2PC.Ir

/-- The state of a replica. -/
structure Replica (σ Op Res : Type) where
  status : Status := .normal
  view : ℕ := 0
  latestNormalView : ℕ := 0
  record : Record Op Res := ∅
  doViewChangeQuorum : QuorumSet ℕ (DoViewChange Op Res) := ∅
  app : σ

/-- What a replica does without a message. -/
inductive ReplicaAct where
  | viewChangeTimeout
  | restart
  deriving DecidableEq, Repr

/-- What a replica records for the specifications. -/
inductive ReplicaEvent (Op Res : Type) where
  /-- `ExecConsensusUpcall` was called. -/
  | executed (view : ℕ) (opid : OpId) (op : Op) (result : Res)
  /-- `ExecInconsistentUpcall` was called. -/
  | performed (opid : OpId) (op : Op)
  /-- A consensus operation was finalised as its client asked. -/
  | confirmed (view : ℕ) (opid : OpId) (result : Res)
  /-- The record was given to the merge for the view, by the leader itself or in a message. -/
  | contributed (view latestNormalView : ℕ) (record : Record Op Res)
  /-- A leader installed the record it merged. -/
  | merged (view : ℕ) (record : Record Op Res)

namespace Replica

variable {σ Op Res : Type}

abbrev M (σ Op Res E : Type) := Prog (Ctx (Replica σ Op Res) Node (Msg Op Res) E)

/-- The parameters of a replica, and how its events are written to the history. -/
structure Env (σ Op Res E : Type) where
  cfg : Config
  myIdx : ℕ
  app : App σ Op Res
  log : ReplicaEvent Op Res → E

variable {E : Type}

open Ctx Prog

def reply (env : Env σ Op Res E) (remote : Node) (m : Msg Op Res) : M σ Op Res E Unit :=
  send [⟨.replica env.myIdx, remote, m⟩]

/-- `SendMessageToAll` leaves out the sender. -/
def sendMessageToAll (env : Env σ Op Res E) (m : Msg Op Res) : M σ Op Res E Unit :=
  send (((List.range env.cfg.n).filter fun i => i ≠ env.myIdx).map fun i =>
    ⟨.replica env.myIdx, .replica i, m⟩)

/-- Enter an operation in the record. -/
def addEntry (e : RecordEntry Op Res) : M σ Op Res E Unit :=
  update fun r => { r with record := r.record.insert e.opid e }

/-- `HandleProposeInconsistent`. -/
def handleProposeInconsistent [Inhabited Res] (env : Env σ Op Res E) (remote : Node) (opid : OpId)
    (op : Op) : M σ Op Res E Unit := do
  match ← read (·.record.lookup opid) with
  | some entry =>
      reply env remote
        (.replyInconsistent entry.view env.myIdx opid (decide (entry.state = .finalized)))
  | none => do
      let view ← read (·.view)
      addEntry
        { view := view
          opid := opid
          state := .tentative
          type := .inconsistent
          request := op
          result := default }
      reply env remote (.replyInconsistent view env.myIdx opid false)

/-- `HandleFinalizeInconsistent`. -/
def handleFinalizeInconsistent (env : Env σ Op Res E) (remote : Node) (opid : OpId) :
    M σ Op Res E Unit := do
  match ← read (·.record.lookup opid) with
  | none => pure ()
  | some entry =>
      when (entry.state = .tentative) do
        addEntry { entry with opid := opid, state := .finalized }
        update fun r => { r with app := env.app.execInconsistentUpcall entry.request r.app }
        emit (env.log (.performed opid entry.request))
        let view ← read (·.view)
        reply env remote (.confirm view env.myIdx opid)

/-- `HandleProposeConsensus`. -/
def handleProposeConsensus (env : Env σ Op Res E) (remote : Node) (opid : OpId) (op : Op) :
    M σ Op Res E Unit := do
  match ← read (·.record.lookup opid) with
  | some entry =>
      reply env remote (.replyConsensus entry.view env.myIdx opid entry.result
        (decide (entry.state = .finalized)))
  | none => do
      let app ← read (·.app)
      let (result, app) := env.app.execConsensusUpcall op app
      update fun r => { r with app := app }
      let view ← read (·.view)
      emit (env.log (.executed view opid op result))
      addEntry
        { view := view
          opid := opid
          state := .tentative
          type := .consensus
          request := op
          result := result }
      reply env remote (.replyConsensus view env.myIdx opid result false)

/-- `HandleFinalizeConsensus`: the result of the client replaces the own one. -/
def handleFinalizeConsensus (env : Env σ Op Res E) (remote : Node) (opid : OpId) (result : Res) :
    M σ Op Res E Unit := do
  match ← read (·.record.lookup opid) with
  | none => pure ()
  | some entry => do
      addEntry { entry with opid := opid, state := .finalized, result := result }
      let view ← read (·.view)
      emit (env.log (.confirmed view opid result))
      reply env remote (.confirm view env.myIdx opid)

/-! ### View changes -/

/-- `BroadcastDoViewChangeMessages`: only the leader gets the record. -/
def broadcastDoViewChangeMessages (env : Env σ Op Res E) : M σ Op Res E Unit := do
  let r ← read id
  emit (env.log (.contributed r.view r.latestNormalView r.record))
  let leader := env.cfg.leader r.view
  let m : DoViewChange Op Res :=
    { replicaIdx := env.myIdx
      record := none
      newView := r.view
      latestNormalView := r.latestNormalView }
  send (((List.range env.cfg.n).filter fun i => i ≠ env.myIdx ∧ i ≠ leader).map fun i =>
    ⟨.replica env.myIdx, .replica i, .doViewChange m⟩)
  when (leader ≠ env.myIdx)
    (send [⟨.replica env.myIdx, .replica leader,
      .doViewChange { m with record := some r.record }⟩])

/-- What the loop over the latest records has gathered: the entries that are kept, and the
tentative results of the other consensus operations. -/
structure Gathered (Op Res : Type) where
  kept : Record Op Res := ∅
  entriesByOpid : Table OpId (List (RecordEntry Op Res)) := ∅

/-- One entry of a latest record. -/
def Gathered.add (g : Gathered Op Res) (opid : OpId) (entry : RecordEntry Op Res) :
    Gathered Op Res :=
  if entry.type = .inconsistent then
    { g with kept := if opid ∈ g.kept then g.kept else g.kept.insert opid entry }
  else if entry.state = .finalized then
    { kept := if opid ∈ g.kept then g.kept else g.kept.insert opid entry
      entriesByOpid := g.entriesByOpid.erase opid }
  else if opid ∈ g.kept then g
  else
    let entries := (g.entriesByOpid.lookup opid).getD []
    { g with entriesByOpid := g.entriesByOpid.insert opid (entries ++ [entry]) }

/-- The records with the largest `latest_normal_view`, the own one last. -/
def latestRecords (records : List (DoViewChange Op Res)) (r : Replica σ Op Res) :
    List (Record Op Res) :=
  let maxView := (records.map (·.latestNormalView)).foldl max r.latestNormalView
  ((records.filter fun m => m.latestNormalView = maxView).map fun m => m.record.getD ∅) ++
    if r.latestNormalView = maxView then [r.record] else []

/-- All entries of the latest records. -/
def gather (latest : List (Record Op Res)) : Gathered Op Res :=
  latest.foldl (fun g r => r.toList.foldl (fun g p => g.add p.1 p.2) g) {}

/-- The result that occurs at least `ceil(f/2) + 1` times. -/
def majorityResult [DecidableEq Res] (cfg : Config) (entries : List (RecordEntry Op Res)) :
    Option Res :=
  ((tally (entries.map (·.result))).toList.find? fun c => (cfg.f + 1) / 2 + 1 ≤ c.2).map Prod.fst

/-- `IrMergeRecords`: the merged record and the state of the application. -/
def irMergeRecords [DecidableEq Res] (env : Env σ Op Res E)
    (records : List (DoViewChange Op Res)) (r : Replica σ Op Res) : Record Op Res × σ :=
  let g := gather (latestRecords records r)
  let d := Table.ofList (g.entriesByOpid.toList.filter fun p =>
    (majorityResult env.cfg p.2).isSome)
  let u := Table.ofList (g.entriesByOpid.toList.filter fun p =>
    (majorityResult env.cfg p.2).isNone)
  let majority := Table.ofList (g.entriesByOpid.toList.filterMap fun p =>
    (majorityResult env.cfg p.2).map fun res => (p.1, res))
  let app := env.app.sync g.kept r.app
  let (results, app) := env.app.merge d u majority app
  let merged := results.toList.filterMap fun p =>
    ((g.entriesByOpid.lookup p.1).getD []).head?.map fun entry =>
      (p.1, { view := r.view
              opid := p.1
              state := .finalized
              type := entry.type
              request := entry.request
              result := p.2 : RecordEntry Op Res })
  (merged.foldl (fun R p => R.insert p.1 p.2) g.kept, app)

/-- `HandleDoViewChange`, when the view of the message has been entered. -/
def collectDoViewChange [DecidableEq Res] (env : Env σ Op Res E) (msg : DoViewChange Op Res) :
    M σ Op Res E Unit := do
  let r ← read id
  when (env.myIdx = env.cfg.leader r.view) do
    let quorum := r.doViewChangeQuorum.add msg.newView msg.replicaIdx msg
    update fun r => { r with doViewChangeQuorum := quorum }
    let msgs := quorum.getMessages msg.newView
    when (env.cfg.f ≤ msgs.size) do
      emit (env.log (.contributed r.view r.latestNormalView r.record))
      let (record, app) := irMergeRecords env ((List.range env.cfg.n).filterMap msgs.lookup) r
      update fun r => { r with
        record := record
        app := app
        status := .normal
        view := msg.newView
        latestNormalView := msg.newView }
      emit (env.log (.merged msg.newView record))
      sendMessageToAll env (.startView record msg.newView)

/-- `HandleDoViewChange`. -/
def handleDoViewChange [DecidableEq Res] (env : Env σ Op Res E) (msg : DoViewChange Op Res) :
    M σ Op Res E Unit := do
  let r ← read id
  if msg.newView < r.view then pure ()
  else if msg.newView = r.view then
    when (r.status ≠ .normal) (collectDoViewChange env msg)
  else do
    update fun r => { r with
      view := msg.newView
      status := if r.status = .normal then .viewChange else r.status }
    broadcastDoViewChangeMessages env
    collectDoViewChange env msg

/-- `HandleStartView`. -/
def handleStartView (env : Env σ Op Res E) (record : Record Op Res) (newView : ℕ) :
    M σ Op Res E Unit := do
  let r ← read id
  when (!(decide (newView < r.view) || decide (newView = r.view ∧ r.status = .normal)))
    (update fun r => { r with
      record := record
      app := env.app.sync record r.app
      status := .normal
      view := newView
      latestNormalView := newView })

/-- `HandleViewChangeTimeout`. -/
def handleViewChangeTimeout (env : Env σ Op Res E) : M σ Op Res E Unit := do
  update fun r => { r with
    status := if r.status = .normal then .viewChange else r.status
    view := r.view + 1 }
  broadcastDoViewChangeMessages env

/-- The constructor, when the file of the view information is there: `Read` panics, because the file
is empty. -/
def restart : M σ Op Res E Unit := crash

/-- `HandleMessage`; the messages of clients are not expected. -/
def handleMessage [DecidableEq Res] [Inhabited Res] (env : Env σ Op Res E) (remote : Node) :
    Msg Op Res → M σ Op Res E Unit
  | .proposeInconsistent opid op => handleProposeInconsistent env remote opid op
  | .finalizeInconsistent opid => handleFinalizeInconsistent env remote opid
  | .proposeConsensus opid op => handleProposeConsensus env remote opid op
  | .finalizeConsensus opid result => handleFinalizeConsensus env remote opid result
  | .doViewChange m => handleDoViewChange env m
  | .startView record newView => handleStartView env record newView
  | _ => crash

def handleAct (env : Env σ Op Res E) : ReplicaAct → M σ Op Res E Unit
  | .viewChangeTimeout => handleViewChangeTimeout env
  | .restart => restart

end Replica

end D2PC.Ir
