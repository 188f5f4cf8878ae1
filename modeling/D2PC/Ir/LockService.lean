import Mathlib.Data.Finset.Sort
import D2PC.Ir.Client
import D2PC.Ir.Replica
import D2PC.Types

/-!
# The lock service

`lockserver/client.cc` and `lockserver/server.cc`: a lock server is the application of an
`IRReplica`, and a lock client runs an `IRClient`. A lock is a consensus operation, an unlock an
inconsistent one.

A call of a client blocks its caller until it is answered, and it is an error to issue several
asynchronous requests without waiting, so a client is called only while nothing is awaited.
-/

namespace D2PC.Ir.LockService

open Prog Ctx

abbrev ClientId := ℕ

/-- `Request` of `locks-proto.proto`: the type is true for a lock and false for an unlock. -/
structure Request where
  clientid : ClientId
  key : Key
  type : Bool
  deriving DecidableEq

/-- `Reply`. The status of an empty reply reads as `0`. -/
structure Reply where
  key : Key := ""
  status : ℤ := 0
  deriving DecidableEq, Inhabited

/-! ### The server -/

/-- `LockServer`. -/
structure Server where
  locks : Table Key ClientId := ∅

namespace Server

/-- `ExecInconsistentUpcall`. -/
def execInconsistentUpcall (request : Request) (s : Server) : Server :=
  if request.type then s
  else if s.locks.lookup request.key = some request.clientid then
    { s with locks := s.locks.erase request.key }
  else s

/-- `ExecConsensusUpcall`. -/
def execConsensusUpcall (request : Request) (s : Server) : Reply × Server :=
  match request.type, s.locks.lookup request.key with
  | true, none =>
      (⟨request.key, 0⟩, { s with locks := s.locks.insert request.key request.clientid })
  | true, some holder => (⟨request.key, if holder = request.clientid then 0 else -1⟩, s)
  | false, none => (⟨request.key, -2⟩, s)
  | false, some holder =>
      if holder = request.clientid then
        (⟨request.key, 0⟩, { s with locks := s.locks.erase request.key })
      else (⟨request.key, -2⟩, s)

/-- The clients with a successful operation of the type on the key. -/
def succeeded (record : List (OpId × RecordEntry Request Reply)) (key : Key) (type : Bool) :
    List ClientId :=
  (record.filterMap fun p =>
    if p.2.request.key = key ∧ p.2.request.type = type ∧ p.2.result.status = 0 then
      some p.2.request.clientid
    else none).dedup

/-- `std::set_difference`: elements of the second range that are smaller than the next one of the
first are skipped. -/
def setDifference : List ClientId → List ClientId → List ClientId
  | [], _ => []
  | a :: as, bs =>
      match bs.dropWhile (· < a) with
      | [] => a :: as
      | b :: bs => if a < b then a :: setDifference as (b :: bs) else setDifference as bs

/-- The clients in one of the two sets of a key. -/
def succeededSet (record : Record Request Reply) (key : Key) (type : Bool) : Finset ClientId :=
  (succeeded record.toList key type).toFinset

/-- `Sync`, where `iterate` is the order in which an `unordered_set` is iterated. The record is a
`std::map` by client and request id, so that the elements of a set are inserted in ascending order,
and the order is one of the set. -/
def sync (iterate : Finset ClientId → List ClientId) (record : Record Request Reply)
    (_ : Server) : Server :=
  let keys := (record.toList.map fun p => p.2.request.key).dedup
  { locks := Table.ofList (keys.filterMap fun key =>
      let diff := setDifference (iterate (succeededSet record key true))
        (iterate (succeededSet record key false))
      match diff.dedup with
      | [client] => some (key, client)
      | _ => none) }

/-- Sets as a `std::set` would iterate them. -/
def ascending (s : Finset ClientId) : List ClientId := s.sort (· ≤ ·)

/-- The order of a `std::map` over operations. -/
def inOrder {α : Type} (t : Table OpId α) : List (OpId × α) :=
  t.toList.mergeSort fun p q => p.1.1 < q.1.1 ∨ (p.1.1 = q.1.1 ∧ p.1.2 ≤ q.1.2)

/-- An operation of `d` in `Merge`: a lock that succeeded at a majority is granted if the key is
free. -/
def mergeDecided (acc : Table OpId Reply × Server) (opid : OpId) (request : Request)
    (reply : Reply) : Table OpId Reply × Server :=
  if reply.status = 0 then
    if (acc.2.locks.lookup reply.key).isSome then
      (acc.1.insert opid { reply with status := -1 }, acc.2)
    else
      (acc.1.insert opid reply,
        { acc.2 with locks := acc.2.locks.insert reply.key request.clientid })
  else (acc.1.insert opid reply, acc.2)

/-- `Merge`: the operations of `u` are rejected. -/
def merge (d u : Table OpId (List (RecordEntry Request Reply)))
    (majorityResultsInD : Table OpId Reply) (s : Server) : Table OpId Reply × Server :=
  let decided := (inOrder d).foldl (fun acc p =>
    match p.2.head?, majorityResultsInD.lookup p.1 with
    | some entry, some reply => mergeDecided acc p.1 entry.request reply
    | _, _ => acc) (∅, s)
  (inOrder u).foldl (fun acc p =>
    match p.2.head? with
    | some entry => (acc.1.insert p.1 ⟨entry.request.key, -1⟩, acc.2)
    | none => acc) decided

/-- The lock server as an application of inconsistent replication. -/
def app (iterate : Finset ClientId → List ClientId) : App Server Request Reply where
  init := {}
  execInconsistentUpcall := execInconsistentUpcall
  execConsensusUpcall := execConsensusUpcall
  sync := sync iterate
  merge := merge

end Server

/-! ### The client -/

/-- `LockClient`. The closures handed to the transport thread with `Timer(0)` are the requests
they will invoke. -/
structure Client where
  client : Ir.Client Request Reply := {}
  waiting : Bool := false
  timers : List Request := []

/-- What the processes record. -/
inductive Event where
  | replica (e : ReplicaEvent Request Reply)
  | client (e : ClientEvent Request Reply)
  /-- `LockCallback` was called. -/
  | told (reqId : ℕ) (key : Key) (status : ℤ)
  /-- `unlock` was called. -/
  | unlocking (key : Key)

/-- What a lock client does without a message: a call of its user, a closure that runs, or a
timer of the `IRClient`. -/
inductive Action where
  | lock (key : Key)
  | unlock (key : Key)
  | run
  | timeout (t : ClientTimer)
  deriving DecidableEq

namespace Client

abbrev M := Prog (Ctx Client Node (Msg Request Reply) Event)

/-- `Decide`. -/
def decide (results : Table Reply ℕ) : Reply :=
  let successCount :=
    ((results.toList.filter fun c => c.1.status = 0).map Prod.snd).sum
  { key := ((results.toList.map Prod.fst).getLast?.map Reply.key).getD ""
    status := if 2 ≤ successCount then 0 else -1 }

/-- The promise is answered. -/
def answer : M Unit := do
  let waiting ← read (·.waiting)
  when (!waiting) crash
  update fun c => { c with waiting := false }

/-- `LockCallback`. -/
def lockCallback (reqId : ℕ) (request : Request) (reply : Reply) : M Unit := do
  emit (.told reqId request.key reply.status)
  answer

/-- `UnlockCallback`. -/
def unlockCallback (_ : ℕ) (_ : Request) : M Unit := answer

/-- `ErrorCallback`. -/
def errorCallback (_ : ℕ) (_ : Request) : M Unit := answer

/-- The `IRClient` of a lock client. -/
def env (cfg : Config) (id : ClientId) : Ir.Client.Env Client Request Reply Event where
  cfg := cfg
  clientid := id
  decide := fun _ => decide
  get := Client.client
  set := fun client c => { c with client := client }
  log := Event.client
  inconsistentDone := unlockCallback
  consensusDone := lockCallback
  consensusFailed := errorCallback

/-- `lock_async`, when nothing is awaited. -/
def lockAsync (id : ClientId) (key : Key) : M Unit := do
  let waiting ← read (·.waiting)
  when (!waiting)
    (update fun c => { c with waiting := true, timers := c.timers ++ [⟨id, key, true⟩] })

/-- `unlock_async`, when nothing is awaited. -/
def unlockAsync (id : ClientId) (key : Key) : M Unit := do
  let waiting ← read (·.waiting)
  when (!waiting) do
    emit (.unlocking key)
    update fun c => { c with waiting := true, timers := c.timers ++ [⟨id, key, false⟩] }

/-- The transport thread runs the next closure. -/
def run (cfg : Config) (id : ClientId) : M Unit := do
  match ← read (·.timers) with
  | [] => pure ()
  | request :: rest => do
      update fun c => { c with timers := rest }
      if request.type then Ir.Client.invokeConsensus (env cfg id) request
      else Ir.Client.invokeInconsistent (env cfg id) request

def handleAction (cfg : Config) (id : ClientId) : Action → M Unit
  | .lock key => lockAsync id key
  | .unlock key => unlockAsync id key
  | .run => run cfg id
  | .timeout t => Ir.Client.handleTimer (env cfg id) t

end Client

/-! ### The system -/

/-- The local state of a process. -/
abbrev State : Node → Type
  | .replica _ => Replica Server Request Reply
  | .client _ => Client

/-- The local actions. -/
inductive Act where
  | replica (a : ReplicaAct)
  | client (a : Action)
  deriving DecidableEq

/-- The parameters of a replica. -/
def replicaEnv (cfg : Config) (iterate : Finset ClientId → List ClientId) (i : ℕ) :
    Replica.Env Server Request Reply Event where
  cfg := cfg
  myIdx := i
  app := Server.app iterate
  log := Event.replica

/-- What a process does with an input. -/
def handle (cfg : Config) (iterate : Finset ClientId → List ClientId) :
    (n : Node) → Unit → Input Node (Msg Request Reply) Act →
      Prog (Ctx (State n) Node (Msg Request Reply) Event) Unit
  | .replica i, _, .recv p => Replica.handleMessage (replicaEnv cfg iterate i) p.src p.msg
  | .replica i, _, .act (.replica a) => Replica.handleAct (replicaEnv cfg iterate i) a
  | .client id, _, .recv p => Ir.Client.handleMessage (Client.env cfg id) p.msg
  | .client id, _, .act (.client a) => Client.handleAction cfg id a
  | _, _, _ => pure ()

/-- The initial state of a process. -/
def initial : (n : Node) → State n
  | .replica _ => { app := {} }
  | .client _ => {}

/-- `n` lock servers and any number of lock clients. -/
def system (cfg : Config) (iterate : Finset ClientId → List ClientId) :
    Protocol Node Node (Msg Request Reply) Act Unit Event State where
  owner := fun a =>
    match a with
    | .replica i => if i < cfg.n then some (.replica i) else none
    | .client id => some (.client id)
  init := initial
  handle := handle cfg iterate

abbrev GlobalState := World Node Node (Msg Request Reply) Event State
abbrev History := List (Node × Event)

end D2PC.Ir.LockService
