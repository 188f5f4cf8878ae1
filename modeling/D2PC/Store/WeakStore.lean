import D2PC.Lib.Calls
import D2PC.Types

/-!
# The weakly consistent store

`store/weakstore` and `KVStore` of `store/common/backend`. A `Put` is sent to all replicas of the
shard of the key and is over when as many replies came as there are replicas; a `Get` is sent to
one replica. Replies do not say what they answer.

A call of a client blocks its caller until it is answered. The requests are sent by the thread of
the transport, some time after the call.

* `Weak.KVStore` : the values of the keys, the latest ones last;
* `Weak.System.step` : the calls, the packets and the timeouts;
* `Weak.Undisturbed` : a step that disturbs no call of a client.
-/

namespace D2PC.Weak

/-- `REPLY_NETWORK_FAILURE`. -/
def replyNetworkFailure : ℕ := 5

/-! ### The stores -/

/-- `KVStore`. -/
structure KVStore where
  store : Table Key (List Value) := ∅

namespace KVStore

/-- The values of a key. -/
def values (key : Key) (s : KVStore) : List Value := (s.store.lookup key).getD []

/-- `KVStore::get`. -/
def get (key : Key) (s : KVStore) : Option Value := (s.values key).getLast?

/-- `KVStore::put`. -/
def put (key : Key) (value : Value) (s : KVStore) : KVStore :=
  { s with store := s.store.insert key (s.values key ++ [value]) }

/-- `KVStore::remove`. -/
def remove (key : Key) (s : KVStore) : Bool × KVStore :=
  if s.values key = [] then (false, s)
  else (true, { s with store := s.store.insert key (s.values key).dropLast })

theorem values_insert (key key' : Key) (vs : List Value) (s : KVStore) :
    values key' { s with store := s.store.insert key vs } =
      if key' = key then vs else s.values key' := by
  show ((s.store.insert key vs).lookup key').getD [] = _
  rw [Table.lookup_insert_eq]
  split_ifs <;> rfl

theorem values_put (key key' : Key) (value : Value) (s : KVStore) :
    (s.put key value).values key' =
      if key' = key then s.values key ++ [value] else s.values key' :=
  values_insert ..

/-- What is put is removed again. -/
theorem remove_put (key key' : Key) (value : Value) (s : KVStore) :
    ((s.put key value).remove key).1 = true ∧
      ((s.put key value).remove key).2.values key' = s.values key' := by
  have hvalues : (s.put key value).values key = s.values key ++ [value] := by
    rw [values_put, if_pos rfl]
  have hne : (s.put key value).values key ≠ [] := hvalues ▸ List.concat_ne_nil _ _
  rw [remove, if_neg hne]
  refine ⟨rfl, ?_⟩
  rw [values_insert, hvalues, List.dropLast_concat]
  split_ifs with hkey
  · rw [hkey]
  · rw [values_put, if_neg hkey]

end KVStore

/-- The messages of `weak-proto.proto`. -/
inductive Message where
  | get (clientid : ℕ) (key : Key)
  | put (clientid : ℕ) (key : Key) (value : Value)
  | getReply (status : ℕ) (value : Value)
  | putReply (status : ℕ)
  deriving DecidableEq

/-- `Store::Get`. -/
def Store.get (key : Key) (s : KVStore) : ℕ × Value :=
  match s.get key with
  | some value => (replyOk, value)
  | none => (replyFail, "")

theorem Store.get_of_some {key : Key} {s : KVStore} {value : Value} (h : s.get key = some value) :
    Store.get key s = (replyOk, value) := by
  rw [Store.get, h]

/-- `Store::Put`. -/
def Store.put (key : Key) (value : Value) (s : KVStore) : ℕ × KVStore :=
  (replyOk, s.put key value)

/-- `Store::Load`. -/
def Store.load (key : Key) (value : Value) (s : KVStore) : KVStore := s.put key value

/-! ### The parties -/

/-- A deployment of shards of `n` replicas, each client with a replica it reads from. -/
structure Config where
  nshards : ℕ
  keyToShard : Key → Shard
  n : Shard → ℕ
  closestReplica : Option ℕ
  n_pos : ∀ shard, 0 < n shard
  closest_lt : ∀ i, closestReplica = some i → ∀ shard, i < n shard

/-- The `replica` of a `ShardClient`. -/
def Config.replica (cfg : Config) (clientId : ℕ) (shard : Shard) : ℕ :=
  cfg.closestReplica.getD (clientId % cfg.n shard)

theorem Config.replica_lt (cfg : Config) (clientId : ℕ) (shard : Shard) :
    cfg.replica clientId shard < cfg.n shard := by
  rw [replica]
  cases h : cfg.closestReplica with
  | none => exact Nat.mod_lt _ (cfg.n_pos shard)
  | some i => exact cfg.closest_lt i h shard

/-- What a client asks for. -/
inductive Op where
  | get (key : Key)
  | put (key : Key) (value : Value)
  deriving DecidableEq

def Op.key : Op → Key
  | .get key => key
  | .put key _ => key

/-- The request of a call. -/
def Op.message (clientId : ℕ) : Op → Message
  | .get key => .get clientId key
  | .put key value => .put clientId key value

/-- A request that a timer sends. The number of the call is not in the code; the specifications
speak of it. -/
structure Scheduled where
  call : ℕ
  op : Op
  deriving DecidableEq

/-- `ShardClient`. The promise it is waiting for is known by the number of the call. -/
structure ShardClient where
  waiting : Option ℕ := none
  totalReplies : ℕ
  timeout : Bool := false
  scheduled : List Scheduled := []

/-- A packet between a `ShardClient` and a replica of its shard, sent on behalf of a call. -/
structure Packet where
  client : ℕ
  shard : Shard
  replica : ℕ
  call : ℕ
  msg : Message
  deriving DecidableEq

/-- A `Put`, by the number of the call. -/
structure Write where
  call : ℕ
  key : Key
  value : Value
  deriving DecidableEq

/-- What happened. The number of a call is the place where it stands in the history. -/
inductive Event where
  | called (clientId : ℕ) (op : Op)
  /-- A replica of a shard stored the value. -/
  | stored (shard : Shard) (replica : ℕ) (w : Write)
  | returned (call : ℕ) (status : ℕ) (value : Value)
  deriving DecidableEq

/-- The servers, the clients and the packets between them. -/
structure System where
  stores : Shard → ℕ → KVStore
  shardClients : ℕ → Shard → ShardClient
  /-- The client is in a call. -/
  calling : ℕ → Bool
  network : List Packet := []
  history : List Event := []

/-- What happens: a client calls, the transport of a client sends a request, a packet is received,
lost or duplicated, or a timeout fires. -/
inductive Action where
  | call (clientId : ℕ) (op : Op)
  /-- The request is sent, or only to so many replicas before it fails. -/
  | send (clientId : ℕ) (shard : Shard) (i : ℕ) (failing : Option ℕ)
  /-- A server answers, or its reply cannot be sent. -/
  | receive (i : ℕ) (answering : Bool)
  | lose (i : ℕ)
  | duplicate (i : ℕ)
  | timeout (clientId : ℕ) (shard : Shard)
  deriving DecidableEq

namespace System

/-- A `ShardClient` is written. -/
def setShardClient (c : ℕ) (shard : Shard) (x : ShardClient) (s : System) : System :=
  { s with
    shardClients := Function.update s.shardClients c (Function.update (s.shardClients c) shard x) }

/-- `Get` and `Put` of `Client` and of `ShardClient`. -/
def call (cfg : Config) (c : ℕ) (op : Op) (s : System) : System :=
  if s.calling c then s
  else
    let shard := cfg.keyToShard op.key
    let x := s.shardClients c shard
    let x := { x with
      waiting := some s.history.length
      totalReplies := match op with
        | .get _ => x.totalReplies
        | .put _ _ => 0
      scheduled := x.scheduled ++ [⟨s.history.length, op⟩] }
    { s.setShardClient c shard x with
      calling := Function.update s.calling c true
      history := s.history ++ [.called c op] }

/-- The promise that the `ShardClient` is waiting for, if any, is replied to. -/
def reply (c : ℕ) (shard : Shard) (status : ℕ) (value : Value) (s : System) : System :=
  match (s.shardClients c shard).waiting with
  | none => s
  | some call =>
      { s.setShardClient c shard { s.shardClients c shard with waiting := none } with
        calling := Function.update s.calling c false
        history := s.history ++ [.returned call status value] }

/-- The packets of a request. -/
def packets (cfg : Config) (c : ℕ) (shard : Shard) (x : Scheduled) : List Packet :=
  let packet (i : ℕ) : Packet := ⟨c, shard, i, x.call, x.op.message c⟩
  match x.op with
  | .get _ => [packet (cfg.replica c shard)]
  | .put _ _ => (List.range (cfg.n shard)).map packet

/-- A timer of `Get` or `Put` sends its request. -/
def send (cfg : Config) (c : ℕ) (shard : Shard) (i : ℕ) (failing : Option ℕ) (s : System) :
    System :=
  let x := s.shardClients c shard
  match x.scheduled[i]? with
  | none => s
  | some r =>
      let ps := packets cfg c shard r
      match failing with
      | some k =>
          reply c shard replyNetworkFailure ""
            { s.setShardClient c shard { x with scheduled := x.scheduled.eraseIdx i } with
              network := s.network ++ ps.take (min k (ps.length - 1)) }
      | none =>
          { s.setShardClient c shard { x with
              scheduled := x.scheduled.eraseIdx i
              timeout := x.timeout || x.waiting.isSome } with
            network := s.network ++ ps }

/-- `Server::HandleGet`. -/
def handleGet (p : Packet) (key : Key) (answering : Bool) (s : System) : System :=
  let r := Store.get key (s.stores p.shard p.replica)
  if answering then { s with network := s.network ++ [{ p with msg := .getReply r.1 r.2 }] }
  else s

/-- `Server::HandlePut`. -/
def handlePut (p : Packet) (key : Key) (value : Value) (answering : Bool) (s : System) : System :=
  let r := Store.put key value (s.stores p.shard p.replica)
  let s := { s with
    stores := Function.update s.stores p.shard (Function.update (s.stores p.shard) p.replica r.2)
    history := s.history ++ [.stored p.shard p.replica ⟨p.call, key, value⟩] }
  if answering then { s with network := s.network ++ [{ p with msg := .putReply r.1 }] }
  else s

/-- `ShardClient::ReceiveMessage`, of a `GetReplyMessage`. -/
def handleGetReply (p : Packet) (status : ℕ) (value : Value) (s : System) : System :=
  if (s.shardClients p.client p.shard).waiting.isSome then
    (s.setShardClient p.client p.shard
      { s.shardClients p.client p.shard with timeout := false }).reply p.client p.shard status value
  else s

/-- `ShardClient::ReceiveMessage`, of a `PutReplyMessage`. -/
def handlePutReply (cfg : Config) (p : Packet) (s : System) : System :=
  let x := s.shardClients p.client p.shard
  let x := { x with totalReplies := x.totalReplies + 1 }
  if cfg.n p.shard ≤ x.totalReplies ∧ x.waiting.isSome then
    (s.setShardClient p.client p.shard { x with timeout := false }).reply p.client p.shard
      replyOk ""
  else s.setShardClient p.client p.shard x

/-- A packet is received, by a server or by a client. -/
def receive (cfg : Config) (i : ℕ) (answering : Bool) (s : System) : System :=
  match s.network[i]? with
  | none => s
  | some p =>
      let s := { s with network := s.network.eraseIdx i }
      match p.msg with
      | .get _ key => s.handleGet p key answering
      | .put _ key value => s.handlePut p key value answering
      | .getReply status value => s.handleGetReply p status value
      | .putReply _ => s.handlePutReply cfg p

/-- `RequestTimedOut`, when the timer of the `ShardClient` fires. -/
def requestTimedOut (c : ℕ) (shard : Shard) (s : System) : System :=
  if (s.shardClients c shard).timeout then
    (s.setShardClient c shard { s.shardClients c shard with timeout := false }).reply c shard
      replyTimeout ""
  else s

/-- A step. -/
def step (cfg : Config) (s : System) : Action → System
  | .call c op => s.call cfg c op
  | .send c shard i failing => s.send cfg c shard i failing
  | .receive i answering => s.receive cfg i answering
  | .lose i => { s with network := s.network.eraseIdx i }
  | .duplicate i => { s with network := s.network ++ s.network[i]?.toList }
  | .timeout c shard => s.requestTimedOut c shard

/-- The servers loaded some values, and nothing was called. The counters are not initialised. -/
def initial (loaded : Shard → ℕ → KVStore) (replies : ℕ → Shard → ℕ) : System where
  stores := loaded
  shardClients c shard := { totalReplies := replies c shard }
  calling _ := false

end System

/-- The step disturbs no call of the client: no timeout of it fires, it can send its requests, and
no packet from or to it is duplicated. -/
def Undisturbed (c : ℕ) (s : System) : Action → Prop
  | .timeout c' _ => c' ≠ c
  | .send c' _ _ failing => c' = c → failing = none
  | .duplicate i => ∀ p ∈ s.network[i]?, p.client ≠ c
  | _ => True

end D2PC.Weak
