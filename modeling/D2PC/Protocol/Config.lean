import D2PC.Protocol.Log
import D2PC.Store.Server

/-!
# Deployment, choices and events

The parameters of a deployment, the choices a run makes that the program does not (clocks,
failing sends, the contents of uninitialised memory), and the events recorded for the
specifications.
-/

namespace D2PC

/-- A deployment: `nshards` shards of `n` replicas each, `n` coordinators, and the fault
bound `f` of the configuration files. -/
structure Config where
  n : ℕ
  f : ℕ
  nshards : ℕ
  mode : TpcMode
  /-- The routing of the clients: by hash, or by the warehouse of a TPC-C key. -/
  keyToShard : Key → Shard
  /-- The client that runs a transaction. -/
  clientId : TxnId → ℕ
  /-- The replica index closest to that client; an option of the client, `none` for `-1`. -/
  closestReplica : TxnId → Option ℕ
  /-- The stores after loading. -/
  store : Shard → ℕ → TxnStore
  /-- `current_ts` is not initialised. -/
  initialTs : Shard → ℕ → ℕ

/-- A server loads versions into a new store: no transaction is known to it. -/
def Config.Loaded (cfg : Config) : Prop :=
  ∀ s i, (cfg.store s i).prepared = ∅ ∧ (cfg.store s i).precommitted = ∅

/-- `Configuration::QuorumSize`. -/
def Config.quorumSize (cfg : Config) : ℕ := cfg.f + 1

/-- `Configuration::FastQuorumSize`. -/
def Config.fastQuorumSize (cfg : Config) : ℕ := cfg.f + (cfg.f + 1) / 2 + 1

/-- The leader of a shard is fixed by the deployment. -/
def Config.leader (cfg : Config) (s : Shard) : ℕ := s % cfg.n

/-- What a step does not determine: whether a send reports success, the clock readings of
the lock server, what a dangling pointer refers to, and what fields hold that are read
before they were written. -/
structure Choice where
  sendOk : ℕ → Bool := fun _ => true
  clock : Clock := stopped
  /-- The memory of a deleted promise was given to the current one. -/
  reused : Bool := false
  garbage : ℕ := 0
  garbageState : CommitResult := .commit
  garbageLogState : LogEntryState := .commit

/-- What a run records. -/
inductive Event where
  /-- A client started to prepare: its participants, primary shard, and the transactions
  it buffered for each shard. -/
  | started (participants : List Shard) (primary : ℕ) (pieces : Table Shard Transaction)
  /-- `Client::Commit` sends the decision. -/
  | decided (commit : Bool)
  /-- The store accepted the transaction with its concurrency control checks. -/
  | validated (tid : TxnId) (wset : Table Key Value)
  /-- An entry was added to the log. -/
  | logged (lsn : ℕ) (entry : LogEntry)
  /-- The leader set `reach_consensus`. -/
  | consensus (tid : TxnId)
  /-- `applyToStore` of a leader committed or aborted the transaction in the store. -/
  | applied (tid : TxnId) (state : LogEntryState) (timestamp : ℕ)
  /-- `ReachFinalDecision` held at the leader of the primary shard. -/
  | finalDecision (tid : TxnId)
  /-- `CascadeAbort` aborted the transaction in the store. -/
  | cascaded (tid : TxnId)
  /-- A read of `reader` was served the pre-committed write of `writer`. -/
  | served (writer reader : TxnId) (key : Key)
  /-- A coordinator recorded a decision. -/
  | recorded (tid : TxnId) (result : CommitResult)
  /-- A coordinator sent `NotifyReplicateResult`. -/
  | announced (tid : TxnId)
  deriving DecidableEq

end D2PC
