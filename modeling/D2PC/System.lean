import D2PC.Protocol.Client
import D2PC.Protocol.Coordinator
import D2PC.Protocol.Replica

/-!
# The whole system

The clients, the participant replicas of all shards and the coordinators of one deployment,
exchanging messages over an unreliable network.
-/

namespace D2PC

/-- The local state of each process. -/
def Local : Node → Type
  | .client _ => Client
  | .replica _ _ => Replica
  | .coordinator _ => Coordinator

/-- What a process does without a message. -/
inductive Act where
  | client (a : Client.Action)
  | timer (t : Replica.Timer)

/-- The process that reads a socket; a socket outside the deployment is read by nobody. -/
def Config.owner (cfg : Config) : Addr → Option Node
  | .client tid s => if s < cfg.nshards then some (.client tid) else none
  | .replica s i => if s < cfg.nshards ∧ i < cfg.n then some (.replica s i) else none
  | .coordinator i => if i < cfg.n then some (.coordinator i) else none
  | .sendOnly => none

def Config.init (cfg : Config) : (n : Node) → Local n
  | .client _ => ({} : Client)
  | .replica s i => ({ currentTs := cfg.initialTs s i, store := cfg.store s i } : Replica)
  | .coordinator _ => ({} : Coordinator)

/-- A client learns from the address of a packet which of its sockets received it. -/
def Client.handleInput (env : ClientEnv) (ω : Choice) : Input Addr Msg Act → ClientM Unit
  | .recv ⟨_, .client _ s, m⟩ => handleMessage env ω s m
  | .act (.client a) => handleAction env ω a
  | _ => pure ()

def Replica.handleInput (env : ReplicaEnv) (ω : Choice) : Input Addr Msg Act → ReplicaM Unit
  | .recv p => handleMessage env ω p.src p.msg
  | .act (.timer t) => handleTimer env ω t
  | _ => pure ()

def Coordinator.handleInput (env : CoordinatorEnv) (ω : Choice) :
    Input Addr Msg Act → CoordinatorM Unit
  | .recv p => handleMessage env ω p.msg
  | _ => pure ()

/-- The protocol of a deployment. -/
def Config.system (cfg : Config) : Protocol Node Addr Msg Act Choice Event Local where
  owner := cfg.owner
  init := cfg.init
  handle
    | .client tid => Client.handleInput ⟨cfg, tid⟩
    | .replica s i => Replica.handleInput ⟨cfg, s, i⟩
    | .coordinator i => Coordinator.handleInput ⟨cfg, i⟩

abbrev GlobalState := World Node Addr Msg Event Local

def GlobalState.client (w : GlobalState) (tid : TxnId) : Client := w.state (.client tid)

def GlobalState.replica (w : GlobalState) (s : Shard) (i : ℕ) : Replica := w.state (.replica s i)

def GlobalState.coordinator (w : GlobalState) (i : ℕ) : Coordinator := w.state (.coordinator i)

abbrev History := List (Node × Event)

abbrev StepCond := Protocol.Cond Node Addr Msg Act Choice Event Local

abbrev Commands := List (Protocol.Cmd Node Act Choice)

/-- The world a schedule reaches, if every step of it is enabled and meets the condition. -/
def Config.run (cfg : Config) (C : StepCond) [∀ w n ω i, Decidable (C w n ω i)]
    (cs : Commands) : Option GlobalState :=
  cfg.system.exec C cfg.system.start cs

theorem Config.reach_run {cfg : Config} {C : StepCond} [∀ w n ω i, Decidable (C w n ω i)]
    {cs : Commands} (h : (cfg.run C cs).isSome) : cfg.system.Reach C ((cfg.run C cs).get h) :=
  Protocol.Reach.start.exec (Option.some_get h).symm

/-- No condition: the network loses, duplicates, delays and reorders at will, timers fire at
any time and sends fail at any time. -/
def anyStep : StepCond := fun _ _ _ _ => True

instance (w : GlobalState) (n : Node) (ω : Choice) (i : Input Addr Msg Act) :
    Decidable (anyStep w n ω i) := inferInstanceAs (Decidable True)

end D2PC
