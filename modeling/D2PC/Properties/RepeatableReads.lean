import D2PC.Invariant.Moves
import D2PC.Lib.Calls
import D2PC.Properties.MultiRead
import D2PC.Store.Operations

/-!
# Reading one's own writes, and reading again

One transaction that calls `Get` and `Put`, with the replicas it reads from. Between two calls a
replica may receive anything: commits of other transactions install new versions there. A key
that was read before is to be read again at the timestamp in the read set, but
`ShardClient::Get` drops that timestamp, and the newest version is served.

* `Reader`, `Reader.step` : the client, the replicas and what the application has seen;
* `Replica.handleInput_versions` : no input takes a version away or changes it;
* `Reader.Steady` : the condition on a call, above all that the newest version of a key that is
  read again is the recorded one;
* `reads_repeat` : in every run of steady calls a `Get` returns the value of the latest `Put`,
  or else that of the first successful `Get`;
* `reads_move_on` : a commit between two reads changes the value.
-/

namespace D2PC

open Prog Ctx

/-! ### Versions at a replica -/

/-- The versions of a store were stamped with a time only, as loading and commits do. -/
def VersionedKVStore.Stamped (s : VersionedKVStore) : Prop :=
  ∀ key t v, s.HasVersion key t v → t.id = 0

/-- Loading a key. -/
theorem VersionedKVStore.Stamped.put {s : VersionedKVStore} (h : s.Stamped) (key : Key)
    (value : Value) (t : Timestamp) (ht : t.id = 0) : (s.put key value t).Stamped := by
  intro key' u v hv
  unfold HasVersion at hv
  rw [versions_put] at hv
  split at hv
  · rcases mem_insertVersion hv with heq | hv
    · rw [Prod.mk.injEq] at heq
      rw [heq.1]
      exact ht
    · exact h key u v hv
  · exact h key' u v hv

/-- No version is lost. -/
structure VersionedKVStore.Extends (s s' : VersionedKVStore) : Prop where
  keeps : ∀ key t v, s.HasVersion key t v → s'.HasVersion key t v
  stamped : s.Stamped → s'.Stamped

theorem VersionedKVStore.Extends.refl (s : VersionedKVStore) : s.Extends s :=
  ⟨fun _ _ _ h => h, fun h => h⟩

theorem VersionedKVStore.Extends.trans {s s' s'' : VersionedKVStore} (h : s.Extends s')
    (h' : s'.Extends s'') : s.Extends s'' :=
  ⟨fun key t v hv => h'.keeps key t v (h.keeps key t v hv), fun hs => h'.stamped (h.stamped hs)⟩

theorem VersionedKVStore.extends_install (s : VersionedKVStore) (writes : Table Key Value)
    (id : TxnId) (timestamp : ℕ) : s.Extends (s.install writes id timestamp) := by
  refine ⟨fun key t v h => hasVersion_install.2 (.inl h), fun h key t v hv => ?_⟩
  rcases hasVersion_install.1 hv with hv | ⟨rfl, _, _⟩
  · exact h key t v hv
  · rfl

theorem VersionedKVStore.extends_announce (s : VersionedKVStore) (writes : Table Key Value)
    (id : TxnId) : s.Extends (s.announce writes id) := by
  have hversions : ∀ (ws : List (Key × Value)) (s : VersionedKVStore) (key : Key),
      (ws.foldl (fun s w => s.preCommit w.1 id) s).versions key = s.versions key := by
    intro ws
    induction ws with
    | nil => exact fun s key => rfl
    | cons w ws ih => exact fun s key => ih _ key
  have hsame : ∀ key t v, (s.announce writes id).HasVersion key t v ↔ s.HasVersion key t v := by
    intro key t v
    unfold HasVersion announce
    rw [hversions]
  exact ⟨fun key t v h => (hsame key t v).2 h, fun h key t v hv => h key t v ((hsame key t v).1 hv)⟩

/-- The values of two versions at one timestamp agree. -/
theorem VersionedKVStore.HasVersion.unique {s : VersionedKVStore} {key : Key} {t : Timestamp}
    {v v' : Value} (h : s.HasVersion key t v) (h' : s.HasVersion key t v') : v = v' := by
  by_contra hne
  have hpairs : (s.versions key).entries.Pairwise fun a b => a.1 ≠ b.1 :=
    (s.versions key).sorted.imp fun hlt => ne_of_lt hlt
  have : Std.Symm fun a b : Timestamp × Value => a.1 ≠ b.1 := ⟨fun _ _ hab => hab.symm⟩
  exact hpairs.forall h h' (fun heq => hne (congrArg Prod.snd heq)) rfl

theorem TxnStore.extends_commit (s : TxnStore) (id : TxnId) (timestamp : ℕ) :
    s.kv.Extends (s.commit id timestamp).kv := by
  rw [kv_commit]
  split
  · exact s.kv.extends_install _ id timestamp
  · exact .refl _

namespace Replica

variable {env : ReplicaEnv} {r₀ : Replica} {input : Input Addr Msg Act} {D : Option TxnId}
variable {x₀ x : Ctx Replica Addr Msg Event}

theorem Moves.versions (h : Moves env r₀ input D x₀ x) :
    x₀.state.store.kv.Extends x.state.store.kv := by
  induction h with
  | refl => exact .refl _
  | tail _ hmove ih =>
      refine ih.trans ?_
      cases hmove with
      | quiet r hr => rw [hr.store]; exact .refl _
      | copy =>
          show VersionedKVStore.Extends _ (TxnStore.prepare _ _ _ _ _).2.kv
          rw [TxnStore.kv_prepare]
          exact .refl _
      | prepare =>
          show VersionedKVStore.Extends _ (TxnStore.prepare _ _ _ _ _).2.kv
          rw [TxnStore.kv_prepare]
          exact .refl _
      | preCommit tid =>
          show VersionedKVStore.Extends _ (TxnStore.preCommit tid _).kv
          rw [TxnStore.kv_preCommit]
          exact VersionedKVStore.extends_announce _ _ tid
      | commit => exact TxnStore.extends_commit _ _ _
      | abort => rw [TxnStore.kv_abort]; exact .refl _
      | cascade => rw [TxnStore.kv_abort]; exact .refl _
      | follow tid s hs =>
          rcases hs with rfl | ⟨ts, rfl⟩
          · rw [TxnStore.kv_abort]
            exact .refl _
          · exact TxnStore.extends_commit _ tid ts
      | _ => exact .refl _

/-- **No input takes a version away or changes it.** -/
theorem handleInput_versions (env : ReplicaEnv) (ω : Choice) (input : Input Addr Msg Act)
    (x : Ctx Replica Addr Msg Event) :
    x.state.store.kv.Extends (handleInput env ω input x).state.state.store.kv := by
  obtain ⟨D, hmoves⟩ := wp_state (handleInput_stopped env ω input x)
  exact hmoves.versions

/-- The reply to a read of one key that finds no pre-committed write. -/
def readReply (env : ReplicaEnv) (r : Replica) (tid : TxnId) (key : Key) : GetDataReply :=
  match r.store.kv.get key with
  | some e =>
      { tid := tid
        keys := [{ key := key, value := e.2, timestamp := e.1.timestamp }]
        replicaId := env.replicaId
        state := .ok }
  | none => { tid := tid, keys := [], replicaId := env.replicaId, state := .fail }

/-- **A read of a committed version.** -/
theorem handleRead_committed (env : ReplicaEnv) (r : Replica) (tid : TxnId) (key : Key)
    (remote : Addr) (hnone : r.store.kv.pending key = []) :
    handleRead env remote { tid := tid, keys := [key] } { state := r } = .done ()
      { state := r, sent := [⟨env.addr, remote, .getDataReply (readReply env r tid key)⟩] } := by
  have hdep : r.store.getDependency tid key ({}, "") = (r.store.kv.get key).map fun e => (e, 0) := by
    have hkv : r.store.getDependency tid key ({}, "") =
        r.store.kv.getDependency key ({}, "") := by
      cases r.store <;> rfl
    rw [hkv, VersionedKVStore.getDependency, hnone]
    cases r.store.kv.get key <;> rfl
  have hkey : readKey env tid key { state := r } = .done ((r.store.kv.get key).map fun e =>
      { key := key, value := e.2, timestamp := e.1.timestamp }) { state := r } := by
    unfold readKey
    rw [read_bind]
    unfold TxnStore.getUpcall
    rw [hdep]
    cases r.store.kv.get key with
    | none => rfl
    | some e =>
        simp only [Option.map_some, ite_self, replyOk, lt_irrefl, and_false, if_true, if_false]
        rfl
  simp only [handleRead, readKeys, bind, hkey, readReply]
  cases r.store.kv.get key with
  | none => rfl
  | some e => rfl

end Replica

/-! ### A client that reads and writes -/

/-- What the application has seen: a `Put`, and a `Get` that returned `REPLY_OK`. -/
inductive Access where
  | put (key : Key) (value : Value)
  | got (key : Key) (value : Value)
  deriving DecidableEq

/-- The value of the latest `Put`. -/
def latestPut (key : Key) (log : List Access) : Option Value :=
  log.foldl (fun v a => match a with
    | .put key' value => if key' = key then some value else v
    | .got _ _ => v) none

/-- The value of the first successful `Get`. -/
def firstGet (key : Key) (log : List Access) : Option Value :=
  log.foldl (fun v a => match a with
    | .got key' value => if key' = key then v.or (some value) else v
    | .put _ _ => v) none

/-- The client of a transaction, the replicas it reads from, the replies they made for it, and
what the application has seen. A replica that died is gone. -/
structure Reader where
  client : Client := {}
  replicas : Shard → Option Replica
  replies : List (Shard × GetDataReply) := []
  log : List Access := []

/-- What happens: a call of the application, where a read may reach the replica or not and is
answered by one of the replies made so far or by the timeout, or anything at a replica. -/
inductive Reader.Call where
  | put (key : Key) (value : Value)
  | get (key : Key) (arrives : Bool) (answer : Option ℕ)
  | other (s : Shard) (ω : Choice) (input : Input Addr Msg Act)

namespace Reader

/-- The replica of a shard the client reads from. -/
def replicaEnv (env : ClientEnv) (s : Shard) : ReplicaEnv := ⟨env.cfg, s, Client.readReplica env⟩

/-- The start: the stores are loaded. -/
def start (env : ClientEnv) : Reader where
  replicas s := some (env.cfg.init (.replica s (Client.readReplica env)) : Replica)

/-- The replica of a shard handles an input. -/
def feed (env : ClientEnv) (w : Reader) (s : Shard) (ω : Choice) (input : Input Addr Msg Act) :
    Reader :=
  match w.replicas s with
  | none => w
  | some r =>
      match Replica.handleInput (replicaEnv env s) ω input { state := r } with
      | .done _ x => { w with
          replicas := fun s' => if s' = s then some x.state else w.replicas s'
          replies := w.replies ++ x.sent.filterMap fun p =>
            match p.dst, p.msg with
            | .client tid s, .getDataReply m => if tid = env.tid then some (s, m) else none
            | _, _ => none }
      | .dead _ => { w with replicas := fun s' => if s' = s then none else w.replicas s' }

/-- The `GetData` of a read of one key. -/
def request (env : ClientEnv) (key : Key) : Input Addr Msg Act :=
  let s := env.cfg.keyToShard key
  .recv ⟨.client env.tid s, .replica s (Client.readReplica env),
    .getData { tid := env.tid, keys := [key] }⟩

/-- What answers a read of the shard: a reply, which may be one to an earlier read, or the
timeout. -/
def answerOf (w : Reader) (s : Shard) (answer : Option ℕ) : Client.Answer :=
  match answer.bind (w.replies[·]?) with
  | some (s', m) => if s' = s then .reply m else .timeout
  | none => .timeout

/-- The key is in the write set. -/
def Owns (env : ClientEnv) (w : Reader) (key : Key) : Prop :=
  key ∈ (w.client.buffered env (env.cfg.keyToShard key)).writeSet

instance (env : ClientEnv) (w : Reader) (key : Key) : Decidable (w.Owns env key) :=
  inferInstanceAs (Decidable (key ∈ _))

/-- `Get` returns. -/
def receive (env : ClientEnv) (w : Reader) (key : Key) (a : Client.Answer) : Reader :=
  let ((code, value), client) := Client.getReturns env a key w.client
  { w with
    client := client
    log := if code = replyOk then w.log ++ [.got key value] else w.log }

def step (env : ClientEnv) (w : Reader) : Call → Reader
  | .put key value =>
      let s := env.cfg.keyToShard key
      { w with
        client := { w.client with
          txns := w.client.txns.insert s ((w.client.buffered env s).addWriteSet key value) }
        log := w.log ++ [.put key value] }
  | .get key arrives answer =>
      let s := env.cfg.keyToShard key
      -- a key of the write set is not asked for
      let w := if arrives ∧ ¬ w.Owns env key then w.feed env s {} (request env key) else w
      w.receive env key (w.answerOf s answer)
  | .other s ω input => w.feed env s ω input

/-- **The condition on a call.** A read that is answered is answered by the reply to it. The
replica serves it a committed version, which is the recorded one if the key was read before. -/
def Steady (env : ClientEnv) (w : Reader) : Call → Prop
  | .get key arrives answer =>
      w.Owns env key ∨ answer = none ∨
        arrives = true ∧ answer = some w.replies.length ∧
          ∀ r ∈ w.replicas (env.cfg.keyToShard key), r.store.kv.pending key = [] ∧
            ∀ t ∈ (w.client.buffered env (env.cfg.keyToShard key)).readSet.lookup key,
              ∀ e ∈ r.store.kv.get key, e.1 = t
  | _ => True

instance (env : ClientEnv) (w : Reader) (c : Call) : Decidable (w.Steady env c) :=
  match c with
  | .get key arrives answer => inferInstanceAs (Decidable (w.Owns env key ∨ answer = none ∨
      arrives = true ∧ answer = some w.replies.length ∧
        ∀ r ∈ w.replicas (env.cfg.keyToShard key), r.store.kv.pending key = [] ∧
          ∀ t ∈ (w.client.buffered env (env.cfg.keyToShard key)).readSet.lookup key,
            ∀ e ∈ r.store.kv.get key, e.1 = t))
  | .put _ _ => inferInstanceAs (Decidable True)
  | .other _ _ _ => inferInstanceAs (Decidable True)

/-! ### The log -/

/-- What a `Get` is to return. -/
def expected (key : Key) (log : List Access) : Option Value :=
  (latestPut key log).or (firstGet key log)

/-- Every successful `Get` returned what it was to return. -/
def Repeats (log : List Access) : Prop :=
  ∀ i key value, log[i]? = some (.got key value) →
    ∀ v, expected key (log.take i) = some v → value = v

theorem latestPut_put (key key' : Key) (value : Value) (log : List Access) :
    latestPut key (log ++ [.put key' value]) =
      if key' = key then some value else latestPut key log := by
  rw [latestPut, List.foldl_append]
  rfl

theorem latestPut_got (key key' : Key) (value : Value) (log : List Access) :
    latestPut key (log ++ [.got key' value]) = latestPut key log := by
  rw [latestPut, List.foldl_append]
  rfl

theorem firstGet_put (key key' : Key) (value : Value) (log : List Access) :
    firstGet key (log ++ [.put key' value]) = firstGet key log := by
  rw [firstGet, List.foldl_append]
  rfl

theorem firstGet_got (key key' : Key) (value : Value) (log : List Access) :
    firstGet key (log ++ [.got key' value]) =
      if key' = key then (firstGet key log).or (some value) else firstGet key log := by
  rw [firstGet, List.foldl_append]
  rfl

theorem Repeats.concat {log : List Access} (h : Repeats log) {a : Access}
    (ha : ∀ key value, a = .got key value → ∀ v, expected key log = some v → value = v) :
    Repeats (log ++ [a]) := by
  intro i key value hget v hv
  rcases Nat.lt_or_ge i log.length with hlt | hge
  · rw [List.getElem?_append_left hlt] at hget
    rw [List.take_append_of_le_length (le_of_lt hlt)] at hv
    exact h i key value hget v hv
  · have hi : i = log.length := by
      have := (List.getElem?_eq_some_iff.1 hget).1
      rw [List.length_append, List.length_singleton] at this
      omega
    subst hi
    rw [List.getElem?_concat_length] at hget
    rw [List.take_left] at hv
    exact ha key value (Option.some.inj hget) v hv

/-! ### The invariant -/

variable {env : ClientEnv} {w : Reader} {key : Key}

/-- **The invariant.** The buffers are in step with the log, and the value that was read first
is that of the recorded version. -/
structure Consistent (env : ClientEnv) (w : Reader) : Prop where
  puts : ∀ key, (w.client.buffered env (env.cfg.keyToShard key)).writeSet.lookup key =
    latestPut key w.log
  reads : ∀ key v, latestPut key w.log = none → firstGet key w.log = some v →
    ∃ t, (w.client.buffered env (env.cfg.keyToShard key)).readSet.lookup key = some t ∧
      ∀ r, w.replicas (env.cfg.keyToShard key) = some r → r.store.kv.HasVersion key t v
  fresh : ∀ key, latestPut key w.log = none → firstGet key w.log = none →
    key ∉ (w.client.buffered env (env.cfg.keyToShard key)).readSet
  stamped : ∀ s r, w.replicas s = some r → r.store.kv.Stamped
  repeats : Repeats w.log

theorem feed_replicas (s : Shard) (ω : Choice) (input : Input Addr Msg Act) {s' : Shard}
    {r' : Replica} (h : (w.feed env s ω input).replicas s' = some r') :
    ∃ r, w.replicas s' = some r ∧ r.store.kv.Extends r'.store.kv := by
  unfold feed at h
  split at h
  · exact ⟨r', h, .refl _⟩
  · rename_i r hr
    have hversions := Replica.handleInput_versions (replicaEnv env s) ω input { state := r }
    split at h
    · rename_i x hx
      rw [hx] at hversions
      have h' : (if s' = s then some x.state else w.replicas s') = some r' := h
      by_cases heq : s' = s
      · rw [if_pos heq] at h'
        obtain rfl := Option.some.inj h'
        exact ⟨r, by rw [heq, hr], hversions⟩
      · rw [if_neg heq] at h'
        exact ⟨r', h', .refl _⟩
    · have h' : (if s' = s then none else w.replicas s') = some r' := h
      by_cases heq : s' = s
      · rw [if_pos heq] at h'
        cases h'
      · rw [if_neg heq] at h'
        exact ⟨r', h', .refl _⟩

theorem feed_client (s : Shard) (ω : Choice) (input : Input Addr Msg Act) :
    (w.feed env s ω input).client = w.client ∧ (w.feed env s ω input).log = w.log := by
  unfold feed
  split
  · exact ⟨rfl, rfl⟩
  · split <;> exact ⟨rfl, rfl⟩

/-- Whatever a replica receives. -/
theorem Consistent.feed (h : Consistent env w) (s : Shard) (ω : Choice)
    (input : Input Addr Msg Act) : Consistent env (w.feed env s ω input) := by
  obtain ⟨hclient, hlog⟩ : (w.feed env s ω input).client = w.client ∧
    (w.feed env s ω input).log = w.log := feed_client s ω input
  refine ⟨?_, ?_, ?_, ?_, ?_⟩
  · rw [hclient, hlog]
    exact h.puts
  · rw [hclient, hlog]
    intro key v hput hget
    obtain ⟨t, ht, hversion⟩ := h.reads key v hput hget
    refine ⟨t, ht, fun r' hr' => ?_⟩
    obtain ⟨r, hr, hext⟩ := feed_replicas s ω input hr'
    exact hext.keeps key t v (hversion r hr)
  · rw [hclient, hlog]
    exact h.fresh
  · intro s' r' hr'
    obtain ⟨r, hr, hext⟩ := feed_replicas s ω input hr'
    exact hext.stamped (h.stamped s' r hr)
  · rw [hlog]
    exact h.repeats

/-- `Put`. -/
theorem Consistent.put (h : Consistent env w) (key : Key) (value : Value) :
    Consistent env (w.step env (.put key value)) := by
  have hbuffer : ∀ s, (w.step env (.put key value)).client.buffered env s =
      if s = env.cfg.keyToShard key then
        (w.client.buffered env (env.cfg.keyToShard key)).addWriteSet key value
      else w.client.buffered env s := fun s => Client.buffered_insert_eq w.client _
  have hlog : (w.step env (.put key value)).log = w.log ++ [.put key value] := rfl
  have hreads : ∀ s, ((w.step env (.put key value)).client.buffered env s).readSet =
      (w.client.buffered env s).readSet := by
    intro s
    rw [hbuffer]
    split
    · rename_i heq
      rw [heq]
      rfl
    · rfl
  have hput : ∀ key', latestPut key' (w.log ++ [.put key value]) = none →
      latestPut key' w.log = none := by
    intro key' hnone
    rw [latestPut_put] at hnone
    split at hnone
    · cases hnone
    · exact hnone
  refine ⟨fun key' => ?_, fun key' v hnone hget => ?_, fun key' hnone hget => ?_, h.stamped, ?_⟩
  · rw [hlog, latestPut_put, hbuffer]
    by_cases hkey : key = key'
    · subst hkey
      rw [if_pos rfl, if_pos rfl, Transaction.addWriteSet, Table.lookup_insert_eq, if_pos rfl]
    · rw [if_neg hkey]
      split
      · rename_i heq
        show ((w.client.buffered env _).writeSet.insert key value).lookup key' = _
        rw [Table.lookup_insert_eq, if_neg (fun h' => hkey h'.symm), ← heq]
        exact h.puts key'
      · exact h.puts key'
  · rw [hlog] at hnone hget
    rw [firstGet_put] at hget
    rw [hreads]
    exact h.reads key' v (hput key' hnone) hget
  · rw [hlog] at hnone hget
    rw [firstGet_put] at hget
    rw [hreads]
    exact h.fresh key' (hput key' hnone) hget
  · rw [hlog]
    exact h.repeats.concat fun _ _ heq => by cases heq

/-- An answer with `REPLY_OK` has the newest version of the key, which is the recorded one if
there is one. -/
def Served (env : ClientEnv) (w : Reader) (key : Key) (a : Client.Answer) : Prop :=
  a.code = replyOk → ∃ r e, w.replicas (env.cfg.keyToShard key) = some r ∧
    r.store.kv.get key = some e ∧ a.stamp = ⟨e.1.timestamp, 0⟩ ∧
    (∀ p, (a.fulfil p).value = e.2) ∧
    ∀ t, (w.client.buffered env (env.cfg.keyToShard key)).readSet.lookup key = some t → e.1 = t

/-- `Get` of a key that was put. -/
theorem Consistent.receive_own (h : Consistent env w) (hown : w.Owns env key)
    (a : Client.Answer) : Consistent env (w.receive env key a) := by
  obtain ⟨value, hvalue⟩ := Option.isSome_iff_exists.1 (AList.lookup_isSome.2 hown)
  have hput := (h.puts key).symm.trans hvalue
  have hreturns : w.receive env key a = { w with log := w.log ++ [.got key value] } := by
    simp only [receive, Client.getReturns, hvalue, if_true]
  rw [hreturns]
  refine ⟨fun key' => ?_, fun key' v hnone hget => ?_, fun key' hnone hget => ?_, h.stamped, ?_⟩
  · show _ = latestPut key' (w.log ++ [.got key value])
    rw [latestPut_got]
    exact h.puts key'
  · replace hnone : latestPut key' (w.log ++ [.got key value]) = none := hnone
    replace hget : firstGet key' (w.log ++ [.got key value]) = some v := hget
    rw [latestPut_got] at hnone
    rw [firstGet_got, if_neg (fun heq => by rw [← heq, hput] at hnone; cases hnone)] at hget
    exact h.reads key' v hnone hget
  · replace hnone : latestPut key' (w.log ++ [.got key value]) = none := hnone
    replace hget : firstGet key' (w.log ++ [.got key value]) = none := hget
    rw [latestPut_got] at hnone
    rw [firstGet_got, if_neg (fun heq => by rw [← heq, hput] at hnone; cases hnone)] at hget
    exact h.fresh key' hnone hget
  · refine h.repeats.concat fun key' value' heq v hv => ?_
    cases heq
    rw [expected, hput] at hv
    exact Option.some.inj hv

theorem writeSet_recordReads (s s' : Shard) (t : Timestamp) (keys : List Key) (c : Client) :
    ((Client.recordReads env s t keys c).buffered env s').writeSet =
      (c.buffered env s').writeSet := by
  induction keys generalizing c with
  | nil => rfl
  | cons key keys ih =>
      refine (ih _).trans ((congrArg _ (Client.buffered_insert_eq c _)).trans ?_)
      split
      · rename_i heq
        rw [heq]
        rfl
      · rfl

/-- The buffers after a `Get` that was served a committed version. -/
theorem receive_served (h : Consistent env w) (hown : ¬ w.Owns env key) {a : Client.Answer}
    (hok : a.code = replyOk) {r : Replica} {e : Timestamp × Value}
    (hr : w.replicas (env.cfg.keyToShard key) = some r) (he : r.store.kv.get key = some e)
    (hstamp : a.stamp = ⟨e.1.timestamp, 0⟩) (hvalue : ∀ p, (a.fulfil p).value = e.2)
    (hsame : ∀ t, (w.client.buffered env (env.cfg.keyToShard key)).readSet.lookup key = some t →
      e.1 = t) :
    (w.receive env key a).log = w.log ++ [.got key e.2] ∧
    (∀ s, ((w.receive env key a).client.buffered env s).writeSet =
      (w.client.buffered env s).writeSet) ∧
    ∀ key', ((w.receive env key a).client.buffered env (env.cfg.keyToShard key')).readSet.lookup
      key' = if key' = key then some e.1 else
        (w.client.buffered env (env.cfg.keyToShard key')).readSet.lookup key' := by
  have hnone : (w.client.buffered env (env.cfg.keyToShard key)).writeSet.lookup key = none :=
    AList.lookup_eq_none.2 hown
  have hversion : r.store.kv.HasVersion key e.1 e.2 := List.mem_of_getLast? he
  have hid : a.stamp = e.1 := by
    rw [hstamp]
    exact Timestamp.ext rfl (h.stamped _ r hr key e.1 e.2 hversion).symm
  by_cases hread : key ∈ (w.client.buffered env (env.cfg.keyToShard key)).readSet
  · have hreceive : w.receive env key a = { w with log := w.log ++ [.got key e.2] } := by
      simp only [receive, Client.getReturns, hnone, Client.Answer.fulfil_reply, hok, if_true,
        if_pos hread, hvalue]
    rw [hreceive]
    refine ⟨rfl, fun _ => rfl, fun key' => ?_⟩
    split
    · rename_i heq
      subst heq
      obtain ⟨t, ht⟩ := Option.isSome_iff_exists.1 (AList.lookup_isSome.2 hread)
      rw [hsame t ht]
      exact ht
    · rfl
  · have hreceive : w.receive env key a = { w with
        client := Client.recordReads env (env.cfg.keyToShard key) e.1 [key] w.client
        log := w.log ++ [.got key e.2] } := by
      simp only [receive, Client.getReturns, hnone, Client.recordAnswer,
        Client.Answer.fulfil_reply, hok, if_true, if_neg hread, hvalue,
        Client.Answer.fulfil_timestamp hok, hid]
    rw [hreceive]
    refine ⟨rfl, fun s => writeSet_recordReads _ s _ _ _, fun key' => ?_⟩
    show ((Client.recordReads env _ _ _ _).buffered env _).readSet.lookup key' = _
    by_cases hshard : env.cfg.keyToShard key' = env.cfg.keyToShard key
    · rw [hshard, Client.readSet_recordReads]
      simp only [List.mem_singleton]
    · rw [Client.buffered_recordReads _ _ _ hshard, if_neg]
      exact fun heq => hshard (congrArg _ heq)

/-- `Get` of a key that was not put, with an answer of the replica. -/
theorem Consistent.receive_read (h : Consistent env w) (hown : ¬ w.Owns env key)
    {a : Client.Answer} (ha : Served env w key a) : Consistent env (w.receive env key a) := by
  have hnone : (w.client.buffered env (env.cfg.keyToShard key)).writeSet.lookup key = none :=
    AList.lookup_eq_none.2 hown
  by_cases hok : a.code = replyOk
  · obtain ⟨r, e, hr, he, hstamp, hvalue, hsame⟩ := ha hok
    obtain ⟨hlog, hwset, hrset⟩ := receive_served h hown hok hr he hstamp hvalue hsame
    have hreplicas : (w.receive env key a).replicas = w.replicas := rfl
    have hversion : r.store.kv.HasVersion key e.1 e.2 := List.mem_of_getLast? he
    have hput : latestPut key w.log = none := (h.puts key).symm.trans hnone
    -- a version that was read before is the one that is served now
    have hfirst : ∀ v, firstGet key w.log = some v → e.2 = v := by
      intro v hv
      obtain ⟨t, ht, hold⟩ := h.reads key v hput hv
      rw [← hsame t ht] at hold
      exact hversion.unique (hold r hr)
    refine ⟨fun key' => ?_, fun key' v hnone' hget => ?_, fun key' hnone' hget => ?_, h.stamped, ?_⟩
    · rw [hwset, hlog, latestPut_got]
      exact h.puts key'
    · rw [hlog] at hnone' hget
      rw [latestPut_got] at hnone'
      rw [firstGet_got] at hget
      rw [hrset, hreplicas]
      by_cases hkey : key' = key
      · subst hkey
        rw [if_pos rfl] at hget
        refine ⟨e.1, if_pos rfl, fun r' hr' => ?_⟩
        obtain rfl := Option.some.inj (hr.symm.trans hr')
        cases hold : firstGet key' w.log with
        | none =>
            rw [hold] at hget
            obtain rfl := Option.some.inj hget
            exact hversion
        | some v' =>
            rw [hold] at hget
            obtain rfl := Option.some.inj hget
            rw [← hfirst v' hold]
            exact hversion
      · rw [if_neg (fun heq => hkey heq.symm)] at hget
        rw [if_neg hkey]
        exact h.reads key' v hnone' hget
    · rw [hlog] at hnone' hget
      rw [latestPut_got] at hnone'
      rw [firstGet_got] at hget
      have hkey : key ≠ key' := by
        rintro rfl
        rw [if_pos rfl] at hget
        cases hold : firstGet key w.log <;> rw [hold] at hget <;> cases hget
      rw [if_neg hkey] at hget
      rw [← AList.lookup_eq_none, hrset, if_neg (Ne.symm hkey), AList.lookup_eq_none]
      exact h.fresh key' hnone' hget
    · rw [hlog]
      refine h.repeats.concat fun key' value' heq v hv => ?_
      cases heq
      rw [expected, hput] at hv
      exact hfirst v hv
  · have hreceive : w.receive env key a = w := by
      simp only [receive, Client.getReturns, hnone, Client.recordAnswer,
        Client.Answer.fulfil_reply, if_neg hok, ite_self]
    rw [hreceive]
    exact h

/-- A read of a committed version at a replica. -/
theorem feed_request {r : Replica} (hr : w.replicas (env.cfg.keyToShard key) = some r)
    (hpending : r.store.kv.pending key = []) :
    w.feed env (env.cfg.keyToShard key) {} (request env key) = { w with
      replicas := fun s => if s = env.cfg.keyToShard key then some r else w.replicas s
      replies := w.replies ++ [(env.cfg.keyToShard key,
        Replica.readReply (replicaEnv env (env.cfg.keyToShard key)) r env.tid key)] } := by
  have hread := Replica.handleRead_committed (replicaEnv env (env.cfg.keyToShard key)) r env.tid key
    (.client env.tid (env.cfg.keyToShard key)) hpending
  have hinput : Replica.handleInput (replicaEnv env (env.cfg.keyToShard key)) {} (request env key)
      { state := r } = _ := hread
  simp only [feed, hr, hinput, List.filterMap_cons, List.filterMap_nil, if_true]

/-- The reply the replica makes for a read is an answer with the newest version. -/
theorem served_request (hsteady : ∀ r ∈ w.replicas (env.cfg.keyToShard key),
      r.store.kv.pending key = [] ∧
      ∀ t ∈ (w.client.buffered env (env.cfg.keyToShard key)).readSet.lookup key,
        ∀ e ∈ r.store.kv.get key, e.1 = t) :
    Served env (w.feed env (env.cfg.keyToShard key) {} (request env key)) key
      ((w.feed env (env.cfg.keyToShard key) {} (request env key)).answerOf
        (env.cfg.keyToShard key) (some w.replies.length)) := by
  cases hr : w.replicas (env.cfg.keyToShard key) with
  | none =>
      have hfeed : w.feed env (env.cfg.keyToShard key) {} (request env key) = w := by
        simp only [feed, hr]
      rw [hfeed]
      intro hok
      simp only [answerOf, Option.bind_some, List.getElem?_length] at hok
      cases hok
  | some r =>
      obtain ⟨hpending, hsame⟩ := hsteady r hr
      rw [feed_request hr hpending]
      simp only [answerOf, Option.bind_some, List.getElem?_concat_length, if_true]
      intro hok
      cases he : r.store.kv.get key with
      | none =>
          simp only [Replica.readReply, he, Client.Answer.code] at hok
          cases hok
      | some e =>
          refine ⟨r, e, if_pos rfl, he, ?_, fun p => ?_, fun t ht => hsame t ht e he⟩
          · simp only [Replica.readReply, he]
            rfl
          · simp only [Replica.readReply, he]
            rfl

/-- **One call.** -/
theorem Consistent.step (h : Consistent env w) {call : Call} (hsteady : w.Steady env call) :
    Consistent env (w.step env call) := by
  cases call with
  | put key value => exact h.put key value
  | other s ω input => exact h.feed s ω input
  | get key arrives answer =>
      by_cases hown : w.Owns env key
      · have hstep : w.step env (.get key arrives answer) =
            w.receive env key (w.answerOf (env.cfg.keyToShard key) answer) := by
          simp only [Reader.step, hown, not_true, and_false, if_false]
        rw [hstep]
        exact h.receive_own hown _
      · have hfeed := h.feed (env.cfg.keyToShard key) {} (request env key)
        have hown' : ¬ (w.feed env (env.cfg.keyToShard key) {} (request env key)).Owns env key := by
          unfold Owns
          rw [(feed_client _ _ _).1]
          exact hown
        rcases hsteady with hown' | rfl | ⟨harrives, rfl, hserved⟩
        · exact absurd hown' hown
        · -- the timeout
          have htimeout : ∀ w' : Reader, Served env w' key
              (w'.answerOf (env.cfg.keyToShard key) none) := fun w' hok => by cases hok
          simp only [Reader.step]
          split
          · exact hfeed.receive_read hown' (htimeout _)
          · exact h.receive_read hown (htimeout _)
        · simp only [Reader.step, harrives, hown, not_false_eq_true, and_self, if_true]
          exact hfeed.receive_read hown' (served_request hserved)

theorem start_consistent (hstamped : ∀ s i, (env.cfg.store s i).kv.Stamped) :
    Consistent env (start env) := by
  refine ⟨fun _ => rfl, fun _ _ _ h => ?_, fun _ _ _ h => ?_, fun s r hr => ?_, ?_⟩
  · cases h
  · exact absurd h (AList.notMem_empty _)
  · obtain rfl := Option.some.inj hr
    exact hstamped s _
  · intro i key value h
    cases h

/-- **Reading one's own writes, and reading again.** In every run of steady calls each successful
`Get` returns the value of the latest `Put`, or else that of the first successful `Get`, whose
version is the one in the read set. -/
theorem reads_repeat (hstamped : ∀ s i, (env.cfg.store s i).kv.Stamped) {calls : List Call}
    (hsteady : Calls.Throughout (step env) (Steady env) (start env) calls) :
    Repeats (Calls.run (step env) (start env) calls).log ∧
    ∀ key v, latestPut key (Calls.run (step env) (start env) calls).log = none →
      firstGet key (Calls.run (step env) (start env) calls).log = some v →
      ∃ t, ((Calls.run (step env) (start env) calls).client.buffered env
          (env.cfg.keyToShard key)).readSet.lookup key = some t ∧
        ∀ r, (Calls.run (step env) (start env) calls).replicas (env.cfg.keyToShard key) = some r →
          r.store.kv.HasVersion key t v := by
  have h := hsteady.invariant (start_consistent hstamped) fun w call hw hcall => hw.step hcall
  exact ⟨h.repeats, h.reads⟩

/-! ### Runs -/

/-- A client of one shard with one key loaded. -/
def loadedOnce (mode : TpcMode) : ClientEnv :=
  ⟨{ threeReplicas mode 1 with
    store := fun _ _ => TxnStore.load "a" "0" {} (.occ { store := {} }) }, 7⟩

theorem loadedOnce_stamped (mode : TpcMode) :
    ∀ s i, ((loadedOnce mode).cfg.store s i).kv.Stamped := by
  intro s i
  have hempty : VersionedKVStore.Stamped {} := fun key t v h => absurd h List.not_mem_nil
  exact hempty.put "a" "0" {} rfl

/-- A message for the replica. -/
def receives (m : Msg) : Call := .other 0 {} (.recv ⟨.sendOnly, .replica 0 0, m⟩)

/-- A transaction that writes the key is prepared. -/
def rivalPrepared (mode : CommitMode) : Call :=
  receives (.prepareTransaction
    { tid := 9, wset := [("a", "1")], participants := [0], mode := mode })

/-- The key is read before and after. -/
def readAround (between : List Call) : List Call :=
  .get "a" true (some 0) :: between ++ [.get "a" true (some 1)]

/-- A key is put and read, and another is read while the rival is prepared. -/
def ownAndAround : List Call :=
  [.put "b" "2", .get "b" false none] ++ readAround [rivalPrepared .fast]

theorem ownAndAround_steady : Calls.Throughout (step (loadedOnce .fast)) (Steady (loadedOnce .fast))
    (start (loadedOnce .fast)) ownAndAround := by
  decide +kernel

theorem reads_repeat_prepared :
    Repeats (Calls.run (step (loadedOnce .fast)) (start (loadedOnce .fast)) ownAndAround).log :=
  (reads_repeat (loadedOnce_stamped .fast) ownAndAround_steady).1

/-- **The slip.** A commit with a later timestamp, or in the parallel mode a pre-commit, between
two reads of a key: the second read returns the new value. -/
theorem reads_move_on :
    ¬ Repeats (Calls.run (step (loadedOnce .fast)) (start (loadedOnce .fast))
      (readAround [rivalPrepared .fast,
        receives (.commit { tid := 9, state := .commit, timestamp := 5 })])).log ∧
    ¬ Repeats (Calls.run (step (loadedOnce .parallel)) (start (loadedOnce .parallel))
      (readAround [rivalPrepared .parallel,
        receives (.notifyDecision { tid := 9, state := .prepared, timestamp := 0 })])).log := by
  constructor
  · intro h
    have hvalue := h 1 "a" "1" (by decide +kernel) "0" (by decide +kernel)
    revert hvalue
    decide
  · intro h
    have hvalue := h 1 "a" "1" (by decide +kernel) "0" (by decide +kernel)
    revert hvalue
    decide

end Reader

end D2PC
