import Mathlib.Algebra.Ring.Nat
import Mathlib.Algebra.BigOperators.Group.List.Lemmas
import D2PC.Lib.Network
import D2PC.Lib.Table

/-!
# Records and messages of inconsistent replication

The data of `replication/ir`: the record of operations a replica keeps, the messages of
`ir-proto.proto`, and the quorums. Operations and results are those of the application, which
is given by its upcalls.
-/

namespace D2PC.Ir

/-- `opid_t`: the client and its request number. -/
abbrev OpId := ℕ × ℕ

/-- `RecordEntryState`. -/
inductive RecordEntryState where
  | tentative | finalized
  deriving DecidableEq, Repr

/-- `RecordEntryType`. -/
inductive RecordEntryType where
  | inconsistent | consensus
  deriving DecidableEq, Repr

/-- `ReplicaStatus`. -/
inductive Status where
  | normal | viewChange | recovering
  deriving DecidableEq, Repr

/-- `RecordEntry`. -/
structure RecordEntry (Op Res : Type) where
  view : ℕ
  opid : OpId
  state : RecordEntryState
  type : RecordEntryType
  request : Op
  result : Res
  deriving DecidableEq

/-- `Record`. -/
abbrev Record (Op Res : Type) := Table OpId (RecordEntry Op Res)

/-- The upcalls of `IRAppReplica`. -/
structure App (σ Op Res : Type) where
  init : σ
  execInconsistentUpcall : Op → σ → σ
  execConsensusUpcall : Op → σ → Res × σ
  sync : Record Op Res → σ → σ
  merge : (d u : Table OpId (List (RecordEntry Op Res))) → (majorityResultsInD : Table OpId Res) →
    σ → Table OpId Res × σ

/-- The merge of the application keeps the majority result of every operation in `d`. -/
def App.KeepsMajority {σ Op Res : Type} (app : App σ Op Res) : Prop :=
  ∀ d u majority s o es res, d.lookup o = some es → majority.lookup o = some res →
    (app.merge d u majority s).1.lookup o = some res

/-- `DoViewChangeMessage`. -/
structure DoViewChange (Op Res : Type) where
  replicaIdx : ℕ
  record : Option (Record Op Res)
  newView : ℕ
  latestNormalView : ℕ

/-- The messages. -/
inductive Msg (Op Res : Type) where
  | proposeInconsistent (opid : OpId) (op : Op)
  | replyInconsistent (view replicaIdx : ℕ) (opid : OpId) (finalized : Bool)
  | finalizeInconsistent (opid : OpId)
  | confirm (view replicaIdx : ℕ) (opid : OpId)
  | proposeConsensus (opid : OpId) (op : Op)
  | replyConsensus (view replicaIdx : ℕ) (opid : OpId) (result : Res) (finalized : Bool)
  | finalizeConsensus (opid : OpId) (result : Res)
  | doViewChange (m : DoViewChange Op Res)
  | startView (record : Record Op Res) (newView : ℕ)

/-- The processes. -/
inductive Node where
  | replica (i : ℕ)
  | client (id : ℕ)
  deriving DecidableEq, Repr

/-- A deployment: `n` replicas, of which `f` may fail. -/
structure Config where
  n : ℕ
  f : ℕ

/-- `Configuration::GetLeaderIndex`. -/
def Config.leader (cfg : Config) (view : ℕ) : ℕ := view % cfg.n

/-- `Configuration::QuorumSize`. -/
def Config.quorumSize (cfg : Config) : ℕ := cfg.f + 1

/-- `Configuration::FastQuorumSize`. -/
def Config.fastQuorumSize (cfg : Config) : ℕ := cfg.f + (cfg.f + 1) / 2 + 1

/-- `QuorumSet`: the messages received for an identifier, by replica. -/
abbrev QuorumSet (ι M : Type) := Table ι (Table ℕ M)

namespace QuorumSet

variable {ι M : Type} [DecidableEq ι]

/-- `GetMessages`. -/
def getMessages (q : QuorumSet ι M) (vs : ι) : Table ℕ M := (q.lookup vs).getD ∅

/-- `Add`: a message of the same replica is replaced. -/
def add (q : QuorumSet ι M) (vs : ι) (replicaIdx : ℕ) (msg : M) : QuorumSet ι M :=
  q.insert vs ((q.getMessages vs).insert replicaIdx msg)

theorem getMessages_add (q : QuorumSet ι M) (vs vs' : ι) (i : ℕ) (msg : M) :
    (q.add vs i msg).getMessages vs' =
      if vs' = vs then (q.getMessages vs).insert i msg else q.getMessages vs' := by
  unfold add getMessages
  rw [Table.lookup_insert_eq]
  split_ifs <;> rfl

end QuorumSet

/-- How often each result occurs, as the clients and the merge count it. -/
def tally {Res : Type} [DecidableEq Res] (results : List Res) : Table Res ℕ :=
  results.foldl (fun t r => t.insert r ((t.lookup r).getD 0 + 1)) ∅

section Tally

variable {Res : Type} [DecidableEq Res]

theorem tally_concat (rs : List Res) (r : Res) :
    tally (rs ++ [r]) = (tally rs).insert r (((tally rs).lookup r).getD 0 + 1) := by
  simp only [tally, List.foldl_append, List.foldl_cons, List.foldl_nil]

theorem lookup_tally (rs : List Res) (r : Res) :
    (tally rs).lookup r = if r ∈ rs then some (rs.count r) else none := by
  induction rs using List.reverseRecOn with
  | nil => simp [tally]
  | append_singleton rs r' ih =>
      rw [tally_concat, Table.lookup_insert_eq, List.count_append]
      by_cases heq : r = r'
      · subst heq
        rw [if_pos rfl, if_pos (by simp), ih]
        by_cases hmem : r ∈ rs
        · simp [hmem]
        · simp [hmem, List.count_eq_zero_of_not_mem]
      · rw [if_neg heq, ih]
        simp [heq, Ne.symm heq]

theorem mem_tally {rs : List Res} {r : Res} {k : ℕ} :
    (r, k) ∈ (tally rs).toList ↔ r ∈ rs ∧ rs.count r = k := by
  rw [Table.mem_toList, lookup_tally]
  split_ifs with hmem
  · simp [hmem]
  · simp [hmem]

/-- The counts of the results of a kind add up to the number of such results. -/
theorem tally_sum (rs : List Res) (p : Res → Bool) :
    (((tally rs).toList.filter fun c => p c.1).map Prod.snd).sum = rs.countP p := by
  have hkeys : ((tally rs).toList.map Prod.fst).Perm rs.dedup := by
    rw [List.perm_ext_iff_of_nodup (tally rs).toList_nodup (List.nodup_dedup rs)]
    intro r
    rw [Table.mem_keys_toList, List.mem_dedup, ← AList.lookup_isSome, lookup_tally]
    split_ifs with hmem <;> simp [hmem]
  have hcounts : ((tally rs).toList.filter fun c => p c.1).map Prod.snd =
      (((tally rs).toList.map Prod.fst).filter p).map fun r => rs.count r := by
    rw [List.filter_map, List.map_map]
    apply List.map_congr_left
    rintro ⟨r, k⟩ hc
    exact (mem_tally.1 (List.mem_filter.1 hc).1).2.symm
  rw [hcounts, ← List.sum_map_count_dedup_filter_eq_countP p rs]
  exact ((hkeys.filter p).map _).sum_eq

end Tally

end D2PC.Ir
