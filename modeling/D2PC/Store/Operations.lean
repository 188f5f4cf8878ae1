import D2PC.Lib.Calls
import D2PC.Store.Ownership

/-!
# Sequences of operations on the store of a replica

The upcalls of the replication layer load, prepare, pre-commit, commit and abort
transactions. A leader prepares with a check, a follower without one. Statements about all
reachable states of a store are statements about all sequences of these calls on a new
store of either kind.

* `TxnStore.Call`, `TxnStore.after` : the calls, and the store they lead to;
* `TxnStore.pending_commit` : the lists of pre-committed writers after a commit;
* `TxnStore.call_apart` : a call leaves the transactions it does not name alone.
-/

namespace D2PC

namespace TxnStore

/-- The calls that change the store. -/
inductive Call where
  | load (key : Key) (value : Value) (timestamp : Timestamp)
  | prepare (clock : Clock) (id : TxnId) (txn : Transaction) (doCheck : Bool)
  | preCommit (id : TxnId)
  | commit (id : TxnId) (timestamp : ℕ)
  | abort (id : TxnId)

/-- The transaction a call is about; a load is about none. -/
def Call.id? : Call → Option TxnId
  | .load _ _ _ => none
  | .prepare _ id _ _ => some id
  | .preCommit id => some id
  | .commit id _ => some id
  | .abort id => some id

def call (s : TxnStore) : Call → TxnStore
  | .load key value timestamp => s.load key value timestamp
  | .prepare clock id txn doCheck => (s.prepare clock id txn doCheck).2
  | .preCommit id => s.preCommit id
  | .commit id timestamp => s.commit id timestamp
  | .abort id => s.abort id

/-- A new store of either kind. -/
def Fresh (s : TxnStore) : Prop := s = .occ {} ∨ s = .lock {}

/-- The store after a sequence of calls. -/
abbrev after (s : TxnStore) (ops : List Call) : TxnStore := Calls.run call s ops

/-! ### What the operations do to the versions and the lists -/

/-- No prepare writes to the version store. -/
theorem kv_prepare (s : TxnStore) (clock : Clock) (id : TxnId) (txn : Transaction)
    (doCheck : Bool) : (s.prepare clock id txn doCheck).2.kv = s.kv := by
  cases s with
  | occ s =>
      simp only [prepare, OCCStore.prepare, OCCStore.abort]
      split_ifs <;> rfl
  | lock s =>
      cases doCheck with
      | false => exact (prepare_unchecked (.lock s) clock id txn).1
      | true =>
          rcases s.prepare_cases clock id txn with ⟨_, heq⟩ | ⟨_, s', hacq, hcases⟩
          · rw [prepare, heq]
          · rcases hcases with ⟨_, heq⟩ | ⟨ret, _, heq⟩ | heq
            · rw [prepare, heq]
              exact hacq.store
            · rw [prepare, heq]
              exact hacq.store
            · rw [prepare, heq]
              exact hacq.store

theorem kv_preCommit (s : TxnStore) (id : TxnId) :
    (s.preCommit id).kv = s.kv.announce ((s.prepared.lookup id).getD {}).writeSet id := by
  cases s with
  | occ s => rfl
  | lock s => rfl

theorem preCommit_prepared (s : TxnStore) (id : TxnId) :
    (s.preCommit id).prepared = s.prepared.erase id := by
  cases s with
  | occ s => rfl
  | lock s => rfl

theorem preCommit_precommitted (s : TxnStore) (id : TxnId) :
    (s.preCommit id).precommitted =
      s.precommitted.insert id ((s.prepared.lookup id).getD {}) := by
  cases s with
  | occ s => rfl
  | lock s => rfl

theorem load_tables (s : TxnStore) (key : Key) (value : Value) (timestamp : Timestamp) :
    (s.load key value timestamp).prepared = s.prepared ∧
    (s.load key value timestamp).precommitted = s.precommitted ∧
    ∀ k, (s.load key value timestamp).kv.pending k = s.kv.pending k := by
  cases s with
  | occ s => exact ⟨rfl, rfl, fun _ => rfl⟩
  | lock s => exact ⟨rfl, rfl, fun _ => rfl⟩

/-- **Commit**, for the lists of pre-committed writers. -/
theorem pending_commit (s : TxnStore) (id : TxnId) (timestamp : ℕ) (key : Key) :
    (s.commit id timestamp).kv.pending key =
      if ∃ txn, s.entry id = some txn ∧ key ∈ txn.writeSet
      then (s.kv.pending key).filter (· ≠ id) else s.kv.pending key := by
  rw [kv_commit]
  cases s.entry id with
  | none => simp
  | some txn => simp [VersionedKVStore.pending_install]

/-- The other prepared transactions are not those a commit takes out. -/
theorem commit_prepared_ne {s : TxnStore} {id id' : TxnId} (hne : id ≠ id') (timestamp : ℕ) :
    (s.commit id' timestamp).prepared.lookup id = s.prepared.lookup id := by
  cases s with
  | occ s =>
      simp only [commit, OCCStore.commit]
      split
      · rfl
      · split
        · exact AList.lookup_erase_ne hne
        · rfl
  | lock s =>
      simp only [commit, LockStore.commit]
      split
      · rfl
      · split
        · exact AList.lookup_erase_ne hne
        · rfl

/-- What is kept for one transaction, up to its place in the lists. -/
structure Apart (id : TxnId) (s s' : TxnStore) : Prop where
  prepared : s'.prepared.lookup id = s.prepared.lookup id
  precommitted : s'.precommitted.lookup id = s.precommitted.lookup id
  listed : ∀ key, id ∈ s'.kv.pending key ↔ id ∈ s.kv.pending key

theorem Apart.refl (id : TxnId) (s : TxnStore) : Apart id s s := ⟨rfl, rfl, fun _ => Iff.rfl⟩

theorem Apart.trans {id : TxnId} {s s' s'' : TxnStore} (h : Apart id s s') (h' : Apart id s' s'') :
    Apart id s s'' :=
  ⟨h'.prepared.trans h.prepared, h'.precommitted.trans h.precommitted, fun key =>
    (h'.listed key).trans (h.listed key)⟩

/-- **Frame.** A call leaves the transactions it does not name alone. -/
theorem call_apart {id : TxnId} (s : TxnStore) {op : Call} (hop : op.id? ≠ some id) :
    Apart id s (s.call op) := by
  cases op with
  | load key value timestamp =>
      obtain ⟨hprep, hpre, hlists⟩ := s.load_tables key value timestamp
      refine ⟨?_, ?_, ?_⟩
      · show (s.load key value timestamp).prepared.lookup id = _
        rw [hprep]
      · show (s.load key value timestamp).precommitted.lookup id = _
        rw [hpre]
      · intro k
        show id ∈ (s.load key value timestamp).kv.pending k ↔ _
        rw [hlists]
  | prepare clock id' txn doCheck =>
      have hne : id ≠ id' := fun heq => hop (by rw [heq]; rfl)
      have hothers := prepare_others s clock id' txn doCheck
      refine ⟨hothers.prepared id hne, hothers.precommitted id hne, ?_⟩
      intro key
      show id ∈ (s.prepare clock id' txn doCheck).2.kv.pending key ↔ _
      rw [kv_prepare]
  | preCommit id' =>
      have hne : id ≠ id' := fun heq => hop (by rw [heq]; rfl)
      have hothers := preCommit_others s id'
      refine ⟨hothers.prepared id hne, hothers.precommitted id hne, ?_⟩
      intro key
      show id ∈ (s.preCommit id').kv.pending key ↔ _
      rw [kv_preCommit, VersionedKVStore.pending_announce]
      split_ifs
      · simp [hne]
      · exact Iff.rfl
  | commit id' timestamp =>
      have hne : id ≠ id' := fun heq => hop (by rw [heq]; rfl)
      refine ⟨commit_prepared_ne hne timestamp, ?_, ?_⟩
      · show (s.commit id' timestamp).precommitted.lookup id = _
        rw [commit_precommitted]
        exact AList.lookup_erase_ne hne
      · intro key
        show id ∈ (s.commit id' timestamp).kv.pending key ↔ _
        rw [pending_commit]
        split_ifs
        · simp [hne]
        · exact Iff.rfl
  | abort id' =>
      have hne : id ≠ id' := fun heq => hop (by rw [heq]; rfl)
      have hothers := abort_others s id'
      refine ⟨hothers.prepared id hne, hothers.precommitted id hne, ?_⟩
      intro key
      show id ∈ (s.abort id').kv.pending key ↔ _
      rw [kv_abort]

theorem Apart.call {id : TxnId} {s s' : TxnStore} (h : Apart id s s') (op : Call)
    (hop : op.id? ≠ some id) : Apart id s (s'.call op) :=
  h.trans (call_apart s' hop)

end TxnStore

end D2PC
