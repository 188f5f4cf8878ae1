import D2PC.Store.OccStore
import D2PC.Store.LockStore

/-!
# The store of a replica

`Server` of `store/strongstore/server.cc` runs on either of the two stores. `TxnStore` is
this choice, with the operations dispatched to the store at hand; the upcalls of the
replication layer go through it.

* `TxnStore.Consistent` : the locks of prepared transactions are held, the invariant of the
  locking store that validation rests on;
* `TxnStore.prepare_cases`, `TxnStore.commit_cases`, ... : everything an operation does to
  the versions, the prepared and the pre-committed transactions, for both stores at once.
-/

namespace D2PC

/-- The store a server was configured with. -/
inductive TxnStore where
  | occ (s : OCCStore)
  | lock (s : LockStore)

namespace TxnStore

def kv : TxnStore → VersionedKVStore
  | .occ s => s.store
  | .lock s => s.store

def prepared : TxnStore → Table TxnId Transaction
  | .occ s => s.prepared
  | .lock s => s.prepared

def precommitted : TxnStore → Table TxnId Transaction
  | .occ s => s.precommitted
  | .lock s => s.precommitted

/-- `Get` of the committed version: the reply code, the version found, and the store. -/
def get (clock : Clock) (id : TxnId) (key : Key) :
    TxnStore → (ℕ × Option (Timestamp × Value)) × TxnStore
  | .occ s =>
      match s.get id key with
      | none => ((replyFail, none), .occ s)
      | some value => ((replyOk, some value), .occ s)
  | .lock s => let (r, s') := s.get clock id key; (r, .lock s')

/-- `Get` with the dependency of the parallel mode. -/
def getDependency (id : TxnId) (key : Key) (value : Timestamp × Value) :
    TxnStore → Option ((Timestamp × Value) × TxnId)
  | .occ s => s.getDependency id key value
  | .lock s => s.getDependency id key value

def prepare (clock : Clock) (id : TxnId) (txn : Transaction) (doCheck : Bool) :
    TxnStore → ℕ × TxnStore
  | .occ s => let (r, s') := s.prepare id txn doCheck; (r, .occ s')
  | .lock s => let (r, s') := s.prepare clock id txn doCheck; (r, .lock s')

def commit (id : TxnId) (timestamp : ℕ) : TxnStore → TxnStore
  | .occ s => .occ (s.commit id timestamp)
  | .lock s => .lock (s.commit id timestamp)

def preCommit (id : TxnId) : TxnStore → TxnStore
  | .occ s => .occ (s.preCommit id)
  | .lock s => .lock (s.preCommit id)

def abort (id : TxnId) : TxnStore → TxnStore
  | .occ s => .occ (s.abort id)
  | .lock s => .lock (s.abort id)

def load (key : Key) (value : Value) (timestamp : Timestamp) : TxnStore → TxnStore
  | .occ s => .occ (s.load key value timestamp)
  | .lock s => .lock (s.load key value timestamp)

/-! ### The upcalls of the replication layer -/

/-- The answer to a `GetUpcall`: status, value, timestamp and dependency. -/
structure GetReply where
  status : ℕ
  value : Value := ""
  timestamp : ℕ := 0
  dependency : TxnId := 0

/-- `Server::GetUpcall` for a request without a timestamp. The dependency is reported in
the parallel mode only. -/
def getUpcall (mode : TpcMode) (id : TxnId) (key : Key) (s : TxnStore) : GetReply :=
  match s.getDependency id key ({}, "") with
  | none => { status := replyFail }
  | some (value, dependency) =>
      { status := replyOk
        value := value.2
        timestamp := value.1.timestamp
        dependency := if mode = .parallel then dependency else 0 }

/-- `Server::PrepareUpcall`: whether the transaction is to be replicated, and the store. -/
def prepareUpcall (clock : Clock) (id : TxnId) (txn : TransactionMessage) (doCheck : Bool)
    (s : TxnStore) : Bool × TxnStore :=
  let (status, s') := s.prepare clock id (Transaction.ofMessage txn) doCheck
  (decide (status = replyOk ∨ status = replyHasPrecommit), s')

/-! ### What the operations do -/

/-- In the locking store every lock is consistent, and a prepared transaction holds the
write lock of every key it writes. -/
structure Lockable (s : LockStore) : Prop where
  valid : ∀ key, (s.locks.lock key).Valid
  writes : ∀ id txn, s.prepared.lookup id = some txn → ∀ key ∈ txn.writeSet,
    (s.locks.lock key).WriteHeld id

/-- The invariant of the store; the optimistic store needs none. -/
def Consistent : TxnStore → Prop
  | .occ _ => True
  | .lock s => Lockable s

/-- The transaction read current versions and conflicts with no prepared write. -/
structure Admissible (s : TxnStore) (txn : Transaction) : Prop where
  current : ∀ key readTime cur, txn.readSet.lookup key = some readTime →
    s.kv.get key = some cur → cur.1 ≤ readTime
  reads : ∀ key ∈ txn.readSet, (s.kv.get key).isSome →
    ∀ id t, s.prepared.lookup id = some t → key ∉ t.writeSet
  writes : ∀ key ∈ txn.writeSet, ∀ id t, s.prepared.lookup id = some t → key ∉ t.writeSet

/-- What the operations do to the tables of transactions. -/
structure Tables (s s' : TxnStore) (prepared precommitted : Table TxnId Transaction) : Prop where
  kv : ∀ key, s'.kv.get key = s.kv.get key
  prepared : s'.prepared = prepared
  precommitted : s'.precommitted = precommitted

theorem Lockable.respects {s s' : LockStore} {id : TxnId} (hs : Lockable s)
    (hlocks : LockServer.Respects id s.locks s'.locks)
    (hprep : ∀ id' txn, s'.prepared.lookup id' = some txn →
      id' ≠ id ∧ s.prepared.lookup id' = some txn) : Lockable s' := by
  refine ⟨fun key => (hlocks key).valid (hs.valid key), fun id' txn htxn key hkey => ?_⟩
  obtain ⟨hne, hold⟩ := hprep id' txn htxn
  exact ((hlocks key).keeps (hs.valid key) id' hne).write (hs.writes id' txn hold key hkey)

/-- A transaction that holds its locks conflicts with no prepared write: two write locks
of one key have one holder, and so have a write lock and any other lock. -/
theorem Lockable.admissible {s s' : LockStore} {id : TxnId} {txn : Transaction}
    (hs : Lockable s) (hnew : id ∉ s.prepared) (hacq : LockStore.Acquires id s s')
    (hlocked : LockStore.Locked s s' id txn) : Admissible (.lock s) txn := by
  have hheld : ∀ id' t, s.prepared.lookup id' = some t → id' ≠ id ∧
      ∀ key ∈ t.writeSet, (s'.locks.lock key).WriteHeld id' := by
    intro id' t ht
    have hne : id' ≠ id := by
      rintro rfl
      exact hnew (AList.lookup_isSome.1 (by rw [ht]; rfl))
    exact ⟨hne, fun key hkey =>
      ((hacq.locks key).keeps (hs.valid key) id' hne).write (hs.writes id' t ht key hkey)⟩
  refine ⟨hlocked.current, fun key hkey hsome id' t ht hmem => ?_,
    fun key hkey id' t ht hmem => ?_⟩
  · obtain ⟨hne, hwrite⟩ := hheld id' t ht
    exact hne (((hacq.locks key).valid (hs.valid key)).eq_of_writeHeld
      (hwrite key hmem) (hlocked.reads key hkey hsome)).symm
  · obtain ⟨hne, hwrite⟩ := hheld id' t ht
    exact hne (((hacq.locks key).valid (hs.valid key)).eq_of_writeHeld
      (hwrite key hmem) (hlocked.writes key hkey).2).symm

theorem erase_of_notMem {t : Table TxnId Transaction} {id : TxnId} (h : id ∉ t) :
    t.erase id = t :=
  AList.ext (List.kerase_of_notMem_keys fun hmem => h (AList.mem_keys.2 hmem))

/-- **Prepare.** Already prepared; entered, after which the transaction was admissible; or
refused, which may forget a pre-commit of the same transaction. -/
theorem prepare_cases {s : TxnStore} (hs : s.Consistent) (clock : Clock) (id : TxnId)
    (txn : Transaction) :
    (s.prepare clock id txn true).2.Consistent ∧
    ((id ∈ s.prepared ∧ (s.prepare clock id txn true).1 = replyOk ∧
        Tables s (s.prepare clock id txn true).2 s.prepared s.precommitted) ∨
      (id ∉ s.prepared ∧ (s.prepare clock id txn true).1 = replyOk ∧ s.Admissible txn ∧
        Tables s (s.prepare clock id txn true).2 (s.prepared.insert id txn) s.precommitted) ∨
      (id ∉ s.prepared ∧ (s.prepare clock id txn true).1 ≠ replyOk ∧
        (Tables s (s.prepare clock id txn true).2 s.prepared s.precommitted ∨
          Tables s (s.prepare clock id txn true).2 s.prepared (s.precommitted.erase id)))) := by
  cases s with
  | occ s =>
      refine ⟨trivial, ?_⟩
      rcases s.prepare_cases id txn with ⟨hp, heq⟩ | ⟨hp, heq⟩ | ⟨hp, hvalid, heq⟩
      · simp only [prepare, heq]
        exact .inl ⟨hp, trivial, fun _ => rfl, rfl, rfl⟩
      · simp only [prepare, heq]
        refine .inr (.inr ⟨hp, by decide, ?_⟩)
        by_cases hpre : id ∈ s.precommitted
        · rw [OCCStore.abort, if_pos hpre]
          exact .inr ⟨fun _ => rfl, rfl, rfl⟩
        · rw [OCCStore.abort, if_neg hpre, if_neg hp]
          exact .inl ⟨fun _ => rfl, rfl, rfl⟩
      · simp only [prepare, heq]
        refine .inr (.inl ⟨hp, trivial, ⟨?_, ?_, ?_⟩, fun _ => rfl, rfl, rfl⟩)
        · exact fun key readTime cur hread hcur => (hvalid.reads key readTime cur hread hcur).1
        · intro key hkey hsome
          obtain ⟨readTime, hread⟩ := Option.isSome_iff_exists.1 (AList.lookup_isSome.2 hkey)
          obtain ⟨cur, hcur⟩ := Option.isSome_iff_exists.1 hsome
          exact (hvalid.reads key readTime cur hread hcur).2
        · exact fun key hkey id' t ht => (hvalid.writes key hkey id' t ht).1
  | lock s =>
      rcases s.prepare_cases clock id txn with ⟨hp, heq⟩ | ⟨hp, s', hacq, hcases⟩
      · simp only [prepare, heq]
        exact ⟨hs, .inl ⟨hp, trivial, fun _ => rfl, rfl, rfl⟩⟩
      · have hold : ∀ id' t, s'.prepared.lookup id' = some t → id' ≠ id ∧
            s.prepared.lookup id' = some t := by
          intro id' t ht
          rw [hacq.prepared] at ht
          refine ⟨?_, ht⟩
          rintro rfl
          exact hp (AList.lookup_isSome.1 (by rw [ht]; rfl))
        have hs' : Lockable s' := Lockable.respects hs hacq.locks hold
        have hkv : ∀ key, s'.store.get key = s.store.get key := fun key => by rw [hacq.store]
        rcases hcases with ⟨hlocked, heq⟩ | ⟨ret, hret, heq⟩ | heq
        · simp only [prepare, heq]
          refine ⟨⟨hs'.valid, fun id' t ht key hkey => ?_⟩,
            .inr (.inl ⟨hp, trivial, Lockable.admissible hs hp hacq hlocked, hkv, ?_,
              hacq.precommitted⟩)⟩
          · rw [Table.lookup_insert_eq] at ht
            split_ifs at ht with hid
            · cases ht
              rw [hid]
              exact hlocked.writes key hkey
            · exact hs'.writes id' t ht key hkey
          · exact congrArg (AList.insert id txn) hacq.prepared
        · simp only [prepare, heq]
          exact ⟨hs', .inr (.inr ⟨hp, hret, .inl ⟨hkv, hacq.prepared, hacq.precommitted⟩⟩)⟩
        · simp only [prepare, heq]
          refine ⟨⟨hs'.valid, hs'.writes⟩,
            .inr (.inr ⟨hp, by decide, .inr ⟨hkv, hacq.prepared, ?_⟩⟩)⟩
          exact congrArg (AList.erase id) hacq.precommitted

/-- **Get.** No table changes; a successful read returns the latest version. -/
theorem get_cases {s : TxnStore} (hs : s.Consistent) (clock : Clock) (id : TxnId) (key : Key) :
    (s.get clock id key).2.Consistent ∧
    Tables s (s.get clock id key).2 s.prepared s.precommitted ∧
    (s.get clock id key).1.2 = s.kv.get key := by
  cases s with
  | occ s =>
      cases hget : s.store.get key <;>
        simp only [get, OCCStore.get, hget, kv] <;>
        exact ⟨trivial, ⟨fun _ => rfl, rfl, rfl⟩, trivial⟩
  | lock s =>
      cases hget : s.store.get key with
      | none =>
          simp only [get, LockStore.get, hget, kv]
          exact ⟨hs, ⟨fun _ => rfl, rfl, rfl⟩, trivial⟩
      | some value =>
          simp only [get, LockStore.get, hget, kv]
          refine ⟨⟨fun key' => ?_, fun id' t ht key' hkey' => ?_⟩, ⟨fun _ => rfl, rfl, rfl⟩, trivial⟩
          · exact (LockServer.lockForRead_respects _ _ _ _ _ key').valid (hs.valid key')
          · have hheld := hs.writes id' t ht key' hkey'
            by_cases hid : id' = id
            · subst hid
              simp only [LockServer.lockForRead, LockServer.lock_insert]
              split_ifs with hk
              · subst hk
                exact Lock.lockForRead_writeHeld hheld _ _
              · exact hheld
            · exact ((LockServer.lockForRead_respects _ _ _ _ _ key').keeps (hs.valid key')
                id' hid).write hheld

/-- The transactions other than `id` in a table from which `id` was erased. -/
theorem lookup_erase_some {t : Table TxnId Transaction} {id id' : TxnId} {txn : Transaction}
    (h : (t.erase id).lookup id' = some txn) : id' ≠ id ∧ t.lookup id' = some txn := by
  rw [Table.lookup_erase_eq] at h
  split_ifs at h with hid
  exact ⟨hid, h⟩

/-- **Commit.** The writes of the pre-committed transaction, otherwise of the prepared one,
are installed and the transaction leaves its table. -/
theorem commit_cases {s : TxnStore} (hs : s.Consistent) (id : TxnId) (timestamp : ℕ) :
    (s.commit id timestamp).Consistent ∧
    ((∃ txn, s.precommitted.lookup id = some txn ∧
        (s.commit id timestamp).kv = s.kv.install txn.writeSet id timestamp ∧
        (s.commit id timestamp).prepared = s.prepared ∧
        (s.commit id timestamp).precommitted = s.precommitted.erase id) ∨
      (s.precommitted.lookup id = none ∧ ∃ txn, s.prepared.lookup id = some txn ∧
        (s.commit id timestamp).kv = s.kv.install txn.writeSet id timestamp ∧
        (s.commit id timestamp).prepared = s.prepared.erase id ∧
        (s.commit id timestamp).precommitted = s.precommitted) ∨
      (s.precommitted.lookup id = none ∧ s.prepared.lookup id = none ∧
        s.commit id timestamp = s)) := by
  cases s with
  | occ s =>
      refine ⟨trivial, ?_⟩
      simp only [commit, OCCStore.commit, precommitted, prepared, kv]
      cases hpre : s.precommitted.lookup id with
      | some txn => exact .inl ⟨txn, rfl, rfl, rfl, rfl⟩
      | none =>
          cases hprep : s.prepared.lookup id with
          | some txn => exact .inr (.inl ⟨rfl, txn, rfl, rfl, rfl, rfl⟩)
          | none => exact .inr (.inr ⟨rfl, rfl, rfl⟩)
  | lock s =>
      simp only [commit, LockStore.commit, precommitted, prepared, kv]
      cases hpre : s.precommitted.lookup id with
      | some txn => exact ⟨⟨hs.valid, hs.writes⟩, .inl ⟨txn, rfl, rfl, rfl, rfl⟩⟩
      | none =>
          cases hprep : s.prepared.lookup id with
          | some txn =>
              refine ⟨?_, .inr (.inl ⟨rfl, txn, rfl, rfl, rfl, rfl⟩)⟩
              exact Lockable.respects hs (LockStore.dropLocks_respects s.locks id txn)
                fun id' t ht => lookup_erase_some ht
          | none => exact ⟨hs, .inr (.inr ⟨rfl, rfl, rfl⟩)⟩

/-- **Pre-commit.** The transaction moves from the prepared to the pre-committed ones; an
unknown transaction is entered empty. -/
theorem preCommit_cases {s : TxnStore} (hs : s.Consistent) (id : TxnId) :
    (s.preCommit id).Consistent ∧
    Tables s (s.preCommit id) (s.prepared.erase id)
      (s.precommitted.insert id ((s.prepared.lookup id).getD {})) := by
  cases s with
  | occ s => exact ⟨trivial, fun key => VersionedKVStore.get_announce _ _ _ key, rfl, rfl⟩
  | lock s =>
      refine ⟨?_, fun key => VersionedKVStore.get_announce _ _ _ key, rfl, rfl⟩
      exact Lockable.respects hs (LockStore.dropLocks_respects s.locks id _)
        fun id' t ht => lookup_erase_some ht

/-- **Abort.** A pre-committed transaction is forgotten, otherwise a prepared one. -/
theorem abort_cases {s : TxnStore} (hs : s.Consistent) (id : TxnId) :
    (s.abort id).Consistent ∧
    (Tables s (s.abort id) s.prepared (s.precommitted.erase id) ∨
      Tables s (s.abort id) (s.prepared.erase id) s.precommitted) := by
  cases s with
  | occ s =>
      refine ⟨trivial, ?_⟩
      simp only [abort, OCCStore.abort]
      split_ifs with hpre hprep
      · exact .inl ⟨fun _ => rfl, rfl, rfl⟩
      · exact .inr ⟨fun _ => rfl, rfl, rfl⟩
      · exact .inr ⟨fun _ => rfl, (erase_of_notMem hprep).symm, rfl⟩
  | lock s =>
      simp only [abort, LockStore.abort]
      split_ifs with hpre
      · exact ⟨⟨hs.valid, hs.writes⟩, .inl ⟨fun _ => rfl, rfl, rfl⟩⟩
      · cases hprep : s.prepared.lookup id with
        | some txn =>
            refine ⟨?_, .inr ⟨fun _ => rfl, rfl, rfl⟩⟩
            exact Lockable.respects hs (LockStore.dropLocks_respects s.locks id txn)
              fun id' t ht => lookup_erase_some ht
        | none =>
            exact ⟨hs, .inr ⟨fun _ => rfl, (erase_of_notMem (AList.lookup_eq_none.1 hprep)).symm,
              rfl⟩⟩

/-! ### What the operations leave alone -/

/-- The committed versions and the entries of transactions other than `id`. -/
structure Others (id : TxnId) (s s' : TxnStore) : Prop where
  kv : ∀ key, s'.kv.get key = s.kv.get key
  prepared : ∀ id', id' ≠ id → s'.prepared.lookup id' = s.prepared.lookup id'
  precommitted : ∀ id', id' ≠ id → s'.precommitted.lookup id' = s.precommitted.lookup id'

theorem Others.refl (id : TxnId) (s : TxnStore) : Others id s s :=
  ⟨fun _ => rfl, fun _ _ => rfl, fun _ _ => rfl⟩

/-- A table of transactions after a write to the entry of `id`. -/
theorem lookup_other {t t' : Table TxnId Transaction} {id id' : TxnId} (hne : id' ≠ id)
    (h : t' = t ∨ t' = t.erase id ∨ ∃ txn, t' = t.insert id txn) : t'.lookup id' = t.lookup id' := by
  rcases h with rfl | rfl | ⟨txn, rfl⟩
  · rfl
  · exact AList.lookup_erase_ne hne
  · exact AList.lookup_insert_ne hne

theorem Others.of_tables {id : TxnId} {s s' : TxnStore} {p q : Table TxnId Transaction}
    (h : Tables s s' p q)
    (hp : p = s.prepared ∨ p = s.prepared.erase id ∨ ∃ txn, p = s.prepared.insert id txn)
    (hq : q = s.precommitted ∨ q = s.precommitted.erase id ∨ ∃ txn, q = s.precommitted.insert id txn) :
    Others id s s' := by
  refine ⟨h.kv, fun id' hne => ?_, fun id' hne => ?_⟩
  · rw [h.prepared]
    exact lookup_other hne hp
  · rw [h.precommitted]
    exact lookup_other hne hq

/-- **Prepare**, for the tables: the transaction may be entered, or forgotten as a
pre-committed one. -/
theorem prepare_tables (s : TxnStore) (clock : Clock) (id : TxnId) (txn : Transaction)
    (doCheck : Bool) : ∃ p q, Tables s (s.prepare clock id txn doCheck).2 p q ∧
      (p = s.prepared ∨ p = s.prepared.insert id txn) ∧
      (q = s.precommitted ∨ q = s.precommitted.erase id) := by
  have hsame : Tables s s s.prepared s.precommitted := ⟨fun _ => rfl, rfl, rfl⟩
  cases s with
  | occ s =>
      simp only [prepare, OCCStore.prepare, OCCStore.abort]
      split_ifs
      · exact ⟨_, _, hsame, .inl rfl, .inl rfl⟩
      · exact ⟨_, _, ⟨fun _ => rfl, rfl, rfl⟩, .inl rfl, .inr rfl⟩
      · exact ⟨_, _, hsame, .inl rfl, .inl rfl⟩
      · exact ⟨_, _, ⟨fun _ => rfl, rfl, rfl⟩, .inr rfl, .inl rfl⟩
  | lock s =>
      cases doCheck with
      | false =>
          by_cases hp : id ∈ s.prepared
          · simp only [prepare, LockStore.prepare, if_pos hp]
            exact ⟨_, _, hsame, .inl rfl, .inl rfl⟩
          · simp only [prepare, LockStore.prepare, if_neg hp]
            exact ⟨_, _, ⟨fun _ => rfl, rfl, rfl⟩, .inr rfl, .inl rfl⟩
      | true =>
          rcases s.prepare_cases clock id txn with ⟨_, heq⟩ | ⟨_, s', hacq, hcases⟩
          · simp only [prepare, heq]
            exact ⟨_, _, hsame, .inl rfl, .inl rfl⟩
          · have hkv : ∀ key, s'.store.get key = s.store.get key := fun key => by rw [hacq.store]
            rcases hcases with ⟨_, heq⟩ | ⟨ret, _, heq⟩ | heq
            · simp only [prepare, heq]
              refine ⟨_, _, ⟨hkv, rfl, rfl⟩, .inr ?_, .inl hacq.precommitted⟩
              exact congrArg (AList.insert id txn) hacq.prepared
            · simp only [prepare, heq]
              exact ⟨_, _, ⟨hkv, rfl, rfl⟩, .inl hacq.prepared, .inl hacq.precommitted⟩
            · simp only [prepare, heq]
              exact ⟨_, _, ⟨hkv, rfl, rfl⟩, .inl hacq.prepared,
                .inr (congrArg (AList.erase id) hacq.precommitted)⟩

/-- **Prepare without a check**, as a follower does it: the transaction is entered, unless it
is prepared already. -/
theorem prepare_unchecked (s : TxnStore) (clock : Clock) (id : TxnId) (txn : Transaction) :
    (s.prepare clock id txn false).2.kv = s.kv ∧
    (s.prepare clock id txn false).2.prepared =
      (if id ∈ s.prepared then s.prepared else s.prepared.insert id txn) ∧
    (s.prepare clock id txn false).2.precommitted = s.precommitted := by
  cases s with
  | occ s =>
      by_cases hp : id ∈ s.prepared
      · simp [prepare, OCCStore.prepare, kv, prepared, precommitted, hp]
      · simp [prepare, OCCStore.prepare, kv, prepared, precommitted, hp]
  | lock s =>
      by_cases hp : id ∈ s.prepared
      · simp [prepare, LockStore.prepare, kv, prepared, precommitted, hp]
      · simp [prepare, LockStore.prepare, kv, prepared, precommitted, hp]

theorem prepare_others (s : TxnStore) (clock : Clock) (id : TxnId) (txn : Transaction)
    (doCheck : Bool) : Others id s (s.prepare clock id txn doCheck).2 := by
  obtain ⟨p, q, htables, hp, hq⟩ := s.prepare_tables clock id txn doCheck
  exact .of_tables htables (hp.imp_right fun h => .inr ⟨txn, h⟩) (hq.imp_right .inl)

theorem preCommit_others (s : TxnStore) (id : TxnId) : Others id s (s.preCommit id) := by
  cases s with
  | occ s =>
      exact .of_tables ⟨fun key => VersionedKVStore.get_announce _ _ _ key, rfl, rfl⟩
        (.inr (.inl rfl)) (.inr (.inr ⟨_, rfl⟩))
  | lock s =>
      exact .of_tables ⟨fun key => VersionedKVStore.get_announce _ _ _ key, rfl, rfl⟩
        (.inr (.inl rfl)) (.inr (.inr ⟨_, rfl⟩))

theorem abort_others (s : TxnStore) (id : TxnId) : Others id s (s.abort id) := by
  cases s with
  | occ s =>
      simp only [abort, OCCStore.abort]
      split_ifs
      · exact .of_tables ⟨fun _ => rfl, rfl, rfl⟩ (.inl rfl) (.inr (.inl rfl))
      · exact .of_tables ⟨fun _ => rfl, rfl, rfl⟩ (.inr (.inl rfl)) (.inl rfl)
      · exact .refl id _
  | lock s =>
      simp only [abort, LockStore.abort]
      split
      · exact .of_tables ⟨fun _ => rfl, rfl, rfl⟩ (.inl rfl) (.inr (.inl rfl))
      · split
        · exact .of_tables ⟨fun _ => rfl, rfl, rfl⟩ (.inr (.inl rfl)) (.inl rfl)
        · exact .refl id _

theorem kv_abort (s : TxnStore) (id : TxnId) : (s.abort id).kv = s.kv := by
  cases s with
  | occ s =>
      simp only [abort, OCCStore.abort]
      split_ifs <;> rfl
  | lock s =>
      simp only [abort, LockStore.abort]
      split
      · rfl
      · split <;> rfl

/-! ### What is left of a decided transaction -/

theorem commit_prepared {s : TxnStore} {id : TxnId} (h : id ∉ s.precommitted) (timestamp : ℕ) :
    (s.commit id timestamp).prepared = s.prepared.erase id := by
  have hnone := AList.lookup_eq_none.2 h
  cases s with
  | occ s =>
      simp only [precommitted] at hnone
      simp only [commit, OCCStore.commit, prepared, hnone]
      cases hp : s.prepared.lookup id with
      | none => exact (erase_of_notMem (AList.lookup_eq_none.1 hp)).symm
      | some txn => rfl
  | lock s =>
      simp only [precommitted] at hnone
      simp only [commit, LockStore.commit, prepared, hnone]
      cases hp : s.prepared.lookup id with
      | none => exact (erase_of_notMem (AList.lookup_eq_none.1 hp)).symm
      | some txn => rfl

theorem abort_prepared {s : TxnStore} {id : TxnId} (h : id ∉ s.precommitted) :
    (s.abort id).prepared = s.prepared.erase id := by
  cases s with
  | occ s =>
      simp only [abort, OCCStore.abort, prepared, if_neg (show id ∉ s.precommitted from h)]
      split_ifs with hp
      · rfl
      · exact (erase_of_notMem hp).symm
  | lock s =>
      simp only [abort, LockStore.abort, prepared, if_neg (show id ∉ s.precommitted from h)]
      cases hp : s.prepared.lookup id with
      | none => exact (erase_of_notMem (AList.lookup_eq_none.1 hp)).symm
      | some txn => rfl

theorem commit_precommitted (s : TxnStore) (id : TxnId) (timestamp : ℕ) :
    (s.commit id timestamp).precommitted = s.precommitted.erase id := by
  cases s with
  | occ s =>
      simp only [commit, OCCStore.commit, precommitted]
      cases hp : s.precommitted.lookup id with
      | none =>
          cases s.prepared.lookup id <;>
            exact (erase_of_notMem (AList.lookup_eq_none.1 hp)).symm
      | some txn => rfl
  | lock s =>
      simp only [commit, LockStore.commit, precommitted]
      cases hp : s.precommitted.lookup id with
      | none =>
          cases s.prepared.lookup id <;>
            exact (erase_of_notMem (AList.lookup_eq_none.1 hp)).symm
      | some txn => rfl

theorem abort_precommitted (s : TxnStore) (id : TxnId) :
    (s.abort id).precommitted = s.precommitted.erase id := by
  cases s with
  | occ s =>
      simp only [abort, OCCStore.abort, precommitted]
      split_ifs with hq hp
      · rfl
      · exact (erase_of_notMem hq).symm
      · exact (erase_of_notMem hq).symm
  | lock s =>
      simp only [abort, LockStore.abort, precommitted]
      split_ifs with hq
      · rfl
      · cases s.prepared.lookup id <;> exact (erase_of_notMem hq).symm

/-- No decision enters a transaction among the prepared ones. -/
theorem commit_prepared_some {s : TxnStore} {id id' : TxnId} {timestamp : ℕ} {txn : Transaction}
    (h : (s.commit id' timestamp).prepared.lookup id = some txn) :
    s.prepared.lookup id = some txn := by
  cases s with
  | occ s =>
      simp only [commit, OCCStore.commit] at h
      cases hpre : s.precommitted.lookup id' with
      | some _ =>
          simp only [hpre] at h
          exact h
      | none =>
          cases hprep : s.prepared.lookup id' with
          | some _ =>
              simp only [hpre, hprep] at h
              exact (lookup_erase_some h).2
          | none =>
              simp only [hpre, hprep] at h
              exact h
  | lock s =>
      simp only [commit, LockStore.commit] at h
      cases hpre : s.precommitted.lookup id' with
      | some _ =>
          simp only [hpre] at h
          exact h
      | none =>
          cases hprep : s.prepared.lookup id' with
          | some _ =>
              simp only [hpre, hprep] at h
              exact (lookup_erase_some h).2
          | none =>
              simp only [hpre, hprep] at h
              exact h

theorem abort_prepared_some {s : TxnStore} {id id' : TxnId} {txn : Transaction}
    (h : (s.abort id').prepared.lookup id = some txn) : s.prepared.lookup id = some txn := by
  by_cases hpre : id' ∈ s.precommitted
  · cases s with
    | occ s =>
        rw [abort, OCCStore.abort, if_pos (show id' ∈ s.precommitted from hpre)] at h
        exact h
    | lock s =>
        rw [abort, LockStore.abort, if_pos (show id' ∈ s.precommitted from hpre)] at h
        exact h
  · rw [abort_prepared hpre] at h
    exact (lookup_erase_some h).2

theorem preCommit_prepared_some {s : TxnStore} {id id' : TxnId} {txn : Transaction}
    (h : (s.preCommit id').prepared.lookup id = some txn) : s.prepared.lookup id = some txn := by
  cases s with
  | occ s => exact (lookup_erase_some (t := s.prepared) h).2
  | lock s => exact (lookup_erase_some (t := s.prepared) h).2

theorem commit_prepared_none {s : TxnStore} {id : TxnId} (h : s.prepared.lookup id = none)
    (id' : TxnId) (timestamp : ℕ) : (s.commit id' timestamp).prepared.lookup id = none := by
  refine Option.eq_none_iff_forall_ne_some.2 fun txn htxn => ?_
  cases h.symm.trans (commit_prepared_some htxn)

theorem abort_prepared_none {s : TxnStore} {id : TxnId} (h : s.prepared.lookup id = none)
    (id' : TxnId) : (s.abort id').prepared.lookup id = none := by
  refine Option.eq_none_iff_forall_ne_some.2 fun txn htxn => ?_
  cases h.symm.trans (abort_prepared_some htxn)

theorem preCommit_prepared_none {s : TxnStore} {id : TxnId} (h : s.prepared.lookup id = none)
    (id' : TxnId) : (s.preCommit id').prepared.lookup id = none := by
  refine Option.eq_none_iff_forall_ne_some.2 fun txn htxn => ?_
  cases h.symm.trans (preCommit_prepared_some htxn)

/-- A transaction that is prepared stays as it is. -/
theorem prepare_prepared {s : TxnStore} {id : TxnId} (h : id ∈ s.prepared) (clock : Clock)
    (txn : Transaction) (doCheck : Bool) : (s.prepare clock id txn doCheck).2 = s := by
  cases s with
  | occ s => simp only [prepare, OCCStore.prepare, if_pos (show id ∈ s.prepared from h)]
  | lock s => simp only [prepare, LockStore.prepare, if_pos (show id ∈ s.prepared from h)]

/-- The transaction a commit of `id` installs: the pre-committed one, otherwise the prepared
one. -/
def entry (s : TxnStore) (id : TxnId) : Option Transaction :=
  s.precommitted.lookup id <|> s.prepared.lookup id

/-- **Commit**, for the versions: the write set of the entry is installed. -/
theorem kv_commit (s : TxnStore) (id : TxnId) (timestamp : ℕ) :
    (s.commit id timestamp).kv = match s.entry id with
      | some txn => s.kv.install txn.writeSet id timestamp
      | none => s.kv := by
  cases s with
  | occ s =>
      simp only [commit, OCCStore.commit, entry, precommitted, prepared, kv]
      cases s.precommitted.lookup id <;> cases s.prepared.lookup id <;> rfl
  | lock s =>
      simp only [commit, LockStore.commit, entry, precommitted, prepared, kv]
      cases s.precommitted.lookup id <;> cases s.prepared.lookup id <;> rfl

end TxnStore

end D2PC
