import D2PC.Store.LockServer
import D2PC.Store.VersionStore

/-!
# The locking store

`LockStore` of `store/strongstore/lockstore.cc`: two-phase locking with the locks taken at
the prepare. The read locks are taken together with a check that the versions read are
current; a pre-commit drops the locks before the writes are installed.

* `LockStore.getLocks_cases` : everything the acquisition of locks can do;
* `LockStore.prepare_cases` : everything a prepare can do.
-/

namespace D2PC

/-- The clock readings inside one operation: for a read or a write lock of a key, the two
readings its acquisition may make. -/
abbrev Clock := Bool → Key → Timeval × Timeval

/-- A clock that stands still. -/
def stopped : Clock := fun _ _ => ({}, {})

/-- `LockStore`. -/
structure LockStore where
  store : VersionedKVStore := {}
  locks : LockServer := {}
  prepared : Table TxnId Transaction := ∅
  precommitted : Table TxnId Transaction := ∅

namespace LockStore

/-- The second phase: write locks first, then read locks. -/
def dropLocks (locks : LockServer) (id : TxnId) (txn : Transaction) : LockServer :=
  let locks := txn.writeSet.toList.foldl (fun l w => l.releaseForWrite w.1 id) locks
  txn.readSet.toList.foldl (fun l r => l.releaseForRead r.1 id) locks

/-- `Abort`: only a transaction that is still prepared gives its locks back. -/
def abort (s : LockStore) (id : TxnId) : LockStore :=
  if id ∈ s.precommitted then { s with precommitted := s.precommitted.erase id }
  else
    match s.prepared.lookup id with
    | some txn =>
        { s with
          locks := dropLocks s.locks id txn
          prepared := s.prepared.erase id }
    | none => s

/-- `Get` of the committed version, which takes the read lock. The value is filled in even
when the lock is refused and the reply is `REPLY_RETRY`. -/
def get (s : LockStore) (clock : Clock) (id : TxnId) (key : Key) :
    (ℕ × Option (Timestamp × Value)) × LockStore :=
  match s.store.get key with
  | none => ((replyFail, none), s)
  | some value =>
      let (granted, locks) := s.locks.lockForRead key id (clock false key).1 (clock false key).2
      ((if granted then replyOk else replyRetry, some value), { s with locks := locks })

/-- `Get` that reports the last pre-committed writer of the key; it takes no lock. -/
def getDependency (s : LockStore) (_id : TxnId) (key : Key) (value : Timestamp × Value) :
    Option ((Timestamp × Value) × TxnId) :=
  s.store.getDependency key value

/-- The loop of `getLocks` over the read set: a stale read aborts the transaction at once,
a refused lock is only remembered. -/
def lockReads (clock : Clock) (id : TxnId) :
    List (Key × Timestamp) → ℕ → LockStore → ℕ × LockStore
  | [], ret, s => (ret, s)
  | read :: reads, ret, s =>
      match s.store.get read.1 with
      | none => lockReads clock id reads ret s
      | some cur =>
          if read.2 < cur.1 then (replyAbort, s.abort id)
          else
            let (granted, locks) := s.locks.lockForRead read.1 id
              (clock false read.1).1 (clock false read.1).2
            lockReads clock id reads (if granted then ret else replyFail) { s with locks := locks }

/-- The loop of `getLocks` over the write set. -/
def lockWrites (clock : Clock) (id : TxnId) :
    List (Key × Value) → ℕ → LockStore → ℕ × LockStore
  | [], ret, s => (ret, s)
  | write :: writes, ret, s =>
      let (granted, locks) := s.locks.lockForWrite write.1 id
        (clock true write.1).1 (clock true write.1).2
      lockWrites clock id writes (if granted then ret else replyFail) { s with locks := locks }

/-- `getLocks`. Locks that were granted before a refusal are kept. -/
def getLocks (s : LockStore) (clock : Clock) (id : TxnId) (txn : Transaction) : ℕ × LockStore :=
  let (ret, s) := lockReads clock id txn.readSet.toList replyOk s
  if ret = replyAbort then (ret, s) else lockWrites clock id txn.writeSet.toList ret s

/-- `Prepare`: the reply code and the store. -/
def prepare (s : LockStore) (clock : Clock) (id : TxnId) (txn : Transaction) (doCheck : Bool) :
    ℕ × LockStore :=
  if id ∈ s.prepared then (replyOk, s)
  else if doCheck then
    let (ret, s) := s.getLocks clock id txn
    if ret = replyOk then (ret, { s with prepared := s.prepared.insert id txn }) else (ret, s)
  else (replyOk, { s with prepared := s.prepared.insert id txn })

/-- `Commit`. The locks of a pre-committed transaction are already gone. -/
def commit (s : LockStore) (id : TxnId) (timestamp : ℕ) : LockStore :=
  match s.precommitted.lookup id with
  | some txn =>
      { s with
        store := s.store.install txn.writeSet id timestamp
        precommitted := s.precommitted.erase id }
  | none =>
      match s.prepared.lookup id with
      | some txn =>
          { s with
            store := s.store.install txn.writeSet id timestamp
            locks := dropLocks s.locks id txn
            prepared := s.prepared.erase id }
      | none => s

/-- `PreCommit`: the locks are dropped before the writes are installed. -/
def preCommit (s : LockStore) (id : TxnId) : LockStore :=
  let txn := (s.prepared.lookup id).getD {}
  { store := s.store.announce txn.writeSet id
    locks := dropLocks s.locks id txn
    prepared := s.prepared.erase id
    precommitted := s.precommitted.insert id txn }

/-- `Load`. -/
def load (s : LockStore) (key : Key) (value : Value) (timestamp : Timestamp) : LockStore :=
  { s with store := s.store.put key value timestamp }

/-! ### Acquiring and dropping locks -/

theorem foldl_respects {α : Type} {id : TxnId} {f : LockServer → α → LockServer}
    (hf : ∀ l a, LockServer.Respects id l (f l a)) (as : List α) (l : LockServer) :
    LockServer.Respects id l (as.foldl f l) := by
  induction as generalizing l with
  | nil => exact LockServer.Respects.refl id l
  | cons a as ih => exact (hf l a).trans (ih _)

theorem dropLocks_respects (locks : LockServer) (id : TxnId) (txn : Transaction) :
    LockServer.Respects id locks (dropLocks locks id txn) :=
  (foldl_respects (fun l (w : Key × Value) => l.releaseForWrite_respects w.1 id) _ _).trans
    (foldl_respects (fun l (r : Key × Timestamp) => l.releaseForRead_respects r.1 id) _ _)

theorem abort_eq_of_not_prepared {s : LockStore} {id : TxnId} (h : id ∉ s.prepared) :
    s.abort id = { s with precommitted := s.precommitted.erase id } := by
  have hlook : s.prepared.lookup id = none := AList.lookup_eq_none.2 h
  unfold abort
  split_ifs with hpre
  · rfl
  · rw [hlook]
    have herase : s.precommitted.erase id = s.precommitted :=
      AList.ext (List.kerase_of_notMem_keys fun hmem => hpre (AList.mem_keys.2 hmem))
    rw [herase]

/-- What acquiring locks leaves alone, and what it respects. -/
structure Acquires (id : TxnId) (s s' : LockStore) : Prop where
  store : s'.store = s.store
  prepared : s'.prepared = s.prepared
  precommitted : s'.precommitted = s.precommitted
  locks : LockServer.Respects id s.locks s'.locks

theorem Acquires.refl (id : TxnId) (s : LockStore) : Acquires id s s :=
  ⟨rfl, rfl, rfl, LockServer.Respects.refl id _⟩

theorem Acquires.trans {id : TxnId} {s s' s'' : LockStore} (h : Acquires id s s')
    (h' : Acquires id s' s'') : Acquires id s s'' :=
  ⟨h'.store.trans h.store, h'.prepared.trans h.prepared,
    h'.precommitted.trans h.precommitted, h.locks.trans h'.locks⟩

theorem lockWrites_acquires (clock : Clock) (id : TxnId) (writes : List (Key × Value))
    (ret : ℕ) (s : LockStore) : Acquires id s (lockWrites clock id writes ret s).2 := by
  induction writes generalizing ret s with
  | nil => exact Acquires.refl id s
  | cons w ws ih =>
      have hstep : Acquires id s { s with locks := (s.locks.lockForWrite w.1 id
          (clock true w.1).1 (clock true w.1).2).2 } :=
        ⟨rfl, rfl, rfl, LockServer.lockForWrite_respects _ _ _ _ _⟩
      exact hstep.trans (ih _ _)

section
variable {clock : Clock} {id : TxnId} {r : Key × Timestamp} {rs : List (Key × Timestamp)}
variable {ret : ℕ} {s : LockStore} {cur : Timestamp × Value}

theorem lockReads_absent (hget : s.store.get r.1 = none) :
    lockReads clock id (r :: rs) ret s = lockReads clock id rs ret s := by
  simp only [lockReads, hget]

theorem lockReads_stale (hget : s.store.get r.1 = some cur) (hstale : r.2 < cur.1) :
    lockReads clock id (r :: rs) ret s = (replyAbort, s.abort id) := by
  simp only [lockReads, hget, hstale, if_true]

theorem lockReads_fresh (hget : s.store.get r.1 = some cur) (hfresh : ¬ r.2 < cur.1) :
    lockReads clock id (r :: rs) ret s =
      lockReads clock id rs
        (if (s.locks.lockForRead r.1 id (clock false r.1).1 (clock false r.1).2).1 then ret
          else replyFail)
        { s with locks :=
          (s.locks.lockForRead r.1 id (clock false r.1).1 (clock false r.1).2).2 } := by
  simp only [lockReads, hget, hfresh, if_false]

end

/-- The loop over the reads either only takes locks, or meets a stale read and aborts. -/
theorem lockReads_cases (clock : Clock) (id : TxnId) (reads : List (Key × Timestamp))
    (ret : ℕ) (s : LockStore) (hret : ret ≠ replyAbort) :
    ((lockReads clock id reads ret s).1 ≠ replyAbort ∧
      Acquires id s (lockReads clock id reads ret s).2 ∧
      ∀ read ∈ reads, ∀ cur, s.store.get read.1 = some cur → cur.1 ≤ read.2) ∨
    ∃ s', Acquires id s s' ∧ lockReads clock id reads ret s = (replyAbort, s'.abort id) := by
  induction reads generalizing ret s with
  | nil => exact .inl ⟨hret, Acquires.refl id s, fun _ h => absurd h (List.not_mem_nil)⟩
  | cons r rs ih =>
      cases hget : s.store.get r.1 with
      | none =>
          rw [lockReads_absent hget]
          refine (ih ret s hret).imp_left fun ⟨h₁, h₂, h₃⟩ => ⟨h₁, h₂, fun read hread cur hcur => ?_⟩
          rcases List.mem_cons.1 hread with rfl | hread
          · rw [hget] at hcur; cases hcur
          · exact h₃ read hread cur hcur
      | some cur =>
          by_cases hstale : r.2 < cur.1
          · exact .inr ⟨s, Acquires.refl id s, lockReads_stale hget hstale⟩
          · rw [lockReads_fresh hget hstale]
            have hstep : Acquires id s { s with locks := (s.locks.lockForRead r.1 id
                (clock false r.1).1 (clock false r.1).2).2 } :=
              ⟨rfl, rfl, rfl, LockServer.lockForRead_respects _ _ _ _ _⟩
            have hret' : (if (s.locks.lockForRead r.1 id (clock false r.1).1
                (clock false r.1).2).1 then ret else replyFail) ≠ replyAbort := by
              split_ifs
              · exact hret
              · decide
            rcases ih _ _ hret' with ⟨h₁, h₂, h₃⟩ | ⟨s', h₁, h₂⟩
            · refine .inl ⟨h₁, hstep.trans h₂, fun read hread cur' hcur' => ?_⟩
              rcases List.mem_cons.1 hread with rfl | hread
              · rw [hget] at hcur'
                cases hcur'
                exact not_lt.1 hstale
              · exact h₃ read hread cur' hcur'
            · exact .inr ⟨s', hstep.trans h₁, h₂⟩

/-- Locks only gain holders while a transaction collects them. -/
theorem lockWrites_holders (clock : Clock) (id : TxnId) (writes : List (Key × Value))
    (ret : ℕ) (s : LockStore) (key : Key) :
    (s.locks.lock key).holders ⊆ ((lockWrites clock id writes ret s).2.locks.lock key).holders := by
  induction writes generalizing ret s with
  | nil => exact Finset.Subset.refl _
  | cons w ws ih =>
      refine Finset.Subset.trans ?_ (ih _ _)
      simp only [LockServer.lock_insert]
      split_ifs with hkey
      · rw [hkey]; exact Lock.lockForWrite_holders _ _ _ _
      · exact Finset.Subset.refl _

theorem lockReads_holders (clock : Clock) (id : TxnId) (reads : List (Key × Timestamp))
    (ret : ℕ) (s : LockStore) (key : Key)
    (hok : (lockReads clock id reads ret s).1 ≠ replyAbort) :
    (s.locks.lock key).holders ⊆ ((lockReads clock id reads ret s).2.locks.lock key).holders := by
  induction reads generalizing ret s with
  | nil => exact Finset.Subset.refl _
  | cons r rs ih =>
      cases hget : s.store.get r.1 with
      | none =>
          rw [lockReads_absent hget] at hok ⊢
          exact ih _ _ hok
      | some cur =>
          by_cases hstale : r.2 < cur.1
          · exact absurd (by rw [lockReads_stale hget hstale]) hok
          · rw [lockReads_fresh hget hstale] at hok ⊢
            refine Finset.Subset.trans ?_ (ih _ _ hok)
            simp only [LockServer.lockForRead, LockServer.lock_insert]
            split_ifs with hkey
            · rw [hkey]; exact Lock.lockForRead_holders _ _ _ _
            · exact Finset.Subset.refl _

theorem lockWrites_keeps_writeHeld (clock : Clock) (id : TxnId) (writes : List (Key × Value))
    (ret : ℕ) (s : LockStore) (key : Key) (h : (s.locks.lock key).WriteHeld id) :
    ((lockWrites clock id writes ret s).2.locks.lock key).WriteHeld id := by
  induction writes generalizing ret s with
  | nil => exact h
  | cons w ws ih =>
      refine ih _ _ ?_
      simp only [LockServer.lock_insert]
      split_ifs with hkey
      · rw [hkey] at h
        rw [Lock.lockForWrite_of_writeHeld h]
        exact h
      · exact h

/-- All write locks were granted when the loop reports success. -/
theorem lockWrites_granted (clock : Clock) (id : TxnId) (writes : List (Key × Value))
    (ret : ℕ) (s : LockStore) (hok : (lockWrites clock id writes ret s).1 = replyOk) :
    ret = replyOk ∧ ∀ w ∈ writes,
      ((lockWrites clock id writes ret s).2.locks.lock w.1).WriteHeld id := by
  induction writes generalizing ret s with
  | nil => exact ⟨hok, fun _ h => absurd h (List.not_mem_nil)⟩
  | cons w ws ih =>
      simp only [lockWrites] at hok ⊢
      obtain ⟨hret, hws⟩ := ih _ _ hok
      split_ifs at hret with hgranted
      · refine ⟨hret, fun w' hw' => ?_⟩
        rcases List.mem_cons.1 hw' with rfl | hw'
        · refine lockWrites_keeps_writeHeld _ _ _ _ _ _ ?_
          simp only [LockServer.lockForWrite, LockServer.lock_insert, if_true]
          exact Lock.lockForWrite_granted hgranted
        · exact hws w' hw'
      · exact absurd hret (by decide)

/-- All read locks were granted when the loop reports success. -/
theorem lockReads_granted (clock : Clock) (id : TxnId) (reads : List (Key × Timestamp))
    (ret : ℕ) (s : LockStore) (hok : (lockReads clock id reads ret s).1 = replyOk) :
    ret = replyOk ∧ ∀ r ∈ reads, (s.store.get r.1).isSome →
      id ∈ ((lockReads clock id reads ret s).2.locks.lock r.1).holders := by
  induction reads generalizing ret s with
  | nil => exact ⟨hok, fun _ h => absurd h (List.not_mem_nil)⟩
  | cons r rs ih =>
      cases hget : s.store.get r.1 with
      | none =>
          rw [lockReads_absent hget] at hok ⊢
          obtain ⟨hret, hrs⟩ := ih _ _ hok
          refine ⟨hret, fun r' hr' hsome => ?_⟩
          rcases List.mem_cons.1 hr' with rfl | hr'
          · rw [hget] at hsome; cases hsome
          · exact hrs r' hr' hsome
      | some cur =>
          by_cases hstale : r.2 < cur.1
          · rw [lockReads_stale hget hstale] at hok
            exact absurd (show replyAbort = replyOk from hok) (by decide)
          · rw [lockReads_fresh hget hstale] at hok ⊢
            obtain ⟨hret, hrs⟩ := ih _ _ hok
            split_ifs at hret with hgranted
            · refine ⟨hret, fun r' hr' hsome => ?_⟩
              rcases List.mem_cons.1 hr' with rfl | hr'
              · refine lockReads_holders _ _ _ _ _ _ (by rw [hok]; decide) ?_
                simp only [LockServer.lockForRead, LockServer.lock_insert, if_true]
                exact Lock.lockForRead_granted hgranted
              · exact hrs r' hr' hsome
            · exact absurd hret (by decide)

/-- The transaction read current versions and holds its locks. -/
structure Locked (s s' : LockStore) (id : TxnId) (txn : Transaction) : Prop where
  current : ∀ key readTime cur, txn.readSet.lookup key = some readTime →
    s.store.get key = some cur → cur.1 ≤ readTime
  reads : ∀ key, key ∈ txn.readSet → (s.store.get key).isSome →
    id ∈ (s'.locks.lock key).holders
  writes : ∀ key, key ∈ txn.writeSet → (s'.locks.lock key).WriteHeld id

/-- **Acquisition.** All locks taken, some refused, or aborted on a stale read. -/
theorem getLocks_cases (s : LockStore) (clock : Clock) (id : TxnId) (txn : Transaction) :
    ∃ s', Acquires id s s' ∧
      ((s.getLocks clock id txn = (replyOk, s') ∧ Locked s s' id txn) ∨
        (∃ ret, ret ≠ replyOk ∧ s.getLocks clock id txn = (ret, s')) ∨
        s.getLocks clock id txn = (replyAbort, s'.abort id)) := by
  unfold getLocks
  rcases lockReads_cases clock id txn.readSet.toList replyOk s (by decide) with
    ⟨hne, hacq, hcur⟩ | ⟨s', hacq, heq⟩
  · simp only [hne, if_false]
    set r := lockReads clock id txn.readSet.toList replyOk s with hr
    have hacq' := hacq.trans (lockWrites_acquires clock id txn.writeSet.toList r.1 r.2)
    refine ⟨_, hacq', ?_⟩
    by_cases hok : (lockWrites clock id txn.writeSet.toList r.1 r.2).1 = replyOk
    · obtain ⟨hr1, hwrites⟩ := lockWrites_granted clock id txn.writeSet.toList r.1 r.2 hok
      obtain ⟨-, hreads⟩ := lockReads_granted clock id txn.readSet.toList replyOk s hr1
      refine .inl ⟨Prod.ext hok rfl, ?_, fun key hkey hsome => ?_, fun key hkey => ?_⟩
      · exact fun key readTime cur hread => hcur (key, readTime) (Table.mem_toList.2 hread) cur
      · obtain ⟨readTime, hread⟩ := Option.isSome_iff_exists.1 (AList.lookup_isSome.2 hkey)
        exact lockWrites_holders _ _ _ _ _ _
          (hreads (key, readTime) (Table.mem_toList.2 hread) hsome)
      · obtain ⟨v, hv⟩ := Option.isSome_iff_exists.1 (AList.lookup_isSome.2 hkey)
        exact hwrites (key, v) (Table.mem_toList.2 hv)
    · exact .inr (.inl ⟨_, hok, rfl⟩)
  · refine ⟨s', hacq, .inr (.inr ?_)⟩
    simp only [heq, if_true]

/-- **Prepare.** Already prepared, entered with all locks held, or refused; a refused
transaction keeps the locks it was granted and may lose its pre-commit. -/
theorem prepare_cases (s : LockStore) (clock : Clock) (id : TxnId) (txn : Transaction) :
    (id ∈ s.prepared ∧ s.prepare clock id txn true = (replyOk, s)) ∨
    (id ∉ s.prepared ∧ ∃ s', Acquires id s s' ∧
      ((Locked s s' id txn ∧ s.prepare clock id txn true =
          (replyOk, { s' with prepared := s'.prepared.insert id txn })) ∨
        (∃ ret, ret ≠ replyOk ∧ s.prepare clock id txn true = (ret, s')) ∨
        s.prepare clock id txn true =
          (replyAbort, { s' with precommitted := s'.precommitted.erase id }))) := by
  unfold prepare
  by_cases hp : id ∈ s.prepared
  · exact .inl ⟨hp, if_pos hp⟩
  · obtain ⟨s', hacq, hcases⟩ := getLocks_cases s clock id txn
    refine .inr ⟨hp, s', hacq, ?_⟩
    rw [if_neg hp, if_pos rfl]
    rcases hcases with ⟨heq, hlocked⟩ | ⟨ret, hret, heq⟩ | heq
    · exact .inl ⟨hlocked, by simp only [heq, if_true]⟩
    · exact .inr (.inl ⟨ret, hret, by simp only [heq, hret, if_false]⟩)
    · have hp' : id ∉ s'.prepared := by rw [hacq.prepared]; exact hp
      have hne : replyAbort ≠ replyOk := by decide
      exact .inr (.inr (by simp only [heq, hne, if_false, abort_eq_of_not_prepared hp']))

theorem lockReads_status {clock : Clock} {id : TxnId} {reads : List (Key × Timestamp)} {ret : ℕ}
    {s : LockStore} (hret : ret ≠ replyHasPrecommit) :
    (lockReads clock id reads ret s).1 ≠ replyHasPrecommit := by
  induction reads generalizing ret s with
  | nil => exact hret
  | cons read reads ih =>
      unfold lockReads
      split
      · exact ih hret
      · split_ifs
        · show replyAbort ≠ replyHasPrecommit
          decide
        · apply ih
          split_ifs
          · exact hret
          · show replyFail ≠ replyHasPrecommit
            decide

theorem lockWrites_status {clock : Clock} {id : TxnId} {writes : List (Key × Value)} {ret : ℕ}
    {s : LockStore} (hret : ret ≠ replyHasPrecommit) :
    (lockWrites clock id writes ret s).1 ≠ replyHasPrecommit := by
  induction writes generalizing ret s with
  | nil => exact hret
  | cons write writes ih =>
      unfold lockWrites
      apply ih
      split_ifs
      · exact hret
      · show replyFail ≠ replyHasPrecommit
        decide

/-- No prepare of the locking store reports a pre-commit. -/
theorem prepare_status (s : LockStore) (clock : Clock) (id : TxnId) (txn : Transaction)
    (doCheck : Bool) : (s.prepare clock id txn doCheck).1 ≠ replyHasPrecommit := by
  have hok : replyOk ≠ replyHasPrecommit := by decide
  have hlocks : (s.getLocks clock id txn).1 ≠ replyHasPrecommit := by
    unfold getLocks
    have hreads : (lockReads clock id txn.readSet.toList replyOk s).1 ≠ replyHasPrecommit :=
      lockReads_status hok
    simp only
    split_ifs
    · exact hreads
    · exact lockWrites_status hreads
  unfold prepare
  split_ifs
  · exact hok
  · simp only
    split_ifs
    · exact hlocks
    · exact hlocks
  · exact hok

end LockStore

end D2PC
