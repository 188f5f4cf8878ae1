import D2PC.Store.Admission

/-!
# What stands in the way of a transaction

A store refuses a transaction because of something it knows: a version that was overwritten, a
prepared transaction, the holder of a lock, or a request that is next in a queue. An obstacle is
that something. It stands as long as the store knows it; a refusal itself leaves nothing.

* `Obstacle`, `TxnStore.stands` : the obstacles, and those that stand in a store;
* `TxnStore.not_admits_of_stands` : a transaction with an obstacle is refused;
* `TxnStore.exists_obstacle` : what is refused has an obstacle.
-/

namespace D2PC

/-- An obstacle of a transaction: a version that was read is overwritten; a prepared transaction
is in conflict, where there are no locks; another transaction holds a lock, or is next to get
it. -/
inductive Obstacle where
  | overwritten (key : Key)
  | rival (id : TxnId)
  | holder (key : Key) (id : TxnId)
  | waiter (key : Key) (id : TxnId)
  deriving DecidableEq

namespace Lock

variable {l : Lock} {r d : TxnId} {write : Bool} {now now' now'' : Timeval}

/-- `d` holds the lock in a way that keeps the request of `r` off. -/
def holdsOff (l : Lock) (write : Bool) (r d : TxnId) : Bool :=
  decide (d ∈ l.holders ∧ d ≠ r) &&
    match l.state with
    | .unlocked => false
    | .lockedForRead => write
    | _ => decide (r ∉ l.holders)

/-- `d` is next in the queue, and its request goes before that of `r`. -/
def goesFirst (l : Lock) (write : Bool) (r : TxnId) (now : Timeval) (d : TxnId) : Bool :=
  (l.next now).any fun w => decide (w.1 = d) &&
    match l.state with
    | .unlocked => decide (d ≠ r)
    | .lockedForRead => !write && decide (r ∉ l.holders) && w.2
    | _ => false

/-- A reader keeps writers off, a writer everybody else. -/
theorem holdsOff_iff : l.holdsOff write r d = true ↔ (d ∈ l.holders ∧ d ≠ r) ∧
    (l.state = .lockedForRead ∧ write = true ∨
      (l.state = .lockedForWrite ∨ l.state = .lockedForReadWrite) ∧ r ∉ l.holders) := by
  cases hst : l.state with
  | unlocked => simp [holdsOff, hst]
  | lockedForRead => simp [holdsOff, hst]
  | lockedForWrite => simp [holdsOff, hst]
  | lockedForReadWrite => simp [holdsOff, hst]

/-- The next in the queue goes before others if the lock is free, and a writer before readers. -/
theorem goesFirst_iff : l.goesFirst write r now d = true ↔ ∃ w, l.next now = some (d, w) ∧
    (l.state = .unlocked ∧ d ≠ r ∨
      l.state = .lockedForRead ∧ write = false ∧ r ∉ l.holders ∧ w = true) := by
  unfold goesFirst
  cases hnext : l.next now with
  | none => simp
  | some w =>
      obtain ⟨d', w⟩ := w
      cases hst : l.state with
      | unlocked => simp
      | lockedForRead =>
          simp only [Option.any_some, Bool.and_eq_true, decide_eq_true_eq, Bool.not_eq_true',
            Option.some.injEq, Prod.mk.injEq, reduceCtorEq, false_and, false_or, true_and]
          constructor
          · rintro ⟨rfl, ⟨hwrite, hnot⟩, hw⟩
            exact ⟨w, ⟨rfl, rfl⟩, hwrite, hnot, hw⟩
          · rintro ⟨_, ⟨rfl, rfl⟩, hwrite, hnot, hw⟩
            exact ⟨rfl, ⟨hwrite, hnot⟩, hw⟩
      | lockedForWrite => simp
      | lockedForReadWrite => simp

theorem holdsOff_admitsRead (h : l.holdsOff false r d = true) : l.admitsRead r now = false := by
  obtain ⟨_, ⟨_, hwrite⟩ | ⟨hst, hnot⟩⟩ := holdsOff_iff.1 h
  · cases hwrite
  · have hfst : (l.lockForRead r now now).1 = l.admitsRead r now := lockForRead_fst
    rw [← hfst, (lock_of_written hst hnot now now).1]

theorem holdsOff_admitsWrite (h : l.holdsOff true r d = true) : l.admitsWrite r now = false := by
  obtain ⟨⟨hmem, hne⟩, ⟨hst, _⟩ | ⟨hst, hnot⟩⟩ := holdsOff_iff.1 h
  · simp only [admitsWrite, hst]
    refine decide_eq_false fun hone => hne ?_
    exact Finset.card_le_one.1 hone.1.le d hmem r hone.2
  · have hfst : (l.lockForWrite r now now).1 = l.admitsWrite r now := lockForWrite_fst
    rw [← hfst, (lock_of_written hst hnot now now).2]

/-- A lock that is read stays so when one more reader asks for it. -/
theorem lockForRead_state (hst : l.state = .lockedForRead) :
    (l.lockForRead r now now').2.state = .lockedForRead := by
  simp only [lockForRead, hst]
  split_ifs
  · exact hst
  · have hsame := isWriteNext_same l now
    split
    · rename_i heq
      rw [heq] at hsame
      rw [(waitForLock_same _ _ _ _).state, hsame.state, hst]
    · rename_i heq
      rw [heq] at hsame
      exact hsame.state.trans hst

/-- A holder that keeps a writer off still does when the writer has asked for the read lock. -/
theorem holdsOff_lockForRead (h : l.holdsOff true r d = true) :
    (l.lockForRead r now now').2.holdsOff true r d = true := by
  obtain ⟨⟨hmem, hne⟩, ⟨hst, _⟩ | ⟨hst, hnot⟩⟩ := holdsOff_iff.1 h
  · have hkeeps := lockForRead_holders l r now now' hmem
    exact holdsOff_iff.2 ⟨⟨hkeeps, hne⟩, .inl ⟨lockForRead_state hst, rfl⟩⟩
  · have hsame := waitForLock_same l r false now
    rw [(lock_of_written hst hnot now now').1, holdsOff_iff, hsame.holders, hsame.state]
    exact ⟨⟨hmem, hne⟩, .inr ⟨hst, hnot⟩⟩

theorem goesFirst_admitsRead (h : l.goesFirst false r now d = true) :
    l.admitsRead r now = false := by
  obtain ⟨w, hnext, ⟨hst, hne⟩ | ⟨hst, _, hnot, hw⟩⟩ := goesFirst_iff.1 h
  · simp only [admitsRead, hst, hnext, Option.all_some]
    exact decide_eq_false hne
  · simp only [admitsRead, hst, hnext, Option.all_some, hw, Bool.not_true, Bool.or_false]
    exact decide_eq_false hnot

theorem goesFirst_admitsWrite (h : l.goesFirst true r now d = true) :
    l.admitsWrite r now = false := by
  obtain ⟨w, hnext, ⟨hst, hne⟩ | ⟨_, hwrite, _⟩⟩ := goesFirst_iff.1 h
  · simp only [admitsWrite, hst, hnext, Option.all_some]
    exact decide_eq_false hne
  · cases hwrite

/-- A free lock is refused because of the next in its queue. -/
theorem exists_goesFirst (hst : l.state = .unlocked)
    (h : ((l.next now).all fun w => decide (w.1 = r)) = false) (write : Bool) :
    ∃ d, l.goesFirst write r now d = true := by
  cases hnext : l.next now with
  | none =>
      rw [hnext] at h
      cases h
  | some w =>
      rw [hnext, Option.all_some] at h
      exact ⟨w.1, goesFirst_iff.2 ⟨w.2, hnext, .inl ⟨hst, of_decide_eq_false h⟩⟩⟩

/-- A lock that is held for writing has a holder, and keeps off everybody else. -/
theorem Valid.exists_holdsOff (hl : l.Valid)
    (hst : l.state = .lockedForWrite ∨ l.state = .lockedForReadWrite) (hnot : r ∉ l.holders)
    (write : Bool) : ∃ d, l.holdsOff write r d = true := by
  obtain ⟨d, hd⟩ := Finset.card_eq_one.1 (hl.write hst)
  have hmem : d ∈ l.holders := by
    rw [hd]
    exact Finset.mem_singleton_self d
  have hne : d ≠ r := fun h => hnot (h ▸ hmem)
  exact ⟨d, holdsOff_iff.2 ⟨⟨hmem, hne⟩, .inr ⟨hst, hnot⟩⟩⟩

/-- A read lock is refused because of a holder or of a waiter. -/
theorem exists_of_not_admitsRead (hl : l.Valid) (h : l.admitsRead r now = false) :
    ∃ d, l.holdsOff false r d = true ∨ l.goesFirst false r now d = true := by
  cases hst : l.state with
  | unlocked =>
      simp only [admitsRead, hst] at h
      obtain ⟨d, hd⟩ := exists_goesFirst hst h false
      exact ⟨d, .inr hd⟩
  | lockedForRead =>
      simp only [admitsRead, hst, Bool.or_eq_false_iff, decide_eq_false_iff_not] at h
      cases hnext : l.next now with
      | none =>
          rw [hnext] at h
          exact Bool.noConfusion h.2
      | some w =>
          rw [hnext, Option.all_some, Bool.not_eq_false'] at h
          exact ⟨w.1, .inr (goesFirst_iff.2 ⟨w.2, hnext, .inr ⟨hst, rfl, h.1, h.2⟩⟩)⟩
  | lockedForWrite =>
      simp only [admitsRead, hst, decide_eq_false_iff_not] at h
      obtain ⟨d, hd⟩ := hl.exists_holdsOff (.inl hst) h false
      exact ⟨d, .inl hd⟩
  | lockedForReadWrite =>
      simp only [admitsRead, hst, decide_eq_false_iff_not] at h
      obtain ⟨d, hd⟩ := hl.exists_holdsOff (.inr hst) h false
      exact ⟨d, .inl hd⟩

/-- A lock that is read is refused to a writer because of another reader. -/
theorem Valid.exists_reader (hl : l.Valid) (hst : l.state = .lockedForRead)
    (hnot : l.holders ≠ {r}) : ∃ d, l.holdsOff true r d = true := by
  have hsome : l.holders.Nonempty := by
    rw [Finset.nonempty_iff_ne_empty]
    intro hnone
    have := hl.unlocked.2 hnone
    rw [hst] at this
    cases this
  have hother : ∃ d ∈ l.holders, d ≠ r := by
    by_contra hall
    push Not at hall
    exact hnot (Finset.eq_singleton_iff_nonempty_unique_mem.2 ⟨hsome, hall⟩)
  obtain ⟨d, hmem, hne⟩ := hother
  exact ⟨d, holdsOff_iff.2 ⟨⟨hmem, hne⟩, .inl ⟨hst, rfl⟩⟩⟩

/-- A write lock is refused because of a holder or of a waiter. -/
theorem exists_of_not_admitsWrite (hl : l.Valid) (h : l.admitsWrite r now = false) :
    ∃ d, l.holdsOff true r d = true ∨ l.goesFirst true r now d = true := by
  cases hst : l.state with
  | unlocked =>
      simp only [admitsWrite, hst] at h
      obtain ⟨d, hd⟩ := exists_goesFirst hst h true
      exact ⟨d, .inr hd⟩
  | lockedForRead =>
      simp only [admitsWrite, hst, decide_eq_false_iff_not] at h
      have hnot : l.holders ≠ {r} := fun heq => h (by rw [heq]; simp)
      obtain ⟨d, hd⟩ := hl.exists_reader hst hnot
      exact ⟨d, .inl hd⟩
  | lockedForWrite =>
      simp only [admitsWrite, hst, decide_eq_false_iff_not] at h
      obtain ⟨d, hd⟩ := hl.exists_holdsOff (.inl hst) h true
      exact ⟨d, .inl hd⟩
  | lockedForReadWrite =>
      simp only [admitsWrite, hst, decide_eq_false_iff_not] at h
      obtain ⟨d, hd⟩ := hl.exists_holdsOff (.inr hst) h true
      exact ⟨d, .inl hd⟩

/-- A writer that was granted the read lock just before is refused because of another reader. -/
theorem exists_of_not_admitsWrite_after (hl : l.Valid) (hread : l.admitsRead r now = true)
    (h : (l.lockForRead r now now').2.admitsWrite r now'' = false) :
    ∃ d, l.holdsOff true r d = true := by
  have hgranted : (l.lockForRead r now now').1 = true := lockForRead_fst.trans hread
  cases hst : l.state with
  | unlocked =>
      -- a lock that was free has one reader now
      have hnone : l.holders = ∅ := hl.unlocked.1 hst
      simp only [lockForRead, hst] at h hgranted
      have hsame := tryAcquireLock_same l r false now now'
      split at h
      · rename_i l' heq
        rw [heq] at hsame
        have hholders : l'.holders = ∅ := hsame.holders.trans hnone
        simp only [admitsWrite, hholders, decide_eq_false_iff_not] at h
        exact absurd (by simp) h
      · rename_i heq
        rw [heq] at hgranted
        cases hgranted
  | lockedForRead =>
      refine hl.exists_reader hst fun hone => ?_
      have hmem : r ∈ l.holders := by
        rw [hone]
        exact Finset.mem_singleton_self r
      simp only [lockForRead, hst, if_pos hmem, admitsWrite, decide_eq_false_iff_not] at h
      exact h (by rw [hone]; simp)
  | lockedForWrite =>
      simp only [admitsRead, hst, decide_eq_true_eq] at hread
      simp only [lockForRead, hst, if_pos hread, admitsWrite, decide_eq_false_iff_not] at h
      exact absurd hread h
  | lockedForReadWrite =>
      simp only [admitsRead, hst, decide_eq_true_eq] at hread
      simp only [lockForRead, hst, if_pos hread, admitsWrite, decide_eq_false_iff_not] at h
      exact absurd hread h

end Lock

namespace LockStore

variable {s : LockStore} {id d : TxnId} {clock : Clock} {txn : Transaction} {key : Key}

/-- `d` holds a lock that the transaction asks for. -/
def holdsOff (s : LockStore) (id : TxnId) (txn : Transaction) (key : Key) (d : TxnId) : Bool :=
  (decide (key ∈ s.readRequests txn) && (s.locks.lock key).holdsOff false id d) ||
    (decide (key ∈ s.writeRequests txn) && (s.locks.lock key).holdsOff true id d)

/-- `d` is next to get a lock that the transaction asks for. -/
def goesFirst (s : LockStore) (clock : Clock) (id : TxnId) (txn : Transaction) (key : Key)
    (d : TxnId) : Bool :=
  (decide (key ∈ s.readRequests txn) &&
      (s.locks.lock key).goesFirst false id (clock false key).1 d) ||
    (decide (key ∉ s.readRequests txn ∧ key ∈ s.writeRequests txn) &&
      (s.locks.lock key).goesFirst true id (clock true key).1 d)

theorem not_admits_of_stale {read : Key × Timestamp} (hread : read ∈ txn.readSet.toList)
    (hstale : s.stale read = true) (hnew : id ∉ s.prepared) : s.admits clock id txn = false := by
  have hany : txn.readSet.toList.any s.stale = true := List.any_eq_true.2 ⟨read, hread, hstale⟩
  rw [admits, hany, decide_eq_false hnew]
  rfl

theorem not_admits_of_read (hkey : key ∈ s.readRequests txn) (hnew : id ∉ s.prepared)
    (hno : (s.locks.lock key).admitsRead id (clock false key).1 = false) :
    s.admits clock id txn = false := by
  have hall : ((s.readRequests txn).all fun key =>
      (s.locks.lock key).admitsRead id (clock false key).1) = false := by
    rw [List.all_eq_false]
    exact ⟨key, hkey, by rw [hno]; decide⟩
  rw [admits, hall, decide_eq_false hnew, Bool.and_false, Bool.false_and, Bool.false_or]

theorem not_admits_of_write (hkey : key ∈ s.writeRequests txn) (hnew : id ∉ s.prepared)
    (hno : (s.readTried clock id (s.readRequests txn) key).admitsWrite id (clock true key).1 =
      false) : s.admits clock id txn = false := by
  have hall : ((s.writeRequests txn).all fun key =>
      (s.readTried clock id (s.readRequests txn) key).admitsWrite id (clock true key).1) =
        false := by
    rw [List.all_eq_false]
    exact ⟨key, hkey, by rw [hno]; decide⟩
  rw [admits, hall, decide_eq_false hnew, Bool.and_false, Bool.false_or]

theorem not_admits_of_holdsOff (h : s.holdsOff id txn key d = true) (hnew : id ∉ s.prepared) :
    s.admits clock id txn = false := by
  simp only [holdsOff, Bool.or_eq_true, Bool.and_eq_true, decide_eq_true_eq] at h
  rcases h with ⟨hkey, hoff⟩ | ⟨hkey, hoff⟩
  · exact not_admits_of_read hkey hnew (Lock.holdsOff_admitsRead hoff)
  · refine not_admits_of_write hkey hnew (Lock.holdsOff_admitsWrite (d := d) ?_)
    unfold readTried
    split_ifs
    · exact Lock.holdsOff_lockForRead hoff
    · exact hoff

theorem not_admits_of_goesFirst (h : s.goesFirst clock id txn key d = true)
    (hnew : id ∉ s.prepared) : s.admits clock id txn = false := by
  simp only [goesFirst, Bool.or_eq_true, Bool.and_eq_true, decide_eq_true_eq] at h
  rcases h with ⟨hkey, hfirst⟩ | ⟨⟨hnot, hkey⟩, hfirst⟩
  · exact not_admits_of_read hkey hnew (Lock.goesFirst_admitsRead hfirst)
  · refine not_admits_of_write hkey hnew ?_
    rw [readTried, if_neg hnot]
    exact Lock.goesFirst_admitsWrite hfirst

/-- A transaction that read current versions is refused because of a lock. -/
theorem exists_lock_obstacle (hvalid : ∀ key, (s.locks.lock key).Valid)
    (hfresh : txn.readSet.toList.any s.stale = false) (h : s.admits clock id txn = false) :
    ∃ key d, s.holdsOff id txn key d = true ∨ s.goesFirst clock id txn key d = true := by
  simp only [admits, Bool.or_eq_false_iff, hfresh, Bool.not_false, Bool.true_and] at h
  obtain ⟨-, h⟩ := h
  cases hreads : (s.readRequests txn).all fun key =>
      (s.locks.lock key).admitsRead id (clock false key).1 with
  | false =>
      rw [List.all_eq_false] at hreads
      obtain ⟨key, hkey, hno⟩ := hreads
      rw [Bool.not_eq_true] at hno
      obtain ⟨d, hd | hd⟩ := Lock.exists_of_not_admitsRead (hvalid key) hno
      · refine ⟨key, d, .inl ?_⟩
        rw [holdsOff, hd, decide_eq_true hkey]
        rfl
      · refine ⟨key, d, .inr ?_⟩
        rw [goesFirst, hd, decide_eq_true hkey]
        rfl
  | true =>
      rw [hreads, Bool.true_and, List.all_eq_false] at h
      obtain ⟨key, hkey, hno⟩ := h
      rw [Bool.not_eq_true] at hno
      by_cases hread : key ∈ s.readRequests txn
      · have hgranted := List.all_eq_true.1 hreads key hread
        rw [readTried, if_pos hread] at hno
        obtain ⟨d, hd⟩ := Lock.exists_of_not_admitsWrite_after (hvalid key) hgranted hno
        refine ⟨key, d, .inl ?_⟩
        rw [holdsOff, hd, decide_eq_true hkey]
        exact Bool.or_true _
      · rw [readTried, if_neg hread] at hno
        obtain ⟨d, hd | hd⟩ := Lock.exists_of_not_admitsWrite (hvalid key) hno
        · refine ⟨key, d, .inl ?_⟩
          rw [holdsOff, hd, decide_eq_true hkey]
          exact Bool.or_true _
        · have hasked : key ∉ s.readRequests txn ∧ key ∈ s.writeRequests txn := ⟨hread, hkey⟩
          refine ⟨key, d, .inr ?_⟩
          rw [goesFirst, hd, decide_eq_true hasked]
          exact Bool.or_true _

end LockStore

namespace OCCStore

variable {s : OCCStore} {id d : TxnId} {txn : Transaction}

/-- The version that was read has been overwritten. -/
def stale (s : OCCStore) (read : Key × Timestamp) : Bool :=
  match s.store.get read.1 with
  | none => false
  | some cur => decide (read.2 < cur.1)

/-- `d` is prepared, and writes what the transaction reads, or reads or writes what it writes. -/
def rivals (s : OCCStore) (txn : Transaction) (d : TxnId) : Bool :=
  (s.prepared.lookup d).any fun t =>
    (txn.readSet.keys.any fun key =>
      (s.store.get key).isSome && decide (key ∈ t.writeSet)) ||
    txn.writeSet.keys.any fun key => decide (key ∈ t.writeSet ∨ key ∈ t.readSet)

/-- A read fails validation because of its version or of a prepared writer. -/
theorem readConflict_iff {read : Key × Timestamp} : s.readConflict read = true ↔
    s.stale read = true ∨ (s.store.get read.1).isSome = true ∧
      ∃ d t, s.prepared.lookup d = some t ∧ read.1 ∈ t.writeSet := by
  unfold readConflict stale
  cases hget : s.store.get read.1 with
  | none => simp
  | some cur =>
      simp only [Bool.or_eq_true, decide_eq_true_eq, Option.isSome_some, true_and]
      rw [mem_getPreparedWrites]

theorem writeConflict_iff {write : Key × Value} : s.writeConflict write = true ↔
    ∃ d t, s.prepared.lookup d = some t ∧ (write.1 ∈ t.writeSet ∨ write.1 ∈ t.readSet) := by
  rw [writeConflict, decide_eq_true_eq, mem_getPreparedReadWrites]

theorem mem_keys_iff {α : Type} {t : Table Key α} {key : Key} :
    key ∈ t.keys ↔ ∃ a, (key, a) ∈ t.toList := by
  rw [← AList.mem_keys, ← AList.lookup_isSome, Option.isSome_iff_exists]
  exact exists_congr fun a => Table.mem_toList.symm

theorem rivals_iff : s.rivals txn d = true ↔ ∃ t, s.prepared.lookup d = some t ∧
    ((∃ read ∈ txn.readSet.toList, (s.store.get read.1).isSome = true ∧ read.1 ∈ t.writeSet) ∨
      ∃ write ∈ txn.writeSet.toList, write.1 ∈ t.writeSet ∨ write.1 ∈ t.readSet) := by
  unfold rivals
  cases hd : s.prepared.lookup d with
  | none => simp
  | some t =>
      simp only [Option.any_some, Bool.or_eq_true, List.any_eq_true, mem_keys_iff,
        Bool.and_eq_true, decide_eq_true_eq, Option.some.injEq, exists_eq_left', Prod.exists]
      refine or_congr ?_ ?_
      · exact exists_congr fun key => by rw [exists_and_right]
      · exact exists_congr fun key => by rw [exists_and_right]

/-- Validation fails because of a version or of a prepared transaction. -/
theorem not_admits_iff : s.admits id txn = false ↔ id ∉ s.prepared ∧
    ((∃ read ∈ txn.readSet.toList, s.stale read = true) ∨ ∃ d, s.rivals txn d = true) := by
  simp only [admits, Bool.or_eq_false_iff, decide_eq_false_iff_not, Bool.not_eq_false',
    Bool.or_eq_true, List.any_eq_true, readConflict_iff, writeConflict_iff, rivals_iff]
  refine and_congr_right fun _ => ?_
  constructor
  · rintro (⟨read, hread, hstale | ⟨hsome, d, t, ht, hmem⟩⟩ | ⟨write, hwrite, d, t, ht, hmem⟩)
    · exact .inl ⟨read, hread, hstale⟩
    · exact .inr ⟨d, t, ht, .inl ⟨read, hread, hsome, hmem⟩⟩
    · exact .inr ⟨d, t, ht, .inr ⟨write, hwrite, hmem⟩⟩
  · rintro (⟨read, hread, hstale⟩ | ⟨d, t, ht, ⟨read, hread, hsome, hmem⟩ | ⟨write, hwrite, hmem⟩⟩)
    · exact .inl ⟨read, hread, .inl hstale⟩
    · exact .inl ⟨read, hread, .inr ⟨hsome, d, t, ht, hmem⟩⟩
    · exact .inr ⟨write, hwrite, d, t, ht, hmem⟩

end OCCStore

namespace TxnStore

variable {s : TxnStore} {clock : Clock} {id : TxnId} {txn : Transaction} {o : Obstacle}

/-- The obstacle stands in the way of the transaction. -/
def stands (clock : Clock) (id : TxnId) (txn : Transaction) : Obstacle → TxnStore → Bool
  | .overwritten key, .occ s =>
      txn.readSet.toList.any fun read => decide (read.1 = key) && s.stale read
  | .overwritten key, .lock s =>
      txn.readSet.toList.any fun read => decide (read.1 = key) && s.stale read
  | .rival d, .occ s => s.rivals txn d
  | .holder key d, .lock s => s.holdsOff id txn key d
  | .waiter key d, .lock s => s.goesFirst clock id txn key d
  | _, _ => false

/-- **An obstacle** keeps the store from preparing the transaction. -/
theorem not_admits_of_stands (h : s.stands clock id txn o = true) (hnew : id ∉ s.prepared) :
    s.admits clock id txn = false := by
  cases s with
  | occ s =>
      show s.admits id txn = false
      rw [OCCStore.not_admits_iff]
      refine ⟨hnew, ?_⟩
      cases o with
      | overwritten key =>
          obtain ⟨read, hread, hstale⟩ := List.any_eq_true.1 h
          rw [Bool.and_eq_true] at hstale
          exact .inl ⟨read, hread, hstale.2⟩
      | rival d => exact .inr ⟨d, h⟩
      | holder key d => cases h
      | waiter key d => cases h
  | lock s =>
      show s.admits clock id txn = false
      cases o with
      | overwritten key =>
          obtain ⟨read, hread, hstale⟩ := List.any_eq_true.1 h
          rw [Bool.and_eq_true] at hstale
          exact LockStore.not_admits_of_stale hread hstale.2 hnew
      | rival d => cases h
      | holder key d => exact LockStore.not_admits_of_holdsOff h hnew
      | waiter key d => exact LockStore.not_admits_of_goesFirst h hnew

/-- **What is refused has an obstacle.** -/
theorem exists_obstacle (hs : s.Consistent) (h : s.admits clock id txn = false) :
    ∃ o, s.stands clock id txn o = true := by
  cases s with
  | occ s =>
      obtain ⟨-, ⟨read, hread, hstale⟩ | ⟨d, hd⟩⟩ := OCCStore.not_admits_iff.1 h
      · refine ⟨.overwritten read.1, List.any_eq_true.2 ⟨read, hread, ?_⟩⟩
        rw [decide_eq_true rfl, hstale]
        rfl
      · exact ⟨.rival d, hd⟩
  | lock s =>
      cases hfresh : txn.readSet.toList.any s.stale with
      | true =>
          obtain ⟨read, hread, hstale⟩ := List.any_eq_true.1 hfresh
          refine ⟨.overwritten read.1, List.any_eq_true.2 ⟨read, hread, ?_⟩⟩
          rw [decide_eq_true rfl, hstale]
          rfl
      | false =>
          obtain ⟨key, d, hd | hd⟩ := LockStore.exists_lock_obstacle hs.valid hfresh h
          · exact ⟨.holder key d, hd⟩
          · exact ⟨.waiter key d, hd⟩

end TxnStore

end D2PC
