import D2PC.Store.Refusal

/-!
# What admits a transaction

Whether a prepare succeeds is decided by the state in which it arrives: the versions, the prepared
transactions, and the locks with their queues. The predicates here speak of that state only.

* `Lock.admitsRead`, `Lock.admitsWrite` : the requests a lock grants;
* `TxnStore.admits`, `TxnStore.prepareUpcall_iff` : the transactions a store prepares;
* `TxnStore.grantsInVain` : those it refuses after it granted them a lock.
-/

namespace D2PC

namespace Lock

variable {l : Lock} {r : TxnId} {now now' : Timeval}

/-! ### Which requests are granted -/

/-- The first request of the queue that has not timed out, and whether it is for writing. -/
def next (l : Lock) (now : Timeval) : Option (TxnId × Bool) :=
  (prune now l.waitQ l.waiters).1.head?.map fun w =>
    (w, (((prune now l.waitQ l.waiters).2.lookup w).getD {}).write)

/-- A free lock goes to the next in the queue; a lock that is read is shared with its readers,
and with others unless a writer is next; a lock that is written is its holder's. -/
def admitsRead (l : Lock) (r : TxnId) (now : Timeval) : Bool :=
  match l.state with
  | .unlocked => (l.next now).all fun w => decide (w.1 = r)
  | .lockedForRead => decide (r ∈ l.holders) || (l.next now).all fun w => !w.2
  | _ => decide (r ∈ l.holders)

/-- A free lock goes to the next in the queue, a lock that is read to its only reader, and a lock
that is written is its holder's. -/
def admitsWrite (l : Lock) (r : TxnId) (now : Timeval) : Bool :=
  match l.state with
  | .unlocked => (l.next now).all fun w => decide (w.1 = r)
  | .lockedForRead => decide (l.holders.card = 1 ∧ r ∈ l.holders)
  | _ => decide (r ∈ l.holders)

theorem tryAcquireLock_fst (l : Lock) (r : TxnId) (write : Bool) (now now' : Timeval) :
    (l.tryAcquireLock r write now now').1 = (l.next now).all fun w => decide (w.1 = r) := by
  unfold tryAcquireLock next
  split
  · rename_i heq
    rw [heq]
    rfl
  · rename_i w rest waiters heq
    rw [heq]
    simp only [List.head?_cons, Option.map_some, Option.all_some]
    split_ifs with hw
    · exact (decide_eq_true hw).symm
    · exact (decide_eq_false hw).symm

theorem isWriteNext_fst (l : Lock) (now : Timeval) :
    (l.isWriteNext now).1 = (l.next now).any fun w => w.2 := by
  unfold isWriteNext next
  split
  · rename_i heq
    rw [heq]
    rfl
  · rename_i w rest waiters heq
    rw [heq]
    rfl

/-- The read lock is granted to those it admits. -/
theorem lockForRead_fst : (l.lockForRead r now now').1 = l.admitsRead r now := by
  have hheld : (if r ∈ l.holders then
      (true, { l with state := .lockedForReadWrite : Lock })
      else (false, l.waitForLock r false now)).1 = decide (r ∈ l.holders) := by
    split_ifs with hmem
    · exact (decide_eq_true hmem).symm
    · exact (decide_eq_false hmem).symm
  cases hst : l.state with
  | unlocked =>
      have hfst := tryAcquireLock_fst l r false now now'
      simp only [lockForRead, admitsRead, hst]
      rw [← hfst]
      split
      · rename_i heq
        rw [heq]
      · rename_i heq
        rw [heq]
  | lockedForRead =>
      simp only [lockForRead, admitsRead, hst]
      split_ifs with hmem
      · rw [decide_eq_true hmem, Bool.true_or]
      · have hfst := isWriteNext_fst l now
        have hall : ((l.next now).all fun w => !w.2) = !(l.next now).any fun w => w.2 := by
          cases l.next now with
          | none => rfl
          | some w => rfl
        rw [decide_eq_false hmem, Bool.false_or, hall, ← hfst]
        split
        · rename_i heq
          rw [heq]
          rfl
        · rename_i heq
          rw [heq]
          rfl
  | lockedForWrite =>
      simp only [lockForRead, admitsRead, hst]
      exact hheld
  | lockedForReadWrite =>
      simp only [lockForRead, admitsRead, hst]
      exact hheld

/-- The write lock is granted to those it admits. -/
theorem lockForWrite_fst : (l.lockForWrite r now now').1 = l.admitsWrite r now := by
  have hheld : (if r ∈ l.holders then (true, l) else (false, l.waitForLock r true now)).1 =
      decide (r ∈ l.holders) := by
    split_ifs with hmem
    · exact (decide_eq_true hmem).symm
    · exact (decide_eq_false hmem).symm
  cases hst : l.state with
  | unlocked =>
      have hfst := tryAcquireLock_fst l r true now now'
      simp only [lockForWrite, admitsWrite, hst]
      rw [← hfst]
      split
      · rename_i heq
        rw [heq]
      · rename_i heq
        rw [heq]
  | lockedForRead =>
      simp only [lockForWrite, admitsWrite, hst]
      split_ifs with hone
      · exact (decide_eq_true hone).symm
      · exact (decide_eq_false hone).symm
  | lockedForWrite =>
      simp only [lockForWrite, admitsWrite, hst]
      exact hheld
  | lockedForReadWrite =>
      simp only [lockForWrite, admitsWrite, hst]
      exact hheld

/-- A lock that is written is refused to everybody but its holder. -/
theorem lock_of_written (hst : l.state = .lockedForWrite ∨ l.state = .lockedForReadWrite)
    (hnot : r ∉ l.holders) (now now' : Timeval) :
    l.lockForRead r now now' = (false, l.waitForLock r false now) ∧
      l.lockForWrite r now now' = (false, l.waitForLock r true now) := by
  unfold lockForRead lockForWrite
  rcases hst with hst | hst
  · rw [hst]
    exact ⟨if_neg hnot, if_neg hnot⟩
  · rw [hst]
    exact ⟨if_neg hnot, if_neg hnot⟩

end Lock

namespace LockStore

variable {s : LockStore} {id : TxnId}

/-! ### Which transactions the locking store prepares -/

/-- The transaction is prepared, or it read current versions and every lock it asks for is
granted. The lock of a key that it reads and writes is asked for twice. -/
def admits (s : LockStore) (clock : Clock) (id : TxnId) (txn : Transaction) : Bool :=
  decide (id ∈ s.prepared) || (!txn.readSet.toList.any s.stale &&
    ((s.readRequests txn).all fun key => (s.locks.lock key).admitsRead id (clock false key).1) &&
    (s.writeRequests txn).all fun key =>
      (s.readTried clock id (s.readRequests txn) key).admitsWrite id (clock true key).1)

/-- The loop over the reads succeeds if all are current and their locks are granted. -/
theorem lockReads_ok (s : LockStore) (clock : Clock) (id : TxnId) {reads : List (Key × Timestamp)}
    (hnodup : (reads.map Prod.fst).Nodup) (ret : ℕ) :
    (lockReads clock id reads ret s).1 = replyOk ↔ ret = replyOk ∧ reads.any s.stale = false ∧
      ∀ key ∈ s.requested reads, (s.locks.lock key).admitsRead id (clock false key).1 = true := by
  induction reads generalizing ret s with
  | nil => simp [lockReads, requested]
  | cons read reads ih =>
      rw [List.map_cons, List.nodup_cons] at hnodup
      obtain ⟨hhead, htail⟩ := hnodup
      rw [requested_cons, List.any_cons]
      cases hget : s.store.get read.1 with
      | none =>
          have hfresh : s.stale read = false := by simp [stale, hget]
          rw [lockReads_absent hget, hfresh, Bool.false_or]
          exact ih _ htail ret
      | some cur =>
          by_cases hlt : read.2 < cur.1
          · have hstale : s.stale read = true := by simp [stale, hget, hlt]
            rw [lockReads_stale hget hlt, hstale, Bool.true_or]
            refine iff_of_false ?_ fun h => Bool.noConfusion h.2.1
            show replyAbort ≠ replyOk
            decide
          · have hfresh : s.stale read = false := by simp [stale, hget, hlt]
            have hnot : read.1 ∉ s.requested reads := fun hmem => hhead (mem_requested hmem)
            rw [lockReads_fresh hget hlt, hfresh, Bool.false_or, ih _ htail]
            have hgranted : (s.locks.lockForRead read.1 id (clock false read.1).1
                (clock false read.1).2).1 =
                (s.locks.lock read.1).admitsRead id (clock false read.1).1 :=
              Lock.lockForRead_fst
            rw [hgranted]
            -- the other keys have the locks they had
            have hothers : (∀ key ∈ s.requested reads, (LockServer.lock
                (s.locks.lockForRead read.1 id (clock false read.1).1
                  (clock false read.1).2).2 key).admitsRead id (clock false key).1 = true) ↔
                ∀ key ∈ s.requested reads,
                  (s.locks.lock key).admitsRead id (clock false key).1 = true := by
              refine forall₂_congr fun key hkey => ?_
              have hne : key ≠ read.1 := fun h => hnot (h ▸ hkey)
              simp only [LockServer.lockForRead, LockServer.lock_insert, if_neg hne]
            simp only [Bool.false_eq_true, if_false, Option.isSome_some, if_true,
              List.forall_mem_cons]
            have hrequested : requested { s with locks := (s.locks.lockForRead read.1 id
                (clock false read.1).1 (clock false read.1).2).2 } reads = s.requested reads := rfl
            have hstale : stale { s with locks := (s.locks.lockForRead read.1 id
                (clock false read.1).1 (clock false read.1).2).2 } = s.stale := rfl
            rw [hrequested, hstale, hothers]
            have hret : (if (s.locks.lock read.1).admitsRead id (clock false read.1).1 = true
                then ret else replyFail) = replyOk ↔ ret = replyOk ∧
                  (s.locks.lock read.1).admitsRead id (clock false read.1).1 = true := by
              split_ifs with hyes
              · exact (and_iff_left hyes).symm
              · exact iff_of_false (by decide) fun h => hyes h.2
            rw [hret]
            tauto

/-- The loop over the writes succeeds if all locks are granted. -/
theorem lockWrites_ok (clock : Clock) {writes : List (Key × Value)}
    (hnodup : (writes.map Prod.fst).Nodup) (ret : ℕ) :
    (lockWrites clock id writes ret s).1 = replyOk ↔ ret = replyOk ∧
      ∀ key ∈ writes.map Prod.fst, (s.locks.lock key).admitsWrite id (clock true key).1 = true := by
  induction writes generalizing ret s with
  | nil => simp [lockWrites]
  | cons write writes ih =>
      rw [List.map_cons, List.nodup_cons] at hnodup
      obtain ⟨hhead, htail⟩ := hnodup
      simp only [lockWrites]
      rw [ih htail, List.map_cons, List.forall_mem_cons]
      have hgranted : (s.locks.lockForWrite write.1 id (clock true write.1).1
          (clock true write.1).2).1 =
          (s.locks.lock write.1).admitsWrite id (clock true write.1).1 :=
        Lock.lockForWrite_fst
      rw [hgranted]
      have hothers : (∀ key ∈ writes.map Prod.fst, (LockServer.lock
          (s.locks.lockForWrite write.1 id (clock true write.1).1
            (clock true write.1).2).2 key).admitsWrite id (clock true key).1 = true) ↔
          ∀ key ∈ writes.map Prod.fst,
            (s.locks.lock key).admitsWrite id (clock true key).1 = true := by
        refine forall₂_congr fun key hkey => ?_
        have hne : key ≠ write.1 := fun h => hhead (h ▸ hkey)
        simp only [LockServer.lockForWrite, LockServer.lock_insert, if_neg hne]
      rw [hothers]
      split_ifs with hyes
      · exact and_congr_right fun _ => (and_iff_right hyes).symm
      · exact iff_of_false (fun h => absurd h.1 (by decide)) fun h => hyes h.2.1

/-- **Validation of the locking store.** A prepare succeeds exactly if its transaction is
admitted. -/
theorem prepare_ok_iff (s : LockStore) (clock : Clock) (id : TxnId) (txn : Transaction) :
    (s.prepare clock id txn true).1 = replyOk ↔ s.admits clock id txn = true := by
  by_cases hp : id ∈ s.prepared
  · rw [prepare, if_pos hp, admits, decide_eq_true hp]
    exact iff_of_true rfl (Bool.true_or _)
  · have hcode : (s.prepare clock id txn true).1 = (s.getLocks clock id txn).1 := by
      unfold prepare
      rw [if_neg hp, if_pos rfl]
      dsimp only
      split
      · rfl
      · rfl
    obtain ⟨hreads, habort⟩ := lockReads_lock clock txn.readSet.toList_nodup replyOk (by decide) hp
    have hok := s.lockReads_ok clock id txn.readSet.toList_nodup replyOk
    rw [hcode, admits, decide_eq_false hp, Bool.false_or]
    unfold getLocks writeRequests
    dsimp only
    by_cases hany : txn.readSet.toList.any s.stale = true
    · rw [if_pos (habort.2 hany), if_pos hany, habort.2 hany, hany]
      exact iff_of_false (by decide) fun h => by simp at h
    · rw [if_neg fun h => hany (habort.1 h), if_neg hany,
        lockWrites_ok clock txn.writeSet.toList_nodup, hok]
      rw [Bool.not_eq_true] at hany
      simp only [hreads, hany, Bool.not_false, Bool.true_and, Bool.and_eq_true, List.all_eq_true,
        true_and, readRequests]

end LockStore

namespace OCCStore

/-- The transaction is prepared, or it passes validation. -/
def admits (s : OCCStore) (id : TxnId) (txn : Transaction) : Bool :=
  decide (id ∈ s.prepared) ||
    !(txn.readSet.toList.any s.readConflict || txn.writeSet.toList.any s.writeConflict)

theorem prepare_ok_iff (s : OCCStore) (id : TxnId) (txn : Transaction) :
    (s.prepare id txn true).1 = replyOk ↔ s.admits id txn = true := by
  unfold prepare admits
  by_cases hp : id ∈ s.prepared
  · rw [if_pos hp, decide_eq_true hp]
    exact iff_of_true rfl (Bool.true_or _)
  · rw [if_neg hp, decide_eq_false hp, Bool.false_or, Bool.true_and]
    cases txn.readSet.toList.any s.readConflict || txn.writeSet.toList.any s.writeConflict with
    | true => exact iff_of_false (by show replyFail ≠ replyOk; decide) (by decide)
    | false => exact iff_of_true rfl rfl

end OCCStore

namespace TxnStore

/-- The store prepares the transaction, if it is checked. -/
def admits (clock : Clock) (id : TxnId) (txn : Transaction) : TxnStore → Bool
  | .occ s => s.admits id txn
  | .lock s => s.admits clock id txn

theorem prepare_ok_iff (s : TxnStore) (clock : Clock) (id : TxnId) (txn : Transaction) :
    (s.prepare clock id txn true).1 = replyOk ↔ s.admits clock id txn = true := by
  cases s with
  | occ s => exact s.prepare_ok_iff id txn
  | lock s => exact s.prepare_ok_iff clock id txn

/-- **`PrepareUpcall` tells** whether the transaction is admitted. -/
theorem prepareUpcall_iff (s : TxnStore) (clock : Clock) (id : TxnId) (m : TransactionMessage) :
    (s.prepareUpcall clock id m true).1 = s.admits clock id (Transaction.ofMessage m) := by
  rw [Bool.eq_iff_iff, ← prepare_ok_iff]
  have hcode : (s.prepare clock id (Transaction.ofMessage m) true).1 ≠ replyHasPrecommit := by
    cases s with
    | occ s =>
        show (s.prepare id (Transaction.ofMessage m) true).1 ≠ replyHasPrecommit
        have hok : replyOk ≠ replyHasPrecommit := by decide
        have hfail : replyFail ≠ replyHasPrecommit := by decide
        rcases s.prepare_cases id (Transaction.ofMessage m) with ⟨_, h⟩ | ⟨_, h⟩ | ⟨_, _, h⟩
        · rw [h]
          exact hok
        · rw [h]
          exact hfail
        · rw [h]
          exact hok
    | lock s => exact s.prepare_status clock id _ true
  show decide ((s.prepare clock id (Transaction.ofMessage m) true).1 = replyOk ∨
    (s.prepare clock id (Transaction.ofMessage m) true).1 = replyHasPrecommit) = true ↔ _
  rw [decide_eq_true_eq]
  exact or_iff_left hcode

/-- The transaction is refused, and some lock that it did not have is granted to it. -/
def grantsInVain (clock : Clock) (id : TxnId) (txn : Transaction) : TxnStore → Bool
  | .occ _ => false
  | .lock s => !s.admits clock id txn && decide (s.GrantsAnew clock id txn)

theorem cautious_of_not_grantsInVain {s : TxnStore} {clock : Clock} {id : TxnId}
    {txn : Transaction} (h : s.grantsInVain clock id txn = false) :
    s.Cautious (.prepare clock id txn true) := by
  cases s with
  | occ s => trivial
  | lock s =>
      intro _ hrefused hgrants
      rw [Ne, s.prepare_ok_iff, Bool.not_eq_true] at hrefused
      simp only [grantsInVain, hrefused, Bool.not_false, Bool.true_and,
        decide_eq_false_iff_not] at h
      exact h hgrants

end TxnStore

end D2PC
