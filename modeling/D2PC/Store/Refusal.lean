import D2PC.Store.Operations

/-!
# Refused prepares of the locking store

`getLocks` asks for one lock after the other. A refusal is only remembered, a stale read
aborts the transaction, and in both cases the locks granted before stay with a transaction
that is not entered among the prepared ones; `Abort` acts on prepared transactions only.

A refused prepare therefore leaves the locks as they were exactly when none of its requests
is granted anew, and as long as this is so every holder of a lock is prepared.

* `LockStore.readRequests`, `LockStore.writeRequests` : the locks a prepare asks for;
* `LockStore.prepare_lock` : every lock after a prepare, from the lock before it;
* `TxnStore.refused_prepare_atomic` : when a refused prepare leaves the locks alone, and that
  holders are prepared.
-/

namespace D2PC

namespace Lock

/-- `r` holds the lock in the same modes. -/
def SameHeld (r : TxnId) (l l' : Lock) : Prop :=
  (l'.ReadHeld r ↔ l.ReadHeld r) ∧ (l'.WriteHeld r ↔ l.WriteHeld r)

theorem SameHeld.refl (r : TxnId) (l : Lock) : SameHeld r l l := ⟨Iff.rfl, Iff.rfl⟩

theorem SameHeld.trans {r : TxnId} {l l' l'' : Lock} (h : SameHeld r l l')
    (h' : SameHeld r l' l'') : SameHeld r l l'' :=
  ⟨h'.1.trans h.1, h'.2.trans h.2⟩

theorem SameHolders.sameHeld {l l' : Lock} (h : SameHolders l l') (r : TxnId) :
    SameHeld r l l' := by
  unfold SameHeld ReadHeld WriteHeld
  rw [h.state, h.holders]
  exact ⟨Iff.rfl, Iff.rfl⟩

/-- The read lock is granted to a requester that does not hold it for reading yet. -/
def GrantsRead (l : Lock) (r : TxnId) (times : Timeval × Timeval) : Prop :=
  (l.lockForRead r times.1 times.2).1 = true ∧ ¬ l.ReadHeld r

/-- The write lock is granted to a requester that does not hold it for writing yet. -/
def GrantsWrite (l : Lock) (r : TxnId) (times : Timeval × Timeval) : Prop :=
  (l.lockForWrite r times.1 times.2).1 = true ∧ ¬ l.WriteHeld r

instance (l : Lock) (r : TxnId) : Decidable (l.ReadHeld r) :=
  inferInstanceAs (Decidable (_ ∧ _))

instance (l : Lock) (r : TxnId) : Decidable (l.WriteHeld r) :=
  inferInstanceAs (Decidable (_ ∧ _))

instance (l : Lock) (r : TxnId) (times : Timeval × Timeval) : Decidable (l.GrantsRead r times) :=
  inferInstanceAs (Decidable (_ ∧ _))

instance (l : Lock) (r : TxnId) (times : Timeval × Timeval) : Decidable (l.GrantsWrite r times) :=
  inferInstanceAs (Decidable (_ ∧ _))

variable {l : Lock} {r : TxnId} {times : Timeval × Timeval}

/-- A request for the read lock that grants nothing new changes nothing for its requester. -/
theorem lockForRead_sameHeld (h : ¬ l.GrantsRead r times) :
    SameHeld r l (l.lockForRead r times.1 times.2).2 := by
  unfold GrantsRead lockForRead at h
  unfold lockForRead
  split at h
  · have hsame := tryAcquireLock_same l r false times.1 times.2
    rename_i hst
    split at h
    · -- a free lock is held by nobody, so it would be granted anew
      refine absurd ⟨rfl, ?_⟩ h
      rintro ⟨hread | hread, _⟩
      · rw [hst] at hread
        cases hread
      · rw [hst] at hread
        cases hread
    · rename_i l' heq
      rw [heq] at hsame
      exact hsame.sameHeld r
  · rename_i hst
    split_ifs at h ⊢ with hmem
    · exact SameHeld.refl r l
    · have hsame := isWriteNext_same l times.1
      split at h
      · rename_i l' heq
        rw [heq] at hsame
        exact (hsame.sameHeld r).trans ((waitForLock_same _ _ _ _).sameHeld r)
      · exact absurd ⟨rfl, fun hheld => hmem hheld.2⟩ h
  · rename_i hunlocked hread
    split_ifs at h ⊢ with hmem
    · have hst : l.state = .lockedForReadWrite := by
        by_contra hne
        refine h ⟨rfl, ?_⟩
        rintro ⟨hst | hst, _⟩
        · exact hread hst
        · exact hne hst
      have hsame : SameHolders l { l with state := .lockedForReadWrite } := ⟨hst.symm, rfl⟩
      exact hsame.sameHeld r
    · exact (waitForLock_same _ _ _ _).sameHeld r

/-- The same for the write lock. -/
theorem lockForWrite_sameHeld (h : ¬ l.GrantsWrite r times) :
    SameHeld r l (l.lockForWrite r times.1 times.2).2 := by
  unfold GrantsWrite lockForWrite at h
  unfold lockForWrite
  split at h
  · have hsame := tryAcquireLock_same l r true times.1 times.2
    rename_i hst
    split at h
    · refine absurd ⟨rfl, ?_⟩ h
      rintro ⟨hwrite | hwrite, _⟩
      · rw [hst] at hwrite
        cases hwrite
      · rw [hst] at hwrite
        cases hwrite
    · rename_i l' heq
      rw [heq] at hsame
      exact hsame.sameHeld r
  · rename_i hst
    split_ifs at h ⊢ with hone
    · refine absurd ⟨rfl, ?_⟩ h
      rintro ⟨hwrite | hwrite, _⟩
      · rw [hst] at hwrite
        cases hwrite
      · rw [hst] at hwrite
        cases hwrite
    · exact (waitForLock_same _ _ _ _).sameHeld r
  · split_ifs
    · exact SameHeld.refl r l
    · exact (waitForLock_same _ _ _ _).sameHeld r

/-- Asking for the write lock gives up no read lock. -/
theorem lockForWrite_readHeld (h : l.ReadHeld r) (times : Timeval × Timeval) :
    (l.lockForWrite r times.1 times.2).2.ReadHeld r := by
  obtain ⟨hst | hst, hmem⟩ := h
  · simp only [lockForWrite, hst]
    split_ifs
    · exact ⟨.inr rfl, hmem⟩
    · exact ReadHeld.of_same ⟨.inl hst, hmem⟩ (waitForLock_same _ _ _ _)
  · simp only [lockForWrite, hst, if_pos hmem]
    exact ⟨.inr hst, hmem⟩

/-- A holder of a consistent lock holds it in some mode. -/
theorem Valid.held (hl : l.Valid) (hmem : r ∈ l.holders) : l.ReadHeld r ∨ l.WriteHeld r := by
  cases hst : l.state with
  | unlocked =>
      rw [hl.unlocked.1 hst] at hmem
      exact absurd hmem (Finset.notMem_empty r)
  | lockedForRead => exact .inl ⟨.inl hst, hmem⟩
  | lockedForWrite => exact .inr ⟨.inl hst, hmem⟩
  | lockedForReadWrite => exact .inl ⟨.inr hst, hmem⟩

end Lock

namespace LockStore

/-- The version that was read has been overwritten. -/
def stale (s : LockStore) (read : Key × Timestamp) : Bool :=
  match s.store.get read.1 with
  | none => false
  | some cur => decide (read.2 < cur.1)

/-- The reads of a list whose lock is asked for: up to the first stale one, those of keys that
have a version. -/
def requested (s : LockStore) (reads : List (Key × Timestamp)) : List Key :=
  ((reads.takeWhile fun r => !s.stale r).filter fun r => (s.store.get r.1).isSome).map Prod.fst

/-- The keys whose read lock a prepare asks for. -/
def readRequests (s : LockStore) (txn : Transaction) : List Key := s.requested txn.readSet.toList

/-- The keys whose write lock a prepare asks for: none after a stale read. -/
def writeRequests (s : LockStore) (txn : Transaction) : List Key :=
  if txn.readSet.toList.any s.stale then [] else txn.writeSet.toList.map Prod.fst

/-- The lock of a key when the reads have been gone through. -/
def readTried (s : LockStore) (clock : Clock) (id : TxnId) (keys : List Key) (key : Key) : Lock :=
  if key ∈ keys then
    ((s.locks.lock key).lockForRead id (clock false key).1 (clock false key).2).2
  else s.locks.lock key

/-- The lock of a key when the writes have been gone through. -/
def writeTried (clock : Clock) (id : TxnId) (keys : List Key) (key : Key) (l : Lock) : Lock :=
  if key ∈ keys then (l.lockForWrite id (clock true key).1 (clock true key).2).2 else l

/-- Some request of the prepare is granted anew. A key that is both read and written is asked
for twice, the second time as the first request left it. -/
def GrantsAnew (s : LockStore) (clock : Clock) (id : TxnId) (txn : Transaction) : Prop :=
  (∃ key ∈ s.readRequests txn, (s.locks.lock key).GrantsRead id (clock false key)) ∨
  ∃ key ∈ s.writeRequests txn,
    (s.readTried clock id (s.readRequests txn) key).GrantsWrite id (clock true key)

instance (s : LockStore) (clock : Clock) (id : TxnId) (txn : Transaction) :
    Decidable (s.GrantsAnew clock id txn) :=
  inferInstanceAs (Decidable (_ ∨ _))

/-! ### The locks after a prepare -/

variable {s : LockStore} {id : TxnId}

theorem requested_cons (read : Key × Timestamp) (reads : List (Key × Timestamp)) :
    s.requested (read :: reads) =
      if s.stale read then [] else
        if (s.store.get read.1).isSome then read.1 :: s.requested reads else s.requested reads := by
  unfold requested
  cases hstale : s.stale read with
  | true => simp [hstale]
  | false =>
      cases hsome : (s.store.get read.1).isSome with
      | true => simp [hstale, hsome]
      | false => simp [hstale, hsome]

theorem mem_requested {reads : List (Key × Timestamp)} {key : Key}
    (h : key ∈ s.requested reads) : key ∈ reads.map Prod.fst := by
  obtain ⟨read, hread, rfl⟩ := List.mem_map.1 h
  exact List.mem_map_of_mem
    ((List.takeWhile_prefix _).subset (List.mem_of_mem_filter hread))

/-- Reads that ask for their locks, each once: the lock of every key afterwards, and whether
the loop aborted. -/
theorem lockReads_lock (clock : Clock) {reads : List (Key × Timestamp)}
    (hnodup : (reads.map Prod.fst).Nodup) (ret : ℕ) (hret : ret ≠ replyAbort)
    (hnew : id ∉ s.prepared) :
    (∀ key, (lockReads clock id reads ret s).2.locks.lock key =
      s.readTried clock id (s.requested reads) key) ∧
    ((lockReads clock id reads ret s).1 = replyAbort ↔ reads.any s.stale = true) := by
  induction reads generalizing ret s with
  | nil =>
      refine ⟨fun key => rfl, ?_⟩
      simp [lockReads, hret]
  | cons read reads ih =>
      rw [List.map_cons, List.nodup_cons] at hnodup
      obtain ⟨hhead, htail⟩ := hnodup
      rw [requested_cons, List.any_cons]
      cases hget : s.store.get read.1 with
      | none =>
          have hfresh : s.stale read = false := by simp [stale, hget]
          rw [lockReads_absent hget, hfresh, Bool.false_or]
          exact ih htail ret hret hnew
      | some cur =>
          by_cases hlt : read.2 < cur.1
          · have hstale : s.stale read = true := by simp [stale, hget, hlt]
            rw [lockReads_stale hget hlt, abort_eq_of_not_prepared hnew, hstale]
            exact ⟨fun key => rfl, by simp⟩
          · have hfresh : s.stale read = false := by simp [stale, hget, hlt]
            have hret' : (if (s.locks.lockForRead read.1 id (clock false read.1).1
                (clock false read.1).2).1 then ret else replyFail) ≠ replyAbort := by
              split_ifs
              · exact hret
              · decide
            obtain ⟨hlocks, habort⟩ := ih (s := { s with locks := (s.locks.lockForRead read.1 id
              (clock false read.1).1 (clock false read.1).2).2 }) htail _ hret' hnew
            rw [lockReads_fresh hget hlt, hfresh, Bool.false_or]
            refine ⟨?_, habort⟩
            intro key
            rw [hlocks]
            show readTried _ clock id (s.requested reads) key =
              readTried _ clock id (read.1 :: s.requested reads) key
            -- the key of this read is not asked for again
            have hnot : read.1 ∉ s.requested reads := fun hmem => hhead (mem_requested hmem)
            unfold readTried LockServer.lockForRead
            simp only [LockServer.lock_insert, List.mem_cons]
            by_cases hkey : key = read.1
            · subst hkey
              simp [hnot]
            · simp only [hkey, if_false, false_or]

theorem lockWrites_lock (clock : Clock) {writes : List (Key × Value)}
    (hnodup : (writes.map Prod.fst).Nodup) (ret : ℕ) (key : Key) :
    (lockWrites clock id writes ret s).2.locks.lock key =
      writeTried clock id (writes.map Prod.fst) key (s.locks.lock key) := by
  induction writes generalizing ret s with
  | nil => rfl
  | cons write writes ih =>
      rw [List.map_cons, List.nodup_cons] at hnodup
      obtain ⟨hhead, htail⟩ := hnodup
      simp only [lockWrites]
      rw [ih htail]
      unfold writeTried LockServer.lockForWrite
      simp only [LockServer.lock_insert, List.map_cons, List.mem_cons]
      by_cases hkey : key = write.1
      · subst hkey
        simp [hhead]
      · simp only [hkey, if_false, false_or]

/-- **The locks after a prepare.** Every lock is what the requests for its key make of it. -/
theorem prepare_lock (clock : Clock) (txn : Transaction) (hnew : id ∉ s.prepared) (key : Key) :
    (s.prepare clock id txn true).2.locks.lock key =
      writeTried clock id (s.writeRequests txn) key
        (s.readTried clock id (s.readRequests txn) key) := by
  have hprepare : (s.prepare clock id txn true).2.locks = (s.getLocks clock id txn).2.locks := by
    unfold prepare
    rw [if_neg hnew, if_pos rfl]
    dsimp only
    split
    · rfl
    · rfl
  obtain ⟨hreads, habort⟩ := lockReads_lock clock txn.readSet.toList_nodup replyOk
    (by decide) hnew
  rw [hprepare]
  unfold getLocks writeRequests
  by_cases hany : txn.readSet.toList.any s.stale = true
  · rw [if_pos hany]
    dsimp only
    rw [if_pos (habort.2 hany), hreads]
    rfl
  · rw [if_neg hany]
    dsimp only
    rw [if_neg fun h => hany (habort.1 h), lockWrites_lock clock txn.writeSet.toList_nodup, hreads]
    rfl

/-- Without a stale read a prepare pre-commits and forgets nothing. -/
theorem prepare_fresh_precommitted (s : LockStore) (clock : Clock) {txn : Transaction}
    (hnew : id ∉ s.prepared) (hfresh : txn.readSet.toList.any s.stale = false) :
    (s.prepare clock id txn true).2.precommitted = s.precommitted := by
  obtain ⟨_, habort⟩ := lockReads_lock clock txn.readSet.toList_nodup replyOk (by decide) hnew
  have hne : (lockReads clock id txn.readSet.toList replyOk s).1 ≠ replyAbort := by
    intro heq
    rw [habort, hfresh] at heq
    cases heq
  have hlocks : (s.getLocks clock id txn).2.precommitted = s.precommitted := by
    rcases lockReads_cases clock id txn.readSet.toList replyOk s (by decide) with
      ⟨_, hacq, _⟩ | ⟨s', _, heq⟩
    · unfold getLocks
      dsimp only
      rw [if_neg hne, (lockWrites_acquires clock id txn.writeSet.toList _ _).precommitted]
      exact hacq.precommitted
    · exact absurd (by rw [heq]) hne
  unfold prepare
  rw [if_neg hnew, if_pos rfl]
  dsimp only
  split
  · exact hlocks
  · exact hlocks

/-! ### What a refused prepare leaves -/

theorem readTried_sameHeld {clock : Clock} {keys : List Key} {key : Key}
    (h : key ∈ keys → ¬ (s.locks.lock key).GrantsRead id (clock false key)) :
    Lock.SameHeld id (s.locks.lock key) (s.readTried clock id keys key) := by
  unfold readTried
  split_ifs with hmem
  · exact Lock.lockForRead_sameHeld (h hmem)
  · exact Lock.SameHeld.refl _ _

theorem writeTried_sameHeld {clock : Clock} {keys : List Key} {key : Key} {l : Lock}
    (h : key ∈ keys → ¬ l.GrantsWrite id (clock true key)) :
    Lock.SameHeld id l (writeTried clock id keys key l) := by
  unfold writeTried
  split_ifs with hmem
  · exact Lock.lockForWrite_sameHeld (h hmem)
  · exact Lock.SameHeld.refl _ _

/-- A prepare leaves every lock of its transaction as it was if and only if none of its
requests is granted anew: later requests take nothing back. -/
theorem prepare_sameHeld_iff (clock : Clock) (txn : Transaction) (hnew : id ∉ s.prepared) :
    (∀ key, Lock.SameHeld id (s.locks.lock key)
      ((s.prepare clock id txn true).2.locks.lock key)) ↔ ¬ s.GrantsAnew clock id txn := by
  constructor
  · rintro hsame (⟨key, hkey, hgranted, hnot⟩ | ⟨key, hkey, hgranted, hnot⟩)
    · -- a new read lock is still held after the write lock was asked for
      apply hnot
      apply (hsame key).1.1
      have hread : (s.readTried clock id (s.readRequests txn) key).ReadHeld id := by
        unfold readTried
        rw [if_pos hkey]
        exact Lock.granted_readHeld hgranted
      rw [prepare_lock clock txn hnew]
      unfold writeTried
      split_ifs
      · exact Lock.lockForWrite_readHeld hread _
      · exact hread
    · -- a new write lock was not held before the reads either
      have hbefore : ¬ (s.locks.lock key).WriteHeld id := by
        intro hheld
        apply hnot
        unfold readTried
        split_ifs
        · exact Lock.lockForRead_writeHeld hheld _ _
        · exact hheld
      apply hbefore
      apply (hsame key).2.1
      rw [prepare_lock clock txn hnew]
      unfold writeTried
      rw [if_pos hkey]
      exact Lock.lockForWrite_granted hgranted
  · intro hnone key
    rw [prepare_lock clock txn hnew]
    have hreads : Lock.SameHeld id (s.locks.lock key)
        (s.readTried clock id (s.readRequests txn) key) :=
      readTried_sameHeld fun hkey hgrants => hnone (.inl ⟨key, hkey, hgrants⟩)
    exact hreads.trans (writeTried_sameHeld fun hkey hgrants => hnone (.inr ⟨key, hkey, hgrants⟩))

end LockStore

namespace TxnStore

/-! ### Every holder is prepared -/

/-- A prepare that the locking store refuses is granted no lock anew. -/
def Cautious : TxnStore → Call → Prop
  | .lock s, .prepare clock id txn true =>
      id ∉ s.prepared → (s.prepare clock id txn true).1 ≠ replyOk → ¬ s.GrantsAnew clock id txn
  | _, _ => True

theorem preCommit_owned {s : TxnStore} {id : TxnId} (h : s.Owned id) (id' : TxnId) :
    (s.preCommit id').Owned id := by
  cases s with
  | occ s => trivial
  | lock s =>
      cases htxn : s.prepared.lookup id' with
      | some txn =>
          refine owned_drop h htxn ?_ rfl
          simp only [LockStore.preCommit, htxn, Option.getD_some]
      | none =>
          -- nothing is prepared, nothing is dropped
          have herase : s.prepared.erase id' = s.prepared :=
            erase_of_notMem (AList.lookup_eq_none.1 htxn)
          show (TxnStore.lock (s.preCommit id')).Owned id
          rw [owned_lock]
          simp only [LockStore.preCommit, htxn, herase]
          exact h

/-- A checked prepare that does not enter its transaction was refused. -/
theorem refused_of_not_entered {s : LockStore} {clock : Clock} {id : TxnId} {txn : Transaction}
    (hnot : id ∉ (s.prepare clock id txn true).2.prepared) :
    id ∉ s.prepared ∧ (s.prepare clock id txn true).1 ≠ replyOk := by
  rcases s.prepare_cases clock id txn with ⟨hp, heq⟩ | ⟨hnew, s', _, hcases⟩
  · rw [heq] at hnot
    exact absurd hp hnot
  · refine ⟨hnew, ?_⟩
    rcases hcases with ⟨_, heq⟩ | ⟨ret, hret, heq⟩ | heq
    · rw [heq] at hnot
      exact absurd ((AList.mem_insert _).2 (.inl rfl)) hnot
    · rw [heq]
      exact hret
    · rw [heq]
      show replyAbort ≠ replyOk
      decide

/-- A refused prepare that is granted nothing anew leaves its transaction without locks. -/
theorem prepare_owned_cautious {s : TxnStore} {id : TxnId} (h : s.Owned id) {clock : Clock}
    {id' : TxnId} {txn : Transaction} {doCheck : Bool}
    (hcond : s.Cautious (.prepare clock id' txn doCheck)) :
    (s.prepare clock id' txn doCheck).2.Owned id := by
  by_cases hid : id = id'
  · subst hid
    apply prepare_owned h
    intro hnot key
    cases s with
    | occ s => exact not_false
    | lock s =>
        cases doCheck with
        | false =>
            rw [(prepare_unchecked (.lock s) clock id txn).2.1] at hnot
            split_ifs at hnot with hp
            · exact absurd hp hnot
            · exact absurd ((AList.mem_insert _).2 (.inl rfl)) hnot
        | true =>
            obtain ⟨hnew, hrefused⟩ := refused_of_not_entered hnot
            have hlaw := owned_lock.1 h
            rw [AList.lookup_eq_none.2 hnew] at hlaw
            have hfree : id ∉ (s.locks.lock key).holders := not_held hlaw
            obtain ⟨hread, hwrite⟩ :=
              (LockStore.prepare_sameHeld_iff clock txn hnew).2 (hcond hnew hrefused) key
            have hvalid : ((s.prepare clock id txn true).2.locks.lock key).Valid := by
              have hany := lawful_of_free (fun key => (hlaw key).1) (fun key => not_held hlaw) txn
              exact (LockStore.prepare_lawful clock (fun _ hkey _ => hkey) (fun _ hkey _ => hkey)
                hany key).1
            intro hmem
            rcases hvalid.held hmem with hheld | hheld
            · exact hfree (hread.1 hheld).2
            · exact hfree (hwrite.1 hheld).2
  · exact prepare_owned_other h hid clock txn doCheck

theorem call_owned {s : TxnStore} (h : ∀ id, s.Owned id) {op : Call} (hcond : s.Cautious op)
    (id : TxnId) : (s.call op).Owned id := by
  cases op with
  | load key value timestamp =>
      cases s with
      | occ s => trivial
      | lock s => exact h id
  | prepare clock id' txn doCheck => exact prepare_owned_cautious (h id) hcond
  | preCommit id' => exact preCommit_owned (h id) id'
  | commit id' timestamp => exact commit_owned (h id) id' timestamp
  | abort id' => exact abort_owned (h id) id'

/-- **Refused prepares.** A prepare that is refused leaves its transaction the locks it held if
and only if none of its requests is granted anew. After any calls whose refused prepares are of
this kind, every holder of a lock is prepared. -/
theorem refused_prepare_atomic (ops : List Call) :
    (∀ (s : LockStore) (clock : Clock) (id : TxnId) (txn : Transaction), id ∉ s.prepared →
      (s.prepare clock id txn true).1 ≠ replyOk →
        ((∀ key, Lock.SameHeld id (s.locks.lock key)
          ((s.prepare clock id txn true).2.locks.lock key)) ↔ ¬ s.GrantsAnew clock id txn)) ∧
    (Calls.Throughout call Cautious (.lock {}) ops → ∀ id key,
      (after (.lock {}) ops).lockedBy id key → id ∈ (after (.lock {}) ops).prepared) := by
  refine ⟨fun s clock id txn hnew _ => LockStore.prepare_sameHeld_iff clock txn hnew, ?_⟩
  intro hops id key hlocked
  have hstart : ∀ id, (TxnStore.lock {}).Owned id := by
    intro id key
    refine ⟨LockServer.after_valid [] key, ?_⟩
    intro r hr
    exact absurd hr (Finset.notMem_empty r)
  have howned : ∀ id, (after (.lock {}) ops).Owned id :=
    hops.invariant (J := fun s => ∀ id, s.Owned id) hstart fun s op h hcond => call_owned h hcond
  by_contra hnot
  exact (howned id).free (AList.lookup_eq_none.2 hnot) key hlocked

/-- A transaction that only writes. -/
def writing (id : TxnId) (writes : List (Key × Value)) : Transaction :=
  { id := id, writeSet := Table.ofList writes }

/-- Transaction 1 holds a key that transaction 2 also wants to write. -/
def contended : LockStore := (LockStore.prepare {} stopped 1 (writing 1 [("k", "1")]) true).2

/-- The two prepares, on a new store. -/
def contention (writes : List (Key × Value)) : List Call :=
  [.prepare stopped 1 (writing 1 [("k", "1")]) true, .prepare stopped 2 (writing 2 writes) true]

/-- Where the key is all it wants, transaction 2 is left without a lock. -/
theorem refused_prepare_atomic_contended :
    2 ∉ contended.prepared ∧
    (contended.prepare stopped 2 (writing 2 [("k", "2")]) true).1 ≠ replyOk ∧
    (∀ key, Lock.SameHeld 2 (contended.locks.lock key)
      ((contended.prepare stopped 2 (writing 2 [("k", "2")]) true).2.locks.lock key)) ∧
    1 ∈ (after (.lock {}) (contention [("k", "2")])).prepared := by
  have hnew : 2 ∉ contended.prepared := by decide +kernel
  have hrefused : (contended.prepare stopped 2 (writing 2 [("k", "2")]) true).1 ≠ replyOk := by
    decide +kernel
  have hnone : ¬ contended.GrantsAnew stopped 2 (writing 2 [("k", "2")]) := by decide +kernel
  obtain ⟨hatomic, hholders⟩ := refused_prepare_atomic (contention [("k", "2")])
  refine ⟨hnew, hrefused, (hatomic _ _ _ _ hnew hrefused).2 hnone, ?_⟩
  have hcautious : Calls.Throughout call Cautious (.lock {}) (contention [("k", "2")]) := by
    refine ⟨?_, ?_, trivial⟩
    · intro _ hfirst
      exact absurd (by decide +kernel) hfirst
    · intro _ _
      exact hnone
  apply hholders hcautious 1 "k"
  show 1 ∈ _
  decide +kernel

/-- Where it also wants a free key, it is refused and keeps the lock of that key. -/
theorem refused_prepare_keeps_lock :
    2 ∉ contended.prepared ∧
    (contended.prepare stopped 2 (writing 2 [("a", "2"), ("k", "2")]) true).1 ≠ replyOk ∧
    ¬ (∀ key, Lock.SameHeld 2 (contended.locks.lock key)
      ((contended.prepare stopped 2 (writing 2 [("a", "2"), ("k", "2")]) true).2.locks.lock key)) ∧
    (after (.lock {}) (contention [("a", "2"), ("k", "2")])).lockedBy 2 "a" ∧
    2 ∉ (after (.lock {}) (contention [("a", "2"), ("k", "2")])).prepared := by
  refine ⟨by decide +kernel, by decide +kernel, ?_, ?_, by decide +kernel⟩
  · intro hsame
    exact absurd ((hsame "a").2.1 (by decide +kernel)) (by decide +kernel)
  · show 2 ∈ _
    decide +kernel

end TxnStore

end D2PC
