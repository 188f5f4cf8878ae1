import Mathlib.Data.Finset.Card
import Mathlib.Data.Finset.Insert
import D2PC.Types

/-!
# The lock server

`LockServer` of `store/common/backend/lockserver.cc`: multi-reader, single-writer locks with
a queue of waiters that time out. The clock is read inside the calls; every call takes its
readings as arguments.

* `Lock.Valid` : no holder when unlocked, one holder when locked for writing;
* `Lock.lockForRead_spec`, `Lock.lockForWrite_spec` : a granted request is held;
* `Lock.Keeps` : a call by one requester takes nothing from another.
-/

namespace D2PC

/-- A reading of `gettimeofday`. -/
structure Timeval where
  sec : ℕ := 0
  usec : ℕ := 0
  deriving DecidableEq, Repr

/-- `LOCK_WAIT_TIMEOUT`, in microseconds. -/
def lockWaitTimeout : ℕ := 5000

inductive LockState where
  | unlocked | lockedForRead | lockedForWrite | lockedForReadWrite
  deriving DecidableEq, Repr

/-- An entry of a wait queue. -/
structure Waiter where
  write : Bool := false
  waitTime : Timeval := {}
  deriving Repr

/-- The seconds decide; within one second the microseconds. -/
def Waiter.checkTimeout (w : Waiter) (now : Timeval) : Bool :=
  decide (w.waitTime.sec < now.sec) || decide (lockWaitTimeout < now.usec - w.waitTime.usec)

/-- One lock. -/
structure Lock where
  state : LockState := .unlocked
  holders : Finset TxnId := ∅
  waitQ : List TxnId := []
  waiters : Table TxnId Waiter := ∅

namespace Lock

/-- Queue up, unless already waiting. -/
def waitForLock (l : Lock) (requester : TxnId) (write : Bool) (now : Timeval) : Lock :=
  if requester ∈ l.waiters then l
  else { l with
    waiters := l.waiters.insert requester ⟨write, now⟩
    waitQ := l.waitQ ++ [requester] }

/-- Drop timed-out requests from the front of the queue. -/
def prune (now : Timeval) : List TxnId → Table TxnId Waiter → List TxnId × Table TxnId Waiter
  | [], waiters => ([], waiters)
  | w :: q, waiters =>
      if ((waiters.lookup w).getD {}).checkTimeout now then prune now q (waiters.erase w)
      else (w :: q, waiters)

/-- Whether the requester may take a free lock: nobody waits, or it is first in the queue. -/
def tryAcquireLock (l : Lock) (requester : TxnId) (write : Bool) (now now' : Timeval) :
    Bool × Lock :=
  match prune now l.waitQ l.waiters with
  | ([], waiters) => (true, { l with waitQ := [], waiters := waiters })
  | (w :: rest, waiters) =>
      if w = requester then (true, { l with waitQ := rest, waiters := waiters.erase requester })
      else (false, waitForLock { l with waitQ := w :: rest, waiters := waiters }
        requester write now')

/-- Whether the first live request of the queue is for writing. -/
def isWriteNext (l : Lock) (now : Timeval) : Bool × Lock :=
  match prune now l.waitQ l.waiters with
  | ([], waiters) => (false, { l with waitQ := [], waiters := waiters })
  | (w :: rest, waiters) =>
      (((waiters.lookup w).getD {}).write, { l with waitQ := w :: rest, waiters := waiters })

/-- `lockForRead` on one lock. -/
def lockForRead (l : Lock) (requester : TxnId) (now now' : Timeval) : Bool × Lock :=
  match l.state with
  | .unlocked =>
      match l.tryAcquireLock requester false now now' with
      | (true, l) =>
          (true, { l with state := .lockedForRead, holders := insert requester l.holders })
      | (false, l) => (false, l)
  | .lockedForRead =>
      if requester ∈ l.holders then (true, l)
      else
        match l.isWriteNext now with
        | (true, l) => (false, l.waitForLock requester false now')
        | (false, l) => (true, { l with holders := insert requester l.holders })
  | _ =>
      if requester ∈ l.holders then (true, { l with state := .lockedForReadWrite })
      else (false, l.waitForLock requester false now)

/-- `lockForWrite` on one lock. -/
def lockForWrite (l : Lock) (requester : TxnId) (now now' : Timeval) : Bool × Lock :=
  match l.state with
  | .unlocked =>
      match l.tryAcquireLock requester true now now' with
      | (true, l) =>
          (true, { l with state := .lockedForWrite, holders := insert requester l.holders })
      | (false, l) => (false, l)
  | .lockedForRead =>
      if l.holders.card = 1 ∧ requester ∈ l.holders then
        (true, { l with state := .lockedForReadWrite })
      else (false, l.waitForLock requester true now)
  | _ =>
      if requester ∈ l.holders then (true, l)
      else (false, l.waitForLock requester true now)

/-- `releaseForRead` on one lock. -/
def releaseForRead (l : Lock) (holder : TxnId) : Lock :=
  if holder ∈ l.holders then
    match l.state with
    | .unlocked | .lockedForWrite => l
    | .lockedForRead =>
        if l.holders.erase holder = ∅ then
          { l with holders := l.holders.erase holder, state := .unlocked }
        else { l with holders := l.holders.erase holder }
    | .lockedForReadWrite => { l with state := .lockedForWrite }
  else l

/-- `releaseForWrite` on one lock. -/
def releaseForWrite (l : Lock) (holder : TxnId) : Lock :=
  if holder ∈ l.holders then
    match l.state with
    | .unlocked | .lockedForRead => l
    | .lockedForWrite => { l with holders := l.holders.erase holder, state := .unlocked }
    | .lockedForReadWrite => { l with state := .lockedForRead }
  else l

/-! ### Exclusion -/

/-- The state and the holders of a lock agree. -/
structure Valid (l : Lock) : Prop where
  unlocked : l.state = .unlocked ↔ l.holders = ∅
  write : l.state = .lockedForWrite ∨ l.state = .lockedForReadWrite → l.holders.card = 1

/-- `r` holds the lock for writing. -/
def WriteHeld (l : Lock) (r : TxnId) : Prop :=
  (l.state = .lockedForWrite ∨ l.state = .lockedForReadWrite) ∧ r ∈ l.holders

theorem Valid.eq_of_writeHeld {l : Lock} (hl : l.Valid) {r r' : TxnId} (hw : l.WriteHeld r)
    (hr : r' ∈ l.holders) : r' = r :=
  Finset.card_le_one.1 (hl.write hw.1).le r' hr r hw.2

/-- What `r` holds in `l` it holds in `l'`. -/
structure Keeps (r : TxnId) (l l' : Lock) : Prop where
  held : r ∈ l.holders → r ∈ l'.holders
  write : l.WriteHeld r → l'.WriteHeld r

/-- The queue is invisible to the holders. -/
structure SameHolders (l l' : Lock) : Prop where
  state : l'.state = l.state
  holders : l'.holders = l.holders

theorem SameHolders.valid {l l' : Lock} (h : SameHolders l l') (hl : l.Valid) : l'.Valid :=
  ⟨by rw [h.state, h.holders]; exact hl.unlocked, by rw [h.state, h.holders]; exact hl.write⟩

theorem SameHolders.keeps {l l' : Lock} (h : SameHolders l l') (r : TxnId) : Keeps r l l' :=
  ⟨by rw [h.holders]; exact id, by unfold WriteHeld; rw [h.state, h.holders]; exact id⟩

theorem waitForLock_same (l : Lock) (r : TxnId) (w : Bool) (now : Timeval) :
    SameHolders l (l.waitForLock r w now) := by
  unfold waitForLock
  split_ifs <;> exact ⟨rfl, rfl⟩

theorem tryAcquireLock_same (l : Lock) (r : TxnId) (w : Bool) (now now' : Timeval) :
    SameHolders l (l.tryAcquireLock r w now now').2 := by
  unfold tryAcquireLock
  split
  · exact ⟨rfl, rfl⟩
  · rename_i w' rest waiters _
    split_ifs
    · exact ⟨rfl, rfl⟩
    · obtain ⟨hs, hh⟩ :=
        waitForLock_same { l with waitQ := w' :: rest, waiters := waiters } r w now'
      exact ⟨hs, hh⟩

theorem isWriteNext_same (l : Lock) (now : Timeval) : SameHolders l (l.isWriteNext now).2 := by
  unfold isWriteNext
  split <;> exact ⟨rfl, rfl⟩

/-- What a call by `r` has to respect: the lock stays consistent, and others keep what they
hold. -/
structure Respects (r : TxnId) (l l' : Lock) : Prop where
  valid : l.Valid → l'.Valid
  keeps : l.Valid → ∀ r', r' ≠ r → Keeps r' l l'

theorem SameHolders.respects {l l' : Lock} (h : SameHolders l l') (r : TxnId) :
    Respects r l l' :=
  ⟨h.valid, fun _ r' _ => h.keeps r'⟩

theorem Respects.trans {r : TxnId} {l l' l'' : Lock} (h : Respects r l l')
    (h' : Respects r l' l'') : Respects r l l'' := by
  refine ⟨h'.valid ∘ h.valid, fun hl r' hr' => ⟨fun hr => ?_, fun hw => ?_⟩⟩
  · exact (h'.keeps (h.valid hl) r' hr').held ((h.keeps hl r' hr').held hr)
  · exact (h'.keeps (h.valid hl) r' hr').write ((h.keeps hl r' hr').write hw)

/-- Taking a free lock, in either mode. -/
theorem respects_acquire {l : Lock} {r : TxnId} {st : LockState} (hst : st ≠ .unlocked)
    (hfree : l.state = .unlocked) :
    Respects r l { l with state := st, holders := insert r l.holders } := by
  constructor
  · intro hl
    have hnone : l.holders = ∅ := hl.unlocked.1 hfree
    refine ⟨⟨fun h => absurd h hst, fun h => absurd h (Finset.insert_ne_empty _ _)⟩, fun _ => ?_⟩
    simp [hnone]
  · intro hl r' _
    have hnone : l.holders = ∅ := hl.unlocked.1 hfree
    exact ⟨fun h => Finset.mem_insert_of_mem h, fun h => by simp [WriteHeld, hfree] at h⟩

/-- Changing the mode of a lock that only `r` holds. -/
theorem respects_setState {l : Lock} {r : TxnId} {st : LockState} (hst : st ≠ .unlocked)
    (hne : r ∈ l.holders) (hone : l.Valid → l.holders.card = 1) :
    Respects r l { l with state := st } := by
  constructor
  · intro hl
    refine ⟨⟨fun h => absurd h hst, fun h => ?_⟩, fun _ => hone hl⟩
    exact absurd hne (by rw [h]; exact Finset.notMem_empty r)
  · intro hl r' hr'
    have hnot : r' ∉ l.holders := fun h =>
      hr' (Finset.card_le_one.1 (hone hl).le r' h r hne)
    exact ⟨fun h => absurd h hnot, fun h => absurd h.2 hnot⟩

theorem lockForRead_respects (l : Lock) (r : TxnId) (now now' : Timeval) :
    Respects r l (l.lockForRead r now now').2 := by
  unfold lockForRead
  split
  · rename_i hst
    have hsame := tryAcquireLock_same l r false now now'
    split
    · rename_i l' heq
      rw [heq] at hsame
      exact (hsame.respects r).trans (respects_acquire (by decide) (hsame.state.trans hst))
    · rename_i l' heq
      rw [heq] at hsame
      exact hsame.respects r
  · rename_i hst
    split_ifs with hmem
    · exact SameHolders.respects ⟨rfl, rfl⟩ r
    · have hsame := isWriteNext_same l now
      split
      · rename_i l' heq
        rw [heq] at hsame
        exact (hsame.respects r).trans ((waitForLock_same _ _ _ _).respects r)
      · rename_i l' heq
        rw [heq] at hsame
        have hst' : l'.state = .lockedForRead := hsame.state.trans hst
        refine (hsame.respects r).trans ⟨fun hl => ⟨⟨fun h => ?_, fun h => ?_⟩, fun h => ?_⟩, ?_⟩
        · rw [hst'] at h; cases h
        · exact absurd h (Finset.insert_ne_empty _ _)
        · rw [hst'] at h; rcases h with h | h <;> cases h
        · exact fun _ r' _ => ⟨fun h => Finset.mem_insert_of_mem h,
            fun h => ⟨h.1, Finset.mem_insert_of_mem h.2⟩⟩
  · rename_i hread hunlocked
    have hwrite : l.state = .lockedForWrite ∨ l.state = .lockedForReadWrite := by
      cases hs : l.state <;> simp_all
    split_ifs with hmem
    · exact respects_setState (by decide) hmem fun hl => hl.write hwrite
    · exact (waitForLock_same _ _ _ _).respects r

theorem lockForWrite_respects (l : Lock) (r : TxnId) (now now' : Timeval) :
    Respects r l (l.lockForWrite r now now').2 := by
  unfold lockForWrite
  split
  · rename_i hst
    have hsame := tryAcquireLock_same l r true now now'
    split
    · rename_i l' heq
      rw [heq] at hsame
      exact (hsame.respects r).trans (respects_acquire (by decide) (hsame.state.trans hst))
    · rename_i l' heq
      rw [heq] at hsame
      exact hsame.respects r
  · split_ifs with hone
    · exact respects_setState (by decide) hone.2 fun _ => hone.1
    · exact (waitForLock_same _ _ _ _).respects r
  · split_ifs with hmem
    · exact SameHolders.respects ⟨rfl, rfl⟩ r
    · exact (waitForLock_same _ _ _ _).respects r

/-- Giving a lock up. -/
theorem respects_erase {l : Lock} {r : TxnId} {z : LockState}
    (hvalid : l.Valid → Valid { l with state := z, holders := l.holders.erase r })
    (hshared : l.state = .lockedForRead ∨ r ∈ l.holders ∧ (l.Valid → l.holders.card = 1)) :
    Respects r l { l with state := z, holders := l.holders.erase r } := by
  refine ⟨hvalid, fun hl r' hr' => ⟨fun h => Finset.mem_erase.2 ⟨hr', h⟩, fun h => ?_⟩⟩
  rcases hshared with hread | ⟨hmem, hone⟩
  · rcases h.1 with h | h <;> rw [hread] at h <;> cases h
  · exact absurd (Finset.card_le_one.1 (hone hl).le r' h.2 r hmem) hr'

theorem releaseForRead_respects (l : Lock) (r : TxnId) : Respects r l (l.releaseForRead r) := by
  by_cases hmem : r ∈ l.holders
  · rw [releaseForRead, if_pos hmem]
    split
    · exact SameHolders.respects ⟨rfl, rfl⟩ r
    · exact SameHolders.respects ⟨rfl, rfl⟩ r
    · rename_i hst
      split_ifs with hlast
      · refine respects_erase (fun _ => ⟨⟨fun _ => hlast, fun _ => rfl⟩, ?_⟩) (.inl hst)
        rintro (h | h) <;> cases h
      · refine respects_erase (z := l.state)
          (fun _ => ⟨⟨fun h => ?_, fun h => absurd h hlast⟩, fun h => ?_⟩) (.inl hst)
        · rw [hst] at h; cases h
        · rw [hst] at h; rcases h with h | h <;> cases h
    · rename_i hst
      exact respects_setState (by decide) hmem fun hl => hl.write (.inr hst)
  · rw [releaseForRead, if_neg hmem]
    exact SameHolders.respects ⟨rfl, rfl⟩ r

theorem releaseForWrite_respects (l : Lock) (r : TxnId) :
    Respects r l (l.releaseForWrite r) := by
  unfold releaseForWrite
  split_ifs with hmem
  · split
    · exact SameHolders.respects ⟨rfl, rfl⟩ r
    · exact SameHolders.respects ⟨rfl, rfl⟩ r
    · rename_i hst
      refine respects_erase (fun hl => ⟨⟨fun _ => ?_, fun _ => rfl⟩, ?_⟩)
        (.inr ⟨hmem, fun hl => hl.write (.inl hst)⟩)
      · have hcard := Finset.card_erase_of_mem hmem
        rw [hl.write (.inl hst)] at hcard
        exact Finset.card_eq_zero.1 hcard
      · rintro (h | h) <;> cases h
    · rename_i hst
      exact respects_setState (by decide) hmem fun hl => hl.write (.inr hst)
  · exact SameHolders.respects ⟨rfl, rfl⟩ r

/-- **Granted for reading.** -/
theorem lockForRead_granted {l : Lock} {r : TxnId} {now now' : Timeval}
    (h : (l.lockForRead r now now').1 = true) : r ∈ (l.lockForRead r now now').2.holders := by
  unfold lockForRead at h ⊢
  split at h
  · split at h
    · exact Finset.mem_insert_self _ _
    · cases h
  · split_ifs at h ⊢ with hmem
    · exact hmem
    · split at h
      · cases h
      · exact Finset.mem_insert_self _ _
  · split_ifs at h ⊢ with hmem
    exact hmem

/-- **Granted for writing.** -/
theorem lockForWrite_granted {l : Lock} {r : TxnId} {now now' : Timeval}
    (h : (l.lockForWrite r now now').1 = true) :
    (l.lockForWrite r now now').2.WriteHeld r := by
  unfold lockForWrite at h ⊢
  split at h
  · split at h
    · exact ⟨.inl rfl, Finset.mem_insert_self _ _⟩
    · cases h
  · split_ifs at h ⊢ with hone
    exact ⟨.inr rfl, hone.2⟩
  · rename_i hunlocked hread
    split_ifs at h ⊢ with hmem
    refine ⟨?_, hmem⟩
    cases hs : l.state <;> simp_all

/-- Asking for the write lock gives up no holder. -/
theorem lockForWrite_holders (l : Lock) (r : TxnId) (now now' : Timeval) :
    l.holders ⊆ (l.lockForWrite r now now').2.holders := by
  unfold lockForWrite
  split
  · have hsame := tryAcquireLock_same l r true now now'
    split
    · rename_i l' heq
      rw [heq] at hsame
      rw [← hsame.holders]
      exact Finset.subset_insert _ _
    · rename_i l' heq
      rw [heq] at hsame
      rw [← hsame.holders]
  · split_ifs
    · exact Finset.Subset.refl _
    · rw [(waitForLock_same _ _ _ _).holders]
  · split_ifs
    · exact Finset.Subset.refl _
    · rw [(waitForLock_same _ _ _ _).holders]

/-- Asking for the read lock gives up no holder. -/
theorem lockForRead_holders (l : Lock) (r : TxnId) (now now' : Timeval) :
    l.holders ⊆ (l.lockForRead r now now').2.holders := by
  unfold lockForRead
  split
  · have hsame := tryAcquireLock_same l r false now now'
    split
    · rename_i l' heq
      rw [heq] at hsame
      rw [← hsame.holders]
      exact Finset.subset_insert _ _
    · rename_i l' heq
      rw [heq] at hsame
      rw [← hsame.holders]
  · split_ifs
    · exact Finset.Subset.refl _
    · have hsame := isWriteNext_same l now
      split
      · rename_i l' heq
        rw [heq] at hsame
        rw [(waitForLock_same _ _ _ _).holders, ← hsame.holders]
      · rename_i l' heq
        rw [heq] at hsame
        rw [← hsame.holders]
        exact Finset.subset_insert _ _
  · split_ifs
    · exact Finset.Subset.refl _
    · rw [(waitForLock_same _ _ _ _).holders]

/-- A write holder that asks again changes nothing. -/
theorem lockForWrite_of_writeHeld {l : Lock} {r : TxnId} (h : l.WriteHeld r)
    (now now' : Timeval) : (l.lockForWrite r now now').2 = l := by
  obtain ⟨h | h, hmem⟩ := h <;> simp [lockForWrite, h, hmem]

/-- A write holder that asks for the read lock stays a write holder. -/
theorem lockForRead_writeHeld {l : Lock} {r : TxnId} (h : l.WriteHeld r)
    (now now' : Timeval) : (l.lockForRead r now now').2.WriteHeld r := by
  obtain ⟨h | h, hmem⟩ := h <;> simp [lockForRead, h, hmem, WriteHeld]

end Lock

/-! ### The table of locks -/

/-- `LockServer`: the locks by name. -/
structure LockServer where
  locks : Table Key Lock := ∅

namespace LockServer

/-- The lock of a name, free if it was never used. -/
def lock (s : LockServer) (key : Key) : Lock := (s.locks.lookup key).getD {}

def lockForRead (s : LockServer) (key : Key) (requester : TxnId) (now now' : Timeval) :
    Bool × LockServer :=
  let r := (s.lock key).lockForRead requester now now'
  (r.1, ⟨s.locks.insert key r.2⟩)

def lockForWrite (s : LockServer) (key : Key) (requester : TxnId) (now now' : Timeval) :
    Bool × LockServer :=
  let r := (s.lock key).lockForWrite requester now now'
  (r.1, ⟨s.locks.insert key r.2⟩)

/-- Releasing a lock nobody ever asked for does nothing. -/
def releaseForRead (s : LockServer) (key : Key) (holder : TxnId) : LockServer :=
  match s.locks.lookup key with
  | none => s
  | some l => ⟨s.locks.insert key (l.releaseForRead holder)⟩

def releaseForWrite (s : LockServer) (key : Key) (holder : TxnId) : LockServer :=
  match s.locks.lookup key with
  | none => s
  | some l => ⟨s.locks.insert key (l.releaseForWrite holder)⟩

theorem lock_insert (t : Table Key Lock) (key key' : Key) (l : Lock) :
    LockServer.lock ⟨t.insert key l⟩ key' = if key' = key then l else LockServer.lock ⟨t⟩ key' := by
  simp only [lock, Table.lookup_insert_eq]
  split_ifs <;> rfl

/-- A call by `r` on some lock: every lock is respected. -/
def Respects (r : TxnId) (s s' : LockServer) : Prop :=
  ∀ key, Lock.Respects r (s.lock key) (s'.lock key)

theorem Respects.refl (r : TxnId) (s : LockServer) : Respects r s s :=
  fun _ => Lock.SameHolders.respects ⟨rfl, rfl⟩ r

theorem Respects.trans {r : TxnId} {s s' s'' : LockServer} (h : Respects r s s')
    (h' : Respects r s' s'') : Respects r s s'' :=
  fun key => (h key).trans (h' key)

theorem respects_insert {r : TxnId} {s : LockServer} {key : Key} {l : Lock}
    (h : Lock.Respects r (s.lock key) l) : Respects r s ⟨s.locks.insert key l⟩ := by
  intro key'
  rw [lock_insert]
  split_ifs with hkey
  · rw [hkey]; exact h
  · exact Lock.SameHolders.respects ⟨rfl, rfl⟩ r

theorem lockForRead_respects (s : LockServer) (key : Key) (r : TxnId) (now now' : Timeval) :
    Respects r s (s.lockForRead key r now now').2 :=
  respects_insert (Lock.lockForRead_respects _ _ _ _)

theorem lockForWrite_respects (s : LockServer) (key : Key) (r : TxnId) (now now' : Timeval) :
    Respects r s (s.lockForWrite key r now now').2 :=
  respects_insert (Lock.lockForWrite_respects _ _ _ _)

theorem releaseForRead_respects (s : LockServer) (key : Key) (r : TxnId) :
    Respects r s (s.releaseForRead key r) := by
  unfold releaseForRead
  split
  · exact Respects.refl r s
  · rename_i l hl
    have hlock : s.lock key = l := by simp [lock, hl]
    exact respects_insert (by rw [hlock]; exact Lock.releaseForRead_respects _ _)

theorem releaseForWrite_respects (s : LockServer) (key : Key) (r : TxnId) :
    Respects r s (s.releaseForWrite key r) := by
  unfold releaseForWrite
  split
  · exact Respects.refl r s
  · rename_i l hl
    have hlock : s.lock key = l := by simp [lock, hl]
    exact respects_insert (by rw [hlock]; exact Lock.releaseForWrite_respects _ _)

end LockServer

end D2PC
