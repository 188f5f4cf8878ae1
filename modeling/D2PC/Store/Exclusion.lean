import D2PC.Lib.Calls
import D2PC.Store.LockServer

/-!
# Mutual exclusion of the lock server

What holds of every lock after any sequence of calls, with any clock readings. A lock that
was granted is held until its holder gives it back in the same mode, so that every request of
another requester that conflicts with it is refused; and the queue of a lock lists exactly
the waiters, each once.

* `Lock.Queue` : the queue and the table of waiters agree;
* `Lock.call_writeHeld`, `Lock.call_readHeld` : what is held survives every other call;
* `LockServer.lock_exclusion` : mutual exclusion over whole sequences of calls.
-/

namespace D2PC

namespace Lock

/-- The calls on one lock, with their clock readings. -/
inductive Call where
  | lockForRead (now now' : Timeval)
  | lockForWrite (now now' : Timeval)
  | releaseForRead
  | releaseForWrite
  deriving DecidableEq

/-- A call by a requester. -/
def call (l : Lock) (r : TxnId) : Call → Lock
  | .lockForRead now now' => (l.lockForRead r now now').2
  | .lockForWrite now now' => (l.lockForWrite r now now').2
  | .releaseForRead => l.releaseForRead r
  | .releaseForWrite => l.releaseForWrite r

/-- The lock is granted; a release returns nothing. -/
def granted (l : Lock) (r : TxnId) : Call → Bool
  | .lockForRead now now' => (l.lockForRead r now now').1
  | .lockForWrite now now' => (l.lockForWrite r now now').1
  | .releaseForRead => false
  | .releaseForWrite => false

theorem call_respects (l : Lock) (r : TxnId) (c : Call) : Respects r l (l.call r c) := by
  cases c with
  | lockForRead now now' => exact lockForRead_respects l r now now'
  | lockForWrite now now' => exact lockForWrite_respects l r now now'
  | releaseForRead => exact releaseForRead_respects l r
  | releaseForWrite => exact releaseForWrite_respects l r

/-! ### The wait queue -/

/-- The queue lists the waiters, each once. -/
structure Queue (q : List TxnId) (waiters : Table TxnId Waiter) : Prop where
  nodup : q.Nodup
  mem : ∀ r, r ∈ q ↔ r ∈ waiters

/-- What the loops of `tryAcquireLock` and `isWriteNext` look up with `waiters[w]`, in order. -/
def lookups (now : Timeval) : List TxnId → Table TxnId Waiter → List (Option Waiter)
  | [], _ => []
  | w :: q, waiters =>
      waiters.lookup w ::
        if ((waiters.lookup w).getD {}).checkTimeout now then lookups now q (waiters.erase w)
        else []

theorem Queue.tail {w : TxnId} {q : List TxnId} {waiters : Table TxnId Waiter}
    (h : Queue (w :: q) waiters) : Queue q (waiters.erase w) := by
  obtain ⟨hnot, hnodup⟩ := List.nodup_cons.1 h.nodup
  refine ⟨hnodup, ?_⟩
  intro r
  have hmem := h.mem r
  rw [List.mem_cons] at hmem
  rw [AList.mem_erase, ← hmem]
  constructor
  · intro hr
    exact ⟨fun heq => hnot (heq ▸ hr), .inr hr⟩
  · rintro ⟨hne, heq | hr⟩
    · exact absurd heq hne
    · exact hr

theorem prune_queue (now : Timeval) {q : List TxnId} {waiters : Table TxnId Waiter}
    (h : Queue q waiters) :
    Queue (prune now q waiters).1 (prune now q waiters).2 ∧
      ∀ o ∈ lookups now q waiters, o.isSome := by
  induction q generalizing waiters with
  | nil => exact ⟨h, fun o ho => absurd ho List.not_mem_nil⟩
  | cons w q ih =>
      have hw : (waiters.lookup w).isSome :=
        AList.lookup_isSome.2 ((h.mem w).1 (List.mem_cons_self ..))
      simp only [prune, lookups]
      split_ifs with htimeout
      · obtain ⟨hqueue, hall⟩ := ih h.tail
        refine ⟨hqueue, ?_⟩
        intro o ho
        rcases List.mem_cons.1 ho with rfl | ho
        · exact hw
        · exact hall o ho
      · refine ⟨h, ?_⟩
        intro o ho
        rw [List.mem_singleton.1 ho]
        exact hw

theorem waitForLock_queue {l : Lock} (h : Queue l.waitQ l.waiters) (r : TxnId) (write : Bool)
    (now : Timeval) :
    Queue (l.waitForLock r write now).waitQ (l.waitForLock r write now).waiters := by
  unfold waitForLock
  split_ifs with hwaits
  · exact h
  · have hnot : r ∉ l.waitQ := fun hr => hwaits ((h.mem r).1 hr)
    refine ⟨?_, ?_⟩
    · rw [List.nodup_append]
      refine ⟨h.nodup, List.nodup_singleton r, ?_⟩
      intro a ha b hb hab
      rw [List.mem_singleton.1 hb] at hab
      exact hnot (hab ▸ ha)
    · intro r'
      rw [List.mem_append, List.mem_singleton, AList.mem_insert, h.mem r']
      exact or_comm

theorem tryAcquireLock_queue {l : Lock} (h : Queue l.waitQ l.waiters) (r : TxnId) (write : Bool)
    (now now' : Timeval) :
    Queue (l.tryAcquireLock r write now now').2.waitQ
      (l.tryAcquireLock r write now now').2.waiters := by
  have hprune := (prune_queue now h).1
  unfold tryAcquireLock
  split
  · rename_i waiters heq
    rw [heq] at hprune
    exact hprune
  · rename_i w rest waiters heq
    rw [heq] at hprune
    split_ifs with hfirst
    · rw [← hfirst]
      exact hprune.tail
    · apply waitForLock_queue
      exact hprune

theorem isWriteNext_queue {l : Lock} (h : Queue l.waitQ l.waiters) (now : Timeval) :
    Queue (l.isWriteNext now).2.waitQ (l.isWriteNext now).2.waiters := by
  have hprune := (prune_queue now h).1
  unfold isWriteNext
  split
  · rename_i waiters heq
    rw [heq] at hprune
    exact hprune
  · rename_i w rest waiters heq
    rw [heq] at hprune
    exact hprune

theorem call_queue {l : Lock} (h : Queue l.waitQ l.waiters) (r : TxnId) (c : Call) :
    Queue (l.call r c).waitQ (l.call r c).waiters := by
  cases c with
  | lockForRead now now' =>
      simp only [call, lockForRead]
      split
      · have hacq := tryAcquireLock_queue h r false now now'
        split
        · rename_i l' heq
          rw [heq] at hacq
          exact hacq
        · rename_i l' heq
          rw [heq] at hacq
          exact hacq
      · split_ifs
        · exact h
        · have hnext := isWriteNext_queue h now
          split
          · rename_i l' heq
            rw [heq] at hnext
            exact waitForLock_queue hnext r false now'
          · rename_i l' heq
            rw [heq] at hnext
            exact hnext
      · split_ifs
        · exact h
        · exact waitForLock_queue h r false now
  | lockForWrite now now' =>
      simp only [call, lockForWrite]
      split
      · have hacq := tryAcquireLock_queue h r true now now'
        split
        · rename_i l' heq
          rw [heq] at hacq
          exact hacq
        · rename_i l' heq
          rw [heq] at hacq
          exact hacq
      · split_ifs
        · exact h
        · exact waitForLock_queue h r true now
      · split_ifs
        · exact h
        · exact waitForLock_queue h r true now
  | releaseForRead =>
      have hrelease : (l.releaseForRead r).waitQ = l.waitQ ∧
          (l.releaseForRead r).waiters = l.waiters := by
        unfold releaseForRead
        split
        · split
          · exact ⟨rfl, rfl⟩
          · exact ⟨rfl, rfl⟩
          · split <;> exact ⟨rfl, rfl⟩
          · exact ⟨rfl, rfl⟩
        · exact ⟨rfl, rfl⟩
      simp only [call, hrelease.1, hrelease.2]
      exact h
  | releaseForWrite =>
      simp only [call, releaseForWrite]
      split_ifs
      · split <;> exact h
      · exact h

/-! ### What is held -/

/-- `r` holds the lock for reading. -/
def ReadHeld (l : Lock) (r : TxnId) : Prop :=
  (l.state = .lockedForRead ∨ l.state = .lockedForReadWrite) ∧ r ∈ l.holders

/-- A write lock survives every call but its release. -/
theorem call_writeHeld {l : Lock} (hl : l.Valid) {r r' : TxnId} (h : l.WriteHeld r) {c : Call}
    (hc : ¬ (r' = r ∧ c = .releaseForWrite)) : (l.call r' c).WriteHeld r := by
  by_cases hr : r' = r
  · subst hr
    cases c with
    | lockForRead now now' => exact lockForRead_writeHeld h now now'
    | lockForWrite now now' =>
        simp only [call]
        rw [lockForWrite_of_writeHeld h]
        exact h
    | releaseForRead =>
        obtain ⟨hst | hst, hmem⟩ := h
        · simp only [call, releaseForRead, if_pos hmem, hst]
          exact ⟨.inl hst, hmem⟩
        · simp only [call, releaseForRead, if_pos hmem, hst]
          exact ⟨.inl rfl, hmem⟩
    | releaseForWrite => exact absurd ⟨rfl, rfl⟩ hc
  · exact ((call_respects l r' c).keeps hl r (Ne.symm hr)).write h

/-- While `r` holds a write lock, all other requests are refused. -/
theorem WriteHeld.excludes {l : Lock} (hl : l.Valid) {r r' : TxnId} (h : l.WriteHeld r)
    (hr : r' ≠ r) (c : Call) : l.granted r' c = false := by
  have hnot : r' ∉ l.holders := fun hmem => hr (hl.eq_of_writeHeld h hmem)
  cases c with
  | lockForRead now now' =>
      obtain ⟨hst | hst, _⟩ := h
      · simp only [granted, lockForRead, hst, if_neg hnot]
      · simp only [granted, lockForRead, hst, if_neg hnot]
  | lockForWrite now now' =>
      obtain ⟨hst | hst, _⟩ := h
      · simp only [granted, lockForWrite, hst, if_neg hnot]
      · simp only [granted, lockForWrite, hst, if_neg hnot]
  | releaseForRead => rfl
  | releaseForWrite => rfl

theorem granted_readHeld {l : Lock} {r : TxnId} {now now' : Timeval}
    (h : l.granted r (.lockForRead now now') = true) :
    (l.call r (.lockForRead now now')).ReadHeld r := by
  simp only [granted, lockForRead] at h
  simp only [call, lockForRead]
  split at h
  · split at h
    · exact ⟨.inl rfl, Finset.mem_insert_self _ _⟩
    · cases h
  · rename_i hst
    split_ifs at h ⊢ with hmem
    · exact ⟨.inl hst, hmem⟩
    · have hsame := isWriteNext_same l now
      split at h
      · cases h
      · rename_i l' heq
        rw [heq] at hsame
        exact ⟨.inl (hsame.state.trans hst), Finset.mem_insert_self _ _⟩
  · split_ifs at h ⊢ with hmem
    exact ⟨.inr rfl, hmem⟩

/-- A lock held for reading by one requester and written by nobody. -/
theorem ReadHeld.of_same {l l' : Lock} {r : TxnId} (h : l.ReadHeld r) (hsame : SameHolders l l') :
    l'.ReadHeld r := by
  unfold ReadHeld
  rw [hsame.state, hsame.holders]
  exact h

/-- A read lock survives every call but its release. -/
theorem call_readHeld {l : Lock} (hl : l.Valid) {r r' : TxnId} (h : l.ReadHeld r) {c : Call}
    (hc : ¬ (r' = r ∧ c = .releaseForRead)) : (l.call r' c).ReadHeld r := by
  obtain ⟨hst | hst, hmem⟩ := h
  · -- shared: others come and go
    cases c with
    | lockForRead now now' =>
        simp only [call, lockForRead, hst]
        split_ifs
        · exact ⟨.inl hst, hmem⟩
        · have hsame := isWriteNext_same l now
          split
          · rename_i l' heq
            rw [heq] at hsame
            have hheld := ReadHeld.of_same ⟨.inl hst, hmem⟩ hsame
            exact hheld.of_same (waitForLock_same _ _ _ _)
          · rename_i l' heq
            rw [heq] at hsame
            refine ⟨.inl (hsame.state.trans hst), Finset.mem_insert_of_mem ?_⟩
            rw [hsame.holders]
            exact hmem
    | lockForWrite now now' =>
        simp only [call, lockForWrite, hst]
        split_ifs
        · exact ⟨.inr rfl, hmem⟩
        · exact ReadHeld.of_same ⟨.inl hst, hmem⟩ (waitForLock_same _ _ _ _)
    | releaseForRead =>
        have hne : r ≠ r' := fun heq => hc ⟨heq.symm, rfl⟩
        have hstay : r ∈ l.holders.erase r' := Finset.mem_erase.2 ⟨hne, hmem⟩
        simp only [call, releaseForRead, hst]
        split_ifs with hr' hempty
        · rw [hempty] at hstay
          exact absurd hstay (Finset.notMem_empty r)
        · exact ⟨.inl rfl, hstay⟩
        · exact ⟨.inl hst, hmem⟩
    | releaseForWrite =>
        simp only [call, releaseForWrite, hst]
        split_ifs
        · exact ⟨.inl hst, hmem⟩
        · exact ⟨.inl hst, hmem⟩
  · -- also held for writing, so by `r` alone
    have halone : ∀ {q}, q ∈ l.holders → q = r := fun hq =>
      hl.eq_of_writeHeld ⟨.inr hst, hmem⟩ hq
    cases c with
    | lockForRead now now' =>
        simp only [call, lockForRead, hst]
        split_ifs
        · exact ⟨.inr rfl, hmem⟩
        · exact ReadHeld.of_same ⟨.inr hst, hmem⟩ (waitForLock_same _ _ _ _)
    | lockForWrite now now' =>
        simp only [call, lockForWrite, hst]
        split_ifs
        · exact ⟨.inr hst, hmem⟩
        · exact ReadHeld.of_same ⟨.inr hst, hmem⟩ (waitForLock_same _ _ _ _)
    | releaseForRead =>
        have hnot : r' ∉ l.holders := fun hr' => hc ⟨halone hr', rfl⟩
        simp only [call, releaseForRead, if_neg hnot]
        exact ⟨.inr hst, hmem⟩
    | releaseForWrite =>
        simp only [call, releaseForWrite, hst]
        split_ifs
        · exact ⟨.inl rfl, hmem⟩
        · exact ⟨.inr hst, hmem⟩

/-- While `r` holds a read lock, requests of others for the write lock are refused. -/
theorem ReadHeld.excludes {l : Lock} (hl : l.Valid) {r r' : TxnId} (h : l.ReadHeld r)
    (hr : r' ≠ r) (now now' : Timeval) : l.granted r' (.lockForWrite now now') = false := by
  obtain ⟨hst | hst, hmem⟩ := h
  · have hnot : ¬ (l.holders.card = 1 ∧ r' ∈ l.holders) := by
      rintro ⟨hone, hmem'⟩
      exact hr (Finset.card_le_one.1 hone.le r' hmem' r hmem)
    simp only [granted, lockForWrite, hst, if_neg hnot]
  · exact WriteHeld.excludes hl ⟨.inr hst, hmem⟩ hr _

end Lock

/-! ### Sequences of calls -/

namespace LockServer

/-- A call on the lock of a name. -/
structure Call where
  key : Key
  requester : TxnId
  op : Lock.Call
  deriving DecidableEq

def call (s : LockServer) (c : Call) : LockServer :=
  match c.op with
  | .lockForRead now now' => (s.lockForRead c.key c.requester now now').2
  | .lockForWrite now now' => (s.lockForWrite c.key c.requester now now').2
  | .releaseForRead => s.releaseForRead c.key c.requester
  | .releaseForWrite => s.releaseForWrite c.key c.requester

/-- The call returns `true`. -/
def granted (s : LockServer) (c : Call) : Bool :=
  match c.op with
  | .lockForRead now now' => (s.lockForRead c.key c.requester now now').1
  | .lockForWrite now now' => (s.lockForWrite c.key c.requester now now').1
  | .releaseForRead => false
  | .releaseForWrite => false

/-- The server after a sequence of calls on a new one. -/
abbrev after (cs : List Call) : LockServer := Calls.run call {} cs

theorem granted_eq (s : LockServer) (c : Call) :
    s.granted c = (s.lock c.key).granted c.requester c.op := by
  obtain ⟨key, r, op⟩ := c
  cases op <;> rfl

/-- A call is one on its own lock. -/
theorem lock_call (s : LockServer) (c : Call) (key : Key) :
    (s.call c).lock key =
      if key = c.key then (s.lock key).call c.requester c.op else s.lock key := by
  obtain ⟨k, r, op⟩ := c
  have hfree : s.locks.lookup k = none → s.lock k = {} := by
    intro h
    simp [lock, h]
  have hlock : ∀ {l}, s.locks.lookup k = some l → s.lock k = l := by
    intro l h
    simp [lock, h]
  cases op with
  | lockForRead now now' =>
      simp only [call, lockForRead, lock_insert]
      split_ifs with hk
      · rw [hk]
        rfl
      · rfl
  | lockForWrite now now' =>
      simp only [call, lockForWrite, lock_insert]
      split_ifs with hk
      · rw [hk]
        rfl
      · rfl
  | releaseForRead =>
      simp only [call, releaseForRead]
      split
      · rename_i hnone
        split_ifs with hk
        · rw [hk, hfree hnone]
          rfl
        · rfl
      · rename_i l hl
        rw [lock_insert]
        split_ifs with hk
        · rw [hk, hlock hl]
          rfl
        · rfl
  | releaseForWrite =>
      simp only [call, releaseForWrite]
      split
      · rename_i hnone
        split_ifs with hk
        · rw [hk, hfree hnone]
          rfl
        · rfl
      · rename_i l hl
        rw [lock_insert]
        split_ifs with hk
        · rw [hk, hlock hl]
          rfl
        · rfl

/-- What every call on one lock keeps, the server keeps. -/
theorem after_lock {J : Lock → Prop} (hnew : J {}) (key : Key)
    (hcall : ∀ l r c, J l → J (l.call r c)) (cs : List Call) : J ((after cs).lock key) := by
  refine Calls.run_invariant (J := fun s : LockServer => J (s.lock key)) (s := {}) hnew ?_
  intro c _ s hs
  rw [lock_call]
  split_ifs
  · exact hcall _ _ _ hs
  · exact hs

theorem after_valid (cs : List Call) (key : Key) : ((after cs).lock key).Valid := by
  refine after_lock (J := Lock.Valid) ⟨⟨fun _ => rfl, fun _ => rfl⟩, ?_⟩ key ?_ cs
  · rintro (h | h) <;> cases h
  · intro l r c hl
    exact (Lock.call_respects l r c).valid hl

/-- What `r` holds after a call that all later ones keep is held after these. -/
theorem held_after {H : Lock → Prop} {key : Key} {before mid : List Call} {c : Call}
    (hstart : H ((after (before ++ [c])).lock key))
    (hkeep : ∀ c' ∈ mid, ∀ l : Lock, l.Valid → H l → key = c'.key → H (l.call c'.requester c'.op)) :
    H ((after (before ++ c :: mid)).lock key) := by
  have hsplit : before ++ c :: mid = (before ++ [c]) ++ mid := by simp
  rw [hsplit, after, Calls.run_append]
  have hboth : ((Calls.run call (after (before ++ [c])) mid).lock key).Valid ∧
      H ((Calls.run call (after (before ++ [c])) mid).lock key) := by
    refine Calls.run_invariant (J := fun s : LockServer => (s.lock key).Valid ∧ H (s.lock key))
      ⟨after_valid _ key, hstart⟩ ?_
    intro c' hc' s hs
    rw [lock_call]
    split_ifs with hk
    · exact ⟨(Lock.call_respects _ _ _).valid hs.1, hkeep c' hc' _ hs.1 hs.2 hk⟩
    · exact hs
  exact hboth.2

/-- **Mutual exclusion.** After any calls the state and the holders of every lock agree and the
queue lists exactly the waiters. A write lock that was granted excludes all other requests
until it is released, a read lock those for writing. -/
theorem lock_exclusion (cs : List Call) :
    (∀ key, (((after cs).lock key).state = .unlocked ↔ ((after cs).lock key).holders = ∅) ∧
      (((after cs).lock key).state = .lockedForRead → ((after cs).lock key).holders.Nonempty) ∧
      (((after cs).lock key).state = .lockedForWrite ∨
        ((after cs).lock key).state = .lockedForReadWrite →
          ((after cs).lock key).holders.card = 1)) ∧
    (∀ before key r now now' mid c rest,
      cs = before ++ ⟨key, r, .lockForWrite now now'⟩ :: mid ++ c :: rest →
      (after before).granted ⟨key, r, .lockForWrite now now'⟩ = true →
      ⟨key, r, .releaseForWrite⟩ ∉ mid → c.key = key → c.requester ≠ r →
      (after (before ++ ⟨key, r, .lockForWrite now now'⟩ :: mid)).granted c = false) ∧
    (∀ before key r now now' mid r' t t' rest,
      cs = before ++ ⟨key, r, .lockForRead now now'⟩ :: mid ++
        ⟨key, r', .lockForWrite t t'⟩ :: rest →
      (after before).granted ⟨key, r, .lockForRead now now'⟩ = true →
      ⟨key, r, .releaseForRead⟩ ∉ mid → r' ≠ r →
      (after (before ++ ⟨key, r, .lockForRead now now'⟩ :: mid)).granted
        ⟨key, r', .lockForWrite t t'⟩ = false) ∧
    ∀ key, ((after cs).lock key).waitQ.Nodup ∧
      (∀ r, r ∈ ((after cs).lock key).waitQ ↔ r ∈ ((after cs).lock key).waiters) ∧
      ∀ now, ∀ o ∈ Lock.lookups now ((after cs).lock key).waitQ ((after cs).lock key).waiters,
        o.isSome := by
  refine ⟨fun key => ?_, ?_, ?_, fun key => ?_⟩
  · have hvalid := after_valid cs key
    refine ⟨hvalid.unlocked, ?_, hvalid.write⟩
    intro hst
    rw [Finset.nonempty_iff_ne_empty]
    intro hempty
    rw [hvalid.unlocked.2 hempty] at hst
    cases hst
  · intro before key r now now' mid c rest _ hgranted hrelease hkey hr
    rw [granted_eq, hkey]
    refine Lock.WriteHeld.excludes (after_valid _ key) ?_ hr c.op
    apply held_after (H := fun l => l.WriteHeld r)
    · rw [after, Calls.run_concat, lock_call, if_pos rfl]
      rw [granted_eq] at hgranted
      exact Lock.lockForWrite_granted hgranted
    · intro c' hc' l hl hheld hk
      apply Lock.call_writeHeld hl hheld
      rintro ⟨rfl, hop⟩
      apply hrelease
      rw [hk, ← hop]
      exact hc'
  · intro before key r now now' mid r' t t' rest _ hgranted hrelease hr
    rw [granted_eq]
    refine Lock.ReadHeld.excludes (after_valid _ key) ?_ hr t t'
    apply held_after (H := fun l => l.ReadHeld r)
    · rw [after, Calls.run_concat, lock_call, if_pos rfl]
      rw [granted_eq] at hgranted
      exact Lock.granted_readHeld hgranted
    · intro c' hc' l hl hheld hk
      apply Lock.call_readHeld hl hheld
      rintro ⟨rfl, hop⟩
      apply hrelease
      rw [hk, ← hop]
      exact hc'
  · have hqueue : Lock.Queue ((after cs).lock key).waitQ ((after cs).lock key).waiters := by
      refine after_lock (J := fun l => Lock.Queue l.waitQ l.waiters) ⟨List.nodup_nil, ?_⟩ key ?_ cs
      · intro r
        exact ⟨fun h => absurd h List.not_mem_nil, fun h => absurd h (AList.notMem_empty r)⟩
      · intro l r c hl
        exact Lock.call_queue hl r c
    exact ⟨hqueue.nodup, hqueue.mem, fun now => (Lock.prune_queue now hqueue).2⟩

/-- A writer, and a reader that comes while the lock is held. -/
def writerThenReader : List Call :=
  [⟨"k", 1, .lockForWrite {} {}⟩, ⟨"k", 2, .lockForRead {} {}⟩]

theorem writerThenReader_excluded :
    (after [⟨"k", 1, .lockForWrite {} {}⟩]).granted ⟨"k", 2, .lockForRead {} {}⟩ = false :=
  (lock_exclusion writerThenReader).2.1 [] "k" 1 {} {} [] _ [] rfl (by decide) (by simp) rfl
    (by decide)

end LockServer

end D2PC
