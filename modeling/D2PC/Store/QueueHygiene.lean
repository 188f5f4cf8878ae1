import D2PC.Lib.Calls
import D2PC.Store.LockServer

/-!
# The wait queues of the locks

A request that is refused waits in the queue of its lock. It leaves the queue when it is granted
on a free lock, and when it is old. Two more branches grant a request that may wait: a reader that
joins other readers, and a reader that upgrades. Its entry stays behind, and others wait for it
when the lock is free again.

* `Lock.Tidy` : no holder waits, but for a reader whose own write was refused;
* `Lock.lockForRead_tidy`, `Lock.lockForWrite_tidy` : the calls that keep it so;
* `queue_hygiene` : after every sequence of calls it is so exactly if no call took one of the two
  branches with an entry in the queue;
* `upgrade_strays` : an upgrade whose entry blocks the next writer.
-/

namespace D2PC

namespace Lock

variable {l l' : Lock} {r q : TxnId} {now now' : Timeval}

/-! ### The queue -/

/-- The queue lists every waiter once. -/
structure Queued (l : Lock) : Prop where
  nodup : l.waitQ.Nodup
  sync : ∀ r, r ∈ l.waitQ ↔ r ∈ l.waiters

/-- Old entries leave the queue and the table. -/
theorem prune_spec (now : Timeval) {queue : List TxnId} {waiters : Table TxnId Waiter}
    (hnodup : queue.Nodup) (hsync : ∀ r, r ∈ queue ↔ r ∈ waiters) :
    (prune now queue waiters).1.Sublist queue ∧
      ∀ r, r ∈ (prune now queue waiters).1 ↔ r ∈ (prune now queue waiters).2 := by
  induction queue generalizing waiters with
  | nil => exact ⟨List.Sublist.refl _, hsync⟩
  | cons w queue ih =>
      rw [prune]
      split_ifs with hold
      · obtain ⟨hw, hrest⟩ := List.nodup_cons.1 hnodup
        have hsync' : ∀ r, r ∈ queue ↔ r ∈ waiters.erase w := by
          intro r
          rw [AList.mem_erase, ← hsync r, List.mem_cons]
          refine ⟨fun hr => ⟨?_, .inr hr⟩, fun hr => hr.2.resolve_left hr.1⟩
          rintro rfl
          exact hw hr
        obtain ⟨hsub, hin⟩ := ih hrest hsync'
        exact ⟨hsub.cons w, hin⟩
      · exact ⟨List.Sublist.refl _, hsync⟩

theorem Queued.waitForLock (hl : l.Queued) (r : TxnId) (write : Bool) (now : Timeval) :
    (l.waitForLock r write now).Queued := by
  rw [Lock.waitForLock]
  split_ifs with hwaits
  · exact hl
  · have hnew : r ∉ l.waitQ := fun hr => hwaits ((hl.sync r).1 hr)
    refine ⟨List.nodup_append.2 ⟨hl.nodup, List.nodup_singleton r, ?_⟩, fun q => ?_⟩
    · intro a ha b hb hab
      rw [List.mem_singleton.1 hb] at hab
      exact hnew (hab ▸ ha)
    · show q ∈ l.waitQ ++ [r] ↔ q ∈ l.waiters.insert r _
      rw [List.mem_append, List.mem_singleton, AList.mem_insert, hl.sync q, or_comm]

/-- Only the requester joins the queue. -/
theorem mem_waitForLock {write : Bool} (hq : q ∈ (l.waitForLock r write now).waitQ) :
    q ∈ l.waitQ ∨ q = r := by
  rw [waitForLock] at hq
  split_ifs at hq
  · exact .inl hq
  · exact (List.mem_append.1 hq).imp_right List.mem_singleton.1

/-- Looking for a writer only drops old entries. -/
theorem isWriteNext_queued (hl : l.Queued) (now : Timeval) : (l.isWriteNext now).2.Queued ∧
    (l.isWriteNext now).2.waitQ ⊆ l.waitQ := by
  obtain ⟨hsub, hsync⟩ := prune_spec now hl.nodup hl.sync
  unfold isWriteNext
  split
  all_goals
    rename_i heq
    rw [heq] at hsub hsync
    exact ⟨⟨hl.nodup.sublist hsub, hsync⟩, hsub.subset⟩

/-- A request that is granted on a free lock leaves the queue; one that is refused joins it. -/
theorem tryAcquireLock_queued (hl : l.Queued) (r : TxnId) (write : Bool) (now now' : Timeval) :
    (l.tryAcquireLock r write now now').2.Queued ∧
      ((l.tryAcquireLock r write now now').1 = true →
        r ∉ (l.tryAcquireLock r write now now').2.waitQ) := by
  obtain ⟨hsub, hsync⟩ := prune_spec now hl.nodup hl.sync
  unfold tryAcquireLock
  split
  · rename_i heq
    rw [heq] at hsub hsync
    exact ⟨⟨List.nodup_nil, hsync⟩, fun _ => List.not_mem_nil⟩
  · rename_i w rest waiters heq
    rw [heq] at hsub hsync
    have hnodup := hl.nodup.sublist hsub
    obtain ⟨hw, hrest⟩ := List.nodup_cons.1 hnodup
    split_ifs with hfirst
    · subst hfirst
      refine ⟨⟨hrest, fun q => ?_⟩, fun _ => hw⟩
      show q ∈ rest ↔ q ∈ waiters.erase w
      rw [AList.mem_erase, ← hsync q, List.mem_cons]
      refine ⟨fun hq => ⟨?_, .inr hq⟩, fun hq => hq.2.resolve_left hq.1⟩
      rintro rfl
      exact hw hq
    · exact ⟨Queued.waitForLock ⟨hnodup, hsync⟩ _ _ _, fun h => by cases h⟩

/-! ### Holders that wait -/

/-- No holder waits, but for a reader whose own write was refused. -/
def Clean (refused : TxnId → Prop) (l : Lock) : Prop :=
  ∀ r ∈ l.holders, r ∈ l.waitQ → l.state = .lockedForRead ∧ refused r

/-- A lock in order, and its queue. -/
structure Tidy (refused : TxnId → Prop) (l : Lock) : Prop where
  valid : l.Valid
  queue : l.Queued
  clean : l.Clean refused

/-- The reader joins other readers, and its entry stays in the queue. -/
structure JoinsWaiting (l : Lock) (r : TxnId) (now : Timeval) : Prop where
  shared : l.state = .lockedForRead
  new : r ∉ l.holders
  free : (l.isWriteNext now).1 = false
  waits : r ∈ (l.isWriteNext now).2.waitQ

/-- The only reader becomes the writer, and its entry stays in the queue. -/
structure UpgradesWaiting (l : Lock) (r : TxnId) : Prop where
  shared : l.state = .lockedForRead
  alone : l.holders.card = 1 ∧ r ∈ l.holders
  waits : r ∈ l.waitQ

variable {refused : TxnId → Prop}

/-- In the writing modes no holder waits. -/
theorem Clean.not_mem (hl : l.Clean refused) (hst : l.state ≠ .lockedForRead) (hr : r ∈ l.holders) :
    r ∉ l.waitQ :=
  fun hq => hst (hl r hr hq).1

/-- Others may join the queue. -/
theorem Clean.wait (hl : l.Clean refused) {write : Bool} {refused' : TxnId → Prop}
    (hsub : ∀ q, refused q → refused' q)
    (hr : r ∈ l.holders → l.state = .lockedForRead ∧ refused' r) :
    (l.waitForLock r write now).Clean refused' := by
  have hsame := waitForLock_same l r write now
  intro q hq hwait
  rw [hsame.holders] at hq
  rw [hsame.state]
  rcases mem_waitForLock hwait with hold | rfl
  · exact (hl q hq hold).imp_right (hsub q)
  · exact hr hq

/-- On a free lock nobody holds, and the new holder does not wait. -/
theorem Clean.acquire (hfree : l.holders = ∅) (hr : r ∉ l.waitQ) {st : LockState} :
    Clean refused { l with state := st, holders := insert r l.holders } := by
  intro q hq hwait
  rw [hfree, insert_empty_eq, Finset.mem_singleton] at hq
  rw [hq] at hwait
  exact absurd hwait hr

/-- Dropping old entries. -/
theorem Clean.drop (hl : l.Clean refused) (hsame : SameHolders l l') (hsub : l'.waitQ ⊆ l.waitQ) :
    l'.Clean refused := by
  intro q hq hwait
  rw [hsame.holders] at hq
  rw [hsame.state]
  exact hl q hq (hsub hwait)

/-- **A request for reading** keeps the order, unless it joins the readers while it waits. -/
theorem lockForRead_tidy (hl : l.Tidy refused) (hstray : l.JoinsWaiting r now → refused r) :
    (l.lockForRead r now now').2.Tidy refused := by
  suffices hqueue : (l.lockForRead r now now').2.Queued ∧
      (l.lockForRead r now now').2.Clean refused from
    ⟨(lockForRead_respects l r now now').valid hl.valid, hqueue.1, hqueue.2⟩
  unfold lockForRead
  split
  · rename_i hst
    obtain ⟨hqueue, hleft⟩ := tryAcquireLock_queued hl.queue r false now now'
    have hsame := tryAcquireLock_same l r false now now'
    split
    · rename_i l' heq
      rw [heq] at hqueue hleft hsame
      have hempty : l'.holders = ∅ := hsame.holders.trans (hl.valid.unlocked.1 hst)
      exact ⟨⟨hqueue.nodup, hqueue.sync⟩, .acquire hempty (hleft rfl)⟩
    · rename_i l' heq
      rw [heq] at hqueue hsame
      have hempty : l'.holders = ∅ := hsame.holders.trans (hl.valid.unlocked.1 hst)
      refine ⟨hqueue, fun q hq => ?_⟩
      rw [hempty] at hq
      exact absurd hq (Finset.notMem_empty q)
  · rename_i hst
    split_ifs with hmem
    · exact ⟨hl.queue, hl.clean⟩
    · obtain ⟨hqueue, hsub⟩ := isWriteNext_queued hl.queue now
      have hsame := isWriteNext_same l now
      have hclean := hl.clean.drop hsame hsub
      split
      · rename_i l' heq
        rw [heq] at hqueue hsame hclean
        refine ⟨hqueue.waitForLock _ _ _, hclean.wait (fun _ => id) fun hr => ?_⟩
        rw [hsame.holders] at hr
        exact absurd hr hmem
      · rename_i l' heq
        have hst' : l'.state = .lockedForRead := by
          rw [heq] at hsame
          exact hsame.state.trans hst
        have hjoins : r ∈ l'.waitQ → refused r := by
          intro hwait
          refine hstray ⟨hst, hmem, ?_, ?_⟩
          · rw [heq]
          · rw [heq]
            exact hwait
        rw [heq] at hqueue hclean
        refine ⟨⟨hqueue.nodup, hqueue.sync⟩, fun q hq hwait => ?_⟩
        rcases Finset.mem_insert.1 hq with rfl | hq
        · exact ⟨hst', hjoins hwait⟩
        · exact hclean q hq hwait
  · rename_i hunlocked hread
    split_ifs with hmem
    · refine ⟨⟨hl.queue.nodup, hl.queue.sync⟩, fun q hq hwait => ?_⟩
      exact absurd hwait (hl.clean.not_mem hread hq)
    · exact ⟨hl.queue.waitForLock _ _ _, hl.clean.wait (fun _ => id) fun hr => absurd hr hmem⟩

/-- **A request for writing** keeps the order, unless it upgrades while it waits; a refusal is
remembered. -/
theorem lockForWrite_tidy {refused' : TxnId → Prop} (hl : l.Tidy refused)
    (hstray : ¬ l.UpgradesWaiting r)
    (hrefused : (l.lockForWrite r now now').1 = false → refused' r ∧ ∀ q, refused q → refused' q) :
    (l.lockForWrite r now now').2.Tidy refused' := by
  suffices hqueue : (l.lockForWrite r now now').2.Queued ∧
      (l.lockForWrite r now now').2.Clean refused' from
    ⟨(lockForWrite_respects l r now now').valid hl.valid, hqueue.1, hqueue.2⟩
  -- in the writing modes
  have hwriting : ∀ {res}, l.state ≠ .lockedForRead →
      res = (if r ∈ l.holders then (true, l) else (false, l.waitForLock r true now)) →
      (res.1 = false → refused' r ∧ ∀ q, refused q → refused' q) →
      res.2.Queued ∧ res.2.Clean refused' := by
    intro res hst hres hrefused
    rw [hres] at hrefused ⊢
    split_ifs at hrefused ⊢ with hmem
    · refine ⟨hl.queue, fun q hq hwait => ?_⟩
      exact absurd hwait (hl.clean.not_mem hst hq)
    · obtain ⟨_, hsub⟩ := hrefused rfl
      exact ⟨hl.queue.waitForLock _ _ _, hl.clean.wait hsub fun hr => absurd hr hmem⟩
  cases hst : l.state with
  | unlocked =>
      simp only [lockForWrite, hst] at hrefused ⊢
      obtain ⟨hqueue, hleft⟩ := tryAcquireLock_queued hl.queue r true now now'
      have hsame := tryAcquireLock_same l r true now now'
      split
      · rename_i l' heq
        rw [heq] at hqueue hleft hsame
        have hempty : l'.holders = ∅ := hsame.holders.trans (hl.valid.unlocked.1 hst)
        exact ⟨⟨hqueue.nodup, hqueue.sync⟩, .acquire hempty (hleft rfl)⟩
      · rename_i l' heq
        rw [heq] at hqueue hsame
        have hempty : l'.holders = ∅ := hsame.holders.trans (hl.valid.unlocked.1 hst)
        refine ⟨hqueue, fun q hq => ?_⟩
        rw [hempty] at hq
        exact absurd hq (Finset.notMem_empty q)
  | lockedForRead =>
      simp only [lockForWrite, hst] at hrefused ⊢
      split_ifs at hrefused ⊢ with hone
      · -- the only holder does not wait
        refine ⟨⟨hl.queue.nodup, hl.queue.sync⟩, fun q hq hwait => ?_⟩
        have heq : q = r := Finset.card_le_one.1 hone.1.le q hq r hone.2
        rw [heq] at hwait
        exact absurd ⟨hst, hone, hwait⟩ hstray
      · obtain ⟨hself, hsub⟩ := hrefused rfl
        exact ⟨hl.queue.waitForLock _ _ _, hl.clean.wait hsub fun _ => ⟨hst, hself⟩⟩
  | lockedForWrite =>
      refine hwriting (by rw [hst]; intro h; cases h) ?_ hrefused
      simp only [lockForWrite, hst]
  | lockedForReadWrite =>
      refine hwriting (by rw [hst]; intro h; cases h) ?_ hrefused
      simp only [lockForWrite, hst]

/-- A release leaves the queue alone. -/
theorem Tidy.release (hl : l.Tidy refused) (hvalid : l'.Valid) (hq : l'.waitQ = l.waitQ)
    (hw : l'.waiters = l.waiters) (hsub : l'.holders ⊆ l.holders)
    (hst : l.state = .lockedForRead → l'.holders ≠ ∅ → l'.state = .lockedForRead) :
    l'.Tidy refused := by
  refine ⟨hvalid, ⟨hq ▸ hl.queue.nodup, fun r => ?_⟩, fun r hr hwait => ?_⟩
  · rw [hq, hw]
    exact hl.queue.sync r
  · rw [hq] at hwait
    obtain ⟨hread, hrefused⟩ := hl.clean r (hsub hr) hwait
    exact ⟨hst hread (Finset.ne_empty_of_mem hr), hrefused⟩

theorem releaseForRead_tidy (hl : l.Tidy refused) (r : TxnId) :
    (l.releaseForRead r).Tidy refused := by
  have hvalid := (releaseForRead_respects l r).valid hl.valid
  by_cases hmem : r ∈ l.holders
  · rw [releaseForRead, if_pos hmem] at hvalid ⊢
    split at hvalid
    · exact hl
    · exact hl
    · split_ifs at hvalid ⊢ with hlast
      · exact hl.release hvalid rfl rfl (Finset.erase_subset ..) fun _ hne => absurd hlast hne
      · exact hl.release hvalid rfl rfl (Finset.erase_subset ..) fun h _ => h
    · rename_i hst
      refine hl.release hvalid rfl rfl (Finset.Subset.refl _) fun h => ?_
      rw [hst] at h
      cases h
  · rw [releaseForRead, if_neg hmem]
    exact hl

theorem releaseForWrite_tidy (hl : l.Tidy refused) (r : TxnId) :
    (l.releaseForWrite r).Tidy refused := by
  have hvalid := (releaseForWrite_respects l r).valid hl.valid
  unfold releaseForWrite at hvalid ⊢
  split_ifs at hvalid ⊢ with hmem
  · split at hvalid
    · exact hl
    · exact hl
    · rename_i hst
      refine hl.release hvalid rfl rfl (Finset.erase_subset ..) fun h => ?_
      rw [hst] at h
      cases h
    · exact hl.release hvalid rfl rfl (Finset.Subset.refl _) fun _ _ => rfl
  · exact hl

/-! ### The two branches -/

theorem JoinsWaiting.not_clean (h : l.JoinsWaiting r now) (hrefused : ¬ refused r) :
    ¬ (l.lockForRead r now now').2.Clean refused := by
  obtain ⟨hst, hnew, hfree, hwaits⟩ := h
  intro hclean
  simp only [lockForRead, hst, if_neg hnew] at hclean
  split at hclean
  · rename_i l' heq
    rw [heq] at hfree
    cases hfree
  · rename_i l' heq
    rw [heq] at hwaits
    exact hrefused (hclean r (Finset.mem_insert_self ..) hwaits).2

theorem UpgradesWaiting.not_clean (h : l.UpgradesWaiting r) :
    ¬ (l.lockForWrite r now now').2.Clean refused := by
  intro hclean
  have heq : l.lockForWrite r now now' = (true, { l with state := .lockedForReadWrite }) := by
    rw [lockForWrite, h.shared]
    exact if_pos h.alone
  rw [heq] at hclean
  cases (hclean r h.alone.2 h.waits).1

end Lock

/-! ### Sequences of calls -/

/-- A call, with the readings of the clock it makes. -/
inductive LockCall where
  | lockForRead (key : Key) (requester : TxnId) (now now' : Timeval)
  | lockForWrite (key : Key) (requester : TxnId) (now now' : Timeval)
  | releaseForRead (key : Key) (holder : TxnId)
  | releaseForWrite (key : Key) (holder : TxnId)

/-- The server, and who was refused a write and not granted one since. -/
structure LockRun where
  server : LockServer := {}
  refused : Finset (Key × TxnId) := ∅

namespace LockRun

/-- A call. -/
def step (x : LockRun) : LockCall → LockRun
  | .lockForRead key r now now' => { x with server := (x.server.lockForRead key r now now').2 }
  | .lockForWrite key r now now' =>
      { server := (x.server.lockForWrite key r now now').2
        refused := if (x.server.lockForWrite key r now now').1 then x.refused.erase (key, r)
          else insert (key, r) x.refused }
  | .releaseForRead key r => { x with server := x.server.releaseForRead key r }
  | .releaseForWrite key r => { x with server := x.server.releaseForWrite key r }

/-- No holder of a lock waits for it, but for a reader whose own write was refused. -/
def Hygiene (x : LockRun) : Prop :=
  ∀ key, (x.server.lock key).Clean fun r => (key, r) ∈ x.refused

/-- A granted request leaves an entry in the queue that no refused write accounts for. -/
def LeavesBehind (x : LockRun) (c : LockCall) : Prop :=
  match c with
  | .lockForRead key r now now' => (x.server.lockForRead key r now now').1 = true ∧
      r ∈ ((x.step c).server.lock key).waitQ ∧ (key, r) ∉ (x.step c).refused
  | .lockForWrite key r now now' => (x.server.lockForWrite key r now now').1 = true ∧
      r ∈ ((x.step c).server.lock key).waitQ ∧ (key, r) ∉ (x.step c).refused
  | _ => False

/-- The call is granted in one of the two branches that leave the entry of the requester. -/
def Strays (x : LockRun) : LockCall → Prop
  | .lockForRead key r now _ =>
      (x.server.lock key).JoinsWaiting r now ∧ (key, r) ∉ x.refused
  | .lockForWrite key r _ _ => (x.server.lock key).UpgradesWaiting r
  | _ => False

/-- All locks and queues in order. -/
def Tidy (x : LockRun) : Prop :=
  ∀ key, (x.server.lock key).Tidy fun r => (key, r) ∈ x.refused

variable {x : LockRun} {c : LockCall}

theorem Tidy.start : Tidy {} := by
  intro key
  refine ⟨⟨⟨fun _ => rfl, fun _ => rfl⟩, ?_⟩, ⟨List.nodup_nil, fun r => ?_⟩, fun r hr => ?_⟩
  · rintro (h | h) <;> cases h
  · exact ⟨fun h => absurd h List.not_mem_nil, fun h => absurd h (AList.notMem_empty r)⟩
  · exact absurd hr (Finset.notMem_empty r)

/-- One lock changes. -/
theorem Tidy.insert (hx : x.Tidy) {key : Key} {l : Lock} {refused : Finset (Key × TxnId)}
    (hl : l.Tidy fun r => (key, r) ∈ refused)
    (hother : ∀ key' r, key' ≠ key → (key', r) ∈ x.refused → (key', r) ∈ refused) :
    Tidy ⟨⟨x.server.locks.insert key l⟩, refused⟩ := by
  intro key'
  rw [LockServer.lock_insert]
  split_ifs with hkey
  · rw [hkey]
    exact hl
  · have hold := hx key'
    exact ⟨hold.valid, hold.queue, fun r hr hwait =>
      (hold.clean r hr hwait).imp_right (hother key' r hkey)⟩

/-- **A call** that does not stray keeps the order. -/
theorem Tidy.step (hx : x.Tidy) (hc : ¬ x.Strays c) : (x.step c).Tidy := by
  cases c with
  | lockForRead key r now now' =>
      refine hx.insert (Lock.lockForRead_tidy (hx key) fun hjoins => ?_) fun _ _ _ => id
      by_contra hrefused
      exact hc ⟨hjoins, hrefused⟩
  | lockForWrite key r now now' =>
      refine hx.insert (Lock.lockForWrite_tidy (hx key) hc fun hres => ?_) fun key' q hkey hq => ?_
      · have hres' : (x.server.lockForWrite key r now now').1 = false := hres
        rw [hres']
        exact ⟨Finset.mem_insert_self .., fun q hq => Finset.mem_insert_of_mem hq⟩
      · split_ifs
        · refine Finset.mem_erase.2 ⟨fun heq => ?_, hq⟩
          exact hkey (congrArg Prod.fst heq)
        · exact Finset.mem_insert_of_mem hq
  | releaseForRead key r =>
      simp only [LockRun.step, LockServer.releaseForRead]
      cases hl : x.server.locks.lookup key with
      | none => exact hx
      | some l =>
          have hlock : x.server.lock key = l := by simp [LockServer.lock, hl]
          refine hx.insert (Lock.releaseForRead_tidy ?_ r) fun _ _ _ => id
          rw [← hlock]
          exact hx key
  | releaseForWrite key r =>
      simp only [LockRun.step, LockServer.releaseForWrite]
      cases hl : x.server.locks.lookup key with
      | none => exact hx
      | some l =>
          have hlock : x.server.lock key = l := by simp [LockServer.lock, hl]
          refine hx.insert (Lock.releaseForWrite_tidy ?_ r) fun _ _ _ => id
          rw [← hlock]
          exact hx key

/-- The lock a call is about. -/
theorem lock_step_lockForRead {key : Key} {r : TxnId} {now now' : Timeval} :
    ((x.step (.lockForRead key r now now')).server.lock key) =
      ((x.server.lock key).lockForRead r now now').2 := by
  simp only [step, LockServer.lockForRead, LockServer.lock_insert, if_true]

theorem lock_step_lockForWrite {key : Key} {r : TxnId} {now now' : Timeval} :
    ((x.step (.lockForWrite key r now now')).server.lock key) =
      ((x.server.lock key).lockForWrite r now now').2 := by
  simp only [step, LockServer.lockForWrite, LockServer.lock_insert, if_true]

/-- A call that strays breaks the order. -/
theorem Strays.not_hygiene (hc : x.Strays c) : ¬ (x.step c).Hygiene := by
  intro hclean
  cases c with
  | lockForRead key r now now' =>
      have hkey := hclean key
      rw [lock_step_lockForRead] at hkey
      exact hc.1.not_clean hc.2 hkey
  | lockForWrite key r now now' =>
      have hkey := hclean key
      rw [lock_step_lockForWrite] at hkey
      exact Lock.UpgradesWaiting.not_clean hc hkey
  | releaseForRead key r => exact hc
  | releaseForWrite key r => exact hc

/-- A granted request is a holder, so that its entry needs a refused write. -/
theorem Hygiene.not_leavesBehind (hx : (x.step c).Hygiene) : ¬ x.LeavesBehind c := by
  cases c with
  | lockForRead key r now now' =>
      rintro ⟨hres, hwait, hrefused⟩
      have hheld := Lock.lockForRead_granted hres
      rw [← lock_step_lockForRead] at hheld
      exact hrefused (hx key r hheld hwait).2
  | lockForWrite key r now now' =>
      rintro ⟨hres, hwait, hrefused⟩
      have hheld := (Lock.lockForWrite_granted hres).2
      rw [← lock_step_lockForWrite] at hheld
      exact hrefused (hx key r hheld hwait).2
  | releaseForRead key r => exact id
  | releaseForWrite key r => exact id

end LockRun

open Calls LockRun

/-- **Queue hygiene.** For every sequence of calls with any readings of the clock: in every state
no holder of a lock waits for it, but for a reader whose own write was refused and not granted
since, and no granted request leaves an entry in the queue, exactly if no call joined the readers
of a lock with an entry in its queue, or upgraded with one. -/
theorem queue_hygiene (cs : List LockCall) :
    ((∀ before, before <+: cs → (run LockRun.step {} before).Hygiene) ∧
      Throughout LockRun.step (fun x c => ¬ x.LeavesBehind c) {} cs) ↔
    Throughout LockRun.step (fun x c => ¬ x.Strays c) {} cs := by
  have htidy : ∀ {cs}, Throughout LockRun.step (fun x c => ¬ x.Strays c) {} cs →
      (run LockRun.step {} cs).Tidy := by
    intro cs hcs
    exact hcs.invariant Tidy.start fun x c hx hc => hx.step hc
  induction cs using List.reverseRecOn with
  | nil =>
      refine ⟨fun _ => trivial, fun _ => ⟨fun before hbefore => ?_, trivial⟩⟩
      rw [List.prefix_nil.1 hbefore]
      exact fun key => (Tidy.start key).clean
  | append_singleton cs c ih =>
      rw [throughout_concat, throughout_concat]
      constructor
      · rintro ⟨hclean, hleaves, _⟩
        refine ⟨ih.1 ⟨fun before hbefore => ?_, hleaves⟩, fun hc => ?_⟩
        · exact hclean before (hbefore.trans (List.prefix_append ..))
        · have hlast := hclean _ (List.prefix_refl (cs ++ [c]))
          rw [run_concat] at hlast
          exact hc.not_hygiene hlast
      · rintro ⟨hcs, hc⟩
        obtain ⟨hclean, hleaves⟩ := ih.2 hcs
        have hnext := (htidy hcs).step hc
        have hhygiene : ((run LockRun.step {} cs).step c).Hygiene := fun key => (hnext key).clean
        refine ⟨fun before hbefore => ?_, hleaves, hhygiene.not_leavesBehind⟩
        rcases List.prefix_concat_iff.1 hbefore with rfl | hbefore
        · rw [run_concat]
          exact hhygiene
        · exact hclean before hbefore

/-! ### An upgrade -/

/-- Two readers; one of them asks for the write lock, waits, and upgrades when the other left. -/
def upgrade : List LockCall :=
  [.lockForRead "a" 1 {} {}, .lockForRead "a" 2 {} {}, .lockForWrite "a" 1 {} {},
    .releaseForRead "a" 2, .lockForWrite "a" 1 {} {}]

/-- It gives both locks back. -/
def released : List LockCall := upgrade ++ [.releaseForWrite "a" 1, .releaseForRead "a" 1]

/-- **The entry stays.** The writer waits for its own lock; when it has given everything back the
lock is free, and another writer is refused. -/
theorem upgrade_strays :
    ¬ (run LockRun.step {} upgrade).Hygiene ∧
      ((run LockRun.step {} released).server.lock "a").holders = ∅ ∧
      ((run LockRun.step {} released).server.lockForWrite "a" 3 {} {}).1 = false := by
  refine ⟨fun hclean => ?_, by decide +kernel, by decide +kernel⟩
  have hstate := (hclean "a" 1 (by decide +kernel) (by decide +kernel)).1
  exact absurd hstate (by decide +kernel)

end D2PC
