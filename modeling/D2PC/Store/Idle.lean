import D2PC.Store.Admission

/-!
# Prepares that leave the store as it is

A prepare that is refused is not without effect: it queues up for locks, drops requests that have
timed out, keeps the locks it was granted, and may end a pre-commit. It leaves the store alone if
it has nothing of this to do.

* `Lock.idleRead`, `Lock.idleWrite` : the requests that change nothing;
* `Lock.lockForBoth_eq_iff` : one request does not undo the other;
* `TxnStore.idle`, `TxnStore.prepare_same_iff` : the prepares that change nothing.
-/

namespace D2PC

namespace Lock

variable {l : Lock} {r w : TxnId} {now now' : Timeval} {q rest : List TxnId}
  {waiters : Table TxnId Waiter} {write : Bool}

/-! ### The queue -/

/-- The requester waits, and no request at the front of the queue has timed out. -/
def waits (l : Lock) (r : TxnId) (now : Timeval) : Bool :=
  decide (r ∈ l.waiters) &&
    l.waitQ.head?.all fun w => !((l.waiters.lookup w).getD {}).checkTimeout now

/-- What is dropped comes first in the queue, and includes the waiters that are forgotten. -/
theorem prune_split (now : Timeval) (q : List TxnId) (waiters : Table TxnId Waiter) :
    ∃ dropped, q = dropped ++ (prune now q waiters).1 ∧
      ∀ r ∈ waiters, r ∉ (prune now q waiters).2 → r ∈ dropped := by
  induction q generalizing waiters with
  | nil => exact ⟨[], rfl, fun r hr hnot => absurd hr hnot⟩
  | cons w q ih =>
      rw [prune]
      split_ifs with htime
      · obtain ⟨dropped, hq, hgone⟩ := ih (waiters.erase w)
        refine ⟨w :: dropped, by rw [List.cons_append, ← hq], fun r hr hnot => ?_⟩
        by_cases heq : r = w
        · rw [heq]
          exact List.mem_cons_self
        · exact List.mem_cons_of_mem _ (hgone r (AList.mem_erase.2 ⟨heq, hr⟩) hnot)
      · exact ⟨[], rfl, fun r hr hnot => absurd hr hnot⟩

theorem length_prune_le (now : Timeval) (q : List TxnId) (waiters : Table TxnId Waiter) :
    (prune now q waiters).1.length ≤ q.length := by
  obtain ⟨dropped, hq, -⟩ := prune_split now q waiters
  have hlen := congrArg List.length hq
  rw [List.length_append] at hlen
  omega

/-- Nothing is dropped if the front has not timed out. -/
theorem prune_eq_iff : prune now q waiters = (q, waiters) ↔
    (q.head?.all fun w => !((waiters.lookup w).getD {}).checkTimeout now) = true := by
  cases q with
  | nil => exact iff_of_true rfl rfl
  | cons w q =>
      rw [prune, List.head?_cons, Option.all_some, Bool.not_eq_true']
      split_ifs with htime
      · refine iff_of_false (fun h => ?_) (by rw [htime]; decide)
        have hle := length_prune_le now q (waiters.erase w)
        rw [h, List.length_cons] at hle
        omega
      · exact iff_of_true rfl (Bool.eq_false_iff.2 htime)

theorem prune_eq_of_length (h : (prune now q waiters).1.length = q.length) :
    prune now q waiters = (q, waiters) := by
  cases q with
  | nil => rfl
  | cons w q =>
      rw [prune] at h ⊢
      split_ifs with htime
      · rw [if_pos htime, List.length_cons] at h
        have hle := length_prune_le now q (waiters.erase w)
        omega
      · rfl

theorem waits_waitForLock : r ∈ (l.waitForLock r write now).waiters := by
  unfold waitForLock
  split_ifs with hmem
  · exact hmem
  · exact AList.mem_insert _ |>.2 (.inl rfl)

theorem length_waitForLock : (l.waitForLock r write now).waitQ.length =
    if r ∈ l.waiters then l.waitQ.length else l.waitQ.length + 1 := by
  unfold waitForLock
  split_ifs
  · rfl
  · exact List.length_append

theorem eq_singleton_of_mem {dropped : List TxnId} (hone : dropped.length = 1)
    (hr : r ∈ dropped) : dropped = [r] := by
  obtain ⟨d, rfl⟩ := List.length_eq_one_iff.1 hone
  rw [List.mem_singleton.1 hr]

theorem waitForLock_of_mem (h : r ∈ l.waiters) : l.waitForLock r write now = l := if_pos h

theorem waitForLock_eq_iff : l.waitForLock r write now = l ↔ r ∈ l.waiters := by
  constructor
  · intro h
    rw [← h]
    exact waits_waitForLock
  · exact waitForLock_of_mem

/-- A request that is not the next leaves the queue as it was if it waits already and nothing is
dropped: what is dropped and queued again comes later. -/
theorem requeue_eq_iff (write : Bool) (now' : Timeval)
    (hp : prune now l.waitQ l.waiters = (w :: rest, waiters))
    (hw : w ≠ r ∨ r ∈ waiters) :
    waitForLock { l with waitQ := w :: rest, waiters := waiters } r write now' = l ↔
      l.waits r now = true := by
  obtain ⟨dropped, hq, hgone⟩ := prune_split now l.waitQ l.waiters
  rw [hp] at hq hgone
  constructor
  · intro h
    have hr : r ∈ l.waiters := by
      rw [← h]
      exact waits_waitForLock
    by_cases hmem : r ∈ waiters
    · rw [waitForLock_of_mem hmem] at h
      have hsame : prune now l.waitQ l.waiters = (l.waitQ, l.waiters) := by
        rw [hp, ← congrArg Lock.waitQ h, ← congrArg Lock.waiters h]
      rw [waits, decide_eq_true hr, prune_eq_iff.1 hsame]
      rfl
    · -- only the requester was dropped, and it was not the first
      have hqueue : w :: rest ++ [r] = l.waitQ := by
        have hsplit := congrArg Lock.waitQ h
        rw [waitForLock, if_neg hmem] at hsplit
        exact hsplit
      have hlen := congrArg List.length (hqueue.trans hq)
      simp only [List.length_append, List.length_singleton] at hlen
      have hone : dropped.length = 1 := by omega
      rw [hq, eq_singleton_of_mem hone (hgone r hr hmem)] at hqueue
      exact (hw.elim (fun hne => hne (List.cons.inj hqueue).1) hmem).elim
  · intro h
    rw [waits, Bool.and_eq_true, decide_eq_true_eq] at h
    obtain ⟨hr, hfront⟩ := h
    have hsame := prune_eq_iff.2 hfront
    rw [hp] at hsame
    obtain ⟨hqueue, hwaiters⟩ := Prod.mk.inj hsame
    rw [hqueue, hwaiters]
    exact waitForLock_of_mem hr

/-- A refused attempt to take a free lock. -/
theorem tryAcquireLock_refused (h : (l.tryAcquireLock r write now now').1 = false) :
    ∃ w rest waiters, prune now l.waitQ l.waiters = (w :: rest, waiters) ∧ w ≠ r ∧
      (l.tryAcquireLock r write now now').2 =
        waitForLock { l with waitQ := w :: rest, waiters := waiters } r write now' := by
  unfold tryAcquireLock at h ⊢
  split at h
  · cases h
  · rename_i w rest waiters heq
    by_cases hw : w = r
    · rw [if_pos hw] at h
      cases h
    · exact ⟨w, rest, waiters, heq, hw, by rw [if_neg hw]⟩

/-! ### Requests that change nothing -/

/-- The read lock is refused to a requester that waits, or the requester has it. -/
def idleRead (l : Lock) (r : TxnId) (now : Timeval) : Bool :=
  match l.state with
  | .unlocked => l.waits r now && (l.next now).any fun w => decide (w.1 ≠ r)
  | .lockedForRead => decide (r ∈ l.holders) || (l.waits r now && (l.next now).any fun w => w.2)
  | .lockedForWrite => decide (r ∉ l.holders ∧ r ∈ l.waiters)
  | .lockedForReadWrite => decide (r ∈ l.holders ∨ r ∈ l.waiters)

/-- The write lock is refused to a requester that waits, or the requester has it. -/
def idleWrite (l : Lock) (r : TxnId) (now : Timeval) : Bool :=
  match l.state with
  | .unlocked => l.waits r now && (l.next now).any fun w => decide (w.1 ≠ r)
  | .lockedForRead => decide (¬ (l.holders.card = 1 ∧ r ∈ l.holders) ∧ r ∈ l.waiters)
  | _ => decide (r ∈ l.holders ∨ r ∈ l.waiters)

/-- A free lock stays as it is if the attempt to take it is refused and changes nothing. -/
theorem tryAcquireLock_eq_iff (hst : l.state = .unlocked) {st : LockState} (hne : st ≠ .unlocked) :
    (match l.tryAcquireLock r write now now' with
      | (true, l) => (true, { l with state := st, holders := insert r l.holders : Lock })
      | (false, l) => (false, l)).2 = l ↔
      (l.waits r now && (l.next now).any fun w => decide (w.1 ≠ r)) = true := by
  have hfst := tryAcquireLock_fst l r write now now'
  have hany : ((l.next now).any fun w => decide (w.1 ≠ r)) =
      !(l.tryAcquireLock r write now now').1 := by
    rw [hfst]
    cases l.next now with
    | none => rfl
    | some w => simp
  rw [hany]
  cases htry : (l.tryAcquireLock r write now now').1 with
  | true =>
      rw [Bool.not_true, Bool.and_false]
      refine iff_of_false (fun h => ?_) Bool.false_ne_true
      have hstate := congrArg Lock.state h
      split at hstate
      · exact hne (hstate.trans hst)
      · rename_i heq
        rw [heq] at htry
        cases htry
  | false =>
      obtain ⟨w, rest, waiters, hp, hw, hsnd⟩ := tryAcquireLock_refused htry
      rw [Bool.not_false, Bool.and_true, ← requeue_eq_iff write now' hp (.inl hw),
        ← hsnd]
      split
      · rename_i heq
        rw [heq] at htry
        cases htry
      · rename_i heq
        rw [heq]

/-- A writer that is next is at the front of the queue, and waits. -/
theorem isWriteNext_first (h : (l.isWriteNext now).1 = true) : ∃ w rest waiters,
    prune now l.waitQ l.waiters = (w :: rest, waiters) ∧ w ∈ waiters ∧
      (l.isWriteNext now).2 = { l with waitQ := w :: rest, waiters := waiters } := by
  unfold isWriteNext at h ⊢
  split at h
  · cases h
  · rename_i w rest waiters heq
    refine ⟨w, rest, waiters, heq, ?_, rfl⟩
    rw [← AList.lookup_isSome]
    cases hl : waiters.lookup w with
    | none =>
        rw [hl] at h
        cases h
    | some v => rfl

/-- **A request for the read lock** changes nothing exactly if it is idle. -/
theorem lockForRead_eq_iff : (l.lockForRead r now now').2 = l ↔ l.idleRead r now = true := by
  cases hst : l.state with
  | unlocked =>
      simp only [lockForRead, idleRead, hst]
      exact tryAcquireLock_eq_iff hst (by decide)
  | lockedForRead =>
      simp only [lockForRead, idleRead, hst]
      by_cases hmem : r ∈ l.holders
      · rw [if_pos hmem, decide_eq_true hmem]
        exact iff_of_true rfl (Bool.true_or _)
      · rw [if_neg hmem, decide_eq_false hmem, Bool.false_or, ← isWriteNext_fst]
        have hsame := isWriteNext_same l now
        cases hnext : (l.isWriteNext now).1 with
        | true =>
            rw [Bool.and_true]
            obtain ⟨w, rest, waiters, hp, hwaits, hsnd⟩ := isWriteNext_first hnext
            have hwait : w ≠ r ∨ r ∈ waiters := by
              by_cases hw : w = r
              · exact .inr (hw ▸ hwaits)
              · exact .inl hw
            rw [← requeue_eq_iff false now' hp hwait, ← hsnd]
            split
            · rename_i heq
              rw [heq]
            · rename_i heq
              rw [heq] at hnext
              cases hnext
        | false =>
            rw [Bool.and_false]
            refine iff_of_false (fun h => hmem ?_) Bool.false_ne_true
            split at h
            · rename_i heq
              rw [heq] at hnext
              cases hnext
            · rename_i heq
              rw [heq] at hsame
              rw [← h]
              exact Finset.mem_insert_self _ _
  | lockedForWrite =>
      simp only [lockForRead, idleRead, hst]
      split_ifs with hmem
      · refine iff_of_false (fun h => ?_) (by simp [hmem])
        have hstate := (congrArg Lock.state h).trans hst
        cases hstate
      · rw [decide_eq_true_eq, and_iff_right hmem]
        exact waitForLock_eq_iff
  | lockedForReadWrite =>
      simp only [lockForRead, idleRead, hst]
      split_ifs with hmem
      · rw [decide_eq_true (.inl hmem)]
        refine iff_of_true ?_ rfl
        rw [← hst]
      · rw [decide_eq_true_eq, or_iff_right hmem]
        exact waitForLock_eq_iff

/-- **A request for the write lock** changes nothing exactly if it is idle. -/
theorem lockForWrite_eq_iff : (l.lockForWrite r now now').2 = l ↔ l.idleWrite r now = true := by
  have hheld : (if r ∈ l.holders then (true, l) else (false, l.waitForLock r true now)).2 = l ↔
      decide (r ∈ l.holders ∨ r ∈ l.waiters) = true := by
    split_ifs with hmem
    · exact iff_of_true rfl (decide_eq_true (.inl hmem))
    · rw [decide_eq_true_eq, or_iff_right hmem]
      exact waitForLock_eq_iff
  cases hst : l.state with
  | unlocked =>
      simp only [lockForWrite, idleWrite, hst]
      exact tryAcquireLock_eq_iff hst (by decide)
  | lockedForRead =>
      simp only [lockForWrite, idleWrite, hst]
      split_ifs with hone
      · refine iff_of_false (fun h => ?_) (by simp [hone])
        have hstate := (congrArg Lock.state h).trans hst
        cases hstate
      · rw [decide_eq_true_eq, and_iff_right hone]
        exact waitForLock_eq_iff
  | lockedForWrite =>
      simp only [lockForWrite, idleWrite, hst]
      exact hheld
  | lockedForReadWrite =>
      simp only [lockForWrite, idleWrite, hst]
      exact hheld

/-! ### Two requests -/

/-- One that is dropped behind the front is not dropped alone. -/
theorem two_le_of_dropped {dropped : List TxnId} (hhead : (dropped ++ q).head? = some w)
    (hw : w ≠ r) (hr : r ∈ dropped) : 2 ≤ dropped.length := by
  cases dropped with
  | nil => cases hr
  | cons d ds =>
      have hd : d = w := Option.some.inj hhead
      have hmem : r ∈ ds := (List.mem_cons.1 hr).resolve_left fun h => hw (hd.symm.trans h.symm)
      have hpos := List.length_pos_of_mem hmem
      rw [List.length_cons]
      omega

/-- A refused attempt to take a free lock: what it drops comes first in the queue, the next is
another one, and the requester waits. -/
theorem refused_split (h : (l.tryAcquireLock r write now now').1 = false) :
    ∃ dropped w rest waiters, prune now l.waitQ l.waiters = (w :: rest, waiters) ∧ w ≠ r ∧
      l.waitQ = dropped ++ w :: rest ∧ (r ∈ l.waiters → r ∉ waiters → r ∈ dropped) ∧
      (l.tryAcquireLock r write now now').2 =
        waitForLock { l with waitQ := w :: rest, waiters := waiters } r write now' ∧
      (l.tryAcquireLock r write now now').2.waitQ.length =
        if r ∈ waiters then (w :: rest).length else (w :: rest).length + 1 := by
  obtain ⟨w, rest, waiters, hp, hw, hl⟩ := tryAcquireLock_refused h
  obtain ⟨dropped, hq, hgone⟩ := prune_split now l.waitQ l.waiters
  rw [hp] at hq hgone
  refine ⟨dropped, w, rest, waiters, hp, hw, hq, hgone r, hl, ?_⟩
  rw [hl]
  exact length_waitForLock

/-- A free lock that is refused to a reader and then to the same requester as a writer: if it is
as before in the end, it was as before in between. -/
theorem idle_of_refused_twice {n₁ n₁' : Timeval} (n₂ n₂' : Timeval)
    (h₁ : (l.tryAcquireLock r false n₁ n₁').1 = false)
    (h₂ : ((l.tryAcquireLock r false n₁ n₁').2.tryAcquireLock r true n₂ n₂').1 = false)
    (hback : ((l.tryAcquireLock r false n₁ n₁').2.tryAcquireLock r true n₂ n₂').2 = l) :
    (l.tryAcquireLock r false n₁ n₁').2 = l := by
  obtain ⟨dropped₁, w₁, rest₁, ws₁, hp₁, hw₁, hq₁, hgone₁, hl₁, hlen⟩ := refused_split h₁
  obtain ⟨dropped₂, w₂, rest₂, ws₂, hp₂, _, hq₂, hgone₂, hl₂, hlen'⟩ := refused_split h₂
  have hmid : r ∈ (l.tryAcquireLock r false n₁ n₁').2.waiters := by
    rw [hl₁]
    exact waits_waitForLock
  have hr : r ∈ l.waiters := by
    rw [← hback, hl₂]
    exact waits_waitForLock
  -- the first that is left in between is not the requester
  have hhead : (l.tryAcquireLock r false n₁ n₁').2.waitQ.head? = some w₁ := by
    rw [hl₁, waitForLock]
    split_ifs
    · rfl
    · rfl
  have hlen₁ := congrArg List.length hq₁
  have hlen₂ := congrArg List.length hq₂
  rw [List.length_append] at hlen₁ hlen₂
  rw [hback] at hlen'
  have hsecond : r ∉ ws₂ → 2 ≤ dropped₂.length := fun hnot =>
    two_le_of_dropped (hq₂ ▸ hhead) hw₁ (hgone₂ hmid hnot)
  by_cases hmem₁ : r ∈ ws₁
  · -- the requester was kept, and nothing was dropped
    rw [if_pos hmem₁] at hlen
    have hnone : dropped₁.length = 0 := by
      by_cases hmem₂ : r ∈ ws₂
      · rw [if_pos hmem₂] at hlen'
        omega
      · rw [if_neg hmem₂] at hlen'
        have := hsecond hmem₂
        omega
    have hsame : prune n₁ l.waitQ l.waiters = (l.waitQ, l.waiters) := by
      refine prune_eq_of_length ?_
      rw [hp₁]
      dsimp only
      omega
    rw [hp₁] at hsame
    obtain ⟨hqueue, hwaiters⟩ := Prod.mk.inj hsame
    rw [hl₁, hqueue, hwaiters]
    exact waitForLock_of_mem hr
  · -- the requester was dropped and queued again
    rw [if_neg hmem₁] at hlen
    have hdropped := hgone₁ hr hmem₁
    have hone := List.length_pos_of_mem hdropped
    by_cases hmem₂ : r ∈ ws₂
    · rw [if_pos hmem₂] at hlen'
      have hnone : dropped₂.length = 0 := by omega
      rw [List.length_eq_zero_iff.1 hnone, List.nil_append] at hq₂
      have hd : dropped₁.length = 1 := by omega
      have hqueue : l.waitQ = w₂ :: rest₂ := by
        rw [← hback, hl₂, waitForLock_of_mem hmem₂]
      rw [hq₂, ← hqueue, hq₁, eq_singleton_of_mem hd hdropped] at hhead
      exact absurd (Option.some.inj hhead).symm hw₁
    · rw [if_neg hmem₂] at hlen'
      have := hsecond hmem₂
      omega

variable {n₁ n₁' n₂ n₂' : Timeval}

/-- Two requests for a free lock that leave it as it was: both were refused. -/
theorem lockForRead_of_back_free (hst : l.state = .unlocked)
    (hback : ((l.lockForRead r n₁ n₁').2.lockForWrite r n₂ n₂').2 = l) :
    (l.lockForRead r n₁ n₁').2 = l := by
  have hstate := congrArg Lock.state hback
  rw [hst] at hstate
  simp only [lockForRead, hst] at hback hstate ⊢
  cases htry : (l.tryAcquireLock r false n₁ n₁').1 with
  | true =>
      exfalso
      split at hstate
      · simp only [lockForWrite] at hstate
        split_ifs at hstate
        have hkept := (waitForLock_same _ _ _ _).state.symm.trans hstate
        cases hkept
      · rename_i heq
        rw [heq] at htry
        cases htry
  | false =>
      have hsame := tryAcquireLock_same l r false n₁ n₁'
      have hl₁ : l.tryAcquireLock r false n₁ n₁' =
          (false, (l.tryAcquireLock r false n₁ n₁').2) := Prod.ext htry rfl
      have hst₁ : (l.tryAcquireLock r false n₁ n₁').2.state = .unlocked := hsame.state.trans hst
      rw [hl₁] at hback hstate ⊢
      simp only [lockForWrite, hst₁] at hback hstate ⊢
      cases htry₂ : ((l.tryAcquireLock r false n₁ n₁').2.tryAcquireLock r true n₂ n₂').1 with
      | true =>
          split at hstate
          · cases hstate
          · rename_i heq
            rw [heq] at htry₂
            cases htry₂
      | false =>
          refine idle_of_refused_twice n₂ n₂' htry htry₂ ?_
          split at hback
          · rename_i heq
            rw [heq] at htry₂
            cases htry₂
          · rename_i heq
            rw [heq]
            exact hback

/-- Two requests for a lock that is read: a new reader stays, and one that is refused waits when
it asks again. -/
theorem lockForRead_of_back_read (hst : l.state = .lockedForRead)
    (hback : ((l.lockForRead r n₁ n₁').2.lockForWrite r n₂ n₂').2 = l) :
    (l.lockForRead r n₁ n₁').2 = l := by
  have hkeeps := lockForWrite_holders (l.lockForRead r n₁ n₁').2 r n₂ n₂'
  rw [hback] at hkeeps
  have hsame := isWriteNext_same l n₁
  simp only [lockForRead, hst] at hback hkeeps ⊢
  by_cases hmem : r ∈ l.holders
  · rw [if_pos hmem]
  · rw [if_neg hmem] at hback hkeeps ⊢
    split at hback
    · rename_i l' heq
      rw [heq] at hsame
      have hwaits := waitForLock_same l' r false n₁'
      have hst' : (l'.waitForLock r false n₁').state = .lockedForRead :=
        hwaits.state.trans (hsame.state.trans hst)
      have hnot : ¬((l'.waitForLock r false n₁').holders.card = 1 ∧
          r ∈ (l'.waitForLock r false n₁').holders) := by
        rw [hwaits.holders, hsame.holders]
        exact fun h => hmem h.2
      simp only [lockForWrite, hst', if_neg hnot] at hback
      rwa [waitForLock_of_mem waits_waitForLock] at hback
    · rename_i l' heq
      rw [heq] at hkeeps
      exact absurd (hkeeps (Finset.mem_insert_self _ _)) hmem

/-- Two requests for a lock that is written: a holder that reads as well goes on doing so, and
others wait when they ask again. -/
theorem lockForRead_of_back_written
    (hst : l.state = .lockedForWrite ∨ l.state = .lockedForReadWrite)
    (hback : ((l.lockForRead r n₁ n₁').2.lockForWrite r n₂ n₂').2 = l) :
    (l.lockForRead r n₁ n₁').2 = l := by
  by_cases hmem : r ∈ l.holders
  · have hread : (l.lockForRead r n₁ n₁').2 = { l with state := .lockedForReadWrite } := by
      unfold lockForRead
      rcases hst with hst | hst
      · rw [hst]
        exact congrArg Prod.snd (if_pos hmem)
      · rw [hst]
        exact congrArg Prod.snd (if_pos hmem)
    rw [hread] at hback ⊢
    simp only [lockForWrite, if_pos hmem] at hback
    exact hback
  · rw [(lock_of_written hst hmem n₁ n₁').1] at hback ⊢
    have hsame := waitForLock_same l r false n₁
    rw [(lock_of_written (hsame.state ▸ hst) (hsame.holders ▸ hmem) n₂ n₂').2] at hback
    rwa [waitForLock_of_mem waits_waitForLock] at hback

/-- **One request does not undo the other.** The read and then the write request leave the lock
as it was exactly if both are idle. -/
theorem lockForBoth_eq_iff : ((l.lockForRead r n₁ n₁').2.lockForWrite r n₂ n₂').2 = l ↔
    l.idleRead r n₁ = true ∧ l.idleWrite r n₂ = true := by
  constructor
  · intro hback
    have hread : (l.lockForRead r n₁ n₁').2 = l := by
      cases hst : l.state with
      | unlocked => exact lockForRead_of_back_free hst hback
      | lockedForRead => exact lockForRead_of_back_read hst hback
      | lockedForWrite => exact lockForRead_of_back_written (.inl hst) hback
      | lockedForReadWrite => exact lockForRead_of_back_written (.inr hst) hback
    rw [hread] at hback
    exact ⟨lockForRead_eq_iff.1 hread, lockForWrite_eq_iff.1 hback⟩
  · rintro ⟨hread, hwrite⟩
    rw [lockForRead_eq_iff.2 hread]
    exact lockForWrite_eq_iff.2 hwrite

end Lock

/-! ### Stores -/

namespace LockStore

variable {s : LockStore} {id : TxnId}

/-- The tables and the lock of every key are the same. -/
structure Same (s s' : LockStore) : Prop where
  store : s'.store = s.store
  prepared : s'.prepared = s.prepared
  precommitted : s'.precommitted = s.precommitted
  locks : ∀ key, s'.locks.lock key = s.locks.lock key

theorem Same.refl (s : LockStore) : Same s s := ⟨rfl, rfl, rfl, fun _ => rfl⟩

/-- The transaction is prepared already; or it is refused, a stale read finds no pre-commit to
end, and no request for a lock changes anything. -/
def idle (s : LockStore) (clock : Clock) (id : TxnId) (txn : Transaction) : Bool :=
  decide (id ∈ s.prepared) || (!s.admits clock id txn &&
    (!txn.readSet.toList.any s.stale || decide (id ∉ s.precommitted)) &&
    ((s.readRequests txn).all fun key => (s.locks.lock key).idleRead id (clock false key).1) &&
    (s.writeRequests txn).all fun key => (s.locks.lock key).idleWrite id (clock true key).1)

/-- The lock of a key is as before exactly if the requests for it are idle. -/
theorem tried_eq_iff (s : LockStore) (clock : Clock) (id : TxnId) (reads writes : List Key)
    (key : Key) :
    writeTried clock id writes key (s.readTried clock id reads key) = s.locks.lock key ↔
      (key ∈ reads → (s.locks.lock key).idleRead id (clock false key).1 = true) ∧
        (key ∈ writes → (s.locks.lock key).idleWrite id (clock true key).1 = true) := by
  unfold writeTried readTried
  by_cases hread : key ∈ reads
  · by_cases hwrite : key ∈ writes
    · rw [if_pos hread, if_pos hwrite, Lock.lockForBoth_eq_iff]
      exact ⟨fun h => ⟨fun _ => h.1, fun _ => h.2⟩, fun h => ⟨h.1 hread, h.2 hwrite⟩⟩
    · rw [if_pos hread, if_neg hwrite, Lock.lockForRead_eq_iff]
      exact ⟨fun h => ⟨fun _ => h, fun hmem => absurd hmem hwrite⟩, fun h => h.1 hread⟩
  · by_cases hwrite : key ∈ writes
    · rw [if_neg hread, if_pos hwrite, Lock.lockForWrite_eq_iff]
      exact ⟨fun h => ⟨fun hmem => absurd hmem hread, fun _ => h⟩, fun h => h.2 hwrite⟩
    · rw [if_neg hread, if_neg hwrite]
      exact iff_of_true rfl ⟨fun hmem => absurd hmem hread, fun hmem => absurd hmem hwrite⟩

/-- A prepare leaves every lock as it was exactly if its requests are idle. -/
theorem prepare_locks_iff (clock : Clock) (txn : Transaction) (hnew : id ∉ s.prepared) :
    (∀ key, (s.prepare clock id txn true).2.locks.lock key = s.locks.lock key) ↔
      (∀ key ∈ s.readRequests txn,
        (s.locks.lock key).idleRead id (clock false key).1 = true) ∧
      ∀ key ∈ s.writeRequests txn,
        (s.locks.lock key).idleWrite id (clock true key).1 = true := by
  have hkeys := forall_congr' fun key => s.tried_eq_iff clock id
    (s.readRequests txn) (s.writeRequests txn) key
  simp only [prepare_lock clock txn hnew, hkeys, forall_and]

/-- What a refused prepare forgets: the pre-commit, if a read is stale. -/
theorem prepare_precommitted_iff (clock : Clock) (txn : Transaction) (hnew : id ∉ s.prepared) :
    (s.prepare clock id txn true).2.precommitted = s.precommitted ↔
      txn.readSet.toList.any s.stale = false ∨ id ∉ s.precommitted := by
  cases hany : txn.readSet.toList.any s.stale with
  | false => exact iff_of_true (prepare_fresh_precommitted s clock hnew hany) (.inl rfl)
  | true =>
      obtain ⟨_, habort⟩ := lockReads_lock clock txn.readSet.toList_nodup replyOk (by decide) hnew
      have hstop := habort.2 hany
      have herased : (s.prepare clock id txn true).2.precommitted = s.precommitted.erase id := by
        rcases lockReads_cases clock id txn.readSet.toList replyOk s (by decide) with
          ⟨hne, _, _⟩ | ⟨s', hacq, heq⟩
        · exact absurd hstop hne
        · have hnew' : id ∉ s'.prepared := by
            rw [hacq.prepared]
            exact hnew
          have hne : replyAbort ≠ replyOk := by decide
          have hlocks : s.getLocks clock id txn = (replyAbort, s'.abort id) := by
            unfold getLocks
            rw [heq]
            exact if_pos rfl
          unfold prepare
          rw [if_neg hnew, if_pos rfl, hlocks]
          dsimp only
          rw [if_neg hne, abort_eq_of_not_prepared hnew', hacq.precommitted]
      rw [herased, or_iff_right Bool.noConfusion]
      constructor
      · intro h hmem
        rw [← h] at hmem
        exact (AList.mem_erase.1 hmem).1 rfl
      · exact TxnStore.erase_of_notMem

/-- **A prepare of the locking store** leaves it as it is exactly if the prepare is idle. -/
theorem prepare_same_iff (clock : Clock) (txn : Transaction) :
    Same s (s.prepare clock id txn true).2 ↔ s.idle clock id txn = true := by
  by_cases hp : id ∈ s.prepared
  · rw [prepare, if_pos hp, idle, decide_eq_true hp]
    exact iff_of_true (Same.refl s) (Bool.true_or _)
  · have hcode := s.prepare_ok_iff clock id txn
    have htables : (s.prepare clock id txn true).2.store = s.store ∧
        ((s.prepare clock id txn true).2.prepared = s.prepared ↔
          ¬ (s.prepare clock id txn true).1 = replyOk) := by
      rcases s.prepare_cases clock id txn with ⟨hmem, _⟩ | ⟨_, s', hacq, hcases⟩
      · exact absurd hmem hp
      · rcases hcases with ⟨_, heq⟩ | ⟨ret, hret, heq⟩ | heq
        · rw [heq]
          refine ⟨hacq.store, iff_of_false (fun h => hp ?_) (not_not.2 rfl)⟩
          rw [← h]
          exact (AList.mem_insert _).2 (.inl rfl)
        · rw [heq]
          exact ⟨hacq.store, iff_of_true hacq.prepared hret⟩
        · rw [heq]
          have hne : replyAbort ≠ replyOk := by decide
          exact ⟨hacq.store, iff_of_true hacq.prepared hne⟩
    rw [idle, decide_eq_false hp, Bool.false_or]
    simp only [Bool.and_eq_true, Bool.or_eq_true, Bool.not_eq_true', decide_eq_true_eq,
      List.all_eq_true]
    rw [← Bool.not_eq_true, ← hcode, ← htables.2, ← prepare_precommitted_iff clock txn hp,
      and_assoc, ← prepare_locks_iff clock txn hp]
    constructor
    · rintro ⟨_, hprepared, hpre, hlocks⟩
      exact ⟨⟨hprepared, hpre⟩, hlocks⟩
    · rintro ⟨⟨hprepared, hpre⟩, hlocks⟩
      exact ⟨htables.1, hprepared, hpre, hlocks⟩

end LockStore

namespace OCCStore

/-- The transaction is prepared already; or it is refused and is not pre-committed. -/
def idle (s : OCCStore) (id : TxnId) (txn : Transaction) : Bool :=
  decide (id ∈ s.prepared) || (!s.admits id txn && decide (id ∉ s.precommitted))

/-- **A prepare of the optimistic store** leaves it as it is exactly if the prepare is idle. -/
theorem prepare_same_iff (s : OCCStore) (id : TxnId) (txn : Transaction) :
    (s.prepare id txn true).2 = s ↔ s.idle id txn = true := by
  have hcode := s.prepare_ok_iff id txn
  rcases s.prepare_cases id txn with ⟨hp, heq⟩ | ⟨hp, heq⟩ | ⟨hp, _, heq⟩
  · rw [heq, idle, decide_eq_true hp]
    exact iff_of_true rfl (Bool.true_or _)
  · rw [heq] at hcode ⊢
    have hne : replyFail ≠ replyOk := by decide
    rw [idle, decide_eq_false hp, Bool.false_or,
      Bool.eq_false_iff.2 fun h => hne (hcode.2 h), Bool.not_false, Bool.true_and,
      decide_eq_true_eq]
    show s.abort id = s ↔ _
    unfold abort
    split_ifs with hpre
    · refine iff_of_false (fun h => ?_) (not_not.2 hpre)
      have hmem := hpre
      rw [← congrArg OCCStore.precommitted h] at hmem
      exact (AList.mem_erase.1 hmem).1 rfl
    · exact iff_of_true rfl hpre
  · rw [heq] at hcode ⊢
    rw [idle, decide_eq_false hp, hcode.1 rfl]
    refine iff_of_false (fun h => hp ?_) Bool.false_ne_true
    rw [← congrArg OCCStore.prepared h]
    exact (AList.mem_insert _).2 (.inl rfl)

end OCCStore

namespace TxnStore

/-- The stores are the same. -/
def Same : TxnStore → TxnStore → Prop
  | .occ s, .occ s' => s' = s
  | .lock s, .lock s' => LockStore.Same s s'
  | _, _ => False

theorem Same.refl (s : TxnStore) : Same s s := by
  cases s with
  | occ s => exact rfl
  | lock s => exact LockStore.Same.refl s

/-- The prepares that change nothing. -/
def idle (clock : Clock) (id : TxnId) (txn : Transaction) : TxnStore → Bool
  | .occ s => s.idle id txn
  | .lock s => s.idle clock id txn

/-- **A prepare that changes nothing**, of either store. -/
theorem prepareUpcall_same_iff (s : TxnStore) (clock : Clock) (id : TxnId)
    (m : TransactionMessage) : Same s (s.prepareUpcall clock id m true).2 ↔
      s.idle clock id (Transaction.ofMessage m) = true := by
  cases s with
  | occ s => exact s.prepare_same_iff id (Transaction.ofMessage m)
  | lock s => exact LockStore.prepare_same_iff clock (Transaction.ofMessage m)

end TxnStore

end D2PC
