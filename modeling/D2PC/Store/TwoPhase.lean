import D2PC.Store.Exclusion
import D2PC.Store.LockStore

/-!
# Two-phase locking

What holds of the locking store after any sequence of calls in which a transaction number
stands for one transaction. The locks a prepared transaction took are held until it leaves
the prepared ones; then all of them are given back, also those of keys that are both read
and written, which go through three states of their lock.

* `Lock.Lawful` : a lock is held only in modes its holder asked for;
* `LockStore.dropLocks_free` : dropping the locks of a transaction leaves it none;
* `LockStore.two_phase_locking` : the invariant over sequences of calls.
-/

namespace D2PC

namespace Lock

/-- Every holder asked for the mode the lock is in: `reads` and `writes` tell who asks for
which mode. -/
def Lawful (reads writes : TxnId → Prop) (l : Lock) : Prop :=
  ∀ r ∈ l.holders, (l.state = .lockedForRead → reads r) ∧ (l.state = .lockedForWrite → writes r) ∧
    (l.state = .lockedForReadWrite → reads r ∧ writes r)

theorem Lawful.of_same {reads writes : TxnId → Prop} {l l' : Lock} (h : l.Lawful reads writes)
    (hsame : SameHolders l l') : l'.Lawful reads writes := by
  unfold Lawful
  rw [hsame.state, hsame.holders]
  exact h

variable {reads writes : TxnId → Prop} {l : Lock} {r : TxnId}

theorem lockForRead_lawful (hl : l.Valid) (h : l.Lawful reads writes) (hr : reads r)
    (now now' : Timeval) : (l.lockForRead r now now').2.Lawful reads writes := by
  unfold lockForRead
  split
  · rename_i hst
    have hsame := tryAcquireLock_same l r false now now'
    split
    · rename_i l' heq
      rw [heq] at hsame
      have hempty : l'.holders = ∅ := hsame.holders.trans (hl.unlocked.1 hst)
      intro q hq
      rw [hempty, insert_empty_eq, Finset.mem_singleton] at hq
      subst hq
      exact ⟨fun _ => hr, (fun h => by cases h), fun h => by cases h⟩
    · rename_i l' heq
      rw [heq] at hsame
      exact h.of_same hsame
  · rename_i hst
    split_ifs
    · exact h
    · have hsame := isWriteNext_same l now
      split
      · rename_i l' heq
        rw [heq] at hsame
        exact (h.of_same hsame).of_same (waitForLock_same _ _ _ _)
      · rename_i l' heq
        rw [heq] at hsame
        have hst' : l'.state = .lockedForRead := hsame.state.trans hst
        intro q hq
        simp only [hst']
        rcases Finset.mem_insert.1 hq with rfl | hq
        · exact ⟨fun _ => hr, (fun h => by cases h), fun h => by cases h⟩
        · rw [show l'.holders = l.holders from hsame.holders] at hq
          exact ⟨fun _ => (h q hq).1 hst, (fun h => by cases h), fun h => by cases h⟩
  · rename_i hunlocked hread
    split_ifs with hmem
    · have hwrite : l.WriteHeld r := by
        refine ⟨?_, hmem⟩
        cases hs : l.state <;> simp_all
      intro q hq
      have hqr : q = r := hl.eq_of_writeHeld hwrite hq
      subst hqr
      refine ⟨(fun h => by cases h), (fun h => by cases h), fun _ => ⟨hr, ?_⟩⟩
      rcases hwrite.1 with hs | hs
      · exact (h q hmem).2.1 hs
      · exact ((h q hmem).2.2 hs).2
    · exact h.of_same (waitForLock_same _ _ _ _)

theorem lockForWrite_lawful (hl : l.Valid) (h : l.Lawful reads writes) (hw : writes r)
    (now now' : Timeval) : (l.lockForWrite r now now').2.Lawful reads writes := by
  unfold lockForWrite
  split
  · rename_i hst
    have hsame := tryAcquireLock_same l r true now now'
    split
    · rename_i l' heq
      rw [heq] at hsame
      have hempty : l'.holders = ∅ := hsame.holders.trans (hl.unlocked.1 hst)
      intro q hq
      rw [hempty, insert_empty_eq, Finset.mem_singleton] at hq
      subst hq
      exact ⟨(fun h => by cases h), fun _ => hw, fun h => by cases h⟩
    · rename_i l' heq
      rw [heq] at hsame
      exact h.of_same hsame
  · rename_i hst
    split_ifs with hone
    · intro q hq
      have hqr : q = r := Finset.card_le_one.1 hone.1.le q hq r hone.2
      subst hqr
      exact ⟨(fun h => by cases h), (fun h => by cases h), fun _ => ⟨(h q hq).1 hst, hw⟩⟩
    · exact h.of_same (waitForLock_same _ _ _ _)
  · split_ifs
    · exact h
    · exact h.of_same (waitForLock_same _ _ _ _)

theorem releaseForRead_lawful (h : l.Lawful reads writes) (r : TxnId) :
    (l.releaseForRead r).Lawful reads writes := by
  unfold releaseForRead
  split
  · split
    · exact h
    · exact h
    · rename_i hst
      split
      · intro q hq
        exact ⟨(fun h => by cases h), (fun h => by cases h), fun h => by cases h⟩
      · intro q hq
        simp only [hst]
        exact ⟨fun _ => (h q (Finset.mem_of_mem_erase hq)).1 hst, (fun h => by cases h), fun h => by cases h⟩
    · rename_i hst
      intro q hq
      exact ⟨(fun h => by cases h), fun _ => ((h q hq).2.2 hst).2, fun h => by cases h⟩
  · exact h

theorem releaseForWrite_lawful (h : l.Lawful reads writes) (r : TxnId) :
    (l.releaseForWrite r).Lawful reads writes := by
  unfold releaseForWrite
  split
  · split
    · exact h
    · exact h
    · intro q hq
      exact ⟨(fun h => by cases h), (fun h => by cases h), fun h => by cases h⟩
    · rename_i hst
      intro q hq
      exact ⟨fun _ => ((h q hq).2.2 hst).1, (fun h => by cases h), fun h => by cases h⟩
  · exact h

end Lock

namespace LockServer

/-- Every lock is consistent and held in modes its holders ask for. -/
def LawfulFor (reads writes : Key → TxnId → Prop) (s : LockServer) : Prop :=
  ∀ key, (s.lock key).Valid ∧ (s.lock key).Lawful (reads key) (writes key)

/-- The same, where a number stands for one transaction. -/
def Lawful (f : TxnId → Transaction) (s : LockServer) : Prop :=
  ∀ key, (s.lock key).Valid ∧
    (s.lock key).Lawful (fun r => key ∈ (f r).readSet) (fun r => key ∈ (f r).writeSet)

/-- The call asks for a mode the transaction needs. -/
def Call.LawfulFor (reads writes : Key → TxnId → Prop) (c : Call) : Prop :=
  match c.op with
  | .lockForRead _ _ => reads c.key c.requester
  | .lockForWrite _ _ => writes c.key c.requester
  | _ => True

theorem LawfulFor.call {reads writes : Key → TxnId → Prop} {s : LockServer}
    (h : s.LawfulFor reads writes) {c : Call} (hc : c.LawfulFor reads writes) :
    (s.call c).LawfulFor reads writes := by
  intro key
  rw [lock_call]
  split_ifs with hkey
  · obtain ⟨hvalid, hlawful⟩ := h key
    refine ⟨(Lock.call_respects _ _ _).valid hvalid, ?_⟩
    obtain ⟨k, r, op⟩ := c
    obtain rfl : key = k := hkey
    cases op with
    | lockForRead now now' => exact Lock.lockForRead_lawful hvalid hlawful hc now now'
    | lockForWrite now now' => exact Lock.lockForWrite_lawful hvalid hlawful hc now now'
    | releaseForRead => exact Lock.releaseForRead_lawful hlawful r
    | releaseForWrite => exact Lock.releaseForWrite_lawful hlawful r
  · exact h key

/-- A lock of a list that is released: what the release brings about stays. -/
theorem release_all {P Q : Lock → Prop} {r : TxnId} {op : Lock.Call} {key : Key}
    (hrelease : ∀ l, Q l → P (l.call r op)) (hkeep : ∀ l, P l → P (l.call r op))
    {keys : List Key} (hkey : key ∈ keys) {s : LockServer} (hs : Q (s.lock key)) :
    P ((Calls.run call s (keys.map fun k => ⟨k, r, op⟩)).lock key) := by
  induction keys generalizing s with
  | nil => cases hkey
  | cons k keys ih =>
      rw [List.map_cons, Calls.run_cons]
      by_cases hk : key = k
      · subst hk
        refine Calls.run_invariant (J := fun s : LockServer => P (s.lock key)) ?_ ?_
        · rw [lock_call, if_pos rfl]
          exact hrelease _ hs
        · intro c hc s' hs'
          obtain ⟨k', _, rfl⟩ := List.mem_map.1 hc
          rw [lock_call]
          split_ifs
          · exact hkeep _ hs'
          · exact hs'
      · apply ih ((List.mem_cons.1 hkey).resolve_left hk)
        rw [lock_call, if_neg hk]
        exact hs

/-- What every release of one requester keeps. -/
theorem release_keeps {P : Lock → Prop} {r : TxnId} {op : Lock.Call} {key : Key}
    (hkeep : ∀ l, P l → P (l.call r op)) (keys : List Key) {s : LockServer}
    (hs : P (s.lock key)) :
    P ((Calls.run call s (keys.map fun k => ⟨k, r, op⟩)).lock key) := by
  refine Calls.run_invariant (J := fun s : LockServer => P (s.lock key)) hs ?_
  intro c hc s' hs'
  obtain ⟨k', _, rfl⟩ := List.mem_map.1 hc
  rw [lock_call]
  split_ifs
  · exact hkeep _ hs'
  · exact hs'

end LockServer

namespace LockStore

open LockServer (Call)

/-! ### Dropping locks -/

theorem dropLocks_eq (locks : LockServer) (id : TxnId) (txn : Transaction) :
    dropLocks locks id txn = Calls.run LockServer.call
      (Calls.run LockServer.call locks
        ((txn.writeSet.toList.map Prod.fst).map fun k => ⟨k, id, .releaseForWrite⟩))
      ((txn.readSet.toList.map Prod.fst).map fun k => ⟨k, id, .releaseForRead⟩) := by
  simp only [dropLocks, Calls.run, List.foldl_map]
  rfl

section Dropping

variable {reads writes : Key → TxnId → Prop} {locks : LockServer}

theorem dropLocks_lawful (h : locks.LawfulFor reads writes) (id : TxnId) (txn : Transaction) :
    (dropLocks locks id txn).LawfulFor reads writes := by
  rw [dropLocks_eq]
  have hstep : ∀ {op : Lock.Call} (keys : List Key) {s : LockServer}, s.LawfulFor reads writes →
      (op = .releaseForRead ∨ op = .releaseForWrite) →
      (Calls.run LockServer.call s (keys.map fun k => ⟨k, id, op⟩)).LawfulFor reads writes := by
    intro op keys s hs hop
    refine Calls.run_invariant (J := LockServer.LawfulFor reads writes) hs ?_
    intro c hc s' hs'
    obtain ⟨k, _, rfl⟩ := List.mem_map.1 hc
    apply hs'.call
    rcases hop with rfl | rfl <;> trivial
  exact hstep _ (hstep _ h (.inr rfl)) (.inl rfl)

/-- **Dropping locks.** The write locks are given up first. A key that is also read is then
held for reading, and given up with the read locks. -/
theorem dropLocks_free (h : locks.LawfulFor reads writes) {id : TxnId} {txn : Transaction}
    {key : Key} (hreads : reads key id → key ∈ txn.readSet)
    (hwrites : writes key id → key ∈ txn.writeSet) :
    id ∉ ((dropLocks locks id txn).lock key).holders := by
  rw [dropLocks_eq]
  set writeKeys := txn.writeSet.toList.map Prod.fst with hwriteKeys
  set readKeys := txn.readSet.toList.map Prod.fst with hreadKeys
  have hmem_writes : ∀ {k}, k ∈ txn.writeSet → k ∈ writeKeys := fun hk =>
    Table.mem_keys_toList.2 hk
  have hmem_reads : ∀ {k}, k ∈ txn.readSet → k ∈ readKeys := fun hk =>
    Table.mem_keys_toList.2 hk
  -- after the write locks: whatever is still held is held for reading
  let Fine : Lock → Prop := fun l =>
    l.Lawful (reads key) (writes key) ∧ (id ∈ l.holders → l.state = .lockedForRead)
  have hkeep : ∀ l, Fine l → Fine (l.call id .releaseForWrite) := by
    intro l hl
    refine ⟨Lock.releaseForWrite_lawful hl.1 id, ?_⟩
    by_cases hmem : id ∈ l.holders
    · simp only [Lock.call, Lock.releaseForWrite, if_pos hmem, hl.2 hmem]
      exact fun _ => trivial
    · simp only [Lock.call, Lock.releaseForWrite, if_neg hmem]
      exact hl.2
  have hfirst : Fine ((Calls.run LockServer.call locks
      (writeKeys.map fun k => ⟨k, id, .releaseForWrite⟩)).lock key) := by
    obtain ⟨hvalid, hlawful⟩ := h key
    by_cases hkey : key ∈ txn.writeSet
    · refine LockServer.release_all (Q := fun l => l.Valid ∧ l.Lawful (reads key) (writes key)) ?_
        hkeep (hmem_writes hkey) (h key)
      intro l hl
      refine ⟨Lock.releaseForWrite_lawful hl.2 id, ?_⟩
      by_cases hmem : id ∈ l.holders
      · simp only [Lock.call, Lock.releaseForWrite, if_pos hmem]
        cases hst : l.state with
        | unlocked =>
            rw [hl.1.unlocked.1 hst] at hmem
            exact absurd hmem (Finset.notMem_empty id)
        | lockedForRead => exact fun _ => hst
        | lockedForWrite => exact fun hin => absurd hin (Finset.notMem_erase id _)
        | lockedForReadWrite => exact fun _ => rfl
      · simp only [Lock.call, Lock.releaseForWrite, if_neg hmem]
        exact fun hin => absurd hin hmem
    · apply LockServer.release_keeps hkeep
      refine ⟨hlawful, ?_⟩
      intro hmem
      cases hst : (locks.lock key).state with
      | unlocked =>
          rw [hvalid.unlocked.1 hst] at hmem
          exact absurd hmem (Finset.notMem_empty id)
      | lockedForRead => rfl
      | lockedForWrite => exact absurd (hwrites ((hlawful id hmem).2.1 hst)) hkey
      | lockedForReadWrite => exact absurd (hwrites ((hlawful id hmem).2.2 hst).2) hkey
  -- after the read locks: nothing
  have hgone : ∀ l : Lock, id ∉ l.holders → id ∉ (l.call id .releaseForRead).holders := by
    intro l hnot
    simp only [Lock.call, Lock.releaseForRead, if_neg hnot]
    exact hnot
  by_cases hkey : key ∈ txn.readSet
  · refine LockServer.release_all (P := fun l => id ∉ l.holders) (Q := Fine) ?_ hgone
      (hmem_reads hkey) hfirst
    intro l hl
    by_cases hmem : id ∈ l.holders
    · simp only [Lock.call, Lock.releaseForRead, if_pos hmem, hl.2 hmem]
      split <;> exact Finset.notMem_erase id _
    · exact hgone l hmem
  · apply LockServer.release_keeps hgone
    intro hmem
    exact hkey (hreads ((hfirst.1 id hmem).1 (hfirst.2 hmem)))

end Dropping

/-! ### Taking locks -/

section Taking

variable {readers writers : Key → TxnId → Prop} {id : TxnId}

theorem lockReads_lawful (clock : Clock) {reads : List (Key × Timestamp)}
    (hreads : ∀ r ∈ reads, readers r.1 id) (ret : ℕ) {s : LockStore}
    (hs : s.locks.LawfulFor readers writers) (hnot : id ∉ s.prepared) :
    (lockReads clock id reads ret s).2.locks.LawfulFor readers writers := by
  induction reads generalizing ret s with
  | nil => exact hs
  | cons r rs ih =>
      have hrs : ∀ r' ∈ rs, readers r'.1 id := fun r' hr' =>
        hreads r' (List.mem_cons_of_mem _ hr')
      cases hget : s.store.get r.1 with
      | none =>
          rw [lockReads_absent hget]
          exact ih hrs ret hs hnot
      | some cur =>
          by_cases hstale : r.2 < cur.1
          · rw [lockReads_stale hget hstale, abort_eq_of_not_prepared hnot]
            exact hs
          · rw [lockReads_fresh hget hstale]
            refine ih hrs _ ?_ hnot
            exact hs.call (c := ⟨r.1, id, .lockForRead (clock false r.1).1 (clock false r.1).2⟩)
              (hreads r (List.mem_cons_self ..))

theorem lockWrites_lawful (clock : Clock) {writes : List (Key × Value)}
    (hwrites : ∀ w ∈ writes, writers w.1 id) (ret : ℕ) {s : LockStore}
    (hs : s.locks.LawfulFor readers writers) :
    (lockWrites clock id writes ret s).2.locks.LawfulFor readers writers := by
  induction writes generalizing ret s with
  | nil => exact hs
  | cons w ws ih =>
      refine ih (fun w' hw' => hwrites w' (List.mem_cons_of_mem _ hw')) _ ?_
      exact hs.call (c := ⟨w.1, id, .lockForWrite (clock true w.1).1 (clock true w.1).2⟩)
        (hwrites w (List.mem_cons_self ..))

theorem prepare_lawful (clock : Clock) {txn : Transaction}
    (hreads : ∀ key ∈ txn.readSet, readers key id)
    (hwrites : ∀ key ∈ txn.writeSet, writers key id) {s : LockStore}
    (hs : s.locks.LawfulFor readers writers) :
    (s.prepare clock id txn true).2.locks.LawfulFor readers writers := by
  have hread : ∀ r ∈ txn.readSet.toList, readers r.1 id := fun r hr =>
    hreads r.1 (Table.mem_keys_toList.1 (List.mem_map_of_mem hr))
  have hwrite : ∀ w ∈ txn.writeSet.toList, writers w.1 id := fun w hw =>
    hwrites w.1 (Table.mem_keys_toList.1 (List.mem_map_of_mem hw))
  unfold prepare
  by_cases hp : id ∈ s.prepared
  · rw [if_pos hp]
    exact hs
  · have hlocks : (s.getLocks clock id txn).2.locks.LawfulFor readers writers := by
      have hfirst := lockReads_lawful clock hread replyOk hs hp
      unfold getLocks
      dsimp only
      split
      · exact hfirst
      · exact lockWrites_lawful clock hwrite _ hfirst
    rw [if_neg hp, if_pos rfl]
    dsimp only
    split
    · exact hlocks
    · exact hlocks

end Taking

/-! ### Sequences of calls -/

/-- The calls that change the store; every prepare is checked. -/
inductive Call where
  | load (key : Key) (value : Value) (timestamp : Timestamp)
  | prepare (clock : Clock) (id : TxnId) (txn : Transaction)
  | preCommit (id : TxnId)
  | commit (id : TxnId) (timestamp : ℕ)
  | abort (id : TxnId)

def call (s : LockStore) : Call → LockStore
  | .load key value timestamp => s.load key value timestamp
  | .prepare clock id txn => (s.prepare clock id txn true).2
  | .preCommit id => s.preCommit id
  | .commit id timestamp => s.commit id timestamp
  | .abort id => s.abort id

/-- The store after a sequence of calls on an empty one. -/
abbrev after (ops : List Call) : LockStore := Calls.run call {} ops

/-- `id` was prepared as `txn` in the store `s`, and has been prepared since. -/
def PreparedIn (ops : List Call) (id : TxnId) (txn : Transaction) (s : LockStore) : Prop :=
  ∃ clock, Calls.Since call (fun s => s.prepared.lookup id = some txn) {} ops
    (.prepare clock id txn) s

/-- What a call does to the prepared transactions and their locks. -/
structure Moves (s : LockStore) (op : Call) (s' : LockStore) : Prop where
  locks : ∃ id, LockServer.Respects id s.locks s'.locks ∧
    ∀ a txn, s'.prepared.lookup a = some txn →
      (s.prepared.lookup a = some txn ∧ (a ≠ id ∨ s'.locks = s.locks)) ∨
        ((∃ clock, op = .prepare clock a txn) ∧ a ∉ s.prepared ∧ Locked s s' a txn)

/-- The locks of one transaction are dropped, and it leaves the prepared ones. -/
theorem Moves.drop {s s' : LockStore} {op : Call} {id : TxnId} {txn : Transaction}
    (hlocks : s'.locks = dropLocks s.locks id txn) (hprep : s'.prepared = s.prepared.erase id) :
    Moves s op s' := by
  refine ⟨id, ?_, ?_⟩
  · rw [hlocks]
    exact dropLocks_respects s.locks id txn
  · intro a ta ha
    rw [hprep, Table.lookup_erase_eq] at ha
    split_ifs at ha with haid
    exact .inl ⟨ha, .inl haid⟩

theorem Moves.same {s s' : LockStore} {op : Call} (hlocks : s'.locks = s.locks)
    (hprep : s'.prepared = s.prepared) : Moves s op s' := by
  refine ⟨0, ?_, ?_⟩
  · rw [hlocks]
    exact LockServer.Respects.refl 0 s.locks
  · intro a ta ha
    rw [hprep] at ha
    exact .inl ⟨ha, .inr hlocks⟩

theorem call_moves (s : LockStore) (op : Call) : Moves s op (s.call op) := by
  cases op with
  | load key value timestamp => exact .same rfl rfl
  | prepare clock id txn =>
      rcases s.prepare_cases clock id txn with ⟨_, heq⟩ | ⟨hnot, s', hacq, hcases⟩
      · simp only [call, heq]
        exact .same rfl rfl
      · have hold : ∀ a ta, s'.prepared.lookup a = some ta →
            s.prepared.lookup a = some ta ∧ a ≠ id := by
          intro a ta ha
          rw [hacq.prepared] at ha
          refine ⟨ha, ?_⟩
          rintro rfl
          exact hnot (AList.lookup_isSome.1 (by rw [ha]; rfl))
        rcases hcases with ⟨hlocked, heq⟩ | ⟨ret, _, heq⟩ | heq
        · simp only [call, heq]
          refine ⟨id, hacq.locks, ?_⟩
          intro a ta ha
          simp only [Table.lookup_insert_eq] at ha
          split_ifs at ha with haid
          · cases ha
            subst haid
            exact .inr ⟨⟨clock, rfl⟩, hnot, hlocked.current, hlocked.reads, hlocked.writes⟩
          · exact .inl ⟨(hold a ta ha).1, .inl haid⟩
        · simp only [call, heq]
          refine ⟨id, hacq.locks, ?_⟩
          intro a ta ha
          exact .inl ⟨(hold a ta ha).1, .inl (hold a ta ha).2⟩
        · simp only [call, heq]
          refine ⟨id, hacq.locks, ?_⟩
          intro a ta ha
          exact .inl ⟨(hold a ta ha).1, .inl (hold a ta ha).2⟩
  | preCommit id => exact .drop rfl rfl
  | commit id timestamp =>
      simp only [call, commit]
      split
      · exact .same rfl rfl
      · split
        · exact .drop rfl rfl
        · exact .same rfl rfl
  | abort id =>
      simp only [call, abort]
      split
      · exact .same rfl rfl
      · split
        · exact .drop rfl rfl
        · exact .same rfl rfl

theorem call_lawful {f : TxnId → Transaction} {s : LockStore} (hs : s.locks.Lawful f) {op : Call}
    (hop : ∀ clock id txn, op = .prepare clock id txn → txn = f id) :
    (s.call op).locks.Lawful f := by
  cases op with
  | load key value timestamp => exact hs
  | prepare clock id txn =>
      rw [hop clock id txn rfl]
      exact prepare_lawful clock (fun _ h => h) (fun _ h => h) hs
  | preCommit id => exact dropLocks_lawful hs id _
  | commit id timestamp =>
      simp only [call, commit]
      split
      · exact hs
      · split
        · exact dropLocks_lawful hs id _
        · exact hs
  | abort id =>
      simp only [call, abort]
      split
      · exact hs
      · split
        · exact dropLocks_lawful hs id _
        · exact hs

/-- The locks `id` took for `txn` when it was prepared in `s` are held. -/
structure Holds (locks : LockServer) (s : LockStore) (id : TxnId) (txn : Transaction) : Prop where
  writes : ∀ key ∈ txn.writeSet, (locks.lock key).WriteHeld id
  reads : ∀ key ∈ txn.readSet, (s.store.get key).isSome → id ∈ (locks.lock key).holders

/-- **The invariant.** Locks are held lawfully, and those of a prepared transaction are held. -/
theorem locking_invariant {f : TxnId → Transaction} {ops : List Call}
    (hf : ∀ clock id txn, .prepare clock id txn ∈ ops → txn = f id) :
    (after ops).locks.Lawful f ∧
      ∀ a txn, (after ops).prepared.lookup a = some txn →
        txn = f a ∧ ∃ s, PreparedIn ops a txn s ∧ Holds (after ops).locks s a txn := by
  induction ops using List.reverseRecOn with
  | nil =>
      refine ⟨fun key => ⟨LockServer.after_valid [] key, ?_⟩, ?_⟩
      · intro r hr
        exact absurd hr (Finset.notMem_empty r)
      · intro a txn ha
        simp at ha
  | append_singleton ops op ih =>
      obtain ⟨hlawful, hprep⟩ := ih fun clock id txn hmem =>
        hf clock id txn (List.mem_append_left _ hmem)
      have hrun : after (ops ++ [op]) = (after ops).call op := Calls.run_concat ..
      have hop : ∀ clock id txn, op = .prepare clock id txn → txn = f id := fun clock id txn h =>
        hf clock id txn (List.mem_append_right _ (List.mem_singleton.2 h.symm))
      rw [hrun]
      refine ⟨call_lawful hlawful hop, ?_⟩
      obtain ⟨id, hrespects, hcases⟩ := (call_moves (after ops) op).locks
      intro a txn ha
      have hnow : (Calls.run call {} (ops ++ [op])).prepared.lookup a = some txn := by
        rw [Calls.run_concat]
        exact ha
      rcases hcases a txn ha with ⟨hold, hkept⟩ | ⟨⟨clock, hopeq⟩, hnot, hlocked⟩
      · obtain ⟨htxn, s, ⟨clock, hs⟩, hholds⟩ := hprep a txn hold
        refine ⟨htxn, s, ⟨clock, hs.extend hnow⟩, ?_⟩
        rcases hkept with hne | hsame
        · constructor
          · intro key hkey
            exact ((hrespects key).keeps (hlawful key).1 a hne).write (hholds.writes key hkey)
          · intro key hkey hversion
            exact ((hrespects key).keeps (hlawful key).1 a hne).held (hholds.reads key hkey hversion)
        · rw [hsame]
          exact hholds
      · subst hopeq
        refine ⟨hop clock a txn rfl, after ops, ⟨clock, ?_⟩, hlocked.writes, hlocked.reads⟩
        apply Calls.Since.start
        · rw [AList.lookup_eq_none.2 hnot]
          intro h
          cases h
        · exact ha

/-- **Two-phase locking.** After any calls in which a number stands for one transaction, a
prepared transaction is the write holder of all keys it writes and a holder of all keys it
read that had a version when it was prepared, so that prepared transactions do not conflict;
and when it leaves the prepared ones it holds no lock of its keys any more. -/
theorem two_phase_locking {f : TxnId → Transaction} {ops : List Call}
    (hf : ∀ clock id txn, .prepare clock id txn ∈ ops → txn = f id) :
    (∀ id txn, (after ops).prepared.lookup id = some txn → ∃ s, PreparedIn ops id txn s ∧
      (∀ key ∈ txn.writeSet, ((after ops).locks.lock key).WriteHeld id) ∧
      ∀ key ∈ txn.readSet, (s.store.get key).isSome →
        id ∈ ((after ops).locks.lock key).holders) ∧
    (∀ a b ta tb, a ≠ b → (after ops).prepared.lookup a = some ta →
      (after ops).prepared.lookup b = some tb → (∀ key ∈ ta.writeSet, key ∉ tb.writeSet) ∧
        ∀ s, PreparedIn ops a ta s → ∀ key ∈ ta.readSet, (s.store.get key).isSome →
          key ∉ tb.writeSet) ∧
    ∀ id txn, (after ops).prepared.lookup id = some txn → ∀ key,
      key ∈ txn.readSet ∨ key ∈ txn.writeSet →
        id ∉ (((after ops).preCommit id).locks.lock key).holders ∧
        (id ∉ (after ops).precommitted →
          id ∉ (((after ops).abort id).locks.lock key).holders ∧
          ∀ ts, id ∉ (((after ops).commit id ts).locks.lock key).holders) := by
  obtain ⟨hlawful, hprep⟩ := locking_invariant hf
  refine ⟨fun id txn hid => ?_, fun a b ta tb hab ha hb => ?_, fun id txn hid key _ => ?_⟩
  · obtain ⟨_, s, hs, hholds⟩ := hprep id txn hid
    exact ⟨s, hs, hholds.writes, hholds.reads⟩
  · obtain ⟨_, s, ⟨clock, hs⟩, hholds⟩ := hprep a ta ha
    obtain ⟨_, _, _, hholds'⟩ := hprep b tb hb
    constructor
    · intro key hkey hkey'
      have hheld := (hholds.writes key hkey).2
      exact hab ((hlawful key).1.eq_of_writeHeld (hholds'.writes key hkey') hheld)
    · rintro s' ⟨clock', hs'⟩ key hkey hversion hkey'
      rw [(Calls.Since.unique hs' hs).2] at hversion
      have hheld := hholds.reads key hkey hversion
      exact hab ((hlawful key).1.eq_of_writeHeld (hholds'.writes key hkey') hheld)
  · obtain ⟨rfl, _⟩ := hprep id txn hid
    have hfree : id ∉ ((dropLocks (after ops).locks id (f id)).lock key).holders :=
      dropLocks_free hlawful (fun h => h) fun h => h
    refine ⟨?_, fun hnot => ⟨?_, fun ts => ?_⟩⟩
    · simp only [preCommit, hid, Option.getD_some]
      exact hfree
    · rw [abort, if_neg hnot, hid]
      exact hfree
    · simp only [commit, AList.lookup_eq_none.2 hnot, hid]
      exact hfree

/-- Transaction 1 reads and writes a loaded key, transaction 2 asks for it in vain. -/
def contended : List Call :=
  [.load "k" "0" {},
    .prepare stopped 1
      { id := 1, readSet := AList.singleton "k" {}, writeSet := AList.singleton "k" "1" },
    .prepare stopped 2 { id := 2, writeSet := AList.singleton "k" "2" }]

theorem contended_two_phase :
    ((after contended).locks.lock "k").WriteHeld 1 ∧
      1 ∉ (((after contended).commit 1 5).locks.lock "k").holders := by
  have hf : ∀ clock id txn, .prepare clock id txn ∈ contended → txn = (if id = 1 then
      { id := 1, readSet := AList.singleton "k" {}, writeSet := AList.singleton "k" "1" }
      else { id := 2, writeSet := AList.singleton "k" "2" } : Transaction) := by
    intro clock id txn hmem
    simp only [contended, List.mem_cons, List.not_mem_nil, or_false, reduceCtorEq, false_or,
      Call.prepare.injEq] at hmem
    rcases hmem with ⟨_, rfl, rfl⟩ | ⟨_, rfl, rfl⟩
    · rfl
    · rfl
  have hprepared : (after contended).prepared.lookup 1 = some
      { id := 1, readSet := AList.singleton "k" {}, writeSet := AList.singleton "k" "1" } := by
    decide +kernel
  obtain ⟨hholds, _, hfree⟩ := two_phase_locking (f := fun id => if id = 1 then
      { id := 1, readSet := AList.singleton "k" {}, writeSet := AList.singleton "k" "1" }
      else { id := 2, writeSet := AList.singleton "k" "2" }) hf
  obtain ⟨_, _, hwrites, _⟩ := hholds 1 _ hprepared
  exact ⟨hwrites "k" (by decide), ((hfree 1 _ hprepared "k" (.inl (by decide))).2 (by decide)).2 5⟩

end LockStore

end D2PC
