import D2PC.Store.Server
import D2PC.Store.TwoPhase

/-!
# What a store keeps for a transaction

A store keeps a transaction among the prepared ones, and the locking store also keeps its
locks. As long as every lock of a transaction belongs to what it is prepared as, a decision
gives all of them back.

* `TxnStore.lockedBy` : a lock is held by the transaction;
* `TxnStore.Owned` : every lock of the transaction belongs to what it is prepared as;
* `TxnStore.commit_owned`, `TxnStore.abort_owned`, `TxnStore.prepare_owned` : the operations
  keep this, except a prepare that is refused after some locks were granted.
-/

namespace D2PC

namespace TxnStore

/-- The transaction holds the lock of the key. -/
def lockedBy (id : TxnId) (key : Key) : TxnStore → Prop
  | .occ _ => False
  | .lock s => id ∈ (s.locks.lock key).holders

/-- The keys `id` may hold for reading and for writing, if it is prepared as `txn`. -/
def mayRead (id : TxnId) (txn : Transaction) (key : Key) (r : TxnId) : Prop :=
  r = id → key ∈ txn.readSet

def mayWrite (id : TxnId) (txn : Transaction) (key : Key) (r : TxnId) : Prop :=
  r = id → key ∈ txn.writeSet

/-- Every lock that `id` holds belongs to the transaction it is prepared as. -/
def Owned (id : TxnId) : TxnStore → Prop
  | .occ _ => True
  | .lock s => s.locks.LawfulFor (mayRead id ((s.prepared.lookup id).getD {}))
      (mayWrite id ((s.prepared.lookup id).getD {}))

variable {id : TxnId} {s : TxnStore}

theorem owned_lock {st : LockStore} : (TxnStore.lock st).Owned id ↔
    st.locks.LawfulFor (mayRead id ((st.prepared.lookup id).getD {}))
      (mayWrite id ((st.prepared.lookup id).getD {})) := Iff.rfl

/-- A lock that is held is held for some key of the transaction. -/
theorem not_held {locks : LockServer} {key : Key}
    (h : locks.LawfulFor (mayRead id {}) (mayWrite id {})) : id ∉ (locks.lock key).holders := by
  obtain ⟨hvalid, hlawful⟩ := h key
  intro hmem
  have hno : ∀ {P : Prop}, key ∈ (∅ : Table Key Timestamp) ∨ key ∈ (∅ : Table Key Value) → P :=
    fun hkey => hkey.elim (fun h => absurd h (AList.notMem_empty _))
      fun h => absurd h (AList.notMem_empty _)
  cases hst : (locks.lock key).state with
  | unlocked =>
      rw [hvalid.unlocked.1 hst] at hmem
      exact absurd hmem (Finset.notMem_empty id)
  | lockedForRead => exact hno (.inl ((hlawful id hmem).1 hst rfl))
  | lockedForWrite => exact hno (.inr ((hlawful id hmem).2.1 hst rfl))
  | lockedForReadWrite => exact hno (.inl (((hlawful id hmem).2.2 hst).1 rfl))

/-- Where `id` holds nothing, it may be prepared as anything. -/
theorem lawful_of_free {locks : LockServer} (hvalid : ∀ key, (locks.lock key).Valid)
    (hfree : ∀ key, id ∉ (locks.lock key).holders) (txn : Transaction) :
    locks.LawfulFor (mayRead id txn) (mayWrite id txn) := by
  refine fun key => ⟨hvalid key, fun r hr => ?_⟩
  have hne : r ≠ id := fun heq => hfree key (heq ▸ hr)
  exact ⟨fun _ h => absurd h hne, fun _ h => absurd h hne,
    fun _ => ⟨fun h => absurd h hne, fun h => absurd h hne⟩⟩

/-- A transaction that is not prepared holds no lock. -/
theorem Owned.free (h : s.Owned id) (hnone : s.prepared.lookup id = none) (key : Key) :
    ¬ s.lockedBy id key := by
  cases s with
  | occ s => exact not_false
  | lock s =>
      have hlaw := owned_lock.1 h
      rw [show s.prepared.lookup id = none from hnone] at hlaw
      exact not_held hlaw

/-! ### Decisions -/

/-- The locks of one transaction are dropped. -/
theorem owned_drop {st : LockStore} {id' : TxnId} {txn : Transaction}
    (h : (TxnStore.lock st).Owned id) (htxn : st.prepared.lookup id' = some txn)
    {st' : LockStore} (hlocks : st'.locks = LockStore.dropLocks st.locks id' txn)
    (hprep : st'.prepared = st.prepared.erase id') : (TxnStore.lock st').Owned id := by
  have hlaw := owned_lock.1 h
  have hdrop := LockStore.dropLocks_lawful hlaw id' txn
  rw [owned_lock, hlocks, hprep]
  by_cases hid : id' = id
  · subst hid
    refine lawful_of_free (fun key => (hdrop key).1) (fun key => ?_) _
    refine LockStore.dropLocks_free hlaw (fun hr => ?_) fun hw => ?_
    · have hmem := hr rfl
      rw [htxn] at hmem
      exact hmem
    · have hmem := hw rfl
      rw [htxn] at hmem
      exact hmem
  · rw [AList.lookup_erase_ne (Ne.symm hid)]
    exact hdrop

theorem commit_owned (h : s.Owned id) (id' : TxnId) (timestamp : ℕ) :
    (s.commit id' timestamp).Owned id := by
  cases s with
  | occ s => trivial
  | lock s =>
      simp only [commit, LockStore.commit]
      split
      · exact h
      · split
        · rename_i txn htxn
          exact owned_drop h htxn rfl rfl
        · exact h

theorem abort_owned (h : s.Owned id) (id' : TxnId) : (s.abort id').Owned id := by
  cases s with
  | occ s => trivial
  | lock s =>
      simp only [abort, LockStore.abort]
      split
      · exact h
      · split
        · rename_i txn htxn
          exact owned_drop h htxn rfl rfl
        · exact h

/-! ### Prepares -/

/-- Others ask for nothing on behalf of `id`. -/
theorem prepare_owned_other (h : s.Owned id) {id' : TxnId} (hne : id ≠ id') (clock : Clock)
    (txn : Transaction) (doCheck : Bool) : (s.prepare clock id' txn doCheck).2.Owned id := by
  have hprep := (prepare_others s clock id' txn doCheck).prepared id hne
  cases s with
  | occ s => trivial
  | lock s =>
      show (TxnStore.lock (s.prepare clock id' txn doCheck).2).Owned id
      rw [owned_lock, show (s.prepare clock id' txn doCheck).2.prepared.lookup id =
        s.prepared.lookup id from hprep]
      cases doCheck with
      | true =>
          exact LockStore.prepare_lawful clock (fun _ _ heq => absurd heq (Ne.symm hne))
            (fun _ _ heq => absurd heq (Ne.symm hne)) h
      | false =>
          by_cases hp : id' ∈ s.prepared
          · simp only [LockStore.prepare, if_pos hp]
            exact h
          · simp only [LockStore.prepare, if_neg hp]
            exact h

/-- A prepare of `id` itself: already prepared, entered, or refused with no lock left. -/
theorem prepare_owned (h : s.Owned id) (clock : Clock) (txn : Transaction) (doCheck : Bool)
    (hrefused : id ∉ (s.prepare clock id txn doCheck).2.prepared →
      ∀ key, ¬ (s.prepare clock id txn doCheck).2.lockedBy id key) :
    (s.prepare clock id txn doCheck).2.Owned id := by
  cases s with
  | occ s => trivial
  | lock s =>
      by_cases hp : id ∈ s.prepared
      · simp only [prepare, LockStore.prepare, if_pos hp]
        exact h
      · have hlaw := owned_lock.1 h
        rw [AList.lookup_eq_none.2 hp] at hlaw
        have hfree : ∀ key, id ∉ (s.locks.lock key).holders := fun key => not_held hlaw
        have hany := lawful_of_free (fun key => (hlaw key).1) hfree txn
        cases doCheck with
        | false =>
            simp only [prepare, LockStore.prepare, if_neg hp, Bool.false_eq_true, if_false]
            rw [owned_lock, AList.lookup_insert]
            exact hany
        | true =>
            have hafter : (s.prepare clock id txn true).2.locks.LawfulFor (mayRead id txn)
                (mayWrite id txn) :=
              LockStore.prepare_lawful clock (fun _ hkey _ => hkey) (fun _ hkey _ => hkey) hany
            show (TxnStore.lock (s.prepare clock id txn true).2).Owned id
            rw [owned_lock]
            by_cases hin : id ∈ (s.prepare clock id txn true).2.prepared
            · -- entered as `txn`
              rcases s.prepare_cases clock id txn with ⟨hold, _⟩ | ⟨_, s', hacq, hcases⟩
              · exact absurd hold hp
              · rcases hcases with ⟨_, heq⟩ | ⟨ret, _, heq⟩ | heq
                · rw [heq] at hafter ⊢
                  rw [AList.lookup_insert]
                  exact hafter
                · rw [heq] at hin
                  exact absurd (hacq.prepared ▸ hin) hp
                · rw [heq] at hin
                  exact absurd (hacq.prepared ▸ hin) hp
            · exact lawful_of_free (fun key => (hafter key).1) (hrefused hin) _

/-- A refused prepare enters nothing. -/
theorem prepare_refused {clock : Clock} {txn : Transaction} {doCheck : Bool}
    (h : (s.prepare clock id txn doCheck).1 ≠ replyOk) :
    (s.prepare clock id txn doCheck).2.prepared = s.prepared := by
  cases s with
  | occ s =>
      simp only [prepare, OCCStore.prepare, OCCStore.abort] at h ⊢
      split_ifs at h ⊢ <;> first | rfl | exact absurd rfl h
  | lock s =>
      cases doCheck with
      | false =>
          simp only [prepare, LockStore.prepare, Bool.false_eq_true, if_false] at h
          split_ifs at h <;> exact absurd rfl h
      | true =>
          rcases s.prepare_cases clock id txn with ⟨_, heq⟩ | ⟨_, s', hacq, hcases⟩
          · simp only [prepare, heq] at h
            exact absurd rfl h
          · rcases hcases with ⟨_, heq⟩ | ⟨ret, _, heq⟩ | heq
            · simp only [prepare, heq] at h
              exact absurd rfl h
            · simp only [prepare, heq]
              exact hacq.prepared
            · simp only [prepare, heq]
              exact hacq.prepared

/-- A prepare of a transaction that is prepared is admitted. -/
theorem prepareUpcall_prepared {s : TxnStore} {clock : Clock} {id : TxnId}
    {m : TransactionMessage} {doCheck : Bool} (hold : id ∈ s.prepared) :
    s.prepareUpcall clock id m doCheck = (true, s) := by
  cases s with
  | occ s =>
      have hold' : id ∈ s.prepared := hold
      simp only [prepareUpcall, prepare, OCCStore.prepare, if_pos hold']
      rfl
  | lock s =>
      have hold' : id ∈ s.prepared := hold
      simp only [prepareUpcall, prepare, LockStore.prepare, if_pos hold']
      rfl

/-- A prepare that is refused enters nothing. -/
theorem prepareUpcall_refused {s : TxnStore} {clock : Clock} {id : TxnId}
    {m : TransactionMessage} {doCheck : Bool} (h : (s.prepareUpcall clock id m doCheck).1 = false) :
    (s.prepareUpcall clock id m doCheck).2.prepared = s.prepared :=
  prepare_refused fun hok => absurd (.inl hok) (of_decide_eq_false h)

/-- A prepare that is admitted enters the transaction, unless it is prepared already. -/
theorem prepareUpcall_admitted {s : TxnStore} {clock : Clock} {id : TxnId}
    {m : TransactionMessage} {doCheck : Bool} (hnew : id ∉ s.prepared)
    (h : (s.prepareUpcall clock id m doCheck).1 = true) :
    (s.prepareUpcall clock id m doCheck).2.prepared =
        s.prepared.insert id (Transaction.ofMessage m) ∧
      (s.prepareUpcall clock id m doCheck).2.precommitted = s.precommitted := by
  have hstatus : (s.prepare clock id (Transaction.ofMessage m) doCheck).1 = replyOk ∨
      (s.prepare clock id (Transaction.ofMessage m) doCheck).1 = replyHasPrecommit :=
    of_decide_eq_true h
  show (s.prepare clock id (Transaction.ofMessage m) doCheck).2.prepared = _ ∧
    (s.prepare clock id (Transaction.ofMessage m) doCheck).2.precommitted = _
  generalize Transaction.ofMessage m = txn at hstatus ⊢
  cases s with
  | occ s =>
      have hnew' : id ∉ s.prepared := hnew
      simp only [prepare, OCCStore.prepare, if_neg hnew'] at hstatus ⊢
      split_ifs at hstatus ⊢
      · have hfail : replyFail = replyOk ∨ replyFail = replyHasPrecommit := hstatus
        exact absurd hfail (by decide)
      · exact ⟨rfl, rfl⟩
  | lock s =>
      have hnew' : id ∉ s.prepared := hnew
      have hok : (s.prepare clock id txn doCheck).1 = replyOk :=
        hstatus.resolve_right (s.prepare_status clock id txn doCheck)
      cases doCheck with
      | false =>
          simp only [prepare, LockStore.prepare, if_neg hnew']
          exact ⟨rfl, rfl⟩
      | true =>
          rcases s.prepare_cases clock id txn with ⟨hold, _⟩ | ⟨_, s', hacq, hcases⟩
          · exact absurd hold hnew'
          · rcases hcases with ⟨_, heq⟩ | ⟨ret, hret, heq⟩ | heq
            · rw [prepare, heq]
              refine ⟨?_, hacq.precommitted⟩
              show s'.prepared.insert id txn = s.prepared.insert id txn
              rw [hacq.prepared]
            · rw [heq] at hok
              exact absurd hok hret
            · rw [heq] at hok
              exact absurd hok (by show replyAbort ≠ replyOk; decide)

/-! ### In order, and clear -/

/-- The transaction is not pre-committed, and its locks belong to what it is prepared as. -/
structure Sound (id : TxnId) (s : TxnStore) : Prop where
  precommitted : id ∉ s.precommitted
  owned : s.Owned id

/-- Nothing is kept for the transaction. -/
structure Clear (id : TxnId) (s : TxnStore) : Prop extends Sound id s where
  prepared : s.prepared.lookup id = none

theorem Clear.free (h : s.Clear id) (key : Key) : ¬ s.lockedBy id key := h.owned.free h.prepared key

theorem not_mem_erase {t : Table TxnId Transaction} (h : id ∉ t) (id' : TxnId) :
    id ∉ t.erase id' := fun hmem => h (AList.mem_erase.1 hmem).2

theorem Sound.commit (h : s.Sound id) (id' : TxnId) (timestamp : ℕ) :
    (s.commit id' timestamp).Sound id := by
  refine ⟨?_, commit_owned h.owned id' timestamp⟩
  rw [commit_precommitted]
  exact not_mem_erase h.precommitted id'

theorem Sound.abort (h : s.Sound id) (id' : TxnId) : (s.abort id').Sound id := by
  refine ⟨?_, abort_owned h.owned id'⟩
  rw [abort_precommitted]
  exact not_mem_erase h.precommitted id'

theorem Sound.commit_clear (h : s.Sound id) (timestamp : ℕ) : (s.commit id timestamp).Clear id := by
  refine ⟨h.commit id timestamp, ?_⟩
  rw [commit_prepared h.precommitted]
  exact AList.lookup_erase id _

theorem Sound.abort_clear (h : s.Sound id) : (s.abort id).Clear id := by
  refine ⟨h.abort id, ?_⟩
  rw [abort_prepared h.precommitted]
  exact AList.lookup_erase id _

theorem Clear.commit (h : s.Clear id) (id' : TxnId) (timestamp : ℕ) :
    (s.commit id' timestamp).Clear id :=
  ⟨h.toSound.commit id' timestamp, commit_prepared_none h.prepared id' timestamp⟩

theorem Clear.abort (h : s.Clear id) (id' : TxnId) : (s.abort id').Clear id :=
  ⟨h.toSound.abort id', abort_prepared_none h.prepared id'⟩

/-- No prepare pre-commits. -/
theorem prepare_precommitted (h : id ∉ s.precommitted) (clock : Clock) (id' : TxnId)
    (txn : Transaction) (doCheck : Bool) :
    id ∉ (s.prepare clock id' txn doCheck).2.precommitted := by
  obtain ⟨p, q, htables, _, hq⟩ := s.prepare_tables clock id' txn doCheck
  rw [htables.precommitted]
  rcases hq with rfl | rfl
  · exact h
  · exact not_mem_erase h id'

theorem Sound.prepare_other (h : s.Sound id) {id' : TxnId} (hne : id ≠ id') (clock : Clock)
    (txn : Transaction) (doCheck : Bool) : (s.prepare clock id' txn doCheck).2.Sound id :=
  ⟨prepare_precommitted h.precommitted clock id' txn doCheck,
    prepare_owned_other h.owned hne clock txn doCheck⟩

theorem Clear.prepare_other (h : s.Clear id) {id' : TxnId} (hne : id ≠ id') (clock : Clock)
    (txn : Transaction) (doCheck : Bool) : (s.prepare clock id' txn doCheck).2.Clear id := by
  refine ⟨h.toSound.prepare_other hne clock txn doCheck, ?_⟩
  rw [(prepare_others s clock id' txn doCheck).prepared id hne]
  exact h.prepared

theorem Sound.prepare (h : s.Sound id) (clock : Clock) (txn : Transaction) (doCheck : Bool)
    (hrefused : id ∉ (s.prepare clock id txn doCheck).2.prepared →
      ∀ key, ¬ (s.prepare clock id txn doCheck).2.lockedBy id key) :
    (s.prepare clock id txn doCheck).2.Sound id :=
  ⟨prepare_precommitted h.precommitted clock id txn doCheck,
    prepare_owned h.owned clock txn doCheck hrefused⟩

/-- A prepare without a check is never refused. -/
theorem Sound.prepare_unchecked (h : s.Sound id) (clock : Clock) (txn : Transaction) :
    (s.prepare clock id txn false).2.Sound id := by
  refine h.prepare clock txn false fun hnot => ?_
  rw [(s.prepare_unchecked clock id txn).2.1] at hnot
  split_ifs at hnot with hp
  · exact absurd hp hnot
  · exact absurd ((AList.mem_insert _).2 (.inl rfl)) hnot

end TxnStore

end D2PC
