import D2PC.Store.VersionStore
import D2PC.Lib.Calls

/-!
# The optimistic store

`OCCStore` of `store/strongstore/occstore.cc`. A transaction is validated at its prepare
against the committed versions and against the transactions that are prepared; a
pre-committed transaction is no longer among these.

* `OCCStore.prepare_cases` : everything a prepare can do;
* `OCCStore.occ_validation` : what holds of the prepared transactions after any sequence of
  calls, and which versions no commit of another transaction adds.
-/

namespace D2PC

/-- `OCCStore`: the versions, the transactions under validation, and those taken out of it
early. -/
structure OCCStore where
  store : VersionedKVStore := {}
  prepared : Table TxnId Transaction := ∅
  precommitted : Table TxnId Transaction := ∅

namespace OCCStore

/-- The keys some prepared transaction writes. -/
def getPreparedWrites (s : OCCStore) : List Key :=
  s.prepared.toList.flatMap fun t => t.2.writeSet.keys

/-- The keys some prepared transaction reads or writes. -/
def getPreparedReadWrites (s : OCCStore) : List Key :=
  s.prepared.toList.flatMap fun t => t.2.writeSet.keys ++ t.2.readSet.keys

/-- `Get` of the committed version. -/
def get (s : OCCStore) (_id : TxnId) (key : Key) : Option (Timestamp × Value) :=
  s.store.get key

/-- `Get` that reports the last pre-committed writer of the key. -/
def getDependency (s : OCCStore) (_id : TxnId) (key : Key) (value : Timestamp × Value) :
    Option ((Timestamp × Value) × TxnId) :=
  s.store.getDependency key value

/-- `Abort`: a pre-committed transaction is forgotten, otherwise a prepared one. The lists
of pre-committed writers are not touched. -/
def abort (s : OCCStore) (id : TxnId) : OCCStore :=
  if id ∈ s.precommitted then { s with precommitted := s.precommitted.erase id }
  else if id ∈ s.prepared then { s with prepared := s.prepared.erase id }
  else s

/-- A read fails validation when its version was overwritten or a prepared transaction
writes the key. A key without a version is not checked. -/
def readConflict (s : OCCStore) (read : Key × Timestamp) : Bool :=
  match s.store.get read.1 with
  | none => false
  | some cur => decide (read.2 < cur.1) || decide (read.1 ∈ s.getPreparedWrites)

/-- A write fails validation when a prepared transaction reads or writes the key. -/
def writeConflict (s : OCCStore) (write : Key × Value) : Bool :=
  decide (write.1 ∈ s.getPreparedReadWrites)

/-- `Prepare`: the reply code and the store. -/
def prepare (s : OCCStore) (id : TxnId) (txn : Transaction) (doCheck : Bool) : ℕ × OCCStore :=
  if id ∈ s.prepared then (replyOk, s)
  else if doCheck && (txn.readSet.toList.any s.readConflict ||
      txn.writeSet.toList.any s.writeConflict) then (replyFail, s.abort id)
  else (replyOk, { s with prepared := s.prepared.insert id txn })

/-- `Commit`: the writes of a pre-committed transaction, otherwise of a prepared one, are
installed at the timestamp. -/
def commit (s : OCCStore) (id : TxnId) (timestamp : ℕ) : OCCStore :=
  match s.precommitted.lookup id with
  | some txn =>
      { s with
        store := s.store.install txn.writeSet id timestamp
        precommitted := s.precommitted.erase id }
  | none =>
      match s.prepared.lookup id with
      | some txn =>
          { s with
            store := s.store.install txn.writeSet id timestamp
            prepared := s.prepared.erase id }
      | none => s

/-- `PreCommit`: validation ends early. The assertion that the transaction is prepared is
compiled out, and `operator[]` then yields an empty transaction. -/
def preCommit (s : OCCStore) (id : TxnId) : OCCStore :=
  let txn := (s.prepared.lookup id).getD {}
  { store := s.store.announce txn.writeSet id
    prepared := s.prepared.erase id
    precommitted := s.precommitted.insert id txn }

/-- `Load`. -/
def load (s : OCCStore) (key : Key) (value : Value) (timestamp : Timestamp) : OCCStore :=
  { s with store := s.store.put key value timestamp }

/-! ### What a prepare does -/

theorem mem_getPreparedWrites {s : OCCStore} {key : Key} :
    key ∈ s.getPreparedWrites ↔ ∃ id t, s.prepared.lookup id = some t ∧ key ∈ t.writeSet := by
  simp only [getPreparedWrites, List.mem_flatMap, Prod.exists, Table.mem_toList, AList.mem_keys]

theorem mem_getPreparedReadWrites {s : OCCStore} {key : Key} :
    key ∈ s.getPreparedReadWrites ↔
      ∃ id t, s.prepared.lookup id = some t ∧ (key ∈ t.writeSet ∨ key ∈ t.readSet) := by
  simp only [getPreparedReadWrites, List.mem_flatMap, Prod.exists, Table.mem_toList,
    List.mem_append, AList.mem_keys]

/-- The transaction reads current versions and touches no key in conflict with a prepared
transaction. -/
structure Valid (s : OCCStore) (txn : Transaction) : Prop where
  reads : ∀ key readTime cur, txn.readSet.lookup key = some readTime →
    s.store.get key = some cur → cur.1 ≤ readTime ∧
      ∀ id t, s.prepared.lookup id = some t → key ∉ t.writeSet
  writes : ∀ key, key ∈ txn.writeSet →
    ∀ id t, s.prepared.lookup id = some t → key ∉ t.writeSet ∧ key ∉ t.readSet

theorem valid_of_check {s : OCCStore} {txn : Transaction}
    (h : (txn.readSet.toList.any s.readConflict ||
      txn.writeSet.toList.any s.writeConflict) = false) : s.Valid txn := by
  simp only [Bool.or_eq_false_iff, List.any_eq_false, Prod.forall, Table.mem_toList] at h
  obtain ⟨hr, hw⟩ := h
  constructor
  · intro key readTime cur hread hcur
    have hno := hr key readTime hread
    simp only [readConflict, hcur, Bool.or_eq_true, decide_eq_true_eq, not_or] at hno
    refine ⟨not_lt.1 hno.1, fun id t ht hmem => hno.2 ?_⟩
    exact mem_getPreparedWrites.2 ⟨id, t, ht, hmem⟩
  · intro key hkey id t ht
    obtain ⟨v, hv⟩ := Option.isSome_iff_exists.1 (AList.lookup_isSome.2 hkey)
    have hno := hw key v hv
    simp only [writeConflict, decide_eq_true_eq] at hno
    exact ⟨fun hmem => hno (mem_getPreparedReadWrites.2 ⟨id, t, ht, .inl hmem⟩),
      fun hmem => hno (mem_getPreparedReadWrites.2 ⟨id, t, ht, .inr hmem⟩)⟩

/-- **Prepare.** Already prepared, refused with the transaction aborted, or entered after
validation. -/
theorem prepare_cases (s : OCCStore) (id : TxnId) (txn : Transaction) :
    (id ∈ s.prepared ∧ s.prepare id txn true = (replyOk, s)) ∨
    (id ∉ s.prepared ∧ s.prepare id txn true = (replyFail, s.abort id)) ∨
    (id ∉ s.prepared ∧ s.Valid txn ∧
      s.prepare id txn true = (replyOk, { s with prepared := s.prepared.insert id txn })) := by
  unfold prepare
  by_cases hp : id ∈ s.prepared
  · exact .inl ⟨hp, if_pos hp⟩
  · rw [if_neg hp, Bool.true_and]
    cases hc : (txn.readSet.toList.any s.readConflict ||
      txn.writeSet.toList.any s.writeConflict) with
    | true => exact .inr (.inl ⟨hp, rfl⟩)
    | false => exact .inr (.inr ⟨hp, valid_of_check hc, rfl⟩)

/-! ### Sequences of calls -/

/-- The calls that change the store; every prepare is checked. -/
inductive Call where
  | load (key : Key) (value : Value) (timestamp : Timestamp)
  | prepare (id : TxnId) (txn : Transaction)
  | preCommit (id : TxnId)
  | commit (id : TxnId) (timestamp : ℕ)
  | abort (id : TxnId)

def call (s : OCCStore) : Call → OCCStore
  | .load key value timestamp => s.load key value timestamp
  | .prepare id txn => (s.prepare id txn true).2
  | .preCommit id => s.preCommit id
  | .commit id timestamp => s.commit id timestamp
  | .abort id => s.abort id

/-- The store after a sequence of calls on an empty one. -/
abbrev after (ops : List Call) : OCCStore := Calls.run call {} ops

/-- `id` was prepared as `txn` in the store `s`, and has been prepared since. -/
def PreparedIn (ops : List Call) (id : TxnId) (txn : Transaction) (s : OCCStore) : Prop :=
  Calls.Since call (fun s => s.prepared.lookup id = some txn) {} ops (.prepare id txn) s

/-- A call enters a validated transaction, or enters none. -/
theorem call_prepared (s : OCCStore) (op : Call) :
    (∃ id txn, op = .prepare id txn ∧ id ∉ s.prepared ∧ s.Valid txn ∧
      s.call op = { s with prepared := s.prepared.insert id txn }) ∨
    ∀ id txn, (s.call op).prepared.lookup id = some txn → s.prepared.lookup id = some txn := by
  have herase : ∀ {i id : TxnId} {txn : Transaction},
      (s.prepared.erase i).lookup id = some txn → s.prepared.lookup id = some txn := by
    intro i id txn h
    rw [Table.lookup_erase_eq] at h
    split_ifs at h
    exact h
  have habort : ∀ i id txn, (s.abort i).prepared.lookup id = some txn →
      s.prepared.lookup id = some txn := by
    intro i id txn h
    unfold abort at h
    split_ifs at h
    · exact h
    · exact herase h
    · exact h
  cases op with
  | load key value timestamp => exact .inr fun _ _ h => h
  | prepare id txn =>
      rcases s.prepare_cases id txn with ⟨_, heq⟩ | ⟨_, heq⟩ | ⟨hnot, hvalid, heq⟩
      · right
        simp only [call, heq]
        exact fun _ _ h => h
      · right
        simp only [call, heq]
        exact habort id
      · left
        refine ⟨id, txn, rfl, hnot, hvalid, ?_⟩
        simp only [call, heq]
  | preCommit id => exact .inr fun _ _ h => herase h
  | commit id timestamp =>
      right
      intro id' txn h
      simp only [call, commit] at h
      split at h
      · exact h
      · split at h
        · exact herase h
        · exact h
  | abort id => exact .inr (habort id)

/-- Every prepared transaction was validated against the other prepared ones: disjoint write
sets, and a key it read that another one writes had no version. -/
def Validated (ops : List Call) : Prop :=
  ∀ a ta, (after ops).prepared.lookup a = some ta → ∃ s, PreparedIn ops a ta s ∧
    ∀ b tb, b ≠ a → (after ops).prepared.lookup b = some tb →
      (∀ key ∈ ta.writeSet, key ∉ tb.writeSet) ∧
      ∀ key ∈ ta.readSet, key ∈ tb.writeSet → s.store.get key = none

theorem validated (ops : List Call) : Validated ops := by
  induction ops using List.reverseRecOn with
  | nil =>
      intro a ta ha
      simp at ha
  | append_singleton ops op ih =>
      intro a ta ha
      have hrun : after (ops ++ [op]) = (after ops).call op := Calls.run_concat ..
      rw [hrun] at ha
      rcases (after ops).call_prepared op with ⟨id, txn, rfl, hnot, hvalid, heq⟩ | hold
      · have hnone : (after ops).prepared.lookup id = none := AList.lookup_eq_none.2 hnot
        simp only [heq, Table.lookup_insert_eq] at ha
        split_ifs at ha with haid
        · -- the new transaction was checked against all prepared ones
          cases ha
          subst haid
          refine ⟨after ops, ?_, ?_⟩
          · apply Calls.Since.start
            · rw [hnone]
              intro h
              cases h
            · rw [heq]
              exact AList.lookup_insert _
          intro b tb hb htb
          simp only [hrun, heq, Table.lookup_insert_eq, if_neg hb] at htb
          constructor
          · intro key hkey
            exact (hvalid.writes key hkey b tb htb).1
          · intro key hkey hwrite
            obtain ⟨readTime, hread⟩ := Option.isSome_iff_exists.1 (AList.lookup_isSome.2 hkey)
            by_contra hsome
            obtain ⟨cur, hcur⟩ := Option.ne_none_iff_exists'.1 hsome
            exact (hvalid.reads key readTime cur hread hcur).2 b tb htb hwrite
        · -- an old one, against which the new one was checked
          obtain ⟨s, hs, hothers⟩ := ih a ta ha
          have hnow : (after (ops ++ [.prepare id txn])).prepared.lookup a = some ta := by
            rw [hrun, heq]
            exact (AList.lookup_insert_ne haid).trans ha
          refine ⟨s, hs.extend hnow, ?_⟩
          intro b tb hb htb
          simp only [hrun, heq, Table.lookup_insert_eq] at htb
          split_ifs at htb with hbid
          · cases htb
            constructor
            · intro key hkey hwrite
              exact (hvalid.writes key hwrite a ta ha).1 hkey
            · intro key hkey hwrite
              exact absurd hkey (hvalid.writes key hwrite a ta ha).2
          · exact hothers b tb hb htb
      · obtain ⟨s, hs, hothers⟩ := ih a ta (hold a ta ha)
        refine ⟨s, hs.extend (by rw [Calls.run_concat]; exact ha), ?_⟩
        intro b tb hb htb
        rw [hrun] at htb
        exact hothers b tb hb (hold b tb htb)

/-- Only its own commit, abort or pre-commit takes a transaction out of the prepared ones. -/
theorem call_keeps {s : OCCStore} {a : TxnId} {ta : Transaction}
    (ha : s.prepared.lookup a = some ta) {op : Call} (hcommit : ∀ ts, op ≠ .commit a ts)
    (habort : op ≠ .abort a) (hpre : op ≠ .preCommit a) :
    (s.call op).prepared.lookup a = some ta := by
  have herase : ∀ {i : TxnId}, i ≠ a → (s.prepared.erase i).lookup a = some ta := by
    intro i hi
    rw [AList.lookup_erase_ne (Ne.symm hi)]
    exact ha
  have hab : ∀ {i : TxnId}, i ≠ a → (s.abort i).prepared.lookup a = some ta := by
    intro i hi
    unfold abort
    split_ifs
    · exact ha
    · exact herase hi
    · exact ha
  cases op with
  | load key value timestamp => exact ha
  | prepare id txn =>
      by_cases hid : id = a
      · subst hid
        have hmem : id ∈ s.prepared := AList.lookup_isSome.1 (by rw [ha]; rfl)
        simp only [call, prepare, if_pos hmem]
        exact ha
      · rcases s.prepare_cases id txn with ⟨_, heq⟩ | ⟨_, heq⟩ | ⟨_, _, heq⟩
        · simp only [call, heq]
          exact ha
        · simp only [call, heq]
          exact hab hid
        · simp only [call, heq]
          exact (AList.lookup_insert_ne (Ne.symm hid)).trans ha
  | preCommit id => exact herase fun h => hpre (by rw [h])
  | commit id timestamp =>
      have hid : id ≠ a := fun h => hcommit timestamp (by rw [h])
      simp only [call, commit]
      split
      · exact ha
      · split
        · exact herase hid
        · exact ha
  | abort id => exact hab fun h => habort (by rw [h])

/-- Without pre-commits nothing is pre-committed. -/
theorem precommitted_none {ops : List Call} (hpre : ∀ i, .preCommit i ∉ ops) (id : TxnId) :
    (after ops).precommitted.lookup id = none := by
  refine Calls.run_invariant (J := fun s : OCCStore => ∀ id, s.precommitted.lookup id = none)
    (fun _ => rfl) ?_ id
  intro op hop s hs i
  have herase : ∀ j, (s.precommitted.erase j).lookup i = none := by
    intro j
    rw [Table.lookup_erase_eq, hs]
    split_ifs <;> rfl
  have habort : ∀ j, (s.abort j).precommitted.lookup i = none := by
    intro j
    unfold abort
    split_ifs
    · exact herase j
    · exact hs i
    · exact hs i
  cases op with
  | load key value timestamp => exact hs i
  | prepare j txn =>
      rcases s.prepare_cases j txn with ⟨_, heq⟩ | ⟨_, heq⟩ | ⟨_, _, heq⟩
      · simp only [call, heq]
        exact hs i
      · simp only [call, heq]
        exact habort j
      · simp only [call, heq]
        exact hs i
  | preCommit j => exact absurd hop (hpre j)
  | commit j timestamp =>
      simp only [call, commit, hs]
      split
      · exact hs i
      · exact hs i
  | abort j => exact habort j

/-- A prepare that answers `REPLY_OK` leaves its transaction prepared. -/
theorem prepared_of_ok {s : OCCStore} {a : TxnId} {txn : Transaction}
    (hok : (s.prepare a txn true).1 = replyOk) :
    ∃ ta, (s.call (.prepare a txn)).prepared.lookup a = some ta := by
  rcases s.prepare_cases a txn with ⟨hmem, heq⟩ | ⟨_, heq⟩ | ⟨_, _, heq⟩
  · simp only [call, heq]
    exact Option.isSome_iff_exists.1 (AList.lookup_isSome.2 hmem)
  · rw [heq] at hok
    cases hok
  · simp only [call, heq]
    exact ⟨txn, AList.lookup_insert _⟩

/-- A transaction that stays prepared is disturbed by no commit of another one. -/
theorem commit_undisturbed {ops mid : List Call} {a b : TxnId} {txn ta : Transaction}
    {s : OCCStore} {key : Key} (hpre : ∀ i, .preCommit i ∉ ops ++ .prepare a txn :: mid)
    (hmid : (∀ ts, .commit a ts ∉ mid) ∧ .abort a ∉ mid) (hb : b ≠ a)
    (hs : PreparedIn (ops ++ [.prepare a txn]) a ta s) (hkey : key ∈ ta.readSet)
    (hversion : (s.store.get key).isSome) (ts : ℕ) :
    ((after (ops ++ .prepare a txn :: mid)).commit b ts).store.versions key =
      (after (ops ++ .prepare a txn :: mid)).store.versions key := by
  -- the transaction is prepared as `ta`, in the same store, as long as nothing ends it
  have hsince : ∀ l, l <+: mid → PreparedIn (ops ++ .prepare a txn :: l) a ta s := by
    intro l
    induction l using List.reverseRecOn with
    | nil => exact fun _ => hs
    | append_singleton l op ih =>
        intro hl
        have hop : op ∈ mid := hl.subset (List.mem_append_right _ (List.mem_singleton.2 rfl))
        have hprev := ih ((List.prefix_append l [op]).trans hl)
        have hnext : (after (ops ++ .prepare a txn :: l ++ [op])).prepared.lookup a = some ta := by
          rw [after, Calls.run_concat]
          refine call_keeps hprev.now (fun ts h => ?_) (fun h => ?_) (fun h => ?_)
          · exact hmid.1 ts (h ▸ hop)
          · exact hmid.2 (h ▸ hop)
          · exact hpre a (List.mem_append_right _ (List.mem_cons_of_mem _ (h ▸ hop)))
        have hassoc : ops ++ .prepare a txn :: (l ++ [op]) = ops ++ .prepare a txn :: l ++ [op] := by
          simp
        rw [hassoc]
        exact hprev.extend hnext
  have hin := hsince mid (List.prefix_refl mid)
  obtain ⟨s', hs', hothers⟩ := validated _ a ta hin.now
  have hsame : s' = s := (Calls.Since.unique hs' hin).2
  rw [commit, precommitted_none hpre]
  split
  · rename_i h
    cases h
  · cases htb : (after (ops ++ .prepare a txn :: mid)).prepared.lookup b with
    | none => rfl
    | some tb =>
        have hnot : key ∉ tb.writeSet := by
          intro hwrite
          have hnone := (hothers b tb hb htb).2 key hkey hwrite
          rw [hsame] at hnone
          rw [hnone] at hversion
          cases hversion
        show (VersionedKVStore.install _ tb.writeSet b _).versions key = _
        rw [VersionedKVStore.versions_install, AList.lookup_eq_none.2 hnot]

/-- **Validation.** After any sequence of calls two prepared transactions have disjoint write
sets, and a key one of them read and the other writes had no version when the reader was
prepared. Without pre-commits, from a successful prepare of `a` to its commit or abort no
other commit adds a version of a key that `a` read and that had a version when `a` was
prepared. -/
theorem occ_validation (ops : List Call) :
    (∀ a b ta tb, a ≠ b → (after ops).prepared.lookup a = some ta →
      (after ops).prepared.lookup b = some tb →
      (∀ key ∈ ta.writeSet, key ∉ tb.writeSet) ∧
      (∃ s, PreparedIn ops a ta s) ∧
      ∀ s, PreparedIn ops a ta s → ∀ key ∈ ta.readSet, key ∈ tb.writeSet →
        s.store.get key = none) ∧
    ∀ before a txn mid b ts rest, ops = before ++ .prepare a txn :: mid ++ .commit b ts :: rest →
      (∀ i, .preCommit i ∉ ops) → ((after before).prepare a txn true).1 = replyOk →
      (∀ ts, .commit a ts ∉ mid) → .abort a ∉ mid → b ≠ a →
      ∃ ta s, PreparedIn (before ++ [.prepare a txn]) a ta s ∧ ∀ key ∈ ta.readSet,
        (s.store.get key).isSome →
        ((after (before ++ .prepare a txn :: mid)).commit b ts).store.versions key =
          (after (before ++ .prepare a txn :: mid)).store.versions key := by
  constructor
  · intro a b ta tb hab ha hb
    obtain ⟨s, hs, hothers⟩ := validated ops a ta ha
    obtain ⟨hwrites, hreads⟩ := hothers b tb (Ne.symm hab) hb
    refine ⟨hwrites, ⟨s, hs⟩, ?_⟩
    intro s' hs' key hkey hwrite
    rw [(Calls.Since.unique hs' hs).2]
    exact hreads key hkey hwrite
  · intro before a txn mid b ts rest hops hpre hok hcommit habort hb
    obtain ⟨ta, hta⟩ := prepared_of_ok hok
    have hnow : (after (before ++ [.prepare a txn])).prepared.lookup a = some ta := by
      rw [after, Calls.run_concat]
      exact hta
    obtain ⟨s, hs, _⟩ := validated _ a ta hnow
    refine ⟨ta, s, hs, ?_⟩
    intro key hkey hversion
    refine commit_undisturbed (fun i hi => ?_) ⟨hcommit, habort⟩ hb hs hkey hversion ts
    exact hpre i (by rw [hops]; exact List.mem_append_left _ hi)

/-- Transaction 1 reads a loaded key and one that was never written, which transaction 2 is
about to write. -/
def readerAndWriter : List Call :=
  [.load "k" "0" {}, .prepare 2 { id := 2, writeSet := AList.singleton "n" "x" },
    .prepare 1 { id := 1, readSet := Table.ofList [("k", {}), ("n", {})] }, .commit 2 5]

theorem readerAndWriter_validation :
    ∃ ta s, PreparedIn (readerAndWriter.take 3) 1 ta s ∧ ∀ key ∈ ta.readSet,
      (s.store.get key).isSome → (after readerAndWriter).store.versions key =
        (after (readerAndWriter.take 3)).store.versions key :=
  (occ_validation readerAndWriter).2 (readerAndWriter.take 2) 1
    { id := 1, readSet := Table.ofList [("k", {}), ("n", {})] } [] 2 5 [] rfl
    (by simp [readerAndWriter]) (by decide) (by simp) (by simp) (by decide)

end OCCStore

end D2PC
