import Mathlib.Data.List.Dedup
import D2PC.Store.Refusal

/-!
# Pre-commits

A pre-commit takes a transaction from the prepared to the pre-committed ones and enters it in
the list of every key it writes; a commit installs the pre-committed transaction, otherwise
the prepared one, and takes it off these lists. The two tables and the lists are kept by
different objects, and the assertion that a pre-committed transaction was prepared is
compiled out: a second pre-commit finds nothing prepared and overwrites the write set by an
empty one, and no abort touches the lists.

* `TxnStore.Stage` : what is kept for a transaction after so many pre-commits;
* `TxnStore.commit_installs_iff` : exactly when a commit installs what was prepared;
* `TxnStore.Follows` : a pre-committed transaction is committed next;
* `TxnStore.precommit_lists_exact` : the lists name the pre-committed writers, in order.
-/

namespace D2PC

namespace TxnStore

/-! ### A transaction that was prepared -/

/-- The call pre-commits the transaction. -/
def Call.preCommits (id : TxnId) : Call → Bool
  | .preCommit id' => decide (id' = id)
  | _ => false

/-- What is kept for `id` after `n` pre-commits, when `txn` was prepared in `s₀`: the second
pre-commit leaves an empty transaction. -/
structure Stage (id : TxnId) (txn : Transaction) (s₀ : TxnStore) (n : ℕ) (s : TxnStore) :
    Prop where
  prepared : s.prepared.lookup id = if n = 0 then some txn else none
  precommitted : s.precommitted.lookup id =
    if n = 0 then s₀.precommitted.lookup id else if n = 1 then some txn else some {}
  listed : ∀ key, id ∈ s.kv.pending key ↔
    id ∈ s₀.kv.pending key ∨ (n ≠ 0 ∧ key ∈ txn.writeSet)

variable {id : TxnId} {txn : Transaction} {s₀ s : TxnStore} {n : ℕ}

/-- A transaction that is entered is at its first stage. -/
theorem Stage.start {clock : Clock} {doCheck : Bool} (hnew : id ∉ s₀.prepared)
    (hok : (s₀.prepare clock id txn doCheck).1 = replyOk) :
    Stage id txn s₀ 0 (s₀.prepare clock id txn doCheck).2 := by
  have htables : (s₀.prepare clock id txn doCheck).2.prepared.lookup id = some txn ∧
      (s₀.prepare clock id txn doCheck).2.precommitted = s₀.precommitted := by
    cases s₀ with
    | occ s =>
        simp only [prepare, OCCStore.prepare, if_neg (show id ∉ s.prepared from hnew)] at hok ⊢
        split_ifs at hok ⊢
        · exact absurd (show replyFail = replyOk from hok) (by decide)
        · exact ⟨AList.lookup_insert _, rfl⟩
    | lock s =>
        cases doCheck with
        | false =>
            obtain ⟨_, hprep, hpre⟩ := (TxnStore.lock s).prepare_unchecked clock id txn
            rw [hprep, hpre, if_neg hnew]
            exact ⟨AList.lookup_insert _, rfl⟩
        | true =>
            rcases s.prepare_cases clock id txn with ⟨hp, _⟩ | ⟨_, s', hacq, hcases⟩
            · exact absurd hp hnew
            · rcases hcases with ⟨_, heq⟩ | ⟨ret, hret, heq⟩ | heq
              · rw [prepare, heq]
                exact ⟨AList.lookup_insert _, hacq.precommitted⟩
              · rw [prepare, heq] at hok
                exact absurd hok hret
              · rw [prepare, heq] at hok
                exact absurd (show replyAbort = replyOk from hok) (by decide)
  refine ⟨htables.1, ?_, ?_⟩
  · rw [htables.2]
    rfl
  · intro key
    rw [kv_prepare]
    simp

/-- Other transactions' calls keep the stage. -/
theorem Stage.other (h : Stage id txn s₀ n s) {op : Call} (hop : op.id? ≠ some id) :
    Stage id txn s₀ n (s.call op) := by
  have hapart := call_apart s hop
  refine ⟨?_, ?_, ?_⟩
  · rw [hapart.prepared]
    exact h.prepared
  · rw [hapart.precommitted]
    exact h.precommitted
  · intro key
    rw [hapart.listed]
    exact h.listed key

/-- A pre-commit leads to the next stage. -/
theorem Stage.preCommit (h : Stage id txn s₀ n s) :
    Stage id txn s₀ (n + 1) (s.preCommit id) := by
  have htxn : (s.prepared.lookup id).getD {} = if n = 0 then txn else {} := by
    rw [h.prepared]
    split_ifs <;> rfl
  refine ⟨?_, ?_, ?_⟩
  · rw [preCommit_prepared, if_neg (Nat.succ_ne_zero n)]
    exact AList.lookup_erase id _
  · rw [preCommit_precommitted, AList.lookup_insert, htxn, if_neg (Nat.succ_ne_zero n)]
    by_cases hn : n = 0
    · simp [hn]
    · simp [hn]
  · intro key
    rw [kv_preCommit, VersionedKVStore.pending_announce, htxn]
    by_cases hn : n = 0
    · rw [if_pos hn]
      split_ifs with hkey
      · simp [hkey]
      · rw [h.listed]
        simp [hkey]
    · have hempty : key ∉ (if n = 0 then txn else {}).writeSet := by
        rw [if_neg hn]
        exact AList.notMem_empty key
      rw [if_neg hempty, h.listed]
      simp [hn]

theorem Stage.run (h : Stage id txn s₀ n s) {ops : List Call}
    (hops : ∀ op ∈ ops, op = .preCommit id ∨ op.id? ≠ some id) :
    Stage id txn s₀ (n + ops.countP (Call.preCommits id)) (after s ops) := by
  induction ops generalizing n s with
  | nil => exact h
  | cons op ops ih =>
      have hrest : ∀ op ∈ ops, op = .preCommit id ∨ op.id? ≠ some id := fun op hmem =>
        hops op (List.mem_cons_of_mem _ hmem)
      rcases hops op (List.mem_cons_self ..) with rfl | hop
      · have hcount : List.countP (Call.preCommits id) (.preCommit id :: ops) =
            ops.countP (Call.preCommits id) + 1 :=
          List.countP_cons_of_pos (decide_eq_true rfl)
        rw [hcount, Nat.add_comm _ 1, ← Nat.add_assoc]
        exact ih h.preCommit hrest
      · have hno : Call.preCommits id op = false := by
          cases op with
          | preCommit id' => exact decide_eq_false fun heq => hop (by rw [heq]; rfl)
          | _ => rfl
        rw [List.countP_cons_of_neg (by rw [hno]; decide)]
        exact ih (h.other hop) hrest

/-- The pairs `Commit` puts into the version store. -/
def puts (s : TxnStore) (id : TxnId) : List (Key × Value) :=
  match s.entry id with
  | some txn => txn.writeSet.toList
  | none => []

/-- A commit of `id` puts the pairs of `txn` at its time, and nothing else is kept for `id`. -/
structure Installs (s : TxnStore) (id : TxnId) (txn : Transaction) (timestamp : ℕ) : Prop where
  puts : ∀ key value, (key, value) ∈ s.puts id ↔ txn.writeSet.lookup key = some value
  versions : ∀ key, (s.commit id timestamp).kv.versions key =
    match txn.writeSet.lookup key with
    | some value => (s.kv.versions key).insert ⟨timestamp, 0⟩ value
    | none => s.kv.versions key
  prepared : id ∉ (s.commit id timestamp).prepared
  precommitted : id ∉ (s.commit id timestamp).precommitted
  lists : ∀ key, id ∉ (s.commit id timestamp).kv.pending key

/-- The entry a commit finds at each stage. -/
theorem Stage.entry (h : Stage id txn s₀ n s) :
    s.entry id = if n = 0 then (s₀.precommitted.lookup id <|> some txn)
      else if n = 1 then some txn else some {} := by
  rw [TxnStore.entry, h.precommitted, h.prepared]
  by_cases hn : n = 0
  · simp [hn]
  · by_cases hone : n = 1
    · simp [hone]
    · simp [hn, hone]

/-- A commit that finds the transaction that was prepared installs it, if it is listed for no
other key. -/
theorem Stage.installs (h : Stage id txn s₀ n s) (hfree : n = 0 → id ∉ s₀.precommitted)
    {t : Transaction} (hentry : s.entry id = some t)
    (hwrites : ∀ key, t.writeSet.lookup key = txn.writeSet.lookup key)
    (hlisted : ∀ key, id ∈ s₀.kv.pending key → key ∈ txn.writeSet) (timestamp : ℕ) :
    Installs s id txn timestamp := by
  have hkeys : ∀ key, key ∈ t.writeSet ↔ key ∈ txn.writeSet := by
    intro key
    rw [← AList.lookup_isSome, ← AList.lookup_isSome, hwrites]
  have hprepared : (s.commit id timestamp).prepared.lookup id = none := by
    by_cases hn : n = 0
    · have hpre : id ∉ s.precommitted := by
        rw [← AList.lookup_eq_none, h.precommitted, if_pos hn]
        exact AList.lookup_eq_none.2 (hfree hn)
      rw [commit_prepared hpre]
      exact AList.lookup_erase id _
    · apply commit_prepared_none
      rw [h.prepared, if_neg hn]
  refine ⟨?_, ?_, AList.lookup_eq_none.1 hprepared, ?_, ?_⟩
  · intro key value
    rw [TxnStore.puts, hentry, ← hwrites]
    exact Table.mem_toList
  · intro key
    rw [kv_commit, hentry, ← hwrites]
    exact VersionedKVStore.versions_install ..
  · rw [commit_precommitted]
    exact fun hmem => (AList.mem_erase.1 hmem).1 rfl
  · intro key
    rw [pending_commit]
    split_ifs with hin
    · simp
    · intro hmem
      apply hin
      refine ⟨t, hentry, (hkeys key).2 ?_⟩
      rcases (h.listed key).1 hmem with hold | ⟨_, hkey⟩
      · exact hlisted key hold
      · exact hkey

/-- **Commit.** After a prepare that enters `txn`, any number of pre-commits and any calls for
other transactions, a commit installs exactly `txn` if and only if: the transaction was not
still pre-committed when it was prepared, or has been pre-committed since; a transaction that
writes was pre-committed at most once; and it was listed for no key that it does not write. -/
theorem commit_installs_iff {clock : Clock} {doCheck : Bool} (hnew : id ∉ s₀.prepared)
    (hok : (s₀.prepare clock id txn doCheck).1 = replyOk) {ops : List Call}
    (hops : ∀ op ∈ ops, op = .preCommit id ∨ op.id? ≠ some id) (timestamp : ℕ) :
    Installs (after (s₀.prepare clock id txn doCheck).2 ops) id txn timestamp ↔
      (ops.countP (Call.preCommits id) = 0 → id ∉ s₀.precommitted) ∧
      (2 ≤ ops.countP (Call.preCommits id) → ∀ key, key ∉ txn.writeSet) ∧
      ∀ key, id ∈ s₀.kv.pending key → key ∈ txn.writeSet := by
  have hstage := (Stage.start hnew hok).run hops
  rw [Nat.zero_add] at hstage
  set s := after (s₀.prepare clock id txn doCheck).2 ops with hs
  set n := ops.countP (Call.preCommits id) with hn
  constructor
  · intro hinst
    have htwo : 2 ≤ n → ∀ key, key ∉ txn.writeSet := by
      intro hle key hkey
      -- the entry is empty, so nothing is put
      have hentry : s.entry id = some {} := by
        rw [hstage.entry, if_neg (by omega), if_neg (by omega)]
      obtain ⟨value, hvalue⟩ := Option.isSome_iff_exists.1 (AList.lookup_isSome.2 hkey)
      have hput := (hinst.puts key value).2 hvalue
      rw [TxnStore.puts, hentry] at hput
      exact absurd hput List.not_mem_nil
    refine ⟨?_, htwo, ?_⟩
    · intro hzero hpre
      -- the pre-committed transaction is committed and the prepared one stays
      obtain ⟨t, ht⟩ := Option.isSome_iff_exists.1 (AList.lookup_isSome.2 hpre)
      apply hinst.prepared
      have hpre' : s.precommitted.lookup id = some t := by
        rw [hstage.precommitted, if_pos hzero, ht]
      have hprep : s.prepared.lookup id = some txn := by
        rw [hstage.prepared, if_pos hzero]
      have hkept : (s.commit id timestamp).prepared = s.prepared := by
        revert hpre'
        cases s with
        | occ s =>
            intro hpre'
            rw [commit, OCCStore.commit, show s.precommitted.lookup id = some t from hpre']
            rfl
        | lock s =>
            intro hpre'
            rw [commit, LockStore.commit, show s.precommitted.lookup id = some t from hpre']
            rfl
      rw [hkept, ← AList.lookup_isSome, hprep]
      rfl
    · intro key hlisted
      by_contra hkey
      apply hinst.lists key
      have hmem : id ∈ s.kv.pending key := (hstage.listed key).2 (.inl hlisted)
      rw [pending_commit]
      split_ifs with hin
      · exfalso
        obtain ⟨t, hentry, hwrite⟩ := hin
        obtain ⟨value, hvalue⟩ := Option.isSome_iff_exists.1 (AList.lookup_isSome.2 hwrite)
        have hput : (key, value) ∈ s.puts id := by
          rw [TxnStore.puts, hentry]
          exact Table.mem_toList.2 hvalue
        rw [hinst.puts] at hput
        exact hkey (AList.lookup_isSome.1 (by rw [hput]; rfl))
      · exact hmem
  · rintro ⟨hfree, htwo, hlisted⟩
    by_cases hle : 2 ≤ n
    · have hentry : s.entry id = some {} := by
        rw [hstage.entry, if_neg (by omega), if_neg (by omega)]
      refine hstage.installs hfree hentry ?_ hlisted timestamp
      intro key
      rw [AList.lookup_eq_none.2 (htwo hle key)]
      rfl
    · have hentry : s.entry id = some txn := by
        rw [hstage.entry]
        split_ifs with hzero hone
        · rw [AList.lookup_eq_none.2 (hfree hzero)]
          rfl
        · rfl
        · omega
      exact hstage.installs hfree hentry (fun _ => rfl) hlisted timestamp

/-- One pre-commit and a call for another transaction later, the writes are installed. -/
theorem commit_installs_once :
    1 ∉ (TxnStore.occ {}).prepared ∧
    (prepare stopped 1 (writing 1 [("k", "1")]) true (.occ {})).1 = replyOk ∧
    Installs (after (prepare stopped 1 (writing 1 [("k", "1")]) true (.occ {})).2
      [.preCommit 1, .prepare stopped 2 (writing 2 [("k", "2")]) true]) 1
      (writing 1 [("k", "1")]) 5 := by
  have hnew : 1 ∉ (TxnStore.occ {}).prepared := by decide +kernel
  have hok : (prepare stopped 1 (writing 1 [("k", "1")]) true (.occ {})).1 = replyOk := by
    decide +kernel
  refine ⟨hnew, hok, (commit_installs_iff hnew hok ?_ 5).2 ⟨?_, ?_, ?_⟩⟩
  · intro op hop
    rcases List.mem_cons.1 hop with rfl | hop
    · exact .inl rfl
    · rw [List.mem_singleton.1 hop]
      exact .inr (by decide)
  · intro _
    exact AList.notMem_empty 1
  · intro htwice
    exact absurd htwice (by decide +kernel)
  · intro key hkey
    exact absurd hkey List.not_mem_nil

/-- After a second pre-commit the commit puts nothing, in either store. -/
theorem second_preCommit_forgets :
    ¬ Installs (after (prepare stopped 1 (writing 1 [("k", "1")]) true (.occ {})).2
      [.preCommit 1, .preCommit 1]) 1 (writing 1 [("k", "1")]) 5 ∧
    ¬ Installs (after (prepare stopped 1 (writing 1 [("k", "1")]) true (.lock {})).2
      [.preCommit 1, .preCommit 1]) 1 (writing 1 [("k", "1")]) 5 := by
  constructor
  · intro hinst
    exact absurd ((hinst.puts "k" "1").2 (by decide +kernel)) (by decide +kernel)
  · intro hinst
    exact absurd ((hinst.puts "k" "1").2 (by decide +kernel)) (by decide +kernel)

/-! ### The lists over whole sequences -/

/-- Nothing is pre-committed under this number, or nothing that writes. -/
def Idle (s : TxnStore) (id : TxnId) : Prop :=
  ∀ txn, s.precommitted.lookup id = some txn → ∀ key, key ∉ txn.writeSet

/-- The prepare fails in a way that aborts the transaction: any failure of validation, and a
stale read in the locking store. -/
def failsValidation (txn : Transaction) : TxnStore → Bool
  | .occ s => txn.readSet.toList.any s.readConflict || txn.writeSet.toList.any s.writeConflict
  | .lock s => txn.readSet.toList.any s.stale

/-- A pre-committed transaction that writes is committed next: it is not aborted, neither by a
call nor by a prepare that fails, and it is not pre-committed again. -/
def Follows (s : TxnStore) : Call → Prop
  | .prepare _ id txn doCheck =>
      doCheck = true → id ∉ s.prepared → s.failsValidation txn = true → s.Idle id
  | .preCommit id => s.Idle id
  | .abort id => s.Idle id
  | _ => True

def Call.preCommitted? : Call → Option TxnId
  | .preCommit id => some id
  | _ => none

/-- The transactions that were pre-committed, in the order of their last pre-commits. -/
def preCommitOrder (ops : List Call) : List TxnId := (ops.filterMap Call.preCommitted?).dedup

/-- The transaction is pre-committed and writes the key. -/
def announces (s : TxnStore) (key : Key) (id : TxnId) : Bool :=
  match s.precommitted.lookup id with
  | some txn => decide (key ∈ txn.writeSet)
  | none => false

theorem announces_iff {key : Key} : s.announces key id = true ↔
    ∃ txn, s.precommitted.lookup id = some txn ∧ key ∈ txn.writeSet := by
  unfold announces
  cases s.precommitted.lookup id with
  | some txn => simp
  | none => simp

theorem Idle.announces (h : s.Idle id) (key : Key) : s.announces key id = false := by
  rw [Bool.eq_false_iff]
  intro htrue
  obtain ⟨txn, htxn, hkey⟩ := announces_iff.1 htrue
  exact h txn htxn key hkey

/-- `dedup` keeps the last occurrence. -/
theorem dedup_concat (l : List TxnId) (a : TxnId) :
    (l ++ [a]).dedup = l.dedup.filter (· ≠ a) ++ [a] := by
  induction l with
  | nil => simp
  | cons b l ih =>
      rw [List.cons_append]
      by_cases hb : b ∈ l
      · rw [List.dedup_cons_of_mem (List.mem_append_left _ hb), List.dedup_cons_of_mem hb, ih]
      · rw [List.dedup_cons_of_notMem hb]
        by_cases hab : b = a
        · have hmem : b ∈ l ++ [a] := List.mem_append_right _ (List.mem_singleton.2 hab)
          rw [List.dedup_cons_of_mem hmem, ih, List.filter_cons_of_neg (by simp [hab])]
        · have hnot : b ∉ l ++ [a] := by
            rw [List.mem_append, List.mem_singleton, not_or]
            exact ⟨hb, hab⟩
          rw [List.dedup_cons_of_notMem hnot, ih, List.filter_cons_of_pos (by simp [hab]),
            List.cons_append]

theorem preCommitOrder_concat (ops : List Call) (op : Call) :
    preCommitOrder (ops ++ [op]) =
      match op.preCommitted? with
      | some id => (preCommitOrder ops).filter (· ≠ id) ++ [id]
      | none => preCommitOrder ops := by
  unfold preCommitOrder
  rw [List.filterMap_append]
  cases hop : op.preCommitted? with
  | some id => simp [hop, dedup_concat]
  | none => simp [hop]

/-- The lists name the pre-committed writers of their key, in the order of their pre-commits. -/
def Exact (ops : List Call) (s : TxnStore) : Prop :=
  ∀ key, s.kv.pending key = (preCommitOrder ops).filter (s.announces key)

/-- An idle transaction may be forgotten. -/
theorem Exact.forget {ops ops' : List Call} {s' : TxnStore} (h : Exact ops s) (id : TxnId)
    (horder : preCommitOrder ops' = preCommitOrder ops)
    (hlists : ∀ key, s'.kv.pending key = s.kv.pending key)
    (htables : s'.precommitted = s.precommitted ∨
      (s.Idle id ∧ s'.precommitted = s.precommitted.erase id)) : Exact ops' s' := by
  intro key
  have hsame : s'.announces key = s.announces key := by
    funext id'
    rcases htables with heq | ⟨hidle, heq⟩
    · unfold announces
      rw [heq]
    · by_cases hid : id' = id
      · subst hid
        rw [hidle.announces]
        unfold announces
        rw [heq, AList.lookup_erase]
      · unfold announces
        rw [heq, AList.lookup_erase_ne hid]
  rw [hlists, h key, horder, hsame]

/-- A prepare takes a transaction from the pre-committed ones only by failing. -/
theorem prepare_forgets (s : TxnStore) (clock : Clock) (id : TxnId) (txn : Transaction)
    (doCheck : Bool) :
    (s.prepare clock id txn doCheck).2.precommitted = s.precommitted ∨
    (doCheck = true ∧ id ∉ s.prepared ∧ s.failsValidation txn = true ∧
      (s.prepare clock id txn doCheck).2.precommitted = s.precommitted.erase id) := by
  by_cases hp : id ∈ s.prepared
  · left
    cases s with
    | occ s => rw [prepare, OCCStore.prepare, if_pos (show id ∈ s.prepared from hp)]
    | lock s => rw [prepare, LockStore.prepare, if_pos (show id ∈ s.prepared from hp)]
  · cases doCheck with
    | false => exact .inl (s.prepare_unchecked clock id txn).2.2
    | true =>
        cases s with
        | occ s =>
            simp only [prepare, OCCStore.prepare, if_neg (show id ∉ s.prepared from hp),
              Bool.true_and]
            split_ifs with hfails
            · exact .inr ⟨trivial, hp, hfails, abort_precommitted (.occ s) id⟩
            · exact .inl rfl
        | lock s =>
            rcases s.prepare_cases clock id txn with ⟨hold, _⟩ | ⟨_, s', hacq, hcases⟩
            · exact absurd hold hp
            · cases hstale : txn.readSet.toList.any s.stale with
              | true =>
                  rcases hcases with ⟨_, heq⟩ | ⟨ret, _, heq⟩ | heq
                  · exact .inl (by rw [prepare, heq]; exact hacq.precommitted)
                  · exact .inl (by rw [prepare, heq]; exact hacq.precommitted)
                  · refine .inr ⟨rfl, hp, hstale, ?_⟩
                    rw [prepare, heq]
                    exact congrArg (AList.erase id) hacq.precommitted
              | false => exact .inl (s.prepare_fresh_precommitted clock hp hstale)

theorem Exact.preCommit {ops : List Call} (h : Exact ops s) (hidle : s.Idle id) :
    Exact (ops ++ [.preCommit id]) (s.preCommit id) := by
  intro key
  set txn := (s.prepared.lookup id).getD {} with htxn
  have hself : (s.preCommit id).announces key id = decide (key ∈ txn.writeSet) := by
    unfold announces
    rw [preCommit_precommitted, AList.lookup_insert]
  have hother : ∀ id', id' ≠ id → (s.preCommit id).announces key id' = s.announces key id' := by
    intro id' hne
    unfold announces
    rw [preCommit_precommitted, AList.lookup_insert_ne hne]
  -- without the transaction, the order is filtered as before
  have hrest : ((preCommitOrder ops).filter (· ≠ id)).filter ((s.preCommit id).announces key) =
      (preCommitOrder ops).filter (s.announces key) := by
    rw [List.filter_filter]
    apply List.filter_congr
    intro id' _
    by_cases hid : id' = id
    · subst hid
      rw [hidle.announces]
      simp
    · simp [hother id' hid, hid]
  have horder : preCommitOrder (ops ++ [.preCommit id]) =
      (preCommitOrder ops).filter (· ≠ id) ++ [id] := preCommitOrder_concat ops _
  rw [kv_preCommit, VersionedKVStore.pending_announce, horder, List.filter_append, hrest, h key,
    List.filter_cons, hself, ← htxn]
  by_cases hkey : key ∈ txn.writeSet
  · simp [hkey]
  · simp [hkey]

theorem Exact.commit {ops : List Call} (h : Exact ops s) (id : TxnId) (timestamp : ℕ) :
    Exact (ops ++ [.commit id timestamp]) (s.commit id timestamp) := by
  intro key
  have hself : (s.commit id timestamp).announces key id = false := by
    unfold announces
    rw [commit_precommitted, AList.lookup_erase]
  have hother : ∀ id', id' ≠ id →
      (s.commit id timestamp).announces key id' = s.announces key id' := by
    intro id' hne
    unfold announces
    rw [commit_precommitted, AList.lookup_erase_ne hne]
  have horder : preCommitOrder (ops ++ [.commit id timestamp]) = preCommitOrder ops :=
    preCommitOrder_concat ops _
  rw [pending_commit, h key, horder]
  split_ifs with hin
  · rw [List.filter_filter]
    apply List.filter_congr
    intro id' _
    by_cases hid : id' = id
    · subst hid
      simp [hself]
    · simp [hother id' hid, hid]
  · apply List.filter_congr
    intro id' _
    by_cases hid : id' = id
    · subst hid
      rw [hself, Bool.eq_false_iff]
      intro hann
      obtain ⟨txn, htxn, hkey⟩ := announces_iff.1 hann
      refine hin ⟨txn, ?_, hkey⟩
      rw [TxnStore.entry, htxn]
      rfl
    · exact (hother id' hid).symm

/-- **Step.** Every call that follows the rule keeps the lists exact. -/
theorem Exact.call {ops : List Call} (h : Exact ops s) {op : Call} (hop : s.Follows op) :
    Exact (ops ++ [op]) (s.call op) := by
  cases op with
  | load key value timestamp =>
      obtain ⟨_, hpre, hlists⟩ := s.load_tables key value timestamp
      exact h.forget 0 (preCommitOrder_concat ops _) hlists (.inl hpre)
  | prepare clock id txn doCheck =>
      have hlists : ∀ key, (s.prepare clock id txn doCheck).2.kv.pending key = s.kv.pending key := by
        intro key
        rw [kv_prepare]
      refine h.forget id (preCommitOrder_concat ops _) hlists ?_
      exact (s.prepare_forgets clock id txn doCheck).imp_right fun ⟨hcheck, hp, hfails, heq⟩ =>
        ⟨hop hcheck hp hfails, heq⟩
  | preCommit id => exact h.preCommit hop
  | commit id timestamp => exact h.commit id timestamp
  | abort id =>
      have hlists : ∀ key, (s.abort id).kv.pending key = s.kv.pending key := by
        intro key
        rw [kv_abort]
      exact h.forget id (preCommitOrder_concat ops _) hlists (.inr ⟨hop, abort_precommitted s id⟩)

theorem Fresh.empty (h : s.Fresh) : s.precommitted = ∅ ∧ ∀ key, s.kv.pending key = [] := by
  rcases h with rfl | rfl
  · exact ⟨rfl, fun _ => rfl⟩
  · exact ⟨rfl, fun _ => rfl⟩

theorem exact_after {start : TxnStore} (hstart : start.Fresh) {ops : List Call}
    (hops : Calls.Throughout call Follows start ops) : Exact ops (after start ops) := by
  induction ops using List.reverseRecOn with
  | nil =>
      intro key
      show start.kv.pending key = _
      rw [hstart.empty.2]
      rfl
  | append_singleton ops op ih =>
      obtain ⟨hbefore, hop⟩ := Calls.throughout_concat.1 hops
      rw [after, Calls.run_concat]
      exact (ih hbefore).call hop

/-- What is pre-committed was pre-committed by a call and neither committed nor aborted since. -/
theorem precommitted_since {start : TxnStore} (hstart : start.Fresh) {ops : List Call}
    (hid : id ∈ (after start ops).precommitted) :
    ∃ before rest, ops = before ++ .preCommit id :: rest ∧
      (∀ timestamp, .commit id timestamp ∉ rest) ∧ .abort id ∉ rest := by
  induction ops using List.reverseRecOn with
  | nil =>
      rw [show after start [] = start from rfl, hstart.empty.1] at hid
      exact absurd hid (AList.notMem_empty id)
  | append_singleton ops op ih =>
      rw [after, Calls.run_concat] at hid
      -- a call that is neither a commit nor an abort of the transaction lets it be
      have hkeep : id ∈ (after start ops).precommitted → (∀ timestamp, op ≠ .commit id timestamp) →
          op ≠ .abort id → ∃ before rest, ops ++ [op] = before ++ .preCommit id :: rest ∧
            (∀ timestamp, .commit id timestamp ∉ rest) ∧ .abort id ∉ rest := by
        intro hold hcommit habort
        obtain ⟨before, rest, rfl, hcommits, haborts⟩ := ih hold
        refine ⟨before, rest ++ [op], by simp, ?_, ?_⟩
        · intro timestamp hmem
          rcases List.mem_append.1 hmem with hmem | hmem
          · exact hcommits timestamp hmem
          · exact hcommit timestamp (List.mem_singleton.1 hmem).symm
        · intro hmem
          rcases List.mem_append.1 hmem with hmem | hmem
          · exact haborts hmem
          · exact habort (List.mem_singleton.1 hmem).symm
      cases op with
      | load key value timestamp =>
          refine hkeep ?_ nofun nofun
          exact (((after start ops).load_tables key value timestamp).2.1 ▸ hid)
      | prepare clock id' txn doCheck =>
          refine hkeep ?_ nofun nofun
          by_contra hnot
          exact prepare_precommitted hnot clock id' txn doCheck hid
      | preCommit id' =>
          by_cases heq : id' = id
          · exact ⟨ops, [], by rw [heq], fun _ => List.not_mem_nil, List.not_mem_nil⟩
          · refine hkeep ?_ nofun nofun
            have hid' : id ∈ ((after start ops).preCommit id').precommitted := hid
            rw [preCommit_precommitted, AList.mem_insert] at hid'
            exact hid'.resolve_left (Ne.symm heq)
      | commit id' timestamp =>
          have hid' : id ∈ ((after start ops).commit id' timestamp).precommitted := hid
          rw [commit_precommitted, AList.mem_erase] at hid'
          refine hkeep hid'.2 ?_ (fun h => by cases h)
          intro timestamp' heq
          cases heq
          exact hid'.1 rfl
      | abort id' =>
          have hid' : id ∈ ((after start ops).abort id').precommitted := hid
          rw [abort_precommitted, AList.mem_erase] at hid'
          refine hkeep hid'.2 (fun _ h => by cases h) ?_
          intro heq
          cases heq
          exact hid'.1 rfl

/-- **Pre-commit lists.** After any calls in which a pre-committed transaction that writes is
committed next, the list of every key names, once each and in the order of their pre-commits,
exactly the pre-committed transactions that write the key; so a read with dependency names no
transaction that has been committed or aborted. -/
theorem precommit_lists_exact {start : TxnStore} (hstart : start.Fresh) {ops : List Call}
    (hops : Calls.Throughout call Follows start ops) :
    (∀ key, ((after start ops).kv.pending key).Nodup ∧
      (after start ops).kv.pending key =
        (preCommitOrder ops).filter ((after start ops).announces key) ∧
      ∀ id, id ∈ (after start ops).kv.pending key ↔
        ∃ txn, (after start ops).precommitted.lookup id = some txn ∧ key ∈ txn.writeSet) ∧
    ∀ id key value answer dependency,
      (after start ops).getDependency id key value = some (answer, dependency) →
        ((after start ops).kv.pending key = [] ∧ dependency = 0) ∨
        ∃ before rest, ops = before ++ .preCommit dependency :: rest ∧
          (∀ timestamp, .commit dependency timestamp ∉ rest) ∧ .abort dependency ∉ rest := by
  have hexact := exact_after hstart hops
  have hmem : ∀ key id, id ∈ (after start ops).kv.pending key ↔
      ∃ txn, (after start ops).precommitted.lookup id = some txn ∧ key ∈ txn.writeSet := by
    intro key id
    rw [hexact key, List.mem_filter, announces_iff]
    refine and_iff_right_of_imp ?_
    rintro ⟨txn, htxn, _⟩
    obtain ⟨before, rest, heq, _⟩ := precommitted_since hstart
      (AList.lookup_isSome.1 (by rw [htxn]; rfl))
    rw [preCommitOrder, List.mem_dedup, List.mem_filterMap]
    exact ⟨.preCommit id, by rw [heq]; simp, rfl⟩
  refine ⟨fun key => ⟨?_, hexact key, hmem key⟩, ?_⟩
  · rw [hexact key]
    exact (List.nodup_dedup _).filter _
  · intro id key value answer dependency hget
    have hkv : (after start ops).kv.getDependency key value = some (answer, dependency) := by
      revert hget
      cases after start ops with
      | occ s => exact fun hget => hget
      | lock s => exact fun hget => hget
    unfold VersionedKVStore.getDependency at hkv
    split at hkv
    · cases hkv
    · split at hkv
      · rename_i hlast
        cases hkv
        exact .inl ⟨List.getLast?_eq_none_iff.1 hlast, rfl⟩
      · rename_i hlast
        cases hkv
        obtain ⟨txn, htxn, _⟩ := (hmem key dependency).1 (List.mem_of_getLast? hlast)
        exact .inr (precommitted_since hstart (AList.lookup_isSome.1 (by rw [htxn]; rfl)))

/-- Two writers of one key, pre-committed one after the other. -/
def twoWriters : List Call :=
  [.load "k" "0" {}, .prepare stopped 1 (writing 1 [("k", "1")]) true, .preCommit 1,
    .prepare stopped 2 (writing 2 [("k", "2")]) true, .preCommit 2]

/-- A read that depends on the later writer: the earlier one is listed before it. -/
theorem precommit_lists_twoWriters :
    (after (.lock {}) twoWriters).kv.pending "k" = [1, 2] ∧
    ∃ before rest, twoWriters = before ++ .preCommit 2 :: rest ∧
      (∀ timestamp, .commit 2 timestamp ∉ rest) ∧ .abort 2 ∉ rest := by
  have hfollows : Calls.Throughout call Follows (.lock {}) twoWriters := by
    have hidle : ∀ {s : TxnStore} {id : TxnId}, s.precommitted.lookup id = none → s.Idle id := by
      intro s id hnone txn htxn
      rw [hnone] at htxn
      cases htxn
    refine ⟨trivial, ?_, ?_, ?_, ?_, trivial⟩
    · exact fun _ _ _ => hidle (by decide +kernel)
    · exact hidle (by decide +kernel)
    · exact fun _ _ _ => hidle (by decide +kernel)
    · exact hidle (by decide +kernel)
  obtain ⟨hlists, hreads⟩ := precommit_lists_exact (.inr rfl) hfollows
  constructor
  · rw [(hlists "k").2.1]
    decide +kernel
  · refine (hreads 3 "k" ({}, "") ({}, "") 2 (by decide +kernel)).resolve_left ?_
    rintro ⟨_, hzero⟩
    exact absurd hzero (by decide)

/-- A writer that is aborted after its pre-commit. -/
def abortedWriter : List Call :=
  [.load "k" "0" {}, .prepare stopped 1 (writing 1 [("k", "1")]) true, .preCommit 1, .abort 1]

/-- It stays on the list of its key in either store, and reads go on to depend on it. -/
theorem abort_stays_listed :
    ((after (.occ {}) abortedWriter).kv.pending "k" = [1] ∧
      1 ∉ (after (.occ {}) abortedWriter).precommitted ∧
      (after (.occ {}) abortedWriter).getDependency 2 "k" ({}, "") = some (({}, ""), 1)) ∧
    (after (.lock {}) abortedWriter).kv.pending "k" = [1] ∧
      1 ∉ (after (.lock {}) abortedWriter).precommitted ∧
      (after (.lock {}) abortedWriter).getDependency 2 "k" ({}, "") = some (({}, ""), 1) := by
  decide +kernel

end TxnStore

end D2PC
