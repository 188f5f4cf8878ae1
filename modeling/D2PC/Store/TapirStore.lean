import Mathlib.Order.Lattice
import D2PC.Lib.Calls
import D2PC.Store.VersionStore

/-!
# The timestamp-ordered store

`Store` of `store/tapirstore/store.cc`, with the part of `VersionedKVStore` only it uses: the
validity range of a version, and the last committed read of each version. A transaction is
prepared at a timestamp of its own, and what it read must stay the latest version before that
timestamp.

* `TapirStore.prepare`, `TapirStore.commit` : the operations;
* `TapirStore.Window` : the timestamps no version may have any more after a read;
* `TapirStore.ReadLater` : a committed transaction read, at a later timestamp, the version
  valid at a timestamp;
* `reads_stay_current` : every sequence of calls keeps the windows free, if no write is
  prepared at a timestamp whose version was read later;
* `committed_read_forgotten` : the store does not see to that itself.
-/

namespace D2PC

/-- `REPLY_ABSTAIN`. -/
def replyAbstain : ℕ := 3

/-- `Timestamp::isValid`. -/
def Timestamp.isValid (t : Timestamp) : Bool := decide (0 < t.timestamp) && decide (0 < t.id)

/-- `VersionedKVStore` with the last committed read of each version. -/
structure TrackedKVStore extends VersionedKVStore where
  lastReads : Table Key (Table Timestamp Timestamp) := ∅

namespace TrackedKVStore

/-- `getValue`: the version valid at `t`. -/
def getValue (s : TrackedKVStore) (key : Key) (t : Timestamp) : Option (Timestamp × Value) :=
  ((s.versions key).entries.filter fun e => e.1 ≤ t).getLast?

/-- The version after those valid at `t` or before. -/
def nextVersion (s : TrackedKVStore) (key : Key) (t : Timestamp) : Option Timestamp :=
  ((s.versions key).entries.find? fun e => t < e.1).map Prod.fst

/-- `getRange`: the version valid at `t` and the next one. Without a next one the second
timestamp stays as the caller initialised it. -/
def getRange (s : TrackedKVStore) (key : Key) (t : Timestamp) : Option (Timestamp × Timestamp) :=
  (s.getValue key t).map fun e => (e.1, (s.nextVersion key t).getD {})

/-- `commitGet`: the last read of a version is raised if there is one. -/
def commitGet (s : TrackedKVStore) (key : Key) (readTime commit : Timestamp) : TrackedKVStore :=
  match s.getValue key readTime, s.lastReads.lookup key with
  | some e, some reads =>
      match reads.lookup e.1 with
      | some last =>
          if last < commit then
            { s with lastReads := s.lastReads.insert key (reads.insert e.1 commit) }
          else s
      | none => s
  | _, _ => s

/-- `getLastRead` of the latest version. -/
def getLastRead (s : TrackedKVStore) (key : Key) : Option Timestamp := do
  let e ← s.get key
  (← s.lastReads.lookup key).lookup e.1

/-- `getLastRead` of the version valid at `t`. -/
def getLastReadAt (s : TrackedKVStore) (key : Key) (t : Timestamp) : Option Timestamp := do
  let reads ← s.lastReads.lookup key
  reads.lookup (← s.getValue key t).1

/-- `put`. -/
def put (s : TrackedKVStore) (key : Key) (value : Value) (t : Timestamp) : TrackedKVStore :=
  { s with toVersionedKVStore := s.toVersionedKVStore.put key value t }

end TrackedKVStore

/-- `tapirstore::Store`. -/
structure TapirStore where
  linearizable : Bool := false
  store : TrackedKVStore := {}
  prepared : Table TxnId (Timestamp × Transaction) := ∅

namespace TapirStore

/-- `GetPreparedWrites`, for one key. -/
def getPreparedWrites (s : TapirStore) (key : Key) : List Timestamp :=
  (s.prepared.toList.filter fun p => decide (key ∈ p.2.2.writeSet)).map fun p => p.2.1

/-- `GetPreparedReads`, for one key. -/
def getPreparedReads (s : TapirStore) (key : Key) : List Timestamp :=
  (s.prepared.toList.filter fun p => decide (key ∈ p.2.2.readSet)).map fun p => p.2.1

/-- The check of one read: the reply code of a conflict. -/
def checkRead (s : TapirStore) (timestamp : Timestamp) (read : Key × Timestamp) : Option ℕ :=
  match s.store.getRange read.1 read.2 with
  | none => none
  | some range =>
      if range.1 ≠ read.2 then none
      else if range.2.isValid = false then
        -- the value is taken to be still valid
        if (s.getPreparedWrites read.1).any fun w => s.linearizable || decide (w ≤ timestamp) then
          some replyAbstain
        else none
      else if s.linearizable || decide (range.2 < timestamp) then some replyFail
      else if (s.getPreparedWrites read.1).any fun w => decide (range.1 < w ∧ w < timestamp) then
        some replyAbstain
      else none

/-- The check of one write: the reply code of a conflict and the timestamp proposed. -/
def checkWrite (s : TapirStore) (timestamp : Timestamp) (write : Key × Value) :
    Option (ℕ × Option Timestamp) :=
  let stale : Option Timestamp := do
    let val ← s.store.get write.1
    if s.linearizable && decide (timestamp < val.1) then some val.1
    else
      let lastRead ← if s.linearizable then s.store.getLastRead write.1
        else s.store.getLastReadAt write.1 timestamp
      if timestamp < lastRead then some lastRead else none
  match stale with
  | some t => some (replyRetry, some t)
  | none =>
      match if s.linearizable then
          ((s.getPreparedWrites write.1).filter fun w => timestamp < w).min? else none with
      | some t => some (replyRetry, some t)
      | none =>
          if (s.getPreparedReads write.1).any fun r => decide (timestamp < r) then
            some (replyAbstain, none)
          else none

/-- The checks in order, up to the first conflict. -/
def check (s : TapirStore) (txn : Transaction) (timestamp : Timestamp) :
    Option (ℕ × Option Timestamp) :=
  match txn.readSet.toList.findSome? (s.checkRead timestamp) with
  | some code => some (code, none)
  | none => txn.writeSet.toList.findSome? (s.checkWrite timestamp)

/-- `Prepare`: the reply code, the timestamp proposed, and the store. A transaction that is
prepared at another timestamp is checked again. -/
def prepare (s : TapirStore) (id : TxnId) (txn : Transaction) (timestamp : Timestamp) :
    (ℕ × Option Timestamp) × TapirStore :=
  if (s.prepared.lookup id).map Prod.fst = some timestamp then ((replyOk, none), s)
  else
    let s := { s with prepared := s.prepared.erase id }
    match s.check txn timestamp with
    | some reply => (reply, s)
    | none => ((replyOk, none), { s with prepared := s.prepared.insert id (timestamp, txn) })

/-- `Commit` of a transaction at its timestamp. -/
def commitAt (s : TapirStore) (timestamp : Timestamp) (txn : Transaction) : TapirStore :=
  let store := txn.readSet.toList.foldl (fun st r => st.commitGet r.1 r.2 timestamp) s.store
  { s with store := txn.writeSet.toList.foldl (fun st w => st.put w.1 w.2 timestamp) store }

/-- `Commit`: the timestamp of the call is not used, and an unknown transaction is an empty
one. -/
def commit (s : TapirStore) (id : TxnId) : TapirStore :=
  let p := (s.prepared.lookup id).getD ({}, {})
  let s := s.commitAt p.1 p.2
  { s with prepared := s.prepared.erase id }

/-- `Abort`. -/
def abort (s : TapirStore) (id : TxnId) : TapirStore := { s with prepared := s.prepared.erase id }

/-- `Load`. -/
def load (s : TapirStore) (key : Key) (value : Value) (timestamp : Timestamp) : TapirStore :=
  { s with store := s.store.put key value timestamp }

/-! ### The versions -/

section Versions

variable {st : TrackedKVStore} {key : Key} {v u : Timestamp} {value : Value}

/-- The last of an ordered list of versions is the greatest. -/
theorem le_of_getLast? {es : List (Timestamp × Value)} (h : es.Pairwise fun a b => a.1 < b.1)
    {e x : Timestamp × Value} (he : es.getLast? = some e) (hx : x ∈ es) : x.1 ≤ e.1 := by
  obtain ⟨front, rfl⟩ := List.getLast?_eq_some_iff.1 he
  rcases List.mem_append.1 hx with hx | hx
  · exact le_of_lt ((List.pairwise_append.1 h).2.2 x hx e (List.mem_singleton_self e))
  · rw [List.mem_singleton.1 hx]

/-- At or after a version there is a valid one, and it is not an older one. -/
theorem getValue_of_le {t : Timestamp} (h : st.HasVersion key v value) (hle : v ≤ t) :
    ∃ e, st.getValue key t = some e ∧ st.HasVersion key e.1 e.2 ∧ v ≤ e.1 ∧ e.1 ≤ t := by
  have hsorted := (st.versions key).sorted.filter fun e => decide (e.1 ≤ t)
  have hmem : (v, value) ∈ (st.versions key).entries.filter fun e => decide (e.1 ≤ t) :=
    List.mem_filter.2 ⟨h, decide_eq_true hle⟩
  cases hlast : ((st.versions key).entries.filter fun e => decide (e.1 ≤ t)).getLast? with
  | none =>
      rw [List.getLast?_eq_none_iff.1 hlast] at hmem
      cases hmem
  | some e =>
      obtain ⟨hin, hle'⟩ := List.mem_filter.1 (List.mem_of_getLast? hlast)
      exact ⟨e, hlast, hin, le_of_getLast? hsorted hlast hmem, of_decide_eq_true hle'⟩

/-- A version is valid at its own timestamp. -/
theorem getRange_of_hasVersion (h : st.HasVersion key v value) :
    st.getRange key v = some (v, (st.nextVersion key v).getD {}) := by
  obtain ⟨e, he, _, hle, hge⟩ := getValue_of_le h (le_refl v)
  have heq : e.1 = v := le_antisymm hge hle
  rw [TrackedKVStore.getRange, he, Option.map_some, heq]

/-- Without a next version there is none at all. -/
theorem nextVersion_none (h : st.nextVersion key v = none) (hu : st.HasVersion key u value) :
    ¬ v < u := by
  rw [TrackedKVStore.nextVersion, Option.map_eq_none_iff, List.find?_eq_none] at h
  exact fun hlt => h _ hu (decide_eq_true hlt)

/-- Between a version and the next there is none. -/
theorem nextVersion_some {next : Timestamp} (h : st.nextVersion key v = some next)
    (hu : st.HasVersion key u value) (hlt : v < u) : next ≤ u := by
  rw [TrackedKVStore.nextVersion, Option.map_eq_some_iff] at h
  obtain ⟨e, he, rfl⟩ := h
  obtain ⟨_, front, back, hsplit, hfront⟩ := List.find?_eq_some_iff_append.1 he
  have hmem : (u, value) ∈ front ++ e :: back := hsplit ▸ hu
  have hsorted := (st.versions key).sorted
  rw [hsplit] at hsorted
  rcases List.mem_append.1 hmem with hin | hin
  · exact absurd (decide_eq_true hlt) (by simpa using hfront _ hin)
  · rcases List.mem_cons.1 hin with heq | hin
    · rw [← heq]
    · exact le_of_lt ((List.pairwise_cons.1 (List.pairwise_append.1 hsorted).2.1).1 _ hin)

theorem hasVersion_put {key' : Key} {t : Timestamp} {w : Value}
    (h : (st.put key' w t).HasVersion key u value) :
    st.HasVersion key u value ∨ (key = key' ∧ u = t) := by
  simp only [VersionedKVStore.HasVersion, TrackedKVStore.put, VersionedKVStore.versions_put] at h
  split_ifs at h with heq
  · rcases mem_insertVersion h with hnew | hold
    · exact .inr ⟨heq, (Prod.mk.inj hnew).1⟩
    · rw [← heq] at hold
      exact .inl hold
  · exact .inl h

theorem HasVersion.put {key' : Key} {t : Timestamp} {w : Value}
    (h : st.HasVersion key u value) : (st.put key' w t).HasVersion key u value := by
  simp only [VersionedKVStore.HasVersion, TrackedKVStore.put, VersionedKVStore.versions_put]
  split_ifs with heq
  · rw [heq] at h
    exact (mem_insertVersion_iff (st.versions key').sorted).2 (.inl h)
  · exact h

theorem commitGet_toVersionedKVStore (st : TrackedKVStore) (key : Key) (t t' : Timestamp) :
    (st.commitGet key t t').toVersionedKVStore = st.toVersionedKVStore := by
  unfold TrackedKVStore.commitGet
  split
  · split
    · split_ifs <;> rfl
    · rfl
  · rfl

/-- The reads of a commit leave the versions as they are. -/
theorem commitGets_toVersionedKVStore (l : List (Key × Timestamp)) (st : TrackedKVStore)
    (ts : Timestamp) :
    (l.foldl (fun st r => st.commitGet r.1 r.2 ts) st).toVersionedKVStore =
      st.toVersionedKVStore := by
  induction l generalizing st with
  | nil => rfl
  | cons r l ih => rw [List.foldl_cons, ih, commitGet_toVersionedKVStore]

theorem HasVersion.commitAt {s : TapirStore} {ts : Timestamp} {txn : Transaction}
    (h : s.store.HasVersion key u value) : (s.commitAt ts txn).store.HasVersion key u value := by
  have hwrites : ∀ (l : List (Key × Value)) (st : TrackedKVStore), st.HasVersion key u value →
      (l.foldl (fun st w => st.put w.1 w.2 ts) st).HasVersion key u value := by
    intro l
    induction l with
    | nil => exact fun _ hv => hv
    | cons w l ih => exact fun st hv => ih _ (HasVersion.put hv)
  apply hwrites
  rw [commitGets_toVersionedKVStore]
  exact h

/-- **Commit** adds versions at the timestamp of the transaction, for the keys it writes. -/
theorem hasVersion_commitAt {s : TapirStore} {ts : Timestamp} {txn : Transaction}
    (h : (s.commitAt ts txn).store.HasVersion key u value) :
    s.store.HasVersion key u value ∨ (key ∈ txn.writeSet ∧ u = ts) := by
  have hwrites : ∀ (l : List (Key × Value)) (st : TrackedKVStore),
      (l.foldl (fun st w => st.put w.1 w.2 ts) st).HasVersion key u value →
        st.HasVersion key u value ∨ ((∃ w, (key, w) ∈ l) ∧ u = ts) := by
    intro l
    induction l with
    | nil => exact fun _ hv => .inl hv
    | cons w l ih =>
        intro st hv
        rcases ih _ hv with hold | ⟨⟨w', hw'⟩, hu⟩
        · rcases hasVersion_put hold with hold | ⟨hkey, hu⟩
          · exact .inl hold
          · refine .inr ⟨⟨w.2, ?_⟩, hu⟩
            rw [hkey]
            exact List.mem_cons_self ..
        · exact .inr ⟨⟨w', List.mem_cons_of_mem _ hw'⟩, hu⟩
  rcases hwrites _ _ h with hold | ⟨⟨w, hw⟩, hu⟩
  · left
    rw [commitGets_toVersionedKVStore] at hold
    exact hold
  · exact .inr ⟨Table.mem_keys_toList.1 (List.mem_map_of_mem hw), hu⟩

end Versions

/-! ### What a prepare checks -/

/-- The timestamps a read of the key at `ts` does not allow: strictly between the version read
and `ts`. -/
def Window (key : Key) (ts : Timestamp) (txn : Transaction) (u : Timestamp) : Prop :=
  ∃ v, txn.readSet.lookup key = some v ∧ v < u ∧ u < ts

variable {s : TapirStore} {ts : Timestamp} {txn : Transaction} {id : TxnId} {key : Key}

theorem mem_getPreparedWrites {t : Timestamp} {q : Transaction}
    (h : s.prepared.lookup id = some (t, q)) (hkey : key ∈ q.writeSet) :
    t ∈ s.getPreparedWrites key :=
  List.mem_map.2 ⟨(id, t, q), List.mem_filter.2 ⟨Table.mem_toList.2 h, decide_eq_true hkey⟩, rfl⟩

theorem mem_getPreparedReads {t : Timestamp} {q : Transaction}
    (h : s.prepared.lookup id = some (t, q)) (hkey : key ∈ q.readSet) :
    t ∈ s.getPreparedReads key :=
  List.mem_map.2 ⟨(id, t, q), List.mem_filter.2 ⟨Table.mem_toList.2 h, decide_eq_true hkey⟩, rfl⟩

/-- **A read that passes.** There is no version in its window and no prepared write, provided
the next version is one the code takes for valid. -/
theorem checkRead_none {v : Timestamp} (h : s.checkRead ts (key, v) = none) {value : Value}
    (hv : s.store.HasVersion key v value)
    (hnext : ∀ next, s.store.nextVersion key v = some next → next.isValid = true ∨ ts ≤ next) :
    (∀ u value', s.store.HasVersion key u value' → v < u → ¬ u < ts) ∧
      ∀ w ∈ s.getPreparedWrites key, v < w → ¬ w < ts := by
  simp only [checkRead, getRange_of_hasVersion hv, ne_eq, not_true_eq_false, if_false] at h
  cases hn : s.store.nextVersion key v with
  | none =>
      rw [hn] at h
      refine ⟨fun u value' hu hlt => absurd hlt (nextVersion_none hn hu), fun w hw _ hlt => ?_⟩
      split_ifs at h with hinvalid hany hvalid
      · rw [Bool.not_eq_true, List.any_eq_false] at hany
        apply hany w hw
        rw [decide_eq_true (le_of_lt hlt), Bool.or_true]
      all_goals exact absurd rfl hinvalid
  | some next =>
      rw [hn, Option.getD_some] at h
      have hversions : ts ≤ next → ∀ u value', s.store.HasVersion key u value' → v < u → ¬ u < ts :=
        fun hle u value' hu hlt => not_lt.2 (hle.trans (nextVersion_some hn hu hlt))
      split_ifs at h with hinvalid hany hfail hany'
      · rw [Bool.not_eq_true, List.any_eq_false] at hany
        have hle : ts ≤ next := (hnext next hn).resolve_left fun hyes => by
          rw [hinvalid] at hyes
          cases hyes
        refine ⟨hversions hle, fun w hw _ hlt => hany w hw ?_⟩
        rw [decide_eq_true (le_of_lt hlt), Bool.or_true]
      · rw [Bool.not_eq_true, List.any_eq_false] at hany'
        have hle : ts ≤ next := by
          rw [Bool.or_eq_true, not_or, decide_eq_true_eq] at hfail
          exact not_lt.1 hfail.2
        exact ⟨hversions hle, fun w hw hlt hlt' => hany' w hw (decide_eq_true ⟨hlt, hlt'⟩)⟩

/-- **A write that passes.** No prepared transaction has read the key at a later timestamp. -/
theorem checkWrite_none {value : Value} (h : s.checkWrite ts (key, value) = none) :
    ∀ r ∈ s.getPreparedReads key, ¬ ts < r := by
  unfold checkWrite at h
  simp only at h
  split at h
  · cases h
  · split at h
    · cases h
    · split_ifs at h with hany
      rw [Bool.not_eq_true, List.any_eq_false] at hany
      exact fun r hr hlt => hany r hr (decide_eq_true hlt)

/-- **Prepare.** Nothing happens, the transaction is forgotten, or every check passed and it is
entered. -/
theorem prepare_cases (s : TapirStore) (id : TxnId) (txn : Transaction) (ts : Timestamp) :
    (s.prepare id txn ts).2 = s ∨
    (s.prepare id txn ts).2 = { s with prepared := s.prepared.erase id } ∨
    ((∀ r ∈ txn.readSet.toList,
        ({ s with prepared := s.prepared.erase id } : TapirStore).checkRead ts r = none) ∧
      (∀ w ∈ txn.writeSet.toList,
        ({ s with prepared := s.prepared.erase id } : TapirStore).checkWrite ts w = none) ∧
      (s.prepare id txn ts).2 =
        { s with prepared := (s.prepared.erase id).insert id (ts, txn) }) := by
  unfold prepare
  split_ifs with hsame
  · exact .inl rfl
  · right
    cases hcheck : ({ s with prepared := s.prepared.erase id } : TapirStore).check txn ts with
    | some reply =>
        left
        simp only [hcheck]
    | none =>
        right
        simp only [hcheck, and_true]
        unfold check at hcheck
        split at hcheck
        · cases hcheck
        · rename_i hreads
          exact ⟨List.findSome?_eq_none_iff.1 hreads, List.findSome?_eq_none_iff.1 hcheck⟩

/-! ### Sequences of calls -/

/-- The calls that change the store. -/
inductive Call where
  | load (key : Key) (value : Value) (timestamp : Timestamp)
  | prepare (id : TxnId) (txn : Transaction) (timestamp : Timestamp)
  | commit (id : TxnId)
  | abort (id : TxnId)

/-- The store, and the transactions that have committed with their timestamps. -/
structure Run where
  store : TapirStore
  committed : List (Timestamp × Transaction) := []

def Run.call (r : Run) : Call → Run
  | .load key value timestamp => { r with store := r.store.load key value timestamp }
  | .prepare id txn timestamp => { r with store := (r.store.prepare id txn timestamp).2 }
  | .commit id =>
      { store := r.store.commit id
        committed := (r.store.prepared.lookup id).toList ++ r.committed }
  | .abort id => { r with store := r.store.abort id }

/-- An empty store. -/
def start (linearizable : Bool) : Run := { store := { linearizable := linearizable } }

/-- What a sequence of calls makes of an empty store. -/
abbrev after (linearizable : Bool) (ops : List Call) : Run :=
  Calls.run Run.call (start linearizable) ops

/-- A transaction reads versions that are in the store. -/
def Call.ReadsVersions (r : Run) : Call → Prop
  | .prepare _ txn _ => ∀ key v, txn.readSet.lookup key = some v →
      ∃ value, r.store.store.HasVersion key v value
  | _ => True

/-- What `getLastRead` is meant to find out: a transaction that committed at a later timestamp
has read the version of the key that is valid at `ts`. -/
def ReadLater (r : Run) (key : Key) (ts : Timestamp) : Prop :=
  ∃ e, r.store.store.getValue key ts = some e ∧
    ∃ p ∈ r.committed, p.2.readSet.lookup key = some e.1 ∧ ts < p.1

/-- No write is prepared at a timestamp whose version has been read later, and no version is
loaded into the window of a read that has committed or is prepared. The version after one that
is read has a timestamp the code takes for valid, or one that is not below that of the
reader. -/
def Call.Spares (r : Run) : Call → Prop
  | .load key _ u => (∀ p ∈ r.committed, ¬ Window key p.1 p.2 u) ∧
      ∀ id p, r.store.prepared.lookup id = some p → ¬ Window key p.1 p.2 u
  | .prepare _ txn ts =>
      (∀ key ∈ txn.writeSet, ¬ ReadLater r key ts) ∧
      ∀ key v next, txn.readSet.lookup key = some v →
        r.store.store.nextVersion key v = some next → next.isValid = true ∨ ts ≤ next
  | _ => True

/-- **The invariant.** Committed and prepared transactions read versions that are there, and
the windows of their reads are free, of versions and of the prepared writes of others. -/
structure Current (r : Run) : Prop where
  committedReads : ∀ p ∈ r.committed, ∀ key v, p.2.readSet.lookup key = some v →
    ∃ value, r.store.store.HasVersion key v value
  preparedReads : ∀ id p, r.store.prepared.lookup id = some p → ∀ key v,
    p.2.readSet.lookup key = some v → ∃ value, r.store.store.HasVersion key v value
  committed : ∀ p ∈ r.committed, ∀ key u value, r.store.store.HasVersion key u value →
    ¬ Window key p.1 p.2 u
  prepared : ∀ id p, r.store.prepared.lookup id = some p → ∀ key u value,
    r.store.store.HasVersion key u value → ¬ Window key p.1 p.2 u
  committedWrites : ∀ p ∈ r.committed, ∀ id q, r.store.prepared.lookup id = some q →
    ∀ key ∈ q.2.writeSet, ¬ Window key p.1 p.2 q.1
  preparedWrites : ∀ id p, r.store.prepared.lookup id = some p → ∀ id' q, id' ≠ id →
    r.store.prepared.lookup id' = some q → ∀ key ∈ q.2.writeSet, ¬ Window key p.1 p.2 q.1

/-- Fewer prepared transactions. -/
theorem Current.forget {r : Run} (h : Current r) {t : Table TxnId (Timestamp × Transaction)}
    (ht : ∀ id p, t.lookup id = some p → r.store.prepared.lookup id = some p) :
    Current { r with store := { r.store with prepared := t } } where
  committedReads := h.committedReads
  preparedReads id p hp := h.preparedReads id p (ht id p hp)
  committed := h.committed
  prepared id p hp := h.prepared id p (ht id p hp)
  committedWrites p hp id q hq := h.committedWrites p hp id q (ht id q hq)
  preparedWrites id p hp id' q hne hq := h.preparedWrites id p (ht id p hp) id' q hne (ht id' q hq)

theorem lookup_of_erase {t : Table TxnId (Timestamp × Transaction)} {i : TxnId} :
    ∀ id p, (t.erase i).lookup id = some p → t.lookup id = some p := by
  intro id p hp
  rw [Table.lookup_erase_eq] at hp
  split_ifs at hp
  exact hp

/-- A version valid at `ts` that is not the one read lies in the window. -/
theorem Current.readLater {r : Run} (h : Current r) {p : Timestamp × Transaction}
    (hp : p ∈ r.committed) (hwindow : Window key p.1 p.2 ts) : ReadLater r key ts := by
  obtain ⟨v, hv, hlt, hlt'⟩ := hwindow
  obtain ⟨value, hvalue⟩ := h.committedReads p hp key v hv
  obtain ⟨e, he, hmem, hle, hge⟩ := getValue_of_le hvalue (le_of_lt hlt)
  have heq : e.1 = v := by
    by_contra hne
    exact h.committed p hp key e.1 e.2 hmem ⟨v, hv, lt_of_le_of_ne hle (Ne.symm hne),
      lt_of_le_of_lt hge hlt'⟩
  exact ⟨e, he, p, hp, by rw [heq]; exact hv, hlt'⟩

theorem Current.load {r : Run} (h : Current r) {value : Value} {u : Timestamp}
    (hspare : (Call.load key value u).Spares r) : Current (r.call (.load key value u)) := by
  refine ⟨fun p hp key' v hv => ?_, fun id p hp key' v hv => ?_,
    fun p hp key' u' value' hv => ?_, fun id p hp key' u' value' hv => ?_,
    h.committedWrites, h.preparedWrites⟩
  · obtain ⟨value', hvalue'⟩ := h.committedReads p hp key' v hv
    exact ⟨value', HasVersion.put hvalue'⟩
  · obtain ⟨value', hvalue'⟩ := h.preparedReads id p hp key' v hv
    exact ⟨value', HasVersion.put hvalue'⟩
  · rcases hasVersion_put hv with hold | ⟨rfl, rfl⟩
    · exact h.committed p hp key' u' value' hold
    · exact hspare.1 p hp
  · rcases hasVersion_put hv with hold | ⟨rfl, rfl⟩
    · exact h.prepared id p hp key' u' value' hold
    · exact hspare.2 id p hp

theorem Current.prepare {r : Run} (h : Current r)
    (hreads : (Call.prepare id txn ts).ReadsVersions r)
    (hspare : (Call.prepare id txn ts).Spares r) : Current (r.call (.prepare id txn ts)) := by
  rcases prepare_cases r.store id txn ts with heq | heq | ⟨hread, hwrite, heq⟩
  · rw [Run.call, heq]
    exact h
  · rw [Run.call, heq]
    exact h.forget lookup_of_erase
  · rw [Run.call, heq]
    -- the window of the new transaction is free
    have hnew : ∀ key v, txn.readSet.lookup key = some v →
        (∀ u value, r.store.store.HasVersion key u value → v < u → ¬ u < ts) ∧
          ∀ w ∈ ({ r.store with prepared := r.store.prepared.erase id } :
            TapirStore).getPreparedWrites key, v < w → ¬ w < ts := by
      intro key v hv
      obtain ⟨value, hvalue⟩ := hreads key v hv
      exact checkRead_none (hread (key, v) (Table.mem_toList.2 hv)) hvalue
        fun next hnext => hspare.2 key v next hv hnext
    -- the new transaction writes nothing in the window of another
    have hwrites : ∀ id' p, id' ≠ id → r.store.prepared.lookup id' = some p → ∀ key ∈ txn.writeSet,
        ¬ Window key p.1 p.2 ts := by
      rintro id' ⟨t, q⟩ hne hp key hkey ⟨v, hv, _, hlt⟩
      obtain ⟨value, hvalue⟩ := Option.isSome_iff_exists.1 (AList.lookup_isSome.2 hkey)
      refine checkWrite_none (hwrite (key, value) (Table.mem_toList.2 hvalue)) t ?_ hlt
      have hold : (r.store.prepared.erase id).lookup id' = some (t, q) := by
        rw [AList.lookup_erase_ne hne]
        exact hp
      apply mem_getPreparedReads hold
      exact AList.lookup_isSome.1 (by rw [hv]; rfl)
    have hlook : ∀ id' p, ((r.store.prepared.erase id).insert id (ts, txn)).lookup id' = some p →
        (id' = id ∧ p = (ts, txn)) ∨ (id' ≠ id ∧ r.store.prepared.lookup id' = some p) := by
      intro id' p hp
      rw [Table.lookup_insert_eq] at hp
      split_ifs at hp with heq'
      · exact .inl ⟨heq', (Option.some.inj hp).symm⟩
      · exact .inr ⟨heq', lookup_of_erase _ _ hp⟩
    refine ⟨h.committedReads, fun id' p hp key v hv => ?_, h.committed,
      fun id' p hp key u value hv => ?_, fun p hp id' q hq key hkey => ?_,
      fun id' p hp id'' q hne hq key hkey => ?_⟩
    · rcases hlook id' p hp with ⟨rfl, rfl⟩ | ⟨_, hold⟩
      · exact hreads key v hv
      · exact h.preparedReads id' p hold key v hv
    · rcases hlook id' p hp with ⟨rfl, rfl⟩ | ⟨_, hold⟩
      · rintro ⟨v, hread', hlt, hlt'⟩
        exact (hnew key v hread').1 u value hv hlt hlt'
      · exact h.prepared id' p hold key u value hv
    · rcases hlook id' q hq with ⟨rfl, rfl⟩ | ⟨_, hold⟩
      · exact fun hwindow => hspare.1 key hkey (h.readLater hp hwindow)
      · exact h.committedWrites p hp id' q hold key hkey
    · rcases hlook id' p hp with ⟨rfl, rfl⟩ | ⟨hne', hold⟩
      · rcases hlook id'' q hq with ⟨rfl, _⟩ | ⟨hne'', hold'⟩
        · exact absurd rfl hne
        · rintro ⟨v, hread', hlt, hlt'⟩
          have hprep : (r.store.prepared.erase id').lookup id'' = some (q.1, q.2) := by
            rw [AList.lookup_erase_ne hne'']
            exact hold'
          exact (hnew key v hread').2 q.1 (mem_getPreparedWrites hprep hkey) hlt hlt'
      · rcases hlook id'' q hq with ⟨rfl, rfl⟩ | ⟨_, hold'⟩
        · exact hwrites id' p hne' hold key hkey
        · exact h.preparedWrites id' p hold id'' q hne hold' key hkey

theorem Current.commit {r : Run} (h : Current r) (id : TxnId) : Current (r.call (.commit id)) := by
  cases hp : r.store.prepared.lookup id with
  | none =>
      have hsame : r.call (.commit id) =
          { r with store := { r.store with prepared := r.store.prepared.erase id } } := by
        simp only [Run.call, TapirStore.commit, hp, Option.toList_none, List.nil_append]
        rfl
      rw [hsame]
      exact h.forget lookup_of_erase
  | some p =>
      have hstep : r.call (.commit id) =
          { store := { r.store.commitAt p.1 p.2 with prepared := r.store.prepared.erase id }
            committed := p :: r.committed } := by
        simp only [Run.call, TapirStore.commit, hp, Option.toList_some, Option.getD_some]
        rfl
      have hother : ∀ id' q, (r.store.prepared.erase id).lookup id' = some q →
          id' ≠ id ∧ r.store.prepared.lookup id' = some q := by
        intro id' q hq
        rw [Table.lookup_erase_eq] at hq
        split_ifs at hq with hne
        exact ⟨hne, hq⟩
      rw [hstep]
      refine ⟨fun q hq key v hv => ?_, fun id' q hq key v hv => ?_,
        fun q hq key u value hv => ?_, fun id' q hq key u value hv => ?_,
        fun q hq id' q' hq' key hkey => ?_, fun id' q hq id'' q' hne hq' => ?_⟩
      · rcases List.mem_cons.1 hq with rfl | hq
        · obtain ⟨value, hvalue⟩ := h.preparedReads id q hp key v hv
          exact ⟨value, HasVersion.commitAt hvalue⟩
        · obtain ⟨value, hvalue⟩ := h.committedReads q hq key v hv
          exact ⟨value, HasVersion.commitAt hvalue⟩
      · obtain ⟨value, hvalue⟩ := h.preparedReads id' q (hother id' q hq).2 key v hv
        exact ⟨value, HasVersion.commitAt hvalue⟩
      · rcases List.mem_cons.1 hq with rfl | hq
        · rcases hasVersion_commitAt hv with hold | ⟨_, rfl⟩
          · exact h.prepared id q hp key u value hold
          · rintro ⟨v, _, _, hlt⟩
            exact lt_irrefl _ hlt
        · rcases hasVersion_commitAt hv with hold | ⟨hkey, rfl⟩
          · exact h.committed q hq key u value hold
          · exact h.committedWrites q hq id p hp key hkey
      · obtain ⟨hne, hold⟩ := hother id' q hq
        rcases hasVersion_commitAt hv with hv | ⟨hkey, rfl⟩
        · exact h.prepared id' q hold key u value hv
        · exact h.preparedWrites id' q hold id p (Ne.symm hne) hp key hkey
      · obtain ⟨hne, hold⟩ := hother id' q' hq'
        rcases List.mem_cons.1 hq with rfl | hq
        · exact h.preparedWrites id q hp id' q' hne hold key hkey
        · exact h.committedWrites q hq id' q' hold key hkey
      · exact h.preparedWrites id' q (hother id' q hq).2 id'' q' hne (hother id'' q' hq').2

/-- One call. -/
theorem Current.call {r : Run} (h : Current r) {op : Call} (hreads : op.ReadsVersions r)
    (hspare : op.Spares r) : Current (r.call op) := by
  cases op with
  | load key value u => exact h.load hspare
  | prepare id txn ts => exact h.prepare hreads hspare
  | commit id => exact h.commit id
  | abort id => exact h.forget lookup_of_erase

theorem Current.run {r : Run} (h : Current r) {ops : List Call}
    (hreads : Calls.Throughout Run.call (fun r op => op.ReadsVersions r) r ops)
    (hspare : Calls.Throughout Run.call (fun r op => op.Spares r) r ops) :
    Current (Calls.run Run.call r ops) := by
  induction ops generalizing r with
  | nil => exact h
  | cons op ops ih =>
      obtain ⟨hread, hreads⟩ := hreads
      obtain ⟨hsp, hspare⟩ := hspare
      rw [Calls.run_cons]
      exact ih (h.call hread hsp) hreads hspare

theorem current_start (linearizable : Bool) : Current (start linearizable) := by
  refine ⟨fun _ hp => absurd hp List.not_mem_nil, fun _ _ hp => ?_,
    fun _ hp => absurd hp List.not_mem_nil, fun _ _ hp => ?_,
    fun _ hp => absurd hp List.not_mem_nil, fun _ _ hp => ?_⟩
  · cases hp
  · cases hp
  · cases hp

/-- **What was read stays current.** For every sequence of calls in which transactions read
versions that are in the store: if no write is prepared at a timestamp whose version has been
read later, and no version is loaded into the window of a read, then for every transaction that
committed at `ts` having read version `v` of a key, the store has no version of that key strictly
between `v` and `ts`. -/
theorem reads_stay_current (linearizable : Bool) (ops : List Call)
    (hreads : Calls.Throughout Run.call (fun r op => op.ReadsVersions r) (start linearizable) ops)
    (hspare : Calls.Throughout Run.call (fun r op => op.Spares r) (start linearizable) ops) :
    ∀ p ∈ (after linearizable ops).committed, ∀ key v, p.2.readSet.lookup key = some v →
      ∀ u value, (after linearizable ops).store.store.HasVersion key u value →
        ¬ (v < u ∧ u < p.1) := by
  have hcurrent : Current (after linearizable ops) := (current_start linearizable).run hreads hspare
  intro p hp key v hv u value hu hbetween
  exact hcurrent.committed p hp key u value hu ⟨v, hv, hbetween⟩

/-- A transaction that read the version of `x` at (1, 1). -/
def reader : Transaction := { readSet := Table.ofList [("x", ⟨1, 1⟩)] }

/-- A transaction that writes `x`. -/
def writer : Transaction := { writeSet := Table.ofList [("x", "new")] }

/-- The reader commits at (5, 1), then the writer at a timestamp of its own. -/
def readThenWrite (ts : Timestamp) : List Call :=
  [.load "x" "old" ⟨1, 1⟩, .prepare 1 reader ⟨5, 1⟩, .commit 1, .prepare 2 writer ts, .commit 2]

theorem reader_reads {key : Key} {v : Timestamp} (h : reader.readSet.lookup key = some v) :
    key = "x" ∧ v = ⟨1, 1⟩ := by
  have hmem := Table.mem_toList.2 h
  rw [show reader.readSet.toList = [("x", ⟨1, 1⟩)] from rfl, List.mem_singleton] at hmem
  exact Prod.mk.inj hmem

theorem readThenWrite_reads (ts : Timestamp) :
    Calls.Throughout Run.call (fun r op => op.ReadsVersions r) (start false) (readThenWrite ts) := by
  refine ⟨trivial, fun key v hv => ?_, trivial, fun key v hv => ?_, trivial, trivial⟩
  · obtain ⟨rfl, rfl⟩ := reader_reads hv
    exact ⟨"old", by decide +kernel⟩
  · cases hv

theorem readThenWrite_spares :
    Calls.Throughout Run.call (fun r op => op.Spares r) (start false) (readThenWrite ⟨7, 2⟩) := by
  refine ⟨⟨fun p hp => absurd hp List.not_mem_nil, fun _ _ hp => ?_⟩,
    ⟨fun _ hkey => absurd hkey List.not_mem_nil, fun key v next hv hnext => ?_⟩, trivial,
    ⟨fun key _ hlater => ?_, fun key v next hv => ?_⟩, trivial, trivial⟩
  · cases hp
  · obtain ⟨rfl, rfl⟩ := reader_reads hv
    cases hnext
  · obtain ⟨e, _, p, hp, _, hlt⟩ := hlater
    rw [show p = (⟨5, 1⟩, reader) from List.mem_singleton.1 hp] at hlt
    exact absurd hlt (by decide)
  · cases hv

/-- The reader has committed, and the version of the writer is not below its timestamp. -/
theorem readThenWrite_current :
    (⟨5, 1⟩, reader) ∈ (after false (readThenWrite ⟨7, 2⟩)).committed ∧
      (after false (readThenWrite ⟨7, 2⟩)).store.store.HasVersion "x" ⟨7, 2⟩ "new" ∧
      ∀ p ∈ (after false (readThenWrite ⟨7, 2⟩)).committed, ∀ key v,
        p.2.readSet.lookup key = some v → ∀ u value,
        (after false (readThenWrite ⟨7, 2⟩)).store.store.HasVersion key u value →
          ¬ (v < u ∧ u < p.1) :=
  ⟨List.mem_cons_of_mem _ (List.mem_singleton_self _), by decide +kernel,
    reads_stay_current false _ (readThenWrite_reads _) readThenWrite_spares⟩

/-- **The committed read is forgotten.** Nothing is recorded of the reader when it commits, so a
writer with a timestamp below it is prepared and committed. -/
theorem committed_read_forgotten :
    Calls.Throughout Run.call (fun r op => op.ReadsVersions r) (start false) (readThenWrite ⟨3, 2⟩) ∧
      (⟨5, 1⟩, reader) ∈ (after false (readThenWrite ⟨3, 2⟩)).committed ∧
      reader.readSet.lookup "x" = some ⟨1, 1⟩ ∧
      (after false (readThenWrite ⟨3, 2⟩)).store.store.HasVersion "x" ⟨3, 2⟩ "new" ∧
      (⟨1, 1⟩ : Timestamp) < ⟨3, 2⟩ ∧ (⟨3, 2⟩ : Timestamp) < ⟨5, 1⟩ :=
  ⟨readThenWrite_reads _, List.mem_cons_of_mem _ (List.mem_singleton_self _), rfl,
    by decide +kernel, by decide, by decide⟩

end TapirStore

end D2PC
