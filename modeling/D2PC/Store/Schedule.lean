import D2PC.Lib.Serializable
import D2PC.Store.Server

/-!
# Schedules of one store

Transactions run against one store, of either kind, in any interleaving of their reads,
prepares, pre-commits, commits and aborts. The run remembers which versions the reads
returned and which transactions were committed, at which time.

A pre-commit takes a transaction out of validation before its writes are installed. While
it is pending, another transaction can read the old version of such a key, pass validation
and overwrite it. The committed transactions are conflict serializable in every run in which
no transaction is prepared while a pre-committed one writes a key it touches; the run
`earlyRelease` shows that the restriction is needed, on both stores.

* `Schedule.Sim` : the run follows the scheduler of `D2PC.Lib.Serializable`;
* `store_conflict_serializable` : serializability of those runs;
* `earlyRelease_not_serializable` : the lost update.
-/

namespace D2PC

open Serial (Access Committed Serializable Sched)

/-- A committed transaction with the time of its commit. -/
structure CommitRecord where
  id : TxnId
  txn : Transaction
  time : ℕ

/-- What a transaction reads and writes. -/
def Transaction.access (t : Transaction) : Access Key Timestamp where
  reads := fun key => t.readSet.lookup key
  writes := fun key => key ∈ t.writeSet

def CommitRecord.committed (c : CommitRecord) : Committed Key Timestamp where
  toAccess := c.txn.access
  time := ⟨c.time, 0⟩

/-- A run so far: the store, the versions reads returned (transaction, key, version), the
committed transactions in the order of their commits, and the last commit time. -/
structure Schedule where
  store : TxnStore
  gets : List (TxnId × Key × Timestamp) := []
  committed : List CommitRecord := []
  lastTs : ℕ

/-- The operations that are interleaved. -/
inductive StoreOp where
  | get (clock : Clock) (id : TxnId) (key : Key)
  | getDependency (id : TxnId) (key : Key)
  | prepare (clock : Clock) (id : TxnId) (txn : Transaction)
  | preCommit (id : TxnId)
  | commit (id : TxnId) (timestamp : ℕ)
  | abort (id : TxnId)

namespace Schedule

/-- One operation. A read counts when it returns a committed version. -/
def step (r : Schedule) : StoreOp → Schedule
  | .get clock id key =>
      let (reply, s) := r.store.get clock id key
      match reply.2 with
      | some v =>
          { r with
            store := s
            gets := if reply.1 = replyOk then (id, key, v.1) :: r.gets else r.gets }
      | none => { r with store := s }
  | .getDependency id key =>
      match r.store.getDependency id key ({}, "") with
      | some (v, 0) => { r with gets := (id, key, v.1) :: r.gets }
      | _ => r
  | .prepare clock id txn => { r with store := (r.store.prepare clock id txn true).2 }
  | .preCommit id => { r with store := r.store.preCommit id }
  | .commit id timestamp =>
      { r with
        store := r.store.commit id timestamp
        committed := r.committed ++ ((r.store.entry id).map fun t => ⟨id, t, timestamp⟩).toList
        lastTs := timestamp }
  | .abort id => { r with store := r.store.abort id }

/-- The read set of a prepared transaction records versions its reads returned, and commit
times increase. -/
def Legal (r : Schedule) : StoreOp → Prop
  | .prepare _ id txn => ∀ read ∈ txn.readSet.toList, (id, read.1, read.2) ∈ r.gets
  | .commit _ timestamp => r.lastTs < timestamp
  | _ => True

/-- No transaction is prepared while a pre-committed one writes a key it reads or writes. -/
def NoEarlyRelease (r : Schedule) : StoreOp → Prop
  | .prepare _ _ txn => ∀ t ∈ r.store.precommitted.toList, ∀ key ∈ t.2.writeSet.keys,
      key ∉ txn.readSet ∧ key ∉ txn.writeSet
  | _ => True

instance (r : Schedule) : (op : StoreOp) → Decidable (r.Legal op)
  | .prepare _ id txn =>
      inferInstanceAs (Decidable (∀ read ∈ txn.readSet.toList, (id, read.1, read.2) ∈ r.gets))
  | .commit _ timestamp => inferInstanceAs (Decidable (r.lastTs < timestamp))
  | .get _ _ _ | .getDependency _ _ | .preCommit _ | .abort _ => isTrue trivial

instance (r : Schedule) : (op : StoreOp) → Decidable (r.NoEarlyRelease op)
  | .prepare _ _ txn =>
      inferInstanceAs (Decidable (∀ t ∈ r.store.precommitted.toList, ∀ key ∈ t.2.writeSet.keys,
        key ∉ txn.readSet ∧ key ∉ txn.writeSet))
  | .get _ _ _ | .getDependency _ _ | .preCommit _ | .commit _ _ | .abort _ => isTrue trivial

/-- The runs from `r₀` all of whose steps meet `C`. -/
inductive Reach (C : Schedule → StoreOp → Prop) (r₀ : Schedule) : Schedule → Prop
  | start : Reach C r₀ r₀
  | step {r : Schedule} {op : StoreOp} : Reach C r₀ r → C r op → Reach C r₀ (r.step op)

/-- Execute a list of operations as long as each meets `C`. -/
def exec (C : Schedule → StoreOp → Prop) [∀ r op, Decidable (C r op)] (r : Schedule) :
    List StoreOp → Option Schedule
  | [] => some r
  | op :: ops => if C r op then exec C (r.step op) ops else none

theorem Reach.exec {C : Schedule → StoreOp → Prop} [∀ r op, Decidable (C r op)]
    {r₀ r r' : Schedule} {ops : List StoreOp} (h : Reach C r₀ r)
    (he : Schedule.exec C r ops = some r') : Reach C r₀ r' := by
  induction ops generalizing r with
  | nil => cases he; exact h
  | cons op ops ih =>
      simp only [Schedule.exec] at he
      split_ifs at he with hc
      exact ih (.step h hc) he

/-! ### The run follows the scheduler -/

/-- The slots `(b, id)` of the scheduler hold the transactions of the table. -/
def Slots (active : Bool × TxnId → Option (Serial.Entry Key Timestamp)) (b : Bool)
    (t : Table TxnId Transaction) : Prop :=
  ∀ id, (active (b, id)).map (·.toAccess) = (t.lookup id).map Transaction.access

section
variable {active : Bool × TxnId → Option (Serial.Entry Key Timestamp)} {b b' : Bool}
variable {t : Table TxnId Transaction}

theorem Slots.other (h : Slots active b t) (hb : b ≠ b') (id : TxnId)
    (x : Option (Serial.Entry Key Timestamp)) :
    Slots (Function.update active (b', id) x) b t := by
  intro id'
  rw [Function.update_of_ne (by simp [hb])]
  exact h id'

theorem Slots.erase (h : Slots active b t) (id : TxnId) :
    Slots (Function.update active (b, id) none) b (t.erase id) := by
  intro id'
  rw [Table.lookup_erase_eq]
  split_ifs with hid
  · rw [hid, Function.update_self]; rfl
  · rw [Function.update_of_ne (by simp [hid])]; exact h id'

theorem Slots.insert (h : Slots active b t) {id : TxnId} {e : Serial.Entry Key Timestamp}
    {txn : Transaction} (he : e.toAccess = txn.access) :
    Slots (Function.update active (b, id) (some e)) b (t.insert id txn) := by
  intro id'
  rw [Table.lookup_insert_eq]
  split_ifs with hid
  · rw [hid, Function.update_self, Option.map_some, Option.map_some, he]
  · rw [Function.update_of_ne (by simp [hid])]; exact h id'

theorem Slots.lookup (h : Slots active b t) {id : TxnId} {e : Serial.Entry Key Timestamp}
    (he : active (b, id) = some e) : ∃ txn, t.lookup id = some txn ∧ e.toAccess = txn.access := by
  have hid := h id
  rw [he, Option.map_some] at hid
  obtain ⟨txn, htxn, hacc⟩ := Option.map_eq_some_iff.1 hid.symm
  exact ⟨txn, htxn, hacc.symm⟩

theorem Slots.slot (h : Slots active b t) {id : TxnId} {txn : Transaction}
    (ht : t.lookup id = some txn) : ∃ e, active (b, id) = some e ∧ e.toAccess = txn.access := by
  have hid := h id
  rw [ht, Option.map_some] at hid
  obtain ⟨e, he, hacc⟩ := Option.map_eq_some_iff.1 hid
  exact ⟨e, he, hacc⟩

end

/-- **Simulation.** A prepared transaction is active in slot `(false, id)`, a pre-committed
one in slot `(true, id)`; the remaining fields say that versions only grow and stay below
the next commit time. -/
structure Sim (r : Schedule) (a : Sched (Bool × TxnId) Key Timestamp) : Prop where
  inv : a.Inv
  consistent : r.store.Consistent
  prepared : Slots a.active false r.store.prepared
  precommitted : Slots a.active true r.store.precommitted
  committed : a.committed.map Prod.snd = r.committed.map CommitRecord.committed
  versions : ∀ key v, r.store.kv.get key = some v → v.1.timestamp ≤ r.lastTs
  gets : ∀ g ∈ r.gets, ∃ v, r.store.kv.get g.2.1 = some v ∧ g.2.2 ≤ v.1
  written : ∀ c ∈ r.committed, ∀ key ∈ c.txn.writeSet,
    ∃ v, r.store.kv.get key = some v ∧ ⟨c.time, 0⟩ ≤ v.1
  past : ∀ c ∈ r.committed, c.time ≤ r.lastTs ∧
    ∀ key v, c.txn.readSet.lookup key = some v → v.timestamp < c.time
  reads : ∀ id t, r.store.prepared.lookup id = some t ∨ r.store.precommitted.lookup id = some t →
    ∀ key v, t.readSet.lookup key = some v → v.timestamp ≤ r.lastTs

variable {r : Schedule} {a : Sched (Bool × TxnId) Key Timestamp}

/-- The transaction behind an active entry. -/
theorem Sim.entry (h : Sim r a) {x : Bool × TxnId} {e : Serial.Entry Key Timestamp}
    (hx : a.active x = some e) :
    ∃ t, e.toAccess = t.access ∧ ((x.1 = false ∧ r.store.prepared.lookup x.2 = some t) ∨
      (x.1 = true ∧ r.store.precommitted.lookup x.2 = some t)) := by
  obtain ⟨b, id⟩ := x
  cases b with
  | false =>
      obtain ⟨t, ht, hacc⟩ := h.prepared.lookup hx
      exact ⟨t, hacc, .inl ⟨rfl, ht⟩⟩
  | true =>
      obtain ⟨t, ht, hacc⟩ := h.precommitted.lookup hx
      exact ⟨t, hacc, .inr ⟨rfl, ht⟩⟩

/-- A change of the store that keeps the versions; the tables follow the scheduler. -/
theorem Sim.of_tables (h : Sim r a) {s : TxnStore} {a' : Sched (Bool × TxnId) Key Timestamp}
    {prep pre : Table TxnId Transaction} (hcons : s.Consistent)
    (ht : TxnStore.Tables r.store s prep pre) (hinv : a'.Inv)
    (hprep : Slots a'.active false prep) (hpre : Slots a'.active true pre)
    (hcomm : a'.committed = a.committed)
    (hreads : ∀ id t, prep.lookup id = some t ∨ pre.lookup id = some t →
      ∀ key v, t.readSet.lookup key = some v → v.timestamp ≤ r.lastTs) :
    Sim { r with store := s } a' where
  inv := hinv
  consistent := hcons
  prepared := by rw [ht.prepared]; exact hprep
  precommitted := by rw [ht.precommitted]; exact hpre
  committed := by rw [hcomm]; exact h.committed
  versions key v hv := h.versions key v (by rw [← ht.kv]; exact hv)
  gets g hg := by rw [ht.kv]; exact h.gets g hg
  written c hc key hkey := by rw [ht.kv]; exact h.written c hc key hkey
  past := h.past
  reads := by rw [ht.prepared, ht.precommitted]; exact hreads

/-- More reads were recorded. -/
theorem Sim.of_gets (h : Sim r a) {gs : List (TxnId × Key × Timestamp)}
    (hgs : ∀ g ∈ gs, ∃ v, r.store.kv.get g.2.1 = some v ∧ g.2.2 ≤ v.1) :
    Sim { r with gets := gs } a :=
  ⟨h.inv, h.consistent, h.prepared, h.precommitted, h.committed, h.versions, hgs, h.written,
    h.past, h.reads⟩

theorem Sim.get (h : Sim r a) (clock : Clock) (id : TxnId) (key : Key) :
    Sim (r.step (.get clock id key)) a := by
  obtain ⟨hcons, ht, hval⟩ := TxnStore.get_cases h.consistent clock id key
  have hs := h.of_tables hcons ht h.inv h.prepared h.precommitted rfl h.reads
  simp only [step]
  split
  · rename_i v hv
    refine hs.of_gets fun g hg => ?_
    have hcur : r.store.kv.get key = some v := hval.symm.trans hv
    split_ifs at hg
    · rcases List.mem_cons.1 hg with rfl | hg
      · exact ⟨v, (ht.kv key).trans hcur, le_refl _⟩
      · exact hs.gets g hg
    · exact hs.gets g hg
  · exact hs

theorem getDependency_get {s : VersionedKVStore} {key : Key} {v v' : Timestamp × Value}
    {tid : TxnId} (h : s.getDependency key v = some (v', tid)) :
    ∃ cur, s.get key = some cur ∧ (v' = cur ∨ v' = v) := by
  unfold VersionedKVStore.getDependency at h
  split at h
  · cases h
  · rename_i cur hcur
    split at h <;> cases h
    · exact ⟨_, hcur, .inl rfl⟩
    · exact ⟨_, hcur, .inr rfl⟩

theorem Sim.getDependency (h : Sim r a) (id : TxnId) (key : Key) :
    Sim (r.step (.getDependency id key)) a := by
  simp only [step]
  split
  · rename_i v hv
    have hkv : r.store.kv.getDependency key ({}, "") = some (v, 0) := by
      cases hstore : r.store <;> rw [hstore] at hv <;> exact hv
    obtain ⟨cur, hcur, hvcur⟩ := getDependency_get hkv
    refine h.of_gets fun g hg => ?_
    rcases List.mem_cons.1 hg with rfl | hg
    · refine ⟨cur, hcur, ?_⟩
      rcases hvcur with rfl | rfl
      · exact le_refl _
      · -- the untouched out-parameter carries the least timestamp
        simp only [Timestamp.le_def]
        split_ifs <;> exact Nat.zero_le _
    · exact h.gets g hg
  · exact h

theorem Sim.abort (h : Sim r a) (id : TxnId) : ∃ a', Sim (r.step (.abort id)) a' := by
  obtain ⟨hcons, ht | ht⟩ := TxnStore.abort_cases h.consistent id
  · exact ⟨_, h.of_tables hcons ht (h.inv.drop (true, id))
      (h.prepared.other (by decide) id none) (h.precommitted.erase id) rfl
      (fun id' t ht' => h.reads id' t (ht'.imp_right fun hp => (TxnStore.lookup_erase_some hp).2))⟩
  · exact ⟨_, h.of_tables hcons ht (h.inv.drop (false, id))
      (h.prepared.erase id) (h.precommitted.other (by decide) id none) rfl
      (fun id' t ht' => h.reads id' t (ht'.imp_left fun hp => (TxnStore.lookup_erase_some hp).2))⟩

/-- A transaction that passes the prepare may be admitted: the store refuses conflicts with
prepared writes, the restriction on the run those with pre-committed ones. -/
theorem Sim.admits (h : Sim r a) {clock : Clock} {id : TxnId} {txn : Transaction}
    (hlegal : r.Legal (.prepare clock id txn)) (hfree : r.NoEarlyRelease (.prepare clock id txn))
    (hadm : r.store.Admissible txn) : Serial.Admits a txn.access := by
  have hread : ∀ key v, txn.readSet.lookup key = some v →
      ∃ cur, r.store.kv.get key = some cur ∧ v ≤ cur.1 := fun key v hv =>
    h.gets (id, key, v) (hlegal (key, v) (Table.mem_toList.2 hv))
  constructor
  · intro key v hv c hc hwrite
    obtain ⟨cur, hcur, -⟩ := hread key v hv
    have hc' : c.2 ∈ r.committed.map CommitRecord.committed := by
      rw [← h.committed]
      exact List.mem_map.2 ⟨c, hc, rfl⟩
    obtain ⟨rec, hrec, heq⟩ := List.mem_map.1 hc'
    rw [← heq] at hwrite ⊢
    obtain ⟨cur', hcur', hle⟩ := h.written rec hrec key hwrite
    rw [hcur] at hcur'
    cases hcur'
    exact le_trans hle (hadm.current key v cur hv hcur)
  · intro x e hx key hkey
    obtain ⟨t, hacc, hslot⟩ := h.entry hx
    rw [hacc] at hkey
    have hnone : ∀ hno : ∀ v, txn.readSet.lookup key = some v → False,
        txn.access.reads key = none := fun hno => Option.eq_none_iff_forall_ne_some.2 hno
    rcases hslot with ⟨-, hprep⟩ | ⟨-, hpre⟩
    · refine ⟨fun hw => hadm.writes key hw x.2 t hprep hkey, hnone fun v hv => ?_⟩
      obtain ⟨cur, hcur, -⟩ := hread key v hv
      exact hadm.reads key (AList.lookup_isSome.1 (by rw [hv]; rfl)) (by rw [hcur]; rfl)
        x.2 t hprep hkey
    · obtain ⟨hnr, hnw⟩ := hfree (x.2, t) (Table.mem_toList.2 hpre) key hkey
      exact ⟨hnw, AList.lookup_eq_none.2 hnr⟩

theorem Sim.prepare (h : Sim r a) {clock : Clock} {id : TxnId} {txn : Transaction}
    (hlegal : r.Legal (.prepare clock id txn))
    (hfree : r.NoEarlyRelease (.prepare clock id txn)) :
    ∃ a', Sim (r.step (.prepare clock id txn)) a' := by
  obtain ⟨hcons, hcases⟩ := TxnStore.prepare_cases h.consistent clock id txn
  rcases hcases with ⟨-, -, ht⟩ | ⟨-, -, hadm, ht⟩ | ⟨-, -, ht | ht⟩
  · exact ⟨a, h.of_tables hcons ht h.inv h.prepared h.precommitted rfl h.reads⟩
  · refine ⟨_, h.of_tables hcons ht (h.inv.enter (false, id) (h.admits hlegal hfree hadm))
      (h.prepared.insert rfl) (h.precommitted.other (by decide) id _) rfl ?_⟩
    intro id' t ht' key v hv
    rw [Table.lookup_insert_eq] at ht'
    split_ifs at ht' with hid
    · rcases ht' with ht' | ht'
      · cases ht'
        obtain ⟨cur, hcur, hle⟩ := h.gets (id, key, v) (hlegal (key, v) (Table.mem_toList.2 hv))
        exact le_trans (Timestamp.timestamp_le hle) (h.versions key cur hcur)
      · exact h.reads id' t (.inr ht') key v hv
    · exact h.reads id' t ht' key v hv
  · exact ⟨a, h.of_tables hcons ht h.inv h.prepared h.precommitted rfl h.reads⟩
  · exact ⟨_, h.of_tables hcons ht (h.inv.drop (true, id))
      (h.prepared.other (by decide) id none) (h.precommitted.erase id) rfl
      (fun id' t ht' => h.reads id' t (ht'.imp_right fun hp => (TxnStore.lookup_erase_some hp).2))⟩

/-- The transaction that `operator[]` makes up touches nothing. -/
theorem admits_empty (a : Sched (Bool × TxnId) Key Timestamp) :
    Serial.Admits a ({} : Transaction).access := by
  constructor
  · intro key v hv
    exact absurd hv (by simp [Transaction.access])
  · intro x e _ key _
    exact ⟨AList.notMem_empty key, rfl⟩

theorem Sim.preCommit (h : Sim r a) (id : TxnId) : ∃ a', Sim (r.step (.preCommit id)) a' := by
  obtain ⟨hcons, ht⟩ := TxnStore.preCommit_cases h.consistent id
  cases hprep : r.store.prepared.lookup id with
  | some txn =>
      rw [hprep, Option.getD_some] at ht
      obtain ⟨e, he, hacc⟩ := h.prepared.slot hprep
      refine ⟨_, h.of_tables hcons ht (h.inv.move (false, id) (true, id)) ?_ ?_ rfl ?_⟩
      · exact (h.prepared.other (by decide) id _).erase id
      · show Slots (Function.update (Function.update a.active (true, id) (a.active (false, id)))
          (false, id) none) true _
        rw [he]
        exact (h.precommitted.insert hacc).other (by decide) id none
      · intro id' t ht'
        rw [Table.lookup_insert_eq] at ht'
        rcases ht' with ht' | ht'
        · exact h.reads id' t (.inl (TxnStore.lookup_erase_some ht').2)
        · split_ifs at ht' with hid
          · cases ht'
            exact h.reads id txn (.inl hprep)
          · exact h.reads id' t (.inr ht')
  | none =>
      rw [hprep, Option.getD_none] at ht
      refine ⟨_, h.of_tables hcons ht
        ((h.inv.drop (false, id)).enter (true, id) (admits_empty _)) ?_ ?_ rfl ?_⟩
      · exact (h.prepared.erase id).other (by decide) id _
      · exact (h.precommitted.other (by decide) id none).insert rfl
      · intro id' t ht' key v hv
        rw [Table.lookup_insert_eq] at ht'
        rcases ht' with ht' | ht'
        · exact h.reads id' t (.inl (TxnStore.lookup_erase_some ht').2) key v hv
        · split_ifs at ht' with hid
          · cases ht'
            exact absurd hv (by simp)
          · exact h.reads id' t (.inr ht') key v hv

/-- The commit time is later than everything the scheduler has seen. -/
theorem Sim.later (h : Sim r a) {timestamp : ℕ} (hts : r.lastTs < timestamp) :
    Serial.Later a ⟨timestamp, 0⟩ := by
  have hrec : ∀ c ∈ a.committed, ∃ rec ∈ r.committed, rec.committed = c.2 := fun c hc =>
    List.mem_map.1 (by rw [← h.committed]; exact List.mem_map.2 ⟨c, hc, rfl⟩)
  refine ⟨fun c hc => ?_, fun c hc key v hv => ?_, fun x e hx key v hv => ?_⟩
  · obtain ⟨rec, hmem, heq⟩ := hrec c hc
    rw [← heq]
    exact Timestamp.lt_of_timestamp_lt (lt_of_le_of_lt (h.past rec hmem).1 hts)
  · obtain ⟨rec, hmem, heq⟩ := hrec c hc
    rw [← heq] at hv
    have hpast := h.past rec hmem
    exact Timestamp.lt_of_timestamp_lt
      (lt_trans (hpast.2 key v hv) (lt_of_le_of_lt hpast.1 hts))
  · obtain ⟨t, hacc, hslot⟩ := h.entry hx
    rw [hacc] at hv
    exact Timestamp.lt_of_timestamp_lt (lt_of_le_of_lt
      (h.reads x.2 t (hslot.imp And.right And.right) key v hv) hts)

/-- The commit of the transaction in slot `(b, id)`. -/
theorem Sim.install (h : Sim r a) {b : Bool} {id : TxnId} {txn : Transaction} {timestamp : ℕ}
    {e : Serial.Entry Key Timestamp} {s : TxnStore} (hts : r.lastTs < timestamp)
    (he : a.active (b, id) = some e) (hacc : e.toAccess = txn.access)
    (hreads : ∀ key v, txn.readSet.lookup key = some v → v.timestamp ≤ r.lastTs)
    (hcons : s.Consistent) (hkv : s.kv = r.store.kv.install txn.writeSet id timestamp)
    (hprep : Slots (Function.update a.active (b, id) none) false s.prepared)
    (hpre : Slots (Function.update a.active (b, id) none) true s.precommitted)
    (hsub : ∀ id' t, s.prepared.lookup id' = some t ∨ s.precommitted.lookup id' = some t →
      r.store.prepared.lookup id' = some t ∨ r.store.precommitted.lookup id' = some t) :
    ∃ a', Sim { r with store := s, committed := r.committed ++ [⟨id, txn, timestamp⟩],
                       lastTs := timestamp } a' := by
  refine ⟨_, h.inv.commit he (h.later hts), hcons, hprep, hpre, ?_, fun key v hv => ?_,
    fun g hg => ?_, fun c hc key hkey => ?_, fun c hc => ?_, fun id' t ht key v hv => ?_⟩
  · rw [List.map_append, List.map_append, h.committed, hacc]
    rfl
  · rw [hkv] at hv
    rcases VersionedKVStore.get_install_cases hv with hold | hnew
    · exact le_of_lt (lt_of_le_of_lt (h.versions key v hold) hts)
    · exact le_of_eq (by rw [hnew])
  · obtain ⟨v, hv, hle⟩ := h.gets g hg
    obtain ⟨v', hv', hle'⟩ := VersionedKVStore.get_install_mono txn.writeSet id timestamp hv
    exact ⟨v', by rw [hkv]; exact hv', le_trans hle hle'⟩
  · rw [hkv]
    rcases List.mem_append.1 hc with hc | hc
    · obtain ⟨v, hv, hle⟩ := h.written c hc key hkey
      obtain ⟨v', hv', hle'⟩ := VersionedKVStore.get_install_mono txn.writeSet id timestamp hv
      exact ⟨v', hv', le_trans hle hle'⟩
    · rw [List.mem_singleton] at hc
      subst hc
      exact VersionedKVStore.get_install_written hkey
  · rcases List.mem_append.1 hc with hc | hc
    · obtain ⟨hle, hread⟩ := h.past c hc
      exact ⟨le_of_lt (lt_of_le_of_lt hle hts), hread⟩
    · rw [List.mem_singleton] at hc
      subst hc
      exact ⟨le_refl _, fun key v hv => lt_of_le_of_lt (hreads key v hv) hts⟩
  · exact le_of_lt (lt_of_le_of_lt (h.reads id' t (hsub id' t ht) key v hv) hts)

theorem Sim.commit (h : Sim r a) {id : TxnId} {timestamp : ℕ}
    (hts : r.Legal (.commit id timestamp)) : ∃ a', Sim (r.step (.commit id timestamp)) a' := by
  obtain ⟨hcons, hcases⟩ := TxnStore.commit_cases h.consistent id timestamp
  rcases hcases with ⟨txn, hpre, hkv, hp, hq⟩ | ⟨hnone, txn, hprep, hkv, hp, hq⟩ |
    ⟨hnone, hnone', heq⟩
  · obtain ⟨e, he, hacc⟩ := h.precommitted.slot hpre
    have hentry : r.store.entry id = some txn := by simp [TxnStore.entry, hpre]
    simp only [step, hentry]
    refine h.install hts he hacc (h.reads id txn (.inr hpre)) hcons hkv ?_ ?_ ?_
    · rw [hp]; exact h.prepared.other (by decide) id none
    · rw [hq]; exact h.precommitted.erase id
    · rw [hp, hq]
      exact fun id' t ht => ht.imp_right fun hp => (TxnStore.lookup_erase_some hp).2
  · obtain ⟨e, he, hacc⟩ := h.prepared.slot hprep
    have hentry : r.store.entry id = some txn := by simp [TxnStore.entry, hnone, hprep]
    simp only [step, hentry]
    refine h.install hts he hacc (h.reads id txn (.inl hprep)) hcons hkv ?_ ?_ ?_
    · rw [hp]; exact h.prepared.erase id
    · rw [hq]; exact h.precommitted.other (by decide) id none
    · rw [hp, hq]
      exact fun id' t ht => ht.imp_left fun hp => (TxnStore.lookup_erase_some hp).2
  · have hentry : r.store.entry id = none := by simp [TxnStore.entry, hnone, hnone']
    have hlt : r.lastTs ≤ timestamp := le_of_lt hts
    simp only [step, hentry, heq, Option.map_none, Option.toList_none, List.append_nil]
    exact ⟨a, h.inv, h.consistent, h.prepared, h.precommitted, h.committed,
      fun key v hv => le_trans (h.versions key v hv) hlt, h.gets, h.written,
      fun c hc => ⟨le_trans (h.past c hc).1 hlt, (h.past c hc).2⟩,
      fun id' t ht key v hv => le_trans (h.reads id' t ht key v hv) hlt⟩

/-- **One operation.** -/
theorem Sim.step (h : Sim r a) {op : StoreOp} (hlegal : r.Legal op)
    (hfree : r.NoEarlyRelease op) : ∃ a', Sim (r.step op) a' := by
  cases op with
  | get clock id key => exact ⟨a, h.get clock id key⟩
  | getDependency id key => exact ⟨a, h.getDependency id key⟩
  | prepare clock id txn => exact h.prepare hlegal hfree
  | preCommit id => exact h.preCommit id
  | commit id timestamp => exact h.commit hlegal
  | abort id => exact h.abort id

/-- **Whole runs.** -/
theorem Sim.reach (h : Sim r a) {r' : Schedule}
    (hr : Reach (fun r op => r.Legal op ∧ r.NoEarlyRelease op) r r') : ∃ a', Sim r' a' := by
  induction hr with
  | start => exact ⟨a, h⟩
  | step _ hc ih =>
      obtain ⟨a', h'⟩ := ih
      exact h'.step hc.1 hc.2

end Schedule

/-- A store of either kind with the given versions and no transaction. -/
def TxnStore.fresh (locking : Bool) (kv : VersionedKVStore) : TxnStore :=
  if locking then .lock { store := kv } else .occ { store := kv }

namespace Schedule

/-- The start of a run on a store of either kind: the versions `kv` are loaded, no
transaction is known, and commit times start after `lastTs`. -/
def begin (locking : Bool) (kv : VersionedKVStore) (lastTs : ℕ) : Schedule where
  store := TxnStore.fresh locking kv
  lastTs := lastTs

theorem sim_begin (locking : Bool) {kv : VersionedKVStore} {lastTs : ℕ}
    (hload : ∀ key v, kv.get key = some v → v.1.timestamp ≤ lastTs) :
    Sim (begin locking kv lastTs) ⟨fun _ => none, [], 0⟩ := by
  have hkv : (TxnStore.fresh locking kv).kv = kv := by cases locking <;> rfl
  have hprep : (TxnStore.fresh locking kv).prepared = ∅ := by cases locking <;> rfl
  have hpre : (TxnStore.fresh locking kv).precommitted = ∅ := by cases locking <;> rfl
  have hcons : (TxnStore.fresh locking kv).Consistent := by
    cases locking with
    | false => trivial
    | true =>
        refine ⟨fun key => ⟨by simp [LockServer.lock], by simp [LockServer.lock]⟩, fun id t ht => ?_⟩
        cases ht
  refine ⟨Sched.inv_empty, hcons, fun id => ?_, fun id => ?_, rfl, fun key v hv => ?_,
    by simp [begin], by simp [begin], by simp [begin], fun id t ht => ?_⟩
  · simp [begin, hprep]
  · simp [begin, hpre]
  · exact hload key v (by rw [← hkv]; exact hv)
  · simp [begin, hprep, hpre] at ht

/-- The committed transactions are conflict serializable. -/
def ConflictSerializable (r : Schedule) : Prop :=
  Serializable (r.committed.map CommitRecord.committed)

/-- No two committed transactions read the same version of a key and both wrote it. -/
def NoLostUpdate (r : Schedule) : Prop :=
  ∀ i j : Fin r.committed.length, i ≠ j → ∀ key v,
    (r.committed.get i).txn.readSet.lookup key = some v →
    (r.committed.get j).txn.readSet.lookup key = some v →
    key ∈ (r.committed.get i).txn.writeSet → key ∉ (r.committed.get j).txn.writeSet

theorem Sim.conflictSerializable (h : Sim r a) : r.ConflictSerializable := by
  unfold ConflictSerializable
  rw [← h.committed]
  exact h.inv.serializable

theorem Sim.noLostUpdate (h : Sim r a) : r.NoLostUpdate := by
  intro i j hij key v hi hj hwi hwj
  have hlen : r.committed.length = (r.committed.map CommitRecord.committed).length := by simp
  have hget : ∀ k : Fin r.committed.length,
      (r.committed.map CommitRecord.committed).get (k.cast hlen) =
        (r.committed.get k).committed := by
    intro k
    simp
  have hlt : ∀ k : Fin r.committed.length, (r.committed.get k).txn.readSet.lookup key = some v →
      v < ⟨(r.committed.get k).time, 0⟩ := fun k hk =>
    Timestamp.lt_of_timestamp_lt ((h.past _ (List.get_mem _ _)).2 key v hk)
  have hne : i.cast hlen ≠ j.cast hlen := fun heq => hij (Fin.ext (by simpa [Fin.ext_iff] using heq))
  refine h.conflictSerializable.no_lost_update hne (k := key) (v := v) ?_ ?_ ?_ ?_ ?_ ?_ <;>
    rw [hget]
  · exact hi
  · exact hj
  · exact hwi
  · exact hwj
  · exact hlt i hi
  · exact hlt j hj

/-- **Serializability without early release.** On a store of either kind with any versions
loaded, in every interleaving in which read sets record the versions reads returned, commit
times increase, and no transaction is prepared while a pre-committed one writes a key it
touches, the committed transactions are conflict serializable and no update is lost. -/
theorem store_conflict_serializable (locking : Bool) {kv : VersionedKVStore} {lastTs : ℕ}
    (hload : ∀ key v, kv.get key = some v → v.1.timestamp ≤ lastTs) {r : Schedule}
    (hr : Reach (fun r op => r.Legal op ∧ r.NoEarlyRelease op) (begin locking kv lastTs) r) :
    r.ConflictSerializable ∧ r.NoLostUpdate := by
  obtain ⟨a, h⟩ := (sim_begin locking hload).reach hr
  exact ⟨h.conflictSerializable, h.noLostUpdate⟩

/-! ### Early release loses an update -/

/-- One key, loaded at `Timestamp()`. -/
def loaded : VersionedKVStore := VersionedKVStore.put {} "k" "v" {}

/-- A transaction that read the loaded version of the key and writes it. -/
def increment (id : TxnId) (value : Value) : Transaction where
  id := id
  readSet := AList.singleton "k" {}
  writeSet := AList.singleton "k" value

/-- Both transactions read; the first is prepared and pre-committed; the second passes
validation in the window before the first is committed. -/
def earlyRelease : List StoreOp :=
  [.getDependency 1 "k", .getDependency 2 "k", .prepare stopped 1 (increment 1 "a"), .preCommit 1,
    .prepare stopped 2 (increment 2 "b"), .commit 1 1, .commit 2 2]

/-- The same, with the first transaction committed before the second is prepared. -/
def lateRelease : List StoreOp :=
  [.getDependency 1 "k", .getDependency 2 "k", .prepare stopped 1 (increment 1 "a"), .preCommit 1,
    .commit 1 1, .prepare stopped 2 (increment 2 "b"), .commit 2 2]

theorem loaded_bound : ∀ key v, loaded.get key = some v → v.1.timestamp ≤ 0 := by
  intro key v hv
  rw [loaded, VersionedKVStore.get_put] at hv
  split_ifs at hv
  · cases hv
    exact le_refl _
  · cases hv

theorem lateRelease_exec (locking : Bool) : ∃ r,
    exec (fun r op => r.Legal op ∧ r.NoEarlyRelease op) (begin locking loaded 0) lateRelease =
      some r ∧ r.committed.length = 1 := by
  cases locking <;> exact ⟨_, rfl, rfl⟩

theorem lateRelease_serializable :
    (∃ r, exec (fun r op => r.Legal op ∧ r.NoEarlyRelease op) (begin false loaded 0) lateRelease =
      some r ∧ r.committed.length = 1 ∧ r.ConflictSerializable ∧ r.NoLostUpdate) ∧
    (∃ r, exec (fun r op => r.Legal op ∧ r.NoEarlyRelease op) (begin true loaded 0) lateRelease =
      some r ∧ r.committed.length = 1 ∧ r.ConflictSerializable ∧ r.NoLostUpdate) := by
  obtain ⟨r, hr, hlen⟩ := lateRelease_exec false
  obtain ⟨r', hr', hlen'⟩ := lateRelease_exec true
  exact ⟨⟨r, hr, hlen, store_conflict_serializable false loaded_bound (Reach.start.exec hr)⟩,
    ⟨r', hr', hlen', store_conflict_serializable true loaded_bound (Reach.start.exec hr')⟩⟩

theorem earlyRelease_lost (locking : Bool) : ∃ r,
    Reach Legal (begin locking loaded 0) r ∧ ¬ r.ConflictSerializable ∧ ¬ r.NoLostUpdate := by
  obtain ⟨r, hr, hbad⟩ : ∃ r, exec Legal (begin locking loaded 0) earlyRelease = some r ∧
      r.committed = [⟨1, increment 1 "a", 1⟩, ⟨2, increment 2 "b", 2⟩] := by
    cases locking <;> exact ⟨_, rfl, rfl⟩
  have hread : ∀ value, "k" ∈ (AList.singleton "k" value : Table Key Value) := fun value =>
    AList.lookup_isSome.1 rfl
  refine ⟨r, Reach.start.exec hr, fun hser => ?_, fun hno => ?_⟩
  · unfold ConflictSerializable at hser
    rw [hbad] at hser
    exact hser.no_lost_update (i := ⟨0, by decide⟩) (j := ⟨1, by decide⟩) (by decide)
      (k := "k") (v := {}) rfl rfl (hread "a") (hread "b") (by decide) (by decide)
  · unfold NoLostUpdate at hno
    rw [hbad] at hno
    exact hno ⟨0, by decide⟩ ⟨1, by decide⟩ (by decide) "k" {} rfl rfl (hread "a") (hread "b")

/-- **The lost update.** On both stores a legal run with a pre-commit is not serializable:
two committed transactions read the same version of a key and wrote it. -/
theorem earlyRelease_not_serializable :
    (∃ r, Reach Legal (begin false loaded 0) r ∧ ¬ r.ConflictSerializable ∧ ¬ r.NoLostUpdate) ∧
    (∃ r, Reach Legal (begin true loaded 0) r ∧ ¬ r.ConflictSerializable ∧ ¬ r.NoLostUpdate) :=
  ⟨earlyRelease_lost false, earlyRelease_lost true⟩

end Schedule

end D2PC
