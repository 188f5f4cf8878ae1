import D2PC.Protocol.Messages

/-!
# The replicated log of a shard

`Log` of `replication/lr/log.cc`. The leader numbers the entries it adds; a follower stores
an entry under the number the leader gave it.

* `Log.lookup_add`, `Log.lookup_addProto` : the entries after an addition;
* `LogEntry.Same` : what no later update of an entry changes;
* `Log.same_setStatus`, `Log.same_setTs` : updates keep it.
-/

namespace D2PC

/-- `LogEntry`. -/
structure LogEntry where
  term : ℕ := 0
  id : ℕ := 0
  txn : TxnId := 0
  ts : ℕ := 0
  state : LogEntryState := .commit
  wset : Table Key Value := ∅
  deriving DecidableEq

/-- `Log`: the entries by number, and the next number a leader gives. -/
structure Log where
  entries : Table ℕ LogEntry := ∅
  last : ℕ := 0

namespace Log

/-- `Add` of a leader: the entry gets the next number. -/
def add (l : Log) (term : ℕ) (txn : TxnId) (wset : Table Key Value) (state : LogEntryState)
    (ts : ℕ) : LogEntry × Log :=
  let entry : LogEntry := ⟨term, l.last, txn, ts, state, wset⟩
  (entry, { entries := l.entries.insert l.last entry, last := l.last + 1 })

/-- The entry a protocol buffer encodes. -/
def ofProto (p : LogEntryProto) : LogEntry where
  term := p.term
  id := p.lsn
  txn := p.txnId
  ts := p.timestamp
  state := p.state
  wset := Table.ofList p.wset

/-- `Add` of a follower: the entry keeps its number. -/
def addProto (l : Log) (p : LogEntryProto) : Log :=
  { l with entries := l.entries.insert p.lsn (ofProto p) }

/-- `Find`. -/
def find (l : Log) (id : ℕ) : Option LogEntry := l.entries.lookup id

/-- Update the entry with this number, if there is one. -/
def modify (l : Log) (id : ℕ) (f : LogEntry → LogEntry) : Log :=
  match l.find id with
  | none => l
  | some e => { l with entries := l.entries.insert id (f e) }

/-- `SetStatus`. -/
def setStatus (l : Log) (id : ℕ) (state : LogEntryState) : Log :=
  l.modify id fun e => { e with state := state }

/-- The assignment `entry->ts = ts`. -/
def setTs (l : Log) (id ts : ℕ) : Log := l.modify id fun e => { e with ts := ts }

/-- `EntryToProto` by number; `operator[]` yields an empty entry for a number not in the log. -/
def entryToProto (l : Log) (id : ℕ) : LogEntryProto :=
  let e := (l.find id).getD {}
  ⟨e.wset.toList, e.state, e.ts, e.term, e.id, e.txn⟩

end Log

/-! ### What an entry keeps -/

/-- Two states of one entry: updates change the state and the timestamp only. -/
structure LogEntry.Same (e e' : LogEntry) : Prop where
  term : e'.term = e.term
  id : e'.id = e.id
  txn : e'.txn = e.txn
  wset : e'.wset = e.wset

theorem LogEntry.Same.refl (e : LogEntry) : e.Same e := ⟨rfl, rfl, rfl, rfl⟩

theorem LogEntry.Same.trans {e e' e'' : LogEntry} (h : e.Same e') (h' : e'.Same e'') :
    e.Same e'' :=
  ⟨h'.term.trans h.term, h'.id.trans h.id, h'.txn.trans h.txn, h'.wset.trans h.wset⟩

namespace Log

/-- Every entry of `l` is still in `l'`, up to its state and timestamp, and `l'` has no
other ones. -/
structure Same (l l' : Log) : Prop where
  last : l'.last = l.last
  find : ∀ id, (l.find id = none ∧ l'.find id = none) ∨
    ∃ e e', l.find id = some e ∧ l'.find id = some e' ∧ e.Same e'

theorem Same.refl (l : Log) : Same l l := by
  refine ⟨rfl, fun id => ?_⟩
  cases h : l.find id with
  | none => exact .inl ⟨rfl, rfl⟩
  | some e => exact .inr ⟨e, e, rfl, rfl, .refl e⟩

theorem Same.trans {l l' l'' : Log} (h : Same l l') (h' : Same l' l'') : Same l l'' := by
  refine ⟨h'.last.trans h.last, fun id => ?_⟩
  rcases h.find id with ⟨h₁, h₂⟩ | ⟨e, e', h₁, h₂, hs⟩
  · rcases h'.find id with ⟨_, h₃⟩ | ⟨_, _, h₃, _, _⟩
    · exact .inl ⟨h₁, h₃⟩
    · rw [h₂] at h₃; cases h₃
  · rcases h'.find id with ⟨h₃, _⟩ | ⟨f, f', h₃, h₄, hs'⟩
    · rw [h₂] at h₃; cases h₃
    · rw [h₂] at h₃
      cases h₃
      exact .inr ⟨e, f', h₁, h₄, hs.trans hs'⟩

theorem find_modify (l : Log) (id id' : ℕ) (f : LogEntry → LogEntry) :
    (l.modify id f).find id' = if id' = id then (l.find id).map f else l.find id' := by
  unfold modify
  cases h : l.find id with
  | none =>
      split_ifs with hid
      · rw [hid, h]; rfl
      · rfl
  | some e =>
      simp only [find, Table.lookup_insert_eq, Option.map_some]

theorem same_modify (l : Log) (id : ℕ) {f : LogEntry → LogEntry} (hf : ∀ e : LogEntry, e.Same (f e)) :
    Same l (l.modify id f) := by
  refine ⟨?_, fun id' => ?_⟩
  · unfold modify
    split <;> rfl
  · rw [find_modify]
    split_ifs with hid
    · rw [hid]
      cases h : l.find id with
      | none => exact .inl ⟨rfl, rfl⟩
      | some e => exact .inr ⟨e, f e, rfl, rfl, hf e⟩
    · exact (Same.refl l).find id'

theorem same_setStatus (l : Log) (id : ℕ) (state : LogEntryState) :
    Same l (l.setStatus id state) :=
  same_modify l id fun _ => ⟨rfl, rfl, rfl, rfl⟩

theorem same_setTs (l : Log) (id ts : ℕ) : Same l (l.setTs id ts) :=
  same_modify l id fun _ => ⟨rfl, rfl, rfl, rfl⟩

theorem find_add (l : Log) (term : ℕ) (txn : TxnId) (wset : Table Key Value)
    (state : LogEntryState) (ts id : ℕ) :
    (l.add term txn wset state ts).2.find id =
      if id = l.last then some ⟨term, l.last, txn, ts, state, wset⟩ else l.find id := by
  simp only [add, find, Table.lookup_insert_eq]

theorem find_addProto (l : Log) (p : LogEntryProto) (id : ℕ) :
    (l.addProto p).find id = if id = p.lsn then some (ofProto p) else l.find id := by
  simp only [addProto, find, Table.lookup_insert_eq]

/-- What is sent for an entry is read back as that entry. -/
theorem ofProto_entryToProto {l : Log} {id : ℕ} {e : LogEntry} (h : l.find id = some e) :
    ofProto (l.entryToProto id) = e := by
  simp only [ofProto, entryToProto, h, Option.getD_some, Table.ofList_toList]

end Log

end D2PC
