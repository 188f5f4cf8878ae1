import D2PC.Protocol.Log

/-!
# Encoding and decoding a log

The rest of `replication/lr/log.cc`: the two constructors, the three `Add`s and `ToProto`. The
constructor that decodes a `ReplicaLogProto` does not set `last`, the number the next entry of a
leader gets, so that member is whatever the memory held.

* `Log.Built` : a log that was filled by calls of `Add`;
* `Log.Built.own` : every entry is kept under its own number;
* `Log.find_ofLogProto` : a decoded log has the entries of the encoded one;
* `Log.codec_iff` : the decoded log numbers its next entry anew only by chance.
-/

namespace D2PC

namespace Log

/-! ### Building a log -/

/-- `Log(start)`. -/
def ofStart (start : ℕ) : Log where
  last := start

/-- `Add` of an entry. -/
def addEntry (l : Log) (e : LogEntry) : Log := { l with entries := l.entries.insert e.id e }

/-- A call of `Add`: by the leader, of an entry, or of an encoded entry. -/
inductive Addition where
  | leader (term : ℕ) (txn : TxnId) (wset : Table Key Value) (state : LogEntryState) (ts : ℕ)
  | entry (e : LogEntry)
  | proto (p : LogEntryProto)

/-- The call. -/
def apply (l : Log) : Addition → Log
  | .leader term txn wset state ts => (l.add term txn wset state ts).2
  | .entry e => l.addEntry e
  | .proto p => l.addProto p

/-- The log that a sequence of calls builds. -/
def built (start : ℕ) (calls : List Addition) : Log := calls.foldl apply (ofStart start)

/-! ### The codec -/

/-- The fields of an entry, in the order they are set. -/
def protoOfEntry (e : LogEntry) : LogEntryProto :=
  ⟨e.wset.toList, e.state, e.ts, e.term, e.id, e.txn⟩

/-- `ToProto`: the entries in the order of the numbers they are kept under. -/
def toProto (l : Log) : List LogEntryProto :=
  (l.entries.toList.mergeSort fun p q => p.1 ≤ q.1).map fun p => protoOfEntry p.2

/-- `Log(log_proto, start)`. Nothing sets `last`: it is what the memory held, `garbage`. -/
def ofLogProto (garbage : ℕ) (log : List LogEntryProto) (_start : ℕ) : Log :=
  log.foldl (fun l p => l.addEntry (ofProto p)) { last := garbage }

/-! ### Entries and their numbers -/

/-- Every entry is kept under its own number. -/
def OwnNumbers (l : Log) : Prop := ∀ id e, l.find id = some e → e.id = id

theorem find_addEntry (l : Log) (e : LogEntry) (id : ℕ) :
    (l.addEntry e).find id = if id = e.id then some e else l.find id := by
  simp only [addEntry, find, Table.lookup_insert_eq]

theorem OwnNumbers.addEntry {l : Log} (h : l.OwnNumbers) (e : LogEntry) :
    (l.addEntry e).OwnNumbers := by
  intro id e' he'
  rw [find_addEntry] at he'
  split_ifs at he' with hid
  · cases he'
    exact hid.symm
  · exact h id e' he'

theorem OwnNumbers.apply {l : Log} (h : l.OwnNumbers) (call : Addition) :
    (l.apply call).OwnNumbers := by
  cases call with
  | leader term txn wset state ts => exact h.addEntry ⟨term, l.last, txn, ts, state, wset⟩
  | entry e => exact h.addEntry e
  | proto p => exact h.addEntry (ofProto p)

theorem built_own (start : ℕ) (calls : List Addition) : (built start calls).OwnNumbers := by
  have hrun : ∀ l : Log, l.OwnNumbers → (calls.foldl Log.apply l).OwnNumbers := by
    induction calls with
    | nil => exact fun _ h => h
    | cons call calls ih => exact fun l h => ih (l.apply call) (h.apply call)
  refine hrun (ofStart start) fun id e he => ?_
  cases he

/-! ### The round trip -/

theorem ofProto_protoOfEntry (e : LogEntry) : ofProto (protoOfEntry e) = e := by
  simp only [ofProto, protoOfEntry, Table.ofList_toList]

/-- A decoded log has the entries of the list, each under its own number. -/
theorem ofLogProto_eq (garbage : ℕ) (log : List LogEntryProto) (start : ℕ) :
    ofLogProto garbage log start =
      { entries := Table.ofList (log.map fun p => (p.lsn, ofProto p)), last := garbage } := by
  have hrun : ∀ l : Log, log.foldl (fun l p => l.addEntry (ofProto p)) l =
      ⟨(log.map fun p => (p.lsn, ofProto p)).foldl
        (fun (t : Table ℕ LogEntry) p => t.insert p.1 p.2) l.entries, l.last⟩ := by
    induction log with
    | nil => exact fun _ => rfl
    | cons p log ih => exact fun l => ih (l.addEntry (ofProto p))
  exact hrun { last := garbage }

/-- **The entries survive the codec.** -/
theorem find_ofLogProto {l : Log} (h : l.OwnNumbers) (garbage start id : ℕ) :
    (ofLogProto garbage l.toProto start).find id = l.find id := by
  have hentries : l.toProto.map (fun p => (p.lsn, ofProto p)) =
      l.entries.toList.mergeSort fun p q => p.1 ≤ q.1 := by
    rw [toProto, List.map_map]
    refine (List.map_congr_left fun p hp => ?_).trans (List.map_id _)
    have hfind := Table.mem_toList.1 ((List.mergeSort_perm _ _).mem_iff.1 hp)
    show ((protoOfEntry p.2).lsn, ofProto (protoOfEntry p.2)) = p
    rw [ofProto_protoOfEntry]
    exact Prod.ext (h p.1 p.2 hfind) rfl
  have hperm : (l.entries.toList.mergeSort fun p q => p.1 ≤ q.1).Perm l.entries.toList :=
    List.mergeSort_perm _ _
  have hnodup := (hperm.map Prod.fst).nodup_iff.2 (Table.toList_nodup l.entries)
  rw [ofLogProto_eq, hentries]
  show (Table.ofList _).lookup id = l.entries.lookup id
  refine Option.ext fun e => ?_
  constructor
  · intro he
    exact Table.mem_toList.1 (hperm.mem_iff.1 (Table.mem_of_lookup_ofList he))
  · intro he
    exact Table.lookup_ofList hnodup (hperm.mem_iff.2 (Table.mem_toList.2 he))

/-- What a codec has to do: the decoded log has the same entries, an entry that is sent alone is
the same when it is added, and the next entry of a leader gets a new number. -/
structure Codec (l : Log) (garbage start : ℕ) : Prop where
  entries : ∀ id, (ofLogProto garbage l.toProto start).find id = l.find id
  entry : ∀ (l' : Log) (id : ℕ) (e : LogEntry), l.find id = some e →
    (l'.addProto (l.entryToProto id)).find id = some e
  fresh : ∀ term txn wset state ts, (ofLogProto garbage l.toProto start).find
    ((ofLogProto garbage l.toProto start).add term txn wset state ts).1.id = none

/-- An entry that is sent alone is found by its number. -/
theorem OwnNumbers.find_entryToProto {l : Log} (h : l.OwnNumbers) {id : ℕ} {e : LogEntry}
    (he : l.find id = some e) (l' : Log) : (l'.addProto (l.entryToProto id)).find id = some e := by
  have hlsn : (l.entryToProto id).lsn = id := by
    simp only [entryToProto, he, Option.getD_some]
    exact h id e he
  rw [find_addProto, hlsn, if_pos rfl, ofProto_entryToProto he]

/-- **The log codec.** Everything but the counter is restored: the codec does its work exactly if
the memory of the decoded log happened to hold a number of no entry. -/
theorem codec_iff (start start' : ℕ) (calls : List Addition) (garbage : ℕ) :
    Codec (built start calls) garbage start' ↔ (built start calls).find garbage = none := by
  have hown := built_own start calls
  -- the next number is what the memory held
  have hlast : ∀ term txn wset state ts,
      ((ofLogProto garbage (built start calls).toProto start').add term txn wset state ts).1.id =
        garbage := by
    intro term txn wset state ts
    rw [ofLogProto_eq]
    rfl
  constructor
  · intro h
    have hfresh := h.fresh 0 0 ∅ .commit 0
    rw [hlast, h.entries] at hfresh
    exact hfresh
  · intro hnone
    refine ⟨find_ofLogProto hown garbage start', fun l' id e he => hown.find_entryToProto he l',
      fun term txn wset state ts => ?_⟩
    rw [hlast, find_ofLogProto hown]
    exact hnone

/-- The one entry of a log that begins at 1 is overwritten where the memory held a 1. -/
theorem codec_overwrites : ¬ Codec (built 1 [.leader 0 7 ∅ .prepareOk 5]) 1 1 := by
  intro h
  have hfresh := h.fresh 0 8 ∅ .prepareOk 6
  revert hfresh
  decide +kernel

end Log

end D2PC
