import Mathlib.Order.Defs.LinearOrder
import Mathlib.Tactic.Common
import D2PC.Lib.Table

/-!
# Data shared by the clients, the participants and the coordinators

Identifiers, the enumerations of the wire formats with their numbers, timestamps and
transactions, as in `store/common` and the protocol buffer definitions. The numbers matter:
the code passes a `LogEntryState` where a reply code is expected and compares it with a
`CommitResult`.
-/

namespace D2PC

abbrev Key := String
abbrev Value := String
abbrev TxnId := ℕ
abbrev Shard := ℕ

/-- `TpcMode` of `store/common/transaction.h`. -/
inductive TpcMode where
  | fast | slow | parallel | rc | carousel
  deriving DecidableEq, Repr

/-- `CommitMode` of a `PrepareTransaction`. -/
inductive CommitMode where
  | slow | fast | parallel | carousel | rc
  deriving DecidableEq, Repr

/-- `LogEntryState` of `lr-proto.proto`. -/
inductive LogEntryState where
  | commit | abort | apply | prepareOk | undecide
  deriving DecidableEq, Repr

/-- The number of a `LogEntryState` on the wire. -/
def LogEntryState.code : LogEntryState → ℕ
  | .commit => 0 | .abort => 1 | .apply => 2 | .prepareOk => 3 | .undecide => 4

/-- `CommitResult` of `commit-proto.proto`. -/
inductive CommitResult where
  | commit | abort | precommit | prepared
  deriving DecidableEq, Repr

/-- The number of a `CommitResult` on the wire. -/
def CommitResult.code : CommitResult → ℕ
  | .commit => 0 | .abort => 1 | .precommit => 2 | .prepared => 3

/-- `ReplyState` of a `GetDataReply`. -/
inductive ReplyState where
  | ok | fail | timeout | networkFailure
  deriving DecidableEq, Repr

/-- The number of a `ReplyState` on the wire. -/
def ReplyState.code : ReplyState → ℕ
  | .ok => 0 | .fail => 1 | .timeout => 2 | .networkFailure => 3

/-! The `REPLY_` constants of `store/common/transaction.h`. -/

def replyOk : ℕ := 0
def replyFail : ℕ := 1
def replyRetry : ℕ := 2
def replyTimeout : ℕ := 4
def replyAbort : ℕ := 7
def replyHasPrecommit : ℕ := 8

/-! ### Timestamps -/

/-- `Timestamp` of `store/common/timestamp.h`, compared by time and then by replica. -/
@[ext] structure Timestamp where
  timestamp : ℕ := 0
  id : ℕ := 0
  deriving DecidableEq, Repr

namespace Timestamp

instance : LT Timestamp where
  lt a b := if a.timestamp = b.timestamp then a.id < b.id else a.timestamp < b.timestamp

instance : LE Timestamp where
  le a b := if a.timestamp = b.timestamp then a.id ≤ b.id else a.timestamp ≤ b.timestamp

theorem lt_def (a b : Timestamp) :
    a < b ↔ if a.timestamp = b.timestamp then a.id < b.id else a.timestamp < b.timestamp :=
  Iff.rfl

theorem le_def (a b : Timestamp) :
    a ≤ b ↔ if a.timestamp = b.timestamp then a.id ≤ b.id else a.timestamp ≤ b.timestamp :=
  Iff.rfl

instance (a b : Timestamp) : Decidable (a < b) :=
  inferInstanceAs (Decidable (if a.timestamp = b.timestamp then a.id < b.id
    else a.timestamp < b.timestamp))

instance (a b : Timestamp) : Decidable (a ≤ b) :=
  inferInstanceAs (Decidable (if a.timestamp = b.timestamp then a.id ≤ b.id
    else a.timestamp ≤ b.timestamp))

/-- The comparison operators of the class form a linear order. -/
instance : LinearOrder Timestamp where
  le_refl a := by simp [le_def]
  le_trans a b c := by
    simp only [le_def]
    split_ifs <;> omega
  lt_iff_le_not_ge a b := by
    simp only [lt_def, le_def]
    split_ifs <;> omega
  le_antisymm a b := by
    simp only [le_def, Timestamp.ext_iff]
    split_ifs <;> omega
  le_total a b := by
    simp only [le_def]
    split_ifs <;> omega
  toDecidableLE := fun a b => inferInstanceAs (Decidable (a ≤ b))

theorem timestamp_le {a b : Timestamp} (h : a ≤ b) : a.timestamp ≤ b.timestamp := by
  rw [le_def] at h
  split_ifs at h <;> omega

theorem lt_of_timestamp_lt {a b : Timestamp} (h : a.timestamp < b.timestamp) : a < b := by
  rw [lt_def]
  split_ifs <;> omega

end Timestamp

/-! ### Transactions -/

/-- `Transaction` of `store/common/transaction.h`: the read and write set, the shards that
take part, and the dependency counters of the parallel mode (`inCount` transactions it read
uncommitted data from, `out` the transactions that read its data). -/
structure Transaction where
  id : TxnId := 0
  commitTs : Timestamp := {}
  primaryShard : Shard := 0
  readSet : Table Key Timestamp := ∅
  writeSet : Table Key Value := ∅
  participants : List Shard := []
  inCount : ℕ := 0
  out : List TxnId := []
  deriving DecidableEq

namespace Transaction

def increaseIn (t : Transaction) : Transaction := { t with inCount := t.inCount + 1 }

/-- The counter stops at zero. -/
def decreaseIn (t : Transaction) : Transaction := { t with inCount := t.inCount - 1 }

def addOut (t : Transaction) (tid : TxnId) : Transaction := { t with out := t.out ++ [tid] }

def addReadSet (t : Transaction) (key : Key) (readTime : Timestamp) : Transaction :=
  { t with readSet := t.readSet.insert key readTime }

def addWriteSet (t : Transaction) (key : Key) (value : Value) : Transaction :=
  { t with writeSet := t.writeSet.insert key value }

def addParticipant (t : Transaction) (p : Shard) : Transaction :=
  { t with participants := t.participants ++ [p] }

end Transaction

/-- `TransactionMessage`, in which a transaction reaches the store. -/
structure TransactionMessage where
  readSet : List (Key × Timestamp)
  writeSet : List (Key × Value)

/-- `Transaction::serialize`: only the read and write set are sent. -/
def Transaction.serialize (t : Transaction) : TransactionMessage where
  readSet := t.readSet.toList
  writeSet := t.writeSet.toList

/-- The constructor from a `TransactionMessage`. -/
def Transaction.ofMessage (m : TransactionMessage) : Transaction where
  readSet := Table.ofList m.readSet
  writeSet := Table.ofList m.writeSet

@[simp] theorem Transaction.ofMessage_serialize (t : Transaction) :
    ofMessage t.serialize = { readSet := t.readSet, writeSet := t.writeSet } := by
  simp only [ofMessage, serialize, Table.ofList_toList]

end D2PC
