import D2PC.System

/-!
# Facts recorded in a history

What the invariants say about the past of a run: which transactions were started and with
which write sets, and which events their participants recorded. All of these only ever
become true.

* `startOf` : what a client recorded when it started to commit;
* `Validated`, `LoggedAt`, `Quorum`, `Consensus` : how far a shard got;
* `Decided`, `Announced` : the two ways a transaction is decided;
* the lemmas named `mono` : a longer history keeps each of them.
-/

namespace D2PC

/-- What a client recorded when it started to commit. -/
structure Start where
  participants : List Shard
  primary : ℕ
  pieces : Table Shard Transaction

/-- The transaction buffered for a shard. -/
def Start.piece (st : Start) (tid : TxnId) (s : Shard) : Transaction :=
  (st.pieces.lookup s).getD { id := tid }

/-- The start of `tid`, if the event is that. -/
def startEvent (tid : TxnId) : Node × Event → Option Start
  | (.client t, .started participants primary pieces) =>
      if t = tid then some ⟨participants, primary, pieces⟩ else none
  | _ => none

/-- The start of `tid` in a history. -/
def startOf (h : History) (tid : TxnId) : Option Start := h.findSome? (startEvent tid)

theorem startOf_append (h es : History) (tid : TxnId) :
    startOf (h ++ es) tid = (startOf h tid).or (startOf es tid) := by
  simp only [startOf, List.findSome?_append]

theorem startOf_mono {h es : History} {tid : TxnId} {st : Start} (hst : startOf h tid = some st) :
    startOf (h ++ es) tid = some st := by
  rw [startOf_append, hst]
  rfl

/-- Only a client starts its transaction. -/
theorem startOf_frame {h : History} {tid : TxnId} {n : Node} (hn : Node.client tid ≠ n)
    (es : List Event) : startOf (h ++ es.map (n, ·)) tid = startOf h tid := by
  have hnone : startOf (es.map (n, ·)) tid = none := by
    simp only [startOf, List.findSome?_eq_none_iff, List.mem_map, forall_exists_index, and_imp,
      forall_apply_eq_imp_iff₂]
    intro e _
    cases n with
    | client t =>
        cases e with
        | started ps p pieces =>
            have ht : t ≠ tid := fun ht => hn (by rw [ht])
            simp only [startEvent, if_neg ht]
        | _ => rfl
    | replica s i => rfl
    | coordinator i => rfl
  rw [startOf_append, hnone, Option.or_none]

/-- The events of other processes are not those of `n`. -/
theorem mem_frame {h : History} {n n' : Node} (hn : n ≠ n') {es : List Event} {e : Event} :
    (n, e) ∈ h ++ es.map (n', ·) ↔ (n, e) ∈ h := by
  simp only [List.mem_append, List.mem_map, Prod.mk.injEq]
  constructor
  · rintro (h₁ | ⟨_, _, h₂, _⟩)
    · exact h₁
    · exact absurd h₂.symm hn
  · exact Or.inl

/-- The leader of a shard. -/
def Config.leaderNode (cfg : Config) (s : Shard) : Node := .replica s (cfg.leader s)

/-! ### How far a transaction got -/

/-- `s` takes part in `tid`. -/
def Member (h : History) (tid : TxnId) (s : Shard) : Prop :=
  ∃ st, startOf h tid = some st ∧ s ∈ st.participants

/-- The write set the client buffered for the participant `s`. -/
def Piece (h : History) (tid : TxnId) (s : Shard) (wset : Table Key Value) : Prop :=
  ∃ st, startOf h tid = some st ∧ s ∈ st.participants ∧ wset = (st.piece tid s).writeSet

/-- The participants, possibly repeated, and the primary shard of `tid`. -/
def Shape (h : History) (tid : TxnId) (participants : List Shard) (primary : ℕ) : Prop :=
  ∃ st, startOf h tid = some st ∧ primary = st.primary ∧
    ∀ q, q ∈ participants ↔ q ∈ st.participants

/-- Coordinator `c` is that of the primary shard of `tid`. -/
def Home (cfg : Config) (h : History) (tid : TxnId) (c : ℕ) : Prop :=
  ∃ st, startOf h tid = some st ∧ c = st.primary % cfg.n

/-- The leader of `s` validated `tid`. -/
def Validated (cfg : Config) (h : History) (s : Shard) (tid : TxnId) : Prop :=
  ∃ wset, (cfg.leaderNode s, Event.validated tid wset) ∈ h

/-- Replica `i` of `s` logged `tid`. -/
def LoggedAt (h : History) (s : Shard) (i : ℕ) (tid : TxnId) : Prop :=
  ∃ lsn e, (Node.replica s i, Event.logged lsn e) ∈ h ∧ e.txn = tid

/-- At least `k` replicas of `s` logged `tid`. -/
def Quorum (h : History) (s : Shard) (tid : TxnId) (k : ℕ) : Prop :=
  ∃ Q : Finset ℕ, k ≤ Q.card ∧ ∀ i ∈ Q, LoggedAt h s i tid

/-- The leader of `s` reached consensus on `tid`. -/
def Consensus (cfg : Config) (h : History) (s : Shard) (tid : TxnId) : Prop :=
  (cfg.leaderNode s, Event.consensus tid) ∈ h

/-- The client of `tid` decided. -/
def Decided (h : History) (tid : TxnId) (commit : Bool) : Prop :=
  (Node.client tid, Event.decided commit) ∈ h

/-- A coordinator announced `tid`. -/
def Announced (h : History) (tid : TxnId) : Prop :=
  ∃ c, (Node.coordinator c, Event.announced tid) ∈ h

instance (h : History) (tid : TxnId) (b : Bool) : Decidable (Decided h tid b) :=
  inferInstanceAs (Decidable (_ ∈ h))

/-- The event is an announcement of `tid`. -/
def announcement (tid : TxnId) : Node × Event → Bool
  | (.coordinator _, .announced t) => decide (t = tid)
  | _ => false

theorem announced_iff {h : History} {tid : TxnId} :
    h.any (announcement tid) = true ↔ Announced h tid := by
  rw [List.any_eq_true, Announced]
  constructor
  · rintro ⟨⟨n, e⟩, hmem, hann⟩
    unfold announcement at hann
    split at hann
    · rename_i c t heq
      obtain ⟨rfl, rfl⟩ := Prod.mk.inj heq
      rw [of_decide_eq_true hann] at hmem
      exact ⟨c, hmem⟩
    · cases hann
  · rintro ⟨c, hmem⟩
    exact ⟨_, hmem, decide_eq_true rfl⟩

instance (h : History) (tid : TxnId) : Decidable (Announced h tid) :=
  decidable_of_iff _ announced_iff

/-- The leader of `s` accepted `tid`: validated and logged. -/
def Accepted (cfg : Config) (h : History) (s : Shard) (tid : TxnId) : Prop :=
  Validated cfg h s tid ∧ LoggedAt h s (cfg.leader s) tid

/-- Everything an announcement of `tid` promises: every participant leader accepted it and
a majority of the replicas of every participant logged it. -/
def Announceable (cfg : Config) (h : History) (tid : TxnId) : Prop :=
  ∃ st, startOf h tid = some st ∧
    ∀ s ∈ st.participants, Accepted cfg h s tid ∧ Quorum h s tid (cfg.n / 2 + 1)

/-- An entry of a log of shard `s`: the leader logged it under the same number, validated
it, and its write set is what the client buffered. -/
structure Entry (cfg : Config) (h : History) (s : Shard) (e : LogEntry) : Prop where
  logged : ∃ e₁, (cfg.leaderNode s, Event.logged e.id e₁) ∈ h ∧ e₁.Same e
  validated : (cfg.leaderNode s, Event.validated e.txn e.wset) ∈ h
  piece : Piece h e.txn s e.wset

/-! ### Longer histories -/

/-- A fact about the history that stays true. -/
def Stable (K : History → Prop) : Prop := ∀ h es, K h → K (h ++ es)

section Mono

variable {cfg : Config} {h es : History} {tid : TxnId} {s : Shard}

theorem mem_mono {x : Node × Event} (hx : x ∈ h) : x ∈ h ++ es := List.mem_append_left es hx

theorem Member.mono (hm : Member h tid s) : Member (h ++ es) tid s := by
  obtain ⟨st, hst, hs⟩ := hm
  exact ⟨st, startOf_mono hst, hs⟩

theorem Piece.mono {wset : Table Key Value} (hp : Piece h tid s wset) :
    Piece (h ++ es) tid s wset := by
  obtain ⟨st, hst, hs⟩ := hp
  exact ⟨st, startOf_mono hst, hs⟩

theorem Shape.mono {participants : List Shard} {primary : ℕ}
    (hp : Shape h tid participants primary) : Shape (h ++ es) tid participants primary := by
  obtain ⟨st, hst, hs⟩ := hp
  exact ⟨st, startOf_mono hst, hs⟩

theorem Home.mono {c : ℕ} (hc : Home cfg h tid c) : Home cfg (h ++ es) tid c := by
  obtain ⟨st, hst, hs⟩ := hc
  exact ⟨st, startOf_mono hst, hs⟩

theorem Validated.mono (hv : Validated cfg h s tid) : Validated cfg (h ++ es) s tid := by
  obtain ⟨wset, hw⟩ := hv
  exact ⟨wset, mem_mono hw⟩

theorem LoggedAt.mono {i : ℕ} (hl : LoggedAt h s i tid) : LoggedAt (h ++ es) s i tid := by
  obtain ⟨lsn, e, he, ht⟩ := hl
  exact ⟨lsn, e, mem_mono he, ht⟩

theorem Quorum.mono {k : ℕ} (hq : Quorum h s tid k) : Quorum (h ++ es) s tid k := by
  obtain ⟨Q, hk, hQ⟩ := hq
  exact ⟨Q, hk, fun i hi => (hQ i hi).mono⟩

theorem Consensus.mono (hc : Consensus cfg h s tid) : Consensus cfg (h ++ es) s tid :=
  mem_mono hc

theorem Decided.mono {b : Bool} (hd : Decided h tid b) : Decided (h ++ es) tid b := mem_mono hd

theorem Announced.mono (ha : Announced h tid) : Announced (h ++ es) tid := by
  obtain ⟨c, hc⟩ := ha
  exact ⟨c, mem_mono hc⟩

theorem Accepted.mono (ha : Accepted cfg h s tid) : Accepted cfg (h ++ es) s tid :=
  ⟨ha.1.mono, ha.2.mono⟩

theorem Announceable.mono (ha : Announceable cfg h tid) : Announceable cfg (h ++ es) tid := by
  obtain ⟨st, hst, hall⟩ := ha
  exact ⟨st, startOf_mono hst, fun s hs => ⟨(hall s hs).1.mono, (hall s hs).2.mono⟩⟩

theorem Entry.mono {e : LogEntry} (he : Entry cfg h s e) : Entry cfg (h ++ es) s e := by
  obtain ⟨e₁, he₁, hsame⟩ := he.logged
  exact ⟨⟨e₁, mem_mono he₁, hsame⟩, mem_mono he.validated, he.piece.mono⟩

end Mono

theorem Piece.member {h : History} {tid : TxnId} {s : Shard} {wset : Table Key Value}
    (hp : Piece h tid s wset) : Member h tid s := by
  obtain ⟨st, hst, hs, _⟩ := hp
  exact ⟨st, hst, hs⟩

/-- A shard whose client buffered only one write set. -/
theorem Piece.unique {h : History} {tid : TxnId} {s : Shard} {wset wset' : Table Key Value}
    (hp : Piece h tid s wset) (hp' : Piece h tid s wset') : wset = wset' := by
  obtain ⟨st, hst, _, rfl⟩ := hp
  obtain ⟨st', hst', _, rfl⟩ := hp'
  rw [hst] at hst'
  cases hst'
  rfl

end D2PC
