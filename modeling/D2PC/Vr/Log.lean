import Mathlib.Data.List.TakeDrop
import Mathlib.Order.MinMax

/-!
# The log of a replica

`Log` of `replication/common/log.cc` and `log-impl.h`, as `VRReplica` uses it: without hashes,
and without the state of an entry, which nothing reads. An entry is found by its position, which
is the one of its operation number as long as the log is contiguous.

* `Log.Numbered` : the log is contiguous;
* `Log.dump_eq` : a dump is the rest of the log;
* `Log.install_eq` : a contiguous piece is installed in place of what was there;
* `Log.Spans.install` : the log stays contiguous;
* `Log.Contiguous.finds` : which numbers are found;
* `Log.removeAfter_install` : a piece is installed into a log that was cut off behind it.
-/

namespace D2PC.Vr

/-- `Request`. -/
structure Request (Op : Type) where
  op : Op
  clientid : ℕ
  clientreqid : ℕ
  deriving DecidableEq

/-- `LogEntry`, with its viewstamp. -/
structure LogEntry (Op : Type) where
  view : ℕ
  opnum : ℕ
  request : Request Op
  deriving DecidableEq

/-- `Log`. -/
structure Log (Op : Type) where
  start : ℕ := 1
  entries : List (LogEntry Op) := []
  deriving DecidableEq

namespace Log

variable {Op : Type} (l : Log Op)

/-- `Append`. -/
def append (e : LogEntry Op) : Log Op := { l with entries := l.entries ++ [e] }

/-- `Find`. -/
def find (opnum : ℕ) : Option (LogEntry Op) :=
  if opnum < l.start then none else l.entries[opnum - l.start]?

/-- `LastViewstamp`. -/
def lastViewstamp : ℕ × ℕ :=
  match l.entries.getLast? with
  | none => (0, l.start - 1)
  | some e => (e.view, e.opnum)

/-- `LastOpnum`. -/
def lastOpnum : ℕ := l.lastViewstamp.2

/-- `RemoveAfter`: the operation itself is removed, too. In a log with gaps `resize` might make
room for more entries instead; the logs that are built have none. -/
def removeAfter (op : ℕ) : Log Op :=
  if l.lastOpnum < op then l else { l with entries := l.entries.take (op - l.start) }

/-- `Dump`. A number that is not found, as there may be in a log with gaps, is dereferenced in the
source. -/
def dump (first : ℕ) : List (LogEntry Op) :=
  (List.range' (max first l.start) (l.lastOpnum + 1 - max first l.start)).filterMap l.find

/-- The last loop of `Install`. -/
def appendAll (es : List (LogEntry Op)) : Log Op := es.foldl append l

/-- `Install`: from the first divergence on, the entries are appended. -/
def install : List (LogEntry Op) → Log Op
  | [] => l
  | e :: es =>
      match l.find e.opnum with
      | none => l.appendAll (e :: es)
      | some oldEntry =>
          if e.view ≠ oldEntry.view then (l.removeAfter e.opnum).appendAll (e :: es)
          else install es

/-! ### Contiguous logs -/

/-- The entries are numbered from the start. -/
def Numbered (start : ℕ) (es : List (LogEntry Op)) : Prop :=
  ∀ k e, es[k]? = some e → e.opnum = start + k

section Numbered

variable {l} {start : ℕ} {es : List (LogEntry Op)}

theorem Numbered.nil : Numbered start ([] : List (LogEntry Op)) := by
  intro k e he
  cases he

theorem Numbered.concat (h : Numbered start es) {e : LogEntry Op}
    (he : e.opnum = start + es.length) : Numbered start (es ++ [e]) := by
  intro k e' he'
  rw [List.getElem?_append] at he'
  split_ifs at he' with hk
  · exact h k e' he'
  · have hzero : k - es.length = 0 := by
      by_contra hne
      rw [List.getElem?_eq_none (by rw [List.length_singleton]; omega)] at he'
      cases he'
    rw [hzero, List.getElem?_cons_zero] at he'
    cases he'
    omega

theorem Numbered.take (h : Numbered start es) (m : ℕ) : Numbered start (es.take m) := by
  intro k e he
  rw [List.getElem?_take] at he
  split_ifs at he
  exact h k e he

theorem Numbered.drop (h : Numbered start es) (m : ℕ) : Numbered (start + m) (es.drop m) := by
  intro k e he
  rw [List.getElem?_drop] at he
  rw [h _ e he, Nat.add_assoc]

theorem Numbered.dropWhile (h : Numbered start es) (p : LogEntry Op → Bool) :
    ∃ a, start ≤ a ∧ Numbered a (es.dropWhile p) ∧
      a + (es.dropWhile p).length = start + es.length := by
  induction es generalizing start with
  | nil => exact ⟨start, le_rfl, h, rfl⟩
  | cons e es ih =>
      by_cases hp : p e = true
      · rw [List.dropWhile_cons_of_pos hp]
        obtain ⟨a, ha, hnumbered, hlen⟩ := ih (h.drop 1)
        refine ⟨a, by omega, hnumbered, ?_⟩
        rw [List.length_cons]
        omega
      · rw [List.dropWhile_cons_of_neg hp]
        exact ⟨start, le_rfl, h, rfl⟩

theorem Numbered.append (h : Numbered start es) {es' : List (LogEntry Op)}
    (h' : Numbered (start + es.length) es') : Numbered start (es ++ es') := by
  intro k e he
  rw [List.getElem?_append] at he
  split_ifs at he with hk
  · exact h k e he
  · rw [h' _ e he]
    omega

@[simp] theorem start_append (e : LogEntry Op) : (l.append e).start = l.start := rfl

@[simp] theorem entries_append (e : LogEntry Op) : (l.append e).entries = l.entries ++ [e] := rfl

theorem appendAll_eq (es : List (LogEntry Op)) :
    l.appendAll es = { l with entries := l.entries ++ es } := by
  induction es generalizing l with
  | nil => rw [List.append_nil]; rfl
  | cons e es ih =>
      show appendAll (l.append e) es = _
      rw [ih, entries_append, List.append_assoc, List.singleton_append]
      rfl

theorem find_eq {op : ℕ} (hop : l.start ≤ op) : l.find op = l.entries[op - l.start]? := by
  rw [find, if_neg (not_lt.2 hop)]

theorem lastViewstamp_concat {e : LogEntry Op} (he : l.entries = es ++ [e]) :
    l.lastViewstamp = (e.view, e.opnum) := by
  rw [lastViewstamp, he, List.getLast?_concat]

/-- The last number counts the entries. -/
theorem lastOpnum_eq (hpos : 0 < l.start) (h : Numbered l.start l.entries) :
    l.lastOpnum + 1 = l.start + l.entries.length := by
  rcases List.eq_nil_or_concat l.entries with hnil | ⟨es, e, hconcat⟩
  · rw [lastOpnum, lastViewstamp, hnil]
    show l.start - 1 + 1 = l.start + 0
    omega
  · rw [List.concat_eq_append] at hconcat
    have hlast : l.entries[es.length]? = some e := by
      rw [hconcat, List.getElem?_append_right le_rfl, Nat.sub_self, List.getElem?_cons_zero]
    rw [lastOpnum, lastViewstamp_concat hconcat, h _ e hlast, hconcat, List.length_append,
      List.length_singleton]
    omega

theorem removeAfter_eq (hpos : 0 < l.start) (h : Numbered l.start l.entries) {op : ℕ}
    (hop : l.start ≤ op) :
    l.removeAfter op = { l with entries := l.entries.take (op - l.start) } := by
  have hlast := lastOpnum_eq hpos h
  rw [removeAfter]
  split_ifs with hlt
  · rw [List.take_of_length_le]
    omega
  · rfl

/-- **A dump** is the rest of the log. -/
theorem dump_eq (hpos : 0 < l.start) (h : Numbered l.start l.entries) (first : ℕ) :
    l.dump first = l.entries.drop (max first l.start - l.start) := by
  have hlast := lastOpnum_eq hpos h
  have hge : l.start ≤ max first l.start := le_max_right _ _
  rw [dump]
  generalize max first l.start = a at hge ⊢
  have hdump : ∀ n b, l.start ≤ b → b + n = l.start + l.entries.length →
      (List.range' b n).filterMap l.find = l.entries.drop (b - l.start) := by
    intro n
    induction n with
    | zero =>
        intro b hb hlen
        rw [List.drop_of_length_le (by omega)]
        rfl
    | succ n ih =>
        intro b hb hlen
        have hlt : b - l.start < l.entries.length := by omega
        rw [List.range'_succ, List.filterMap_cons, find_eq hb, List.getElem?_eq_getElem hlt]
        have hnext : b + 1 - l.start = b - l.start + 1 := by omega
        rw [ih (b + 1) (by omega) (by omega), List.drop_eq_getElem_cons hlt, hnext]
  by_cases hbig : a ≤ l.lastOpnum + 1
  · exact hdump _ a hge (by omega)
  · rw [List.drop_of_length_le (by omega), Nat.sub_eq_zero_of_le (by omega)]
    rfl

/-- **Installing** a contiguous piece that starts no later than where the log ends, into a log
that goes no further than the piece: entries of the same view are the same. -/
theorem install_eq (hpos : 0 < l.start) (h : Numbered l.start l.entries) {a : ℕ}
    (ha : a ≤ l.entries.length) {es : List (LogEntry Op)} (hes : Numbered (l.start + a) es)
    (hlen : l.entries.length ≤ a + es.length)
    (hsame : ∀ k e e', es[k]? = some e → l.entries[a + k]? = some e' → e.view = e'.view →
      e = e') : l.install es = { l with entries := l.entries.take a ++ es } := by
  induction es generalizing a with
  | nil =>
      have hlength : l.entries.length ≤ a := hlen
      rw [install, List.append_nil, List.take_of_length_le hlength]
  | cons e es ih =>
      have hop : e.opnum = l.start + a := hes 0 e rfl
      have hfind : l.find e.opnum = l.entries[a]? := by
        rw [find_eq (by omega), hop, Nat.add_sub_cancel_left]
      rw [install, hfind]
      cases hold : l.entries[a]? with
      | none =>
          have hend : l.entries.length = a := le_antisymm (List.getElem?_eq_none_iff.1 hold) ha
          rw [← hend, List.take_length]
          exact appendAll_eq _
      | some e' =>
          obtain ⟨hlt, hget⟩ := List.getElem?_eq_some_iff.1 hold
          show (if e.view ≠ e'.view then _ else _) = _
          by_cases hview : e.view = e'.view
          · have heq := hsame 0 e e' rfl (by rw [Nat.add_zero]; exact hold) hview
            rw [if_neg (not_not.2 hview), ih (a := a + 1) hlt]
            · rw [List.take_add_one, hold, heq, List.append_assoc]
              rfl
            · intro k e₁ he₁
              rw [hes (k + 1) e₁ (by rw [List.getElem?_cons_succ]; exact he₁)]
              omega
            · rw [List.length_cons] at hlen
              omega
            · intro k e₁ e₂ he₁ he₂
              exact hsame (k + 1) e₁ e₂ (by rw [List.getElem?_cons_succ]; exact he₁)
                (by rw [← he₂]; congr 1; omega)
          · rw [if_pos hview, removeAfter_eq hpos h (by omega), hop, Nat.add_sub_cancel_left]
            exact appendAll_eq _

/-- A contiguous log with its first and its last number. -/
structure Spans (l : Log Op) (start last : ℕ) : Prop where
  start_eq : l.start = start
  numbered : Numbered start l.entries
  length : start + l.entries.length = last + 1

theorem Spans.appendAll {last : ℕ} (h : l.Spans start last) (hes : Numbered (last + 1) es) :
    (l.appendAll es).Spans start (last + es.length) := by
  have hlen := h.length
  rw [appendAll_eq]
  refine ⟨h.start_eq, h.numbered.append (hlen ▸ hes), ?_⟩
  rw [List.length_append]
  omega

theorem Spans.find {last op : ℕ} (h : l.Spans start last) (hop : start ≤ op) (hle : op ≤ last) :
    ∃ e, l.find op = some e ∧ e.opnum = op ∧ l.entries[op - start]? = some e := by
  have hlen := h.length
  have hlt : op - start < l.entries.length := by omega
  have hget : l.entries[op - start]? = some l.entries[op - start] := List.getElem?_eq_getElem hlt
  refine ⟨l.entries[op - start], ?_, ?_, hget⟩
  · rw [find_eq (by rw [h.start_eq]; exact hop), h.start_eq]
    exact hget
  · rw [h.numbered _ _ hget]
    omega

theorem Spans.lastOpnum {last : ℕ} (h : l.Spans start last) (hpos : 0 < start) :
    l.lastOpnum = last := by
  have hlen := h.length
  have heq := lastOpnum_eq (h.start_eq ▸ hpos) (h.start_eq ▸ h.numbered)
  have hstart := h.start_eq
  omega

theorem Spans.removeAfter_eq {last op : ℕ} (h : l.Spans start last) (hpos : 0 < start)
    (hop : start ≤ op) : l.removeAfter op = { l with entries := l.entries.take (op - start) } := by
  obtain ⟨rfl, hnumbered, -⟩ := h
  exact Log.removeAfter_eq hpos hnumbered hop

/-- What is left before an operation of the log, or all of it. -/
theorem Spans.removeAfter {last op : ℕ} (h : l.Spans start last) (hpos : 0 < start)
    (hop : start ≤ op) : (l.removeAfter op).Spans start (min last (op - 1)) := by
  have hlen := h.length
  rw [h.removeAfter_eq hpos hop]
  refine ⟨h.start_eq, h.numbered.take _, ?_⟩
  rw [List.length_take]
  omega

/-- **Installing** a contiguous piece that starts no later than where the log ends and goes at
least as far keeps the log contiguous, whatever the entries are. -/
theorem Spans.install {last a : ℕ} (h : l.Spans start last) (hpos : 0 < start) (ha : start ≤ a)
    (hes : Numbered a es) (hle : a ≤ last + 1) (hge : last + 1 ≤ a + es.length) :
    (l.install es).Spans start (a + es.length - 1) := by
  have hlen := h.length
  induction es generalizing a with
  | nil =>
      refine ⟨h.start_eq, h.numbered, ?_⟩
      rw [List.length_nil] at hge ⊢
      show start + l.entries.length = _
      omega
  | cons e es ih =>
      have hop : e.opnum = a := hes 0 e rfl
      have hfind : l.find e.opnum = l.entries[a - start]? := by
        rw [find_eq (by rw [h.start_eq, hop]; exact ha), hop, h.start_eq]
      rw [Log.install, hfind]
      cases hold : l.entries[a - start]? with
      | none =>
          have hend := List.getElem?_eq_none_iff.1 hold
          have hlast : a = last + 1 := by omega
          have heq : last + (e :: es).length = a + (e :: es).length - 1 := by omega
          rw [← heq]
          exact h.appendAll (hlast ▸ hes)
      | some e' =>
          obtain ⟨hlt, -⟩ := List.getElem?_eq_some_iff.1 hold
          show Spans (if e.view ≠ e'.view then _ else _) _ _
          split_ifs with hview
          · have hremoved := h.removeAfter hpos (hop.symm ▸ ha : start ≤ e.opnum)
            have hmin : min last (e.opnum - 1) + 1 = a := by omega
            have heq : min last (e.opnum - 1) + (e :: es).length = a + (e :: es).length - 1 := by
              omega
            rw [← heq]
            exact hremoved.appendAll (hmin.symm ▸ hes)
          · have heq : a + 1 + es.length - 1 = a + (e :: es).length - 1 := by
              rw [List.length_cons]
              omega
            rw [← heq]
            refine ih (by omega) (fun k e₁ he₁ => ?_) (by omega) ?_
            · rw [hes (k + 1) e₁ (by rw [List.getElem?_cons_succ]; exact he₁)]
              omega
            · rw [List.length_cons] at hge
              omega

/-! ### Installing a piece -/

/-- A contiguous log. Operation numbers begin at 1, so the number before the start exists. -/
structure Contiguous (l : Log Op) : Prop where
  positive : 0 < l.start
  numbered : Numbered l.start l.entries

/-- What `Find` returns is numbered so, and it returns something for the numbers of the log. -/
structure Finds (l : Log Op) : Prop where
  isSome : ∀ op, (l.find op).isSome ↔ l.start ≤ op ∧ op ≤ l.lastOpnum
  opnum : ∀ op e, l.find op = some e → e.opnum = op

theorem Contiguous.finds (h : l.Contiguous) : l.Finds := by
  have hlast := lastOpnum_eq h.positive h.numbered
  refine ⟨fun op => ?_, fun op e he => ?_⟩
  · by_cases hop : l.start ≤ op
    · rw [find_eq hop, isSome_getElem?]
      omega
    · rw [find, if_pos (not_le.1 hop)]
      exact ⟨(fun h => by cases h), fun hbounds => absurd hbounds.1 hop⟩
  · by_cases hop : l.start ≤ op
    · rw [find_eq hop] at he
      rw [h.numbered _ e he]
      omega
    · rw [find, if_pos (not_le.1 hop)] at he
      cases he

/-- The number of the last entry of a contiguous piece. -/
theorem Numbered.getLast (h : Numbered start es) (hne : es ≠ []) :
    (es.getLast hne).opnum + 1 = start + es.length := by
  have hpos := List.length_pos_iff.2 hne
  have hget : es[es.length - 1]? = some (es.getLast hne) := by
    rw [List.getLast_eq_getElem, List.getElem?_eq_getElem]
  rw [h _ _ hget]
  omega

/-- **What is installed.** The log is cut off behind the piece, so it ends up as what it had before
the piece, followed by the piece. -/
theorem removeAfter_install_eq (hl : l.Contiguous) {first : ℕ} (hne : es ≠ [])
    (hes : Numbered first es) (hstart : l.start ≤ first) (hfirst : first ≤ l.lastOpnum + 1)
    (hsame : ∀ e ∈ es, ∀ e' ∈ l.entries, e.opnum = e'.opnum → e.view = e'.view →
      e.request = e'.request) :
    (l.removeAfter ((es.getLast hne).opnum + 1)).install es =
      { l with entries := l.entries.take (first - l.start) ++ es } := by
  have hlast := lastOpnum_eq hl.positive hl.numbered
  have hoff : l.start + (first - l.start) = first := by omega
  rw [hes.getLast hne, removeAfter_eq hl.positive hl.numbered (by omega)]
  have hinstall := install_eq (l := { l with
      entries := l.entries.take (first + es.length - l.start) }) (a := first - l.start)
    hl.positive (hl.numbered.take _) ?_ (hoff.symm ▸ hes) ?_ fun k e e' he he' hview => ?_
  · rw [hinstall, List.take_take, min_eq_left (by omega)]
  · rw [List.length_take]
    omega
  · rw [List.length_take]
    omega
  · -- entries of one number and one view are the same
    have hop := hes k e he
    have hop' := hl.numbered.take _ _ e' he'
    have hopnum : e.opnum = e'.opnum := by omega
    have hrequest := hsame e (List.mem_of_getElem? he) e'
      (List.mem_of_mem_take (List.mem_of_getElem? he')) hopnum hview
    obtain ⟨view, opnum, request⟩ := e
    obtain ⟨view', opnum', request'⟩ := e'
    obtain rfl : view = view' := hview
    obtain rfl : opnum = opnum' := hopnum
    obtain rfl : request = request' := hrequest
    rfl

/-- The log `l'` is the log `l` with the piece `es` installed from the number `first` on. -/
structure Installed (l : Log Op) (first : ℕ) (es : List (LogEntry Op)) (hne : es ≠ [])
    (l' : Log Op) : Prop where
  contiguous : l'.Contiguous
  last : l'.lastOpnum = (es.getLast hne).opnum
  piece : ∀ e ∈ es, ∃ e', l'.find e.opnum = some e' ∧ e'.view = e.view ∧ e'.request = e.request
  before : ∀ op, op < first → l'.find op = l.find op
  finds : l'.Finds

/-- **Log installation.** A contiguous piece that starts within the log or right behind it and
agrees with it on entries of one view is installed after the log was cut off behind the piece. -/
theorem removeAfter_install (l : Log Op) (es : List (LogEntry Op)) (first : ℕ)
    (hl : l.Contiguous) (hne : es ≠ []) (hes : Numbered first es) (hstart : l.start ≤ first)
    (hfirst : first ≤ l.lastOpnum + 1)
    (hsame : ∀ e ∈ es, ∀ e' ∈ l.entries, e.opnum = e'.opnum → e.view = e'.view →
      e.request = e'.request) :
    Installed l first es hne ((l.removeAfter ((es.getLast hne).opnum + 1)).install es) := by
  have hlast := lastOpnum_eq hl.positive hl.numbered
  have hlength : (l.entries.take (first - l.start)).length = first - l.start := by
    rw [List.length_take]
    omega
  rw [removeAfter_install_eq hl hne hes hstart hfirst hsame]
  have hcontiguous : Contiguous { l with entries := l.entries.take (first - l.start) ++ es } := by
    refine ⟨hl.positive, (hl.numbered.take _).append ?_⟩
    rw [hlength, Nat.add_sub_cancel' hstart]
    exact hes
  have hlast' : lastOpnum { l with entries := l.entries.take (first - l.start) ++ es } + 1 =
      l.start + (first - l.start + es.length) := by
    rw [lastOpnum_eq hcontiguous.positive hcontiguous.numbered, List.length_append, hlength]
  refine ⟨hcontiguous, ?_, fun e he => ?_, fun op hop => ?_, hcontiguous.finds⟩
  · have hgetLast := hes.getLast hne
    omega
  · obtain ⟨k, hk⟩ := List.mem_iff_getElem?.1 he
    have hop := hes k e hk
    refine ⟨e, ?_, rfl, rfl⟩
    rw [find_eq (by show l.start ≤ _; omega)]
    show (l.entries.take (first - l.start) ++ es)[e.opnum - l.start]? = some e
    rw [List.getElem?_append_right (by omega), hlength, ← hk]
    congr 1
    omega
  · by_cases hle : l.start ≤ op
    · rw [find_eq hle, find_eq (by exact hle)]
      show (l.entries.take (first - l.start) ++ es)[op - l.start]? = _
      rw [List.getElem?_append_left (by omega), List.getElem?_take, if_pos (by omega)]
    · rw [find, find, if_pos (not_le.1 hle), if_pos (not_le.1 hle)]

/-- Three operations of view 0. -/
def threeOfViewZero : Log ℕ where
  entries := [⟨0, 1, ⟨10, 1, 1⟩⟩, ⟨0, 2, ⟨20, 1, 2⟩⟩, ⟨0, 3, ⟨30, 2, 1⟩⟩]

/-- An operation they agree on, and another one of view 1. -/
def divergingPiece : List (LogEntry ℕ) := [⟨0, 2, ⟨20, 1, 2⟩⟩, ⟨1, 3, ⟨40, 2, 2⟩⟩]

theorem removeAfter_install_diverging :
    Installed threeOfViewZero 2 divergingPiece (List.cons_ne_nil _ _)
      ((threeOfViewZero.removeAfter 4).install divergingPiece) :=
  removeAfter_install threeOfViewZero divergingPiece 2
    ⟨by decide, ((Numbered.nil.concat rfl).concat rfl).concat rfl⟩ (List.cons_ne_nil _ _)
    ((Numbered.nil.concat rfl).concat rfl) (by decide) (by decide) (by decide)

end Numbered

end Log

end D2PC.Vr
