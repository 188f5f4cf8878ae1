import D2PC.Lib.Register
import D2PC.Store.WeakStore

/-!
# The history of the weakly consistent store

A client can be trusted whose calls were not disturbed: they did not time out, their requests were
sent, and their packets were not duplicated, though some may be lost. Other clients may get replies
to earlier calls.

* `Weak.Regular` : what a `Get` may return;
* `Weak.History` : what the history says of the calls of the clients that can be trusted;
* `Weak.History.regular` : a replica that stored what the history says answers a `Get` so.
-/

namespace D2PC.Weak

open Register

/-! ### The history -/

/-- The client called for the `Put`. -/
def PutBy (h : List Event) (c : ℕ) (w : Write) : Prop :=
  h[w.call]? = some (.called c (.put w.key w.value))

/-- The `Put` is answered. -/
def Answers (w : Write) (e : Event) : Prop := ∃ value, e = .returned w.call replyOk value

/-- The `Put` was answered before the place of the history. -/
def Before (h : List Event) (w : Write) (i : ℕ) : Prop := ∃ j < i, Occurs h j (Answers w)

/-- The `Put` of a key that a replica stored. -/
def storedAt (shard : Shard) (replica : ℕ) (key : Key) : Event → Option Write
  | .stored shard' replica' w =>
      if shard' = shard ∧ replica' = replica ∧ w.key = key then some w else none
  | _ => none

theorem storedAt_iff {shard : Shard} {replica : ℕ} {key : Key} {e : Event} {w : Write} :
    storedAt shard replica key e = some w ↔ e = .stored shard replica w ∧ w.key = key := by
  cases e with
  | called c op => exact iff_of_false (fun h => by cases h) fun h => by cases h.1
  | returned call status value => exact iff_of_false (fun h => by cases h) fun h => by cases h.1
  | stored shard' replica' w' =>
      rw [storedAt]
      split_ifs with hsame
      · obtain ⟨rfl, rfl, hkey⟩ := hsame
        rw [Option.some.injEq, Event.stored.injEq]
        refine ⟨fun hw => ⟨⟨rfl, rfl, hw⟩, hw ▸ hkey⟩, fun hw => hw.1.2.2⟩
      · refine iff_of_false (fun h => by cases h) fun hw => hsame ?_
        obtain ⟨rfl, rfl, rfl⟩ := Event.stored.inj hw.1
        exact ⟨rfl, rfl, hw.2⟩

variable (cfg : Config) (loaded : Shard → ℕ → KVStore) (trusted : ℕ → Prop)

/-- **A regular read.** What is returned was put by a call that was not answered before another one
was made that was answered before the `Get`; or it was loaded, and no call was answered before the
`Get`. -/
def Regular (h : List Event) (c g : ℕ) (key : Key) (status : ℕ) (value : Value) : Prop :=
  (∃ q cq, PutBy h cq q ∧ q.key = key ∧ q.value = value ∧ status = replyOk ∧
    ∀ p cp, PutBy h cp p → p.key = key → trusted cp → trusted cq →
      Before h p g → ¬ Before h q p.call) ∨
  (status, value) =
      Store.get key (loaded (cfg.keyToShard key) (cfg.replica c (cfg.keyToShard key))) ∧
    ∀ p cp, PutBy h cp p → p.key = key → trusted cp → ¬ Before h p g

/-- **The history of the calls.** -/
structure History (h : List Event) : Prop where
  returned : ∀ (j g : ℕ) status value, h[j]? = some (.returned g status value) → g < j
  stored : ∀ (j : ℕ) shard i w, h[j]? = some (.stored shard i w) →
    w.call < j ∧ cfg.keyToShard w.key = shard ∧ ∃ c, PutBy h c w
  once : ∀ c w, trusted c → PutBy h c w → ∀ shard i (l l' : ℕ),
    h[l]? = some (.stored shard i w) → h[l']? = some (.stored shard i w) → l = l'
  done : ∀ c w j, trusted c → PutBy h c w → Occurs h j (Answers w) →
    ∀ i < cfg.n (cfg.keyToShard w.key),
      ∃ l : ℕ, l < j ∧ h[l]? = some (.stored (cfg.keyToShard w.key) i w)
  gets : ∀ c (g : ℕ) key (j : ℕ) status value, trusted c → h[g]? = some (.called c (.get key)) →
    h[j]? = some (.returned g status value) → Regular cfg loaded trusted h c g key status value

variable {cfg : Config} {loaded : Shard → ℕ → KVStore} {trusted : ℕ → Prop}
variable {h : List Event} {c g : ℕ} {e : Event} {key : Key} {status : ℕ} {value : Value} {w : Write}

theorem getElem?_concat_cases {j : ℕ} {e' : Event} (hj : (h ++ [e])[j]? = some e') :
    h[j]? = some e' ∨ j = h.length ∧ e' = e := by
  rcases occurs_concat (P := (· = e')) ⟨e', hj, rfl⟩ with ho | ⟨rfl, he⟩
  · obtain ⟨e'', he'', rfl⟩ := ho
    exact .inl he''
  · exact .inr ⟨rfl, he.symm⟩

theorem getElem?_grows {j : ℕ} {e' : Event} (hj : h[j]? = some e') (es : List Event) :
    (h ++ es)[j]? = some e' := by
  rw [List.getElem?_append_left (List.getElem?_eq_some_iff.1 hj).1]
  exact hj

theorem PutBy.grows (hw : PutBy h c w) (es : List Event) : PutBy (h ++ es) c w :=
  getElem?_grows hw es

theorem PutBy.cases (hw : PutBy (h ++ [e]) c w) :
    PutBy h c w ∨ w.call = h.length ∧ e = .called c (.put w.key w.value) := by
  rcases getElem?_concat_cases hw with hold | ⟨hcall, he⟩
  · exact .inl hold
  · exact .inr ⟨hcall, he.symm⟩

theorem before_concat_iff {i : ℕ} (hi : i ≤ h.length) :
    Before (h ++ [e]) w i ↔ Before h w i := by
  refine exists_congr fun j => and_congr_right fun hj => ?_
  exact occurs_append_iff (hj.trans_le hi) _

theorem PutBy.lt (hw : PutBy h c w) : w.call < h.length := (List.getElem?_eq_some_iff.1 hw).1

/-- A call that is answered was made. -/
theorem History.old (hh : History cfg loaded trusted h) {i : ℕ} (hbefore : Before h w i) :
    w.call < h.length := by
  obtain ⟨j, -, e', he', value, rfl⟩ := hbefore
  exact (hh.returned j _ _ _ he').trans (List.getElem?_eq_some_iff.1 he').1

/-- A read stays regular. -/
theorem Regular.grows (hr : Regular cfg loaded trusted h c g key status value)
    (hh : History cfg loaded trusted h) (hg : g ≤ h.length) :
    Regular cfg loaded trusted (h ++ [e]) c g key status value := by
  have hputs : ∀ p cp, PutBy (h ++ [e]) cp p → Before h p g → PutBy h cp p := by
    intro p cp hp hbefore
    rcases hp.cases with hold | ⟨hcall, -⟩
    · exact hold
    · exact absurd (hh.old hbefore) hcall.not_lt
  rcases hr with ⟨q, cq, hq, hkey, hvalue, hstatus, hall⟩ | ⟨hloaded, hall⟩
  · refine .inl ⟨q, cq, hq.grows _, hkey, hvalue, hstatus, fun p cp hp hpkey hcp hcq hbefore => ?_⟩
    have hold := (before_concat_iff hg).1 hbefore
    have hput := hputs p cp hp hold
    rw [before_concat_iff hput.lt.le]
    exact hall p cp hput hpkey hcp hcq hold
  · refine .inr ⟨hloaded, fun p cp hp hpkey hcp hbefore => ?_⟩
    have hold := (before_concat_iff hg).1 hbefore
    exact hall p cp (hputs p cp hp hold) hpkey hcp hold

theorem History.called (hh : History cfg loaded trusted h) (c : ℕ) (op : Op) :
    History cfg loaded trusted (h ++ [.called c op]) := by
  refine ⟨fun j g status value hj => ?_, fun j shard i w hj => ?_, fun c' w hc hw => ?_,
    fun c' w j hc hw hj => ?_, fun c' g key j status value hc hg hj => ?_⟩
  · rcases getElem?_concat_cases hj with hold | ⟨-, he⟩
    · exact hh.returned j g status value hold
    · cases he
  · rcases getElem?_concat_cases hj with hold | ⟨-, he⟩
    · obtain ⟨hlt, hshard, c', hw⟩ := hh.stored j shard i w hold
      exact ⟨hlt, hshard, c', hw.grows _⟩
    · cases he
  · intro shard i l l' hl hl'
    rcases getElem?_concat_cases hl with hold | ⟨-, he⟩
    · rcases getElem?_concat_cases hl' with hold' | ⟨-, he'⟩
      · rcases hw.cases with hput | ⟨hcall, -⟩
        · exact hh.once c' w hc hput shard i l l' hold hold'
        · have hlt := (hh.stored l shard i w hold).1
          exact absurd (hlt.trans (List.getElem?_eq_some_iff.1 hold).1) hcall.not_lt
      · cases he'
    · cases he
  · rcases occurs_concat hj with hold | ⟨-, value, he⟩
    · rcases hw.cases with hput | ⟨hcall, -⟩
      · intro i hi
        obtain ⟨l, hl, hstored⟩ := hh.done c' w j hc hput hold i hi
        exact ⟨l, hl, getElem?_grows hstored _⟩
      · exact absurd (hh.old ⟨j, hold.lt, hold⟩) hcall.not_lt
    · cases he
  · rcases getElem?_concat_cases hj with hold | ⟨-, he⟩
    · have hlt := (hh.returned j g status value hold).trans (List.getElem?_eq_some_iff.1 hold).1
      rcases getElem?_concat_cases hg with hget | ⟨hcall, -⟩
      · exact (hh.gets c' g key j status value hc hget hold).grows hh hlt.le
      · exact absurd hlt hcall.not_lt
    · cases he

theorem History.store (hh : History cfg loaded trusted h) (hw : PutBy h c w) (i : ℕ)
    (hnew : trusted c → Event.stored (cfg.keyToShard w.key) i w ∉ h) :
    History cfg loaded trusted (h ++ [.stored (cfg.keyToShard w.key) i w]) := by
  refine ⟨fun j g status value hj => ?_, fun j shard i' w' hj => ?_, fun c' w' hc hw' => ?_,
    fun c' w' j hc hw' hj => ?_, fun c' g key j status value hc hg hj => ?_⟩
  · rcases getElem?_concat_cases hj with hold | ⟨-, he⟩
    · exact hh.returned j g status value hold
    · cases he
  · rcases getElem?_concat_cases hj with hold | ⟨rfl, he⟩
    · obtain ⟨hlt, hshard, c', hput⟩ := hh.stored j shard i' w' hold
      exact ⟨hlt, hshard, c', hput.grows _⟩
    · obtain ⟨rfl, rfl, rfl⟩ := Event.stored.inj he
      exact ⟨hw.lt, rfl, c, hw.grows _⟩
  · intro shard i' l l' hl hl'
    have hput : PutBy h c' w' := by
      rcases hw'.cases with hput | ⟨-, he⟩
      · exact hput
      · cases he
    -- the new entry is the first one of a call that can be trusted
    have hfirst : ∀ l : ℕ, h[l]? = some (.stored shard i' w') →
        Event.stored shard i' w' ≠ .stored (cfg.keyToShard w.key) i w := by
      intro m hm he
      obtain ⟨rfl, rfl, rfl⟩ := Event.stored.inj he
      obtain ⟨rfl, -⟩ := Event.called.inj (Option.some.inj (hput.symm.trans hw))
      exact hnew hc (List.mem_of_getElem? hm)
    rcases getElem?_concat_cases hl with hold | ⟨rfl, he⟩
    · rcases getElem?_concat_cases hl' with hold' | ⟨-, he'⟩
      · exact hh.once c' w' hc hput shard i' l l' hold hold'
      · exact absurd he' (hfirst l hold)
    · rcases getElem?_concat_cases hl' with hold' | ⟨rfl, -⟩
      · exact absurd he (hfirst l' hold')
      · rfl
  · rcases occurs_concat hj with hold | ⟨-, value, he⟩
    · rcases hw'.cases with hput | ⟨-, he⟩
      · intro i' hi'
        obtain ⟨l, hl, hstored⟩ := hh.done c' w' j hc hput hold i' hi'
        exact ⟨l, hl, getElem?_grows hstored _⟩
      · cases he
    · cases he
  · rcases getElem?_concat_cases hj with hold | ⟨-, he⟩
    · have hlt := (hh.returned j g status value hold).trans (List.getElem?_eq_some_iff.1 hold).1
      rcases getElem?_concat_cases hg with hget | ⟨-, he⟩
      · exact (hh.gets c' g key j status value hc hget hold).grows hh hlt.le
      · cases he
    · cases he

/-- What a call is answered with, if its client can be trusted. -/
def AnswerOk (cfg : Config) (loaded : Shard → ℕ → KVStore) (trusted : ℕ → Prop) (h : List Event)
    (c g : ℕ) (status : ℕ) (value : Value) : Op → Prop
  | .get key => Regular cfg loaded trusted h c g key status value
  | .put key v => status = replyOk → ∀ i < cfg.n (cfg.keyToShard key),
      Event.stored (cfg.keyToShard key) i ⟨g, key, v⟩ ∈ h

theorem History.answer (hh : History cfg loaded trusted h) {op : Op}
    (hg : h[g]? = some (.called c op))
    (hok : trusted c → AnswerOk cfg loaded trusted h c g status value op) :
    History cfg loaded trusted (h ++ [.returned g status value]) := by
  have hglt : g < h.length := (List.getElem?_eq_some_iff.1 hg).1
  have hputs : ∀ c' w', PutBy (h ++ [.returned g status value]) c' w' → PutBy h c' w' := by
    intro c' w' hw
    rcases hw.cases with hput | ⟨-, he⟩
    · exact hput
    · cases he
  refine ⟨fun j g' status' value' hj => ?_, fun j shard i w hj => ?_, fun c' w hc hw => ?_,
    fun c' w j hc hw hj => ?_, fun c' g' key j status' value' hc hg' hj => ?_⟩
  · rcases getElem?_concat_cases hj with hold | ⟨rfl, he⟩
    · exact hh.returned j g' status' value' hold
    · obtain ⟨rfl, -, -⟩ := Event.returned.inj he
      exact hglt
  · rcases getElem?_concat_cases hj with hold | ⟨-, he⟩
    · obtain ⟨hlt, hshard, c', hput⟩ := hh.stored j shard i w hold
      exact ⟨hlt, hshard, c', hput.grows _⟩
    · cases he
  · intro shard i l l' hl hl'
    rcases getElem?_concat_cases hl with hold | ⟨-, he⟩
    · rcases getElem?_concat_cases hl' with hold' | ⟨-, he'⟩
      · exact hh.once c' w hc (hputs c' w hw) shard i l l' hold hold'
      · cases he'
    · cases he
  · have hput := hputs c' w hw
    intro i hi
    rcases occurs_concat hj with hold | ⟨rfl, value', he⟩
    · obtain ⟨l, hl, hstored⟩ := hh.done c' w j hc hput hold i hi
      exact ⟨l, hl, getElem?_grows hstored _⟩
    · obtain ⟨rfl, hstatus, -⟩ := Event.returned.inj he
      obtain ⟨rfl, rfl⟩ := Event.called.inj (Option.some.inj (hg.symm.trans hput))
      obtain ⟨l, hl, hstored⟩ := List.mem_iff_getElem.1 (hok hc hstatus i hi)
      refine ⟨l, hl, getElem?_grows ?_ _⟩
      rw [List.getElem?_eq_getElem hl, hstored]
  · have hget : h[g']? = some (.called c' (.get key)) := by
      rcases getElem?_concat_cases hg' with hget | ⟨-, he⟩
      · exact hget
      · cases he
    have hlt : g' ≤ h.length := (List.getElem?_eq_some_iff.1 hget).1.le
    rcases getElem?_concat_cases hj with hold | ⟨-, he⟩
    · exact (hh.gets c' g' key j status' value' hc hget hold).grows hh hlt
    · obtain ⟨rfl, rfl, rfl⟩ := Event.returned.inj he
      obtain ⟨rfl, rfl⟩ := Event.called.inj (Option.some.inj (hg.symm.trans hget))
      exact (hok hc).grows hh hlt

/-- **A replica answers a `Get`** with a value that was not overwritten. -/
theorem History.regular (hh : History cfg loaded trusted h) {s : KVStore}
    (hvalues : s.values key =
      (loaded (cfg.keyToShard key) (cfg.replica c (cfg.keyToShard key))).values key ++
        (h.filterMap (storedAt (cfg.keyToShard key) (cfg.replica c (cfg.keyToShard key)) key)).map
          Write.value) :
    Regular cfg loaded trusted h c g key (Store.get key s).1 (Store.get key s).2 := by
  let shard := cfg.keyToShard key
  let i := cfg.replica c shard
  let look := storedAt shard i key
  have hall : WriteAll Write.call (fun w e => e = .stored shard i w) Answers
      (fun w => w.key = key ∧ ∃ c, trusted c ∧ PutBy h c w) h := by
    refine ⟨fun w j hj => ?_, fun w j j' hw hj hj' => ?_, fun w j hw hj => ?_⟩
    · obtain ⟨e, he, rfl⟩ := hj
      exact (hh.stored j _ _ _ he).1
    · obtain ⟨-, c', hc, hput⟩ := hw
      obtain ⟨e, he, rfl⟩ := hj
      obtain ⟨e', he', rfl⟩ := hj'
      exact hh.once c' w hc hput shard i j j' he he'
    · obtain ⟨hkey, c', hc, hput⟩ := hw
      obtain ⟨l, hl, hstored⟩ := hh.done c' w j hc hput hj i (hkey ▸ cfg.replica_lt c shard)
      exact ⟨l, hl, _, hstored, by rw [hkey]⟩
  have hlook : ∀ {w : Write}, w.key = key → ∀ e, e = .stored shard i w → look e = some w :=
    fun hkey e he => storedAt_iff.2 ⟨he, hkey⟩
  cases hlast : (h.filterMap look).getLast? with
  | some q =>
      have hvalue : s.get key = some q.value := by
        rw [KVStore.get, hvalues, List.getLast?_append, List.getLast?_map]
        show (Option.map Write.value (h.filterMap look).getLast?).or _ = _
        rw [hlast]
        rfl
      rw [Store.get_of_some hvalue]
      obtain ⟨e, he, hq⟩ := List.mem_filterMap.1 (List.mem_of_getLast? hlast)
      obtain ⟨rfl, hqkey⟩ := storedAt_iff.1 hq
      obtain ⟨l, hl, hle⟩ := List.mem_iff_getElem.1 he
      obtain ⟨-, -, cq, hput⟩ := hh.stored l _ _ _ (by rw [List.getElem?_eq_getElem hl, hle])
      refine .inl ⟨q, cq, hput, hqkey, rfl, rfl, fun p cp hp hpkey hcp hcq hpbefore hqbefore => ?_⟩
      obtain ⟨k, -, hk⟩ := hpbefore
      obtain ⟨k', hk', hqdone⟩ := hqbefore
      have hlt := hall.regular (fun w e hw => (storedAt_iff.1 hw).1) hlast ⟨hpkey, cp, hcp, hp⟩
        ⟨hqkey, cq, hcq, hput⟩ (hlook hpkey) hk hqdone
      exact absurd (hlt.trans hk') (lt_irrefl _)
  | none =>
      have hvalue : s.values key = (loaded shard i).values key := by
        rw [hvalues]
        show _ ++ (h.filterMap look).map Write.value = _
        rw [List.getLast?_eq_none_iff.1 hlast]
        exact List.append_nil _
      refine .inr ⟨?_, fun p cp hp hpkey hcp hbefore => ?_⟩
      · rw [Store.get, Store.get, KVStore.get, KVStore.get, hvalue]
      · obtain ⟨k, -, hk⟩ := hbefore
        exact hall.applied_of_done hlast ⟨hpkey, cp, hcp, hp⟩ (hlook hpkey) k hk

end D2PC.Weak
