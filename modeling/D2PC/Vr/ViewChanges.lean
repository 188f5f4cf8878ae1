import Mathlib.Data.List.TakeWhile
import D2PC.Vr.ViewReplica

/-!
# A replica changes its view

A replica goes on to a later view with a state transfer, with the message that starts the view, or
with the log it chose as its leader. Each time it keeps its own log up to a number and goes on with
another one. What it keeps is what it executed and what the other log has with the same views, so
what results is the other log.

* `LogOf.splice` : a log that goes on with another one;
* `Continues`, `handleStateTransfer_runs` : state transfer;
* `Connects`, `handleStartView_runs` : the start of a view;
* `FromLatest`, `handleDoViewChange_runs` : the choice of a log.
-/

namespace D2PC.Vr

open Ctx Prog

variable {σ Op : Type}

/-! ### A log goes on with another one -/

section Splice

variable {cfg : Config} {h : History Op} {es l : List (LogEntry Op)} {u v j : ℕ}

theorem take_eq_take {α : Type} {a b : List α} (hab : ∀ k, k < j → a[k]? = b[k]?) :
    a.take j = b.take j := by
  refine List.ext_getElem? fun k => ?_
  rw [List.getElem?_take, List.getElem?_take]
  split_ifs with hk
  · exact hab k hk
  · rfl

theorem requests_splice (hagree : (requests es).take j = (requests l).take j) :
    requests (es.take j ++ l.drop j) = requests l := by
  have hsplit : requests (es.take j ++ l.drop j) = (requests es).take j ++ (requests l).drop j := by
    rw [requests, List.map_append, List.map_take, List.map_drop]
    rfl
  rw [hsplit, hagree, List.take_append_drop]

theorem numbered_splice (hes : Log.Numbered 1 es) (hl : Log.Numbered 1 l) (hj : j ≤ es.length) :
    Log.Numbered 1 (es.take j ++ l.drop j) := by
  refine (hes.take j).append ?_
  rw [List.length_take_of_le hj]
  exact hl.drop j

theorem mem_splice {e : LogEntry Op} (he : e ∈ es.take j ++ l.drop j) : e ∈ es ∨ e ∈ l := by
  rcases List.mem_append.1 he with hold | hnew
  · exact .inl (List.mem_of_mem_take hold)
  · exact .inr (List.mem_of_mem_drop hnew)

theorem mem_drop_splice {e : LogEntry Op} {n : ℕ} (hj : j ≤ es.length)
    (he : e ∈ (es.take j ++ l.drop j).drop n) : e ∈ (es.take j).drop n ∨ e ∈ l.drop n := by
  rw [List.drop_append, List.length_take_of_le hj] at he
  rcases List.mem_append.1 he with hold | hnew
  · exact .inl hold
  · rw [List.drop_drop] at hnew
    refine .inr (List.mem_of_mem_drop (i := j + (n - j) - n) ?_)
    rw [List.drop_drop]
    have hsum : n + (j + (n - j) - n) = j + (n - j) := by omega
    rw [hsum]
    exact hnew

/-- **A log that goes on with one of a view** up to which it agrees is one of the view. -/
theorem LogOf.splice (hes : LogOf cfg h u es) (hl : LogOf cfg h v l) (hu : u ≤ v)
    (hj : j ≤ es.length) (hagree : (requests es).take j = (requests l).take j)
    (hviews : ∀ l₀, Vr.begun cfg h v = some l₀ → ∀ e ∈ (es.take j).drop l₀.length, e.view = v) :
    LogOf cfg h v (es.take j ++ l.drop j) := by
  have hrequests := requests_splice hagree
  obtain ⟨l₀, hl₀, hpre, hview⟩ := hl.begun
  refine ⟨numbered_splice hes.numbered hl.numbered hj, ⟨l₀, hl₀, ?_, fun e he => ?_⟩, ?_,
    fun e he => ?_⟩
  · rw [hrequests]
    exact hpre
  · rcases mem_drop_splice hj he with hold | hnew
    · exact hviews l₀ hl₀ e hold
    · exact hview e hnew
  · rw [hrequests]
    exact hl.within
  · rcases mem_splice he with hold | hnew
    · exact ⟨(hes.entry e hold).1.trans hu, (hes.entry e hold).2⟩
    · exact hl.entry e hnew

/-- Entries of the same number and the same view have the same request. -/
theorem LogOf.same_request (hes : LogOf cfg h u es) (hl : LogOf cfg h v l) {e e' : LogEntry Op}
    (he : e ∈ es) (he' : e' ∈ l) (hop : e.opnum = e'.opnum) (hview : e.view = e'.view) :
    e.request = e'.request := by
  have hreq := (hes.entry e he).2
  have hreq' := (hl.entry e' he').2
  rw [hop, hview, hreq'] at hreq
  exact (Option.some.inj hreq).symm

/-- The log a view starts with is one of the view. -/
theorem LogOf.start (hl : Vr.begun cfg h v = some (requests l)) (hnumbered : Log.Numbered 1 l)
    (hentry : ∀ e ∈ l, e.view ≤ v ∧ (viewLog cfg h e.view)[e.opnum - 1]? = some e.request) :
    LogOf cfg h v l := by
  refine ⟨hnumbered, ⟨requests l, hl, List.prefix_refl _, fun e he => ?_⟩, begun_prefix hl, hentry⟩
  rw [requests, List.length_map, List.drop_length] at he
  cases he

end Splice

namespace Replica

variable {env : Env σ Op} {h : History Op}
  {c c' : Ctx (Replica σ Op) Node (Msg Op) (Event Op)}

/-- The replica has entered the view. -/
structure Entered (env : Env σ Op) (newview : ℕ)
    (c c' : Ctx (Replica σ Op) Node (Msg Op) (Event Op)) : Prop where
  view : c'.state.view = newview
  status : c'.state.status = .normal
  enteredView : c'.state.enteredView = newview
  log : c'.state.log = c.state.log
  lastOp : c'.state.lastOp = c.state.lastOp
  lastCommitted : c'.state.lastCommitted = c.state.lastCommitted
  prepareOKQuorum : c'.state.prepareOKQuorum = ∅
  doViewChangeQuorum : c'.state.doViewChangeQuorum = ∅
  lastPrepare : c'.state.lastPrepare = c.state.lastPrepare
  closing : c'.state.closeBatchTimeout = true → env.cfg.leader newview = env.myIdx
  sent : c'.sent = c.sent
  events : c'.events = c.events

theorem enterView_enters (newview : ℕ)
    {D : Ctx (Replica σ Op) Node (Msg Op) (Event Op) → Prop} :
    wp (enterView env newview) (fun _ c' => Entered env newview c c') D c := by
  simp only [enterView, wp_bind, wp_update, wp_read, wp_ite, id]
  constructor
  · intro hleader
    exact ⟨rfl, rfl, rfl, rfl, rfl, rfl, rfl, rfl, rfl, fun _ => of_decide_eq_true hleader, rfl,
      rfl⟩
  · intro _
    exact ⟨rfl, rfl, rfl, rfl, rfl, rfl, rfl, rfl, rfl, (fun hrunning => by cases hrunning), rfl,
      rfl⟩

end Replica

/-! ### State transfer -/

section Transfer

open Vr.Replica

variable {h : History Op} {i v a : ℕ} {r : Replica σ Op} {l : List (LogEntry Op)}

/-- What was executed is left out. -/
theorem notExecuted_drop (hl : Log.Numbered 1 l) (ha : a ≤ r.lastCommitted)
    (hlen : r.lastCommitted ≤ l.length) :
    notExecuted r (l.drop a) = l.drop r.lastCommitted := by
  obtain ⟨d, hd⟩ := Nat.exists_eq_add_of_le ha
  induction d generalizing a with
  | zero =>
      have heq : a = r.lastCommitted := by omega
      rw [heq]
      by_cases hlt : r.lastCommitted < l.length
      · rw [List.drop_eq_getElem_cons hlt]
        refine List.dropWhile_cons_of_neg fun hle => ?_
        have hop := hl _ _ (List.getElem?_eq_getElem hlt)
        have hle : l[r.lastCommitted].opnum ≤ r.lastCommitted := of_decide_eq_true hle
        omega
      · rw [List.drop_of_length_le (not_lt.1 hlt)]
        rfl
  | succ d ih =>
      have hlt : a < l.length := by omega
      have hop := hl _ _ (List.getElem?_eq_getElem hlt)
      rw [List.drop_eq_getElem_cons hlt, notExecuted, List.dropWhile_cons_of_pos]
      · exact ih (by omega) (by omega)
      · exact decide_eq_true (by omega)

/-- What is in the log with the same views is left out. -/
theorem differing_drop (hlog : r.log.Spans 1 r.lastOp) (hl : Log.Numbered 1 l)
    (ha : a ≤ l.length) (hle : a ≤ r.lastOp) :
    ∃ j, a ≤ j ∧ j ≤ l.length ∧ j ≤ r.lastOp ∧ differing r (l.drop a) = l.drop j ∧
      ∀ k, a ≤ k → k < j → ∃ e e', r.log.entries[k]? = some e ∧ l[k]? = some e' ∧
        e.view = e'.view := by
  obtain ⟨d, hd⟩ := Nat.exists_eq_add_of_le ha
  induction d generalizing a with
  | zero =>
      refine ⟨a, le_rfl, ha, hle, ?_, fun k hk hk' => by omega⟩
      rw [List.drop_of_length_le (by omega)]
      rfl
  | succ d ih =>
      have hlt : a < l.length := by omega
      have hget := List.getElem?_eq_getElem hlt
      have hop := hl _ _ hget
      rw [List.drop_eq_getElem_cons hlt]
      by_cases hknown : r.knows l[a] = true
      · rw [differing, List.dropWhile_cons_of_pos hknown]
        rw [knows, hop, Log.find_eq (by rw [hlog.start_eq]; omega), hlog.start_eq,
          Nat.add_sub_cancel_left] at hknown
        obtain ⟨e, he, hview⟩ := (Option.any_eq_true _ _).1 hknown
        obtain ⟨hin, -⟩ := List.getElem?_eq_some_iff.1 he
        have hlen := hlog.length
        obtain ⟨j, hj, hjl, hjr, hdrop, hsame⟩ := ih (a := a + 1) (by omega) (by omega) (by omega)
        refine ⟨j, by omega, hjl, hjr, hdrop, fun k hk hk' => ?_⟩
        rcases Nat.eq_or_lt_of_le hk with rfl | hlater
        · exact ⟨e, l[a], he, hget, of_decide_eq_true hview⟩
        · exact hsame k hlater hk'
      · refine ⟨a, le_rfl, ha, hle, ?_, fun k hk hk' => by omega⟩
        rw [differing, List.dropWhile_cons_of_neg hknown, ← List.drop_eq_getElem_cons hlt]

/-- Where a transfer ends. -/
def transferEnd (r : Replica σ Op) (es : List (LogEntry Op)) : ℕ :=
  (es.getLast?.map (·.opnum)).getD r.lastCommitted

/-- **A transfer that goes on** with the log. In the view of the replica it comes in normal status
and does not make the log shorter; and with a later view nothing of the log is left behind it. -/
structure Continues (r : Replica σ Op) (m : StateTransfer Op) : Prop where
  same : m.view = r.view → r.status = .normal ∧
    (takenOver r m.entries ≠ [] → r.lastOp ≤ transferEnd r m.entries)
  later : r.view < m.view → takenOver r m.entries = [] → r.lastOp ≤ transferEnd r m.entries

theorem transferEnd_drop (hl : Log.Numbered 1 l) (ha : a ≤ r.lastCommitted)
    (hlen : r.lastCommitted ≤ l.length) : transferEnd r (l.drop a) = l.length := by
  rw [transferEnd, List.getLast?_drop]
  split_ifs with hend
  · show r.lastCommitted = l.length
    omega
  · rw [List.getLast?_eq_getElem?, List.getElem?_eq_getElem (by omega)]
    have hop := hl _ _ (List.getElem?_eq_getElem (by omega : l.length - 1 < l.length))
    show l[l.length - 1].opnum = l.length
    omega

/-- What a transfer takes over. -/
theorem takeOver_drop {j : ℕ} (hl : Log.Numbered 1 l) (hj : j < l.length) :
    takeOver r (l.drop j) = { r with
      lastOp := l.length
      log := { r.log with entries := r.log.entries.take j ++ l.drop j } } := by
  have hop := hl _ _ (List.getElem?_eq_getElem hj)
  have hpred : l[j].opnum - 1 = j := by omega
  have hsum : j + (l.drop j).length = l.length := by
    rw [List.length_drop]
    omega
  rw [List.drop_eq_getElem_cons hj, takeOver, hpred, extend, ← List.drop_eq_getElem_cons hj]
  simp only [hsum]

/-- **A transfer** from where the replica is: its log goes on with the one of the sender. -/
theorem Running.transfer {cfg : Config}
    (hsound : (record cfg h).Sound (Finset.range cfg.n) cfg.quorumSize)
    (hr : Running cfg h i r) (hl : LogOf cfg h v l) (hv : r.enteredView ≤ v)
    (ha : a ≤ r.lastCommitted) (hlen : r.lastCommitted ≤ l.length) :
    ∃ j, r.lastCommitted ≤ j ∧ j ≤ l.length ∧ j ≤ r.lastOp ∧
      takenOver r (l.drop a) = l.drop j ∧
      (requests r.log.entries).take j = (requests l).take j ∧
      LogOf cfg h v (r.log.entries.take j ++ l.drop j) := by
  have hspan := hr.log.length
  have hexecuted := hr.committed.1
  obtain ⟨j, hj, hjl, hjr, hdrop, hsame⟩ := differing_drop hr.log hl.numbered hlen hexecuted
  have hold : (requests r.log.entries).take r.lastCommitted =
      (requests l).take r.lastCommitted :=
    hr.holds.agree hsound hl hr.committed.2 le_rfl hv (by omega) hlen
  have hagree : (requests r.log.entries).take j = (requests l).take j := by
    refine take_eq_take fun k hk => ?_
    rcases Nat.lt_or_ge k r.lastCommitted with hbefore | hafter
    · have hget := congrArg (·[k]?) hold
      simpa only [List.getElem?_take, if_pos hbefore] using hget
    · obtain ⟨e, e', he, he', hview⟩ := hsame k hafter hk
      have hop := hr.holds.numbered k e he
      have hop' := hl.numbered k e' he'
      have hreq := hr.holds.same_request hl (List.mem_of_getElem? he) (List.mem_of_getElem? he')
        (hop.trans hop'.symm) hview
      rw [requests, requests, List.getElem?_map, List.getElem?_map, he, he']
      exact congrArg some hreq
  refine ⟨j, hj, hjl, hjr, ?_, hagree, ?_⟩
  · rw [takenOver, notExecuted_drop hl.numbered ha hlen, hdrop]
  refine hr.holds.splice hl hv (by omega) hagree fun l₀ hl₀ e he => ?_
  rcases Nat.eq_or_lt_of_le hv with heq | hlt
  · -- the log of the view already
    obtain ⟨l₁, hl₁, -, hviews⟩ := hr.holds.begun
    rw [heq, hl₀] at hl₁
    obtain rfl := Option.some.inj hl₁
    rw [List.drop_take] at he
    rw [← heq]
    exact hviews e (List.mem_of_mem_take he)
  · -- what the view began with has all that was executed
    have hbase : r.lastCommitted ≤ l₀.length := by
      rcases hr.committed.2 with hzero | ⟨u, hu, hchosen⟩
      · omega
      · have hpre := (hsound.base_keeps hchosen hl₀ (by omega)).length_le
        rw [List.length_take_of_le (ViewRecord.Chosen.le_length hsound hchosen)] at hpre
        exact hpre
    obtain ⟨k, hk⟩ := List.mem_iff_getElem?.1 he
    rw [List.getElem?_drop, List.getElem?_take] at hk
    split_ifs at hk with hin
    obtain ⟨e₁, e₂, he₁, he₂, hview⟩ := hsame (l₀.length + k) (by omega) hin
    obtain rfl : e = e₁ := Option.some.inj (hk.symm.trans he₁)
    obtain ⟨l₁, hl₁, -, hviews⟩ := hl.begun
    obtain rfl := Option.some.inj (hl₀.symm.trans hl₁)
    rw [hview]
    refine hviews e₂ (List.mem_iff_getElem?.2 ⟨k, ?_⟩)
    rw [List.getElem?_drop]
    exact he₂

/-- A longer log of the view. -/
theorem Running.lengthen {cfg : Config} (hr : Running cfg h i r) (hnormal : r.status = .normal)
    {es : List (LogEntry Op)} (hes : LogOf cfg h r.enteredView es) (hle : r.lastOp ≤ es.length) :
    Running cfg h i { r with
      lastOp := es.length
      log := { r.log with entries := es } } := by
  have hspan := hr.log.length
  refine ⟨⟨hr.log.start_eq, hes.numbered, Nat.add_comm _ _⟩, hr.entered, hr.normal, hr.changing,
    hes, fun hleader => ?_, ⟨hr.committed.1.trans hle, hr.committed.2⟩, hr.reached, hr.executed,
    fun v k hk => ?_, fun v u l hl => ⟨(hr.contributed v u l hl).1, fun hch => ?_⟩, hr.started,
    hr.votes, hr.collected, hr.prepare, hr.closing⟩
  · refine hes.within.eq_of_length_le ?_
    show _ ≤ (requests es).length
    rw [← hr.leads hleader, requests, requests, List.length_map, List.length_map]
    omega
  · obtain ⟨hv, hk⟩ := hr.accepted v k hk
    exact ⟨hv, fun heq => (hk heq).trans hle⟩
  · rw [hnormal] at hch
    cases hch

/-- The sender may have less than the replica executed. -/
theorem notExecuted_nil (hl : Log.Numbered 1 l) (hlen : l.length < r.lastCommitted) :
    notExecuted r (l.drop a) = [] := by
  refine List.dropWhile_eq_nil_iff.2 fun e he => decide_eq_true ?_
  obtain ⟨k, hk⟩ := List.mem_iff_getElem?.1 (List.mem_of_mem_drop he)
  obtain ⟨hlt, -⟩ := List.getElem?_eq_some_iff.1 hk
  have hop := hl k e hk
  omega

variable {cfg : Config} {m : StateTransfer Op}

/-- A transfer that a replica may receive. -/
theorem StateTransferOk.cases
    (hsound : (record cfg h).Sound (Finset.range cfg.n) cfg.quorumSize) (hr : Running cfg h i r)
    (hm : StateTransferOk cfg h (.replica i) m) (hle : r.view ≤ m.view) :
    ∃ l a, LogOf cfg h m.view l ∧ m.entries = l.drop a ∧ m.opnum ≤ l.length ∧
      a ≤ r.lastCommitted ∧ Committed cfg h m.view m.opnum ∧
      (r.lastCommitted ≤ l.length ∨
        m.view = r.view ∧ l.length < r.lastCommitted ∧ notExecuted r m.entries = []) := by
  obtain ⟨l, a, j, hl, hentries, hop, hcommitted, hdst, ha⟩ := hm
  obtain rfl := Ir.Node.replica.inj hdst
  have hentered := hr.entered
  refine ⟨l, a, hl, hentries, hop, ?_, hcommitted, ?_⟩
  · rcases ha with hzero | ⟨req, hreq⟩
    · omega
    · exact hr.executed a req hreq
  rcases Nat.lt_or_ge l.length r.lastCommitted with hshort | hlong
  · refine .inr ⟨?_, hshort, ?_⟩
    · by_contra hview
      have hlt : r.enteredView < m.view := by omega
      rcases hr.committed.2 with hzero | ⟨u, hu, hchosen⟩
      · omega
      · have hin := (hl.take_chosen hsound hchosen (by omega) fun heq => by omega).1
        omega
    · rw [hentries]
      exact notExecuted_nil hl.numbered hshort
  · exact .inl hlong

/-- A transfer leaves no gap. -/
theorem StateTransferOk.gap
    (hsound : (record cfg h).Sound (Finset.range cfg.n) cfg.quorumSize) (hr : Running cfg h i r)
    (hm : StateTransferOk cfg h (.replica i) m) (hle : r.view ≤ m.view) :
    ∀ e ∈ (notExecuted r m.entries).head?, e.opnum ≤ r.lastOp + 1 := by
  obtain ⟨l, a, hl, hentries, -, ha, -, hcase⟩ := hm.cases hsound hr hle
  intro e he
  rcases hcase with hlong | ⟨-, -, hnil⟩
  · rw [hentries, notExecuted_drop hl.numbered ha hlong, List.head?_drop] at he
    have hop := hl.numbered _ e he
    have hexecuted := hr.committed.1
    omega
  · rw [hnil] at he
    cases he

/-- **In the view of the replica** its log gets no shorter. -/
theorem StateTransferOk.same
    (hsound : (record cfg h).Sound (Finset.range cfg.n) cfg.quorumSize) (hr : Running cfg h i r)
    (hm : StateTransferOk cfg h (.replica i) m) (hview : m.view = r.view)
    (hnormal : r.status = .normal)
    (hback : takenOver r m.entries ≠ [] → r.lastOp ≤ transferEnd r m.entries) :
    Running cfg h i (takeOver r (takenOver r m.entries)) ∧
      m.opnum ≤ (takeOver r (takenOver r m.entries)).lastOp := by
  obtain ⟨l, a, hl, hentries, hop, ha, -, hcase⟩ := hm.cases hsound hr hview.ge
  have hexecuted := hr.committed.1
  have hcurrent := hr.normal hnormal
  rcases hcase with hlong | ⟨-, hshort, hnil⟩
  · obtain ⟨j, hj, hjl, hjr, htaken, hagree, hlog⟩ :=
      Running.transfer hsound hr hl (by omega) ha hlong
    have hsplice : (r.log.entries.take j ++ l.drop j).length = l.length := by
      have hrequests := congrArg List.length (requests_splice hagree)
      simpa only [requests, List.length_map] using hrequests
    rw [← hentries] at htaken
    by_cases hnil : l.drop j = []
    · have hend := List.drop_eq_nil_iff.1 hnil
      rw [htaken, hnil, takeOver]
      exact ⟨hr, by omega⟩
    · rw [htaken] at hback
      have hend : transferEnd r m.entries = l.length := by
        rw [hentries]
        exact transferEnd_drop hl.numbered ha hlong
      have hmore : j < l.length := by
        by_contra hnot
        exact hnil (List.drop_of_length_le (not_lt.1 hnot))
      have hlonger := hback hnil
      rw [hend] at hlonger
      rw [hview, ← hcurrent] at hlog
      have hrun := hr.lengthen hnormal hlog (by omega)
      rw [hsplice] at hrun
      rw [htaken, takeOver_drop hl.numbered hmore]
      exact ⟨hrun, hop⟩
  · rw [takenOver, hnil, differing, List.dropWhile_nil, takeOver]
    exact ⟨hr, by omega⟩

/-- **In a later view** the log of the replica is that of the sender. -/
theorem StateTransferOk.later
    (hsound : (record cfg h).Sound (Finset.range cfg.n) cfg.quorumSize) (hr : Running cfg h i r)
    (hm : StateTransferOk cfg h (.replica i) m) (hview : r.view < m.view)
    (hbehind : takenOver r m.entries = [] → r.lastOp ≤ transferEnd r m.entries) :
    (takeOver r (takenOver r m.entries)).log.Spans 1
        (takeOver r (takenOver r m.entries)).lastOp ∧
      LogOf cfg h m.view (takeOver r (takenOver r m.entries)).log.entries ∧
      m.opnum ≤ (takeOver r (takenOver r m.entries)).lastOp := by
  obtain ⟨l, a, hl, hentries, hop, ha, -, hcase⟩ := hm.cases hsound hr hview.le
  have hentered := hr.entered
  have hspan := hr.log.length
  rcases hcase with hlong | ⟨heq, -⟩
  · obtain ⟨j, hj, hjl, hjr, htaken, hagree, hlog⟩ :=
      Running.transfer hsound hr hl (by omega) ha hlong
    have hsplice : (r.log.entries.take j ++ l.drop j).length = l.length := by
      have hrequests := congrArg List.length (requests_splice hagree)
      simpa only [requests, List.length_map] using hrequests
    rw [← hentries] at htaken
    rw [htaken] at hbehind ⊢
    by_cases hnil : l.drop j = []
    · have hend := List.drop_eq_nil_iff.1 hnil
      have hlast := hbehind hnil
      rw [hentries, transferEnd_drop hl.numbered ha hlong] at hlast
      rw [hnil, List.append_nil, List.take_of_length_le (by omega)] at hlog
      rw [hnil, takeOver]
      exact ⟨hr.log, hlog, by omega⟩
    · have hmore : j < l.length := by
        by_contra hnot
        exact hnil (List.drop_of_length_le (not_lt.1 hnot))
      rw [takeOver_drop hl.numbered hmore]
      refine ⟨⟨hr.log.start_eq, hlog.numbered, ?_⟩, hlog, hop⟩
      show 1 + (r.log.entries.take j ++ l.drop j).length = l.length + 1
      rw [hsplice, Nat.add_comm]
  · omega

/-- A transfer changes the log only. -/
theorem takeOver_same (r : Replica σ Op) (es : List (LogEntry Op)) :
    ∃ lastOp log, takeOver r es = { r with lastOp := lastOp, log := log } := by
  cases es with
  | nil => exact ⟨r.lastOp, r.log, rfl⟩
  | cons e es => exact ⟨_, _, rfl⟩

end Transfer

namespace Replica

variable {env : Env σ Op} {h : History Op}
  {c c' : Ctx (Replica σ Op) Node (Msg Op) (Event Op)}

/-- A replica enters a later view with a log of it. -/
theorem Runs.enter (hs : Setting env h) (hc : Runs env h c) {newview : ℕ} {log : Log Op}
    {lastOp : ℕ} (hlater : c.state.enteredView < newview) (hview : c.state.view ≤ newview)
    (hspans : log.Spans 1 lastOp)
    (hlog : LogOf env.cfg (past h (.replica env.myIdx) c) newview log.entries)
    (hsame : c'.state.log = log ∧ c'.state.lastOp = lastOp)
    (hentered : Entered env newview { c with state := { c.state with
      log := c'.state.log, lastOp := c'.state.lastOp } } c') : Runs env h c' := by
  have hrun := hc.node.2
  have hpast : past h (.replica env.myIdx) c' = past h (.replica env.myIdx) c := by
    rw [past, past, hentered.events]
  have hrun' : Running env.cfg (past h (.replica env.myIdx) c ++ []) env.myIdx c'.state := by
    refine Running.enter ?_ hrun (fun x hx => by cases hx) ?_ ?_ hentered.status
      (hentered.enteredView.trans hentered.view.symm) ?_ ?_ (fun hleader => ?_)
      hentered.lastCommitted hentered.prepareOKQuorum hentered.doViewChangeQuorum
      hentered.lastPrepare fun hrunning => ?_
    · rw [List.append_nil]
      exact hc.dies.sound hs
    · rw [hentered.enteredView]
      exact hlater
    · rw [hentered.view]
      exact hview
    · rw [hsame.1, hsame.2]
      exact hspans
    · rw [List.append_nil, hentered.enteredView, hsame.1]
      exact hlog
    · -- the leader of the view has entered it before
      rw [hentered.enteredView] at hleader
      obtain ⟨l, hl, -⟩ := hlog.begun
      have hstarted := hrun.started newview l hleader hl
      omega
    · rw [hentered.view]
      exact hentered.closing hrunning
  rw [List.append_nil] at hrun'
  refine ⟨?_, ?_⟩
  · rw [hpast]
    exact ⟨hc.node.1, hrun'⟩
  · rw [hpast, hentered.sent]
    exact hc.sent

/-- After the transfer what the sender executed is executed, and the leader is told of the rest. -/
theorem transferred_runs (hs : Setting env h) (hc : Runs env h c) {upto : ℕ} (oldLastOp : ℕ)
    (hnormal : c.state.status = .normal) (hle : upto ≤ c.state.lastOp)
    (hcommitted : Committed env.cfg (past h (.replica env.myIdx) c) c.state.enteredView upto) :
    wp (commitUpTo env upto >>= fun _ => sendPrepareOKs env oldLastOp >>= fun _ =>
      Ctx.update fun r => { r with pendingPrepares := [] }) (fun _ => Runs env h) (Dies env h)
      c := by
  rw [wp_bind]
  refine wp_mono (fun _ c' hc' => ?_) (fun _ h => h) (commitUpTo_runs hs hc hle hcommitted)
  rw [wp_bind]
  refine wp_mono (fun _ c'' hc'' => ?_) (fun _ h => h)
    (sendPrepareOKs_runs hs oldLastOp hc'.1 (hc'.2.view.status.trans hnormal))
  exact hc''.1.update ⟨rfl, rfl, rfl, rfl, rfl, rfl, rfl, rfl, rfl, rfl⟩

/-- **A state transfer** that goes on with the log. -/
theorem handleStateTransfer_runs (hs : Setting env h) (hc : Runs env h c) {m : StateTransfer Op}
    (hm : StateTransferOk env.cfg (past h (.replica env.myIdx) c) (.replica env.myIdx) m)
    (hcontinues : c.state.view ≤ m.view → Continues c.state m) :
    wp (handleStateTransfer env m) (fun _ => Runs env h) (Dies env h) c := by
  rw [handleStateTransfer, wp_bind, wp_read, wp_when]
  refine ⟨fun hnew => ?_, fun _ => hc⟩
  have hle : c.state.view ≤ m.view := by simpa using hnew
  have hsound := hc.dies.sound hs
  have hrun := hc.node.2
  have hentered := hrun.entered
  obtain ⟨hsame, hlater⟩ := hcontinues hle
  obtain ⟨l, a, hl, hentries, -, -, hcommitted, -⟩ := hm.cases hsound hrun hle
  have hnumbered : Log.Numbered (1 + a) m.entries := by
    rw [hentries]
    exact hl.numbered.drop a
  rw [wp_bind]
  refine wp_mono ?_ (fun _ h => h.elim) (transferEntries_wp _ hrun.log (Nat.le_add_right 1 a)
    hnumbered (hm.gap hsound hrun hle))
  rintro oldLastOp _ rfl
  rw [wp_bind, wp_when]
  constructor
  · intro hview
    have hview : c.state.view < m.view := of_decide_eq_true hview
    obtain ⟨hspans, hlog, hop⟩ := hm.later hsound hrun hview (hlater hview)
    refine wp_mono (fun _ c' hc' => ?_) (fun _ h => h) (enterView_enters m.view)
    have hrun' : Runs env h c' := by
      refine hc.enter hs (hentered.trans_lt hview) hle hspans hlog ⟨hc'.log, hc'.lastOp⟩ ?_
      obtain ⟨lastOp, log, heq⟩ := takeOver_same c.state (takenOver c.state m.entries)
      have hcommitted := hc'.lastCommitted
      have hprepare := hc'.lastPrepare
      simp only [heq] at hcommitted hprepare
      exact ⟨hc'.view, hc'.status, hc'.enteredView, rfl, rfl, hcommitted, hc'.prepareOKQuorum,
        hc'.doViewChangeQuorum, hprepare, hc'.closing, hc'.sent, hc'.events⟩
    refine transferred_runs hs hrun' oldLastOp hc'.status ?_ ?_
    · rw [hc'.lastOp]
      exact hop
    · have hpast : past h (.replica env.myIdx) c' = past h (.replica env.myIdx) c := by
        rw [past, past, hc'.events]
      rw [hpast, hc'.enteredView]
      exact hcommitted
  · intro hview
    have hview : m.view = c.state.view := le_antisymm (not_lt.1 (of_decide_eq_false hview)) hle
    obtain ⟨hnormal, hback⟩ := hsame hview
    obtain ⟨hrun', hop⟩ := hm.same hsound hrun hview hnormal hback
    rw [hview, ← hrun.normal hnormal] at hcommitted
    obtain ⟨lastOp, log, heq⟩ := takeOver_same c.state (takenOver c.state m.entries)
    rw [heq] at hrun' hop ⊢
    exact transferred_runs hs (Good.update hc ⟨hc.node.1, hrun'⟩) oldLastOp hnormal hop hcommitted

end Replica

/-! ### The log of a message is installed -/

section Install

open Vr.Replica

variable {cfg : Config} {h : History Op} {i v a : ℕ} {r : Replica σ Op} {l : List (LogEntry Op)}

/-- **What is installed** goes on with the log of the message where this begins. -/
theorem Running.installed_eq (hr : Running cfg h i r) (hl : LogOf cfg h v l)
    (hne : l.drop a ≠ []) (ha : a ≤ r.lastOp) :
    installed r l.length (l.drop a) = { r.log with
      entries := r.log.entries.take a ++ l.drop a } := by
  have hstart := hr.log.start_eq
  have hspan := hr.log.length
  have hlt : a < l.length := by
    by_contra hnot
    exact hne (List.drop_of_length_le (not_lt.1 hnot))
  have hlast : ((l.drop a).getLast hne).opnum = l.length := by
    have hopnum := (hl.numbered.drop a).getLast hne
    rw [List.length_drop] at hopnum
    omega
  have hinstall := Log.removeAfter_install_eq (l := r.log)
    ⟨hstart ▸ Nat.one_pos, hstart ▸ hr.log.numbered⟩ hne (hl.numbered.drop a)
    (by rw [hstart]; exact Nat.le_add_right 1 a)
    (by
      have hlastOp := hr.log.lastOpnum Nat.one_pos
      omega)
    fun e he e' he' hop hview => hl.same_request hr.holds (List.mem_of_mem_drop he) he' hop hview
  have hfirst : 1 + a - r.log.start = a := by omega
  rw [hlast, hfirst] at hinstall
  rw [← hinstall]
  cases hdrop : l.drop a with
  | nil => exact absurd hdrop hne
  | cons e es => rfl

/-- The log of a view that has begun, or that the replica starts, in place of its own. -/
theorem Running.installed_splice (hr : Running cfg h i r) (hl : LogOf cfg h v l)
    (hne : l.drop a ≠ []) (ha : a ≤ r.lastCommitted)
    (hagree : (requests r.log.entries).take r.lastCommitted =
      (requests l).take r.lastCommitted) :
    (installed r l.length (l.drop a)).Spans 1 l.length ∧
      requests (installed r l.length (l.drop a)).entries = requests l ∧
      ∀ e ∈ (installed r l.length (l.drop a)).entries, e ∈ r.log.entries ∨ e ∈ l := by
  have hexecuted := hr.committed.1
  have hspan := hr.log.length
  have hagree' : (requests r.log.entries).take a = (requests l).take a := by
    have htake := congrArg (List.take a) hagree
    rwa [List.take_take, List.take_take, min_eq_left ha] at htake
  have hrequests := requests_splice hagree'
  have hlength := congrArg List.length hrequests
  rw [hr.installed_eq hl hne (by omega)]
  refine ⟨⟨hr.log.start_eq, numbered_splice hr.holds.numbered hl.numbered (by omega), ?_⟩,
    hrequests, fun e he => mem_splice he⟩
  rw [requests, requests, List.length_map, List.length_map] at hlength
  show 1 + (r.log.entries.take a ++ l.drop a).length = l.length + 1
  rw [hlength, Nat.add_comm]

/-- Where a log that is installed begins. -/
theorem first_le {k : ℕ} (hl : Log.Numbered 1 l) (hne : l.drop a ≠ [])
    (hfits : ∀ e ∈ (l.drop a).head?, e.opnum ≤ k + 1) : a ≤ k := by
  have hlt : a < l.length := by
    by_contra hnot
    exact hne (List.drop_of_length_le (not_lt.1 hnot))
  have hget := List.getElem?_eq_getElem hlt
  have hnumber := hl _ _ hget
  have hle := hfits l[a] (by rw [List.head?_drop, hget]; rfl)
  omega

/-- **A start that connects**: a log without entries is that of a replica without operations. -/
def Connects (r : Replica σ Op) (m : StartView Op) : Prop := m.entries = [] → r.lastOp = 0

/-- **The first log of a view**, in place of the own one. -/
theorem StartViewOk.installed
    (hsound : (record cfg h).Sound (Finset.range cfg.n) cfg.quorumSize) (hr : Running cfg h i r)
    {m : StartView Op} (hm : StartViewOk cfg h m) (hlater : r.enteredView < m.view)
    (hconnects : Connects r m) (hfits : ∀ e ∈ m.entries.head?, e.opnum ≤ r.lastCommitted + 1) :
    (installed r m.lastOp m.entries).Spans 1 m.lastOp ∧
      LogOf cfg h m.view (installed r m.lastOp m.entries).entries := by
  obtain ⟨l, a, hl, hbegun, hop, ha, hentries, -, -⟩ := hm
  by_cases hnil : l.drop (a - 1) = []
  · -- the view begins with nothing
    have hempty : l.length = 0 := by
      have hle := List.drop_eq_nil_iff.1 hnil
      omega
    have hlast := hconnects (hentries.trans hnil)
    have hspan := hr.log.length
    have hnone : r.log.entries = [] := List.length_eq_zero_iff.1 (by omega)
    rw [hentries, hnil, hop, Replica.installed, hempty]
    refine ⟨?_, ?_⟩
    · rw [← hlast]
      exact hr.log
    · rw [hnone, ← List.length_eq_zero_iff.1 hempty]
      exact hl
  · have hagree : (requests r.log.entries).take r.lastCommitted =
        (requests l).take r.lastCommitted := by
      have hspan := hr.log.length
      have hexecuted := hr.committed.1
      rcases hr.committed.2 with hzero | ⟨u, hu, hchosen⟩
      · rw [hzero, List.take_zero, List.take_zero]
      · exact hr.holds.agree hsound hl (.inr ⟨u, hu, hchosen⟩) le_rfl hlater.le (by omega)
          (hl.take_chosen hsound hchosen (by omega) fun heq => by omega).1
    have hfirst := first_le hl.numbered hnil (hentries ▸ hfits)
    obtain ⟨hspans, hrequests, hmem⟩ := hr.installed_splice hl hnil hfirst hagree
    rw [hentries, hop]
    refine ⟨hspans, LogOf.start ?_ hspans.numbered fun e he => ?_⟩
    · rw [hrequests]
      exact hbegun
    · rcases hmem e he with hown | hnew
      · exact ⟨(hr.holds.entry e hown).1.trans hlater.le, (hr.holds.entry e hown).2⟩
      · exact hl.entry e hnew

end Install

namespace Replica

variable {env : Env σ Op} {h : History Op}
  {c c' : Ctx (Replica σ Op) Node (Msg Op) (Event Op)}

/-- A log is installed if it begins where the replica is. -/
theorem installLog_installs (lastOp : ℕ) (es : List (LogEntry Op)) :
    wp (installLog lastOp es) (fun _ c' => (∀ e ∈ es.head?, e.opnum ≤ c.state.lastCommitted + 1) ∧
        c' = { c with state := { c.state with log := installed c.state lastOp es } })
      (fun c' => c' = c) c := by
  cases es with
  | nil => exact ⟨(fun e he => by cases he), rfl⟩
  | cons e es =>
      rw [installLog, wp_bind, wp_read]
      show wp (if _ then crash else Ctx.update _) _ _ _
      rw [wp_ite]
      refine ⟨fun _ => rfl, fun hfits => ⟨fun e' he' => ?_, rfl⟩⟩
      rw [← Option.some.inj he']
      exact not_lt.1 hfits

/-- **A view starts** at a follower. -/
theorem handleStartView_runs (hs : Setting env h) (hc : Runs env h c) {m : StartView Op}
    (hm : StartViewOk env.cfg (past h (.replica env.myIdx) c) m)
    (hconnects : Accepts c.state m.view → Connects c.state m) :
    wp (handleStartView env m) (fun _ => Runs env h) (Dies env h) c := by
  rw [handleStartView, wp_bind, wp_read, wp_ite]
  refine ⟨fun _ => hc, fun hold => ?_⟩
  rw [wp_ite]
  refine ⟨fun _ => hc, fun hsame => ?_⟩
  have haccepts := accepts_of_not hold hsame
  have hrun := hc.node.2
  have hentered := hrun.entered
  have hsound := hc.dies.sound hs
  have hle : c.state.view ≤ m.view := not_lt.1 hold
  have hlater : c.state.enteredView < m.view := by
    rcases haccepts with hlt | ⟨heq, hchanging⟩
    · exact hentered.trans_lt hlt
    · rw [← heq]
      exact hrun.changing hchanging
  rw [wp_bind]
  refine wp_mono ?_ (fun c' hdead => ?_) (installLog_installs m.lastOp m.entries)
  · rintro - _ ⟨hfits, rfl⟩
    obtain ⟨hspans, hlog⟩ := hm.installed hsound hrun hlater (hconnects haccepts) hfits
    rw [wp_bind]
    refine wp_mono (fun _ c₂ hc₂ => ?_) (fun _ hdead => hdead)
      (enterView_enters m.view)
    rw [wp_bind, wp_read, wp_bind, wp_update]
    have hrun' : Runs env h { c₂ with state := { c₂.state with lastOp := m.lastOp } } := by
      refine hc.enter hs hlater hle hspans hlog ⟨hc₂.log, rfl⟩ ?_
      exact ⟨hc₂.view, hc₂.status, hc₂.enteredView, rfl, rfl, hc₂.lastCommitted,
        hc₂.prepareOKQuorum, hc₂.doViewChangeQuorum, hc₂.lastPrepare, hc₂.closing, hc₂.sent,
        hc₂.events⟩
    obtain ⟨l, a, -, -, hop, -, -, hcommitted, hshort⟩ := hm
    rw [wp_bind]
    refine wp_mono (fun _ c₃ hc₃ => ?_) (fun _ hdead => hdead)
      (commitUpTo_runs hs hrun' ?_ ?_)
    · exact wp_mono (fun _ _ h => h.1) (fun _ hdead => hdead)
        (sendPrepareOKs_runs hs _ hc₃.1 (hc₃.2.view.status.trans hc₂.status))
    · show m.lastCommitted ≤ m.lastOp
      omega
    · have hpast : past h (.replica env.myIdx) c₂ = past h (.replica env.myIdx) c := by
        rw [past, past, hc₂.events]
      show Committed env.cfg (past h (.replica env.myIdx) c₂) c₂.state.enteredView m.lastCommitted
      rw [hpast, hc₂.enteredView]
      exact hcommitted
  · rw [hdead]
    exact hc.dies

end Replica

/-! ### The choice of a log -/

/-- The view that the replica had entered last when it gave its log to the choice. -/
def givenBy (j v : ℕ) : Node × Event Op → Option ℕ
  | (.replica i, .contributed v' u _) => if i = j ∧ v' = v then some u else none
  | _ => none

def enteredBefore (h : History Op) (j v : ℕ) : ℕ := (h.findSome? (givenBy j v)).getD 0

section Choice

open Vr.Replica

variable {cfg : Config} {h : History Op} {i j u v : ℕ} {l l' : List (LogEntry Op)}

theorem enteredBefore_eq (hnode : NodeOk cfg h j)
    (hmem : (.replica j, .contributed v u l) ∈ h) : enteredBefore h j v = u := by
  rw [enteredBefore]
  cases hfound : h.findSome? (givenBy j v) with
  | none =>
      have hnone := List.findSome?_eq_none_iff.1 hfound _ hmem
      rw [givenBy, if_pos ⟨rfl, rfl⟩] at hnone
      cases hnone
  | some u' =>
      obtain ⟨x, hx, heq⟩ := List.exists_of_findSome?_eq_some hfound
      obtain ⟨n, e⟩ := x
      cases n with
      | client c => cases heq
      | replica k =>
          cases e with
          | contributed v' u'' l'' =>
              rw [givenBy] at heq
              split_ifs at heq with hcond
              obtain ⟨rfl, rfl⟩ := hcond
              obtain rfl := Option.some.inj heq
              exact (hnode.unique _ _ _ _ _ hmem hx).1
          | _ => cases heq

/-- The order of the viewstamps. -/
def NoLater (a b : ℕ × ℕ) : Prop := a.1 < b.1 ∨ a.1 = b.1 ∧ a.2 ≤ b.2

theorem NoLater.refl (a : ℕ × ℕ) : NoLater a a := .inr ⟨rfl, le_rfl⟩

theorem NoLater.trans {a b d : ℕ × ℕ} (hab : NoLater a b) (hbd : NoLater b d) : NoLater a d := by
  simp only [NoLater] at *
  omega

/-- The log chosen is no earlier than the others. -/
theorem latestLog_latest (log : Log Op) (msgs : List (DoViewChange Op)) :
    NoLater log.lastViewstamp (latestLog log msgs).1 ∧
      ∀ x ∈ msgs, NoLater (x.lastNormalView, x.lastOp) (latestLog log msgs).1 := by
  rw [latestLog]
  induction msgs using List.reverseRecOn with
  | nil => exact ⟨NoLater.refl _, fun x hx => by cases hx⟩
  | append_singleton msgs y ih =>
      rw [List.foldl_concat]
      obtain ⟨hown, hall⟩ := ih
      split_ifs with hlater
      · have hstep : NoLater (msgs.foldl (fun latest x =>
              if latest.1.1 < x.lastNormalView ∨
                  x.lastNormalView = latest.1.1 ∧ latest.1.2 < x.lastOp then
                ((x.lastNormalView, x.lastOp), some x)
              else latest) (log.lastViewstamp, none)).1 (y.lastNormalView, y.lastOp) := by
          rcases hlater with hlt | ⟨heq, hlt⟩
          · exact .inl hlt
          · exact .inr ⟨heq.symm, hlt.le⟩
        refine ⟨hown.trans hstep, fun x hx => ?_⟩
        rcases List.mem_append.1 hx with hold | hnew
        · exact (hall x hold).trans hstep
        · rw [List.mem_singleton.1 hnew]
          exact NoLater.refl _
      · refine ⟨hown, fun x hx => ?_⟩
        rcases List.mem_append.1 hx with hold | hnew
        · exact hall x hold
        · rw [List.mem_singleton.1 hnew]
          simp only [NoLater]
          omega

/-- A message is chosen only if its log is later than the own one. -/
theorem latestLog_later {log : Log Op} {msgs : List (DoViewChange Op)} {p : ℕ × ℕ}
    {x : DoViewChange Op} (hchoice : latestLog log msgs = (p, some x)) :
    ¬NoLater p log.lastViewstamp := by
  rw [latestLog] at hchoice
  induction msgs using List.reverseRecOn generalizing p x with
  | nil => cases hchoice
  | append_singleton msgs y ih =>
      rw [List.foldl_concat] at hchoice
      split_ifs at hchoice with hlater
      · obtain ⟨rfl, -⟩ := Prod.mk.inj hchoice
        have hown := (latestLog_latest log msgs).1
        rw [latestLog] at hown
        simp only [NoLater] at hown ⊢
        omega
      · exact ih hchoice

/-- The viewstamp of a log of a view. -/
theorem LogOf.stamp (hl : LogOf cfg h u l) :
    ({ entries := l } : Log Op).lastViewstamp.2 = l.length ∧
      ({ entries := l } : Log Op).lastViewstamp.1 ≤ u ∧
      ∀ l₀, Vr.begun cfg h u = some l₀ → l₀.length < l.length →
        ({ entries := l } : Log Op).lastViewstamp.1 = u := by
  rcases List.eq_nil_or_concat l with rfl | ⟨front, e, hconcat⟩
  · exact ⟨rfl, Nat.zero_le u, fun l₀ _ hlt => absurd hlt (Nat.not_lt_zero _)⟩
  · rw [List.concat_eq_append] at hconcat
    have hstamp := Log.lastViewstamp_concat (l := { entries := l }) hconcat
    have hlast : l[front.length]? = some e := by
      rw [hconcat, List.getElem?_append_right le_rfl, Nat.sub_self, List.getElem?_cons_zero]
    have hlength : l.length = front.length + 1 := by
      rw [hconcat, List.length_append, List.length_singleton]
    have hop := hl.numbered _ e hlast
    rw [hstamp]
    refine ⟨?_, (hl.entry e (List.mem_of_getElem? hlast)).1, fun l₀ hl₀ hlt => ?_⟩
    · show e.opnum = l.length
      omega
    · obtain ⟨l₁, hl₁, -, hviews⟩ := hl.begun
      obtain rfl := Option.some.inj (hl₀.symm.trans hl₁)
      refine hviews e (List.mem_iff_getElem?.2 ⟨front.length - l₀.length, ?_⟩)
      rw [List.getElem?_drop, ← hlast]
      congr 1
      omega

/-- **Of two logs of a view** the one with the later viewstamp is the longer one. -/
theorem LogOf.length_le (hl : LogOf cfg h u l) (hl' : LogOf cfg h u l')
    (hstamp : NoLater ({ entries := l } : Log Op).lastViewstamp
      ({ entries := l' } : Log Op).lastViewstamp) : l.length ≤ l'.length := by
  by_contra hlonger
  obtain ⟨hnumber, -, hview⟩ := hl.stamp
  obtain ⟨hnumber', hle', -⟩ := hl'.stamp
  obtain ⟨l₀, hl₀, hpre, -⟩ := hl'.begun
  have hbase := hpre.length_le
  rw [requests, List.length_map] at hbase
  have hcurrent := hview l₀ hl₀ (by omega)
  rcases hstamp with hlt | ⟨-, hle⟩
  · omega
  · omega

/-- The view change messages that have arrived. -/
theorem Running.collect {r : Replica σ Op} (hr : Running cfg h i r) {m : DoViewChange Op}
    (hm : DoViewChangeOk cfg h m) :
    Running cfg h i { r with
      doViewChangeQuorum := r.doViewChangeQuorum.add m.view m.replicaIdx m } := by
  refine ⟨hr.log, hr.entered, hr.normal, hr.changing, hr.holds, hr.leads, hr.committed, hr.reached,
    hr.executed, hr.accepted, hr.contributed, hr.started, hr.votes, fun u j x hx => ?_,
    hr.prepare, hr.closing⟩
  have hx : ((r.doViewChangeQuorum.add m.view m.replicaIdx m).getMessages u).lookup j = some x := hx
  rw [Ir.QuorumSet.getMessages_add] at hx
  split_ifs at hx with hu
  · rw [Table.lookup_insert_eq] at hx
    split_ifs at hx with hj
    · obtain rfl := Option.some.inj hx
      exact ⟨hm, hu.symm, hj.symm⟩
    · rw [← hu] at hx
      exact hr.collected u j x hx
  · exact hr.collected u j x hx

/-- The view that the replica whose log is chosen had entered last. -/
def choiceEntered (h : History Op) (r : Replica σ Op) (v : ℕ) : Option (DoViewChange Op) → ℕ
  | none => r.enteredView
  | some x => enteredBefore h x.replicaIdx v

/-- **A choice from the latest view.** If the view change completes, no one whose log was looked at
had entered a later view than the one whose log is chosen. -/
def FromLatest (env : Env σ Op) (h : History Op) (r : Replica σ Op) (m : DoViewChange Op) : Prop :=
  env.cfg.quorumSize - 1 ≤ (votes r m).size →
    r.enteredView ≤ choiceEntered h r m.view
        (latestLog r.log (byReplica env.cfg (votes r m))).2 ∧
      ∀ x ∈ byReplica env.cfg (votes r m), enteredBefore h x.replicaIdx m.view ≤
        choiceEntered h r m.view (latestLog r.log (byReplica env.cfg (votes r m))).2

/-- **The log chosen** is the best one. -/
theorem elected_of_latest {r : Replica σ Op} {msgs : Table ℕ (DoViewChange Op)} {j : ℕ}
    (hnodes : ∀ j, NodeOk cfg h j) (hi : i < cfg.n) (hleader : cfg.leader v = i)
    (hown : (.replica i, .contributed v r.enteredView r.log.entries) ∈ h)
    (hlog : r.log = { entries := r.log.entries })
    (hmsgs : ∀ j x, msgs.lookup j = some x → DoViewChangeOk cfg h x ∧ x.view = v ∧
      x.replicaIdx = j)
    (hquorum : cfg.quorumSize - 1 ≤ msgs.size)
    (hgiven : (.replica j, .contributed v u l) ∈ h) (hj : j = i ∨ j ∈ msgs)
    (hstamp : ({ entries := l } : Log Op).lastViewstamp = (latestLog r.log (byReplica cfg msgs)).1)
    (hentered : r.enteredView ≤ u)
    (hlatest : ∀ x ∈ byReplica cfg msgs, enteredBefore h x.replicaIdx v ≤ u) :
    (record cfg h).Elected (Finset.range cfg.n) cfg.quorumSize v (requests l) := by
  obtain ⟨hstampOwn, hstamps⟩ := latestLog_latest r.log (byReplica cfg msgs)
  have hvote : ∀ k ∈ Votes.heard msgs, ∃ x, msgs.lookup k = some x := fun k hk =>
    Option.isSome_iff_exists.1 (AList.lookup_isSome.2 (Votes.mem_heard.1 hk))
  have hmember : ∀ k ∈ Votes.heard msgs, k < cfg.n ∧ k ≠ i := by
    intro k hk
    obtain ⟨x, hx⟩ := hvote k hk
    obtain ⟨hok, hview, hidx⟩ := hmsgs k x hx
    have hother := hok.2.1
    rw [hview, hidx, hleader] at hother
    exact ⟨hidx ▸ hok.1, hother⟩
  have hchosen := ((hnodes j).event _ hgiven).2
  refine ⟨insert i (Votes.heard msgs), fun k hk => ?_, ?_, u, ⟨j, ?_, l, hgiven, rfl⟩,
    fun k hk => ?_⟩
  · rcases Finset.mem_insert.1 hk with rfl | hk
    · exact Finset.mem_range.2 hi
    · exact Finset.mem_range.2 (hmember k hk).1
  · rw [Finset.card_insert_of_notMem fun hmem => (hmember i hmem).2 rfl, Votes.card_heard]
    omega
  · rcases hj with rfl | hj
    · exact Finset.mem_insert_self _ _
    · exact Finset.mem_insert_of_mem (Votes.mem_heard.2 hj)
  · have hlength : ∀ u' l', (.replica k, .contributed v u' l') ∈ h → u' ≤ u →
        NoLater ({ entries := l' } : Log Op).lastViewstamp
          (latestLog r.log (byReplica cfg msgs)).1 →
        u' < u ∨ u' = u ∧ (requests l').length ≤ (requests l).length := by
      intro u' l' hmem hle hno
      rcases Nat.eq_or_lt_of_le hle with rfl | hlt
      · refine .inr ⟨rfl, ?_⟩
        rw [← hstamp] at hno
        rw [requests, requests, List.length_map, List.length_map]
        exact ((hnodes k).event _ hmem).2.length_le hchosen hno
      · exact .inl hlt
    rcases Finset.mem_insert.1 hk with rfl | hk
    · refine ⟨_, _, ⟨_, hown, rfl⟩, hlength _ _ hown hentered ?_⟩
      rw [← hlog]
      exact hstampOwn
    · obtain ⟨x, hx⟩ := hvote k hk
      obtain ⟨hok, hview, rfl⟩ := hmsgs k x hx
      obtain ⟨hlt, -, u', l', a, hmem, hop, hnormal, -⟩ := hok
      rw [hview] at hmem
      have hin : x ∈ byReplica cfg msgs :=
        List.mem_filterMap.2 ⟨x.replicaIdx, List.mem_range.2 hlt, hx⟩
      have hle := hlatest x hin
      rw [enteredBefore_eq (hnodes _) hmem] at hle
      refine ⟨_, _, ⟨_, hmem, rfl⟩, hlength _ _ hmem hle ?_⟩
      have hpair : ({ entries := l' } : Log Op).lastViewstamp = (x.lastNormalView, x.lastOp) :=
        Prod.ext hnormal.symm (by
          rw [hop]
          exact ((hnodes _).event _ hmem).2.stamp.1)
      rw [hpair]
      exact hstamps x hin

end Choice

namespace Replica

variable {env : Env σ Op} {h : History Op}
  {c c' : Ctx (Replica σ Op) Node (Msg Op) (Event Op)}

/-- **The leader starts the view** with the log that was chosen. -/
theorem Runs.start (hs : Setting env h) (hc : Runs env h c) {v : ℕ} {log : Log Op} {lastOp : ℕ}
    (hlater : c.state.enteredView < v) (hview : c.state.view ≤ v)
    (hleader : env.cfg.leader v = env.myIdx)
    (helected : (record env.cfg (past h (.replica env.myIdx) c)).Elected (Finset.range env.cfg.n)
      env.cfg.quorumSize v (requests log.entries))
    (hspans : log.Spans 1 lastOp)
    (hentry : ∀ e ∈ log.entries, e.view ≤ v ∧ (viewLog env.cfg
      (past h (.replica env.myIdx) c) e.view)[e.opnum - 1]? = some e.request)
    (hsame : c'.state.log = log ∧ c'.state.lastOp = lastOp)
    (hentered : Entered env v { c with state := { c.state with
      log := c'.state.log, lastOp := c'.state.lastOp } } c') :
    Runs env h { c' with events := c'.events ++ [Event.started v log.entries] } ∧
      begun env.cfg (past h (.replica env.myIdx)
        { c' with events := c'.events ++ [Event.started v log.entries] }) v =
          some (requests log.entries) := by
  have hrun := hc.node.2
  have hpast : past h (.replica env.myIdx)
      { c' with events := c'.events ++ [Event.started v log.entries] } =
      past h (.replica env.myIdx) c ++ [(Ir.Node.replica env.myIdx, Event.started v log.entries)] := by
    rw [past_emit, past, past, hentered.events]
  have hpos : v ≠ 0 := by omega
  -- the leader has not started the view before
  have hnone : begun env.cfg (past h (.replica env.myIdx) c) v = none := by
    cases hl : begun env.cfg (past h (.replica env.myIdx) c) v with
    | none => rfl
    | some l =>
        have hstarted := hrun.started v l hleader hl
        omega
  have hbegun := begun_started hpos hnone log.entries
  have hviewLog := viewLog_started hpos hnone
    (proposedIn_eq_nil (by rw [hleader]; exact hc.node.1) hnone) log.entries
  rw [hleader] at hbegun hviewLog
  have hnode : NodeOk env.cfg (past h (.replica env.myIdx) c ++
      [(Ir.Node.replica env.myIdx, Event.started v log.entries)]) env.myIdx :=
    hc.node.1.concat (ViewRecord.Elected.later (record_later _) helected)
      (fun _ _ _ _ _ heq => by cases heq) (fun _ _ _ heq => by cases heq)
  have hdies : Dies env h { c' with events := c'.events ++ [Event.started v log.entries] } := by
    refine ⟨?_, ?_⟩
    · rw [hpast]
      exact hnode
    · rw [hpast]
      show ∀ p ∈ c'.sent, _
      rw [hentered.sent]
      exact fun p hp => (hc.sent p hp).append _
  have hsound := hdies.sound hs
  rw [hpast] at hsound
  refine ⟨⟨?_, hdies.sent⟩, by rw [hpast]; exact hbegun⟩
  rw [hpast]
  refine ⟨hnode, Running.enter hsound hrun (fun x hx => ⟨log.entries, ?_⟩) ?_ ?_ hentered.status
    (hentered.enteredView.trans hentered.view.symm) ?_ ?_ (fun _ => ?_) hentered.lastCommitted
    hentered.prepareOKQuorum hentered.doViewChangeQuorum hentered.lastPrepare fun hrunning => ?_⟩
  · rw [List.mem_singleton.1 hx, hentered.enteredView]
  · rw [hentered.enteredView]
    exact hlater
  · rw [hentered.view]
    exact hview
  · rw [hsame.1, hsame.2]
    exact hspans
  · rw [hentered.enteredView, hsame.1]
    exact LogOf.start hbegun hspans.numbered fun e he =>
      ⟨(hentry e he).1, getElem?_viewLog_append _ (hentry e he).2⟩
  · rw [hentered.enteredView, hsame.1, hviewLog]
  · rw [hentered.view]
    exact hentered.closing hrunning

/-- The leader announces the view. -/
theorem announce_runs (hc : Runs env h c) (hnormal : c.state.status = .normal)
    (hbegun : begun env.cfg (past h (.replica env.myIdx) c) c.state.view =
      some (requests c.state.log.entries)) {first : ℕ}
    (hfirst : first ≤ c.state.log.entries.length) :
    wp (Ctx.read id >>= fun r => sendMessageToAll env (.startView
      { view := r.view
        lastOp := r.lastOp
        lastCommitted := r.lastCommitted
        entries := r.log.dump first })) (fun _ => Runs env h) (Dies env h) c := by
  have hrun := hc.node.2
  have hentered := hrun.normal hnormal
  have hspan := hrun.log.length
  have hexecuted := hrun.committed.1
  rw [wp_bind, wp_read]
  refine wp_mono (fun _ _ h => h.1) (fun _ h => h) (hc.sendMessageToAll fun j =>
    ⟨c.state.log.entries, first, ?_, hbegun, ?_, hfirst, hc.dump first, ?_, ?_⟩)
  · exact hentered ▸ hrun.holds
  · show c.state.lastOp = _
    omega
  · exact hentered ▸ hrun.committed.2
  · show c.state.lastCommitted ≤ _
    omega

theorem past_append {n : Node} {es : List (Event Op)} (he : c'.events = c.events ++ es) :
    past h n c' = past h n c ++ es.map (n, ·) := by
  rw [past, past, he, List.map_append, List.append_assoc]

/-- **The view is started**, and what the leader does then. -/
theorem started_runs (hs : Setting env h) (hc : Runs env h c) {v : ℕ}
    (hchanging : c.state.status = .viewChange) (hview : c.state.view = v)
    (hleader : env.cfg.leader v = env.myIdx) {log : Log Op} {lastOp : ℕ}
    (helected : (record env.cfg (past h (.replica env.myIdx) c ++ [(Ir.Node.replica env.myIdx,
      Event.contributed v c.state.enteredView c.state.log.entries)])).Elected
        (Finset.range env.cfg.n) env.cfg.quorumSize v (requests log.entries))
    (hspans : log.Spans 1 lastOp)
    (hentry : ∀ e ∈ log.entries, e.view ≤ v ∧ (viewLog env.cfg
      (past h (.replica env.myIdx) c) e.view)[e.opnum - 1]? = some e.request)
    {tail : M σ Op Unit} (htail : ∀ c', Runs env h c' → c'.state.status = .normal →
      c'.state.view = v → c'.state.log = log →
      begun env.cfg (past h (.replica env.myIdx) c') v = some (requests log.entries) →
      c'.state.lastCommitted = c.state.lastCommitted →
      (∃ es, past h (.replica env.myIdx) c' = past h (.replica env.myIdx) c ++ es) →
      wp tail (fun _ => Runs env h) (Dies env h) c') :
    wp (Ctx.emit (.contributed v c.state.enteredView c.state.log.entries) >>= fun _ =>
      enterView env v >>= fun _ => Ctx.update (fun r => { r with lastOp := lastOp }) >>= fun _ =>
      Ctx.read (·.log.entries) >>= fun l => Ctx.emit (.started v l) >>= fun _ => tail)
      (fun _ => Runs env h) (Dies env h) { c with state := { c.state with log := log } } := by
  obtain rfl := hview
  have hc' := hc.contribute hchanging
  have hpast : past h (.replica env.myIdx) { c with events := c.events ++
      [.contributed c.state.view c.state.enteredView c.state.log.entries] } =
      past h (.replica env.myIdx) c ++ [(Ir.Node.replica env.myIdx,
        Event.contributed c.state.view c.state.enteredView c.state.log.entries)] := past_emit _
  rw [wp_bind, wp_emit, wp_bind]
  refine wp_mono (fun _ c₂ hc₂ => ?_) (fun _ h => h) (enterView_enters c.state.view)
  rw [wp_bind, wp_update, wp_bind, wp_read, wp_bind, wp_emit]
  have hlog : c₂.state.log = log := hc₂.log
  rw [← hpast] at helected
  obtain ⟨hrun, hbegun⟩ := @Runs.start _ _ _ _ _ { c₂ with state := { c₂.state with
      lastOp := lastOp } } hs hc' _ _ _ (hc.node.2.changing hchanging) le_rfl hleader helected
    hspans (fun e he => ⟨(hentry e he).1, by
      rw [hpast]
      exact getElem?_viewLog_append _ (hentry e he).2⟩) ⟨hlog, rfl⟩
    ⟨hc₂.view, hc₂.status, hc₂.enteredView, rfl, rfl, hc₂.lastCommitted, hc₂.prepareOKQuorum,
      hc₂.doViewChangeQuorum, hc₂.lastPrepare, hc₂.closing, hc₂.sent, hc₂.events⟩
  rw [← hlog] at hrun hbegun
  refine htail _ hrun hc₂.status hc₂.view hlog ?_ hc₂.lastCommitted ?_
  · rw [← hlog]
    exact hbegun
  · have hevents : c₂.events ++ [Event.started c.state.view c₂.state.log.entries] = c.events ++
        ([Event.contributed c.state.view c.state.enteredView c.state.log.entries] ++
          [.started c.state.view c₂.state.log.entries]) := by
      rw [hc₂.events, List.append_assoc]
    exact ⟨_, past_append hevents⟩

/-- **The choice of a log**, and the start of the view with it. -/
theorem collectDoViewChange_runs (hs : Setting env h) (hc : Runs env h c) {m : DoViewChange Op}
    (hchanging : c.state.status = .viewChange) (hview : c.state.view = m.view)
    (hleader : env.cfg.leader m.view = env.myIdx)
    (hm : DoViewChangeOk env.cfg (past h (.replica env.myIdx) c) m)
    (hlatest : FromLatest env (past h (.replica env.myIdx) c) c.state m) {stray : Stray Op}
    (hreads : ReadsChosen env stray c.state m) :
    wp (collectDoViewChange env stray m) (fun _ => Runs env h) (Dies env h) c := by
  have hrun := hc.node.2
  have hexecuted := hrun.committed.1
  have hspan := hrun.log.length
  have hlater : c.state.enteredView < m.view := by
    rw [← hview]
    exact hrun.changing hchanging
  have hc₁ : Runs env h { c with state := { c.state with
      doViewChangeQuorum := c.state.doViewChangeQuorum.add m.view m.replicaIdx m } } :=
    Good.update hc ⟨hc.node.1, hrun.collect hm⟩
  rw [collectDoViewChange, wp_bind, wp_read, wp_bind, wp_update, wp_when]
  refine ⟨fun hquorum => ?_, fun _ => hc₁⟩
  have hquorum : env.cfg.quorumSize - 1 ≤ (votes c.state m).size := of_decide_eq_true hquorum
  obtain ⟨hown, hothers⟩ := hlatest hquorum
  have hreads := hreads hquorum
  -- the messages that the choice is made from
  have hmsgs : ∀ j x, (votes c.state m).lookup j = some x →
      DoViewChangeOk env.cfg (past h (.replica env.myIdx) c) x ∧ x.view = m.view ∧
        x.replicaIdx = j := hc₁.node.2.collected m.view
  have hc₂ := hc₁.contribute hchanging
  have hpast : past h (.replica env.myIdx) { c with
      state := { c.state with
        doViewChangeQuorum := c.state.doViewChangeQuorum.add m.view m.replicaIdx m }
      events := c.events ++
        [Event.contributed c.state.view c.state.enteredView c.state.log.entries] } =
      past h (.replica env.myIdx) c ++ [(Ir.Node.replica env.myIdx,
        Event.contributed m.view c.state.enteredView c.state.log.entries)] := by
    rw [past_emit, hview]
  have hnodes := hc₂.dies.nodes hs
  have hsound := hc₂.dies.sound hs
  rw [hpast] at hnodes hsound
  have hothers' : ∀ x ∈ byReplica env.cfg (votes c.state m),
      enteredBefore (past h (.replica env.myIdx) c ++ [(Ir.Node.replica env.myIdx,
        Event.contributed m.view c.state.enteredView c.state.log.entries)]) x.replicaIdx m.view ≤
      choiceEntered (past h (.replica env.myIdx) c) c.state m.view
        (latestLog c.state.log (byReplica env.cfg (votes c.state m))).2 := by
    intro x hx
    obtain ⟨j, hj⟩ := mem_byReplica hx
    obtain ⟨⟨-, -, u, l, a, hmem, -⟩, hxview, -⟩ := hmsgs j x hj
    rw [hxview] at hmem
    have hle := hothers x hx
    rw [enteredBefore_eq (hc.dies.nodes hs _) hmem] at hle
    rw [enteredBefore_eq (hnodes _) (List.mem_append_left _ hmem)]
    exact hle
  have hgiven : ∀ j x, (votes c.state m).lookup j = some x →
      DoViewChangeOk env.cfg (past h (.replica env.myIdx) c ++ [(Ir.Node.replica env.myIdx,
        Event.contributed m.view c.state.enteredView c.state.log.entries)]) x ∧ x.view = m.view ∧
        x.replicaIdx = j := fun j x hx =>
    ⟨(hmsgs j x hx).1.append _, (hmsgs j x hx).2.1, (hmsgs j x hx).2.2⟩
  have hmin : ∀ first : ℕ, first ≤ c.state.lastCommitted → ∀ c' : Ctx (Replica σ Op) Node (Msg Op)
      (Event Op), Runs env h c' → c'.state.lastCommitted = c.state.lastCommitted →
      first ≤ c'.state.log.entries.length := by
    intro first hfirst c' hc' heq
    have hexecuted' := hc'.node.2.committed.1
    have hspan' := hc'.node.2.log.length
    omega
  rcases latestLog_cases c.state.log (byReplica env.cfg (votes c.state m)) with
    hchoice | ⟨x, hx, hchoice⟩
  · -- the log of the leader
    rw [hchoice] at hown hothers' hreads
    have helected := elected_of_latest hnodes hs.member hleader
      (List.mem_append_right _ (List.mem_singleton_self _)) hc.log_eq hgiven hquorum
      (List.mem_append_right _ (List.mem_singleton_self _)) (.inl rfl)
      (by rw [hchoice, ← hc.log_eq]) le_rfl hothers'
    rw [votes] at hchoice
    rw [id, hchoice]
    show wp (pointedTo stray none >>= _) _ _ _
    rw [pointedTo_eq hreads]
    refine started_runs hs hc₁ hchanging hview hleader helected ?_ (fun e he => ?_)
      fun c' hc' hnormal hview' hlog' hbegun hcommitted _ => ?_
    · have hlast : c.state.log.lastViewstamp.2 = c.state.lastOp := hrun.log.lastOpnum Nat.one_pos
      rw [hlast]
      exact hrun.log
    · exact ⟨(hrun.holds.entry e he).1.trans hlater.le, (hrun.holds.entry e he).2⟩
    · refine announce_runs hc' hnormal ?_ (hmin _ ?_ c' hc' hcommitted)
      · rw [hview', hlog']
        exact hbegun
      · exact (minOf_le _ _).trans (min_le_right _ _)
  · -- the log of another replica
    obtain ⟨j, hj⟩ := mem_byReplica hx
    obtain ⟨hok, hxview, hidx⟩ := hmsgs j x hj
    obtain ⟨-, -, u, l, a, hmem, hop, hstamp, ha, hentries, hxcommitted⟩ := hok
    rw [hxview] at hmem
    have hchosen : choiceEntered (past h (.replica env.myIdx) c) c.state m.view (some x) = u :=
      enteredBefore_eq (hc.dies.nodes hs _) hmem
    rw [hchoice] at hown hothers' hreads
    rw [hchosen] at hown hothers'
    obtain ⟨hu, hl⟩ := (hc.dies.nodes hs x.replicaIdx).event _ hmem
    have helected := elected_of_latest hnodes hs.member hleader
      (List.mem_append_right _ (List.mem_singleton_self _)) hc.log_eq hgiven hquorum
      (List.mem_append_left _ hmem) (.inr (by
        rw [hidx]
        exact AList.lookup_isSome.1 (hj ▸ rfl)))
      (by
        rw [hchoice]
        exact Prod.ext hstamp.symm (hl.stamp.1.trans hop.symm)) hown hothers'
    -- what the leader has executed is in the log that was chosen
    have hagree : (requests c.state.log.entries).take c.state.lastCommitted =
        (requests l).take c.state.lastCommitted := by
      rcases hrun.committed.2 with hzero | ⟨w, hw, hchosen'⟩
      · rw [hzero, List.take_zero, List.take_zero]
      · have hchosen₁ := hchosen'.append [(Ir.Node.replica env.myIdx,
          Event.contributed m.view c.state.enteredView c.state.log.entries)]
        have hpre := ViewRecord.Elected.keeps hsound hchosen₁ helected (by omega)
        have hlength : ((viewLog env.cfg _ w).take c.state.lastCommitted).length =
            c.state.lastCommitted :=
          List.length_take_of_le (ViewRecord.Chosen.le_length hsound hchosen₁)
        have htake := List.prefix_iff_eq_take.1 hpre
        rw [((hrun.holds.append _).take_chosen hsound hchosen₁ hw fun _ => by omega).2]
        exact htake.trans (congrArg (fun k => (requests l).take k) hlength)
    have hne : l.drop (a - 1) ≠ [] := by
      intro hnil
      have hend := List.drop_eq_nil_iff.1 hnil
      have hempty : l = [] := List.length_eq_zero_iff.1 (by omega)
      rw [hempty] at hop hstamp
      refine latestLog_later hchoice ?_
      rw [hop, hstamp]
      simp only [NoLater, List.length_nil]
      show 0 < _ ∨ 0 = _ ∧ 0 ≤ _
      omega
    rw [votes] at hchoice
    rw [id, hchoice]
    show wp (pointedTo stray (some x) >>= _) _ _ _
    rw [pointedTo_eq hreads]
    show wp (installLog x.lastOp x.entries >>= _) _ _ _
    rw [wp_bind]
    refine wp_mono ?_ (fun c' hdead => ?_) (installLog_installs x.lastOp x.entries)
    · rintro - _ ⟨hfits, rfl⟩
      have hfirst := first_le hl.numbered hne (hentries ▸ hfits)
      obtain ⟨hspans, hrequests, hmem'⟩ := hrun.installed_splice hl hne hfirst hagree
      rw [← hop, ← hentries] at hspans hrequests hmem'
      rw [← hrequests] at helected
      refine started_runs hs hc₁ hchanging hview hleader helected hspans (fun e he => ?_)
        fun c' hc' hnormal hview' hlog' hbegun hcommitted' hhistory => ?_
      · rcases hmem' e he with hold | hnew
        · exact ⟨(hrun.holds.entry e hold).1.trans hlater.le, (hrun.holds.entry e hold).2⟩
        · exact ⟨(hl.entry e hnew).1.trans hu.le, (hl.entry e hnew).2⟩
      · have hentered := hc'.node.2.normal hnormal
        obtain ⟨es, hes⟩ := hhistory
        have hxcommitted' : Committed env.cfg (past h (.replica env.myIdx) c') u
            x.lastCommitted := by
          rw [hes]
          exact hxcommitted.append es
        show wp (commitUpTo env x.lastCommitted >>= _) _ _ _
        rw [wp_bind]
        refine wp_mono (fun _ c'' hc'' => ?_) (fun _ h => h) (commitUpTo_runs hs hc'
          (hc'.node.2.behind (hc'.dies.sound hs) hxcommitted' (by omega))
          (hxcommitted'.mono (by omega)))
        obtain ⟨es', hes'⟩ := hc''.2.history
        refine announce_runs hc''.1 (hc''.2.view.status.trans hnormal) ?_ ?_
        · rw [hc''.2.view.view, hview', hc''.2.view.log, hlog', hes']
          exact begun_append hbegun es'
        · rw [hc''.2.view.log]
          exact hmin _ ((minOf_le _ _).trans (min_le_right _ _)) c' hc' hcommitted'
    · rw [hdead]
      exact hc₁.dies

theorem handleDoViewChange_runs (hs : Setting env h) (hc : Runs env h c) {m : DoViewChange Op}
    (hleader : env.cfg.leader m.view = env.myIdx)
    (hm : DoViewChangeOk env.cfg (past h (.replica env.myIdx) c) m)
    {stray : Stray Op} (hlatest : Accepts c.state m.view →
      FromLatest env (past h (.replica env.myIdx) c) c.state m ∧
        ReadsChosen env stray c.state m) :
    wp (handleDoViewChange env stray m) (fun _ => Runs env h) (Dies env h) c := by
  rw [handleDoViewChange, wp_bind, wp_read, wp_ite]
  refine ⟨fun _ => hc, fun hold => ?_⟩
  rw [wp_ite]
  refine ⟨fun _ => hc, fun hsame => ?_⟩
  have haccepts := accepts_of_not hold hsame
  obtain ⟨hlatest, hreads⟩ := hlatest haccepts
  rw [wp_bind, wp_when]
  constructor
  · intro hbegin
    have hbegin : c.state.status ≠ .viewChange ∨ c.state.view < m.view := of_decide_eq_true hbegin
    have hnew : c.state.view < m.view := by
      rcases haccepts with hlt | ⟨-, hchanging⟩
      · exact hlt
      · exact hbegin.resolve_left fun hne => hne hchanging
    refine wp_mono (fun _ c' hc' => ?_) (fun _ h => h) (startViewChange_runs hc hnew)
    obtain ⟨hrun, hview, hchanging, hentered, hlog, -, -, hvotes, hpast⟩ := hc'
    refine collectDoViewChange_runs hs hrun hchanging hview hleader ?_ ?_ ?_
    · rw [hpast]
      exact hm
    · rw [hpast]
      rw [FromLatest, votes] at hlatest ⊢
      rw [hvotes, hlog, hentered]
      intro hquorum
      obtain ⟨hown, hothers⟩ := hlatest hquorum
      cases hchoice : (latestLog c.state.log (byReplica env.cfg
          ((c.state.doViewChangeQuorum.add m.view m.replicaIdx m).getMessages m.view))).2 with
      | none =>
          rw [hchoice] at hown hothers
          simp only [choiceEntered] at hown hothers ⊢
          rw [hentered]
          exact ⟨hown, hothers⟩
      | some x =>
          rw [hchoice] at hown hothers
          exact ⟨hown, hothers⟩
    · rw [ReadsChosen, votes] at hreads ⊢
      rw [hvotes, hlog]
      exact hreads
  · intro hbegin
    have hbegin : ¬(c.state.status ≠ .viewChange ∨ c.state.view < m.view) :=
      of_decide_eq_false hbegin
    have hchanging : c.state.status = .viewChange := not_not.1 fun hne => hbegin (.inl hne)
    have hview : c.state.view = m.view := by
      rcases haccepts with hlt | ⟨heq, -⟩
      · exact absurd (.inr hlt) hbegin
      · exact heq
    exact collectDoViewChange_runs hs hc hchanging hview hleader hm hlatest hreads

end Replica

end D2PC.Vr
