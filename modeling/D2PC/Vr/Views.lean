import D2PC.Lib.Views
import D2PC.Vr.Batches

/-!
# The logs of the views

What the replicas recorded tells the log of every view: the one its leader started it with, and
the requests the leader has numbered since. Only the requests count here. An entry of an older view
that is sent in a batch gets the view of the batch, so the views of the entries may differ between
the replicas.

* `begun`, `viewLog` : the log of a view when it started, and so far;
* `LogOf` : a log that a replica has in a view;
* `EventOk`, `NodeOk` : what holds of the events of a replica;
* `sound` : then the replicas see to what the agreement takes;
* `LogOf.take_chosen` : what is chosen is in the logs of the views from then on.
-/

namespace D2PC.Vr

variable {σ Op : Type}

theorem getElem?_prefix {α : Type} {l l' : List α} {k : ℕ} {a : α} (hl : l <+: l')
    (hk : l[k]? = some a) : l'[k]? = some a := by
  obtain ⟨rest, rfl⟩ := hl
  obtain ⟨hlt, -⟩ := List.getElem?_eq_some_iff.1 hk
  rw [List.getElem?_append_left hlt]
  exact hk

/-! ### The views in the history -/

/-- The requests of a log. -/
def requests (es : List (LogEntry Op)) : List (Request Op) := es.map (·.request)

/-- The log that the leader of the view started it with. -/
def startedWith (cfg : Config) (v : ℕ) : Node × Event Op → Option (List (Request Op))
  | (.replica i, .started v' l) => if i = cfg.leader v ∧ v' = v then some (requests l) else none
  | _ => none

/-- The request that the leader of the view numbered in it. -/
def proposedIn (cfg : Config) (v : ℕ) : Node × Event Op → Option (Request Op)
  | (.replica i, .proposed e) => if i = cfg.leader v ∧ e.view = v then some e.request else none
  | _ => none

/-- The log a view began with, if it has begun. Nobody starts the first one. -/
def begun (cfg : Config) (h : History Op) (v : ℕ) : Option (List (Request Op)) :=
  if v = 0 then some [] else h.findSome? (startedWith cfg v)

/-- The log of a view so far. -/
def viewLog (cfg : Config) (h : History Op) (v : ℕ) : List (Request Op) :=
  match begun cfg h v with
  | none => []
  | some l => l ++ h.filterMap (proposedIn cfg v)

section History

variable {cfg : Config} {h : History Op} {v : ℕ}

theorem viewLog_begun {l : List (Request Op)} (hl : begun cfg h v = some l) :
    viewLog cfg h v = l ++ h.filterMap (proposedIn cfg v) := by
  rw [viewLog, hl]

theorem begun_append {l : List (Request Op)} (hl : begun cfg h v = some l) (es : History Op) :
    begun cfg (h ++ es) v = some l := by
  rw [begun] at hl ⊢
  split_ifs at hl ⊢ with hv
  · exact hl
  · rw [List.findSome?_append, hl]
    rfl

theorem begun_prefix {l : List (Request Op)} (hl : begun cfg h v = some l) :
    l <+: viewLog cfg h v := by
  rw [viewLog_begun hl]
  exact List.prefix_append _ _

/-- The log of a view grows. -/
theorem viewLog_append (es : History Op) : viewLog cfg h v <+: viewLog cfg (h ++ es) v := by
  cases hl : begun cfg h v with
  | none =>
      rw [viewLog, hl]
      exact List.nil_prefix
  | some l =>
      rw [viewLog_begun hl, viewLog_begun (begun_append hl es), List.filterMap_append,
        ← List.append_assoc]
      exact List.prefix_append _ _

theorem getElem?_viewLog_append {k : ℕ} {req : Request Op} (es : History Op)
    (hk : (viewLog cfg h v)[k]? = some req) : (viewLog cfg (h ++ es) v)[k]? = some req :=
  getElem?_prefix (viewLog_append es) hk

/-- Events that neither start the view nor number a request in it. -/
theorem begun_of_quiet {es : History Op} (hes : ∀ x ∈ es, startedWith cfg v x = none) :
    begun cfg (h ++ es) v = begun cfg h v := by
  rw [begun, begun]
  split_ifs
  · rfl
  · rw [List.findSome?_append, List.findSome?_eq_none_iff.2 hes, Option.or_none]

theorem viewLog_of_quiet {es : History Op} (hes : ∀ x ∈ es, startedWith cfg v x = none)
    (hes' : ∀ x ∈ es, proposedIn cfg v x = none) : viewLog cfg (h ++ es) v = viewLog cfg h v := by
  rw [viewLog, viewLog, begun_of_quiet hes, List.filterMap_append,
    List.filterMap_eq_nil_iff.2 hes', List.append_nil]

/-- Only its leader has a say in a view. -/
theorem startedWith_other {n : Node} (hn : n ≠ .replica (cfg.leader v)) (e : Event Op) :
    startedWith cfg v (n, e) = none := by
  cases n with
  | client c => rfl
  | replica i =>
      cases e with
      | started v' l => exact if_neg fun h => hn (congrArg _ h.1)
      | _ => rfl

theorem proposedIn_other {n : Node} (hn : n ≠ .replica (cfg.leader v)) (e : Event Op) :
    proposedIn cfg v (n, e) = none := by
  cases n with
  | client c => rfl
  | replica i =>
      cases e with
      | proposed e => exact if_neg fun h => hn (congrArg _ h.1)
      | _ => rfl

theorem begun_other {n : Node} (hn : n ≠ .replica (cfg.leader v)) (es : List (Event Op)) :
    begun cfg (h ++ es.map (n, ·)) v = begun cfg h v := by
  refine begun_of_quiet fun x hx => ?_
  obtain ⟨e, -, rfl⟩ := List.mem_map.1 hx
  exact startedWith_other hn e

theorem viewLog_other {n : Node} (hn : n ≠ .replica (cfg.leader v)) (es : List (Event Op)) :
    viewLog cfg (h ++ es.map (n, ·)) v = viewLog cfg h v := by
  refine viewLog_of_quiet (fun x hx => ?_) fun x hx => ?_
  · obtain ⟨e, -, rfl⟩ := List.mem_map.1 hx
    exact startedWith_other hn e
  · obtain ⟨e, -, rfl⟩ := List.mem_map.1 hx
    exact proposedIn_other hn e

/-- Only two kinds of events have to do with the logs of the views. -/
def Event.Quiet : Event Op → Prop
  | .proposed _ | .started _ _ => False
  | _ => True

theorem Event.Quiet.begun {e : Event Op} (he : e.Quiet) (n : Node) :
    begun cfg (h ++ [(n, e)]) v = Vr.begun cfg h v := by
  refine begun_of_quiet fun x hx => ?_
  rw [List.mem_singleton.1 hx]
  cases n with
  | client c => rfl
  | replica i =>
      cases e with
      | started v' l => exact he.elim
      | _ => rfl

theorem Event.Quiet.viewLog {e : Event Op} (he : e.Quiet) (n : Node) :
    viewLog cfg (h ++ [(n, e)]) v = Vr.viewLog cfg h v := by
  rw [Vr.viewLog, Vr.viewLog, he.begun n, List.filterMap_append]
  have hnone : [(n, e)].filterMap (proposedIn cfg v) = [] := by
    refine List.filterMap_eq_nil_iff.2 fun x hx => ?_
    rw [List.mem_singleton.1 hx]
    cases n with
    | client c => rfl
    | replica i =>
        cases e with
        | proposed e => exact he.elim
        | _ => rfl
  rw [hnone, List.append_nil]

/-- The leader numbers a request. -/
theorem viewLog_proposed {l : List (Request Op)} {e : LogEntry Op}
    (hl : begun cfg h e.view = some l) :
    viewLog cfg (h ++ [(.replica (cfg.leader e.view), .proposed e)]) e.view =
      viewLog cfg h e.view ++ [e.request] := by
  have hnew : [((.replica (cfg.leader e.view) : Node), Event.proposed e)].filterMap
      (proposedIn cfg e.view) = [e.request] := by
    rw [List.filterMap_cons, proposedIn, if_pos ⟨rfl, rfl⟩]
    rfl
  rw [viewLog_begun hl, viewLog_begun (begun_append hl _), List.filterMap_append, hnew,
    List.append_assoc]

theorem begun_proposed (e : LogEntry Op) (n : Node) :
    begun cfg (h ++ [(n, .proposed e)]) v = begun cfg h v := by
  refine begun_of_quiet fun x hx => ?_
  rw [List.mem_singleton.1 hx]
  cases n <;> rfl

/-- The leader starts the view. -/
theorem begun_started (hv : v ≠ 0) (hnone : begun cfg h v = none) (l : List (LogEntry Op)) :
    begun cfg (h ++ [(.replica (cfg.leader v), .started v l)]) v = some (requests l) := by
  rw [begun, if_neg hv] at hnone ⊢
  rw [List.findSome?_append, hnone, Option.none_or, List.findSome?_cons, startedWith,
    if_pos ⟨rfl, rfl⟩]

theorem viewLog_started (hv : v ≠ 0) (hnone : begun cfg h v = none)
    (hproposed : h.filterMap (proposedIn cfg v) = []) (l : List (LogEntry Op)) :
    viewLog cfg (h ++ [(.replica (cfg.leader v), .started v l)]) v = requests l := by
  have hnew : [((.replica (cfg.leader v) : Node), Event.started v l)].filterMap
      (proposedIn cfg v) = [] := rfl
  rw [viewLog_begun (begun_started hv hnone l), List.filterMap_append, hproposed, hnew,
    List.append_nil, List.append_nil]

end History

/-! ### The record of the group -/

/-- What the replicas recorded of their logs. -/
def record (cfg : Config) (h : History Op) : ViewRecord ℕ (Request Op) where
  base := begun cfg h
  log := viewLog cfg h
  accepted i v k := (.replica i, .accepted v k) ∈ h
  contributed i v u l := ∃ es, (.replica i, .contributed v u es) ∈ h ∧ requests es = l

/-- A quorum has the log of the view up to the number. -/
def Chosen (cfg : Config) (h : History Op) (v k : ℕ) : Prop :=
  (record cfg h).Chosen (Finset.range cfg.n) cfg.quorumSize v k

/-- The operations up to the number were chosen, in no later view. -/
def Committed (cfg : Config) (h : History Op) (v k : ℕ) : Prop :=
  k = 0 ∨ ∃ u ≤ v, Chosen cfg h u k

/-- **A log in a view**: it has what the view began with, goes no further than the leader, and its
entries carry views in which they have their numbers, after the beginning this one. -/
structure LogOf (cfg : Config) (h : History Op) (v : ℕ) (es : List (LogEntry Op)) : Prop where
  numbered : Log.Numbered 1 es
  begun : ∃ l, begun cfg h v = some l ∧ l <+: requests es ∧
    ∀ e ∈ es.drop l.length, e.view = v
  within : requests es <+: viewLog cfg h v
  entry : ∀ e ∈ es, e.view ≤ v ∧ (viewLog cfg h e.view)[e.opnum - 1]? = some e.request

/-- What holds of an event that a replica recorded. -/
def EventOk (cfg : Config) (h : History Op) (i : ℕ) : Event Op → Prop
  | .proposed e => cfg.leader e.view = i ∧ ∃ l, begun cfg h e.view = some l
  | .accepted v k => k ≤ (viewLog cfg h v).length
  | .executed k req => 1 ≤ k ∧ ∃ v l, begun cfg h v = some l ∧ Chosen cfg h v k ∧
      (viewLog cfg h v)[k - 1]? = some req
  | .contributed v u l => u < v ∧ LogOf cfg h u l
  | .started v l => (record cfg h).Elected (Finset.range cfg.n) cfg.quorumSize v (requests l)
  | .requested _ => True

/-- **The events of a replica.** A replica gives no log without what it accepted to the choice for
a later view, and no two logs to the choice for one view. -/
structure NodeOk (cfg : Config) (h : History Op) (i : ℕ) : Prop where
  event : ∀ e, (.replica i, e) ∈ h → EventOk cfg h i e
  kept : ∀ v k v' u l, (.replica i, .accepted v k) ∈ h → (.replica i, .contributed v' u l) ∈ h →
    v < v' → v ≤ u ∧ (v = u → k ≤ l.length)
  unique : ∀ v u l u' l', (.replica i, .contributed v u l) ∈ h →
    (.replica i, .contributed v u' l') ∈ h → u' = u ∧ l' = l

section Record

variable {cfg : Config} {h : History Op} {i v : ℕ}

theorem record_later (es : History Op) : (record cfg h).Later (record cfg (h ++ es)) := by
  refine ⟨fun i v k hk => List.mem_append_left _ hk, fun i v u l hl => ?_⟩
  obtain ⟨es', hmem, heq⟩ := hl
  exact ⟨es', List.mem_append_left _ hmem, heq⟩

theorem Chosen.append {k : ℕ} (hk : Chosen cfg h v k) (es : History Op) :
    Chosen cfg (h ++ es) v k :=
  ViewRecord.Chosen.later (record_later es) hk

theorem Committed.append {k : ℕ} (hk : Committed cfg h v k) (es : History Op) :
    Committed cfg (h ++ es) v k := by
  rcases hk with hzero | ⟨u, hu, hchosen⟩
  · exact .inl hzero
  · exact .inr ⟨u, hu, hchosen.append es⟩

theorem Committed.mono {k v' : ℕ} (hk : Committed cfg h v k) (hle : v ≤ v') :
    Committed cfg h v' k := by
  rcases hk with hzero | ⟨u, hu, hchosen⟩
  · exact .inl hzero
  · exact .inr ⟨u, hu.trans hle, hchosen⟩

theorem LogOf.append {es : List (LogEntry Op)} (hes : LogOf cfg h v es) (h' : History Op) :
    LogOf cfg (h ++ h') v es := by
  obtain ⟨l, hl, hpre, hview⟩ := hes.begun
  refine ⟨hes.numbered, ⟨l, begun_append hl h', hpre, hview⟩, hes.within.trans (viewLog_append h'),
    fun e he => ?_⟩
  obtain ⟨hle, hreq⟩ := hes.entry e he
  exact ⟨hle, getElem?_viewLog_append h' hreq⟩

theorem EventOk.append {e : Event Op} (he : EventOk cfg h i e) (es : History Op) :
    EventOk cfg (h ++ es) i e := by
  cases e with
  | proposed e =>
      obtain ⟨hleader, l, hl⟩ := he
      exact ⟨hleader, l, begun_append hl es⟩
  | accepted v k => exact he.trans (viewLog_append es).length_le
  | executed k req =>
      obtain ⟨hpos, v, l, hl, hchosen, hreq⟩ := he
      exact ⟨hpos, v, l, begun_append hl es, hchosen.append es, getElem?_viewLog_append es hreq⟩
  | contributed v u l => exact ⟨he.1, he.2.append es⟩
  | started v l => exact ViewRecord.Elected.later (record_later es) he
  | requested req => trivial

/-- What others record does not matter. -/
theorem mem_other {n : Node} {e : Event Op} {es : List (Event Op)} (hn : n ≠ .replica i) :
    ((.replica i : Node), e) ∈ h ++ es.map (n, ·) ↔ ((.replica i : Node), e) ∈ h := by
  rw [List.mem_append]
  refine ⟨fun hmem => ?_, .inl⟩
  rcases hmem with hold | hnew
  · exact hold
  · obtain ⟨e', -, heq⟩ := List.mem_map.1 hnew
    exact absurd (Prod.mk.inj heq).1 hn

theorem NodeOk.other (hi : NodeOk cfg h i) {n : Node} (hn : n ≠ .replica i)
    (es : List (Event Op)) : NodeOk cfg (h ++ es.map (n, ·)) i := by
  refine ⟨fun e he => (hi.event e ((mem_other hn).1 he)).append _, ?_, ?_⟩
  · intro v k v' u l hacc hcon
    exact hi.kept v k v' u l ((mem_other hn).1 hacc) ((mem_other hn).1 hcon)
  · intro v u l u' l' hcon hcon'
    exact hi.unique v u l u' l' ((mem_other hn).1 hcon) ((mem_other hn).1 hcon')

theorem mem_concat {e e' : Event Op} :
    ((.replica i : Node), e) ∈ h ++ [((.replica i : Node), e')] ↔
      ((.replica i : Node), e) ∈ h ∨ e = e' := by
  rw [List.mem_append, List.mem_singleton, Prod.mk.injEq]
  exact or_congr_right (and_iff_right rfl)

/-- One more event. -/
theorem NodeOk.concat (hi : NodeOk cfg h i) {e : Event Op}
    (he : EventOk cfg (h ++ [(.replica i, e)]) i e)
    (hacc : ∀ v k v' u l, e = .accepted v k → (.replica i, .contributed v' u l) ∈ h → v' ≤ v)
    (hcon : ∀ v u l, e = .contributed v u l →
      (∀ v' k, (.replica i, .accepted v' k) ∈ h → v' < v → v' ≤ u ∧ (v' = u → k ≤ l.length)) ∧
      ∀ u' l', (.replica i, .contributed v u' l') ∈ h → u' = u ∧ l' = l) :
    NodeOk cfg (h ++ [(.replica i, e)]) i := by
  refine ⟨fun e' he' => ?_, fun v k v' u l hk hl hlt => ?_, fun v u l u' l' hl hl' => ?_⟩
  · rcases mem_concat.1 he' with hold | rfl
    · exact (hi.event e' hold).append _
    · exact he
  · rcases mem_concat.1 hk with hk | hk
    · rcases mem_concat.1 hl with hl | hl
      · exact hi.kept v k v' u l hk hl hlt
      · exact (hcon v' u l hl.symm).1 v k hk hlt
    · rcases mem_concat.1 hl with hl | hl
      · exact absurd hlt (not_lt.2 (hacc v k v' u l hk.symm hl))
      · rw [← hk] at hl
        cases hl
  · rcases mem_concat.1 hl with hl | hl
    · rcases mem_concat.1 hl' with hl' | hl'
      · exact hi.unique v u l u' l' hl hl'
      · obtain ⟨hu, hlog⟩ := (hcon v u' l' hl'.symm).2 u l hl
        exact ⟨hu.symm, hlog.symm⟩
    · rcases mem_concat.1 hl' with hl' | hl'
      · exact (hcon v u l hl.symm).2 u' l' hl'
      · rw [← hl] at hl'
        cases hl'
        exact ⟨rfl, rfl⟩

/-- A view whose leader started it has a log. -/
theorem exists_started {l : List (Request Op)} (hl : begun cfg h v = some l) (hv : 0 < v) :
    ∃ es, ((.replica (cfg.leader v) : Node), .started v es) ∈ h ∧ requests es = l := by
  rw [begun, if_neg (Nat.ne_of_gt hv)] at hl
  obtain ⟨x, hx, heq⟩ := List.exists_of_findSome?_eq_some hl
  obtain ⟨n, e⟩ := x
  cases n with
  | client c => cases heq
  | replica i =>
      cases e with
      | started v' es =>
          rw [startedWith] at heq
          split_ifs at heq with hcond
          obtain ⟨rfl, rfl⟩ := hcond
          exact ⟨es, hx, Option.some.inj heq⟩
      | _ => cases heq

/-- No requests are numbered in a view that has not begun. -/
theorem proposedIn_eq_nil (hnode : NodeOk cfg h (cfg.leader v)) (hnone : begun cfg h v = none) :
    h.filterMap (proposedIn cfg v) = [] := by
  refine List.filterMap_eq_nil_iff.2 fun x hx => ?_
  obtain ⟨n, e⟩ := x
  cases n with
  | client c => rfl
  | replica i =>
      cases e with
      | proposed e =>
          refine if_neg fun hcond => ?_
          obtain ⟨rfl, rfl⟩ := hcond
          obtain ⟨-, l, hl⟩ := hnode.event _ hx
          rw [hnone] at hl
          cases hl
      | _ => rfl

/-- **The replicas see to what the agreement takes.** -/
theorem sound (hcfg : cfg.n = 2 * cfg.f + 1) (hnodes : ∀ i, NodeOk cfg h i) :
    (record cfg h).Sound (Finset.range cfg.n) cfg.quorumSize := by
  refine ⟨?_, fun v l hl => begun_prefix hl, fun i v k hk => (hnodes i).event _ hk, ?_, ?_, ?_⟩
  · rw [Finset.card_range, Ir.Config.quorumSize]
    omega
  · intro i v u l hl
    obtain ⟨es, hmem, rfl⟩ := hl
    obtain ⟨hlt, hlog⟩ := (hnodes i).event _ hmem
    obtain ⟨l₀, hl₀, hpre, -⟩ := hlog.begun
    exact ⟨hlt, ⟨l₀, hl₀, hpre⟩, hlog.within⟩
  · intro i v k v' u l hk hl hlt
    obtain ⟨es, hmem, rfl⟩ := hl
    rw [requests, List.length_map]
    exact (hnodes i).kept v k v' u es hk hmem hlt
  · intro v l hl hv
    obtain ⟨es, hmem, rfl⟩ := exists_started hl hv
    exact (hnodes _).event _ hmem

/-- **What is chosen** is in the logs of the views from then on. -/
theorem LogOf.take_chosen (hsound : (record cfg h).Sound (Finset.range cfg.n) cfg.quorumSize)
    {es : List (LogEntry Op)} (hes : LogOf cfg h v es) {u k : ℕ} (hchosen : Chosen cfg h u k)
    (hu : u ≤ v) (hk : u = v → k ≤ es.length) :
    k ≤ es.length ∧ (requests es).take k = (viewLog cfg h u).take k := by
  obtain ⟨l, hl, hpre, -⟩ := hes.begun
  have hlen : ((viewLog cfg h u).take k).length = k :=
    List.length_take_of_le (ViewRecord.Chosen.le_length hsound hchosen)
  have hlong : k ≤ es.length := by
    rcases Nat.eq_or_lt_of_le hu with heq | hlt
    · exact hk heq
    · have hbase := (hsound.base_keeps hchosen hl hlt).trans hpre
      have hle := hbase.length_le
      rw [requests, List.length_map] at hle
      exact hlen ▸ hle
  refine ⟨hlong, ?_⟩
  have hin : (viewLog cfg h u).take k <+: viewLog cfg h v :=
    ViewRecord.Chosen.prefix_log hsound hchosen hl hu
  have hin' : (viewLog cfg h u).take k <+: requests es :=
    List.prefix_of_prefix_length_le hin hes.within (by
      rw [requests, List.length_map]
      exact hlen.symm ▸ hlong)
  have heq := List.prefix_iff_eq_take.1 hin'
  rw [hlen] at heq
  exact heq.symm

/-- Two logs agree on what was chosen before. -/
theorem LogOf.agree (hsound : (record cfg h).Sound (Finset.range cfg.n) cfg.quorumSize)
    {es es' : List (LogEntry Op)} {v' : ℕ} (hes : LogOf cfg h v es) (hes' : LogOf cfg h v' es')
    {u k : ℕ} (hk : Committed cfg h u k) (hu : u ≤ v) (hu' : u ≤ v') (hlen : k ≤ es.length)
    (hlen' : k ≤ es'.length) : (requests es).take k = (requests es').take k := by
  rcases hk with rfl | ⟨w, hw, hchosen⟩
  · rfl
  · rw [(hes.take_chosen hsound hchosen (hw.trans hu) fun _ => hlen).2,
      (hes'.take_chosen hsound hchosen (hw.trans hu') fun _ => hlen').2]

end Record

end D2PC.Vr
