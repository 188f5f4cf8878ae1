import D2PC.Lib.Votes
import D2PC.Vr.Views

/-!
# A replica in its view

What a running replica holds on to, and what its messages say, in terms of the logs of the views.

* `Running` : what holds of a replica that is alive;
* `PacketOk` : what holds of a packet;
* `Running.enter` : a replica goes on to a later view with a log of it;
* `commitUpTo_runs`, `sendPrepareOKs_runs` : operations are executed, and the leader is told of them;
* `handleRequest_runs`, `handlePrepare_runs`, `handlePrepareOK_runs`, ... : the handlers that stay
  in the view.
-/

namespace D2PC.Vr

open Ctx Prog

variable {σ Op : Type}

/-! ### Messages -/

/-- A prepare message has the requests of the view from the start of the batch on. -/
structure PrepareOk (cfg : Config) (h : History Op) (m : Prepare Op) : Prop where
  opnum : m.opnum ≤ (viewLog cfg h m.view).length
  request : m.request = ((viewLog cfg h m.view).take m.opnum).drop (m.batchstart - 1)
  start : 1 ≤ m.batchstart ∨ m.opnum = 0

/-- A state transfer goes on where the replica that asked for it was. -/
def StateTransferOk (cfg : Config) (h : History Op) (dst : Node) (m : StateTransfer Op) : Prop :=
  ∃ l a j, LogOf cfg h m.view l ∧ m.entries = l.drop a ∧ m.opnum ≤ l.length ∧
    Committed cfg h m.view m.opnum ∧ dst = .replica j ∧
    (a = 0 ∨ ∃ req, (.replica j, .executed a req) ∈ h)

/-- A view change message has the end of the log that the replica gave to the choice. -/
def DoViewChangeOk (cfg : Config) (h : History Op) (m : DoViewChange Op) : Prop :=
  m.replicaIdx < cfg.n ∧ m.replicaIdx ≠ cfg.leader m.view ∧
    ∃ u l a, (.replica m.replicaIdx, .contributed m.view u l) ∈ h ∧ m.lastOp = l.length ∧
      m.lastNormalView = ({ entries := l } : Log Op).lastViewstamp.1 ∧ a ≤ l.length ∧
      m.entries = l.drop (a - 1) ∧ Committed cfg h u m.lastCommitted

/-- A view is started with the end of its first log. -/
def StartViewOk (cfg : Config) (h : History Op) (m : StartView Op) : Prop :=
  ∃ l a, LogOf cfg h m.view l ∧ begun cfg h m.view = some (requests l) ∧ m.lastOp = l.length ∧
    a ≤ l.length ∧ m.entries = l.drop (a - 1) ∧ Committed cfg h m.view m.lastCommitted ∧
    m.lastCommitted ≤ l.length

/-- What holds of a packet. -/
def PacketOk (cfg : Config) (h : History Op) (p : Packet Node (Msg Op)) : Prop :=
  match p.msg with
  | .prepare m => PrepareOk cfg h m
  | .prepareOK v k j => j < cfg.n ∧ (.replica j, .accepted v k) ∈ h
  | .commit v k => Committed cfg h v k
  | .requestStateTransfer _ k =>
      ∃ j, p.src = .replica j ∧ (k = 0 ∨ ∃ req, (.replica j, .executed k req) ∈ h)
  | .stateTransfer m => StateTransferOk cfg h p.dst m
  | .doViewChange m => p.dst = .replica (cfg.leader m.view) ∧ DoViewChangeOk cfg h m
  | .startView m => StartViewOk cfg h m
  | _ => True

/-! ### The invariant -/

/-- **A running replica.** It has a log of the view it entered last, and the whole log of a view
that it leads; it executed what was chosen, and the messages it keeps are good. -/
structure Running (cfg : Config) (h : History Op) (i : ℕ) (r : Replica σ Op) : Prop where
  log : r.log.Spans 1 r.lastOp
  entered : r.enteredView ≤ r.view
  normal : r.status = .normal → r.enteredView = r.view
  changing : r.status = .viewChange → r.enteredView < r.view
  holds : LogOf cfg h r.enteredView r.log.entries
  leads : cfg.leader r.enteredView = i → requests r.log.entries = viewLog cfg h r.enteredView
  committed : r.lastCommitted ≤ r.lastOp ∧ Committed cfg h r.enteredView r.lastCommitted
  reached : r.lastCommitted = 0 ∨ ∃ req, (.replica i, .executed r.lastCommitted req) ∈ h
  executed : ∀ k req, (.replica i, .executed k req) ∈ h → k ≤ r.lastCommitted
  accepted : ∀ v k, (.replica i, .accepted v k) ∈ h →
    v ≤ r.enteredView ∧ (v = r.enteredView → k ≤ r.lastOp)
  contributed : ∀ v u l, (.replica i, .contributed v u l) ∈ h → v ≤ r.view ∧
    (r.status = .viewChange → v = r.view → u = r.enteredView ∧ l = r.log.entries)
  started : ∀ v l, cfg.leader v = i → begun cfg h v = some l → v ≤ r.enteredView
  votes : ∀ v k j, ((r.prepareOKQuorum.getMessages (v, k)).lookup j).isSome →
    j < cfg.n ∧ j ≠ i ∧ (.replica j, .accepted v k) ∈ h
  collected : ∀ u j m, (r.doViewChangeQuorum.getMessages u).lookup j = some m →
    DoViewChangeOk cfg h m ∧ m.view = u ∧ m.replicaIdx = j
  prepare : PrepareOk cfg h r.lastPrepare
  closing : r.closeBatchTimeout = true → r.status = .normal ∧ cfg.leader r.view = i

/-- What the invariant does not speak of. -/
structure SameRun (r r' : Replica σ Op) : Prop where
  log : r'.log = r.log
  lastOp : r'.lastOp = r.lastOp
  status : r'.status = r.status
  view : r'.view = r.view
  enteredView : r'.enteredView = r.enteredView
  lastCommitted : r'.lastCommitted = r.lastCommitted
  prepareOKQuorum : r'.prepareOKQuorum = r.prepareOKQuorum
  doViewChangeQuorum : r'.doViewChangeQuorum = r.doViewChangeQuorum
  lastPrepare : r'.lastPrepare = r.lastPrepare
  closing : r'.closeBatchTimeout = r.closeBatchTimeout

/-- The replica is where it was in its view. -/
structure SameView (r r' : Replica σ Op) : Prop where
  log : r'.log = r.log
  lastOp : r'.lastOp = r.lastOp
  status : r'.status = r.status
  view : r'.view = r.view
  enteredView : r'.enteredView = r.enteredView

theorem SameView.refl (r : Replica σ Op) : SameView r r := ⟨rfl, rfl, rfl, rfl, rfl⟩

theorem SameView.trans {r r' r'' : Replica σ Op} (h : SameView r r') (h' : SameView r' r'') :
    SameView r r'' :=
  ⟨h'.log.trans h.log, h'.lastOp.trans h.lastOp, h'.status.trans h.status, h'.view.trans h.view,
    h'.enteredView.trans h.enteredView⟩

section Invariant

variable {cfg : Config} {h : History Op} {i : ℕ}

theorem PrepareOk.append {m : Prepare Op} (hm : PrepareOk cfg h m) (es : History Op) :
    PrepareOk cfg (h ++ es) m := by
  have hgrown : viewLog cfg h m.view <+: viewLog cfg (h ++ es) m.view := viewLog_append es
  refine ⟨hm.opnum.trans hgrown.length_le, ?_, hm.start⟩
  obtain ⟨rest, hrest⟩ := hgrown
  rw [← hrest, List.take_append_of_le_length hm.opnum]
  exact hm.request

theorem StateTransferOk.append {dst : Node} {m : StateTransfer Op}
    (hm : StateTransferOk cfg h dst m) (es : History Op) :
    StateTransferOk cfg (h ++ es) dst m := by
  obtain ⟨l, a, j, hl, hentries, hop, hcommitted, hdst, ha⟩ := hm
  refine ⟨l, a, j, hl.append es, hentries, hop, hcommitted.append es, hdst, ?_⟩
  rcases ha with hzero | ⟨req, hreq⟩
  · exact .inl hzero
  · exact .inr ⟨req, List.mem_append_left _ hreq⟩

theorem DoViewChangeOk.append {m : DoViewChange Op} (hm : DoViewChangeOk cfg h m)
    (es : History Op) : DoViewChangeOk cfg (h ++ es) m := by
  obtain ⟨hmember, hother, u, l, a, hcon, hop, hview, ha, hentries, hcommitted⟩ := hm
  exact ⟨hmember, hother, u, l, a, List.mem_append_left _ hcon, hop, hview, ha, hentries,
    hcommitted.append es⟩

theorem StartViewOk.append {m : StartView Op} (hm : StartViewOk cfg h m) (es : History Op) :
    StartViewOk cfg (h ++ es) m := by
  obtain ⟨l, a, hl, hbegun, hop, ha, hentries, hcommitted, hle⟩ := hm
  exact ⟨l, a, hl.append es, begun_append hbegun es, hop, ha, hentries, hcommitted.append es, hle⟩

theorem PacketOk.append {p : Packet Node (Msg Op)} (hp : PacketOk cfg h p) (es : History Op) :
    PacketOk cfg (h ++ es) p := by
  obtain ⟨src, dst, msg⟩ := p
  cases msg with
  | prepare m => exact PrepareOk.append hp es
  | prepareOK v k j => exact ⟨hp.1, List.mem_append_left _ hp.2⟩
  | commit v k => exact Committed.append hp es
  | requestStateTransfer v k =>
      obtain ⟨j, hsrc, hk⟩ := hp
      rcases hk with hzero | ⟨req, hreq⟩
      · exact ⟨j, hsrc, .inl hzero⟩
      · exact ⟨j, hsrc, .inr ⟨req, List.mem_append_left _ hreq⟩⟩
  | stateTransfer m => exact StateTransferOk.append hp es
  | doViewChange m => exact ⟨hp.1, hp.2.append es⟩
  | startView m => exact StartViewOk.append hp es
  | request _ | reply _ | startViewChange _ _ _ => trivial

theorem packetOk_append (cfg : Config) (h es : History Op) (p : Packet Node (Msg Op))
    (hp : PacketOk cfg h p) : PacketOk cfg (h ++ es) p :=
  hp.append es

theorem Running.same {r r' : Replica σ Op} (hr : Running cfg h i r) (hs : SameRun r r') :
    Running cfg h i r' := by
  obtain ⟨hlog, hlastOp, hstatus, hview, hentered, hcommitted, hok, hchange, hprepare, hclosing⟩ :=
    hs
  constructor
  · rw [hlog, hlastOp]; exact hr.log
  · rw [hentered, hview]; exact hr.entered
  · rw [hentered, hview, hstatus]; exact hr.normal
  · rw [hentered, hview, hstatus]; exact hr.changing
  · rw [hentered, hlog]; exact hr.holds
  · rw [hentered, hlog]; exact hr.leads
  · rw [hentered, hcommitted, hlastOp]; exact hr.committed
  · rw [hcommitted]; exact hr.reached
  · rw [hcommitted]; exact hr.executed
  · rw [hentered, hlastOp]; exact hr.accepted
  · rw [hentered, hview, hstatus, hlog]; exact hr.contributed
  · rw [hentered]; exact hr.started
  · rw [hok]; exact hr.votes
  · rw [hchange]; exact hr.collected
  · rw [hprepare]; exact hr.prepare
  · rw [hclosing, hstatus, hview]; exact hr.closing

/-- A replica does not notice what others record. -/
theorem Running.other {r : Replica σ Op} (hr : Running cfg h i r) {n : Node}
    (hn : n ≠ .replica i) (es : List (Event Op)) : Running cfg (h ++ es.map (n, ·)) i r := by
  refine ⟨hr.log, hr.entered, hr.normal, hr.changing, hr.holds.append _, fun hleader => ?_,
    ⟨hr.committed.1, hr.committed.2.append _⟩, ?_, fun k req hk => ?_, fun v k hk => ?_,
    fun v u l hl => ?_, fun v l hleader hl => ?_, fun v k j hj => ?_, fun u j m hm => ?_,
    hr.prepare.append _, hr.closing⟩
  · rw [viewLog_other (hleader.symm ▸ hn)]
    exact hr.leads hleader
  · rcases hr.reached with hzero | ⟨req, hreq⟩
    · exact .inl hzero
    · exact .inr ⟨req, List.mem_append_left _ hreq⟩
  · exact hr.executed k req ((mem_other hn).1 hk)
  · exact hr.accepted v k ((mem_other hn).1 hk)
  · exact hr.contributed v u l ((mem_other hn).1 hl)
  · rw [begun_other (hleader.symm ▸ hn)] at hl
    exact hr.started v l hleader hl
  · obtain ⟨hmember, hother, hmem⟩ := hr.votes v k j hj
    exact ⟨hmember, hother, List.mem_append_left _ hmem⟩
  · obtain ⟨hok, hview, hidx⟩ := hr.collected u j m hm
    exact ⟨hok.append _, hview, hidx⟩

/-- What a replica records while it stays where it is. -/
def Event.Fits (r : Replica σ Op) : Event Op → Prop
  | .accepted v k => v ≤ r.enteredView ∧ (v = r.enteredView → k ≤ r.lastOp)
  | .executed k _ => k ≤ r.lastCommitted
  | .contributed v u l => v ≤ r.view ∧
      (r.status = .viewChange → v = r.view → u = r.enteredView ∧ l = r.log.entries)
  | _ => False

theorem Running.concat {r : Replica σ Op} (hr : Running cfg h i r) {e : Event Op}
    (he : e.Fits r) : Running cfg (h ++ [(.replica i, e)]) i r := by
  have hquiet : e.Quiet := by
    cases e with
    | proposed e => exact he.elim
    | started v l => exact he.elim
    | accepted v k => trivial
    | executed k req => trivial
    | contributed v u l => trivial
    | requested req => exact he.elim
  refine ⟨hr.log, hr.entered, hr.normal, hr.changing, hr.holds.append _, fun hleader => ?_,
    ⟨hr.committed.1, hr.committed.2.append _⟩, ?_, fun k req hk => ?_, fun v k hk => ?_,
    fun v u l hl => ?_, fun v l hleader hl => ?_, fun v k j hj => ?_, fun u j m hm => ?_,
    hr.prepare.append _, hr.closing⟩
  · rw [hquiet.viewLog]
    exact hr.leads hleader
  · rcases hr.reached with hzero | ⟨req, hreq⟩
    · exact .inl hzero
    · exact .inr ⟨req, List.mem_append_left _ hreq⟩
  · rcases mem_concat.1 hk with hk | rfl
    · exact hr.executed k req hk
    · exact he
  · rcases mem_concat.1 hk with hk | rfl
    · exact hr.accepted v k hk
    · exact he
  · rcases mem_concat.1 hl with hl | rfl
    · exact hr.contributed v u l hl
    · exact he
  · rw [hquiet.begun] at hl
    exact hr.started v l hleader hl
  · obtain ⟨hmember, hother, hmem⟩ := hr.votes v k j hj
    exact ⟨hmember, hother, List.mem_append_left _ hmem⟩
  · obtain ⟨hok, hview, hidx⟩ := hr.collected u j m hm
    exact ⟨hok.append _, hview, hidx⟩

/-- **A later view.** The replica goes on with a log of it, and with nothing collected. It may have
started the view. -/
theorem Running.enter {es : History Op}
    (hsound : (record cfg (h ++ es)).Sound (Finset.range cfg.n) cfg.quorumSize)
    {r r' : Replica σ Op} (hr : Running cfg h i r)
    (hes : ∀ x ∈ es, ∃ l, x = (.replica i, .started r'.enteredView l))
    (hlater : r.enteredView < r'.enteredView) (hview : r.view ≤ r'.view)
    (hstatus : r'.status = .normal) (hentered : r'.enteredView = r'.view)
    (hlog : r'.log.Spans 1 r'.lastOp) (hholds : LogOf cfg (h ++ es) r'.enteredView r'.log.entries)
    (hleads : cfg.leader r'.enteredView = i →
      requests r'.log.entries = viewLog cfg (h ++ es) r'.enteredView)
    (hcommitted : r'.lastCommitted = r.lastCommitted) (hok : r'.prepareOKQuorum = ∅)
    (hchange : r'.doViewChangeQuorum = ∅) (hprepare : r'.lastPrepare = r.lastPrepare)
    (hclosing : r'.closeBatchTimeout = true → cfg.leader r'.view = i) :
    Running cfg (h ++ es) i r' := by
  have hlen := hlog.length
  have hle : r.lastCommitted ≤ r'.log.entries.length := by
    rcases hr.committed.2 with hzero | ⟨u, hu, hchosen⟩
    · rw [hzero]
      exact Nat.zero_le _
    · exact (hholds.take_chosen hsound (hchosen.append es) (by omega) fun heq => by omega).1
  -- nothing else was recorded
  have hmem : ∀ e, (∀ l, e ≠ .started r'.enteredView l) → (.replica i, e) ∈ h ++ es →
      ((.replica i : Node), e) ∈ h := by
    intro e he hmem
    rcases List.mem_append.1 hmem with hold | hnew
    · exact hold
    · obtain ⟨l, heq⟩ := hes _ hnew
      exact absurd (Prod.mk.inj heq).2 (he l)
  refine ⟨hlog, hentered.le, fun _ => hentered, fun hch => ?_, hholds, hleads, ⟨?_, ?_⟩, ?_,
    fun k req hk => ?_, fun v k hk => ?_, fun v u l hl => ⟨?_, fun hch => ?_⟩,
    fun v l hleader hl => ?_, fun v k j hj => ?_, fun u j m hm => ?_, ?_,
    fun hc => ⟨hstatus, hclosing hc⟩⟩
  · rw [hstatus] at hch
    cases hch
  · omega
  · rw [hcommitted]
    exact (hr.committed.2.mono hlater.le).append es
  · rw [hcommitted]
    rcases hr.reached with hzero | ⟨req, hreq⟩
    · exact .inl hzero
    · exact .inr ⟨req, List.mem_append_left _ hreq⟩
  · rw [hcommitted]
    exact hr.executed k req (hmem _ (fun _ heq => by cases heq) hk)
  · have hv := (hr.accepted v k (hmem _ (fun _ heq => by cases heq) hk)).1
    exact ⟨by omega, fun heq => by omega⟩
  · exact (hr.contributed v u l (hmem _ (fun _ heq => by cases heq) hl)).1.trans hview
  · rw [hstatus] at hch
    cases hch
  · by_cases hv : v = r'.enteredView
    · exact hv.le
    · rw [begun_of_quiet fun x hx => ?_] at hl
      · exact (hr.started v l hleader hl).trans hlater.le
      · obtain ⟨l', rfl⟩ := hes x hx
        exact if_neg fun hcond => hv hcond.2.symm
  · rw [hok] at hj
    cases hj
  · rw [hchange] at hm
    cases hm
  · rw [hprepare]
    exact hr.prepare.append es

/-- The next operation is executed. -/
theorem Running.commit {r : Replica σ Op} (hr : Running cfg h i r)
    (hle : r.lastCommitted + 1 ≤ r.lastOp)
    (hcommitted : Committed cfg h r.enteredView (r.lastCommitted + 1)) (req : Request Op) :
    Running cfg (h ++ [(.replica i, .executed (r.lastCommitted + 1) req)]) i
      { r with lastCommitted := r.lastCommitted + 1 } := by
  have hquiet : (Event.executed (r.lastCommitted + 1) req).Quiet := trivial
  refine ⟨hr.log, hr.entered, hr.normal, hr.changing, hr.holds.append _, fun hleader => ?_,
    ⟨hle, hcommitted.append _⟩, .inr ⟨req, mem_concat.2 (.inr rfl)⟩, fun k req' hk => ?_,
    fun v k hk => ?_, fun v u l hl => ?_, fun v l hleader hl => ?_, fun v k j hj => ?_,
    fun u j m hm => ?_, hr.prepare.append _, hr.closing⟩
  · rw [hquiet.viewLog]
    exact hr.leads hleader
  · rcases mem_concat.1 hk with hk | hk
    · exact Nat.le_succ_of_le (hr.executed k req' hk)
    · cases hk
      exact le_rfl
  · rcases mem_concat.1 hk with hk | hk
    · exact hr.accepted v k hk
    · cases hk
  · rcases mem_concat.1 hl with hl | hl
    · exact hr.contributed v u l hl
    · cases hl
  · rw [hquiet.begun] at hl
    exact hr.started v l hleader hl
  · obtain ⟨hmember, hother, hmem⟩ := hr.votes v k j hj
    exact ⟨hmember, hother, List.mem_append_left _ hmem⟩
  · obtain ⟨hok, hview, hidx⟩ := hr.collected u j m hm
    exact ⟨hok.append _, hview, hidx⟩

theorem Committed.le {v k k' : ℕ} (hk : Committed cfg h v k) (hle : k' ≤ k) :
    Committed cfg h v k' := by
  rcases hk with hzero | ⟨u, hu, hchosen⟩
  · exact .inl (by omega)
  · exact .inr ⟨u, hu, ViewRecord.Chosen.mono hchosen hle⟩

/-- Another replica told the leader what it has. -/
theorem Running.vote {r : Replica σ Op} (hr : Running cfg h i r) {v k j : ℕ} (hj : j < cfg.n)
    (hother : j ≠ i) (hmem : (.replica j, .accepted v k) ∈ h) :
    Running cfg h i { r with prepareOKQuorum := r.prepareOKQuorum.add (v, k) j () } := by
  refine ⟨hr.log, hr.entered, hr.normal, hr.changing, hr.holds, hr.leads, hr.committed, hr.reached,
    hr.executed, hr.accepted, hr.contributed, hr.started, fun v' k' j' hj' => ?_, hr.collected,
    hr.prepare, hr.closing⟩
  have hj' : (((r.prepareOKQuorum.add (v, k) j ()).getMessages (v', k')).lookup j').isSome := hj'
  rw [Ir.QuorumSet.getMessages_add] at hj'
  split_ifs at hj' with heq
  · obtain ⟨rfl, rfl⟩ := Prod.mk.inj heq
    rw [Table.lookup_insert_eq] at hj'
    split_ifs at hj' with hidx
    · rw [hidx]
      exact ⟨hj, hother, hmem⟩
    · exact hr.votes v' k' j' hj'
  · exact hr.votes v' k' j' hj'

/-- **A quorum**: the leader and as many others as it takes. -/
theorem Running.chosen {r : Replica σ Op} (hr : Running cfg h i r) {v k : ℕ} (hi : i < cfg.n)
    (hown : (.replica i, .accepted v k) ∈ h)
    (hquorum : cfg.quorumSize - 1 ≤ (r.prepareOKQuorum.getMessages (v, k)).size) :
    Chosen cfg h v k := by
  have hvote : ∀ j ∈ Votes.heard (r.prepareOKQuorum.getMessages (v, k)),
      j < cfg.n ∧ j ≠ i ∧ (.replica j, .accepted v k) ∈ h := by
    intro j hj
    exact hr.votes v k j (AList.lookup_isSome.2 (Votes.mem_heard.1 hj))
  refine ⟨insert i (Votes.heard (r.prepareOKQuorum.getMessages (v, k))), fun j hj => ?_, ?_,
    fun j hj => ⟨k, le_rfl, ?_⟩⟩
  · rcases Finset.mem_insert.1 hj with rfl | hj
    · exact Finset.mem_range.2 hi
    · exact Finset.mem_range.2 (hvote j hj).1
  · rw [Finset.card_insert_of_notMem fun hmem => (hvote i hmem).2.1 rfl, Votes.card_heard]
    omega
  · rcases Finset.mem_insert.1 hj with rfl | hj
    · exact hown
    · exact (hvote j hj).2.2

/-- Only what has begun has something chosen. -/
theorem Chosen.begun (hsound : (record cfg h).Sound (Finset.range cfg.n) cfg.quorumSize) {v k : ℕ}
    (hchosen : Chosen cfg h v k) (hk : 1 ≤ k) : ∃ l, begun cfg h v = some l := by
  have hle : k ≤ (viewLog cfg h v).length := ViewRecord.Chosen.le_length hsound hchosen
  cases hl : Vr.begun cfg h v with
  | some l => exact ⟨l, rfl⟩
  | none =>
      rw [viewLog, hl, List.length_nil] at hle
      omega

/-- A log goes on with the next request of the view. -/
theorem LogOf.concat {es : List (LogEntry Op)} {v : ℕ} (hes : LogOf cfg h v es) {e : LogEntry Op}
    (hview : e.view = v) (hop : e.opnum = es.length + 1)
    (hreq : (viewLog cfg h v)[es.length]? = some e.request) : LogOf cfg h v (es ++ [e]) := by
  obtain ⟨l, hl, hpre, hviews⟩ := hes.begun
  have hsplit : requests (es ++ [e]) = requests es ++ [e.request] := List.map_append
  refine ⟨hes.numbered.concat (by omega), ⟨l, hl, ?_, fun x hx => ?_⟩, ?_, fun x hx => ?_⟩
  · rw [hsplit]
    exact hpre.trans (List.prefix_append _ _)
  · have hle := hpre.length_le
    rw [requests, List.length_map] at hle
    rw [List.drop_append_of_le_length hle] at hx
    rcases List.mem_append.1 hx with hold | hnew
    · exact hviews x hold
    · rw [List.mem_singleton.1 hnew, hview]
  · have hlen : (requests es).length = es.length := List.length_map _
    obtain ⟨hlt, hget⟩ := List.getElem?_eq_some_iff.1 hreq
    rw [hsplit, List.prefix_iff_eq_take.1 hes.within, hlen, ← hget, List.take_concat_get']
    exact List.take_prefix _ _
  · rcases List.mem_append.1 hx with hold | hnew
    · exact hes.entry x hold
    · rw [List.mem_singleton.1 hnew, hview, hop, Nat.add_sub_cancel]
      exact ⟨le_rfl, hreq⟩

/-- What was committed before the view is in the log. -/
theorem Running.behind (hsound : (record cfg h).Sound (Finset.range cfg.n) cfg.quorumSize)
    {r : Replica σ Op} (hr : Running cfg h i r) {u k : ℕ} (hk : Committed cfg h u k)
    (hu : u < r.enteredView) : k ≤ r.lastOp := by
  have hspan := hr.log.length
  rcases hk with hzero | ⟨w, hw, hchosen⟩
  · omega
  · have hin := (hr.holds.take_chosen hsound hchosen (by omega) fun heq => by omega).1
    omega

/-- What a replica executes was chosen. -/
theorem LogOf.executed (hsound : (record cfg h).Sound (Finset.range cfg.n) cfg.quorumSize)
    {es : List (LogEntry Op)} {v k : ℕ} (hes : LogOf cfg h v es)
    (hcommitted : Committed cfg h v (k + 1)) {e : LogEntry Op} (he : es[k]? = some e) :
    EventOk cfg h i (.executed (k + 1) e.request) := by
  obtain ⟨hlt, -⟩ := List.getElem?_eq_some_iff.1 he
  rcases hcommitted with hzero | ⟨u, hu, hchosen⟩
  · cases hzero
  · obtain ⟨l, hl⟩ := hchosen.begun hsound (Nat.le_add_left 1 k)
    refine ⟨Nat.le_add_left 1 k, u, l, hl, hchosen, ?_⟩
    have heq := (hes.take_chosen hsound hchosen hu fun _ => hlt).2
    have hreq : ((requests es).take (k + 1))[k]? = some e.request := by
      rw [List.getElem?_take, if_pos (Nat.lt_succ_self k), requests, List.getElem?_map, he]
      rfl
    rw [heq, List.getElem?_take, if_pos (Nat.lt_succ_self k)] at hreq
    exact hreq

end Invariant

namespace Replica

/-! ### The context of a handler -/

/-- What a handler relies on: a majority is a quorum, and the others recorded what they should. -/
structure Setting (env : Env σ Op) (h : History Op) : Prop where
  majority : env.cfg.n = 2 * env.cfg.f + 1
  member : env.myIdx < env.cfg.n
  others : ∀ j, j ≠ env.myIdx → NodeOk env.cfg h j

/-- The invariant in the middle of a handler. -/
def Runs (env : Env σ Op) (h : History Op)
    (c : Ctx (Replica σ Op) Node (Msg Op) (Event Op)) : Prop :=
  Good (fun h r => NodeOk env.cfg h env.myIdx ∧ Running env.cfg h env.myIdx r) (PacketOk env.cfg) h
    (.replica env.myIdx) c

/-- What is left of it when the replica dies. -/
def Dies (env : Env σ Op) (h : History Op)
    (c : Ctx (Replica σ Op) Node (Msg Op) (Event Op)) : Prop :=
  Good (fun h _ => NodeOk env.cfg h env.myIdx) (PacketOk env.cfg) h (.replica env.myIdx) c

/-- The replica is where it was, and may have recorded something. -/
structure Follows (env : Env σ Op) (h : History Op)
    (c c' : Ctx (Replica σ Op) Node (Msg Op) (Event Op)) : Prop where
  view : SameView c.state c'.state
  history : ∃ es, past h (.replica env.myIdx) c' = past h (.replica env.myIdx) c ++ es

/-- The handler stays in the view. -/
def Stays (env : Env σ Op) (h : History Op) {α : Type} (x : M σ Op α) : Prop :=
  ∀ c, Runs env h c → wp x (fun _ c' => Runs env h c' ∧ Follows env h c c') (Dies env h) c

section Handlers

variable {env : Env σ Op} {h : History Op} {α β : Type}
  {c c' c'' : Ctx (Replica σ Op) Node (Msg Op) (Event Op)}

theorem Runs.dies (hc : Runs env h c) : Dies env h c := ⟨hc.node.1, hc.sent⟩

theorem Dies.nodes (hs : Setting env h) (hc : Dies env h c) (j : ℕ) :
    NodeOk env.cfg (past h (.replica env.myIdx) c) j := by
  by_cases hj : j = env.myIdx
  · rw [hj]
    exact hc.node
  · exact (hs.others j hj).other (fun heq => hj (Ir.Node.replica.inj heq).symm) _

theorem Dies.sound (hs : Setting env h) (hc : Dies env h c) :
    (record env.cfg (past h (.replica env.myIdx) c)).Sound (Finset.range env.cfg.n)
      env.cfg.quorumSize :=
  Vr.sound hs.majority (hc.nodes hs)

theorem Follows.refl (c : Ctx (Replica σ Op) Node (Msg Op) (Event Op)) : Follows env h c c :=
  ⟨SameView.refl _, [], (List.append_nil _).symm⟩

theorem Follows.trans (hc : Follows env h c c') (hc' : Follows env h c' c'') :
    Follows env h c c'' := by
  obtain ⟨es, hes⟩ := hc.history
  obtain ⟨es', hes'⟩ := hc'.history
  exact ⟨hc.view.trans hc'.view, es ++ es', by rw [hes', hes, List.append_assoc]⟩

theorem Follows.committed {v k : ℕ} (hc : Follows env h c c')
    (hk : Committed env.cfg (past h (.replica env.myIdx) c) v k) :
    Committed env.cfg (past h (.replica env.myIdx) c') v k := by
  obtain ⟨es, hes⟩ := hc.history
  rw [hes]
  exact hk.append es

theorem Stays.pure (a : α) : Stays env h (Pure.pure a : M σ Op α) :=
  fun c hc => ⟨hc, Follows.refl c⟩

theorem Stays.read (f : Replica σ Op → α) : Stays env h (Ctx.read f : M σ Op α) :=
  fun c hc => ⟨hc, Follows.refl c⟩

theorem Stays.crash : Stays env h (Prog.crash : M σ Op α) := fun _ hc => hc.dies

theorem Stays.deref (o : Option α) : Stays env h (Prog.deref o : M σ Op α) := by
  cases o with
  | some a => exact .pure a
  | none => exact .crash

theorem Stays.bind {x : M σ Op α} {f : α → M σ Op β} (hx : Stays env h x)
    (hf : ∀ a, Stays env h (f a)) : Stays env h (x >>= f) := by
  intro c hc
  rw [wp_bind]
  refine wp_mono (fun a c' hc' => ?_) (fun _ hc' => hc') (hx c hc)
  exact wp_mono (fun _ _ h => ⟨h.1, hc'.2.trans h.2⟩) (fun _ h => h) (hf a c' hc'.1)

theorem Stays.when {b : Bool} {x : M σ Op Unit} (hx : Stays env h x) :
    Stays env h (Prog.when b x) := by
  cases b with
  | true => exact hx
  | false => exact .pure ()

/-- What the invariant does not speak of has changed. -/
theorem Runs.same (hc : Runs env h c) {r : Replica σ Op} (hr : SameRun c.state r) :
    Runs env h { c with state := r } ∧ Follows env h c { c with state := r } :=
  ⟨Good.update hc ⟨hc.node.1, hc.node.2.same hr⟩,
    ⟨hr.log, hr.lastOp, hr.status, hr.view, hr.enteredView⟩, [], (List.append_nil _).symm⟩

theorem Runs.update (hc : Runs env h c) {f : Replica σ Op → Replica σ Op}
    (hf : SameRun c.state (f c.state)) :
    wp (Ctx.update f) (fun _ => Runs env h) (Dies env h) c :=
  (hc.same hf).1

theorem Stays.update {f : Replica σ Op → Replica σ Op} (hf : ∀ r, SameRun r (f r)) :
    Stays env h (Ctx.update f : M σ Op Unit) := fun c hc => hc.same (hf c.state)

/-- A packet is sent that is good in the state reached. -/
theorem Runs.sendTo (hc : Runs env h c) {dst : Node} {m : Msg Op}
    (hm : PacketOk env.cfg (past h (.replica env.myIdx) c) ⟨.replica env.myIdx, dst, m⟩) :
    wp (sendTo env dst m) (fun _ c' => Runs env h c' ∧ Follows env h c c') (Dies env h) c :=
  ⟨Good.send_one hc hm, SameView.refl _, [], (List.append_nil _).symm⟩

theorem Runs.sendMessageToAll (hc : Runs env h c) {m : Msg Op}
    (hm : ∀ j, PacketOk env.cfg (past h (.replica env.myIdx) c)
      ⟨.replica env.myIdx, .replica j, m⟩) :
    wp (sendMessageToAll env m) (fun _ c' => Runs env h c' ∧ Follows env h c c') (Dies env h)
      c := by
  refine ⟨Good.send hc fun p hp => ?_, SameView.refl _, [], (List.append_nil _).symm⟩
  obtain ⟨j, -, rfl⟩ := List.mem_map.1 hp
  exact hm j

/-- An event is recorded. -/
theorem Runs.emit (hc : Runs env h c) {e : Event Op} (he : e.Fits c.state)
    (hnode : NodeOk env.cfg (past h (.replica env.myIdx) c ++ [(.replica env.myIdx, e)])
      env.myIdx) :
    Runs env h { c with events := c.events ++ [e] } ∧
      Follows env h c { c with events := c.events ++ [e] } :=
  ⟨Good.emit (packetOk_append env.cfg) hc ⟨hnode, hc.node.2.concat he⟩,
    SameView.refl _, _, past_emit e⟩

/-! ### Operations are executed -/

theorem updateClientTable_stays (req : Request Op) :
    Stays env h (updateClientTable req : M σ Op Unit) :=
  .update fun _ => ⟨rfl, rfl, rfl, rfl, rfl, rfl, rfl, rfl, rfl, rfl⟩

theorem commitNext_runs (hs : Setting env h) (hc : Runs env h c)
    (hle : c.state.lastCommitted + 1 ≤ c.state.lastOp)
    (hcommitted : Committed env.cfg (past h (.replica env.myIdx) c) c.state.enteredView
      (c.state.lastCommitted + 1)) :
    wp (commitNext env) (fun _ c' => (Runs env h c' ∧ Follows env h c c') ∧
      c'.state.lastCommitted = c.state.lastCommitted + 1) (Dies env h) c := by
  have hrun := hc.node.2
  rw [commitNext, wp_bind, wp_update, wp_bind, wp_read, wp_bind, wp_deref]
  refine ⟨fun entry hentry => ?_, fun _ => ⟨hc.node.1, hc.sent⟩⟩
  obtain ⟨e, hfind, -, hget⟩ := hrun.log.find (Nat.le_add_left 1 _) hle
  obtain rfl : e = entry := Option.some.inj (hfind.symm.trans hentry)
  generalize env.app.replicaUpcall _ _ _ = up
  obtain ⟨res, app⟩ := up
  have hevent := hrun.holds.executed (i := env.myIdx) (hc.dies.sound hs) hcommitted hget
  have hnode := hc.node.1.concat (hevent.append [(.replica env.myIdx, _)])
    (fun _ _ _ _ _ heq => by cases heq) (fun _ _ _ heq => by cases heq)
  have hc' : Runs env h { c with
      state := { c.state with lastCommitted := c.state.lastCommitted + 1 }
      events := c.events ++ [.executed (c.state.lastCommitted + 1) e.request] } :=
    Good.record (packetOk_append env.cfg) hc
      ⟨hnode, hrun.commit hle hcommitted e.request⟩
  have hfollows : Follows env h c { c with
      state := { c.state with lastCommitted := c.state.lastCommitted + 1 }
      events := c.events ++ [.executed (c.state.lastCommitted + 1) e.request] } :=
    ⟨⟨rfl, rfl, rfl, rfl, rfl⟩, _, past_emit _⟩
  show wp (Ctx.emit _ >>= fun _ => Ctx.update _ >>= fun _ => _) _ _ _
  rw [wp_bind, wp_emit, wp_bind, wp_update]
  have hc'' : ∀ {r : Replica σ Op},
      SameRun { c.state with lastCommitted := c.state.lastCommitted + 1 } r →
      Runs env h { c with
        state := r
        events := c.events ++ [.executed (c.state.lastCommitted + 1) e.request] } := fun hr =>
    Good.update hc' ⟨hc'.node.1, hc'.node.2.same hr⟩
  split
  · refine ⟨⟨Good.send_one (hc'' ?_) ?_, ⟨⟨rfl, rfl, rfl, rfl, rfl⟩, hfollows.history⟩⟩, rfl⟩
    · exact ⟨rfl, rfl, rfl, rfl, rfl, rfl, rfl, rfl, rfl, rfl⟩
    · trivial
  · refine ⟨⟨hc'' ?_, ⟨⟨rfl, rfl, rfl, rfl, rfl⟩, hfollows.history⟩⟩, rfl⟩
    exact ⟨rfl, rfl, rfl, rfl, rfl, rfl, rfl, rfl, rfl, rfl⟩

theorem commitTimes_runs (hs : Setting env h) (k : ℕ) (hc : Runs env h c)
    (hle : c.state.lastCommitted + k ≤ c.state.lastOp)
    (hcommitted : Committed env.cfg (past h (.replica env.myIdx) c) c.state.enteredView
      (c.state.lastCommitted + k)) :
    wp (commitTimes env k) (fun _ c' => Runs env h c' ∧ Follows env h c c') (Dies env h) c := by
  induction k generalizing c with
  | zero => exact ⟨hc, Follows.refl c⟩
  | succ k ih =>
      rw [commitTimes, wp_bind]
      refine wp_mono (fun _ c' hc' => ?_) (fun _ hc' => hc')
        (commitNext_runs hs hc (by omega) (hcommitted.le (by omega)))
      obtain ⟨⟨hrun, hfollows⟩, hnext⟩ := hc'
      have hcommitted' := hfollows.committed hcommitted
      refine wp_mono (fun _ c'' hc'' => ⟨hc''.1, hfollows.trans hc''.2⟩) (fun _ hc'' => hc'')
        (ih hrun ?_ ?_)
      · rw [hfollows.view.lastOp]
        omega
      · rw [hfollows.view.enteredView, hnext, Nat.add_assoc, Nat.add_comm 1]
        exact hcommitted'

/-- **Execution** up to a number that was chosen and is in the log. -/
theorem commitUpTo_runs (hs : Setting env h) {upto : ℕ} (hc : Runs env h c)
    (hle : upto ≤ c.state.lastOp)
    (hcommitted : Committed env.cfg (past h (.replica env.myIdx) c) c.state.enteredView upto) :
    wp (commitUpTo env upto) (fun _ c' => Runs env h c' ∧ Follows env h c c') (Dies env h) c := by
  rw [commitUpTo, wp_bind, wp_read]
  by_cases hnew : c.state.lastCommitted ≤ upto
  · have hsum : c.state.lastCommitted + (upto - c.state.lastCommitted) = upto :=
      Nat.add_sub_cancel' hnew
    exact commitTimes_runs hs _ hc (hsum.symm ▸ hle) (hsum.symm ▸ hcommitted)
  · rw [Nat.sub_eq_zero_of_le (by omega)]
    exact ⟨hc, Follows.refl c⟩

/-! ### The leader is told -/

/-- **A `PrepareOK`** for an operation of the log. -/
theorem sendPrepareOK_runs (hs : Setting env h) {view opnum : ℕ} (hc : Runs env h c)
    (hnormal : c.state.status = .normal) (hview : view = c.state.view)
    (hop : opnum ≤ c.state.lastOp) :
    wp (sendPrepareOK env view opnum) (fun _ c' => Runs env h c' ∧ Follows env h c c')
      (Dies env h) c := by
  have hrun := hc.node.2
  have hentered := hrun.normal hnormal
  have hlen := hrun.log.length
  have hin : opnum ≤ (viewLog env.cfg (past h (.replica env.myIdx) c) view).length := by
    have hle := hrun.holds.within.length_le
    rw [requests, List.length_map] at hle
    rw [hview, ← hentered]
    omega
  have hfits : (Event.accepted view opnum : Event Op).Fits c.state :=
    ⟨by omega, fun _ => hop⟩
  have hevent : EventOk env.cfg (past h (.replica env.myIdx) c) env.myIdx
    (.accepted view opnum) := hin
  have hnode := hc.node.1.concat (hevent.append [(.replica env.myIdx, _)])
    (fun v k v' u l heq hl => by
      cases heq
      have hle := (hrun.contributed v' u l hl).1
      omega)
    (fun _ _ _ heq => by cases heq)
  obtain ⟨hc', hfollows⟩ := hc.emit hfits hnode
  rw [sendPrepareOK, wp_bind, wp_emit, wp_bind, wp_read]
  exact wp_mono (fun _ _ h => ⟨h.1, hfollows.trans h.2⟩) (fun _ h => h)
    (hc'.sendTo ⟨hs.member, mem_past_emit _⟩)

theorem sendPrepareOKs_runs (hs : Setting env h) (oldLastOp : ℕ) (hc : Runs env h c)
    (hnormal : c.state.status = .normal) :
    wp (sendPrepareOKs env oldLastOp) (fun _ c' => Runs env h c' ∧ Follows env h c c')
      (Dies env h) c := by
  rw [sendPrepareOKs, wp_bind, wp_read]
  refine wp_forM (fun i hi c' hc' => ?_) ⟨hc, Follows.refl c⟩
  obtain ⟨hrun, hfollows⟩ := hc'
  have hle : i ≤ c.state.lastOp := by
    rw [List.mem_range'_1] at hi
    omega
  rw [wp_bind, wp_read, wp_when]
  refine ⟨fun _ => ?_, fun _ => ⟨hrun, hfollows⟩⟩
  rw [wp_bind, wp_deref]
  refine ⟨fun entry _ => ?_, fun _ => hrun.dies⟩
  rw [wp_bind]
  refine wp_mono (fun _ c'' hc'' => ?_) (fun _ hc'' => hc'')
    (updateClientTable_stays entry.request c' hrun)
  refine wp_mono (fun _ _ h => ⟨h.1, (hfollows.trans hc''.2).trans h.2⟩) (fun _ h => h)
    (sendPrepareOK_runs hs hc''.1 ?_ ?_ ?_)
  · rw [hc''.2.view.status, hfollows.view.status]
    exact hnormal
  · rw [hc''.2.view.view]
    rfl
  · rw [hc''.2.view.lastOp, hfollows.view.lastOp]
    exact hle

/-! ### State transfer is asked for -/

theorem requestStateTransfer_stays : Stays env h (requestStateTransfer env) := by
  intro c hc
  rw [requestStateTransfer, wp_bind, wp_read, wp_when]
  refine ⟨fun _ => ?_, fun _ => ⟨hc, Follows.refl c⟩⟩
  obtain ⟨hc', hfollows⟩ := hc.same (r := { c.state with
    lastRequestStateTransferView := c.state.view
    lastRequestStateTransferOpnum := c.state.lastCommitted })
    ⟨rfl, rfl, rfl, rfl, rfl, rfl, rfl, rfl, rfl, rfl⟩
  rw [wp_bind, wp_update]
  exact wp_mono (fun _ _ h => ⟨h.1, hfollows.trans h.2⟩) (fun _ h => h)
    (hc'.sendMessageToAll fun _ => ⟨env.myIdx, rfl, hc.node.2.reached⟩)

theorem bufferPrepare_stays (remote : Node) (msg : Prepare Op) :
    Stays env h (bufferPrepare env remote msg) :=
  .bind requestStateTransfer_stays fun _ =>
    .update fun _ => ⟨rfl, rfl, rfl, rfl, rfl, rfl, rfl, rfl, rfl, rfl⟩

/-! ### Batches -/

/-- The requests of a batch, which may be empty. -/
theorem batch_wp {l : Log Op} {last : ℕ} (hl : l.Spans 1 last) {first : ℕ} (hfirst : 1 ≤ first)
    {D : Ctx (Replica σ Op) Node (Msg Op) (Event Op) → Prop} :
    wp (batch l first (last + 1 - first))
      (fun reqs c' => c' = c ∧ reqs = (requests l.entries).drop (first - 1)) D c := by
  have hlen := hl.length
  by_cases hempty : last + 1 ≤ first
  · rw [Nat.sub_eq_zero_of_le hempty]
    refine ⟨rfl, (List.drop_of_length_le ?_).symm⟩
    rw [requests, List.length_map]
    omega
  · rw [wp, batch_eq hl first _ hfirst (by omega)]
    refine ⟨rfl, ?_⟩
    rw [List.take_of_length_le (by rw [List.length_drop]; omega), requests, List.map_drop]

/-- **A batch** of the leader. -/
theorem closeBatch_runs (hc : Runs env h c) (hnormal : c.state.status = .normal)
    (hleader : env.cfg.leader c.state.view = env.myIdx) :
    wp (closeBatch env) (fun _ => Runs env h) (Dies env h) c := by
  have hrun := hc.node.2
  have hentered := hrun.normal hnormal
  have hlen := hrun.log.length
  have hlog := hrun.leads (hentered.symm ▸ hleader)
  have hlast : (requests c.state.log.entries).length = c.state.lastOp := by
    rw [requests, List.length_map]
    omega
  rw [closeBatch, wp_bind, wp_read, wp_bind]
  refine wp_mono ?_ (fun _ hc' => hc')
    (batch_wp (c := c) (D := Dies env h) hrun.log (Nat.le_add_left 1 c.state.lastBatchEnd))
  rintro reqs c' ⟨hc', hreqs⟩
  rw [hc', hreqs]
  have hprepare : PrepareOk env.cfg (past h (.replica env.myIdx) c)
      { view := c.state.view
        opnum := c.state.lastOp
        batchstart := c.state.lastBatchEnd + 1
        request := (requests c.state.log.entries).drop (c.state.lastBatchEnd + 1 - 1) } := by
    rw [hlog, hentered] at hlast
    refine ⟨hlast.ge, ?_, .inl (Nat.le_add_left 1 _)⟩
    rw [hlog, hentered, List.take_of_length_le hlast.le]
  show wp (Ctx.update _ >>= fun _ => Replica.sendMessageToAll env _ >>= fun _ => Ctx.update _) _ _ _
  rw [wp_bind, wp_update, wp_bind]
  have hc' : Runs env h { c with state := { c.state with lastPrepare :=
      { view := c.state.view
        opnum := c.state.lastOp
        batchstart := c.state.lastBatchEnd + 1
        request := (requests c.state.log.entries).drop (c.state.lastBatchEnd + 1 - 1) } } } :=
    Good.update hc ⟨hc.node.1, hrun.log, hrun.entered, hrun.normal, hrun.changing, hrun.holds,
      hrun.leads, hrun.committed, hrun.reached, hrun.executed, hrun.accepted, hrun.contributed,
      hrun.started, hrun.votes, hrun.collected, hprepare, hrun.closing⟩
  refine wp_mono (fun _ c'' hc'' => ?_) (fun _ hc'' => hc'')
    (hc'.sendMessageToAll fun _ => hprepare)
  have hrun' := hc''.1.node.2
  exact Good.update hc''.1 ⟨hc''.1.node.1, hrun'.log, hrun'.entered, hrun'.normal, hrun'.changing,
    hrun'.holds, hrun'.leads, hrun'.committed, hrun'.reached, hrun'.executed, hrun'.accepted,
    hrun'.contributed, hrun'.started, hrun'.votes, hrun'.collected, hrun'.prepare,
    fun hrunning => by cases hrunning⟩

/-! ### Requests -/

/-- **A request is numbered**: the log of the view goes on with it. -/
theorem Runs.propose (hc : Runs env h c) (hnormal : c.state.status = .normal)
    (hleader : env.cfg.leader c.state.view = env.myIdx) (req : Request Op) :
    Runs env h { c with
      state := { c.state with
        lastOp := c.state.lastOp + 1
        log := c.state.log.append
          { view := c.state.view
            opnum := c.state.lastOp + 1
            request := req } }
      events := c.events ++ [.proposed
        { view := c.state.view
          opnum := c.state.lastOp + 1
          request := req }] } := by
  have hrun := hc.node.2
  have hentered := hrun.normal hnormal
  have hlen := hrun.log.length
  obtain ⟨l, hl, -⟩ := hrun.holds.begun
  have hleads := hrun.leads (hentered.symm ▸ hleader)
  generalize he : ({ view := c.state.view, opnum := c.state.lastOp + 1, request := req } :
    LogEntry Op) = e
  have hview : e.view = c.state.view := by rw [← he]
  have hop : e.opnum = c.state.lastOp + 1 := by rw [← he]
  generalize hpast : past h (.replica env.myIdx) c = hist at hl hleads
  have hgrown : viewLog env.cfg (hist ++ [(.replica env.myIdx, .proposed e)]) c.state.enteredView =
      requests (c.state.log.entries ++ [e]) := by
    have hbegun : begun env.cfg hist e.view = some l := by
      rw [hview, ← hentered]
      exact hl
    have hnew := viewLog_proposed hbegun
    rw [hview, hleader, ← hentered] at hnew
    rw [hnew, ← hleads, requests, requests, List.map_append]
    rfl
  have hrun := hpast ▸ hrun
  refine Good.record (packetOk_append env.cfg) hc ⟨hc.node.1.concat ⟨?_, l, ?_⟩
    (fun _ _ _ _ _ heq => by cases heq) (fun _ _ _ heq => by cases heq), ?_⟩
  · rw [hview]
    exact hleader
  · rw [begun_proposed, hview, ← hentered, hpast]
    exact hl
  rw [hpast]
  have hlast : (viewLog env.cfg (hist ++ [(.replica env.myIdx, .proposed e)])
      c.state.enteredView)[c.state.log.entries.length]? = some e.request := by
    rw [hgrown, requests, List.getElem?_map, List.getElem?_append_right le_rfl, Nat.sub_self]
    rfl
  refine ⟨⟨hrun.log.start_eq, hrun.log.numbered.concat (by omega), ?_⟩, hrun.entered, hrun.normal,
    hrun.changing, (hrun.holds.append _).concat (hview.trans hentered.symm) (by omega) hlast,
    fun _ => hgrown.symm,
    ⟨Nat.le_succ_of_le hrun.committed.1, hrun.committed.2.append _⟩, ?_, fun k req' hk => ?_,
    fun v k hk => ?_, fun v u l' hl' => ?_, fun v l' hleader' hl' => ?_, fun v k j hj => ?_,
    fun u j m hm => ?_, hrun.prepare.append _, hrun.closing⟩
  · rw [Log.entries_append, List.length_append, List.length_singleton]
    show 1 + (c.state.log.entries.length + 1) = c.state.lastOp + 1 + 1
    omega
  · rcases hrun.reached with hzero | ⟨req', hreq'⟩
    · exact .inl hzero
    · exact .inr ⟨req', List.mem_append_left _ hreq'⟩
  · rcases mem_concat.1 hk with hk | hk
    · exact hrun.executed k req' hk
    · cases hk
  · rcases mem_concat.1 hk with hk | hk
    · obtain ⟨hle, hlong⟩ := hrun.accepted v k hk
      exact ⟨hle, fun heq => Nat.le_succ_of_le (hlong heq)⟩
    · cases hk
  · rcases mem_concat.1 hl' with hl' | hl'
    · refine ⟨(hrun.contributed v u l' hl').1, fun hch => ?_⟩
      rw [hnormal] at hch
      cases hch
    · cases hl'
  · rw [begun_proposed] at hl'
    exact hrun.started v l' hleader' hl'
  · obtain ⟨hmember, hother, hmem⟩ := hrun.votes v k j hj
    exact ⟨hmember, hother, List.mem_append_left _ hmem⟩
  · obtain ⟨hok, hview', hidx⟩ := hrun.collected u j m hm
    exact ⟨hok.append _, hview', hidx⟩

theorem Runs.closing (hc : Runs env h c) (hnormal : c.state.status = .normal)
    (hleader : env.cfg.leader c.state.view = env.myIdx) (running : Bool) :
    Runs env h { c with state := { c.state with closeBatchTimeout := running } } := by
  have hrun := hc.node.2
  exact Good.update hc ⟨hc.node.1, hrun.log, hrun.entered, hrun.normal, hrun.changing, hrun.holds,
    hrun.leads, hrun.committed, hrun.reached, hrun.executed, hrun.accepted, hrun.contributed,
    hrun.started, hrun.votes, hrun.collected, hrun.prepare, fun _ => ⟨hnormal, hleader⟩⟩

theorem takeRequest_runs (hc : Runs env h c) (hnormal : c.state.status = .normal)
    (hleader : env.cfg.leader c.state.view = env.myIdx) (remote : Node) (req : Request Op) :
    wp (takeRequest env remote req) (fun _ => Runs env h) (Dies env h) c := by
  rw [takeRequest, wp_bind]
  refine wp_mono (fun _ c₁ hc₁ => ?_) (fun _ hc₁ => hc₁) (updateClientTable_stays req c hc)
  rw [wp_bind, wp_read]
  generalize env.app.leaderUpcall _ _ _ = up
  obtain ⟨⟨replicate, res⟩, app⟩ := up
  show wp (Ctx.update _ >>= fun _ => if replicate = false then _ else _) _ _ c₁
  rw [wp_bind, wp_update]
  obtain ⟨hc₂, hfollows⟩ := hc₁.1.same (r := { c₁.state with app := app })
    ⟨rfl, rfl, rfl, rfl, rfl, rfl, rfl, rfl, rfl, rfl⟩
  have hnormal' : c₁.state.status = .normal := hc₁.2.view.status.trans hnormal
  have hleader' : env.cfg.leader c₁.state.view = env.myIdx := by
    rw [hc₁.2.view.view]
    exact hleader
  cases replicate with
  | false =>
      rw [if_pos rfl, wp_bind, wp_update]
      refine wp_mono (fun _ _ h => h.1) (fun _ h => h)
        (Runs.sendTo (And.left (hc₂.same ?_)) ?_)
      · exact ⟨rfl, rfl, rfl, rfl, rfl, rfl, rfl, rfl, rfl, rfl⟩
      · trivial
  | true =>
      rw [if_neg Bool.noConfusion, wp_bind, wp_update, wp_bind, wp_emit]
      have hc₃ := hc₂.propose hnormal' hleader'
        { op := res
          clientid := req.clientid
          clientreqid := req.clientreqid }
      show wp (if _ then closeBatch env >>= fun _ => Ctx.update _
        else Ctx.update _ >>= fun _ => Ctx.update _) _ _ _
      rw [wp_ite]
      constructor
      · intro _
        rw [wp_bind]
        refine wp_mono (fun _ c₄ hc₄ => ?_) (fun _ hc₄ => hc₄)
          (closeBatch_runs hc₃ hnormal' hleader')
        exact hc₄.update ⟨rfl, rfl, rfl, rfl, rfl, rfl, rfl, rfl, rfl, rfl⟩
      · intro _
        rw [wp_bind, wp_update]
        exact (hc₃.closing hnormal' hleader' true).update
          ⟨rfl, rfl, rfl, rfl, rfl, rfl, rfl, rfl, rfl, rfl⟩

/-- **Requests**: whatever the client table has. -/
theorem handleRequest_runs (hc : Runs env h c) (remote : Node) (req : Request Op) :
    wp (handleRequest env remote req) (fun _ => Runs env h) (Dies env h) c := by
  rw [handleRequest, wp_bind, wp_read, wp_when]
  refine ⟨fun hleads => ?_, fun _ => hc⟩
  obtain ⟨hnormal, hleader⟩ := Bool.and_eq_true_iff.1 hleads
  have hnormal : c.state.status = .normal := of_decide_eq_true hnormal
  have hleader : env.cfg.leader c.state.view = env.myIdx := of_decide_eq_true hleader
  obtain ⟨hc', -⟩ := hc.same (r := { c.state with
      clientAddresses := c.state.clientAddresses.insert req.clientid remote })
    ⟨rfl, rfl, rfl, rfl, rfl, rfl, rfl, rfl, rfl, rfl⟩
  rw [wp_bind, wp_update]
  cases (id c.state).clientTable.lookup req.clientid with
  | none => exact takeRequest_runs hc' hnormal hleader remote req
  | some entry =>
      show wp (if _ then pure () else if _ then _ else takeRequest env remote req) _ _ _
      rw [wp_ite]
      refine ⟨fun _ => hc', fun _ => ?_⟩
      rw [wp_ite]
      refine ⟨fun _ => ?_, fun _ => takeRequest_runs hc' hnormal hleader remote req⟩
      -- a request that was answered is answered again
      split
      · exact wp_mono (fun _ _ h => h.1) (fun _ h => h) (hc'.sendTo trivial)
      · exact hc'

/-! ### Followers -/

/-- A follower goes on with the next request of the view. -/
theorem Runs.append (hc : Runs env h c) (hnormal : c.state.status = .normal)
    (hfollower : env.cfg.leader c.state.view ≠ env.myIdx) {req : Request Op}
    (hreq : (viewLog env.cfg (past h (.replica env.myIdx) c) c.state.view)[c.state.lastOp]? =
      some req) :
    Runs env h { c with state := { c.state with
      lastOp := c.state.lastOp + 1
      log := c.state.log.append
        { view := c.state.view
          opnum := c.state.lastOp + 1
          request := req } } } := by
  have hrun := hc.node.2
  have hentered := hrun.normal hnormal
  have hlen := hrun.log.length
  have hlast : c.state.log.entries.length = c.state.lastOp := by omega
  refine Good.update hc ⟨hc.node.1, ⟨hrun.log.start_eq, hrun.log.numbered.concat hlen.symm, ?_⟩,
    hrun.entered, hrun.normal, hrun.changing, hrun.holds.concat hentered.symm ?_ ?_,
    fun hleader => absurd (hentered ▸ hleader) hfollower,
    ⟨Nat.le_succ_of_le hrun.committed.1, hrun.committed.2⟩, hrun.reached, hrun.executed,
    fun v k hk => ?_, fun v u l hl => ⟨(hrun.contributed v u l hl).1, fun hch => ?_⟩, hrun.started,
    hrun.votes, hrun.collected, hrun.prepare, hrun.closing⟩
  · rw [Log.entries_append, List.length_append, List.length_singleton]
    show 1 + (c.state.log.entries.length + 1) = c.state.lastOp + 1 + 1
    omega
  · show c.state.lastOp + 1 = c.state.log.entries.length + 1
    omega
  · rw [hlast, hentered]
    exact hreq
  · obtain ⟨hle, hlong⟩ := hrun.accepted v k hk
    exact ⟨hle, fun heq => Nat.le_succ_of_le (hlong heq)⟩
  · rw [hnormal] at hch
    cases hch

/-- **The new requests** of a prepare message: those of the view from the number on. -/
theorem appendRequests_runs (reqs : List (Request Op)) {op : ℕ} (hc : Runs env h c)
    (hnormal : c.state.status = .normal) (hfollower : env.cfg.leader c.state.view ≠ env.myIdx)
    (hpos : 1 ≤ op) (hop : op ≤ c.state.lastOp + 1)
    (hreqs : ∀ k req, reqs[k]? = some req →
      (viewLog env.cfg (past h (.replica env.myIdx) c) c.state.view)[op - 1 + k]? = some req) :
    wp (appendRequests c.state.view op reqs) (fun _ c' => Runs env h c' ∧
      c'.state.status = .normal ∧ c'.state.view = c.state.view ∧
      op + reqs.length ≤ c'.state.lastOp + 1) (Dies env h) c := by
  induction reqs generalizing c op with
  | nil => exact ⟨hc, hnormal, rfl, hop⟩
  | cons req reqs ih =>
      rw [appendRequests, wp_bind, wp_read, wp_bind, wp_when]
      have htail : ∀ k req', reqs[k]? = some req' →
          (viewLog env.cfg (past h (.replica env.myIdx) c) c.state.view)[op + 1 - 1 + k]? =
            some req' := by
        intro k req' hk
        have hnext := hreqs (k + 1) req' hk
        have hidx : op - 1 + (k + 1) = op + 1 - 1 + k := by omega
        rw [← hidx]
        exact hnext
      have hsum : op + (req :: reqs).length = op + 1 + reqs.length := by
        rw [List.length_cons]
        omega
      rw [hsum]
      refine ⟨fun hnew => ?_, fun hold => ?_⟩
      · obtain rfl : op = c.state.lastOp + 1 := by
          have hnot : ¬op ≤ c.state.lastOp := by simpa using hnew
          omega
        have hc' := hc.append hnormal hfollower (hreqs 0 req rfl)
        obtain ⟨hc'', -⟩ := hc'.same (r := { c.state with
            lastOp := c.state.lastOp + 1
            log := c.state.log.append
              { view := c.state.view
                opnum := c.state.lastOp + 1
                request := req }
            clientTable := c.state.clientTable.insert req.clientid
              (if ((c.state.clientTable.lookup req.clientid).getD {}).lastReqId =
                  req.clientreqid then
                (c.state.clientTable.lookup req.clientid).getD {}
              else { lastReqId := req.clientreqid, replied := false, reply := none }) })
          ⟨rfl, rfl, rfl, rfl, rfl, rfl, rfl, rfl, rfl, rfl⟩
        rw [wp_bind, wp_update, updateClientTable, wp_update]
        exact ih hc'' hnormal hfollower (by omega) le_rfl htail
      · have hle : op ≤ c.state.lastOp := by simpa using hold
        exact ih hc hnormal hfollower (by omega) (by omega) htail

theorem handlePrepare_runs (hs : Setting env h) (hc : Runs env h c) (remote : Node)
    {msg : Prepare Op} (hmsg : PrepareOk env.cfg (past h (.replica env.myIdx) c) msg) :
    wp (handlePrepare env remote msg) (fun _ => Runs env h) (Dies env h) c := by
  rw [handlePrepare, wp_bind, wp_read, wp_ite]
  refine ⟨fun _ => hc, fun hstatus => ?_⟩
  rw [wp_ite]
  refine ⟨fun _ => hc, fun hold => ?_⟩
  rw [wp_ite]
  refine ⟨fun _ => wp_mono (fun _ _ h => h.1) (fun _ h => h) (bufferPrepare_stays remote msg c hc),
    fun hnew => ?_⟩
  rw [wp_ite]
  refine ⟨fun _ => hc.dies, fun hleader => ?_⟩
  have hview : msg.view = c.state.view := le_antisymm (not_lt.1 hnew) (not_lt.1 hold)
  have hnormal : c.state.status = .normal := not_not.1 hstatus
  have hfollower : env.cfg.leader c.state.view ≠ env.myIdx := fun h => hleader (decide_eq_true h)
  obtain ⟨hc', -⟩ := hc.same (r := { c.state with viewChangeTimeout := true })
    ⟨rfl, rfl, rfl, rfl, rfl, rfl, rfl, rfl, rfl, rfl⟩
  rw [wp_bind, wp_update, wp_ite]
  refine ⟨fun hle => ?_, fun hbeyond => ?_⟩
  · exact wp_mono (fun _ _ h => h.1) (fun _ h => h) (sendPrepareOK_runs hs hc' hnormal hview hle)
  rw [wp_ite]
  refine ⟨fun _ => wp_mono (fun _ _ h => h.1) (fun _ h => h) (bufferPrepare_stays remote msg _ hc'),
    fun hstart => ?_⟩
  have hstart : msg.batchstart ≤ c.state.lastOp + 1 := not_lt.1 hstart
  have hbeyond : ¬msg.opnum ≤ c.state.lastOp := hbeyond
  have hpos : 1 ≤ msg.batchstart := hmsg.start.resolve_right (by omega)
  have hlength : msg.request.length = msg.opnum - (msg.batchstart - 1) := by
    rw [hmsg.request, List.length_drop, List.length_take_of_le hmsg.opnum]
  have hreqs : ∀ k req, msg.request[k]? = some req → (viewLog env.cfg
      (past h (.replica env.myIdx) c) c.state.view)[msg.batchstart - 1 + k]? = some req := by
    intro k req hk
    rw [hmsg.request, List.getElem?_drop, List.getElem?_take] at hk
    split_ifs at hk
    rw [← hview]
    exact hk
  rw [wp_bind, hview]
  refine wp_mono (fun _ c'' hc'' => ?_) (fun _ h => h)
    (appendRequests_runs msg.request hc' hnormal hfollower hpos hstart hreqs)
  obtain ⟨hrun, hnormal', hview', hlast⟩ := hc''
  exact wp_mono (fun _ _ h => h.1) (fun _ h => h)
    (sendPrepareOK_runs hs hrun hnormal' hview'.symm (by omega))

/-! ### The leader counts -/

/-- **A `PrepareOK`** of another replica. The leader commits what a quorum has. -/
theorem handlePrepareOK_runs (hs : Setting env h) (hc : Runs env h c) {view opnum replicaIdx : ℕ}
    (hmember : replicaIdx < env.cfg.n)
    (hmem : (.replica replicaIdx, .accepted view opnum) ∈ past h (.replica env.myIdx) c)
    (hother : replicaIdx ≠ env.myIdx) :
    wp (handlePrepareOK env view opnum replicaIdx) (fun _ => Runs env h) (Dies env h) c := by
  rw [handlePrepareOK, wp_bind, wp_read, wp_ite]
  refine ⟨fun _ => hc, fun hstatus => ?_⟩
  rw [wp_ite]
  refine ⟨fun _ => hc, fun hold => ?_⟩
  rw [wp_ite]
  refine ⟨fun _ => wp_mono (fun _ _ h => h.1) (fun _ h => h) (requestStateTransfer_stays c hc),
    fun hnew => ?_⟩
  rw [wp_ite]
  refine ⟨fun _ => hc, fun hleads => ?_⟩
  have hnormal : c.state.status = .normal := not_not.1 hstatus
  obtain rfl : view = c.state.view := le_antisymm (not_lt.1 hnew) (not_lt.1 hold)
  have hleader : env.cfg.leader c.state.view = env.myIdx := by
    have htrue : amLeader env c.state = true := by simpa using hleads
    exact of_decide_eq_true htrue
  have hrun := hc.node.2
  have hentered := hrun.normal hnormal
  have hlen := hrun.log.length
  have hc' : Runs env h { c with state := { c.state with
      prepareOKQuorum := c.state.prepareOKQuorum.add (c.state.view, opnum) replicaIdx () } } :=
    Good.update hc ⟨hc.node.1, hrun.vote hmember hother hmem⟩
  rw [wp_bind, wp_update, wp_when]
  refine ⟨fun hquorum => ?_, fun _ => hc'⟩
  -- the log of the leader is that of the view
  have hle : opnum ≤ c.state.lastOp := by
    have hnode := (hs.others replicaIdx hother).other (n := .replica env.myIdx)
      (fun heq => hother (Ir.Node.replica.inj heq).symm) c.events
    have hin : opnum ≤ (viewLog env.cfg (past h (.replica env.myIdx) c) c.state.view).length :=
      hnode.event _ hmem
    rw [← hentered, ← hrun.leads (hentered.symm ▸ hleader), requests, List.length_map] at hin
    omega
  have hevent : EventOk env.cfg (past h (.replica env.myIdx) c) env.myIdx
      (.accepted c.state.view opnum) := by
    show opnum ≤ (viewLog _ _ _).length
    rw [← hentered, ← hrun.leads (hentered.symm ▸ hleader), requests, List.length_map]
    omega
  have hnode := hc.node.1.concat (hevent.append [(.replica env.myIdx, _)])
    (fun v k v' u l heq hl => by
      cases heq
      exact (hrun.contributed v' u l hl).1)
    (fun _ _ _ heq => by cases heq)
  obtain ⟨hc'', -⟩ := hc'.emit (e := .accepted c.state.view opnum)
    ⟨hentered.ge, fun _ => hle⟩ hnode
  have hchosen := hc''.node.2.chosen hs.member (mem_past_emit _) (of_decide_eq_true hquorum)
  rw [wp_bind, wp_emit, wp_bind]
  refine wp_mono (fun _ c₃ hc₃ => ?_) (fun _ hc₃ => hc₃)
    (commitUpTo_runs hs hc'' hle (.inr ⟨_, hentered.ge, hchosen⟩))
  rw [wp_when]
  refine ⟨fun _ => ?_, fun _ => hc₃.1⟩
  have hrun₃ := hc₃.1.node.2
  rw [wp_bind, wp_read, wp_bind]
  refine wp_mono (fun _ c₄ hc₄ => ?_) (fun _ hc₄ => hc₄)
    (hc₃.1.sendMessageToAll fun _ => hrun₃.committed.2.mono hrun₃.entered)
  exact hc₄.1.update ⟨rfl, rfl, rfl, rfl, rfl, rfl, rfl, rfl, rfl, rfl⟩

theorem handleCommit_runs (hs : Setting env h) (hc : Runs env h c) {view opnum : ℕ}
    (hcommitted : Committed env.cfg (past h (.replica env.myIdx) c) view opnum) :
    wp (handleCommit env view opnum) (fun _ => Runs env h) (Dies env h) c := by
  rw [handleCommit, wp_bind, wp_read, wp_ite]
  refine ⟨fun _ => hc, fun hstatus => ?_⟩
  rw [wp_ite]
  refine ⟨fun _ => hc, fun hold => ?_⟩
  rw [wp_ite]
  refine ⟨fun _ => wp_mono (fun _ _ h => h.1) (fun _ h => h) (requestStateTransfer_stays c hc),
    fun hnew => ?_⟩
  rw [wp_ite]
  refine ⟨fun _ => hc.dies, fun _ => ?_⟩
  have hnormal : c.state.status = .normal := not_not.1 hstatus
  have hview : view = c.state.view := le_antisymm (not_lt.1 hnew) (not_lt.1 hold)
  obtain ⟨hc', -⟩ := hc.same (r := { c.state with viewChangeTimeout := true })
    ⟨rfl, rfl, rfl, rfl, rfl, rfl, rfl, rfl, rfl, rfl⟩
  rw [wp_bind, wp_update, wp_ite]
  refine ⟨fun _ => hc', fun _ => ?_⟩
  rw [wp_ite]
  refine ⟨fun _ => wp_mono (fun _ _ h => h.1) (fun _ h => h) (requestStateTransfer_stays _ hc'),
    fun hlong => ?_⟩
  refine wp_mono (fun _ _ h => h.1) (fun _ h => h) (commitUpTo_runs hs hc' (not_lt.1 hlong) ?_)
  rw [hview, ← hc.node.2.normal hnormal] at hcommitted
  exact hcommitted

/-- **A state transfer** is sent from where the other replica is. -/
theorem handleRequestStateTransfer_runs (hc : Runs env h c) {remote : Node} {view opnum : ℕ}
    (hremote : ∃ j, remote = .replica j ∧ (opnum = 0 ∨
      ∃ req, (.replica j, .executed opnum req) ∈ past h (.replica env.myIdx) c)) :
    wp (handleRequestStateTransfer env remote view opnum) (fun _ => Runs env h) (Dies env h) c := by
  rw [handleRequestStateTransfer, wp_bind, wp_read, wp_ite]
  refine ⟨fun _ => hc, fun hstatus => ?_⟩
  rw [wp_ite]
  refine ⟨fun _ => wp_mono (fun _ _ h => h.1) (fun _ h => h) (requestStateTransfer_stays c hc),
    fun _ => ?_⟩
  have hrun := hc.node.2
  have hentered := hrun.normal (not_not.1 hstatus)
  have hlen := hrun.log.length
  obtain ⟨j, rfl, hop⟩ := hremote
  have hdump : c.state.log.dump (opnum + 1) = c.state.log.entries.drop opnum := by
    rw [Log.dump_eq (hrun.log.start_eq ▸ Nat.one_pos) (hrun.log.start_eq ▸ hrun.log.numbered),
      hrun.log.start_eq, max_eq_left (Nat.le_add_left 1 opnum), Nat.add_sub_cancel]
  refine wp_mono (fun _ _ h => h.1) (fun _ h => h) (hc.sendTo
    ⟨c.state.log.entries, opnum, j, ?_, hdump, ?_, ?_, rfl, hop⟩)
  · exact hentered ▸ hrun.holds
  · have hle := hrun.committed.1
    show c.state.lastCommitted ≤ _
    omega
  · exact hentered ▸ hrun.committed.2

/-! ### A view change begins -/

/-- The replica leaves its view. -/
theorem startViewChange_runs (hc : Runs env h c) {newview : ℕ} (hnew : c.state.view < newview) :
    wp (startViewChange env newview) (fun _ c' => Runs env h c' ∧ c'.state.view = newview ∧
      c'.state.status = .viewChange ∧ c'.state.enteredView = c.state.enteredView ∧
      c'.state.log = c.state.log ∧ c'.state.lastOp = c.state.lastOp ∧
      c'.state.lastCommitted = c.state.lastCommitted ∧
      c'.state.doViewChangeQuorum = c.state.doViewChangeQuorum ∧
      past h (.replica env.myIdx) c' = past h (.replica env.myIdx) c) (Dies env h) c := by
  have hrun := hc.node.2
  have hentered := hrun.entered
  rw [startViewChange, wp_bind, wp_update, wp_bind, wp_read]
  refine ⟨Good.send (Good.update hc ⟨hc.node.1, ?_⟩) fun p hp => ?_, rfl, rfl, rfl, rfl, rfl, rfl,
    rfl, rfl⟩
  · refine ⟨hrun.log, hentered.trans hnew.le, (fun hn => by cases hn), fun _ => hentered.trans_lt hnew, hrun.holds,
      hrun.leads, hrun.committed, hrun.reached, hrun.executed, hrun.accepted,
      fun v u l hl => ⟨(hrun.contributed v u l hl).1.trans hnew.le, fun _ heq => ?_⟩, hrun.started,
      hrun.votes, hrun.collected, hrun.prepare, (fun hrunning => by cases hrunning)⟩
    have hle := (hrun.contributed v u l hl).1
    have heq : v = newview := heq
    omega
  · obtain ⟨j, -, rfl⟩ := List.mem_map.1 hp
    trivial

/-- A replica in a view change gives its log to the choice. -/
theorem Runs.contribute (hc : Runs env h c) (hchanging : c.state.status = .viewChange) :
    Runs env h { c with events := c.events ++
      [.contributed c.state.view c.state.enteredView c.state.log.entries] } := by
  have hrun := hc.node.2
  have hlen := hrun.log.length
  have hevent : EventOk env.cfg (past h (.replica env.myIdx) c) env.myIdx
      (.contributed c.state.view c.state.enteredView c.state.log.entries) :=
    ⟨hrun.changing hchanging, hrun.holds⟩
  refine (hc.emit (e := .contributed c.state.view c.state.enteredView c.state.log.entries)
    ⟨le_rfl, fun _ _ => ⟨rfl, rfl⟩⟩ (hc.node.1.concat (hevent.append _)
    (fun _ _ _ _ _ heq => by cases heq) fun v u l heq => ?_)).1
  cases heq
  refine ⟨fun v' k hk _ => ?_, fun u' l' hl' => (hrun.contributed _ u' l' hl').2 hchanging rfl⟩
  obtain ⟨hle, hlong⟩ := hrun.accepted v' k hk
  refine ⟨hle, fun heq => ?_⟩
  have hk := hlong heq
  omega

/-- The smallest number is no greater than the first one. -/
theorem minOf_le (x : ℕ) (xs : List ℕ) : minOf x xs ≤ x := by
  rw [minOf]
  induction xs generalizing x with
  | nil => exact le_rfl
  | cons y ys ih => exact (ih (min x y)).trans (min_le_left x y)

theorem Runs.dump (hc : Runs env h c) (first : ℕ) :
    c.state.log.dump first = c.state.log.entries.drop (first - 1) := by
  have hlog := hc.node.2.log
  rw [Log.dump_eq (hlog.start_eq ▸ Nat.one_pos) (hlog.start_eq ▸ hlog.numbered), hlog.start_eq]
  congr 1
  omega

theorem Runs.log_eq (hc : Runs env h c) : c.state.log = { entries := c.state.log.entries } := by
  have hstart := hc.node.2.log.start_eq
  cases hl : c.state.log with
  | mk start entries =>
      rw [hl] at hstart
      have hone : start = 1 := hstart
      rw [hone]

theorem collectStartViewChange_runs (hs : Setting env h) (hc : Runs env h c)
    (hchanging : c.state.status = .viewChange) (replicaIdx lastCommitted : ℕ) :
    wp (collectStartViewChange env replicaIdx lastCommitted) (fun _ => Runs env h) (Dies env h)
      c := by
  rw [collectStartViewChange, wp_bind, wp_read, wp_bind, wp_update, wp_when]
  obtain ⟨hc', -⟩ := hc.same (r := { c.state with
      startViewChangeQuorum :=
        c.state.startViewChangeQuorum.add c.state.view replicaIdx lastCommitted })
    ⟨rfl, rfl, rfl, rfl, rfl, rfl, rfl, rfl, rfl, rfl⟩
  refine ⟨fun _ => ?_, fun _ => hc'⟩
  rw [wp_when]
  refine ⟨fun hother => ?_, fun _ => hc'⟩
  have hother : env.cfg.leader c.state.view ≠ env.myIdx := of_decide_eq_true hother
  have hc'' := hc'.contribute hchanging
  have hrun := hc.node.2
  have hlen := hrun.log.length
  rw [wp_bind, wp_emit]
  refine wp_mono (fun _ _ h => h.1) (fun _ h => h) (hc''.sendTo ⟨rfl, hs.member, hother.symm,
    c.state.enteredView, c.state.log.entries, _, mem_past_emit _, ?_, ?_, ?_, hc.dump _, ?_⟩)
  · show c.state.lastOp = _
    omega
  · show c.state.log.lastViewstamp.1 = _
    rw [hc.log_eq]
  · have hle := hrun.committed.1
    refine (minOf_le _ _).trans ?_
    show c.state.lastCommitted ≤ _
    omega
  · rw [past_emit]
    exact hrun.committed.2.append _

theorem handleStartViewChange_runs (hs : Setting env h) (hc : Runs env h c)
    (view replicaIdx lastCommitted : ℕ) :
    wp (handleStartViewChange env view replicaIdx lastCommitted) (fun _ => Runs env h)
      (Dies env h) c := by
  rw [handleStartViewChange, wp_bind, wp_read, wp_ite]
  refine ⟨fun _ => hc, fun hold => ?_⟩
  rw [wp_ite]
  refine ⟨fun _ => hc, fun hsame => ?_⟩
  rw [wp_bind, wp_when]
  constructor
  · intro hbegin
    have hbegin : c.state.status ≠ .viewChange ∨ c.state.view < view := of_decide_eq_true hbegin
    have hnew : c.state.view < view := by
      rcases accepts_of_not hold hsame with hlt | ⟨-, hchanging⟩
      · exact hlt
      · exact hbegin.resolve_left fun hne => hne hchanging
    exact wp_mono (fun _ c' hc' => collectStartViewChange_runs hs hc'.1 hc'.2.2.1 _ _)
      (fun _ h => h) (startViewChange_runs hc hnew)
  · intro hbegin
    have hbegin : ¬(c.state.status ≠ .viewChange ∨ c.state.view < view) :=
      of_decide_eq_false hbegin
    refine collectStartViewChange_runs hs hc ?_ _ _
    exact not_not.1 fun hne => hbegin (.inl hne)

theorem handleTimer_runs (hc : Runs env h c) (t : ReplicaTimer) :
    wp (handleTimer env t) (fun _ => Runs env h) (Dies env h) c := by
  have hrun := hc.node.2
  cases t with
  | viewChange =>
      rw [handleTimer, wp_bind, wp_read, wp_when]
      refine ⟨fun _ => ?_, fun _ => hc⟩
      exact wp_mono (fun _ _ h => h.1) (fun _ h => h)
        (startViewChange_runs hc (Nat.lt_succ_self c.state.view))
  | nullCommit =>
      rw [handleTimer, wp_bind, wp_read, wp_when]
      refine ⟨fun _ => ?_, fun _ => hc⟩
      rw [sendNullCommit, wp_bind, wp_read]
      exact wp_mono (fun _ _ h => h.1) (fun _ h => h)
        (hc.sendMessageToAll fun _ => hrun.committed.2.mono hrun.entered)
  | stateTransfer =>
      rw [handleTimer]
      exact hc.update ⟨rfl, rfl, rfl, rfl, rfl, rfl, rfl, rfl, rfl, rfl⟩
  | resendPrepare =>
      rw [handleTimer, wp_bind, wp_read, wp_when]
      refine ⟨fun _ => ?_, fun _ => hc⟩
      rw [resendPrepare, wp_bind, wp_read, wp_when]
      refine ⟨fun _ => ?_, fun _ => hc⟩
      exact wp_mono (fun _ _ h => h.1) (fun _ h => h) (hc.sendMessageToAll fun _ => hrun.prepare)
  | closeBatch =>
      rw [handleTimer, wp_bind, wp_read, wp_when]
      refine ⟨fun hrunning => ?_, fun _ => hc⟩
      obtain ⟨hnormal, hleader⟩ := hrun.closing hrunning
      exact closeBatch_runs hc hnormal hleader

end Handlers

end Replica

end D2PC.Vr
