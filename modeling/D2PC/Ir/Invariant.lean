import D2PC.Ir.Merge
import D2PC.Ir.System
import D2PC.Lib.Votes

/-!
# What the records of a view hold

Every view starts with one record, the one its leader merged. A replica in normal status has all
the consensus operations of that record, and those it executed in the view itself; what it gives
to a later merge is its record of its latest normal view. All of this is told by the history, so
that it holds at any later time.

* `Executed`, `Confirmed`, `Contributed`, `Merged`, `Finalizing` : what the processes recorded;
* `RecordOk` : the record of a replica against the record its view started with;
* `ReplicaOk`, `ClientOk`, `PacketOk` : the invariant of the processes and of the packets;
* `Certificate` : how a merged record came about.
-/

namespace D2PC.Ir

variable {σ Op Res : Type}

/-! ### What the history says -/

/-- Replica `i` executed the consensus operation in the view. -/
def Executed (h : History Op Res) (i view : ℕ) (o : OpId) (res : Res) : Prop :=
  ∃ op, (Node.replica i, Event.replica (.executed view o op res)) ∈ h

/-- Replica `i` finalised the consensus operation for its client in the view. -/
def Confirmed (h : History Op Res) (i view : ℕ) (o : OpId) : Prop :=
  ∃ res, (Node.replica i, Event.replica (.confirmed view o res)) ∈ h

/-- Replica `i` gave the record of its latest normal view to the merge for the view. -/
def Contributed (h : History Op Res) (i view latest : ℕ)
    (R : Record Op Res) : Prop :=
  (Node.replica i, Event.replica (.contributed view latest R)) ∈ h

/-- The leader of the view merged the record. -/
def Merged (cfg : Config) (h : History Op Res) (view : ℕ) (R : Record Op Res) : Prop :=
  (Node.replica (cfg.leader view), Event.replica (.merged view R)) ∈ h

/-- The record the view starts with. -/
def Started (cfg : Config) (h : History Op Res) (view : ℕ) (R : Record Op Res) : Prop :=
  (view = 0 ∧ R = ∅) ∨ Merged cfg h view R

/-- The client of the operation has sent finalize messages with the result. -/
def Finalizing (h : History Op Res) (o : OpId) (res : Res) : Prop :=
  (Node.client o.1, Event.client (.finalizing o.2 res)) ∈ h

/-- The operation was invoked, as one of the type. -/
def Invoked (h : History Op Res) (o : OpId) (type : RecordEntryType) : Prop :=
  ∃ op, (Node.client o.1, Event.client (.invoked o.2 type op)) ∈ h

/-- The record has the consensus operation finalised with the result. -/
def Holds (R : Record Op Res) (o : OpId) (res : Res) : Prop :=
  ∃ e, R.lookup o = some e ∧ e.type = .consensus ∧ e.state = .finalized ∧ e.result = res

variable {cfg : Config} {h : History Op Res} {i view : ℕ} {o : OpId} {res : Res}
variable {R R₀ : Record Op Res} {e : RecordEntry Op Res}

section Mono

variable (es : History Op Res)

theorem Executed.mono (hx : Executed h i view o res) : Executed (h ++ es) i view o res := by
  obtain ⟨op, hmem⟩ := hx
  exact ⟨op, List.mem_append_left _ hmem⟩

theorem Confirmed.mono (hx : Confirmed h i view o) : Confirmed (h ++ es) i view o := by
  obtain ⟨res, hmem⟩ := hx
  exact ⟨res, List.mem_append_left _ hmem⟩

theorem Contributed.mono {latest : ℕ}
    (hx : Contributed h i view latest R) : Contributed (h ++ es) i view latest R :=
  List.mem_append_left _ hx

theorem Merged.mono (hx : Merged cfg h view R) : Merged cfg (h ++ es) view R :=
  List.mem_append_left _ hx

theorem Started.mono (hx : Started cfg h view R) : Started cfg (h ++ es) view R :=
  hx.imp_right (·.mono es)

theorem Finalizing.mono (hx : Finalizing h o res) : Finalizing (h ++ es) o res :=
  List.mem_append_left _ hx

theorem Invoked.mono {type : RecordEntryType} (hx : Invoked h o type) :
    Invoked (h ++ es) o type := by
  obtain ⟨op, hmem⟩ := hx
  exact ⟨op, List.mem_append_left _ hmem⟩

end Mono

/-! ### Records -/

/-- An entry of a record, whichever: its operation was invoked as one of its type, and a
consensus operation was finalised by its client or by the merge of the view it is marked with. -/
structure EntryOk (cfg : Config) (h : History Op Res) (o : OpId) (e : RecordEntry Op Res) :
    Prop where
  invoked : Invoked h o e.type
  origin : e.type = .consensus → e.state = .finalized → (∃ res, Finalizing h o res) ∨
    ∃ R, Merged cfg h e.view R ∧ Holds R o e.result

/-- All entries of a record. -/
def Entries (cfg : Config) (h : History Op Res) (R : Record Op Res) : Prop :=
  ∀ o e, R.lookup o = some e → EntryOk cfg h o e

/-- **The record of replica `i` in a view**, against the one the view started with. -/
structure RecordAt (h : History Op Res) (i view : ℕ) (R₀ R : Record Op Res) : Prop where
  /-- The consensus operations of the start are there, finalised. -/
  start : ∀ o e₀, R₀.lookup o = some e₀ → e₀.type = .consensus →
    ∃ e, R.lookup o = some e ∧ e.type = .consensus ∧ e.state = .finalized
  /-- A tentative operation was executed in the view. -/
  tentative : ∀ o e, R.lookup o = some e → e.type = .consensus → e.state = .tentative →
    Executed h i view o e.result ∧ e.view = view
  /-- A finalised operation has the result of its client, or of the start. -/
  finalized : ∀ o e, R.lookup o = some e → e.type = .consensus → e.state = .finalized →
    Finalizing h o e.result ∨ ∃ e₀, R₀.lookup o = some e₀ ∧ e₀.type = .consensus ∧
      e₀.result = e.result
  /-- What was executed in the view is there. -/
  executed : ∀ o res, Executed h i view o res → ∃ e, R.lookup o = some e ∧ e.type = .consensus ∧
    (e.state = .tentative → e.result = res)
  /-- What was confirmed in the view is there, finalised. -/
  confirmed : ∀ o, Confirmed h i view o → ∃ e, R.lookup o = some e ∧ e.type = .consensus ∧
    e.state = .finalized

/-- The record of replica `i` in a view that was started. -/
def RecordOk (cfg : Config) (h : History Op Res) (i view : ℕ) (R : Record Op Res) : Prop :=
  ∃ R₀, Started cfg h view R₀ ∧ RecordAt h i view R₀ R

/-- A record that a view starts with: its consensus operations are finalised. -/
def Master (R : Record Op Res) : Prop :=
  ∀ o e, R.lookup o = some e → e.type = .consensus → e.state = .finalized

/-- Events of other processes are not those of `n`. -/
theorem mem_frame {n n' : Node} (hn : n ≠ n') (es : List (Event Op Res)) (e : Event Op Res) :
    (n, e) ∈ h ++ es.map (n', ·) ↔ (n, e) ∈ h := by
  rw [List.mem_append, or_iff_left_iff_imp]
  intro hmem
  obtain ⟨e', _, heq⟩ := List.mem_map.1 hmem
  cases heq
  exact absurd rfl hn

theorem mem_concat {n n' : Node} {e e' : Event Op Res} :
    (n, e) ∈ h ++ [(n', e')] ↔ (n, e) ∈ h ∨ n = n' ∧ e = e' := by
  rw [List.mem_append, List.mem_singleton, Prod.mk.injEq]

theorem EntryOk.mono (he : EntryOk cfg h o e) (es : History Op Res) :
    EntryOk cfg (h ++ es) o e := by
  refine ⟨he.invoked.mono es, fun ht hs => ?_⟩
  rcases he.origin ht hs with ⟨res, hf⟩ | ⟨R, hm, hh⟩
  · exact .inl ⟨res, hf.mono es⟩
  · exact .inr ⟨R, hm.mono es, hh⟩

theorem Entries.mono (hR : Entries cfg h R) (es : History Op Res) : Entries cfg (h ++ es) R :=
  fun o e he => (hR o e he).mono es

/-- The replica did nothing in the view meanwhile. -/
def Quiet (h es : History Op Res) (i view : ℕ) : Prop :=
  (∀ o res, Executed (h ++ es) i view o res → Executed h i view o res) ∧
    ∀ o, Confirmed (h ++ es) i view o → Confirmed h i view o

theorem RecordAt.mono (hR : RecordAt h i view R₀ R) {es : History Op Res}
    (hquiet : Quiet h es i view) : RecordAt (h ++ es) i view R₀ R := by
  refine ⟨hR.start, fun o e he ht hs => ?_, fun o e he ht hs => ?_, fun o res hx => ?_,
    fun o hc => hR.confirmed o (hquiet.2 o hc)⟩
  · obtain ⟨hx, hv⟩ := hR.tentative o e he ht hs
    exact ⟨hx.mono es, hv⟩
  · exact (hR.finalized o e he ht hs).imp_left (·.mono es)
  · exact hR.executed o res (hquiet.1 o res hx)

theorem RecordOk.mono (hR : RecordOk cfg h i view R) {es : History Op Res}
    (hquiet : Quiet h es i view) : RecordOk cfg (h ++ es) i view R := by
  obtain ⟨R₀, hstart, hat⟩ := hR
  exact ⟨R₀, hstart.mono es, hat.mono hquiet⟩

theorem RecordAt.empty : RecordAt ([] : History Op Res) i 0 ∅ ∅ := by
  refine ⟨fun o e he => ?_, fun o e he => ?_, fun o e he => ?_, ?_, ?_⟩
  · cases he
  · cases he
  · cases he
  · rintro o res ⟨op, hmem⟩
    cases hmem
  · rintro o ⟨res, hmem⟩
    cases hmem

/-! ### Clients and packets -/

/-- What a client bases a result on: a replica that executed the operation in the view, or the
merge that finalised it with this result. -/
def Grounded (cfg : Config) (h : History Op Res) (o : OpId) (res : Res) (view : ℕ) : Prop :=
  (∃ i res', Executed h i view o res') ∨ ∃ R, Merged cfg h view R ∧ Holds R o res

/-- **The evidence for a success**: a super quorum executed the operation with the result, or a
quorum confirmed the result that was decided on. -/
def Evidence (cfg : Config) (h : History Op Res) (o : OpId) (res : Res) (view : ℕ) : Prop :=
  (∃ S ⊆ Finset.range cfg.n, cfg.fastQuorumSize ≤ S.card ∧ ∀ i ∈ S, Executed h i view o res) ∨
    ∃ S ⊆ Finset.range cfg.n, cfg.quorumSize ≤ S.card ∧ (∀ i ∈ S, Confirmed h i view o) ∧
      Grounded cfg h o res view

/-- A pending consensus request. -/
structure ConsensusOk (cfg : Config) (h : History Op Res) (o : OpId)
    (req : PendingConsensus Op Res) : Prop where
  invoked : Invoked h o .consensus
  replies : ∀ v i reply, (req.consensusReplyQuorum.getMessages v).lookup i = some reply →
    i < cfg.n ∧ (reply.finalized = false → Executed h i v o reply.result)
  tentative : req.sentConfirms = false ∨ req.slowPathTimer = true → ∀ v i reply,
    (req.consensusReplyQuorum.getMessages v).lookup i = some reply → reply.finalized = false
  confirms : ∀ v i, (req.confirmQuorum.getMessages v).lookup i = some () →
    i < cfg.n ∧ Confirmed h i v o
  decided : req.sentConfirms = true → req.continuationInvoked = false →
    Grounded cfg h o req.decideResult req.replyConsensusView
  fast : req.sentConfirms = true → req.slowPathTimer = true → req.continuationInvoked = true
  answered : req.continuationInvoked = true → req.sentConfirms = true
  slow : req.onSlowPath = true → req.slowPathTimer = false

/-- A pending request. -/
def RequestOk (cfg : Config) (h : History Op Res) (o : OpId) : PendingRequest Op Res → Prop
  | .inconsistent _ => Invoked h o .inconsistent
  | .consensus req => ConsensusOk cfg h o req

/-- **A client.** -/
structure ClientOk (cfg : Config) (h : History Op Res) (c : ℕ) (s : Client Op Res) : Prop where
  numbered : ∀ r type, Invoked h (c, r) type → r ≤ s.lastReqId
  kinds : ∀ r, Invoked h (c, r) .consensus → ¬ Invoked h (c, r) .inconsistent
  pending : ∀ r req, s.pendingReqs.lookup r = some req → RequestOk cfg h (c, r) req
  finalizing : ∀ r res, Finalizing h (c, r) res → Invoked h (c, r) .consensus ∧
    ∀ req, s.pendingReqs.lookup r = some (.consensus req) →
      req.sentConfirms = true ∧ req.decideResult = res
  succeeded : ∀ r res v, (Node.client c, Event.client (.succeeded r res v)) ∈ h →
    Invoked h (c, r) .consensus ∧ (∀ res', Finalizing h (c, r) res' → res' = res) ∧
      Evidence cfg h (c, r) res v ∧
      ∀ req, s.pendingReqs.lookup r = some (.consensus req) →
        req.continuationInvoked = true ∧ req.decideResult = res

/-- **A packet.** -/
def PacketOk (cfg : Config) (h : History Op Res) (p : Packet Node (Msg Op Res)) : Prop :=
  match p.msg with
  | .proposeInconsistent o _ => p.src = .client o.1 ∧ Invoked h o .inconsistent
  | .finalizeInconsistent o => p.src = .client o.1 ∧ Invoked h o .inconsistent
  | .proposeConsensus o _ => p.src = .client o.1 ∧ Invoked h o .consensus
  | .finalizeConsensus o res => p.src = .client o.1 ∧ Finalizing h o res
  | .replyInconsistent _ _ _ _ => True
  | .replyConsensus v i o res finalized => p.dst = .client o.1 ∧ i < cfg.n ∧
      (finalized = false → Executed h i v o res) ∧
      (finalized = true → (∃ res', Finalizing h o res') ∨
        ∃ R, Merged cfg h v R ∧ Holds R o res)
  | .confirm v i o => p.dst = .client o.1 ∧ i < cfg.n ∧
      ((Confirmed h i v o ∧ ∃ res, Finalizing h o res) ∨ Invoked h o .inconsistent)
  | .doViewChange m => m.replicaIdx < cfg.n ∧ p.dst ≠ .replica m.replicaIdx ∧
      (p.dst = .replica (cfg.leader m.newView) → ∃ R, m.record = some R ∧
        Contributed h m.replicaIdx m.newView m.latestNormalView R)
  | .startView R v => 0 < v ∧ Merged cfg h v R

theorem Grounded.mono {v : ℕ} (hg : Grounded cfg h o res v) (es : History Op Res) :
    Grounded cfg (h ++ es) o res v := by
  rcases hg with ⟨i, res', hx⟩ | ⟨R, hm, hh⟩
  · exact .inl ⟨i, res', hx.mono es⟩
  · exact .inr ⟨R, hm.mono es, hh⟩

theorem Evidence.mono {v : ℕ} (he : Evidence cfg h o res v) (es : History Op Res) :
    Evidence cfg (h ++ es) o res v := by
  rcases he with ⟨S, hsub, hcard, hall⟩ | ⟨S, hsub, hcard, hall, hg⟩
  · exact .inl ⟨S, hsub, hcard, fun i hi => (hall i hi).mono es⟩
  · exact .inr ⟨S, hsub, hcard, fun i hi => (hall i hi).mono es, hg.mono es⟩

theorem ConsensusOk.mono {req : PendingConsensus Op Res} (hq : ConsensusOk cfg h o req)
    (es : History Op Res) : ConsensusOk cfg (h ++ es) o req where
  invoked := hq.invoked.mono es
  replies := fun v i reply hr =>
    ⟨(hq.replies v i reply hr).1, fun hf => ((hq.replies v i reply hr).2 hf).mono es⟩
  tentative := hq.tentative
  confirms := fun v i hc => ⟨(hq.confirms v i hc).1, (hq.confirms v i hc).2.mono es⟩
  decided := fun hs hc => (hq.decided hs hc).mono es
  fast := hq.fast
  answered := hq.answered
  slow := hq.slow

theorem RequestOk.mono {req : PendingRequest Op Res} (hq : RequestOk cfg h o req)
    (es : History Op Res) : RequestOk cfg (h ++ es) o req := by
  cases req with
  | inconsistent req => exact Invoked.mono es hq
  | consensus req => exact ConsensusOk.mono hq es

/-- A client does not notice what the others record. -/
theorem ClientOk.frame {c : ℕ} {s : Client Op Res} (hs : ClientOk cfg h c s)
    {es : History Op Res} (hown : ∀ e, (Node.client c, Event.client e) ∈ h ++ es →
      (Node.client c, Event.client e) ∈ h) : ClientOk cfg (h ++ es) c s := by
  have hinv : ∀ r type, Invoked (h ++ es) (c, r) type → Invoked h (c, r) type := by
    rintro r type ⟨op, hmem⟩
    exact ⟨op, hown _ hmem⟩
  refine ⟨fun r type hi => hs.numbered r type (hinv r type hi),
    fun r hi hi' => hs.kinds r (hinv _ _ hi) (hinv _ _ hi'),
    fun r req hq => (hs.pending r req hq).mono es, fun r res hf => ?_, fun r res v hx => ?_⟩
  · obtain ⟨hi, hreq⟩ := hs.finalizing r res (hown _ hf)
    exact ⟨hi.mono es, hreq⟩
  · obtain ⟨hi, hfin, he, hreq⟩ := hs.succeeded r res v (hown _ hx)
    exact ⟨hi.mono es, fun res' hf => hfin res' (hown _ hf), he.mono es, hreq⟩

theorem PacketOk.mono {p : Packet Node (Msg Op Res)} (es : History Op Res)
    (hp : PacketOk cfg h p) : PacketOk cfg (h ++ es) p := by
  obtain ⟨src, dst, msg⟩ := p
  cases msg with
  | proposeInconsistent o op => exact ⟨hp.1, hp.2.mono es⟩
  | finalizeInconsistent o => exact ⟨hp.1, hp.2.mono es⟩
  | proposeConsensus o op => exact ⟨hp.1, hp.2.mono es⟩
  | finalizeConsensus o res => exact ⟨hp.1, hp.2.mono es⟩
  | replyInconsistent v i o finalized => trivial
  | replyConsensus v i o res finalized =>
      obtain ⟨hdst, hi, hten, hfin⟩ := hp
      refine ⟨hdst, hi, fun hf => (hten hf).mono es, fun hf => ?_⟩
      rcases hfin hf with ⟨res', hr⟩ | ⟨R, hm, hh⟩
      · exact .inl ⟨res', hr.mono es⟩
      · exact .inr ⟨R, hm.mono es, hh⟩
  | confirm v i o =>
      obtain ⟨hdst, hi, hc⟩ := hp
      refine ⟨hdst, hi, hc.imp ?_ (·.mono es)⟩
      rintro ⟨hc, res, hf⟩
      exact ⟨hc.mono es, res, hf.mono es⟩
  | doViewChange m =>
      obtain ⟨hi, hne, hlead⟩ := hp
      refine ⟨hi, hne, fun hd => ?_⟩
      obtain ⟨R, hR, hc⟩ := hlead hd
      exact ⟨R, hR, hc.mono es⟩
  | startView R v => exact ⟨hp.1, hp.2.mono es⟩

/-! ### Merges and replicas -/

variable [DecidableEq Res]

/-- What a merge makes of the latest records: a finalised consensus operation is kept, and
without a finalised entry a majority result wins. -/
def Outcome (cfg : Config) (latest : List (Record Op Res)) (R : Record Op Res) : Prop :=
  ∀ o, (∀ e ∈ latest.filterMap fun R' => R'.lookup o, e.type = .consensus) →
    (∀ e, (latest.filterMap fun R' => R'.lookup o).find? Replica.isFinalized = some e →
      R.lookup o = some e) ∧
    ∀ res, (∀ e ∈ latest.filterMap fun R' => R'.lookup o, e.state = .tentative) →
      Replica.majorityResult cfg (latest.filterMap fun R' => R'.lookup o) = some res →
      latest.filterMap (fun R' => R'.lookup o) ≠ [] → Holds R o res

/-- **How a merged record came about.** A quorum of `f + 1` replicas contributed, and the records of
the largest normal view were merged. -/
structure Certificate (cfg : Config) (h : History Op Res) (view : ℕ) (R : Record Op Res) where
  quorum : Finset ℕ
  latest : ℕ → ℕ
  record : ℕ → Record Op Res
  max : ℕ
  order : List ℕ
  deployed : quorum ⊆ Finset.range cfg.n
  card : quorum.card = cfg.f + 1
  contributed : ∀ i ∈ quorum, Contributed h i view (latest i) (record i)
  le_max : ∀ i ∈ quorum, latest i ≤ max
  nodup : order.Nodup
  mem_order : ∀ i, i ∈ order ↔ i ∈ quorum ∧ latest i = max
  nonempty : order ≠ []
  outcome : Outcome cfg (order.map record) R

/-- A certificate stays valid. -/
def Certificate.mono (cert : Certificate cfg h view R) (es : History Op Res) :
    Certificate cfg (h ++ es) view R :=
  { cert with
    contributed := fun i hi => (cert.contributed i hi).mono es }

/-- **A replica.** -/
structure ReplicaOk (cfg : Config) (h : History Op Res) (i : ℕ) (r : Replica σ Op Res) :
    Prop where
  normal : r.status = .normal → r.latestNormalView = r.view
  changing : r.status ≠ .normal → r.latestNormalView < r.view
  entries : Entries cfg h r.record
  record : RecordOk cfg h i r.latestNormalView r.record
  acted : ∀ v o, (∃ res, Executed h i v o res) ∨ Confirmed h i v o → v ≤ r.latestNormalView
  executed : ∀ v o res, Executed h i v o res → ∃ R₀, Started cfg h v R₀ ∧
    ∀ e₀, R₀.lookup o = some e₀ → e₀.type ≠ .consensus
  contributed : ∀ u l R, Contributed h i u l R → u ≤ r.view ∧ l < u ∧
    Entries cfg h R ∧ RecordOk cfg h i l R ∧
    ∀ v o, (∃ res, Executed h i v o res) ∨ Confirmed h i v o → v < u → v ≤ l
  merged : ∀ u R, (Node.replica i, Event.replica (.merged u R)) ∈ h → i = cfg.leader u ∧ 0 < u ∧
    u ≤ r.view ∧ (u = r.view → r.status = .normal) ∧ Entries cfg h R ∧ Master R ∧
    Nonempty (Certificate cfg h u R)
  unique : ∀ u R R', (Node.replica i, Event.replica (.merged u R)) ∈ h →
    (Node.replica i, Event.replica (.merged u R')) ∈ h → R = R'
  collected : ∀ u j m, (r.doViewChangeQuorum.getMessages u).lookup j = some m → j ≠ i ∧
    j < cfg.n ∧ m.replicaIdx = j ∧ m.newView = u ∧ ∃ R, m.record = some R ∧
      Contributed h j u m.latestNormalView R
  collecting : r.status ≠ .normal → (r.doViewChangeQuorum.getMessages r.view).size < cfg.f ∨
    r.doViewChangeQuorum.getMessages r.view = ∅
  ahead : ∀ u, r.view < u → r.doViewChangeQuorum.getMessages u = ∅

/-- The invariant of a process. -/
def NodeOk (cfg : Config) (h : History Op Res) : (n : Node) → State σ Op Res n → Prop
  | .replica i, r => ReplicaOk cfg h i r
  | .client c, s => ClientOk cfg h c s

/-- A replica does not notice what the others record, nor what it performs. -/
theorem ReplicaOk.frame {r : Replica σ Op Res} (hr : ReplicaOk cfg h i r) {es : History Op Res}
    (hown : ∀ e, (∀ o op, e ≠ .performed o op) → (Node.replica i, Event.replica e) ∈ h ++ es →
      (Node.replica i, Event.replica e) ∈ h) : ReplicaOk cfg (h ++ es) i r := by
  have hexec : ∀ v o res, Executed (h ++ es) i v o res → Executed h i v o res := by
    rintro v o res ⟨op, hmem⟩
    exact ⟨op, hown _ (fun _ _ heq => by cases heq) hmem⟩
  have hconf : ∀ v o, Confirmed (h ++ es) i v o → Confirmed h i v o := by
    rintro v o ⟨res, hmem⟩
    exact ⟨res, hown _ (fun _ _ heq => by cases heq) hmem⟩
  have hmerged : ∀ u R, (Node.replica i, Event.replica (.merged u R)) ∈ h ++ es →
      (Node.replica i, Event.replica (.merged u R)) ∈ h := fun u R =>
    hown _ fun _ _ heq => by cases heq
  have hquiet : ∀ v, Quiet h es i v := fun v => ⟨hexec v, hconf v⟩
  have hacted : ∀ v o, (∃ res, Executed (h ++ es) i v o res) ∨ Confirmed (h ++ es) i v o →
      (∃ res, Executed h i v o res) ∨ Confirmed h i v o := by
    rintro v o (⟨res, hx⟩ | hc)
    · exact .inl ⟨res, hexec v o res hx⟩
    · exact .inr (hconf v o hc)
  refine ⟨hr.normal, hr.changing, hr.entries.mono es, hr.record.mono (hquiet _),
    fun v o hx => hr.acted v o (hacted v o hx), fun v o res hx => ?_, fun u l R hc => ?_,
    fun u R hm => ?_, fun u R R' hm hm' => hr.unique u R R' (hmerged _ _ hm) (hmerged _ _ hm'),
    fun u j m hl => ?_, hr.collecting, hr.ahead⟩
  · obtain ⟨R₀, hstart, hnot⟩ := hr.executed v o res (hexec v o res hx)
    exact ⟨R₀, hstart.mono es, hnot⟩
  · obtain ⟨hu, hl, hE, hR, hlast⟩ := hr.contributed u l R
      (hown _ (fun _ _ heq => by cases heq) hc)
    exact ⟨hu, hl, hE.mono es, hR.mono (hquiet _),
      fun v o hx => hlast v o (hacted v o hx)⟩
  · obtain ⟨hi, hpos, hu, hn, hE, hM, ⟨cert⟩⟩ := hr.merged u R (hmerged _ _ hm)
    exact ⟨hi, hpos, hu, hn, hE.mono es, hM, ⟨cert.mono es⟩⟩
  · obtain ⟨hne, hlt, hidx, hv, R, hR, hc⟩ := hr.collected u j m hl
    exact ⟨hne, hlt, hidx, hv, R, hR, hc.mono es⟩

theorem NodeOk.frame {n n' : Node} (hn : n ≠ n') (es : List (Event Op Res)) {s : State σ Op Res n}
    (hs : NodeOk cfg h n s) : NodeOk cfg (h ++ es.map (n', ·)) n s := by
  cases n with
  | replica i => exact ReplicaOk.frame hs fun e _ => (mem_frame hn es _).1
  | client c => exact ClientOk.frame hs fun e => (mem_frame hn es _).1

theorem NodeOk.init (dep : Deployment σ Op Res) (n : Node) :
    NodeOk cfg [] n (dep.initial n) := by
  cases n with
  | replica i =>
      refine ⟨fun _ => rfl, fun hs => absurd rfl hs, fun o e he => ?_,
        ⟨∅, .inl ⟨rfl, rfl⟩, RecordAt.empty⟩, ?_, ?_, ?_, ?_, ?_, ?_,
        fun hs => absurd rfl hs, fun u _ => rfl⟩
      · cases he
      · rintro v o (⟨res, op, hmem⟩ | ⟨res, hmem⟩)
        · cases hmem
        · cases hmem
      · rintro v o res ⟨op, hmem⟩
        cases hmem
      · intro u l R hmem
        cases hmem
      · intro u R hmem
        cases hmem
      · intro u R R' hmem
        cases hmem
      · intro u j m hl
        cases hl
  | client c =>
      refine ⟨?_, ?_, fun r req hq => ?_, ?_, ?_⟩
      · rintro r type ⟨op, hmem⟩
        cases hmem
      · rintro r ⟨op, hmem⟩
        cases hmem
      · cases hq
      · intro r res hmem
        cases hmem
      · intro r res v hmem
        cases hmem

end D2PC.Ir
