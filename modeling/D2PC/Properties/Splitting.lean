import D2PC.Invariant.Rounds
import D2PC.Properties.Retransmission

/-!
# Splitting a transaction in the slow mode

The client gathers the whole transaction at the primary shard, and the leader there splits it
again into one piece for each participant. `SendPrepare` writes the value of a write over its
key and leaves the value out, it routes keys by its own hash, and a piece that comes back to
the primary shard after the round was closed is split once more, without participants. A
merged message that is sent again while the round is open is executed as it is.

* `prepareMessages_lookup` : the pieces of a transaction whose keys belong to participants;
* `Config.SplitsRight` : the steps in which none of this goes wrong;
* `slow_split` : in every run of such steps every leader has prepared exactly what the client
  buffered for its shard, and only participants receive pieces;
* `slow_split_write` : a run with a single write.
-/

namespace D2PC

open Prog Ctx

/-! ### Pieces -/

/-- What the client buffered for the participant `s`, write by write and read by read. -/
def BufferedFor (h : History) (tid : TxnId) (s : Shard) (txn : Transaction) : Prop :=
  ∃ st, startOf h tid = some st ∧ s ∈ st.participants ∧
    (∀ k, txn.writeSet.lookup k = (st.piece tid s).writeSet.lookup k) ∧
    ∀ k, txn.readSet.lookup k = (st.piece tid s).readSet.lookup k

/-- The whole transaction, as it is gathered at the primary shard. -/
def Whole (cfg : Config) (h : History) (tid : TxnId) (participants : List Shard)
    (txn : Transaction) : Prop :=
  ∃ st, startOf h tid = some st ∧ Planned cfg tid st ∧
    (∀ q, q ∈ participants ↔ q ∈ st.participants) ∧
    txn.Within (fun k => st.piece tid (cfg.keyToShard k)) ∧
    ∀ p ∈ st.participants, (st.piece tid p).Within fun _ => txn

section Pieces

variable {cfg : Config} {h es : History} {tid : TxnId} {s : Shard} {ps : List Shard}
  {txn sub : Transaction}

theorem BufferedFor.mono (ht : BufferedFor h tid s txn) : BufferedFor (h ++ es) tid s txn := by
  obtain ⟨st, hst, hrest⟩ := ht
  exact ⟨st, startOf_mono hst, hrest⟩

theorem BufferedFor.member (ht : BufferedFor h tid s txn) : Member h tid s := by
  obtain ⟨st, hst, hs, _⟩ := ht
  exact ⟨st, hst, hs⟩

/-- Only the entries count. -/
theorem BufferedFor.congr (ht : BufferedFor h tid s txn) (hw : sub.writeSet = txn.writeSet)
    (hr : sub.readSet = txn.readSet) : BufferedFor h tid s sub := by
  obtain ⟨st, hst, hs, hwrites, hreads⟩ := ht
  exact ⟨st, hst, hs, hw ▸ hwrites, hr ▸ hreads⟩

theorem Whole.mono (ht : Whole cfg h tid ps txn) : Whole cfg (h ++ es) tid ps txn := by
  obtain ⟨st, hst, hrest⟩ := ht
  exact ⟨st, startOf_mono hst, hrest⟩

/-- **A part.** The entries of the whole transaction whose keys the client routes to a
participant are what it buffered there. -/
theorem Whole.part (ht : Whole cfg h tid ps txn) (hs : s ∈ ps)
    (hw : ∀ k v, sub.writeSet.lookup k = some v ↔
      txn.writeSet.lookup k = some v ∧ cfg.keyToShard k = s)
    (hr : ∀ k v, sub.readSet.lookup k = some v ↔
      txn.readSet.lookup k = some v ∧ cfg.keyToShard k = s) :
    BufferedFor h tid s sub := by
  obtain ⟨st, hst, hplan, hps, hsound, hall⟩ := ht
  have hmem : s ∈ st.participants := (hps s).1 hs
  refine ⟨st, hst, hmem, fun k => Option.ext fun v => ?_, fun k => Option.ext fun v => ?_⟩
  · simp only [hw]
    constructor
    · rintro ⟨hv, rfl⟩
      exact hsound.writes k v hv
    · intro hv
      have hholds : k ∈ (st.piece tid s).writeSet := AList.lookup_isSome.1 (by rw [hv]; rfl)
      exact ⟨(hall s hmem).writes k v hv, (hplan.routed s k (.inl hholds)).1⟩
  · simp only [hr]
    constructor
    · rintro ⟨hv, rfl⟩
      exact hsound.reads k v hv
    · intro hv
      have hholds : k ∈ (st.piece tid s).readSet := AList.lookup_isSome.1 (by rw [hv]; rfl)
      exact ⟨(hall s hmem).reads k v hv, (hplan.routed s k (.inr hholds)).1⟩

/-- Every key of the whole transaction belongs to a participant. -/
theorem Whole.routed (ht : Whole cfg h tid ps txn) {k : Key} (hk : txn.Holds k) :
    cfg.keyToShard k ∈ ps := by
  obtain ⟨st, hst, hplan, hps, hsound, _⟩ := ht
  refine (hps _).2 (hplan.routed _ k ?_).2
  rcases hk with hk | hk
  · obtain ⟨v, hv⟩ := Option.isSome_iff_exists.1 (AList.lookup_isSome.2 hk)
    exact .inl (AList.lookup_isSome.1 (by rw [hsound.writes k v hv]; rfl))
  · obtain ⟨v, hv⟩ := Option.isSome_iff_exists.1 (AList.lookup_isSome.2 hk)
    exact .inr (AList.lookup_isSome.1 (by rw [hsound.reads k v hv]; rfl))

end Pieces

namespace Replica

/-! ### What `SendPrepare` builds -/

/-- The piece of a participant. -/
def pieceFor (env : ReplicaEnv) (req : PendingPrepare) (q : Shard) : PrepareTransaction where
  tid := req.tid
  primaryShard := env.shardId
  wset := (req.txn.writeSet.toList.filter fun w => keyToShard env.cfg.nshards w.1 = q).map
    fun w => (w.2, "")
  rset := (req.txn.readSet.toList.filter fun r => keyToShard env.cfg.nshards r.1 = q).map
    fun r => ⟨r.1, r.2.id, r.2.timestamp⟩

theorem foldl_wset (l : List (Key × Value)) (m : PrepareTransaction) :
    l.foldl (fun m w => { m with wset := m.wset ++ [(w.2, "")] }) m =
      { m with wset := m.wset ++ l.map fun w => (w.2, "") } := by
  induction l generalizing m with
  | nil => simp
  | cons w l ih => rw [List.foldl_cons, ih, List.map_cons, List.append_assoc, List.singleton_append]

theorem foldl_rset (l : List (Key × Timestamp)) (m : PrepareTransaction) :
    l.foldl (fun m r => { m with rset := m.rset ++ [⟨r.1, r.2.id, r.2.timestamp⟩] }) m =
      { m with rset := m.rset ++ l.map fun r => ⟨r.1, r.2.id, r.2.timestamp⟩ } := by
  induction l generalizing m with
  | nil => simp
  | cons r l ih => rw [List.foldl_cons, ih, List.map_cons, List.append_assoc, List.singleton_append]

/-- **The pieces**, where every key hashes to a participant: one for each participant. -/
theorem prepareMessages_lookup (env : ReplicaEnv) (req : PendingPrepare)
    (hkeys : ∀ k, req.txn.Holds k → keyToShard env.cfg.nshards k ∈ req.participants)
    (q : Shard) : (prepareMessages env req).lookup q =
      if q ∈ req.participants then some (pieceFor env req q) else none := by
  have hbase : ∀ q, (req.participants.foldl (fun (t : Table Shard PrepareTransaction) p =>
      t.insert p { tid := req.tid, primaryShard := env.shardId }) ∅).lookup q =
      if q ∈ req.participants then some { tid := req.tid, primaryShard := env.shardId }
        else none :=
    fun q => Table.lookup_foldl_const _ _ ∅ q
  have hwrites := fun q => Table.lookup_foldl_bucket
    (fun w : Key × Value => keyToShard env.cfg.nshards w.1)
    (fun (m : PrepareTransaction) w => { m with wset := m.wset ++ [(w.2, "")] }) { tid := 0 }
    (l := req.txn.writeSet.toList) (t := req.participants.foldl
      (fun (t : Table Shard PrepareTransaction) p =>
        t.insert p { tid := req.tid, primaryShard := env.shardId }) ∅)
    (fun w hw => by
      rw [← AList.lookup_isSome, hbase, if_pos (hkeys w.1 (.inl ?_))]
      · rfl
      · exact AList.lookup_isSome.1 (by rw [Table.mem_toList.1 hw]; rfl)) q
  refine (Table.lookup_foldl_bucket
    (fun r : Key × Timestamp => keyToShard env.cfg.nshards r.1)
    (fun (m : PrepareTransaction) r =>
      { m with rset := m.rset ++ [⟨r.1, r.2.id, r.2.timestamp⟩] }) { tid := 0 }
    (fun r hr => ?_) q).trans ?_
  · rw [← AList.lookup_isSome, hwrites, hbase, if_pos (hkeys r.1 (.inr ?_))]
    · rfl
    · exact AList.lookup_isSome.1 (by rw [Table.mem_toList.1 hr]; rfl)
  · rw [hwrites, hbase]
    split_ifs
    · simp only [Option.map_some, foldl_wset, foldl_rset, List.nil_append]
      rfl
    · rfl

/-- Without participants and entries there are no pieces. -/
theorem prepareMessages_empty {env : ReplicaEnv} {req : PendingPrepare}
    (hps : req.participants = []) (hw : req.txn.writeSet.toList = [])
    (hr : req.txn.readSet.toList = []) : (prepareMessages env req).toList = [] := by
  simp only [prepareMessages, hps, hw, hr, List.foldl_nil]
  rfl

/-! ### The condition -/

/-- Each key is one that both sides route alike. -/
def hashesRight (cfg : Config) (m : PrepareTransaction) : Bool :=
  (m.wset.map Prod.fst ++ m.rset.map (·.key)).all fun k =>
    decide (keyToShard cfg.nshards k = cfg.keyToShard k)

/-- All keys of the message belong to shard `s`. -/
def belongs (cfg : Config) (s : Shard) (m : PrepareTransaction) : Bool :=
  (m.wset.map Prod.fst ++ m.rset.map (·.key)).all fun k => decide (cfg.keyToShard k = s)

/-- A prepare that is split holds no write but that of the empty value to the empty key, which
is the only one `SendPrepare` does not change, and its keys are hashed to the shards they
belong to; without participants it is empty. One that is executed is a piece, or is prepared
already, or has only keys of this shard. -/
def splitsRight (env : ReplicaEnv) (r : Replica) : Msg → Bool
  | .prepareTransaction m =>
      (!decide (Dispatched env r m) ||
        if m.participants = [] then m.wset.isEmpty && m.rset.isEmpty
        else m.wset.all (fun w => decide (w = ("", ""))) && hashesRight env.cfg m) &&
      (!decide (Executes env r m) || decide (m.participants = []) ||
        decide (m.tid ∈ r.store.prepared) || belongs env.cfg env.shardId m)
  | _ => true

end Replica

/-- **Splitting goes right.** -/
def Config.SplitsRight (cfg : Config) : StepCond
  | w, .replica s i, _, .recv p =>
      Replica.splitsRight ⟨cfg, s, i⟩ (GlobalState.replica w s i) p.msg = true
  | _, _, _, _ => True

instance (cfg : Config) (w : GlobalState) (n : Node) (ω : Choice) (input : Input Addr Msg Act) :
    Decidable (cfg.SplitsRight w n ω input) :=
  match n, input with
  | .replica _ _, .recv _ => inferInstanceAs (Decidable (_ = true))
  | .replica _ _, .act _ => .isTrue trivial
  | .client _, _ => .isTrue trivial
  | .coordinator _, _ => .isTrue trivial

/-! ### The invariant -/

/-- A prepare that is open at the primary shard is that of a whole transaction that splits
into its pieces, or is empty. -/
def Splittable (cfg : Config) (h : History) (tid : TxnId) (req : PendingPrepare) : Prop :=
  req.tid = tid ∧
    ((req.participants = [] ∧ req.txn.writeSet.toList = [] ∧ req.txn.readSet.toList = []) ∨
      (Whole cfg h tid req.participants req.txn ∧
        (∀ w ∈ req.txn.writeSet.toList, w = ("", "")) ∧
        ∀ k, req.txn.Holds k → Replica.keyToShard cfg.nshards k = cfg.keyToShard k))

/-- What holds of replica `i` of shard `s`. -/
structure SplitOk (cfg : Config) (s : Shard) (i : ℕ) (h : History) (r : Replica) : Prop where
  opened : ∀ tid req, r.pendingPrepares.lookup tid = some req → Splittable cfg h tid req
  prepared : i = cfg.leader s → ∀ tid txn, r.store.prepared.lookup tid = some txn →
    BufferedFor h tid s txn

/-- What holds of the pieces a replica sends. -/
def SplitPkt (h : History) (p : Pkt) : Prop :=
  match p.msg with
  | .prepareTransaction m => p.src = .sendOnly → m.participants = [] ∧
      ∃ s i, p.dst = .replica s i ∧ BufferedFor h m.tid s (Replica.transactionOf m)
  | _ => True

section Invariant

variable {cfg : Config} {h es : History} {tid : TxnId} {s : Shard} {i : ℕ} {r₀ : Replica}
  {req : PendingPrepare} {m : PrepareTransaction} {input : Input Addr Msg Act}

theorem Splittable.mono (hreq : Splittable cfg h tid req) : Splittable cfg (h ++ es) tid req :=
  ⟨hreq.1, hreq.2.imp_right fun ⟨hwhole, hrest⟩ => ⟨hwhole.mono, hrest⟩⟩

theorem SplitOk.mono {r : Replica} (hr : SplitOk cfg s i h r) : SplitOk cfg s i (h ++ es) r :=
  ⟨fun tid req hreq => (hr.opened tid req hreq).mono,
    fun hi tid txn htxn => (hr.prepared hi tid txn htxn).mono⟩

theorem SplitPkt.mono {p : Pkt} (hp : SplitPkt h p) : SplitPkt (h ++ es) p := by
  obtain ⟨src, dst, msg⟩ := p
  cases msg with
  | prepareTransaction m =>
      intro hsrc
      obtain ⟨hps, s, i, hdst, hbuf⟩ := hp hsrc
      exact ⟨hps, s, i, hdst, hbuf.mono⟩
  | _ => trivial

/-- The reads of a piece are read back as they were. -/
theorem transactionOf_pieceFor (env : ReplicaEnv) (req : PendingPrepare) (q : Shard) :
    (Replica.transactionOf (Replica.pieceFor env req q)).readSet = Table.ofList
      (req.txn.readSet.toList.filter fun r => Replica.keyToShard env.cfg.nshards r.1 = q) := by
  simp only [Replica.transactionOf, Replica.pieceFor, List.map_map]
  congr 1
  exact List.map_id _

/-- **Splitting.** The pieces of an open prepare are what the client buffered. -/
theorem Splittable.piece (env : ReplicaEnv) (hreq : Splittable env.cfg h tid req)
    (hm : (s, m) ∈ (Replica.prepareMessages env req).toList) :
    m.tid = tid ∧ m.participants = [] ∧ BufferedFor h tid s (Replica.transactionOf m) := by
  obtain ⟨htid, ⟨hps, hw, hr⟩ | ⟨hwhole, hwrites, hroutes⟩⟩ := hreq
  · rw [Replica.prepareMessages_empty hps hw hr] at hm
    cases hm
  · have hkeys : ∀ k, req.txn.Holds k →
        Replica.keyToShard env.cfg.nshards k ∈ req.participants := by
      intro k hk
      rw [hroutes k hk]
      exact hwhole.routed hk
    have hlook := Replica.prepareMessages_lookup env req hkeys s
    rw [Table.mem_toList.1 hm] at hlook
    split_ifs at hlook with hs
    obtain rfl : m = Replica.pieceFor env req s := Option.some.inj hlook
    refine ⟨htid, rfl, hwhole.part hs (fun k v => ?_) fun k v => ?_⟩
    · -- no write is changed
      have hsame : (Replica.pieceFor env req s).wset = req.txn.writeSet.toList.filter fun w =>
          Replica.keyToShard env.cfg.nshards w.1 = s := by
        refine (List.map_congr_left fun w hw => ?_).trans (List.map_id _)
        rw [hwrites w (List.mem_filter.1 hw).1]
        rfl
      simp only [Replica.transactionOf, hsame]
      rw [Table.lookup_ofList_filter _ fun k => decide (Replica.keyToShard env.cfg.nshards k = s)]
      simp only [decide_eq_true_eq, Option.ite_none_right_eq_some]
      refine ⟨fun ⟨hk, hv⟩ => ⟨hv, ?_⟩, fun ⟨hv, hk⟩ => ⟨?_, hv⟩⟩
      · rw [← hk, hroutes k (.inl (AList.lookup_isSome.1 (by rw [hv]; rfl)))]
      · rw [← hk, hroutes k (.inl (AList.lookup_isSome.1 (by rw [hv]; rfl)))]
    · rw [transactionOf_pieceFor,
        Table.lookup_ofList_filter _ fun k => decide (Replica.keyToShard env.cfg.nshards k = s)]
      simp only [decide_eq_true_eq, Option.ite_none_right_eq_some]
      refine ⟨fun ⟨hk, hv⟩ => ⟨hv, ?_⟩, fun ⟨hv, hk⟩ => ⟨?_, hv⟩⟩
      · rw [← hk, hroutes k (.inr (AList.lookup_isSome.1 (by rw [hv]; rfl)))]
      · rw [← hk, hroutes k (.inr (AList.lookup_isSome.1 (by rw [hv]; rfl)))]

/-! ### One step -/

/-- What is known of the prepare at hand. -/
structure Fitting (cfg : Config) (s : Shard) (i : ℕ) (h : History) (r₀ : Replica)
    (m : PrepareTransaction) : Prop where
  dispatched : Replica.Dispatched ⟨cfg, s, i⟩ r₀ m →
    ∀ req : PendingPrepare, req.tid = m.tid → req.txn = Replica.transactionOf m →
      req.participants = m.participants → Splittable cfg h m.tid req
  executed : Replica.Executes ⟨cfg, s, i⟩ r₀ m →
    m.tid ∈ r₀.store.prepared ∨ BufferedFor h m.tid s (Replica.transactionOf m)

/-- **One move** keeps the invariant; the leader copies nothing. -/
theorem SplitOk.move {D : Option TxnId} {x y : Ctx Replica Addr Msg Event}
    (hin : ∀ src dst m, input = .recv ⟨src, dst, .prepareTransaction m⟩ → Fitting cfg s i h r₀ m)
    (hcopy : ∀ src dst m, input = .recv ⟨src, dst, .replicateTransaction m⟩ →
      x.state.log.find m.txnLog.lsn = none → i ≠ cfg.leader s)
    (hx : SplitOk cfg s i h x.state) (hmove : Replica.Move ⟨cfg, s, i⟩ r₀ input D x y) :
    SplitOk cfg s i h y.state := by
  cases hmove with
  | quiet r hr => exact ⟨hr.prepares ▸ hx.opened, hr.store ▸ hx.prepared⟩
  | copy src dst m clock txn hm hnew hwset hts hlist =>
      exact ⟨hx.opened, fun hi => absurd hi (hcopy src dst m hm hnew)⟩
  | prepare src dst m clock doCheck hm hexec hfirst =>
      refine ⟨hx.opened, fun hi tid txn htxn => ?_⟩
      rcases (hin src dst m hm).executed hexec with hold | hbuf
      · -- prepared already
        rw [← hfirst] at hold
        have hsame := TxnStore.prepare_prepared hold clock
          (Transaction.ofMessage (Replica.executed ⟨cfg, s, i⟩ r₀ m).serialize) doCheck
        simp only [TxnStore.prepareUpcall, hsame] at htxn
        exact hx.prepared hi tid txn htxn
      · obtain ⟨p, q, htables, hp, _⟩ := TxnStore.prepare_tables x.state.store clock m.tid
          (Transaction.ofMessage (Replica.executed ⟨cfg, s, i⟩ r₀ m).serialize) doCheck
        simp only [TxnStore.prepareUpcall, htables.prepared] at htxn
        rcases hp with rfl | rfl
        · exact hx.prepared hi tid txn htxn
        · rw [Table.lookup_insert_eq] at htxn
          split_ifs at htxn with htid
          · subst htid
            rw [Transaction.ofMessage_serialize] at htxn
            cases htxn
            exact hbuf.congr rfl rfl
          · exact hx.prepared hi tid txn htxn
  | preCommit tid =>
      exact ⟨hx.opened, fun hi t txn htxn =>
        hx.prepared hi t txn (TxnStore.preCommit_prepared_some htxn)⟩
  | commit tid ts =>
      exact ⟨hx.opened, fun hi t txn htxn =>
        hx.prepared hi t txn (TxnStore.commit_prepared_some htxn)⟩
  | abort tid ts =>
      exact ⟨hx.opened, fun hi t txn htxn =>
        hx.prepared hi t txn (TxnStore.abort_prepared_some htxn)⟩
  | cascade tid =>
      exact ⟨hx.opened, fun hi t txn htxn =>
        hx.prepared hi t txn (TxnStore.abort_prepared_some htxn)⟩
  | follow tid store hs =>
      refine ⟨hx.opened, fun hi t txn htxn => hx.prepared hi t txn ?_⟩
      rcases hs with rfl | ⟨ts, rfl⟩
      · exact TxnStore.abort_prepared_some htxn
      · exact TxnStore.commit_prepared_some htxn
  | openPrepare src dst m req hm hdisp htid htxn hps =>
      refine ⟨fun t req' hreq' => ?_, hx.prepared⟩
      rw [Table.lookup_insert_eq] at hreq'
      split_ifs at hreq' with ht
      · cases hreq'
        subst ht
        exact (hin src dst m hm).dispatched hdisp req htid htxn hps
      · exact hx.opened t req' hreq'
  | touchPrepare tid req req' hreq htid htxn hps =>
      refine ⟨fun t req'' hreq'' => ?_, hx.prepared⟩
      rw [Table.lookup_insert_eq] at hreq''
      split_ifs at hreq'' with ht
      · cases hreq''
        subst ht
        have hold := hx.opened _ req hreq
        rw [Splittable, htid, htxn, hps]
        exact hold
      · exact hx.opened t req'' hreq''
  | closePrepare tid =>
      refine ⟨fun t req hreq => ?_, hx.prepared⟩
      rw [Table.lookup_erase_eq] at hreq
      split_ifs at hreq
      exact hx.opened t req hreq
  | _ => exact ⟨hx.opened, hx.prepared⟩

/-- What an open prepare hands out. -/
theorem SplitOk.handedOut (hr : SplitOk cfg s i h r₀)
    (hin : ∀ src dst m, input = .recv ⟨src, dst, .prepareTransaction m⟩ → Fitting cfg s i h r₀ m)
    {p : Pkt} (hp : Replica.HandedOut ⟨cfg, s, i⟩ r₀ input p m) : SplitPkt h p := by
  obtain ⟨t, req, q, j, hknown, hpiece, rfl⟩ := hp
  have hreq : ∃ t, Splittable cfg h t req := by
    rcases hknown with hopen | ⟨src, dst, m', hm', hdisp, htid, htxn, hps⟩
    · exact ⟨t, hr.opened t req hopen⟩
    · exact ⟨m'.tid, (hin src dst m' hm').dispatched hdisp req htid htxn hps⟩
  obtain ⟨t', hreq⟩ := hreq
  obtain ⟨htid, hps, hbuf⟩ := Splittable.piece ⟨cfg, s, i⟩ hreq hpiece
  exact fun _ => ⟨hps, q, j, rfl, htid ▸ hbuf⟩

/-- The keys of a message are those of its transaction. -/
theorem holds_transactionOf {k : Key} (hk : (Replica.transactionOf m).Holds k) :
    k ∈ m.wset.map Prod.fst ++ m.rset.map (·.key) := by
  refine List.mem_append.2 (hk.imp (fun hk => ?_) fun hk => ?_)
  · obtain ⟨v, hv⟩ := Option.isSome_iff_exists.1 (AList.lookup_isSome.2 hk)
    exact List.mem_map.2 ⟨(k, v), Table.mem_of_lookup_ofList hv, rfl⟩
  · obtain ⟨v, hv⟩ := Option.isSome_iff_exists.1 (AList.lookup_isSome.2 hk)
    obtain ⟨r, hr, heq⟩ := List.mem_map.1 (Table.mem_of_lookup_ofList hv)
    exact List.mem_map.2 ⟨r, hr, congrArg Prod.fst heq⟩

/-- The prepare of a client holds the whole transaction. -/
theorem Carried.whole {once : Prop} {st : Start} (hg : cfg.Gathers)
    (hst : startOf h m.tid = some st) (hplan : Planned cfg m.tid st)
    (hm : Carried once cfg m.tid st s m.txn) :
    Whole cfg h m.tid m.participants (Replica.transactionOf m) := by
  obtain ⟨_, hsound, hall⟩ := hm.gathered hg
  exact ⟨st, hst, hplan, hm.listed, ⟨hsound.writes, hsound.reads⟩,
    fun p hp => ⟨(hall p hp).writes, (hall p hp).reads⟩⟩

/-- **A prepare that arrives** where splitting goes right. -/
theorem fitting {once : Prop} {src dst : Addr} (hg : cfg.Gathers)
    (hround : RoundPkt once cfg h ⟨src, dst, .prepareTransaction m⟩)
    (hsplit : SplitPkt h ⟨src, dst, .prepareTransaction m⟩) (hdst : dst = .replica s i)
    (hright : Replica.splitsRight ⟨cfg, s, i⟩ r₀ (.prepareTransaction m) = true) :
    Fitting cfg s i h r₀ m := by
  simp only [Replica.splitsRight, Bool.and_eq_true, Bool.or_eq_true, Bool.not_eq_true',
    decide_eq_false_iff_not, decide_eq_true_eq] at hright
  obtain ⟨hdisp, hexec⟩ := hright
  rcases hround with hsrc | ⟨q, hsrc, ⟨st, hst, hplan, hm⟩, ⟨j, hq⟩, _⟩
  · -- a piece
    obtain ⟨hps, q, j, hq, hbuf⟩ := hsplit hsrc
    cases hdst.symm.trans hq
    refine ⟨fun hd req htid htxn hreq => ⟨htid, .inl ?_⟩, fun _ => .inr hbuf⟩
    have hempty := hdisp.resolve_left fun hnot => hnot hd
    rw [if_pos hps, Bool.and_eq_true, List.isEmpty_iff, List.isEmpty_iff] at hempty
    refine ⟨hreq.trans hps, ?_, ?_⟩
    · rw [htxn, Replica.transactionOf, hempty.1]
      rfl
    · rw [htxn, Replica.transactionOf, hempty.2]
      rfl
  · -- the message of the client
    cases hdst.symm.trans hq
    have hmem : s ∈ m.participants := (hm.listed s).2 hm.member
    have hne : m.participants ≠ [] := List.ne_nil_of_mem hmem
    have hwhole := Carried.whole hg hst hplan hm
    refine ⟨fun hd req htid htxn hreq => ⟨htid, .inr ?_⟩, fun he => ?_⟩
    · have hgood := hdisp.resolve_left fun hnot => hnot hd
      rw [if_neg hne, Bool.and_eq_true, List.all_eq_true, Replica.hashesRight,
        List.all_eq_true] at hgood
      rw [htxn, hreq]
      refine ⟨hwhole, fun w hw => ?_, fun k hk => ?_⟩
      · exact of_decide_eq_true
          (hgood.1 w (Table.mem_of_lookup_ofList (Table.mem_toList.1 hw)))
      · exact of_decide_eq_true (hgood.2 k (holds_transactionOf hk))
    · rcases hexec with ((hnot | hnil) | hold) | hhere
      · exact absurd he hnot
      · exact absurd hnil hne
      · exact .inl hold
      · rw [Replica.belongs, List.all_eq_true] at hhere
        have hroute : ∀ k, (Replica.transactionOf m).Holds k → cfg.keyToShard k = s :=
          fun k hk => of_decide_eq_true (hhere k (holds_transactionOf hk))
        refine .inr (hwhole.part hmem (fun k v => ?_) fun k v => ?_)
        · refine ⟨fun hv => ⟨hv, hroute k (.inl ?_)⟩, And.left⟩
          exact AList.lookup_isSome.1 (by rw [hv]; rfl)
        · refine ⟨fun hv => ⟨hv, hroute k (.inr ?_)⟩, And.left⟩
          exact AList.lookup_isSome.1 (by rw [hv]; rfl)

end Invariant

/-! ### Every run -/

/-- The invariant of a process; only that of a replica says something. -/
def SplitNode (cfg : Config) (h : History) : (n : Node) → Local n → Prop
  | .replica s i, r => SplitOk cfg s i h r
  | _, _ => True

section Run

variable {cfg : Config} {w : GlobalState}

theorem SplitNode.init (hload : cfg.Loaded) (n : Node) : SplitNode cfg [] n (cfg.init n) := by
  cases n with
  | client tid => trivial
  | coordinator c => trivial
  | replica s i =>
      refine ⟨fun tid req hreq => (by cases hreq), fun _ tid txn htxn => ?_⟩
      have hnone : (cfg.store s i).prepared.lookup tid = none := by
        rw [(hload s i).1]
        rfl
      cases hnone.symm.trans htxn

theorem SplitNode.frame {h : History} {n n' : Node} (es : List Event) {x : Local n}
    (hx : SplitNode cfg h n x) : SplitNode cfg (h ++ es.map (n', ·)) n x := by
  cases n with
  | client tid => trivial
  | coordinator c => trivial
  | replica s i => exact SplitOk.mono hx

/-- What the others send is no piece. -/
theorem Client.Utters.splitPkt {h : History} {tid : TxnId} {p : Pkt} (hp : Client.Utters tid p) :
    SplitPkt h p := by
  obtain ⟨src, dst, msg⟩ := p
  obtain ⟨_, s, rfl⟩ := hp
  cases msg with
  | prepareTransaction m => exact fun h => by cases h
  | _ => trivial

theorem Msg.ofCoordinator.splitPkt {h : History} {p : Pkt} (hp : p.msg.ofCoordinator) :
    SplitPkt h p := by
  obtain ⟨src, dst, msg⟩ := p
  cases msg with
  | prepareTransaction m => exact hp.elim
  | _ => trivial

/-- The step of a replica. -/
theorem split_step {s : Shard} {i : ℕ} {ω : Choice} {input : Input Addr Msg Act}
    (hslow : cfg.mode = .slow) (hw : cfg.system.Reach cfg.SplitsRight w)
    (hr : SplitOk cfg s i w.history (w.replica s i)) (hpkt : ∀ p ∈ w.net, SplitPkt w.history p)
    (hen : cfg.system.Enabled w (.replica s i) input)
    (hc : cfg.SplitsRight w (.replica s i) ω input) :
    Good (SplitOk cfg s i) SplitPkt w.history (.replica s i)
      (Replica.handleInput ⟨cfg, s, i⟩ ω input { state := w.replica s i }).state := by
  have hin : ∀ src dst m, input = .recv ⟨src, dst, .prepareTransaction m⟩ →
      Fitting cfg s i w.history (w.replica s i) m := by
    rintro src dst m rfl
    have hround := (Config.rounds (fun ho : False => ho.elim) hw).2 _ hen.2.1
    have hdst : dst = .replica s i := Config.owner_replica hen.2.2
    exact fitting (.inl hslow) hround (hpkt _ hen.2.1) hdst hc
  -- the leader has every entry it replicates
  have hcopy : ∀ {D x}, Replica.Moves ⟨cfg, s, i⟩ (w.replica s i) input D
      { state := w.replica s i } x → ∀ src dst m,
      input = .recv ⟨src, dst, .replicateTransaction m⟩ →
      x.state.log.find m.txnLog.lsn = none → i ≠ cfg.leader s := by
    rintro D x hmoves src dst m rfl hnew
    obtain ⟨_, hlive, hdated⟩ := Config.dated (fun ho : False => ho.elim) hw
    have hx := Dating.of_moves hw (hlive (.replica s i) hen.1) hdated hen
      (ω := ω) (fun ho => ho.elim) hmoves
    exact hx.node.follower (filed_of_recv hdated hen).mono hnew
  obtain ⟨D, hmoves⟩ := wp_state
    (Replica.handleInput_stopped ⟨cfg, s, i⟩ ω input { state := w.replica s i })
  refine ⟨SplitOk.mono ?_, fun p hp => ?_⟩
  · generalize (Replica.handleInput ⟨cfg, s, i⟩ ω input { state := w.replica s i }).state = y
      at hmoves
    induction hmoves with
    | refl => exact hr
    | tail hbefore hmove ih => exact ih.move hin (hcopy hbefore) hmove
  · refine SplitPkt.mono ?_
    cases hm : p.msg with
    | prepareTransaction m =>
        exact hr.handedOut hin (Replica.handleInput_handedOut hp hm)
    | _ => simp only [SplitPkt, hm]

/-- **The invariant** of the runs in which splitting goes right. -/
theorem Config.split (hslow : cfg.mode = .slow) (hload : cfg.Loaded)
    (hw : cfg.system.Reach cfg.SplitsRight w) :
    (∀ n, SplitNode cfg w.history n (w.state n)) ∧ ∀ p ∈ w.net, SplitPkt w.history p := by
  refine hw.invariant (SplitNode.init hload) (fun _ _ _ => SplitPkt.mono)
    (fun _ _ _ es _ _ => SplitNode.frame es) ?_
  intro (w : GlobalState) n ω input hw hnode hpkt hen hc
  cases n with
  | client tid =>
      exact (Client.handleInput_sends ⟨cfg, tid⟩ ω input).good (fun _ _ => trivial)
        (fun _ _ => trivial) Client.Utters.splitPkt
  | replica s i => exact wp_of_state (split_step hslow hw (hnode (.replica s i)) hpkt hen hc)
  | coordinator c =>
      exact (Coordinator.handleInput_sends ⟨cfg, c⟩ ω input).good (fun _ _ => trivial)
        (fun _ _ => trivial) Msg.ofCoordinator.splitPkt

/-- **Splitting preserves the transaction.** In every slow run in which a prepare that is split
has no write that `SendPrepare` changes and only keys that both sides route alike, and in
which what is executed is a piece, is prepared already or belongs to the shard as a whole,
every leader has prepared exactly the writes and reads the client buffered for its shard, and
no shard outside the participants is sent a prepare. -/
theorem slow_split (hslow : cfg.mode = .slow) (hload : cfg.Loaded)
    (hw : cfg.system.Reach cfg.SplitsRight w) :
    (∀ s tid txn, (w.replica s (cfg.leader s)).store.prepared.lookup tid = some txn →
      BufferedFor w.history tid s txn) ∧
    ∀ p ∈ w.net, ∀ m s i, p.msg = .prepareTransaction m → p.dst = .replica s i →
      Member w.history m.tid s := by
  obtain ⟨hnode, hpkt⟩ := Config.split hslow hload hw
  refine ⟨fun s tid txn htxn => ?_, fun p hp m s i hm hdst => ?_⟩
  · have hr : SplitOk cfg s (cfg.leader s) w.history (w.replica s (cfg.leader s)) :=
      hnode (.replica s (cfg.leader s))
    exact hr.prepared rfl tid txn htxn
  · have hround := (Config.rounds (fun ho : False => ho.elim) hw).2 p hp
    have hsplit := hpkt p hp
    simp only [RoundPkt, hm] at hround
    simp only [SplitPkt, hm] at hsplit
    rcases hround with hsrc | ⟨q, _, ⟨st, hst, _, hcarried⟩, ⟨j, hq⟩, _⟩
    · obtain ⟨_, q, j, hq, hbuf⟩ := hsplit hsrc
      cases hdst.symm.trans hq
      exact hbuf.member
    · cases hdst.symm.trans hq
      exact ⟨st, hst, hcarried.member⟩

end Run

/-- The slow mode over two shards, with a key loaded. -/
def loadedSlow : Config :=
  { threeReplicas .slow 2 with
    store := fun _ _ => TxnStore.load "a" "0" ⟨3, 0⟩ (.occ { store := {} }) }

/-- A read of the loaded key, and the one write that is not changed; both leaders prepare
their pieces. -/
def readSlow : Commands :=
  [act 7 (.put "" ""), act 7 (.get "a"), act 7 (.task 0), deliver 0, deliver 1, act 7 .wake,
    act 7 .commit, act 7 (.task 0), deliver 2, deliver 3, deliver 4]

theorem readSlow_splits : (loadedSlow.run loadedSlow.SplitsRight readSlow).isSome := by
  decide +kernel

theorem slow_split_read :
    ∃ w : GlobalState, loadedSlow.system.Reach loadedSlow.SplitsRight w ∧
      ∃ read written : Transaction, read.readSet.lookup "a" = some ⟨3, 0⟩ ∧
        written.writeSet.lookup "" = some "" ∧ BufferedFor w.history 7 0 read ∧
        BufferedFor w.history 7 1 written := by
  have hw := Config.reach_run readSlow_splits
  have hload : loadedSlow.Loaded := fun _ _ => ⟨rfl, rfl⟩
  have hread : ((GlobalState.replica ((loadedSlow.run loadedSlow.SplitsRight readSlow).get
      readSlow_splits) 0 0).store.prepared.lookup 7).map (·.readSet.lookup "a") =
        some (some ⟨3, 0⟩) := by
    decide +kernel
  have hwritten : ((GlobalState.replica ((loadedSlow.run loadedSlow.SplitsRight readSlow).get
      readSlow_splits) 1 1).store.prepared.lookup 7).map (·.writeSet.lookup "") =
        some (some "") := by
    decide +kernel
  obtain ⟨read, hread, ha⟩ := Option.map_eq_some_iff.1 hread
  obtain ⟨written, hwritten, hb⟩ := Option.map_eq_some_iff.1 hwritten
  obtain ⟨hsplit, _⟩ := slow_split rfl hload hw
  exact ⟨_, hw, read, written, ha, hb, hsplit 0 7 read hread, hsplit 1 7 written hwritten⟩

/-- A single write in the slow mode, up to its prepare. -/
def writeSlow : Commands :=
  [act 7 (.put "a" "1"), act 7 .commit, act 7 (.task 0), deliver 0, deliver 1]

theorem writeSlow_runs : ((threeReplicas .slow 1).run anyStep writeSlow).isSome := by
  decide +kernel

/-- **A write is lost in the slow mode**: the client wrote `1` to the key `a`, and the leader
prepares a write of the empty value to the key `1`. -/
theorem slow_split_write :
    ∃ w : GlobalState, (threeReplicas .slow 1).system.Reach anyStep w ∧
      ∃ txn, (w.replica 0 ((threeReplicas .slow 1).leader 0)).store.prepared.lookup 7 = some txn ∧
        txn.writeSet.toList = [("1", "")] ∧ ¬ BufferedFor w.history 7 0 txn := by
  have htxn : ((GlobalState.replica (((threeReplicas .slow 1).run anyStep writeSlow).get
      writeSlow_runs) 0 0).store.prepared.lookup 7).map (·.writeSet.toList) =
        some [("1", "")] := by
    decide +kernel
  have hbuf : (startOf (((threeReplicas .slow 1).run anyStep writeSlow).get
      writeSlow_runs).history 7).map (fun st => (st.piece 7 0).writeSet.lookup "a") =
        some (some "1") := by
    decide +kernel
  obtain ⟨txn, hlook, hlist⟩ := Option.map_eq_some_iff.1 htxn
  refine ⟨_, Config.reach_run writeSlow_runs, txn, hlook, hlist, ?_⟩
  rintro ⟨st, hst, _, hwrites, _⟩
  rw [hst, Option.map_some] at hbuf
  have hmem := (hwrites "a").trans (Option.some.inj hbuf)
  rw [← Table.mem_toList, hlist] at hmem
  exact absurd hmem (by decide)

end D2PC
