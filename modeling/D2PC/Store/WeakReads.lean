import D2PC.Store.WeakCalls

/-!
# What the weakly consistent store returns

Every step keeps the invariant that does not disturb the calls of the clients that can be trusted.

* `Weak.Inv.step` : with one lemma for each step;
* `Weak.regular_reads` : a `Get` returns no value that was overwritten before it was called;
* `Weak.puts_stored` : what was acknowledged is stored by every replica;
* `Weak.staleReplies_acknowledge` : unless an earlier call timed out.
-/

namespace D2PC.Weak

open Register

variable {cfg : Config} {loaded : Shard → ℕ → KVStore} {trusted : ℕ → Prop}
variable {h : List Event} {c g : ℕ} {e : Event} {key : Key} {status : ℕ} {value : Value} {w : Write}
variable {s s' : System} {op : Op} {shard : Shard} {p : Packet}

/-! ### The steps -/

theorem call_eq (cfg : Config) (op : Op) (hidle : s.calling c = false) :
    ∃ x : ShardClient, x.waiting = some s.history.length ∧
      x.scheduled = (s.shardClients c (cfg.keyToShard op.key)).scheduled ++
        [⟨s.history.length, op⟩] ∧
      (∀ key value, op = .put key value → x.totalReplies = 0) ∧
      s.call cfg c op = { s.setShardClient c (cfg.keyToShard op.key) x with
        calling := Function.update s.calling c true
        history := s.history ++ [.called c op] } := by
  rw [System.call, if_neg (by rw [hidle]; exact Bool.false_ne_true)]
  refine ⟨_, rfl, rfl, fun key value hop => ?_, rfl⟩
  subst hop
  rfl

theorem Inv.call (hinv : Inv cfg loaded trusted s) (c : ℕ) (op : Op) :
    Inv cfg loaded trusted (s.call cfg c op) := by
  cases hbusy : s.calling c with
  | true =>
      rw [System.call, if_pos hbusy]
      exact hinv
  | false =>
      obtain ⟨x, hwaiting, hscheduled, hreplies, heq⟩ := call_eq cfg op hbusy
      have hcalled : (s.history ++ [Event.called c op])[s.history.length]? =
          some (.called c op) := List.getElem?_concat_length ..
      have hat := setShardClient_at s c (cfg.keyToShard op.key) x
      rw [heq]
      refine ⟨hinv.next (hinv.history.called c op) (fun j e he => getElem?_grows he _)
        (fun shard i key => ?_) (fun c' shard' g hg => ?_) (fun c' shard' r hr => ?_)
        (fun p hp => .inl hp), fun c' hc' => ?_⟩
      · show _ = _ ++ ((s.history ++ [Event.called c op]).filterMap _).map _
        rw [filterMap_storedAt fun _ _ _ he => by cases he]
        exact hinv.values shard i key
      · replace hg : ((s.setShardClient c (cfg.keyToShard op.key) x).shardClients c'
          shard').waiting = some g := hg
        rw [hat] at hg
        split_ifs at hg with hsame
        · obtain rfl := Option.some.inj (hwaiting.symm.trans hg)
          exact .inr ⟨op, hsame.1 ▸ hcalled⟩
        · exact .inl hg
      · replace hr : r ∈ ((s.setShardClient c (cfg.keyToShard op.key) x).shardClients c'
          shard').scheduled := hr
        rw [hat] at hr
        split_ifs at hr with hsame
        · obtain ⟨rfl, rfl⟩ := hsame
          rw [hscheduled] at hr
          rcases List.mem_append.1 hr with hold | hnew
          · exact .inl hold
          · obtain rfl := List.mem_singleton.1 hnew
            exact .inr ⟨hcalled, rfl⟩
        · exact .inl hr
      · by_cases hne : c' = c
        · subst hne
          have hidle := hinv.clients c' hc'
          rw [ClientOk, if_neg (by rw [hbusy]; exact Bool.false_ne_true)] at hidle
          rw [ClientOk, if_pos (by exact Function.update_self ..)]
          have hself : (s.setShardClient c' (cfg.keyToShard op.key) x).shardClients c'
              (cfg.keyToShard op.key) = x := by rw [hat, if_pos ⟨rfl, rfl⟩]
          refine ⟨s.history.length, op, hcalled, ?_, fun shard hshard => ?_, .inr ⟨?_,
            hidle.packets, fun shard i w hw hcall => ?_⟩, fun p hp => ?_, ?_, ?_⟩
          · show ((s.setShardClient c' _ x).shardClients c' _).waiting = _
            rw [hself]
            exact hwaiting
          · show ((s.setShardClient c' _ x).shardClients c' shard).scheduled = _
            rw [hat, if_neg fun h => hshard h.2]
            exact hidle.scheduled shard
          · show ((s.setShardClient c' _ x).shardClients c' _).scheduled = _
            rw [hself, hscheduled, hidle.scheduled]
            rfl
          · rcases List.mem_append.1 hw with hold | hnew
            · obtain ⟨j, hj, hget⟩ := List.mem_iff_getElem.1 hold
              have hlt := (hinv.history.stored j shard i w
                (by rw [List.getElem?_eq_getElem hj, hget])).1
              omega
            · cases List.mem_singleton.1 hnew
          · have hp : p ∈ ofClient c' s.network := hp
            rw [hidle.packets] at hp
            exact absurd hp List.not_mem_nil
          · show ((ofClient c' s.network).map Packet.replica).Nodup
            rw [hidle.packets]
            exact List.nodup_nil
          · show Replied cfg _ _ _ ((s.setShardClient c' _ x).shardClients c' _).totalReplies op
            rw [hself]
            cases op with
            | get key => trivial
            | put key value =>
                refine ⟨∅, Finset.empty_subset _, ?_, fun i hi => ?_⟩
                · rw [hreplies key value rfl, Finset.card_empty]
                · exact absurd hi (Finset.notMem_empty i)
        · refine (hinv.clients c' hc').keep hinv.history (fun g op' hg => ?_)
            (setShardClient_other hne x) (Function.update_of_ne hne ..) (List.Sublist.refl _)
          exact .inr ⟨_, rfl, fun _ _ _ he => by cases he⟩

theorem mem_packets {r : Scheduled} (hp : p ∈ System.packets cfg c shard r) :
    p.client = c ∧ p.shard = shard ∧ p.call = r.call ∧ p.msg = r.op.message c := by
  rw [System.packets] at hp
  split at hp
  · rw [List.mem_singleton.1 hp]
    exact ⟨rfl, rfl, rfl, rfl⟩
  · obtain ⟨i, -, rfl⟩ := List.mem_map.1 hp
    exact ⟨rfl, rfl, rfl, rfl⟩

theorem message_injective {c c' : ℕ} {op op' : Op} (h : op.message c = op'.message c') :
    op = op' := by
  cases op with
  | get key =>
      cases op' with
      | get key' => cases h; rfl
      | put key' value' => cases h
  | put key value =>
      cases op' with
      | get key' => cases h
      | put key' value' => cases h; rfl

/-- A request is sent, to all or to some. -/
theorem Recorded.send (hr : Recorded cfg loaded trusted s) {r : Scheduled} {ps : List Packet}
    (hmem : r ∈ (s.shardClients c shard).scheduled)
    (hps : ∀ p ∈ ps, p ∈ System.packets cfg c shard r) {x : ShardClient}
    (hwaiting : x.waiting = (s.shardClients c shard).waiting)
    (hscheduled : x.scheduled.Sublist (s.shardClients c shard).scheduled) :
    Recorded cfg loaded trusted { s.setShardClient c shard x with network := s.network ++ ps } := by
  obtain ⟨hcalled, hshard⟩ := hr.scheduled c shard r hmem
  refine (hr.client hwaiting hscheduled).packets fun p hp => ?_
  rcases List.mem_append.1 hp with hold | hnew
  · exact .inl hold
  · obtain ⟨hclient, hpshard, hcall, hmsg⟩ := mem_packets (hps p hnew)
    refine .inr fun clientId op hop => ?_
    rw [hmsg] at hop
    obtain rfl := message_injective hop
    rw [hcall, hclient, hpshard]
    exact ⟨hcalled, hshard⟩

/-- The request of a call is sent. -/
theorem Calling.send {g : ℕ} (hc : Calling cfg loaded trusted c g op s) {x : ShardClient}
    {r : Scheduled} (hmem : r ∈ (s.shardClients c shard).scheduled)
    (hwaiting : x.waiting = (s.shardClients c shard).waiting)
    (hreplies : x.totalReplies = (s.shardClients c shard).totalReplies)
    (hscheduled : ∀ r, (s.shardClients c shard).scheduled = [r] → x.scheduled = []) :
    Calling cfg loaded trusted c g op { s.setShardClient c shard x with
      network := s.network ++ System.packets cfg c shard r } := by
  by_cases hshard : shard = cfg.keyToShard op.key
  · subst hshard
    rcases hc.scheduled with hnone | ⟨hsome, hpackets, hstored⟩
    · rw [hnone] at hmem
      exact absurd hmem List.not_mem_nil
    · obtain rfl : r = ⟨g, op⟩ := by
        rw [hsome] at hmem
        exact List.mem_singleton.1 hmem
      have hat := setShardClient_at s c (cfg.keyToShard op.key) x
      have hself : (s.setShardClient c (cfg.keyToShard op.key) x).shardClients c
          (cfg.keyToShard op.key) = x := by rw [hat, if_pos ⟨rfl, rfl⟩]
      have hmine : ofClient c (s.network ++ System.packets cfg c (cfg.keyToShard op.key) ⟨g, op⟩) =
          System.packets cfg c (cfg.keyToShard op.key) ⟨g, op⟩ := by
        rw [ofClient_append, hpackets, ofClient_own fun p hp => (mem_packets hp).1]
        rfl
      refine ⟨hc.called, ?_, fun shard hne => ?_, .inl ?_, fun p hp => ?_, ?_, ?_⟩
      · show ((s.setShardClient c _ x).shardClients c _).waiting = _
        rw [hself, hwaiting]
        exact hc.waiting
      · show ((s.setShardClient c _ x).shardClients c shard).scheduled = _
        rw [hat, if_neg fun h => hne h.2]
        exact hc.elsewhere shard hne
      · show ((s.setShardClient c _ x).shardClients c _).scheduled = _
        rw [hself]
        exact hscheduled _ hsome
      · have hp : p ∈ ofClient c (s.network ++ _) := hp
        rw [hmine] at hp
        cases op with
        | get key =>
            rw [List.mem_singleton.1 hp]
            exact ⟨rfl, rfl, rfl, .inl rfl⟩
        | put key value =>
            obtain ⟨i, hi, rfl⟩ := List.mem_map.1 hp
            exact ⟨rfl, rfl, List.mem_range.1 hi, .inl ⟨rfl, fun hw => hstored _ _ _ hw rfl⟩⟩
      · show ((ofClient c (s.network ++ _)).map Packet.replica).Nodup
        rw [hmine]
        cases op with
        | get key => exact List.nodup_singleton _
        | put key value =>
            show (((List.range _).map _).map Packet.replica).Nodup
            rw [List.map_map]
            exact List.nodup_range.map fun i j hij => hij
      · show Replied cfg s.history g (ofClient c (s.network ++ _))
          ((s.setShardClient c _ x).shardClients c _).totalReplies op
        rw [hself, hreplies]
        cases op with
        | get key => trivial
        | put key value =>
            obtain ⟨R, hsub, hcard, hall⟩ := hc.replied
            refine ⟨R, hsub, hcard, fun i hi => ?_⟩
            exact absurd rfl (hstored _ _ _ (hall i hi).1)
  · rw [hc.elsewhere shard hshard] at hmem
    exact absurd hmem List.not_mem_nil

theorem Inv.send (hinv : Inv cfg loaded trusted s) (c : ℕ) (shard : Shard) (i : ℕ)
    {failing : Option ℕ} (hok : trusted c → failing = none) :
    Inv cfg loaded trusted (s.send cfg c shard i failing) := by
  rw [System.send]
  split
  · exact hinv
  · rename_i r hr
    have hmem := List.mem_of_getElem? hr
    have herase := List.eraseIdx_sublist (s.shardClients c shard).scheduled i
    have hmine : ∀ (ps : List Packet) c', c' ≠ c → (∀ p ∈ ps, p ∈ System.packets cfg c shard r) →
        (ofClient c' (s.network ++ ps)).Sublist (ofClient c' s.network) := by
      intro ps c' hne hps
      have hnone : ofClient c' ps = [] := by
        refine List.filter_eq_nil_iff.2 fun p hp hclient => hne ?_
        rw [← (mem_packets (hps p hp)).1, of_decide_eq_true hclient]
      rw [ofClient_append, hnone, List.append_nil]
    cases failing with
    | some k =>
        have hc : ¬ trusted c := fun hc => by cases hok hc
        have htake : ∀ p ∈ (System.packets cfg c shard r).take
            (min k ((System.packets cfg c shard r).length - 1)),
            p ∈ System.packets cfg c shard r := fun p hp => List.mem_of_mem_take hp
        have hsent := hinv.toRecorded.send hmem htake (x := { s.shardClients c shard with
          scheduled := (s.shardClients c shard).scheduled.eraseIdx i }) rfl herase
        refine hinv.foreign hc (hsent.reply fun g op _ _ htrusted => absurd htrusted hc)
          (fun c' g op _ _ => reply_extends) (fun c' hne => ?_) (fun c' hne => ?_)
          fun c' hne => ?_
        · exact (reply_other hne).1.trans (setShardClient_other hne _)
        · exact (reply_other hne).2
        · rw [reply_network]
          exact hmine _ c' hne htake
    | none =>
        have hall : ∀ p ∈ System.packets cfg c shard r, p ∈ System.packets cfg c shard r :=
          fun _ hp => hp
        refine ⟨hinv.toRecorded.send hmem hall rfl herase, fun c' hc' => ?_⟩
        by_cases hne : c' = c
        · subst hne
          have hclient := hinv.clients c' hc'
          rw [ClientOk] at hclient ⊢
          show if s.calling c' then _ else _
          split_ifs at hclient ⊢
          · obtain ⟨g, op, hcall⟩ := hclient
            refine ⟨g, op, hcall.send hmem rfl rfl fun r' hr' => ?_⟩
            rw [hr'] at hr
            obtain ⟨hi, -⟩ := List.getElem?_eq_some_iff.1 hr
            obtain rfl : i = 0 := Nat.lt_one_iff.1 hi
            show (s.shardClients c' shard).scheduled.eraseIdx 0 = []
            rw [hr']
            rfl
          · rw [hclient.scheduled shard] at hmem
            exact absurd hmem List.not_mem_nil
        · exact (hinv.clients c' hc').keep hinv.history (fun _ _ _ => .inl rfl)
            (setShardClient_other hne _) rfl (hmine _ c' hne hall)

theorem Inv.lose (hinv : Inv cfg loaded trusted s) (i : ℕ) :
    Inv cfg loaded trusted { s with network := s.network.eraseIdx i } := by
  refine ⟨hinv.toRecorded.packets fun p hp => ?_, fun c hc => ?_⟩
  · exact .inl ((List.eraseIdx_sublist s.network i).subset hp)
  · exact (hinv.clients c hc).keep hinv.history (fun _ _ _ => .inl rfl) rfl rfl
      (ofClient_erase s.network i)

theorem Inv.duplicate (hinv : Inv cfg loaded trusted s) (i : ℕ)
    (hok : ∀ c, trusted c → ∀ p ∈ s.network[i]?, p.client ≠ c) :
    Inv cfg loaded trusted { s with network := s.network ++ s.network[i]?.toList } := by
  have hold : ∀ p ∈ s.network[i]?.toList, s.network[i]? = some p := fun p hp =>
    Option.mem_toList.1 hp
  refine ⟨hinv.toRecorded.packets fun p hp => ?_, fun c hc => ?_⟩
  · rcases List.mem_append.1 hp with hp | hp
    · exact .inl hp
    · exact .inl (List.mem_of_getElem? (hold p hp))
  · refine (hinv.clients c hc).keep hinv.history (fun _ _ _ => .inl rfl) rfl rfl ?_
    have hnone : ofClient c s.network[i]?.toList = [] :=
      List.filter_eq_nil_iff.2 fun p hp hclient =>
        hok c hc p (hold p hp) (of_decide_eq_true hclient)
    show (ofClient c (s.network ++ _)).Sublist _
    rw [ofClient_append, hnone, List.append_nil]

theorem Inv.timeout (hinv : Inv cfg loaded trusted s) (hc : ¬ trusted c) (shard : Shard) :
    Inv cfg loaded trusted (s.requestTimedOut c shard) := by
  rw [System.requestTimedOut]
  split_ifs
  · have hstopped : Recorded cfg loaded trusted (s.setShardClient c shard
        { s.shardClients c shard with timeout := false }) :=
      hinv.toRecorded.client rfl (List.Sublist.refl _)
    refine hinv.foreign hc (hstopped.reply fun g op _ _ htrusted => absurd htrusted hc)
      (fun c' g op _ _ => reply_extends) (fun c' hne => ?_) (fun c' hne => (reply_other hne).2)
      fun c' hne => ?_
    · exact (reply_other hne).1.trans (setShardClient_other hne _)
    · rw [reply_network]
      exact List.Sublist.refl _
  · exact hinv

/-! ### What is received -/

/-- A packet of a client that can be trusted is one of its call. -/
theorem Inv.calling (hinv : Inv cfg loaded trusted s) {i : ℕ} (hp : s.network[i]? = some p)
    (hc : trusted p.client) : s.calling p.client = true ∧ ∃ g op,
      Calling cfg loaded trusted p.client g op s ∧
        PacketFits cfg loaded trusted s.history p.client g op p ∧
        (s.shardClients p.client (cfg.keyToShard op.key)).scheduled = [] := by
  have hmem : p ∈ ofClient p.client s.network :=
    List.mem_filter.2 ⟨List.mem_of_getElem? hp, decide_eq_true rfl⟩
  have hclient := hinv.clients p.client hc
  rw [ClientOk] at hclient
  split_ifs at hclient with hbusy
  · obtain ⟨g, op, hcall⟩ := hclient
    refine ⟨hbusy, g, op, hcall, hcall.packets p hmem, ?_⟩
    rcases hcall.scheduled with hnone | ⟨-, hpackets, -⟩
    · exact hnone
    · rw [hpackets] at hmem
      exact absurd hmem List.not_mem_nil
  · rw [hclient.packets] at hmem
    exact absurd hmem List.not_mem_nil

/-- The packets of another client, where one was taken and a reply was sent. -/
theorem ofClient_answered {c' : ℕ} (hc : p.client ≠ c') (i : ℕ) (answers : Bool) (msg : Message) :
    (ofClient c' (s.network.eraseIdx i ++ if answers then [{ p with msg := msg }] else [])).Sublist
      (ofClient c' s.network) := by
  have hnone : ofClient c' (if answers then [{ p with msg := msg }] else []) = [] := by
    split_ifs
    · exact ofClient_other hc
    · rfl
  rw [ofClient_append, hnone, List.append_nil]
  exact ofClient_erase s.network i

/-- The packets of the client. -/
theorem ofClient_own_answered {i : ℕ} (hp : s.network[i]? = some p) (answers : Bool)
    (msg : Message) : ∃ before after, ofClient p.client s.network = before ++ p :: after ∧
      ofClient p.client (s.network.eraseIdx i ++ if answers then [{ p with msg := msg }] else []) =
        before ++ after ++ if answers then [{ p with msg := msg }] else [] := by
  obtain ⟨before, after, hsplit, herase⟩ := ofClient_take hp rfl
  refine ⟨before, after, hsplit, ?_⟩
  rw [ofClient_append, herase]
  congr 1
  split_ifs
  · exact ofClient_own fun q hq => by rw [List.mem_singleton.1 hq]
  · rfl

theorem nodup_answered {before after : List Packet}
    (hnodup : ((before ++ p :: after).map Packet.replica).Nodup) (answers : Bool) (msg : Message) :
    ((before ++ after ++ if answers then [{ p with msg := msg }] else []).map
      Packet.replica).Nodup := by
  have hperm : ((before ++ p :: after).map Packet.replica).Perm
      ((before ++ after ++ [{ p with msg := msg }]).map Packet.replica) := by
    rw [List.map_append, List.map_append, List.map_append, List.map_cons]
    exact List.perm_middle.trans (List.perm_append_singleton _ _).symm
  have hall := hperm.nodup_iff.1 hnodup
  split_ifs
  · exact hall
  · rw [List.append_nil]
    exact hall.sublist ((List.sublist_append_left _ _).map _)

theorem handleGet_eq (key : Key) (answering : Bool) : s.handleGet p key answering =
    { s with network := s.network ++ if answering then [{ p with
        msg := .getReply (Store.get key (s.stores p.shard p.replica)).1
          (Store.get key (s.stores p.shard p.replica)).2 }] else [] } := by
  rw [System.handleGet]
  cases answering with
  | true => rfl
  | false =>
      show s = { s with network := s.network ++ [] }
      rw [List.append_nil]

theorem Inv.handleGet (hinv : Inv cfg loaded trusted s) {i : ℕ} (hp : s.network[i]? = some p)
    {clientId : ℕ} (hmsg : p.msg = .get clientId key) (answering : Bool) :
    Inv cfg loaded trusted
      (System.handleGet p key answering { s with network := s.network.eraseIdx i }) := by
  rw [handleGet_eq]
  refine ⟨hinv.toRecorded.packets fun q hq => ?_, fun c hc => ?_⟩
  · rcases List.mem_append.1 hq with hold | hnew
    · exact .inl ((List.eraseIdx_sublist s.network i).subset hold)
    · refine .inr fun clientId op hop => ?_
      split_ifs at hnew
      · rw [List.mem_singleton.1 hnew] at hop
        cases op <;> cases hop
      · exact absurd hnew List.not_mem_nil
  · by_cases hne : p.client = c
    · subst hne
      obtain ⟨hbusy, g, op, hcall, ⟨hpcall, hpshard, hfits⟩, hscheduled⟩ := hinv.calling hp hc
      rw [ClientOk, if_pos (by exact hbusy)]
      cases op with
      | put key value =>
          rcases hfits.2 with ⟨hput, -⟩ | ⟨status, hreply, -⟩
          · cases hmsg.symm.trans hput
          · cases hmsg.symm.trans hreply
      | get key' =>
          obtain ⟨hreplica, hget | ⟨status, value, hreply, -⟩⟩ := hfits
          · obtain ⟨-, rfl⟩ := Message.get.inj (hmsg.symm.trans hget)
            have hregular : Regular cfg loaded trusted s.history p.client g key
                (Store.get key (s.stores p.shard p.replica)).1
                (Store.get key (s.stores p.shard p.replica)).2 := by
              refine hinv.history.regular ?_
              rw [hreplica, hpshard]
              exact hinv.values _ _ _
            obtain ⟨before, after, hsplit, hnow⟩ := ofClient_own_answered hp answering
              (.getReply (Store.get key (s.stores p.shard p.replica)).1
                (Store.get key (s.stores p.shard p.replica)).2)
            have hnodup := hcall.nodup
            have hpackets := hcall.packets
            rw [hsplit] at hnodup hpackets
            refine ⟨g, .get key, hcall.called, hcall.waiting, hcall.elsewhere, .inl hscheduled,
              fun q hq => ?_, ?_, trivial⟩
            · have hq : q ∈ ofClient p.client (_ ++ _) := hq
              rw [hnow] at hq
              rcases List.mem_append.1 hq with hold | hnew
              · refine hpackets q ?_
                rcases List.mem_append.1 hold with hq | hq
                · exact List.mem_append_left _ hq
                · exact List.mem_append_right _ (.tail p hq)
              · split_ifs at hnew
                · rw [List.mem_singleton.1 hnew]
                  exact ⟨hpcall, hpshard, hreplica, .inr ⟨_, _, rfl, hregular⟩⟩
                · exact absurd hnew List.not_mem_nil
            · show ((ofClient p.client (_ ++ _)).map Packet.replica).Nodup
              rw [hnow]
              exact nodup_answered hnodup answering _
          · cases hmsg.symm.trans hreply
    · exact (hinv.clients c hc).keep hinv.history (fun _ _ _ => .inl rfl) rfl rfl
        (ofClient_answered hne i answering _)

theorem handlePut_eq (key : Key) (value : Value) (answering : Bool) :
    s.handlePut p key value answering = { s with
      stores := Function.update s.stores p.shard (Function.update (s.stores p.shard) p.replica
        ((s.stores p.shard p.replica).put key value))
      history := s.history ++ [.stored p.shard p.replica ⟨p.call, key, value⟩]
      network := s.network ++
        if answering then [{ p with msg := .putReply replyOk }] else [] } := by
  rw [System.handlePut]
  cases answering with
  | true => rfl
  | false =>
      show _ = { s with
        stores := _
        history := _
        network := s.network ++ [] }
      rw [List.append_nil]
      rfl

/-- The values of a replica that stores one. -/
theorem Recorded.stored_values (hr : Recorded cfg loaded trusted s) (j : ℕ) (w : Write)
    (shard' : Shard) (i' : ℕ) (key' : Key) :
    (Function.update s.stores shard (Function.update (s.stores shard) j
        ((s.stores shard j).put w.key w.value)) shard' i').values key' =
      (loaded shard' i').values key' ++
        ((s.history ++ [Event.stored shard j w]).filterMap (storedAt shard' i' key')).map
          Write.value := by
  have hother : ∀ t : KVStore, t = s.stores shard' i' →
      storedAt shard' i' key' (.stored shard j w) = none →
      t.values key' = (loaded shard' i').values key' ++
        ((s.history ++ [Event.stored shard j w]).filterMap (storedAt shard' i' key')).map
          Write.value := by
    intro t ht hnone
    rw [List.filterMap_append, List.filterMap_cons_none hnone, List.filterMap_nil,
      List.append_nil, ht]
    exact hr.values shard' i' key'
  by_cases hshard : shard' = shard
  · subst hshard
    rw [Function.update_self]
    by_cases hj : i' = j
    · subst hj
      rw [Function.update_self, KVStore.values_put]
      split_ifs with hkey
      · subst hkey
        have hsome : storedAt shard' i' w.key (.stored shard' i' w) = some w :=
          storedAt_iff.2 ⟨rfl, rfl⟩
        rw [List.filterMap_append, List.filterMap_cons_some hsome, List.filterMap_nil,
          List.map_append, hr.values, List.append_assoc]
        rfl
      · have hnone : storedAt shard' i' key' (.stored shard' i' w) = none :=
          if_neg fun h => hkey h.2.2.symm
        rw [List.filterMap_append, List.filterMap_cons_none hnone, List.filterMap_nil,
          List.append_nil]
        exact hr.values shard' i' key'
    · rw [Function.update_of_ne hj]
      exact hother _ rfl (if_neg fun h => hj h.2.1.symm)
  · rw [Function.update_of_ne hshard]
    exact hother _ rfl (if_neg fun h => hshard h.1.symm)

theorem Inv.handlePut (hinv : Inv cfg loaded trusted s) {i : ℕ} (hp : s.network[i]? = some p)
    {clientId : ℕ} (hmsg : p.msg = .put clientId key value) (answering : Bool) :
    Inv cfg loaded trusted
      (System.handlePut p key value answering { s with network := s.network.eraseIdx i }) := by
  obtain ⟨hcalled, hshard⟩ := hinv.requests p (List.mem_of_getElem? hp) clientId (.put key value)
    hmsg
  let w : Write := ⟨p.call, key, value⟩
  have hput : PutBy s.history p.client w := hcalled
  have hnew : trusted p.client → Event.stored (cfg.keyToShard w.key) p.replica w ∉ s.history := by
    intro hc
    obtain ⟨-, g, op, -, ⟨rfl, hpshard, hfits⟩, -⟩ := hinv.calling hp hc
    cases op with
    | get key' =>
        obtain ⟨-, hget | ⟨_, _, hreply, -⟩⟩ := hfits
        · cases hmsg.symm.trans hget
        · cases hmsg.symm.trans hreply
    | put key' value' =>
        obtain ⟨-, ⟨hsame, hnot⟩ | ⟨_, hreply, -⟩⟩ := hfits
        · obtain ⟨-, rfl, rfl⟩ := Message.put.inj (hmsg.symm.trans hsame)
          rw [hpshard] at hnot
          exact hnot
        · cases hmsg.symm.trans hreply
  have hhistory := hinv.history.store hput p.replica hnew
  rw [show cfg.keyToShard w.key = p.shard from hshard] at hhistory
  rw [handlePut_eq]
  refine ⟨hinv.toRecorded.next hhistory (fun j e he => getElem?_grows he _)
    (hinv.stored_values p.replica w) (fun _ _ _ hg => .inl hg) (fun _ _ _ hr => .inl hr)
    fun q hq => ?_, fun c hc => ?_⟩
  · rcases List.mem_append.1 hq with hold | hreply
    · exact .inl ((List.eraseIdx_sublist s.network i).subset hold)
    · refine .inr fun clientId op hop => ?_
      split_ifs at hreply
      · rw [List.mem_singleton.1 hreply] at hop
        cases op <;> cases hop
      · exact absurd hreply List.not_mem_nil
  · by_cases hne : p.client = c
    · subst hne
      obtain ⟨hbusy, g, op, hcall, ⟨hpcall, hpshard, hfits⟩, hscheduled⟩ := hinv.calling hp hc
      rw [ClientOk, if_pos (by exact hbusy)]
      obtain rfl : op = .put key value := by
        obtain ⟨-, hop⟩ := Event.called.inj (Option.some.inj
          (hcall.called.symm.trans (hpcall ▸ hcalled)))
        exact hop
      obtain ⟨before, after, hsplit, hnow⟩ := ofClient_own_answered hp answering
        (.putReply replyOk)
      have hnodup := hcall.nodup
      have hpackets := hcall.packets
      have hreplied := hcall.replied
      rw [hsplit] at hnodup hpackets hreplied
      have hrest : ∀ q ∈ before ++ after, q ∈ before ++ p :: after ∧ q.replica ≠ p.replica := by
        intro q hq
        rw [List.map_append, List.map_cons, List.nodup_middle, List.nodup_cons] at hnodup
        rw [List.mem_append] at hq ⊢
        refine ⟨hq.imp_right (.tail p), fun hsame => hnodup.1 (hsame ▸ ?_)⟩
        rw [← List.map_append]
        exact List.mem_map_of_mem (List.mem_append.2 hq)
      refine ⟨g, .put key value, getElem?_grows hcall.called _, hcall.waiting, hcall.elsewhere,
        .inl hscheduled, fun q hq => ?_, ?_, ?_⟩
      · have hq : q ∈ ofClient p.client (_ ++ _) := hq
        rw [hnow] at hq
        rcases List.mem_append.1 hq with hold | hreply
        · obtain ⟨hmem, hother⟩ := hrest q hold
          obtain ⟨hqcall, hqshard, hlt, hqfits⟩ := hpackets q hmem
          refine ⟨hqcall, hqshard, hlt, ?_⟩
          rcases hqfits with ⟨hqput, hnot⟩ | ⟨status, hqreply, hstored⟩
          · refine .inl ⟨hqput, fun hw => ?_⟩
            rcases List.mem_append.1 hw with hw | hw
            · exact hnot hw
            · exact hother (Event.stored.inj (List.mem_singleton.1 hw)).2.1
          · exact .inr ⟨status, hqreply, List.mem_append_left _ hstored⟩
        · split_ifs at hreply
          · rw [List.mem_singleton.1 hreply]
            refine ⟨hpcall, hpshard, hfits.1, .inr ⟨replyOk, rfl, ?_⟩⟩
            rw [← hpcall]
            exact List.mem_append_right _ (.head _)
          · exact absurd hreply List.not_mem_nil
      · show ((ofClient p.client (_ ++ _)).map Packet.replica).Nodup
        rw [hnow]
        exact nodup_answered hnodup answering _
      · obtain ⟨R, hsub, hcard, hall⟩ := hreplied
        refine ⟨R, hsub, hcard, fun j hj => ?_⟩
        obtain ⟨hstored, hnot⟩ := hall j hj
        refine ⟨List.mem_append_left _ hstored, fun q hq => ?_⟩
        have hq : q ∈ ofClient p.client (_ ++ _) := hq
        rw [hnow] at hq
        rcases List.mem_append.1 hq with hold | hreply
        · exact hnot q (hrest q hold).1
        · split_ifs at hreply
          · rw [List.mem_singleton.1 hreply]
            exact hnot p (List.mem_append_right _ (.head _))
          · exact absurd hreply List.not_mem_nil
    · refine (hinv.clients c hc).keep hinv.history (fun g op hg => ?_) rfl rfl
        (ofClient_answered hne i answering _)
      refine .inr ⟨_, rfl, fun shard' i' w' he hw' => hne ?_⟩
      obtain ⟨-, -, rfl⟩ := Event.stored.inj he
      exact (Event.called.inj (Option.some.inj (hcalled.symm.trans (hw' ▸ hg)))).1

/-- The last packet of a call is a reply, and the call is answered. -/
theorem Inv.answer (hinv : Inv cfg loaded trusted s) {i : ℕ} (hp : s.network[i]? = some p)
    {x : ShardClient} (hwaiting : x.waiting = (s.shardClients p.client p.shard).waiting)
    (hscheduled : x.scheduled = (s.shardClients p.client p.shard).scheduled)
    (hok : ∀ g op, trusted p.client → Calling cfg loaded trusted p.client g op s →
      PacketFits cfg loaded trusted s.history p.client g op p →
        AnswerOk cfg loaded trusted s.history p.client g status value op ∧
          ofClient p.client (s.network.eraseIdx i) = []) :
    Inv cfg loaded trusted
      ((System.setShardClient p.client p.shard x { s with
        network := s.network.eraseIdx i }).reply p.client p.shard status value) := by
  have hat := setShardClient_at { s with network := s.network.eraseIdx i } p.client p.shard x
  have herased : Recorded cfg loaded trusted { s with network := s.network.eraseIdx i } :=
    hinv.toRecorded.packets fun q hq => .inl ((List.eraseIdx_sublist s.network i).subset hq)
  have hwritten : Recorded cfg loaded trusted (System.setShardClient p.client p.shard x { s with
      network := s.network.eraseIdx i }) :=
    herased.client hwaiting (hscheduled ▸ List.Sublist.refl _)
  have hreply : Recorded cfg loaded trusted
      ((System.setShardClient p.client p.shard x { s with
        network := s.network.eraseIdx i }).reply p.client p.shard status value) := by
    refine hwritten.reply fun g op hg hop hc => ?_
    obtain ⟨-, g', op', hcall, hfits, -⟩ := hinv.calling hp hc
    obtain ⟨hanswer, -⟩ := hok g' op' hc hcall hfits
    rw [hat, if_pos ⟨rfl, rfl⟩, hwaiting, hfits.2.1, hcall.waiting, Option.some.injEq] at hg
    subst hg
    obtain ⟨-, rfl⟩ := Event.called.inj (Option.some.inj (hcall.called.symm.trans hop))
    exact hanswer
  refine ⟨hreply, fun c hc => ?_⟩
  by_cases hne : c = p.client
  · subst hne
    obtain ⟨-, g, op, hcall, hfits, hnone⟩ := hinv.calling hp hc
    obtain ⟨-, hpackets⟩ := hok g op hc hcall hfits
    have hidle : ((System.setShardClient p.client p.shard x { s with
        network := s.network.eraseIdx i }).reply p.client p.shard status value).calling
          p.client = false := by
      rw [System.reply, hat, if_pos ⟨rfl, rfl⟩, hwaiting, hfits.2.1, hcall.waiting]
      exact Function.update_self ..
    rw [ClientOk, if_neg (by rw [hidle]; exact Bool.false_ne_true)]
    refine ⟨fun shard => ?_, ?_⟩
    · rw [reply_scheduled, hat]
      split_ifs with hsame
      · rw [hscheduled, hfits.2.1]
        exact hnone
      · by_cases hshard : shard = cfg.keyToShard op.key
        · exact hshard ▸ hnone
        · exact hcall.elsewhere shard hshard
    · rw [reply_network]
      exact hpackets
  · refine (hinv.clients c hc).keep hinv.history (fun _ _ _ => reply_extends) ?_
      (reply_other hne).2 ?_
    · exact (reply_other hne).1.trans (setShardClient_other hne _)
    · rw [reply_network]
      exact ofClient_erase s.network i

theorem Inv.handleGetReply (hinv : Inv cfg loaded trusted s) {i : ℕ}
    (hp : s.network[i]? = some p) (hmsg : p.msg = .getReply status value) :
    Inv cfg loaded trusted
      (System.handleGetReply p status value { s with network := s.network.eraseIdx i }) := by
  rw [System.handleGetReply]
  split_ifs
  · refine hinv.answer hp rfl rfl fun g op hc hcall hfits => ?_
    obtain ⟨before, after, hsplit, hnow⟩ := ofClient_take hp rfl
    have hnodup := hcall.nodup
    have hpackets := hcall.packets
    rw [hsplit] at hnodup hpackets
    obtain ⟨-, hpshard, hfits⟩ := hfits
    cases op with
    | put key v =>
        obtain ⟨-, ⟨hput, -⟩ | ⟨_, hreply, -⟩⟩ := hfits
        · cases hmsg.symm.trans hput
        · cases hmsg.symm.trans hreply
    | get key =>
        obtain ⟨hreplica, hget | ⟨status', value', hreply, hregular⟩⟩ := hfits
        · cases hmsg.symm.trans hget
        · obtain ⟨rfl, rfl⟩ := Message.getReply.inj (hmsg.symm.trans hreply)
          refine ⟨hregular, ?_⟩
          -- all packets of a `Get` are from or to the same replica
          rw [hnow, List.eq_nil_iff_forall_not_mem]
          intro q hq
          rw [List.map_append, List.map_cons, List.nodup_middle, List.nodup_cons] at hnodup
          refine hnodup.1 ?_
          have hqmem : q ∈ before ++ p :: after := by
            rw [List.mem_append] at hq ⊢
            exact hq.imp_right (.tail p)
          obtain ⟨-, hqshard, hqreplica, -⟩ := hpackets q hqmem
          rw [← List.map_append, hreplica, hpshard, ← hqshard, ← hqreplica]
          exact List.mem_map_of_mem hq
  · exact hinv.lose i

/-- A reply to a `Put` is counted. -/
theorem Calling.counted (hcall : Calling cfg loaded trusted p.client g op s) {i : ℕ}
    (hp : s.network[i]? = some p) (hmsg : p.msg = .putReply status)
    (hfits : PacketFits cfg loaded trusted s.history p.client g op p) :
    ∃ key v, op = .put key v ∧
      Replied cfg s.history g (ofClient p.client (s.network.eraseIdx i))
        ((s.shardClients p.client p.shard).totalReplies + 1) (.put key v) := by
  obtain ⟨before, after, hsplit, hnow⟩ := ofClient_take hp rfl
  have hnodup := hcall.nodup
  have hreplied := hcall.replied
  rw [hsplit] at hnodup hreplied
  obtain ⟨-, hpshard, hfits⟩ := hfits
  cases op with
  | get key =>
      obtain ⟨-, hget | ⟨_, _, hreply, -⟩⟩ := hfits
      · cases hmsg.symm.trans hget
      · cases hmsg.symm.trans hreply
  | put key v =>
      obtain ⟨hlt, ⟨hput, -⟩ | ⟨_, -, hstored⟩⟩ := hfits
      · cases hmsg.symm.trans hput
      · rw [hpshard] at hlt hstored
        obtain ⟨R, hsub, hcard, hall⟩ := hreplied
        have hnot : p.replica ∉ R := fun hR =>
          (hall p.replica hR).2 p (List.mem_append_right _ (.head _)) rfl
        refine ⟨key, v, rfl, insert p.replica R, ?_, ?_, fun j hj => ?_⟩
        · exact Finset.insert_subset (Finset.mem_range.2 hlt) hsub
        · rw [Finset.card_insert_of_notMem hnot, ← hcard, hpshard]
        · rw [hnow]
          rcases Finset.mem_insert.1 hj with rfl | hj
          · refine ⟨hstored, fun q hq hsame => ?_⟩
            rw [List.map_append, List.map_cons, List.nodup_middle, List.nodup_cons] at hnodup
            refine hnodup.1 ?_
            rw [← List.map_append, ← hsame]
            exact List.mem_map_of_mem hq
          · obtain ⟨hjstored, hother⟩ := hall j hj
            refine ⟨hjstored, fun q hq => hother q ?_⟩
            rw [List.mem_append] at hq ⊢
            exact hq.imp_right (.tail p)

theorem Inv.handlePutReply (hinv : Inv cfg loaded trusted s) {i : ℕ}
    (hp : s.network[i]? = some p) (hmsg : p.msg = .putReply status) :
    Inv cfg loaded trusted
      (System.handlePutReply cfg p { s with network := s.network.eraseIdx i }) := by
  rw [System.handlePutReply]
  split_ifs with hdone
  · refine hinv.answer hp rfl rfl fun g op hc hcall hfits => ?_
    obtain ⟨key, v, rfl, R, hsub, hcard, hall⟩ := hcall.counted hp hmsg hfits
    -- as many replies as there are replicas are those of all replicas
    have hfull : R = Finset.range (cfg.n (cfg.keyToShard key)) := by
      refine Finset.eq_of_subset_of_card_le hsub ?_
      rw [Finset.card_range, ← hcard, ← show p.shard = cfg.keyToShard key from hfits.2.1]
      exact hdone.1
    refine ⟨fun _ j hj => (hall j (hfull ▸ Finset.mem_range.2 hj)).1, ?_⟩
    rw [List.eq_nil_iff_forall_not_mem]
    intro q hq
    obtain ⟨-, hqshard, hlt, -⟩ := hcall.packets q ((ofClient_erase s.network i).subset hq)
    rw [show q.shard = cfg.keyToShard key from hqshard] at hlt
    exact (hall q.replica (hfull ▸ Finset.mem_range.2 hlt)).2 q hq rfl
  · let x : ShardClient := { s.shardClients p.client p.shard with
      totalReplies := (s.shardClients p.client p.shard).totalReplies + 1 }
    have hlost := hinv.lose i
    refine ⟨hlost.toRecorded.client (x := x) rfl (List.Sublist.refl _), fun c hc => ?_⟩
    by_cases hne : c = p.client
    · subst hne
      obtain ⟨hbusy, g, op, hcall, hfits, hnone⟩ := hinv.calling hp hc
      obtain ⟨key, v, rfl, hreplied⟩ := hcall.counted hp hmsg hfits
      have hlostcall : Calling cfg loaded trusted p.client g (.put key v)
          { s with network := s.network.eraseIdx i } :=
        hcall.keep hinv.history (.inl rfl) rfl (ofClient_erase s.network i)
      have hat := setShardClient_at { s with network := s.network.eraseIdx i } p.client p.shard x
        p.client
      have hshard : p.shard = cfg.keyToShard key := hfits.2.1
      have hself : ((System.setShardClient p.client p.shard x { s with
          network := s.network.eraseIdx i }).shardClients p.client (cfg.keyToShard key)) = x := by
        rw [hat, if_pos ⟨rfl, hshard.symm⟩]
      rw [ClientOk, if_pos (by exact hbusy)]
      refine ⟨g, .put key v, hlostcall.called, ?_, fun shard hother => ?_, .inl ?_,
        hlostcall.packets, hlostcall.nodup, ?_⟩
      · show ((System.setShardClient _ _ x _).shardClients _ (cfg.keyToShard key)).waiting = _
        rw [hself]
        show (s.shardClients p.client p.shard).waiting = _
        rw [hshard]
        exact hcall.waiting
      · rw [hat]
        split_ifs with hsame
        · exact absurd (hsame.2.trans hshard) hother
        · exact hcall.elsewhere shard hother
      · show ((System.setShardClient _ _ x _).shardClients _ (cfg.keyToShard key)).scheduled = _
        rw [hself]
        show (s.shardClients p.client p.shard).scheduled = _
        rw [hshard]
        exact hnone
      · show Replied cfg s.history g _
          ((System.setShardClient _ _ x _).shardClients _ (cfg.keyToShard key)).totalReplies _
        rw [hself]
        exact hreplied
    · exact (hinv.clients c hc).keep hinv.history (fun _ _ _ => .inl rfl)
        (setShardClient_other hne _) rfl (ofClient_erase s.network i)

theorem Inv.receive (hinv : Inv cfg loaded trusted s) (i : ℕ) (answering : Bool) :
    Inv cfg loaded trusted (s.receive cfg i answering) := by
  rw [System.receive]
  split
  · exact hinv
  · rename_i p hp
    obtain ⟨client, shard, replica, call, msg⟩ := p
    cases msg with
    | get clientId key => exact hinv.handleGet hp rfl answering
    | put clientId key value => exact hinv.handlePut hp rfl answering
    | getReply status value => exact hinv.handleGetReply hp rfl
    | putReply status => exact hinv.handlePutReply hp rfl

/-- **Every step keeps the invariant** of the clients whose calls it does not disturb. -/
theorem Inv.step (hinv : Inv cfg loaded trusted s) {a : Action}
    (ha : ∀ c, trusted c → Undisturbed c s a) : Inv cfg loaded trusted (System.step cfg s a) := by
  cases a with
  | call c op => exact hinv.call c op
  | send c shard i failing => exact hinv.send c shard i fun hc => ha c hc rfl
  | receive i answering => exact hinv.receive i answering
  | lose i => exact hinv.lose i
  | duplicate i => exact hinv.duplicate i ha
  | timeout c shard => exact hinv.timeout (fun hc => ha c hc rfl) shard

theorem Inv.initial (loaded : Shard → ℕ → KVStore) (replies : ℕ → Shard → ℕ) :
    Inv cfg loaded trusted (System.initial loaded replies) := by
  have hnone : ∀ {j : ℕ} {e : Event}, ([] : List Event)[j]? = some e → False := fun h => by cases h
  refine ⟨⟨⟨fun j g status value hj => (hnone hj).elim, fun j shard i w hj => (hnone hj).elim,
    fun c w _ hw => (hnone hw).elim, fun c w j _ hw => (hnone hw).elim,
    fun c g key j status value _ hg => (hnone hg).elim⟩, fun shard i key => ?_,
    fun c shard g hg => (by cases hg), fun c shard r hr => absurd hr List.not_mem_nil,
    fun p hp => absurd hp List.not_mem_nil⟩, fun c hc => ?_⟩
  · exact (List.append_nil _).symm
  · exact ⟨fun _ => rfl, rfl⟩

variable (cfg) in
theorem inv (loaded : Shard → ℕ → KVStore) (replies : ℕ → Shard → ℕ) {ops : List Action}
    (hops : Calls.Throughout (System.step cfg) (fun s a => ∀ c, trusted c → Undisturbed c s a)
      (System.initial loaded replies) ops) :
    Inv cfg loaded trusted (Calls.run (System.step cfg) (System.initial loaded replies) ops) :=
  hops.invariant (Inv.initial loaded replies) fun _ _ hinv ha => hinv.step ha

/-- **The reads are regular.** A `Get` of an undisturbed client returns a value that was put by a
call that was not answered before another `Put` of the key was called that was answered before the
`Get`; or what was loaded, and then no `Put` of the key was answered before. -/
theorem regular_reads (cfg : Config) (loaded : Shard → ℕ → KVStore) (replies : ℕ → Shard → ℕ)
    {trusted : ℕ → Prop} {ops : List Action}
    (hops : Calls.Throughout (System.step cfg) (fun s a => ∀ c, trusted c → Undisturbed c s a)
      (System.initial loaded replies) ops) :
    let h := (Calls.run (System.step cfg) (System.initial loaded replies) ops).history
    ∀ (c g : ℕ) (key : Key) (j : ℕ) (status : ℕ) (value : Value), trusted c →
      h[g]? = some (.called c (.get key)) → h[j]? = some (.returned g status value) →
        Regular cfg loaded trusted h c g key status value := by
  intro h
  exact (inv cfg loaded replies hops).history.gets

/-- **Every acknowledged write is everywhere.** Each replica of the shard stored the value of this
very `Put` before it was acknowledged, and has it. -/
theorem puts_stored (cfg : Config) (loaded : Shard → ℕ → KVStore) (replies : ℕ → Shard → ℕ)
    {trusted : ℕ → Prop} {ops : List Action}
    (hops : Calls.Throughout (System.step cfg) (fun s a => ∀ c, trusted c → Undisturbed c s a)
      (System.initial loaded replies) ops) :
    let s := Calls.run (System.step cfg) (System.initial loaded replies) ops
    ∀ (c g : ℕ) (key : Key) (value v : Value) (j : ℕ), trusted c →
      s.history[g]? = some (.called c (.put key value)) →
        s.history[j]? = some (.returned g replyOk v) → ∀ i < cfg.n (cfg.keyToShard key),
          (∃ l < j, s.history[l]? =
            some (.stored (cfg.keyToShard key) i ⟨g, key, value⟩)) ∧
          value ∈ (s.stores (cfg.keyToShard key) i).values key := by
  intro s c g key value v j hc hg hj i hi
  have hinv : Inv cfg loaded trusted s := inv cfg loaded replies hops
  obtain ⟨l, hl, hstored⟩ := hinv.history.done c ⟨g, key, value⟩ j hc hg ⟨_, hj, v, rfl⟩ i hi
  refine ⟨⟨l, hl, hstored⟩, ?_⟩
  rw [hinv.values]
  refine List.mem_append_right _ (List.mem_map.2 ⟨⟨g, key, value⟩, ?_, rfl⟩)
  exact List.mem_filterMap.2 ⟨_, List.mem_of_getElem? hstored, storedAt_iff.2 ⟨rfl, rfl⟩⟩

/-- A shard of two replicas. -/
def twoReplicas : Config where
  nshards := 1
  keyToShard _ := 0
  n _ := 2
  closestReplica := none
  n_pos _ := Nat.two_pos
  closest_lt _ h := by cases h

/-- A client puts a value, and another one gets it. -/
def putThenGet : List Action :=
  [.call 0 (.put "k" "v"), .send 0 0 0 none, .receive 0 true, .receive 0 true, .receive 0 true,
    .receive 0 true, .call 1 (.get "k"), .send 1 0 0 none, .receive 0 true, .receive 0 true]

theorem putThenGet_undisturbed : Calls.Throughout (System.step twoReplicas)
    (fun s a => ∀ c, True → Undisturbed c s a) (System.initial (fun _ _ => {}) fun _ _ => 0)
      putThenGet :=
  ⟨fun _ _ => trivial, fun _ _ _ => rfl, fun _ _ => trivial, fun _ _ => trivial,
    fun _ _ => trivial, fun _ _ => trivial, fun _ _ => trivial, fun _ _ _ => rfl,
    fun _ _ => trivial, fun _ _ => trivial, trivial⟩

theorem regular_reads_putThenGet :
    let h := (Calls.run (System.step twoReplicas)
      (System.initial (fun _ _ => {}) fun _ _ => 0) putThenGet).history
    Regular twoReplicas (fun _ _ => {}) (fun _ => True) h 1 4 "k" replyOk "v" :=
  regular_reads twoReplicas (fun _ _ => {}) (fun _ _ => 0) putThenGet_undisturbed 1 4 "k" 5
    replyOk "v" trivial (by decide +kernel) (by decide +kernel)

theorem puts_stored_putThenGet :
    let s := Calls.run (System.step twoReplicas)
      (System.initial (fun _ _ => {}) fun _ _ => 0) putThenGet
    ∀ i < 2, (∃ l < 3, s.history[l]? = some (.stored 0 i ⟨0, "k", "v"⟩)) ∧
      "v" ∈ (s.stores 0 i).values "k" :=
  puts_stored twoReplicas (fun _ _ => {}) (fun _ _ => 0) putThenGet_undisturbed 0 0 "k" "v" "" 3
    trivial (by decide +kernel) (by decide +kernel)

/-- The replies to a `Put` that timed out acknowledge the next one, which no replica has stored. -/
theorem staleReplies_acknowledge :
    let s := Calls.run (System.step twoReplicas) (System.initial (fun _ _ => {}) fun _ _ => 0)
      [.call 0 (.put "k" "v"), .send 0 0 0 none, .timeout 0 0, .call 0 (.put "k" "w"),
        .receive 0 true, .receive 0 true, .receive 0 true, .receive 0 true]
    s.history[2]? = some (.called 0 (.put "k" "w")) ∧
      s.history[5]? = some (.returned 2 replyOk "") ∧
        ∀ i < 2, "w" ∉ (s.stores 0 i).values "k" := by
  decide +kernel

end D2PC.Weak
