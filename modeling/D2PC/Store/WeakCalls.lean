import Mathlib.Data.Finset.Card
import D2PC.Store.WeakHistory

/-!
# The calls of the weakly consistent store

The state of a call of a client that can be trusted: at most one packet of it is on its way from or
to each replica, and the replies that were counted are those of different replicas. Of all clients,
what they are waiting for and what they send was called.

* `Weak.Calling` : how far a call has come;
* `Weak.Recorded` : what holds of the calls of all clients;
* `Weak.Inv` : the invariant;
* `Weak.Inv.foreign` : what a client does that cannot be trusted.
-/

namespace D2PC.Weak

open Register

variable {cfg : Config} {loaded : Shard → ℕ → KVStore} {trusted : ℕ → Prop}
variable {h : List Event} {c g : ℕ} {e : Event} {key : Key} {status : ℕ} {value : Value} {w : Write}

/-! ### The state of a call -/

/-- The packets from and to the client. -/
def ofClient (c : ℕ) (l : List Packet) : List Packet := l.filter fun p => p.client = c

variable (cfg loaded trusted) in
/-- A packet of a call. -/
def PacketFits (h : List Event) (c g : ℕ) (op : Op) (p : Packet) : Prop :=
  p.call = g ∧ p.shard = cfg.keyToShard op.key ∧
    match op with
    | .get key => p.replica = cfg.replica c p.shard ∧ (p.msg = .get c key ∨
        ∃ status value, p.msg = .getReply status value ∧
          Regular cfg loaded trusted h c g key status value)
    | .put key value => p.replica < cfg.n p.shard ∧
        (p.msg = .put c key value ∧ Event.stored p.shard p.replica ⟨g, key, value⟩ ∉ h ∨
          ∃ status, p.msg = .putReply status ∧
            Event.stored p.shard p.replica ⟨g, key, value⟩ ∈ h)

variable (cfg) in
/-- The replies that a `Put` got are counted, and their replicas stored the value. -/
def Replied (h : List Event) (g : ℕ) (packets : List Packet) (replies : ℕ) : Op → Prop
  | .get _ => True
  | .put key value => ∃ R ⊆ Finset.range (cfg.n (cfg.keyToShard key)), replies = R.card ∧
      ∀ i ∈ R, Event.stored (cfg.keyToShard key) i ⟨g, key, value⟩ ∈ h ∧
        ∀ p ∈ packets, p.replica ≠ i

variable (cfg loaded trusted) in
/-- **A call of a client that can be trusted.** -/
structure Calling (c g : ℕ) (op : Op) (s : System) : Prop where
  called : s.history[g]? = some (.called c op)
  waiting : (s.shardClients c (cfg.keyToShard op.key)).waiting = some g
  elsewhere : ∀ shard, shard ≠ cfg.keyToShard op.key → (s.shardClients c shard).scheduled = []
  scheduled : (s.shardClients c (cfg.keyToShard op.key)).scheduled = [] ∨
    (s.shardClients c (cfg.keyToShard op.key)).scheduled = [⟨g, op⟩] ∧
      ofClient c s.network = [] ∧ ∀ shard i w, Event.stored shard i w ∈ s.history → w.call ≠ g
  packets : ∀ p ∈ ofClient c s.network, PacketFits cfg loaded trusted s.history c g op p
  nodup : ((ofClient c s.network).map Packet.replica).Nodup
  replied : Replied cfg s.history g (ofClient c s.network)
    (s.shardClients c (cfg.keyToShard op.key)).totalReplies op

/-- The client is not in a call, and nothing is left of earlier ones. -/
structure Idle (c : ℕ) (s : System) : Prop where
  scheduled : ∀ shard, (s.shardClients c shard).scheduled = []
  packets : ofClient c s.network = []

variable (cfg loaded trusted) in
/-- The state of a client that can be trusted. -/
def ClientOk (c : ℕ) (s : System) : Prop :=
  if s.calling c then ∃ g op, Calling cfg loaded trusted c g op s else Idle c s

variable (cfg loaded trusted) in
/-- What holds of the calls of all clients. -/
structure Recorded (s : System) : Prop where
  history : History cfg loaded trusted s.history
  values : ∀ shard i key, (s.stores shard i).values key = (loaded shard i).values key ++
    (s.history.filterMap (storedAt shard i key)).map Write.value
  waiting : ∀ c shard g, (s.shardClients c shard).waiting = some g →
    ∃ op, s.history[g]? = some (.called c op)
  scheduled : ∀ c shard, ∀ r ∈ (s.shardClients c shard).scheduled,
    s.history[r.call]? = some (.called c r.op) ∧ cfg.keyToShard r.op.key = shard
  requests : ∀ p ∈ s.network, ∀ clientId op, p.msg = Op.message clientId op →
    s.history[p.call]? = some (.called p.client op) ∧ cfg.keyToShard op.key = p.shard

variable (cfg loaded trusted) in
/-- **The invariant.** -/
structure Inv (s : System) : Prop extends Recorded cfg loaded trusted s where
  clients : ∀ c, trusted c → ClientOk cfg loaded trusted c s

variable {s s' : System} {op : Op} {shard : Shard} {p : Packet}

/-! ### What others do -/

/-- The history goes on, and no replica stores a value of the call. -/
def Extends (g : ℕ) (h h' : List Event) : Prop :=
  h' = h ∨ ∃ e, h' = h ++ [e] ∧ ∀ shard i w, e = .stored shard i w → w.call ≠ g

theorem Extends.called {h' : List Event} (hext : Extends g h h') {j : ℕ}
    (hj : h[j]? = some e) : h'[j]? = some e := by
  rcases hext with rfl | ⟨e', rfl, -⟩
  · exact hj
  · exact getElem?_grows hj _

theorem Extends.mem_iff {h' : List Event} (hext : Extends g h h') {i : ℕ} {w : Write}
    (hw : w.call = g) : Event.stored shard i w ∈ h' ↔ Event.stored shard i w ∈ h := by
  rcases hext with rfl | ⟨e, rfl, he⟩
  · exact Iff.rfl
  · rw [List.mem_append, List.mem_singleton]
    exact or_iff_left fun hnew => he shard i w hnew.symm hw

theorem Extends.regular {h' : List Event} (hext : Extends g h h')
    (hh : History cfg loaded trusted h) (hg : g ≤ h.length)
    (hr : Regular cfg loaded trusted h c g key status value) :
    Regular cfg loaded trusted h' c g key status value := by
  rcases hext with rfl | ⟨e, rfl, -⟩
  · exact hr
  · exact hr.grows hh hg

theorem Extends.fits {h' : List Event} (hext : Extends g h h') (hh : History cfg loaded trusted h)
    (hg : g ≤ h.length) (hp : PacketFits cfg loaded trusted h c g op p) :
    PacketFits cfg loaded trusted h' c g op p := by
  obtain ⟨hcall, hshard, hfits⟩ := hp
  refine ⟨hcall, hshard, ?_⟩
  cases op with
  | get key =>
      obtain ⟨hreplica, hget | ⟨status, value, hreply, hr⟩⟩ := hfits
      · exact ⟨hreplica, .inl hget⟩
      · exact ⟨hreplica, .inr ⟨status, value, hreply, hext.regular hh hg hr⟩⟩
  | put key value =>
      obtain ⟨hlt, ⟨hput, hnew⟩ | ⟨status, hreply, hstored⟩⟩ := hfits
      · exact ⟨hlt, .inl ⟨hput, fun hmem => hnew ((hext.mem_iff rfl).1 hmem)⟩⟩
      · exact ⟨hlt, .inr ⟨status, hreply, (hext.mem_iff rfl).2 hstored⟩⟩

theorem Extends.replied {h' : List Event} (hext : Extends g h h') {ps ps' : List Packet} {n : ℕ}
    (hps : ∀ p ∈ ps', p ∈ ps) (hr : Replied cfg h g ps n op) : Replied cfg h' g ps' n op := by
  cases op with
  | get key => trivial
  | put key value =>
      obtain ⟨R, hsub, hn, hall⟩ := hr
      refine ⟨R, hsub, hn, fun i hi => ?_⟩
      obtain ⟨hstored, hnot⟩ := hall i hi
      exact ⟨(hext.mem_iff rfl).2 hstored, fun p hp => hnot p (hps p hp)⟩

/-- The state of a call is kept when packets of it are lost and the history goes on. -/
theorem Calling.keep (hc : Calling cfg loaded trusted c g op s)
    (hh : History cfg loaded trusted s.history) (hext : Extends g s.history s'.history)
    (hx : s'.shardClients c = s.shardClients c)
    (hmine : (ofClient c s'.network).Sublist (ofClient c s.network)) :
    Calling cfg loaded trusted c g op s' := by
  have hg := (List.getElem?_eq_some_iff.1 hc.called).1.le
  refine ⟨hext.called hc.called, hx ▸ hc.waiting, hx ▸ hc.elsewhere, ?_, fun p hp => ?_,
    hc.nodup.sublist (hmine.map _), ?_⟩
  · rw [hx]
    rcases hc.scheduled with hnone | ⟨hsome, hpackets, hstored⟩
    · exact .inl hnone
    · refine .inr ⟨hsome, List.sublist_nil.1 (hpackets ▸ hmine), fun shard i w hw hcall => ?_⟩
      exact hstored shard i w ((hext.mem_iff hcall).1 hw) hcall
  · exact hext.fits hh hg (hc.packets p (hmine.subset hp))
  · rw [hx]
    exact hext.replied (fun p hp => hmine.subset hp) hc.replied

/-- What others do does not change the state of a client. -/
theorem ClientOk.keep (hc : ClientOk cfg loaded trusted c s)
    (hh : History cfg loaded trusted s.history)
    (hext : ∀ g op, s.history[g]? = some (.called c op) → Extends g s.history s'.history)
    (hx : s'.shardClients c = s.shardClients c) (hcalling : s'.calling c = s.calling c)
    (hmine : (ofClient c s'.network).Sublist (ofClient c s.network)) :
    ClientOk cfg loaded trusted c s' := by
  rw [ClientOk, hcalling]
  rw [ClientOk] at hc
  split_ifs at hc ⊢ with hbusy
  · obtain ⟨g, op, hcall⟩ := hc
    exact ⟨g, op, hcall.keep hh (hext g op hcall.called) hx hmine⟩
  · exact ⟨hx ▸ hc.scheduled, List.sublist_nil.1 (hc.packets ▸ hmine)⟩

/-! ### The packets -/

theorem ofClient_append (l ps : List Packet) :
    ofClient c (l ++ ps) = ofClient c l ++ ofClient c ps :=
  List.filter_append ..

theorem ofClient_other (hp : p.client ≠ c) : ofClient c [p] = [] :=
  List.filter_eq_nil_iff.2 fun q hq => by
    rw [List.mem_singleton.1 hq]
    exact fun h => hp (of_decide_eq_true h)

theorem ofClient_own {ps : List Packet} (hps : ∀ p ∈ ps, p.client = c) : ofClient c ps = ps :=
  List.filter_eq_self.2 fun p hp => decide_eq_true (hps p hp)

theorem ofClient_erase (l : List Packet) (i : ℕ) :
    (ofClient c (l.eraseIdx i)).Sublist (ofClient c l) :=
  (List.eraseIdx_sublist l i).filter _

/-- The packet is taken out. -/
theorem ofClient_take {l : List Packet} {i : ℕ} (hp : l[i]? = some p) (hc : p.client = c) :
    ∃ before after, ofClient c l = before ++ p :: after ∧
      ofClient c (l.eraseIdx i) = before ++ after := by
  obtain ⟨hi, hget⟩ := List.getElem?_eq_some_iff.1 hp
  have hsplit : l = l.take i ++ p :: l.drop (i + 1) := by
    rw [← hget, ← List.drop_eq_getElem_cons hi, List.take_append_drop]
  refine ⟨ofClient c (l.take i), ofClient c (l.drop (i + 1)), ?_, ?_⟩
  · have hcons : ofClient c (p :: l.drop (i + 1)) = p :: ofClient c (l.drop (i + 1)) :=
      List.filter_cons_of_pos (decide_eq_true hc)
    rw [← hcons, ← ofClient_append, ← hsplit]
  · rw [List.eraseIdx_eq_take_drop_succ]
    exact ofClient_append _ _

/-! ### The records -/

theorem setShardClient_at (s : System) (c : ℕ) (shard : Shard) (x : ShardClient) (c' : ℕ)
    (shard' : Shard) :
    (s.setShardClient c shard x).shardClients c' shard' =
      if c' = c ∧ shard' = shard then x else s.shardClients c' shard' := by
  show Function.update s.shardClients c (Function.update (s.shardClients c) shard x) c' shard' = _
  by_cases hc : c' = c
  · subst hc
    rw [Function.update_self]
    by_cases hshard : shard' = shard
    · subst hshard
      rw [Function.update_self, if_pos ⟨rfl, rfl⟩]
    · rw [Function.update_of_ne hshard, if_neg fun h => hshard h.2]
  · rw [Function.update_of_ne hc, if_neg fun h => hc h.1]

theorem setShardClient_other {c' : ℕ} (hc : c' ≠ c) (x : ShardClient) :
    (s.setShardClient c shard x).shardClients c' = s.shardClients c' :=
  Function.update_of_ne hc ..

theorem filterMap_storedAt {i : ℕ} (he : ∀ shard i w, e ≠ .stored shard i w) :
    (h ++ [e]).filterMap (storedAt shard i key) = h.filterMap (storedAt shard i key) := by
  rw [List.filterMap_append]
  cases e with
  | called c op => exact List.append_nil _
  | returned call status value => exact List.append_nil _
  | stored shard' i' w => exact absurd rfl (he shard' i' w)

/-- The records go on. -/
theorem Recorded.next (hr : Recorded cfg loaded trusted s)
    (hhistory : History cfg loaded trusted s'.history)
    (hgrows : ∀ (j : ℕ) e, s.history[j]? = some e → s'.history[j]? = some e)
    (hvalues : ∀ shard i key, (s'.stores shard i).values key = (loaded shard i).values key ++
      (s'.history.filterMap (storedAt shard i key)).map Write.value)
    (hwaiting : ∀ c shard g, (s'.shardClients c shard).waiting = some g →
      (s.shardClients c shard).waiting = some g ∨ ∃ op, s'.history[g]? = some (.called c op))
    (hscheduled : ∀ c shard, ∀ r ∈ (s'.shardClients c shard).scheduled,
      r ∈ (s.shardClients c shard).scheduled ∨
        s'.history[r.call]? = some (.called c r.op) ∧ cfg.keyToShard r.op.key = shard)
    (hrequests : ∀ p ∈ s'.network, p ∈ s.network ∨ ∀ clientId op, p.msg = Op.message clientId op →
      s'.history[p.call]? = some (.called p.client op) ∧ cfg.keyToShard op.key = p.shard) :
    Recorded cfg loaded trusted s' := by
  refine ⟨hhistory, hvalues, fun c shard g hg => ?_, fun c shard r hmem => ?_,
    fun p hp clientId op hmsg => ?_⟩
  · rcases hwaiting c shard g hg with hold | hnew
    · obtain ⟨op, hop⟩ := hr.waiting c shard g hold
      exact ⟨op, hgrows g _ hop⟩
    · exact hnew
  · rcases hscheduled c shard r hmem with hold | hnew
    · obtain ⟨hcalled, hshard⟩ := hr.scheduled c shard r hold
      exact ⟨hgrows r.call _ hcalled, hshard⟩
    · exact hnew
  · rcases hrequests p hp with hold | hnew
    · obtain ⟨hcalled, hshard⟩ := hr.requests p hold clientId op hmsg
      exact ⟨hgrows p.call _ hcalled, hshard⟩
    · exact hnew clientId op hmsg

/-- The records are kept when nothing happens that is recorded. -/
theorem Recorded.keep (hr : Recorded cfg loaded trusted s) (hstores : s'.stores = s.stores)
    (hhistory : s'.history = s.history)
    (hwaiting : ∀ c shard g, (s'.shardClients c shard).waiting = some g →
      (s.shardClients c shard).waiting = some g)
    (hscheduled : ∀ c shard, ∀ r ∈ (s'.shardClients c shard).scheduled,
      r ∈ (s.shardClients c shard).scheduled)
    (hrequests : ∀ p ∈ s'.network, p ∈ s.network ∨ ∀ clientId op, p.msg = Op.message clientId op →
      s.history[p.call]? = some (.called p.client op) ∧ cfg.keyToShard op.key = p.shard) :
    Recorded cfg loaded trusted s' := by
  refine hr.next (hhistory ▸ hr.history) (fun j e he => hhistory ▸ he) ?_
    (fun c shard g hg => .inl (hwaiting c shard g hg))
    (fun c shard r hmem => .inl (hscheduled c shard r hmem)) ?_
  · rw [hstores, hhistory]
    exact hr.values
  · rw [hhistory]
    exact hrequests

/-- A client is written. -/
theorem Recorded.client (hr : Recorded cfg loaded trusted s) {x : ShardClient}
    (hwaiting : x.waiting = (s.shardClients c shard).waiting)
    (hscheduled : x.scheduled.Sublist (s.shardClients c shard).scheduled) :
    Recorded cfg loaded trusted (s.setShardClient c shard x) := by
  have hat := setShardClient_at s c shard x
  refine hr.keep rfl rfl (fun c' shard' g hg => ?_) (fun c' shard' r hr => ?_) fun p hp => .inl hp
  · rw [hat] at hg
    split_ifs at hg with hsame
    · rw [hsame.1, hsame.2, ← hwaiting]
      exact hg
    · exact hg
  · rw [hat] at hr
    split_ifs at hr with hsame
    · rw [hsame.1, hsame.2]
      exact hscheduled.subset hr
    · exact hr

/-- Packets are taken from the network, or put there. -/
theorem Recorded.packets (hr : Recorded cfg loaded trusted s) {ps : List Packet}
    (hps : ∀ p ∈ ps, p ∈ s.network ∨ ∀ clientId op, p.msg = Op.message clientId op →
      s.history[p.call]? = some (.called p.client op) ∧ cfg.keyToShard op.key = p.shard) :
    Recorded cfg loaded trusted { s with network := ps } :=
  hr.keep rfl rfl (fun _ _ _ hg => hg) (fun _ _ _ hr => hr) hps

/-- An answer changes nothing in the clients but the call that one of them waits for. -/
theorem reply_at (s : System) (c : ℕ) (shard : Shard) (status : ℕ) (value : Value) (c' : ℕ)
    (shard' : Shard) :
    (s.reply c shard status value).shardClients c' shard' = s.shardClients c' shard' ∨
      (s.reply c shard status value).shardClients c' shard' =
        { s.shardClients c' shard' with waiting := none } := by
  rw [System.reply]
  split
  · exact .inl rfl
  · have hat := setShardClient_at s c shard
      { s.shardClients c shard with waiting := none } c' shard'
    by_cases hsame : c' = c ∧ shard' = shard
    · obtain ⟨rfl, rfl⟩ := hsame
      rw [if_pos ⟨rfl, rfl⟩] at hat
      exact .inr hat
    · rw [if_neg hsame] at hat
      exact .inl hat

theorem reply_waiting {c' : ℕ} {shard' : Shard} {g' : ℕ}
    (hg : ((s.reply c shard status value).shardClients c' shard').waiting = some g') :
    (s.shardClients c' shard').waiting = some g' := by
  obtain hat | hat := reply_at s c shard status value c' shard'
  · rw [hat] at hg
    exact hg
  · rw [hat] at hg
    cases hg

theorem reply_scheduled (c' : ℕ) (shard' : Shard) :
    ((s.reply c shard status value).shardClients c' shard').scheduled =
      (s.shardClients c' shard').scheduled := by
  obtain hat | hat := reply_at s c shard status value c' shard' <;> rw [hat]

theorem reply_network : (s.reply c shard status value).network = s.network := by
  rw [System.reply]
  split <;> rfl

/-- A client is answered. -/
theorem Recorded.reply (hr : Recorded cfg loaded trusted s)
    (hok : ∀ g op, (s.shardClients c shard).waiting = some g →
      s.history[g]? = some (.called c op) → trusted c →
        AnswerOk cfg loaded trusted s.history c g status value op) :
    Recorded cfg loaded trusted (s.reply c shard status value) := by
  have hrun : System.reply c shard status value s = s ∨ ∃ g,
      (s.shardClients c shard).waiting = some g ∧
        (s.reply c shard status value).stores = s.stores ∧
        (s.reply c shard status value).history = s.history ++ [.returned g status value] := by
    rw [System.reply]
    split
    · exact .inl rfl
    · rename_i g hwaiting
      exact .inr ⟨g, hwaiting, rfl, rfl⟩
  rcases hrun with hsame | ⟨g, hwaiting, hstores, hhistory⟩
  · rw [hsame]
    exact hr
  · obtain ⟨op, hop⟩ := hr.waiting c shard g hwaiting
    refine hr.next (hhistory ▸ hr.history.answer hop (hok g op hwaiting hop))
      (fun j e he => hhistory ▸ getElem?_grows he _) (fun shard i key => ?_)
      (fun c' shard' g' hg' => .inl (reply_waiting hg'))
      (fun c' shard' r hmem => .inl (reply_scheduled c' shard' ▸ hmem))
      (fun p hp => .inl (reply_network ▸ hp))
    rw [hhistory, hstores, filterMap_storedAt fun _ _ _ he => by cases he]
    exact hr.values shard i key

/-- Nobody else is touched when a client is answered. -/
theorem reply_other {c' : ℕ} (hc : c' ≠ c) :
    (s.reply c shard status value).shardClients c' = s.shardClients c' ∧
      (s.reply c shard status value).calling c' = s.calling c' := by
  rw [System.reply]
  split
  · exact ⟨rfl, rfl⟩
  · exact ⟨Function.update_of_ne hc .., Function.update_of_ne hc ..⟩

theorem reply_extends : Extends g s.history (s.reply c shard status value).history := by
  rw [System.reply]
  split
  · exact .inl rfl
  · exact .inr ⟨_, rfl, fun _ _ _ he => by cases he⟩

/-- A client that cannot be trusted does something. -/
theorem Inv.foreign (hinv : Inv cfg loaded trusted s) (hc : ¬ trusted c)
    (hrecorded : Recorded cfg loaded trusted s')
    (hext : ∀ c' g op, c' ≠ c → s.history[g]? = some (.called c' op) →
      Extends g s.history s'.history)
    (hx : ∀ c', c' ≠ c → s'.shardClients c' = s.shardClients c')
    (hcalling : ∀ c', c' ≠ c → s'.calling c' = s.calling c')
    (hmine : ∀ c', c' ≠ c → (ofClient c' s'.network).Sublist (ofClient c' s.network)) :
    Inv cfg loaded trusted s' := by
  refine ⟨hrecorded, fun c' hc' => ?_⟩
  have hne : c' ≠ c := fun h => hc (h ▸ hc')
  exact (hinv.clients c' hc').keep hinv.history (fun g op hg => hext c' g op hne hg) (hx c' hne)
    (hcalling c' hne) (hmine c' hne)

end D2PC.Weak
