import D2PC.Vr.Agreement
import Mathlib.Order.Lattice.Nat

/-!
# What the clients are told

The application of a replica is a state machine of which the leader may look at the state before it
replicates an operation. Then a replica is in the state that what it executed leads to, and a reply
is the result of an operation of the client at its place among what was executed. Where the replicas
agree, they are one machine: there is one sequence of operations of which each replica has executed
a prefix, and every reply is the result of an operation in it.

* `Machine`, `Implements` : what the application is, seen from outside;
* `Serves` : the invariant of a replica that serves its clients;
* `replicas_serve` : the state of a replica and the replies in every run;
* `one_machine` : the replicas as one machine.
-/

namespace D2PC.Vr

open Ctx Prog

/-- A machine that executes numbered operations. -/
structure Machine (τ Op : Type) where
  init : τ
  step : ℕ → Op → τ → Op × τ

namespace Machine

variable {τ Op : Type} (m : Machine τ Op)

/-- The state after the operations. -/
def run (xs : List (ℕ × Request Op)) : τ :=
  xs.foldl (fun s x => (m.step x.1 x.2.op s).2) m.init

/-- The reply is the result of an operation of the client among those. -/
def Result (xs : List (ℕ × Request Op)) (client : ℕ) (reply : Reply Op) : Prop :=
  ∃ done k req, done ++ [(k, req)] <+: xs ∧ req.clientid = client ∧
    req.clientreqid = reply.clientreqid ∧ reply.reply = (m.step k req.op (m.run done)).1

theorem run_concat (xs : List (ℕ × Request Op)) (k : ℕ) (req : Request Op) :
    m.run (xs ++ [(k, req)]) = (m.step k req.op (m.run xs)).2 := by
  rw [run, List.foldl_append]
  rfl

variable {m}

theorem Result.mono {xs ys : List (ℕ × Request Op)} {client : ℕ} {reply : Reply Op}
    (hr : m.Result xs client reply) (hxs : xs <+: ys) : m.Result ys client reply := by
  obtain ⟨done, k, req, hdone, hreq⟩ := hr
  exact ⟨done, k, req, hdone.trans hxs, hreq⟩

end Machine

variable {σ τ Op : Type}

/-- **The application implements the machine**: what the leader does before an operation is
replicated is not seen. -/
structure Implements (app : App σ Op) (m : Machine τ Op) (abs : σ → τ) : Prop where
  init : abs app.init = m.init
  leader : ∀ k op s, abs (app.leaderUpcall k op s).2 = abs s
  result : ∀ k op s, (app.replicaUpcall k op s).1 = (m.step k op (abs s)).1
  state : ∀ k op s, abs (app.replicaUpcall k op s).2 = (m.step k op (abs s)).2

/-- The leader answered the request that the client had made without replicating it, or the reply is
a result. -/
def Answered (app : App σ Op) (m : Machine τ Op) (h : History Op) (xs : List (ℕ × Request Op))
    (client : ℕ) (reply : Reply Op) : Prop :=
  (∃ req, (.client client, .requested req) ∈ h ∧ req.clientid = client ∧
    req.clientreqid = reply.clientreqid ∧
    ∃ k s, (app.leaderUpcall k req.op s).1 = (false, reply.reply)) ∨ m.Result xs client reply

/-- **A replica serves its clients.** Its application is in the state that the operations lead to,
it knows the addresses of the clients, and it notes only replies that are right. -/
structure Serves (app : App σ Op) (m : Machine τ Op) (abs : σ → τ) (h : History Op) (i : ℕ)
    (r : Replica σ Op) : Prop where
  state : abs r.app = m.run (executions h i)
  address : ∀ client a, r.clientAddresses.lookup client = some a → a = .client client
  table : ∀ client e reply, r.clientTable.lookup client = some e → e.reply = some reply →
    Answered app m h (executions h i) client reply

/-- A client remembers only what it has requested. -/
def Remembers (h : History Op) (id : ℕ) (c : Client Op) : Prop :=
  ∀ reqId op, c.pendingReqs.lookup reqId = some op →
    (.client id, .requested { op := op, clientid := id, clientreqid := reqId }) ∈ h

/-- What is true of a message: a reply is right, and a client sends the requests that it made. -/
def ServicePacket (app : App σ Op) (m : Machine τ Op) (h : History Op)
    (p : Packet Node (Msg Op)) : Prop :=
  match p.msg with
  | .reply reply => ∃ i client, p.src = .replica i ∧ p.dst = .client client ∧
      Answered app m h (executions h i) client reply
  | .request req => p.src = .client req.clientid ∧
      (.client req.clientid, .requested req) ∈ h
  | _ => True

variable {app : App σ Op} {m : Machine τ Op} {abs : σ → τ}

section Histories

variable {h : History Op}

theorem executions_append (es : History Op) (i : ℕ) :
    executions h i <+: executions (h ++ es) i := by
  rw [executions, executions, List.filterMap_append]
  exact List.prefix_append _ _

theorem Answered.mono {h' : History Op} {xs ys : List (ℕ × Request Op)} {client : ℕ}
    {reply : Reply Op} (hr : Answered app m h xs client reply) (hh : h ⊆ h') (hxs : xs <+: ys) :
    Answered app m h' ys client reply := by
  rcases hr with himmediate | hresult
  · obtain ⟨req, hmem, hreq⟩ := himmediate
    exact .inl ⟨req, hh hmem, hreq⟩
  · exact .inr (hresult.mono hxs)

theorem ServicePacket.append {p : Packet Node (Msg Op)} (hp : ServicePacket app m h p)
    (es : History Op) : ServicePacket app m (h ++ es) p := by
  obtain ⟨src, dst, msg⟩ := p
  cases msg with
  | reply reply =>
      obtain ⟨i, client, hsrc, hdst, hanswered⟩ := hp
      exact ⟨i, client, hsrc, hdst,
        hanswered.mono (List.subset_append_left _ _) (executions_append es i)⟩
  | request req => exact ⟨hp.1, List.mem_append_left _ hp.2⟩
  | _ => trivial

theorem servicePacket_append (app : App σ Op) (m : Machine τ Op) (h es : History Op)
    (p : Packet Node (Msg Op)) (hp : ServicePacket app m h p) : ServicePacket app m (h ++ es) p :=
  hp.append es

theorem ServicePacket.of_peer {p : Packet Node (Msg Op)} (hp : p.msg.ofPeer = true) :
    ServicePacket app m h p := by
  obtain ⟨src, dst, msg⟩ := p
  cases msg with
  | reply reply => cases hp
  | request req => cases hp
  | _ => trivial

/-- The table after an entry was written. -/
theorem Serves.insert {r : Replica σ Op} {h' : History Op} {xs : List (ℕ × Request Op)} {i : ℕ}
    (hr : Serves app m abs h i r) (hh : h ⊆ h') (hxs : executions h i <+: xs) {a : ℕ}
    {e : ClientTableEntry Op}
    (he : ∀ reply, e.reply = some reply → Answered app m h' xs a reply) :
    ∀ client' e' reply, (r.clientTable.insert a e).lookup client' = some e' →
      e'.reply = some reply → Answered app m h' xs client' reply := by
  intro client' e' reply hlookup hreply
  rw [Table.lookup_insert_eq] at hlookup
  split_ifs at hlookup with hclient
  · obtain rfl := Option.some.inj hlookup
    exact hclient ▸ he reply hreply
  · exact (hr.table client' e' reply hlookup hreply).mono hh hxs

/-- The entry of a client, or the one that is made for it. -/
theorem Serves.entry {r : Replica σ Op} {i client : ℕ} (hr : Serves app m abs h i r)
    {reply : Reply Op} (hreply : ((r.clientTable.lookup client).getD {}).reply = some reply) :
    Answered app m h (executions h i) client reply := by
  cases hlookup : r.clientTable.lookup client with
  | none =>
      rw [hlookup] at hreply
      cases hreply
  | some e =>
      rw [hlookup] at hreply
      exact hr.table client e reply hlookup hreply

end Histories

namespace Replica

variable {env : Env σ Op} {h : History Op}

/-- What a handler keeps that serves the clients. -/
abbrev Serving (env : Env σ Op) (m : Machine τ Op) (abs : σ → τ) (h : History Op)
    (c : Ctx (Replica σ Op) Node (Msg Op) (Event Op)) : Prop :=
  Good (fun h r => Serves env.app m abs h env.myIdx r) (ServicePacket env.app m) h
    (.replica env.myIdx) c

/-- What is left when it dies. -/
abbrev Served (env : Env σ Op) (m : Machine τ Op) (h : History Op)
    (c : Ctx (Replica σ Op) Node (Msg Op) (Event Op)) : Prop :=
  Good (fun _ (_ : Replica σ Op) => True) (ServicePacket env.app m) h (.replica env.myIdx) c

variable {c : Ctx (Replica σ Op) Node (Msg Op) (Event Op)}

theorem Serving.dead (hc : Serving env m abs h c) : Served env m h c := ⟨trivial, hc.sent⟩

/-- The reply to an operation that was executed last. -/
theorem result_last (hm : Implements env.app m abs) {xs : List (ℕ × Request Op)} {s : σ}
    (hs : abs s = m.run xs) (k view opnum : ℕ) (req : Request Op) :
    m.Result (xs ++ [(k, req)]) req.clientid
      { view := view
        opnum := opnum
        clientreqid := req.clientreqid
        reply := (env.app.replicaUpcall k req.op s).1 } := by
  refine ⟨xs, k, req, List.prefix_rfl, rfl, rfl, ?_⟩
  rw [hm.result, hs]

theorem executions_record {k : ℕ} {req : Request Op} {r : Replica σ Op} :
    executions (past h (.replica env.myIdx)
      ({ state := r, sent := c.sent, events := c.events ++ [.executed k req] } :
        Ctx (Replica σ Op) Node (Msg Op) (Event Op))) env.myIdx =
      executions (past h (.replica env.myIdx) c) env.myIdx ++ [(k, req)] := by
  rw [past_emit]
  exact executions_own [.executed k req]

/-- An execution is recorded. -/
theorem Serving.record (hc : Serving env m abs h c) {k : ℕ} {req : Request Op} {r : Replica σ Op}
    (hstate : abs r.app = m.run (executions (past h (.replica env.myIdx) c) env.myIdx ++
      [(k, req)]))
    (haddress : r.clientAddresses = c.state.clientAddresses)
    (htable : ∀ client e reply, r.clientTable.lookup client = some e → e.reply = some reply →
      Answered env.app m (past h (.replica env.myIdx) c)
        (executions (past h (.replica env.myIdx) c) env.myIdx ++ [(k, req)]) client reply) :
    Serving env m abs h { state := r, sent := c.sent, events := c.events ++ [.executed k req] } := by
  have hgrown : executions (past h (.replica env.myIdx) c ++
      [(.replica env.myIdx, .executed k req)]) env.myIdx =
      executions (past h (.replica env.myIdx) c) env.myIdx ++ [(k, req)] :=
    executions_own [.executed k req]
  refine Good.record (servicePacket_append env.app m) hc ⟨?_, ?_, ?_⟩
  · rw [hgrown]
    exact hstate
  · rw [haddress]
    exact hc.node.address
  · intro client e reply hlookup hreply
    rw [hgrown]
    exact (htable client e reply hlookup hreply).mono (List.subset_append_left _ _) List.prefix_rfl

/-- **The next operation** is executed, and its result is the reply. -/
theorem commitNext_serves (hm : Implements env.app m abs) :
    Maintains (Serving env m abs h) (Served env m h) (commitNext env) := by
  intro c hc
  rw [commitNext, wp_bind, wp_update, wp_bind, wp_read, wp_bind, wp_deref]
  refine ⟨fun entry _ => ?_, fun _ => ⟨trivial, hc.sent⟩⟩
  have hresult := result_last hm hc.node.state (c.state.lastCommitted + 1) entry.view entry.opnum
    entry.request
  have hstate := hm.state (c.state.lastCommitted + 1) entry.request.op c.state.app
  rw [hc.node.state, ← Machine.run_concat] at hstate
  generalize hup : env.app.replicaUpcall _ _ _ = up
  have hup : env.app.replicaUpcall (c.state.lastCommitted + 1) entry.request.op c.state.app =
    up := hup
  rw [hup] at hresult hstate
  obtain ⟨res, app⟩ := up
  show wp (Ctx.emit _ >>= fun _ => Ctx.update _ >>= fun _ => _) _ _ _
  rw [wp_bind, wp_emit, wp_bind, wp_update]
  have hpre : executions (past h (.replica env.myIdx) c) env.myIdx <+:
      executions (past h (.replica env.myIdx) c) env.myIdx ++
        [(c.state.lastCommitted + 1, entry.request)] := List.prefix_append _ _
  have htable := hc.node.insert (List.Subset.refl _) hpre (a := entry.request.clientid)
    (e := if ((c.state.clientTable.lookup entry.request.clientid).getD {}).lastReqId ≤
        entry.request.clientreqid then
      { lastReqId := entry.request.clientreqid
        replied := true
        reply := some
          { view := entry.view
            opnum := entry.opnum
            clientreqid := entry.request.clientreqid
            reply := res } }
      else (c.state.clientTable.lookup entry.request.clientid).getD {}) fun reply hreply => by
    split_ifs at hreply
    · obtain rfl := Option.some.inj hreply
      exact .inr hresult
    · exact (hc.node.entry hreply).mono (List.Subset.refl _) hpre
  have hgood := hc.record (r := { c.state with
    lastCommitted := c.state.lastCommitted + 1
    app := app
    clientTable := _ }) hstate rfl htable
  split
  · rename_i addr haddr
    refine hgood.send_one ?_
    refine ⟨env.myIdx, entry.request.clientid, rfl, hc.node.address _ _ haddr, .inr ?_⟩
    rw [executions_record]
    exact hresult
  · exact hgood

/-- What does not touch the service. -/
theorem update_serves {f : Replica σ Op → Replica σ Op}
    (hf : ∀ r, (f r).service = r.service) :
    Maintains (Serving env m abs h) (Served env m h) (Ctx.update f) := by
  intro c hc
  have hrest := congrArg Prod.snd (hf c.state)
  have happ : (f c.state).app = c.state.app := congrArg Prod.fst hrest
  have haddress : (f c.state).clientAddresses = c.state.clientAddresses :=
    congrArg (·.2.1) hrest
  have htable : (f c.state).clientTable = c.state.clientTable := congrArg (·.2.2) hrest
  refine hc.update ⟨?_, ?_, ?_⟩
  · rw [happ]
    exact hc.node.state
  · rw [haddress]
    exact hc.node.address
  · rw [htable]
    exact hc.node.table

/-- An entry of the client table is written. -/
theorem Serving.write (hc : Serving env m abs h c) {client : ℕ} {e : ClientTableEntry Op}
    (he : ∀ reply, e.reply = some reply →
      Answered env.app m (past h (.replica env.myIdx) c)
        (executions (past h (.replica env.myIdx) c) env.myIdx) client reply) :
    Serving env m abs h { c with state := { c.state with
      clientTable := c.state.clientTable.insert client e } } :=
  hc.update ⟨hc.node.state, hc.node.address, hc.node.insert (List.Subset.refl _) List.prefix_rfl he⟩

theorem updateClientTable_serves (req : Request Op) :
    Maintains (Serving env m abs h) (Served env m h) (updateClientTable req) := by
  intro c hc
  refine hc.write fun reply hreply => ?_
  split_ifs at hreply
  exact hc.node.entry hreply

/-- An event that is not an execution is recorded. -/
theorem emit_serves {e : Event Op} (he : executedOf e = none) :
    Maintains (Serving env m abs h) (Served env m h) (Ctx.emit e) := by
  intro c hc
  have hsame : executions (past h (.replica env.myIdx) c ++ [(.replica env.myIdx, e)])
      env.myIdx = executions (past h (.replica env.myIdx) c) env.myIdx := by
    rw [← List.map_singleton (f := ((.replica env.myIdx : Node), ·)), executions_own,
      List.filterMap_cons, he, List.filterMap_nil, List.append_nil]
  refine Good.emit (servicePacket_append env.app m) hc ⟨?_, hc.node.address, ?_⟩
  · rw [hsame]
    exact hc.node.state
  · intro client e reply hlookup hreply
    rw [hsame]
    exact (hc.node.table client e reply hlookup hreply).mono (List.subset_append_left _ _)
      List.prefix_rfl

/-- **The service is kept** by everything but the requests of the clients. -/
theorem serving_steady (hm : Implements env.app m abs) :
    Steady env (Serving env m abs h) (Served env m h) where
  dead _ := Serving.dead
  update := update_serves
  emit := emit_serves
  send hps _ hc := hc.send fun p hp => ServicePacket.of_peer (hps p hp)
  commit := commitNext_serves hm
  table := updateClientTable_serves

/-- **A request that is new** is answered at once or replicated. -/
theorem takeRequest_serves (hm : Implements env.app m abs) {req : Request Op}
    (hreq : (.client req.clientid, .requested req) ∈ h) :
    Maintains (Serving env m abs h) (Served env m h)
      (takeRequest env (.client req.clientid) req) := by
  refine .bind (updateClientTable_serves req) fun _ => ?_
  intro c hc
  rw [wp_bind, wp_read]
  have hkept := hm.leader c.state.lastCommitted req.op c.state.app
  generalize hup : env.app.leaderUpcall _ _ _ = up
  have hup : env.app.leaderUpcall c.state.lastCommitted req.op c.state.app = up := hup
  rw [hup] at hkept
  obtain ⟨⟨replicate, res⟩, app⟩ := up
  have hkept : abs app = abs c.state.app := hkept
  show wp (Ctx.update _ >>= fun _ => _) _ _ _
  rw [wp_bind, wp_update]
  have hc' : Serving env m abs h { c with state := { c.state with app := app } } :=
    hc.update ⟨hkept.trans hc.node.state, hc.node.address, hc.node.table⟩
  cases replicate with
  | true => exact propose_steady (serving_steady hm) _ _ _ hc'
  | false =>
      have hanswered : Answered env.app m (past h (.replica env.myIdx) c)
          (executions (past h (.replica env.myIdx) c) env.myIdx) req.clientid
          { view := 0
            opnum := 0
            clientreqid := req.clientreqid
            reply := res } :=
        .inl ⟨req, List.mem_append_left _ hreq, rfl, rfl, _, _, congrArg Prod.fst hup⟩
      show wp (Ctx.update _ >>= fun _ => _) _ _ _
      rw [wp_bind, wp_update]
      refine Good.send_one (hc'.write fun reply hreply => ?_) ?_
      · obtain rfl := Option.some.inj hreply
        exact hanswered
      · exact ⟨env.myIdx, req.clientid, rfl, rfl, hanswered⟩

/-- **A request** of a client. -/
theorem handleRequest_serves (hm : Implements env.app m abs) {req : Request Op}
    (hreq : (.client req.clientid, .requested req) ∈ h) :
    Maintains (Serving env m abs h) (Served env m h)
      (handleRequest env (.client req.clientid) req) := by
  intro c hc
  rw [handleRequest, wp_bind, wp_read, wp_when]
  refine ⟨fun _ => ?_, fun _ => hc⟩
  rw [wp_bind, wp_update]
  have hc' : Serving env m abs h { c with state := { c.state with
      clientAddresses := c.state.clientAddresses.insert req.clientid (.client req.clientid) } } := by
    refine hc.update ⟨hc.node.state, fun client a ha => ?_, hc.node.table⟩
    have ha : (c.state.clientAddresses.insert req.clientid (.client req.clientid)).lookup client =
      some a := ha
    rw [Table.lookup_insert_eq] at ha
    split_ifs at ha with hclient
    · rw [hclient]
      exact (Option.some.inj ha).symm
    · exact hc.node.address client a ha
  split
  · rename_i entry hentry
    have hentry : c.state.clientTable.lookup req.clientid = some entry := hentry
    rw [wp_ite]
    refine ⟨fun _ => hc', fun _ => ?_⟩
    rw [wp_ite]
    refine ⟨fun _ => ?_, fun _ => takeRequest_serves hm hreq _ hc'⟩
    split
    · rename_i reply _ hreply
      exact hc'.send_one ⟨env.myIdx, req.clientid, rfl, rfl,
        hc.node.table _ entry reply hentry hreply⟩
    · exact hc'
  · exact takeRequest_serves hm hreq _ hc'

end Replica

/-! ### Runs -/

variable {dep : Deployment σ Op}

/-- The state of a process that serves or is served. -/
def ServingNode (app : App σ Op) (m : Machine τ Op) (abs : σ → τ) (h : History Op) :
    (n : Node) → State σ Op n → Prop
  | .replica i, r => Serves app m abs h i r
  | .client id, c => Remembers h id c

/-- A client sends a request that it made. -/
theorem sendRequest_serves {h : History Op} {id reqId : ℕ} {op : Op}
    {c : Ctx (Client Op) Node (Msg Op) (Event Op)}
    (hc : Good (fun h c => Remembers h id c) (ServicePacket app m) h (.client id) c)
    (hreq : (.client id, .requested { op := op, clientid := id, clientreqid := reqId }) ∈
      past h (.client id) c) {D : Ctx (Client Op) Node (Msg Op) (Event Op) → Prop} :
    wp (Client.sendRequest dep.cfg id reqId op)
      (fun _ => Good (fun h c => Remembers h id c) (ServicePacket app m) h (.client id)) D c := by
  rw [Client.sendRequest, wp_send]
  refine hc.send fun p hp => ?_
  obtain ⟨j, -, rfl⟩ := List.mem_map.1 hp
  exact ⟨rfl, hreq⟩

/-- **A step of a client.** -/
theorem client_serves {h : History Op} {id : ℕ} {s : Client Op} (hs : Remembers h id s)
    (ω : Stray Op) (input : Input Node (Msg Op) (Act Op)) :
    wp (dep.handle (.client id) ω input)
      (fun _ => Good (fun h c => Remembers h id c) (ServicePacket app m) h (.client id))
      (Good (fun _ (_ : Client Op) => True) (ServicePacket app m) h (.client id))
      { state := s } := by
  have hstart : Good (fun h c => Remembers h id c) (ServicePacket app m) h (.client id)
      ({ state := s } : Ctx (Client Op) Node (Msg Op) (Event Op)) := .start hs
  cases input with
  | recv p =>
      show wp (Client.handleMessage p.msg) _ _ _
      cases p.msg with
      | reply reply =>
          refine hstart.update fun reqId op hop => hstart.node reqId op ?_
          have hop : (s.pendingReqs.erase reply.clientreqid).lookup reqId = some op := hop
          rw [Table.lookup_erase_eq] at hop
          split_ifs at hop
          exact hop
      | _ => exact ⟨trivial, hstart.sent⟩
  | act a =>
      cases a with
      | timer t => exact hstart
      | client a =>
          cases a with
          | invoke op =>
              show wp (Client.handleAct dep.cfg id (.invoke op)) _ _ _
              rw [Client.handleAct, wp_bind, wp_update, wp_bind, wp_read, wp_bind, wp_emit, wp_bind,
                wp_update]
              have hmade := Good.record (servicePacket_append app m)
                (hstart.update (s := { s with lastReqId := s.lastReqId + 1 }) hstart.node)
                (e := .requested { op := op, clientid := id, clientreqid := s.lastReqId + 1 })
                (s := { lastReqId := s.lastReqId + 1
                        pendingReqs := s.pendingReqs.insert (s.lastReqId + 1) op })
                fun reqId op' hop => ?_
              · refine sendRequest_serves hmade ?_
                rw [past_emit]
                exact List.mem_append_right _ (List.mem_singleton_self _)
              · have hop : (s.pendingReqs.insert (s.lastReqId + 1) op).lookup reqId = some op' := hop
                rw [Table.lookup_insert_eq] at hop
                split_ifs at hop with hid
                · obtain rfl := Option.some.inj hop
                  rw [hid]
                  exact List.mem_append_right _ (List.mem_singleton_self _)
                · exact List.mem_append_left _ (hstart.node reqId op' hop)
          | resend reqId =>
              show wp (Client.handleAct dep.cfg id (.resend reqId)) _ _ _
              rw [Client.handleAct, wp_bind, wp_read]
              cases hop : s.pendingReqs.lookup reqId with
              | none => exact hstart
              | some op => exact sendRequest_serves hstart (hstart.node reqId op hop)

theorem serves_initial (hm : Implements dep.app m abs) (i : ℕ) :
    Serves dep.app m abs [] i (dep.initial (.replica i) : Replica σ Op) := by
  refine ⟨hm.init, fun client a ha => ?_, fun client e reply he => ?_⟩
  · cases ha
  · cases he

/-- What others record changes nothing for a replica. -/
theorem Serves.other {h : History Op} {i : ℕ} {r : Replica σ Op} {n : Node}
    (hr : Serves app m abs h i r) (hn : n ≠ .replica i) (es : List (Event Op)) :
    Serves app m abs (h ++ es.map (n, ·)) i r := by
  refine ⟨?_, hr.address, ?_⟩
  · rw [executions_other hn]
    exact hr.state
  · intro client e reply hlookup hreply
    rw [executions_other hn]
    exact (hr.table client e reply hlookup hreply).mono (List.subset_append_left _ _)
      List.prefix_rfl

/-- **The invariant** of every run. -/
theorem reach_serves (hm : Implements dep.app m abs) {w : GlobalState σ Op}
    (hw : dep.system.Reach (fun _ _ _ _ => True) w) :
    (∀ i, w.crashed (.replica i) = false →
      Serves dep.app m abs w.history i (w.state (.replica i))) ∧
    ∀ p ∈ w.net, ServicePacket dep.app m w.history p := by
  have hinv : (∀ n, (fun _ _ _ => True : History Op → (n : Node) → State σ Op n → Prop)
        w.history n (w.state n)) ∧
      (∀ n, w.crashed n = false → ServingNode dep.app m abs w.history n (w.state n)) ∧
        ∀ p ∈ w.net, ServicePacket dep.app m w.history p := by
    refine @Protocol.Reach.invariant_live _ _ _ _ _ _ _ _ _ _ (fun _ _ _ => True)
      (ServingNode dep.app m abs) (ServicePacket dep.app m) (fun n => ⟨trivial, ?_⟩)
      (fun _ es _ hp => hp.append es) (fun _ _ _ _ _ _ _ => trivial)
      (fun h n n' es s hne hs => ?_) ?_ _ hw
    · cases n with
      | client c => exact fun reqId op hop => by cases hop
      | replica i => exact serves_initial hm i
    · cases n with
      | client c => exact fun reqId op hop => List.mem_append_left _ (hs reqId op hop)
      | replica i => exact Serves.other hs hne.symm es
    · intro w n ω input _ _ hlive hpackets hen _
      cases n with
      | client c =>
          exact wp_mono (fun _ c hc => ⟨⟨trivial, hc.node⟩, hc.sent⟩) (fun _ hc => hc)
            (client_serves hlive ω input)
      | replica i =>
          have hstart : Replica.Serving (dep.env i) m abs w.history
              { state := w.state (.replica i) } := .start hlive
          have hrequest : ∀ p req, input = .recv p → p.msg = .request req →
              Replica.Maintains (Replica.Serving (dep.env i) m abs w.history)
                (Replica.Served (dep.env i) m w.history)
                (Replica.handleRequest (dep.env i) p.src req) := by
            intro p req hinput hreq
            rw [hinput] at hen
            have hpacket := hpackets p hen.2.1
            rw [ServicePacket, hreq] at hpacket
            obtain ⟨hsrc, hmade⟩ := hpacket
            rw [hsrc]
            exact Replica.handleRequest_serves hm hmade
          refine wp_mono (fun _ c hc => ⟨⟨trivial, hc.node⟩, hc.sent⟩) (fun _ hc => hc)
            (handle_steady (Replica.serving_steady hm) ω hrequest _ hstart)
  exact ⟨fun i hi => hinv.2.1 (.replica i) hi, hinv.2.2⟩

/-- **The service of the replicas in every run**: each has executed the operations from the first one
on, is in the state that they lead to, and its replies are results of operations at their places. -/
theorem replicas_serve (dep : Deployment σ Op) {m : Machine τ Op} {abs : σ → τ}
    (hm : Implements dep.app m abs) {w : GlobalState σ Op}
    (hw : dep.system.Reach (fun _ _ _ _ => True) w) :
    (∀ i, (executions w.history i).map Prod.fst =
      List.range' 1 (executions w.history i).length) ∧
    (∀ i, w.crashed (.replica i) = false →
      let r : Replica σ Op := w.state (.replica i)
      (executions w.history i).length = r.lastCommitted ∧
        abs r.app = m.run (executions w.history i)) ∧
    ∀ p ∈ w.net, ∀ reply, p.msg = .reply reply → ∃ i client, p.src = .replica i ∧
      p.dst = .client client ∧ Answered dep.app m w.history (executions w.history i) client reply := by
  obtain ⟨hserves, hpackets⟩ := reach_serves hm hw
  refine ⟨fun i => ?_, fun i hi => ?_, fun p hp reply hreply => ?_⟩
  · exact numbered_length (executions_numbered dep hw i).1
  · refine ⟨?_, (hserves i hi).state⟩
    have hlen := congrArg List.length ((executions_numbered dep hw i).2 hi)
    rw [List.length_map, List.length_range'] at hlen
    exact hlen
  · have hpacket := hpackets p hp
    rw [ServicePacket, hreply] at hpacket
    exact hpacket

/-! ### Three replicas of a sum -/

/-- The sum of the operations. -/
def sum : Machine ℕ ℕ where
  init := 0
  step _ op s := (s + op, s + op)

/-- Three replicas that add up the operations. -/
def threeSums : Deployment ℕ ℕ where
  cfg := { n := 3, f := 1 }
  batchSize := 1
  app :=
    { init := 0
      leaderUpcall := fun _ op s => ((true, op), s)
      replicaUpcall := fun _ op s => (s + op, s + op) }

theorem threeSums_sum : Implements threeSums.app sum id :=
  ⟨rfl, fun _ _ _ => rfl, fun _ _ _ => rfl, fun _ _ _ => rfl⟩

theorem sums_orderly : (threeSums.system.exec (Orderly threeSums) threeSums.system.start
    changeKept).isSome := by
  decide +kernel

theorem sums_reach : threeSums.system.Reach (Orderly threeSums)
    ((threeSums.system.exec (Orderly threeSums) threeSums.system.start changeKept).get
      sums_orderly) :=
  Protocol.Reach.exec .start (Option.some_get _).symm

theorem replicas_serve_sums :
    let w := (threeSums.system.exec (Orderly threeSums) threeSums.system.start changeKept).get
      sums_orderly
    (∀ i, (executions w.history i).map Prod.fst =
      List.range' 1 (executions w.history i).length) ∧
    (∀ i, w.crashed (.replica i) = false →
      let r : Replica ℕ ℕ := w.state (.replica i)
      (executions w.history i).length = r.lastCommitted ∧
        r.app = sum.run (executions w.history i)) ∧
    ∀ p ∈ w.net, ∀ reply, p.msg = .reply reply → ∃ i client, p.src = .replica i ∧
      p.dst = .client client ∧
        Answered threeSums.app sum w.history (executions w.history i) client reply :=
  replicas_serve threeSums threeSums_sum (sums_reach.mono fun _ _ _ _ _ => trivial)

/-! ### One machine -/

/-- Some replica has executed the most. -/
theorem exists_longest (h : History Op) :
    ∃ i, ∀ j, (executions h j).length ≤ (executions h i).length := by
  have hbounded : BddAbove (Set.range fun i => (executions h i).length) := by
    refine ⟨h.length, fun n hn => ?_⟩
    obtain ⟨i, rfl⟩ := hn
    exact List.length_filterMap_le _ _
  obtain ⟨i, hi⟩ := Nat.sSup_mem (Set.range_nonempty fun i => (executions h i).length) hbounded
  refine ⟨i, fun j => ?_⟩
  have hj := le_csSup hbounded (Set.mem_range_self j)
  rw [← hi] at hj
  exact hj

/-- What it has executed is what the others have, and maybe more. -/
theorem exists_common (hcfg : dep.cfg.n = 2 * dep.cfg.f + 1) {w : GlobalState σ Op}
    (hw : dep.system.Reach (Orderly dep) w) :
    ∃ i, ∀ j, executions w.history j <+: executions w.history i := by
  obtain ⟨i, hi⟩ := exists_longest w.history
  refine ⟨i, fun j => ?_⟩
  rcases executions_prefix dep hcfg hw j i with h | h
  · exact h
  · rw [h.eq_of_length_le (hi j)]

/-- **The replicas are one machine.** There is one sequence of operations of which each replica has
executed a prefix; a replica is in the state that this prefix leads to, and every reply is the
result of an operation of the client at its place in the sequence. -/
theorem one_machine (dep : Deployment σ Op) (hcfg : dep.cfg.n = 2 * dep.cfg.f + 1)
    {m : Machine τ Op} {abs : σ → τ} (hm : Implements dep.app m abs) {w : GlobalState σ Op}
    (hw : dep.system.Reach (Orderly dep) w) :
    ∃ xs : List (ℕ × Request Op), xs.map Prod.fst = List.range' 1 xs.length ∧
      (∀ i, executions w.history i <+: xs) ∧
      (∀ i, w.crashed (.replica i) = false →
        let r : Replica σ Op := w.state (.replica i)
        abs r.app = m.run (xs.take r.lastCommitted)) ∧
      ∀ p ∈ w.net, ∀ reply, p.msg = .reply reply → ∃ client, p.dst = .client client ∧
        Answered dep.app m w.history xs client reply := by
  have hall := hw.mono fun _ _ _ _ _ => trivial
  obtain ⟨hserves, hpackets⟩ := reach_serves hm hall
  obtain ⟨longest, hpre⟩ := exists_common hcfg hw
  refine ⟨executions w.history longest, ?_, hpre, fun i hi => ?_, fun p hp reply hreply => ?_⟩
  · exact numbered_length (executions_numbered dep hall longest).1
  · intro r
    have hnumbers := (executions_numbered dep hall i).2 hi
    have hlen := congrArg List.length hnumbers
    rw [List.length_map, List.length_range'] at hlen
    have htake := List.prefix_iff_eq_take.1 (hpre i)
    rw [hlen] at htake
    rw [← htake]
    exact (hserves i hi).state
  · have hpacket := hpackets p hp
    rw [ServicePacket, hreply] at hpacket
    obtain ⟨i, client, -, hdst, hanswered⟩ := hpacket
    exact ⟨client, hdst, hanswered.mono (List.Subset.refl _) (hpre i)⟩

theorem one_machine_sums :
    let w := (threeSums.system.exec (Orderly threeSums) threeSums.system.start changeKept).get
      sums_orderly
    ∃ xs : List (ℕ × Request ℕ), xs.map Prod.fst = List.range' 1 xs.length ∧
      (∀ i, executions w.history i <+: xs) ∧
      (∀ i, w.crashed (.replica i) = false →
        let r : Replica ℕ ℕ := w.state (.replica i)
        r.app = sum.run (xs.take r.lastCommitted)) ∧
      ∀ p ∈ w.net, ∀ reply, p.msg = .reply reply → ∃ client, p.dst = .client client ∧
        Answered threeSums.app sum w.history xs client reply :=
  one_machine threeSums rfl threeSums_sum sums_reach

end D2PC.Vr
