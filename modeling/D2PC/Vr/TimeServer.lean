import D2PC.Vr.Results
import Mathlib

/-!
# The timestamp server

`TimeStampServer` is an application of viewstamped replication that answers every request with the
next number. Where the replicas agree, no two requests get the same timestamp, and a request that
was not executed yet when a timestamp had been given gets a larger one, whatever happens to the
leader in between.

* `TimeStampServer.app` : the application;
* `run_counter` : the state counts the operations;
* `timestamps_ordered` : the timestamps of two replies.
-/

namespace D2PC.Vr

namespace TimeStampServer

/-- `newTimeStamp`. -/
def newTimeStamp (ts : ℕ) : String × ℕ := (toString (ts + 1), ts + 1)

/-- `TimeStampServer`, with the upcall of the leader that `AppReplica` has. -/
def app : App ℕ String where
  init := 0
  leaderUpcall _ str1 ts := ((true, str1), ts)
  replicaUpcall _ _ ts := newTimeStamp ts

/-- The machine it implements. -/
def counter : Machine ℕ String where
  init := 0
  step _ _ ts := newTimeStamp ts

theorem app_counter : Implements app counter id :=
  ⟨rfl, fun _ _ _ => rfl, fun _ _ _ => rfl, fun _ _ _ => rfl⟩

theorem run_counter (xs : List (ℕ × Request String)) : counter.run xs = xs.length := by
  induction xs using List.reverseRecOn with
  | nil => rfl
  | append_singleton xs x ih =>
      obtain ⟨k, req⟩ := x
      rw [Machine.run_concat, ih, List.length_append, List.length_singleton]
      rfl

/-- A reply is the place of a request of the client. -/
theorem answered {h : History String} {xs : List (ℕ × Request String)} {client : ℕ} {reply : Reply String}
    (hr : Answered app counter h xs client reply) :
    ∃ done k req, done ++ [(k, req)] <+: xs ∧ req.clientid = client ∧
      req.clientreqid = reply.clientreqid ∧ reply.reply = toString (done.length + 1) := by
  rcases hr with himmediate | hresult
  · obtain ⟨req, -, -, -, k, s, hs⟩ := himmediate
    cases hs
  · obtain ⟨done, k, req, hdone, hclient, hreqid, hreply⟩ := hresult
    rw [run_counter] at hreply
    exact ⟨done, k, req, hdone, hclient, hreqid, hreply⟩

/-- Of two places in a sequence, the one that is not later is in the piece before the other. -/
theorem place_mem {xs done done' : List (ℕ × Request String)} {x x' : ℕ × Request String}
    (hx : done ++ [x] <+: xs) (hx' : done' ++ [x'] <+: xs) (hle : done'.length ≤ done.length) :
    done' ++ [x'] <+: done ++ [x] := by
  refine List.prefix_of_prefix_length_le hx' hx ?_
  rw [List.length_append, List.length_append, List.length_singleton, List.length_singleton]
  exact Nat.add_le_add_right hle 1

end TimeStampServer

/-- The replicas of the server, as they are started. -/
def TimeStampServer.replicas (cfg : Config) : Deployment ℕ String where
  cfg := cfg
  batchSize := 1
  app := TimeStampServer.app

open TimeStampServer

/-- **The timestamps are unique and ordered.** Of a reply and a later one, the same timestamp means
the same request, and if the second request had not been executed when the first timestamp was
given, its own is larger. -/
theorem timestamps_ordered (cfg : Config) (hcfg : cfg.n = 2 * cfg.f + 1)
    {w w' : GlobalState ℕ String} (hw : (replicas cfg).system.Reach (Orderly (replicas cfg)) w)
    (hlater : (replicas cfg).system.Later (Orderly (replicas cfg)) w w')
    {p p' : Packet Node (Msg String)} (hp : p ∈ w.net) (hp' : p' ∈ w'.net)
    {reply reply' : Reply String} (hreply : p.msg = .reply reply)
    (hreply' : p'.msg = .reply reply') :
    (reply.reply = reply'.reply → p.dst = p'.dst ∧ reply.clientreqid = reply'.clientreqid) ∧
      ∃ ts ts' : ℕ, reply.reply = toString ts ∧ reply'.reply = toString ts' ∧
        ((∀ i k req, (.replica i, .executed k req) ∈ w.history →
          ¬(p'.dst = .client req.clientid ∧ req.clientreqid = reply'.clientreqid)) → ts < ts') := by
  have hw' := hw.later hlater
  have hm : Implements (replicas cfg).app counter id := app_counter
  have hpacket := (reach_serves hm (hw.mono fun _ _ _ _ _ => trivial)).2 p hp
  have hpacket' := (reach_serves hm (hw'.mono fun _ _ _ _ _ => trivial)).2 p' hp'
  rw [ServicePacket, hreply] at hpacket
  rw [ServicePacket, hreply'] at hpacket'
  obtain ⟨i, client, -, hdst, hanswered⟩ := hpacket
  obtain ⟨i', client', -, hdst', hanswered'⟩ := hpacket'
  obtain ⟨done, k, req, hdone, hclient, hreqid, hts⟩ := answered hanswered
  obtain ⟨done', k', req', hdone', hclient', hreqid', hts'⟩ := answered hanswered'
  -- both places are in what the replicas have executed in the end
  obtain ⟨longest, hcommon⟩ := exists_common hcfg hw'
  obtain ⟨es, hes⟩ := hlater.history
  have hgrown : executions w.history i <+: executions w'.history i := by
    rw [hes]
    exact executions_append es i
  have hx := (hdone.trans hgrown).trans (hcommon i)
  have hx' := hdone'.trans (hcommon i')
  refine ⟨fun heq => ?_, done.length + 1, done'.length + 1, hts, hts', fun hnew => ?_⟩
  · have hlen : done'.length = done.length := by
      rw [hts, hts'] at heq
      have hnumber : done.length + 1 = done'.length + 1 := Nat.repr_injective heq
      omega
    have hsame := (place_mem hx hx' hlen.le).eq_of_length_le (by simp [hlen])
    obtain ⟨-, hlast⟩ := List.append_inj hsame hlen
    obtain ⟨-, rfl⟩ := Prod.mk.inj (List.singleton_inj.1 hlast)
    rw [hdst, hdst', ← hclient, ← hclient', ← hreqid, ← hreqid']
    exact ⟨rfl, rfl⟩
  · by_contra hlt
    have hmem := ((place_mem hx hx' (by omega)).trans hdone).subset
      (List.mem_append_right _ (List.mem_singleton_self _))
    refine hnew i k' req' (mem_executions.1 hmem) ⟨?_, hreqid'⟩
    rw [hdst', hclient']

/-! ### A timestamp before and after a view change -/

/-- A client asks for a timestamp. -/
def ask : Protocol.Cmd Node (Act String) (Stray String) :=
  .act (.client 9) {} (.client (.invoke ""))

/-- Replica 0 gives a timestamp. -/
def asked : List (Protocol.Cmd Node (Act String) (Stray String)) :=
  [ask, .deliver 0 {}, .deliver 3 {}, .deliver 5 {}]

/-- Replica 1 gives one in the next view. -/
def askedAgain : List (Protocol.Cmd Node (Act String) (Stray String)) :=
  [.act (.replica 2) {} (.timer .viewChange), .deliver 10 {}, .deliver 12 {}, .deliver 13 {},
    .deliver 15 {}, ask, .deliver 18 {}, .deliver 21 {}, .deliver 22 {}]

/-- Three replicas of the server. -/
def threeServers : Deployment ℕ String := replicas { n := 3, f := 1 }

theorem asked_runs : (threeServers.system.exec (Orderly threeServers) threeServers.system.start
    asked).isSome := by
  decide +kernel

/-- The first timestamp has been given. -/
def afterAsked : GlobalState ℕ String :=
  (threeServers.system.exec (Orderly threeServers) threeServers.system.start asked).get asked_runs

theorem askedAgain_runs : (threeServers.system.exec (Orderly threeServers) afterAsked
    askedAgain).isSome := by
  decide +kernel

/-- The second one has been given, too. -/
def afterBoth : GlobalState ℕ String :=
  (threeServers.system.exec (Orderly threeServers) afterAsked askedAgain).get askedAgain_runs

deriving instance DecidableEq for Msg

instance {A M : Type} [DecidableEq A] [DecidableEq M] : DecidableEq (Packet A M) := fun p q =>
  decidable_of_iff (p.src = q.src ∧ p.dst = q.dst ∧ p.msg = q.msg) (by
    obtain ⟨src, dst, msg⟩ := p
    obtain ⟨src', dst', msg'⟩ := q
    rw [Packet.mk.injEq])

/-- The reply of replica 0. -/
def firstReply : Packet Node (Msg String) :=
  ⟨.replica 0, .client 9, .reply { view := 0, opnum := 1, clientreqid := 1, reply := "1" }⟩

/-- The reply of replica 1. -/
def secondReply : Packet Node (Msg String) :=
  ⟨.replica 1, .client 9, .reply { view := 1, opnum := 2, clientreqid := 2, reply := "2" }⟩

theorem timestamps_ordered_asked :
    ("1" = "2" → firstReply.dst = secondReply.dst ∧ 1 = 2) ∧
      ∃ ts ts' : ℕ, "1" = toString ts ∧ "2" = toString ts' ∧
        ((∀ i k req, (.replica i, .executed k req) ∈ afterAsked.history →
          ¬(secondReply.dst = .client req.clientid ∧ req.clientreqid = 2)) → ts < ts') := by
  have hfirst : firstReply ∈ afterAsked.net := by decide +kernel
  have hsecond : secondReply ∈ afterBoth.net := by decide +kernel
  exact timestamps_ordered { n := 3, f := 1 } rfl
    (Protocol.Reach.exec .start (Option.some_get asked_runs).symm)
    (Protocol.Later.exec .refl (Option.some_get askedAgain_runs).symm) hfirst hsecond rfl rfl

end D2PC.Vr
