import Mathlib.Logic.Function.Basic
import Mathlib.Data.List.Basic
import D2PC.Lib.Prog

/-!
# Asynchronous message passing

Processes with local state exchange packets over a network that may lose, duplicate, delay
and reorder them. The network is the list of all packets ever sent: a packet that was sent
may be delivered at any later time, any number of times, or never. Every process also
writes a history of the events a specification speaks about.

* `Reach P C w` : `w` is reached by a run of the protocol `P` all of whose steps meet the
  condition `C` on the world before the step;
* `Reach.invariant` : the rule for local invariants. What holds of one process and what
  holds of one packet may mention the history; a step has to re-establish only the
  invariant of the process that takes it and of the packets it sends;
* `Later P C w w'` : the run goes on from `w` to `w'`; the network and the history only grow;
* `Trace P tr w` : the steps `tr` lead to `w`, for conditions on the order of steps (`followed`);
* `Ctx.Sends`, `Ctx.Preserves` : the kinds of packets a handler may send, and the facts about the
  local state it keeps, with one rule for each construct;
* `exec`, `Reach.exec` : an executable scheduler, and that what it reaches is reachable.
-/

/-- A packet: message `msg` from address `src` to address `dst`. -/
structure Packet (A M : Type) where
  src : A
  dst : A
  msg : M
  deriving DecidableEq, Repr

/-- What a process reacts to: a packet, or a local action (a timer, a call of its user). -/
inductive Input (A M I : Type) where
  | recv (p : Packet A M)
  | act (i : I)

/-- The mutable state of a handler: the local state, and what was sent and recorded so far. -/
structure Ctx (S A M E : Type) where
  state : S
  sent : List (Packet A M) := []
  events : List E := []

namespace Ctx

variable {S A M E : Type}

/-- Update the local state. -/
def update (f : S → S) : Prog (Ctx S A M E) Unit :=
  Prog.modify fun c => { c with state := f c.state }

/-- Send packets. -/
def send (ps : List (Packet A M)) : Prog (Ctx S A M E) Unit :=
  Prog.modify fun c => { c with sent := c.sent ++ ps }

/-- Record an event. -/
def emit (e : E) : Prog (Ctx S A M E) Unit :=
  Prog.modify fun c => { c with events := c.events ++ [e] }

/-- Read a part of the local state. -/
def read {α : Type} (f : S → α) : Prog (Ctx S A M E) α := Prog.gets fun c => f c.state

variable {Q : Unit → Ctx S A M E → Prop} {D : Ctx S A M E → Prop} {c : Ctx S A M E}

@[simp] theorem wp_update (f : S → S) :
    Prog.wp (update f) Q D c ↔ Q () { c with state := f c.state } := Iff.rfl

@[simp] theorem wp_send (ps : List (Packet A M)) :
    Prog.wp (send ps) Q D c ↔ Q () { c with sent := c.sent ++ ps } := Iff.rfl

@[simp] theorem wp_emit (e : E) :
    Prog.wp (emit e) Q D c ↔ Q () { c with events := c.events ++ [e] } := Iff.rfl

@[simp] theorem wp_read {α : Type} {Q : α → Ctx S A M E → Prop} (f : S → α) :
    Prog.wp (read f) Q D c ↔ Q (f c.state) c := Iff.rfl

theorem read_bind {α β : Type} (f : S → α) (k : α → Prog (Ctx S A M E) β) :
    (read f >>= k) c = k (f c.state) c := rfl

/-! ### What a handler may send -/

/-- Whatever the handler does, it sends only packets in `K`. -/
def Sends {α : Type} (K : Packet A M → Prop) (x : Prog (Ctx S A M E) α) : Prop :=
  Prog.Keeps (fun c => ∀ p ∈ c.sent, K p) x

section Sends

variable {α β : Type} {K : Packet A M → Prop} {x : Prog (Ctx S A M E) α}

theorem Sends.pure (a : α) : Sends K (Pure.pure a : Prog (Ctx S A M E) α) := Prog.Keeps.pure a

theorem Sends.crash : Sends K (Prog.crash : Prog (Ctx S A M E) α) := Prog.Keeps.crash

theorem Sends.update (f : S → S) : Sends K (update f : Prog (Ctx S A M E) Unit) := fun _ hc => hc

theorem Sends.emit (e : E) : Sends K (emit e : Prog (Ctx S A M E) Unit) := fun _ hc => hc

theorem Sends.read (f : S → α) : Sends K (read f : Prog (Ctx S A M E) α) := fun _ hc => hc

theorem Sends.deref (o : Option α) : Sends K (Prog.deref o : Prog (Ctx S A M E) α) :=
  Prog.Keeps.deref o

theorem Sends.send {ps : List (Packet A M)} (hps : ∀ p ∈ ps, K p) :
    Sends K (send ps : Prog (Ctx S A M E) Unit) := by
  intro c hc p hp
  rcases List.mem_append.1 hp with hold | hnew
  · exact hc p hold
  · exact hps p hnew

theorem Sends.bind {f : α → Prog (Ctx S A M E) β} (hx : Sends K x) (hf : ∀ a, Sends K (f a)) :
    Sends K (x >>= f) :=
  Prog.Keeps.bind hx hf

theorem Sends.ite {P : Prop} [Decidable P] {y : Prog (Ctx S A M E) α} (hx : Sends K x)
    (hy : Sends K y) : Sends K (if P then x else y) :=
  Prog.Keeps.ite hx hy

theorem Sends.when {b : Bool} {x : Prog (Ctx S A M E) Unit} (hx : Sends K x) :
    Sends K (Prog.when b x) :=
  Prog.Keeps.when hx

theorem Sends.forM {l : List β} {f : β → Prog (Ctx S A M E) PUnit}
    (hf : ∀ b ∈ l, Sends K (f b)) : Sends K (l.forM f) :=
  Prog.Keeps.forM hf

/-- What a handler sent that started with nothing sent. -/
theorem Sends.sent (hx : Sends K x) {s : S} {p : Packet A M}
    (hp : p ∈ (x { state := s }).state.sent) : K p :=
  Prog.wp_state (hx { state := s } fun _ hp => absurd hp List.not_mem_nil) p hp

end Sends

/-! ### Invariants of the local state -/

/-- Whatever the handler does, it keeps the fact `J` about the local state. -/
def Preserves {α : Type} (J : S → Prop) (x : Prog (Ctx S A M E) α) : Prop :=
  Prog.Keeps (fun c => J c.state) x

section Preserves

variable {α β : Type} {J : S → Prop} {x : Prog (Ctx S A M E) α}

theorem Preserves.pure (a : α) : Preserves J (Pure.pure a : Prog (Ctx S A M E) α) :=
  Prog.Keeps.pure a

theorem Preserves.crash : Preserves J (Prog.crash : Prog (Ctx S A M E) α) := Prog.Keeps.crash

theorem Preserves.update {f : S → S} (hf : ∀ s, J s → J (f s)) :
    Preserves J (update f : Prog (Ctx S A M E) Unit) := fun c hc => hf c.state hc

theorem Preserves.send (ps : List (Packet A M)) :
    Preserves J (send ps : Prog (Ctx S A M E) Unit) := fun _ hc => hc

theorem Preserves.emit (e : E) : Preserves J (emit e : Prog (Ctx S A M E) Unit) := fun _ hc => hc

theorem Preserves.read (f : S → α) : Preserves J (read f : Prog (Ctx S A M E) α) := fun _ hc => hc

theorem Preserves.deref (o : Option α) : Preserves J (Prog.deref o : Prog (Ctx S A M E) α) :=
  Prog.Keeps.deref o

theorem Preserves.bind {f : α → Prog (Ctx S A M E) β} (hx : Preserves J x)
    (hf : ∀ a, Preserves J (f a)) : Preserves J (x >>= f) :=
  Prog.Keeps.bind hx hf

theorem Preserves.ite {P : Prop} [Decidable P] {y : Prog (Ctx S A M E) α} (hx : Preserves J x)
    (hy : Preserves J y) : Preserves J (if P then x else y) :=
  Prog.Keeps.ite hx hy

theorem Preserves.when {b : Bool} {x : Prog (Ctx S A M E) Unit} (hx : Preserves J x) :
    Preserves J (Prog.when b x) :=
  Prog.Keeps.when hx

theorem Preserves.forM {l : List β} {f : β → Prog (Ctx S A M E) PUnit}
    (hf : ∀ b ∈ l, Preserves J (f b)) : Preserves J (l.forM f) :=
  Prog.Keeps.forM hf

end Preserves

/-! ### The obligation of a handler -/

variable {N : Type} {node : List (N × E) → S → Prop} {pkt : List (N × E) → Packet A M → Prop}
variable {h : List (N × E)} {n : N}

/-- The history `h` followed by what the process `n` recorded. -/
def past (h : List (N × E)) (n : N) (c : Ctx S A M E) : List (N × E) :=
  h ++ c.events.map (n, ·)

/-- **The obligation.** The process `n` satisfies its invariant and sent good packets, both
against the history extended by what it recorded. -/
structure Good (node : List (N × E) → S → Prop) (pkt : List (N × E) → Packet A M → Prop)
    (h : List (N × E)) (n : N) (c : Ctx S A M E) : Prop where
  node : node (c.past h n) c.state
  sent : ∀ p ∈ c.sent, pkt (c.past h n) p

@[simp] theorem past_state (s : S) : past h n { c with state := s } = past h n c := rfl

@[simp] theorem past_sent (ps : List (Packet A M)) :
    past h n { c with sent := ps } = past h n c := rfl

/-- Nothing has been recorded yet. -/
@[simp] theorem past_start (s : S) : past h n ({ state := s } : Ctx S A M E) = h := by
  simp [past]

/-- Only the recorded events count. -/
theorem past_emit {s : S} {ps : List (Packet A M)} (e : E) :
    past h n { state := s, sent := ps, events := c.events ++ [e] } = past h n c ++ [(n, e)] := by
  simp [past]

theorem mem_past_emit {s : S} {ps : List (Packet A M)} (e : E) :
    (n, e) ∈ past h n { state := s, sent := ps, events := c.events ++ [e] } := by
  rw [past_emit]
  exact List.mem_append_right _ (List.mem_singleton.2 rfl)

theorem Good.update (hc : Good node pkt h n c) {s : S} (hs : node (past h n c) s) :
    Good node pkt h n { c with state := s } :=
  ⟨hs, hc.sent⟩

theorem Good.send (hc : Good node pkt h n c) {ps : List (Packet A M)}
    (hps : ∀ p ∈ ps, pkt (past h n c) p) : Good node pkt h n { c with sent := c.sent ++ ps } := by
  refine ⟨hc.node, fun p hp => ?_⟩
  rcases List.mem_append.1 hp with hold | hnew
  · exact hc.sent p hold
  · exact hps p hnew

theorem Good.send_one (hc : Good node pkt h n c) {p : Packet A M} (hp : pkt (past h n c) p) :
    Good node pkt h n { c with sent := c.sent ++ [p] } :=
  hc.send fun _ hmem => by rw [List.mem_singleton.1 hmem]; exact hp

/-- The state changes and an event is recorded. -/
theorem Good.record (hmono : ∀ h es p, pkt h p → pkt (h ++ es) p) (hc : Good node pkt h n c)
    {e : E} {s : S} (hs : node (past h n c ++ [(n, e)]) s) :
    Good node pkt h n { state := s, sent := c.sent, events := c.events ++ [e] } := by
  have hpast : past h n { state := s, sent := c.sent, events := c.events ++ [e] } =
      past h n c ++ [(n, e)] := past_emit e
  refine ⟨?_, fun p hp => ?_⟩
  · rw [hpast]
    exact hs
  · rw [hpast]
    exact hmono _ _ _ (hc.sent p hp)

theorem Good.emit (hmono : ∀ h es p, pkt h p → pkt (h ++ es) p) (hc : Good node pkt h n c)
    {e : E} (hs : node (past h n c ++ [(n, e)]) c.state) :
    Good node pkt h n { c with events := c.events ++ [e] } :=
  hc.record hmono hs

/-- The context a handler starts in. -/
theorem Good.start {s : S} (hs : node h s) :
    Good node pkt h n ({ state := s } : Ctx S A M E) := by
  refine ⟨?_, fun p hp => absurd hp List.not_mem_nil⟩
  rw [past_start]
  exact hs

/-- A process whose invariants hold of every state only has to send good packets. -/
theorem Sends.good {K : Packet A M → Prop} {x : Prog (Ctx S A M E) Unit}
    {node' : List (N × E) → S → Prop} {s : S} (hx : Sends K x) (hnode : ∀ h s, node h s)
    (hnode' : ∀ h s, node' h s) (hK : ∀ {p h}, K p → pkt h p) :
    Prog.wp x (fun _ => Good node pkt h n) (Good node' pkt h n) { state := s } :=
  Prog.wp_mono (fun _ _ hc => ⟨hnode _ _, fun p hp => hK (hc p hp)⟩)
    (fun _ hc => ⟨hnode' _ _, fun p hp => hK (hc p hp)⟩)
    (hx { state := s } fun _ hp => absurd hp List.not_mem_nil)

end Ctx

/-- A protocol over the processes `N`, with addresses `A`, messages `M`, local actions `I`,
nondeterministic choices `Ω` and events `E`. A packet sent to an address without an owner
is read by nobody. -/
structure Protocol (N A M I Ω E : Type) (S : N → Type) where
  owner : A → Option N
  init : (n : N) → S n
  handle : (n : N) → Ω → Input A M I → Prog (Ctx (S n) A M E) Unit

/-- The global state of a run. -/
structure World (N A M E : Type) (S : N → Type) where
  state : (n : N) → S n
  crashed : N → Bool
  net : List (Packet A M)
  history : List (N × E)

namespace Protocol

variable {N A M I Ω E : Type} {S : N → Type} [DecidableEq N]
variable (P : Protocol N A M I Ω E S)

/-- The world before the first step. -/
def start : World N A M E S where
  state := P.init
  crashed := fun _ => false
  net := []
  history := []

/-- Process `n` handles the input `i`. -/
def next (w : World N A M E S) (n : N) (ω : Ω) (i : Input A M I) : World N A M E S :=
  let r := P.handle n ω i { state := w.state n }
  { state := Function.update w.state n r.state.state
    crashed := Function.update w.crashed n r.isDead
    net := w.net ++ r.state.sent
    history := w.history ++ r.state.events.map (n, ·) }

/-- A live process may act at any time, and receives only what was sent to it. -/
def Enabled (w : World N A M E S) (n : N) : Input A M I → Prop
  | .recv p => w.crashed n = false ∧ p ∈ w.net ∧ P.owner p.dst = some n
  | .act _ => w.crashed n = false

/-- A condition on single steps. -/
abbrev Cond (N A M I Ω E : Type) (S : N → Type) :=
  World N A M E S → N → Ω → Input A M I → Prop

/-- The worlds reached by runs all of whose steps meet the condition `C`. -/
inductive Reach (C : Cond N A M I Ω E S) : World N A M E S → Prop
  | start : Reach C P.start
  | step {w : World N A M E S} {n : N} {ω : Ω} {i : Input A M I} :
      Reach C w → P.Enabled w n i → C w n ω i → Reach C (P.next w n ω i)

variable {P} {C C' : Cond N A M I Ω E S}

theorem Reach.mono (hC : ∀ w n ω i, C w n ω i → C' w n ω i) {w : World N A M E S}
    (h : P.Reach C w) : P.Reach C' w := by
  induction h with
  | start => exact .start
  | step _ hen hc ih => exact .step ih hen (hC _ _ _ _ hc)

/-- What is received was sent. -/
theorem Reach.received {w : World N A M E S} (h : P.Reach C w) :
    P.Reach (fun _ _ _ i => ∀ p, i = .recv p → p ∈ w.net) w := by
  induction h with
  | start => exact .start
  | @step w n ω i _ hen _ ih =>
      refine .step (ih.mono fun _ _ _ _ h p hp => List.mem_append_left _ (h p hp)) hen ?_
      rintro p rfl
      exact List.mem_append_left _ hen.2.1

/-- **Run rule.** What holds at the start and is kept by every step holds throughout. -/
theorem Reach.induct {J : World N A M E S → Prop} (hstart : J P.start)
    (hstep : ∀ w n ω i, P.Reach C w → J w → P.Enabled w n i → C w n ω i → J (P.next w n ω i))
    {w : World N A M E S} (h : P.Reach C w) : J w := by
  induction h with
  | start => exact hstart
  | step hw hen hc ih => exact hstep _ _ _ _ hw ih hen hc

variable (P) in
/-- The worlds a run goes on to from `w`. -/
inductive Later (C : Cond N A M I Ω E S) (w : World N A M E S) : World N A M E S → Prop
  | refl : Later C w w
  | step {w' : World N A M E S} {n : N} {ω : Ω} {i : Input A M I} :
      Later C w w' → P.Enabled w' n i → C w' n ω i → Later C w (P.next w' n ω i)

theorem Reach.later {w w' : World N A M E S} (h : P.Reach C w) (h' : P.Later C w w') :
    P.Reach C w' := by
  induction h' with
  | refl => exact h
  | step _ hen hc ih => exact .step ih hen hc

theorem Later.mono (hC : ∀ w n ω i, C w n ω i → C' w n ω i) {w w' : World N A M E S}
    (h : P.Later C w w') : P.Later C' w w' := by
  induction h with
  | refl => exact .refl
  | step _ hen hc ih => exact .step ih hen (hC _ _ _ _ hc)

/-- What was recorded stays recorded. -/
theorem Later.history {w w' : World N A M E S} (h : P.Later C w w') :
    ∃ es, w'.history = w.history ++ es := by
  induction h with
  | refl => exact ⟨[], (List.append_nil _).symm⟩
  | @step v n ω i _ _ _ ih =>
      obtain ⟨es, hes⟩ := ih
      refine ⟨es ++ (P.handle n ω i { state := v.state n }).state.events.map (n, ·), ?_⟩
      rw [← List.append_assoc, ← hes]
      rfl

/-- **Local invariants.** `node` speaks of one process and the history, `pkt` of one packet
and the history. Packets stay good when the history grows, a process does not notice what
others record, and every step ends in a `Good` context. -/
theorem Reach.invariant {node : List (N × E) → (n : N) → S n → Prop}
    {pkt : List (N × E) → Packet A M → Prop}
    (hstart : ∀ n, node [] n (P.init n))
    (hmono : ∀ h es p, pkt h p → pkt (h ++ es) p)
    (hframe : ∀ h n n' (es : List E) s, n ≠ n' → node h n s → node (h ++ es.map (n', ·)) n s)
    (hstep : ∀ w n ω i, P.Reach C w → (∀ n, node w.history n (w.state n)) →
      (∀ p ∈ w.net, pkt w.history p) → P.Enabled w n i → C w n ω i →
      Prog.wp (P.handle n ω i) (fun _ => Ctx.Good (node · n ·) pkt w.history n)
        (Ctx.Good (node · n ·) pkt w.history n) { state := w.state n })
    {w : World N A M E S} (h : P.Reach C w) :
    (∀ n, node w.history n (w.state n)) ∧ ∀ p ∈ w.net, pkt w.history p := by
  induction h with
  | start => exact ⟨hstart, fun p hp => absurd hp (List.not_mem_nil)⟩
  | @step w n ω i hw hen hc ih =>
      obtain ⟨hnode, hpkt⟩ := Prog.wp_state (hstep w n ω i hw ih.1 ih.2 hen hc)
      simp only [Ctx.past] at hnode hpkt
      constructor
      · intro m
        by_cases hm : m = n
        · subst hm
          simpa only [next, Function.update_self] using hnode
        · have hother := hframe w.history m n
            (P.handle n ω i { state := w.state n }).state.events _ hm (ih.1 m)
          simpa only [next, Function.update_of_ne hm] using hother
      · intro p hp
        rcases List.mem_append.1 hp with hold | hnew
        · exact hmono _ _ _ (ih.2 p hold)
        · exact hpkt p hnew

/-- **Invariants of live processes.** The same, where a process that dies in a step need not
keep the part `live` of its invariant. -/
theorem Reach.invariant_live {node live : List (N × E) → (n : N) → S n → Prop}
    {pkt : List (N × E) → Packet A M → Prop}
    (hstart : ∀ n, node [] n (P.init n) ∧ live [] n (P.init n))
    (hmono : ∀ h es p, pkt h p → pkt (h ++ es) p)
    (hframe : ∀ h n n' (es : List E) s, n ≠ n' → node h n s → node (h ++ es.map (n', ·)) n s)
    (hlive : ∀ h n n' (es : List E) s, n ≠ n' → live h n s → live (h ++ es.map (n', ·)) n s)
    (hstep : ∀ w n ω i, P.Reach C w → (∀ n, node w.history n (w.state n)) →
      live w.history n (w.state n) → (∀ p ∈ w.net, pkt w.history p) → P.Enabled w n i →
      C w n ω i → Prog.wp (P.handle n ω i)
        (fun _ => Ctx.Good (fun h s => node h n s ∧ live h n s) pkt w.history n)
        (Ctx.Good (node · n ·) pkt w.history n) { state := w.state n })
    {w : World N A M E S} (h : P.Reach C w) :
    (∀ n, node w.history n (w.state n)) ∧
      (∀ n, w.crashed n = false → live w.history n (w.state n)) ∧
        ∀ p ∈ w.net, pkt w.history p := by
  induction h with
  | start =>
      exact ⟨fun n => (hstart n).1, fun n _ => (hstart n).2, fun p hp => absurd hp List.not_mem_nil⟩
  | @step w n ω i hw hen hc ih =>
      obtain ⟨ihnode, ihlive, ihpkt⟩ := ih
      have halive : w.crashed n = false := by
        cases i with
        | recv p => exact hen.1
        | act a => exact hen
      have hwp := hstep w n ω i hw ihnode (ihlive n halive) ihpkt hen hc
      have hown : node (w.history ++ (P.handle n ω i { state := w.state n }).state.events.map
            (n, ·)) n (P.handle n ω i { state := w.state n }).state.state ∧
          ((P.handle n ω i { state := w.state n }).isDead = false →
            live (w.history ++ (P.handle n ω i { state := w.state n }).state.events.map (n, ·)) n
              (P.handle n ω i { state := w.state n }).state.state) ∧
          ∀ p ∈ (P.handle n ω i { state := w.state n }).state.sent,
            pkt (w.history ++ (P.handle n ω i { state := w.state n }).state.events.map (n, ·))
              p := by
        rcases Prog.wp_cases hwp with ⟨_, c, hrun, hgood⟩ | ⟨c, hrun, hgood⟩
        · rw [hrun]
          exact ⟨hgood.node.1, fun _ => hgood.node.2, hgood.sent⟩
        · rw [hrun]
          exact ⟨hgood.node, (fun h => by cases h), hgood.sent⟩
      refine ⟨fun m => ?_, fun m hm => ?_, fun p hp => ?_⟩
      · by_cases hmn : m = n
        · subst hmn
          simpa only [next, Function.update_self] using hown.1
        · have hother := hframe w.history m n
            (P.handle n ω i { state := w.state n }).state.events _ hmn (ihnode m)
          simpa only [next, Function.update_of_ne hmn] using hother
      · by_cases hmn : m = n
        · subst hmn
          simp only [next, Function.update_self] at hm ⊢
          exact hown.2.1 hm
        · simp only [next, Function.update_of_ne hmn] at hm ⊢
          exact hlive w.history m n _ _ hmn (ihlive m hm)
      · rcases List.mem_append.1 hp with hold | hnew
        · exact hmono _ _ _ (ihpkt p hold)
        · exact hown.2.2 p hnew

/-! ### Runs as sequences of steps -/

/-- A step, with the world it is taken in. -/
structure Step (N A M I Ω E : Type) (S : N → Type) where
  before : World N A M E S
  node : N
  choice : Ω
  input : Input A M I

variable (P) in
/-- The steps `tr` lead from the start to the world `w`. -/
inductive Trace : List (Step N A M I Ω E S) → World N A M E S → Prop
  | start : Trace [] P.start
  | step {tr : List (Step N A M I Ω E S)} {w : World N A M E S} {n : N} {i : Input A M I} (ω : Ω) :
      Trace tr w → P.Enabled w n i → Trace (tr ++ [⟨w, n, ω, i⟩]) (P.next w n ω i)

theorem Trace.reach {tr : List (Step N A M I Ω E S)} {w : World N A M E S} (h : P.Trace tr w)
    (hC : ∀ x ∈ tr, C x.before x.node x.choice x.input) : P.Reach C w := by
  induction h with
  | start => exact .start
  | step ω _ hen ih =>
      refine .step (ih fun x hx => hC x (List.mem_append_left _ hx)) hen ?_
      exact hC _ (List.mem_append_right _ (List.mem_singleton_self _))

/-- A step of a run is taken in a world that the steps before it lead to. -/
theorem Trace.of_mem {tr : List (Step N A M I Ω E S)} {w : World N A M E S} (h : P.Trace tr w)
    {x : Step N A M I Ω E S} (hx : x ∈ tr) :
    P.Enabled x.before x.node x.input ∧ ∃ tr', P.Trace tr' x.before ∧ ∀ y ∈ tr', y ∈ tr := by
  induction h with
  | start => cases hx
  | step ω hbefore hen ih =>
      rcases List.mem_append.1 hx with hold | hnew
      · obtain ⟨hxen, tr', htr', hsub⟩ := ih hold
        exact ⟨hxen, tr', htr', fun y hy => List.mem_append_left _ (hsub y hy)⟩
      · rw [List.mem_singleton.1 hnew]
        exact ⟨hen, _, hbefore, fun y hy => List.mem_append_left _ hy⟩

/-- Every element with `p` is followed by one with `q`. -/
def followed {α : Type} (p q : α → Bool) : List α → Bool
  | [] => true
  | x :: xs => (!p x || xs.any q) && followed p q xs

/-- One more element: nothing follows it, and it may follow all before it. -/
theorem followed_concat {α : Type} {p q : α → Bool} {xs : List α} {x : α} :
    followed p q (xs ++ [x]) = true ↔ p x = false ∧ (q x = true ∨ followed p q xs = true) := by
  induction xs with
  | nil => simp [followed]
  | cons y ys ih =>
      rw [List.cons_append, followed, followed, Bool.and_eq_true, ih, List.any_append]
      cases hq : q x with
      | false => simp [hq, and_left_comm]
      | true => simp [hq]

/-! ### Executing runs -/

/-- A scheduler command: deliver the packet at position `i` of the network, or let a
process act. -/
inductive Cmd (N I Ω : Type) where
  | deliver (i : ℕ) (ω : Ω)
  | act (n : N) (ω : Ω) (i : I)

variable (P C)

/-- One command, if it is enabled and meets the condition. -/
def exec1 [∀ w n ω i, Decidable (C w n ω i)] (w : World N A M E S) :
    Cmd N I Ω → Option (World N A M E S)
  | .deliver k ω =>
      match w.net[k]? with
      | none => none
      | some p =>
          match P.owner p.dst with
          | none => none
          | some n =>
              if w.crashed n = false ∧ C w n ω (.recv p) then some (P.next w n ω (.recv p))
              else none
  | .act n ω i =>
      if w.crashed n = false ∧ C w n ω (.act i) then some (P.next w n ω (.act i)) else none

/-- A whole schedule. -/
def exec [∀ w n ω i, Decidable (C w n ω i)] (w : World N A M E S) :
    List (Cmd N I Ω) → Option (World N A M E S)
  | [] => some w
  | c :: cs => (exec1 P C w c).bind fun w' => exec w' cs

variable {P C}

theorem Later.exec1 [∀ w n ω i, Decidable (C w n ω i)] {w₀ w w' : World N A M E S}
    {c : Cmd N I Ω} (h : P.Later C w₀ w) (he : P.exec1 C w c = some w') : P.Later C w₀ w' := by
  cases c with
  | deliver k ω =>
      simp only [Protocol.exec1] at he
      split at he
      · cases he
      · rename_i p hp
        split at he
        · cases he
        · rename_i n hn
          split_ifs at he with hcond
          cases he
          exact .step h ⟨hcond.1, List.mem_of_getElem? hp, hn⟩ hcond.2
  | act n ω i =>
      simp only [Protocol.exec1] at he
      split_ifs at he with hcond
      cases he
      exact .step h hcond.1 hcond.2

/-- A schedule that executes goes on to a later world. -/
theorem Later.exec [∀ w n ω i, Decidable (C w n ω i)] {cs : List (Cmd N I Ω)}
    {w₀ w w' : World N A M E S} (h : P.Later C w₀ w) (he : P.exec C w cs = some w') :
    P.Later C w₀ w' := by
  induction cs generalizing w with
  | nil => cases he; exact h
  | cons c cs ih =>
      simp only [Protocol.exec, Option.bind_eq_some_iff] at he
      obtain ⟨w₁, h₁, h₂⟩ := he
      exact ih (h.exec1 h₁) h₂

variable (P) in
/-- The step a command asks for. -/
def plan (w : World N A M E S) : Cmd N I Ω → Option (Step N A M I Ω E S)
  | .deliver k ω =>
      match w.net[k]? with
      | none => none
      | some p => (P.owner p.dst).map fun n => ⟨w, n, ω, .recv p⟩
  | .act n ω i => some ⟨w, n, ω, .act i⟩

variable (P) in
/-- The steps of a schedule. -/
def steps (w : World N A M E S) : List (Cmd N I Ω) → List (Step N A M I Ω E S)
  | [] => []
  | c :: cs =>
      match P.plan w c with
      | none => []
      | some x => x :: steps (P.next w x.node x.choice x.input) cs

theorem plan_exec1 [∀ w n ω i, Decidable (C w n ω i)] {w w' : World N A M E S} {c : Cmd N I Ω}
    (he : P.exec1 C w c = some w') : ∃ n ω i, P.plan w c = some ⟨w, n, ω, i⟩ ∧
      P.Enabled w n i ∧ w' = P.next w n ω i := by
  cases c with
  | deliver k ω =>
      simp only [Protocol.exec1] at he
      split at he
      · cases he
      · rename_i p hp
        split at he
        · cases he
        · rename_i n hn
          split_ifs at he with hcond
          cases he
          refine ⟨n, ω, .recv p, ?_, ⟨hcond.1, List.mem_of_getElem? hp, hn⟩, rfl⟩
          simp only [plan, hp, hn, Option.map_some]
  | act n ω i =>
      simp only [Protocol.exec1] at he
      split_ifs at he with hcond
      cases he
      exact ⟨n, ω, .act i, rfl, hcond.1, rfl⟩

/-- A schedule that executes is a run. -/
theorem Trace.exec [∀ w n ω i, Decidable (C w n ω i)] {cs : List (Cmd N I Ω)}
    {tr : List (Step N A M I Ω E S)} {w w' : World N A M E S} (h : P.Trace tr w)
    (he : P.exec C w cs = some w') : P.Trace (tr ++ P.steps w cs) w' := by
  induction cs generalizing tr w with
  | nil =>
      cases he
      rw [steps, List.append_nil]
      exact h
  | cons c cs ih =>
      simp only [Protocol.exec, Option.bind_eq_some_iff] at he
      obtain ⟨w₁, h₁, h₂⟩ := he
      obtain ⟨n, ω, i, hplan, hen, rfl⟩ := plan_exec1 h₁
      have hrest := ih (.step ω h hen) h₂
      rw [List.append_assoc] at hrest
      rw [steps, hplan]
      exact hrest

/-- A schedule that executes reaches a reachable world. -/
theorem Reach.exec [∀ w n ω i, Decidable (C w n ω i)] {cs : List (Cmd N I Ω)}
    {w w' : World N A M E S} (h : P.Reach C w) (he : P.exec C w cs = some w') :
    P.Reach C w' :=
  h.later (Later.refl.exec he)

end Protocol
