import RelayMesh.Message
import RelayMesh.Proofs.Overlay.Topology
import Mathlib.Logic.Function.Basic

namespace RelayMesh

/-- A message on its way from one server to another. -/
structure Packet where
  source : Id
  target : Id
  type : MessageType
  msg : Message
deriving DecidableEq

/-- The packets in which server `a` carries out a send. A flood goes to every neighbour but
`except` and those on the path, and `a` is added to the path. -/
def Topology.packets (T : Topology) (a : Id) : Outgoing → List Packet
  | .flood except type msg =>
    let msg := msg.appendToPath a
    ((T.neighbours a).filter fun n => some n ≠ except ∧ ¬ msg.hasVisited n).map
      fun n => ⟨a, n, type, msg⟩
  | .toServer dest type msg => [⟨a, dest, type, msg.appendToPath a⟩]

/-- What each server does on a command of its operator and on a packet that reaches it. -/
structure Behaviour (σ ι : Type) where
  command : Id → ι → σ → σ × List Outgoing
  receive : Id → Packet → σ → σ × List Outgoing

/-- The servers' states, the packets that are on their way and those that have arrived. -/
structure Overlay (σ : Type) where
  nodes : Id → σ
  wire : List Packet := []
  delivered : List Packet := []

inductive Event (ι : Type)
  | command (target : Id) (what : ι)
  /-- The packet with this place on the wire arrives. -/
  | deliver (place : Nat)
deriving DecidableEq

theorem Message.mem_path_appendToPath {m : Message} {a b : Id} :
    b ∈ (m.appendToPath a).path ↔ b ∈ m.path ∨ b = a := by
  unfold appendToPath
  split
  · simp
  next h =>
    have hlimit : 0 < m.content.visitLimit := by cases m.content <;> simp [Content.visitLimit]
    have ha : a ∈ m.path := List.count_pos_iff.1 (by omega)
    exact ⟨.inl, fun h => h.elim id (· ▸ ha)⟩

theorem Topology.mem_packets_flood {T : Topology} {a : Id} {except : Option Id}
    {type : MessageType} {msg : Message} {p : Packet} :
    p ∈ T.packets a (.flood except type msg) ↔
      ∃ n, T.Linked a n ∧ some n ≠ except ∧ n ∉ msg.path ∧
        p = ⟨a, n, type, msg.appendToPath a⟩ := by
  simp only [packets, Message.hasVisited, List.contains_eq_mem, List.mem_map, List.mem_filter,
    mem_neighbours, decide_eq_true_eq, Message.mem_path_appendToPath]
  constructor
  · rintro ⟨n, ⟨hl, he, hv⟩, rfl⟩
    exact ⟨n, hl, he, fun h => hv (.inl h), rfl⟩
  · rintro ⟨n, hl, he, hv, rfl⟩
    exact ⟨n, ⟨hl, he, fun h => h.elim hv hl.ne.symm⟩, rfl⟩

namespace Overlay

variable {σ ι : Type} (T : Topology) (B : Behaviour σ ι)

/-- All packets that were ever sent: those that arrived, then those on the wire. -/
def sent (s : Overlay σ) : List Packet := s.delivered ++ s.wire

/-- Server `a` takes over a step, and its sends go onto the wire. -/
def act (s : Overlay σ) (a : Id) (step : σ × List Outgoing) : Overlay σ :=
  { s with
    nodes := Function.update s.nodes a step.1
    wire := s.wire ++ step.2.flatMap (T.packets a) }

/-- A packet has left the wire between `front` and `back`. -/
def arrived (s : Overlay σ) (front : List Packet) (p : Packet) (back : List Packet) : Overlay σ :=
  { s with wire := front ++ back, delivered := s.delivered ++ [p] }

/-- Nothing happens if the command is for a server outside the graph, or if there is no packet at
the place. -/
def step (s : Overlay σ) : Event ι → Overlay σ
  | .command a what => if a ∈ T.servers then s.act T a (B.command a what (s.nodes a)) else s
  | .deliver place =>
    match s.wire[place]? with
    | none => s
    | some p =>
      (s.arrived (s.wire.take place) p (s.wire.drop (place + 1))).act T p.target
        (B.receive p.target p (s.nodes p.target))

def run (s : Overlay σ) (events : List (Event ι)) : Overlay σ := events.foldl (step T B) s

/-- Every event is one that `rule` admits in the state in which it happens. -/
def Admitted (rule : Overlay σ → Event ι → Prop) (s : Overlay σ) : List (Event ι) → Prop
  | [] => True
  | e :: events => rule s e ∧ Admitted rule (s.step T B e) events

instance Admitted.decidable (rule : Overlay σ → Event ι → Prop) [∀ s e, Decidable (rule s e)] :
    ∀ (s : Overlay σ) (events : List (Event ι)), Decidable (Admitted T B rule s events)
  | _, [] => .isTrue trivial
  | s, e :: events =>
    have := Admitted.decidable rule (s.step T B e) events
    inferInstanceAs (Decidable (_ ∧ _))

/-- Two packets on the same link, in the same direction. -/
def SameLink (p q : Packet) : Prop := p.source = q.source ∧ p.target = q.target

instance : DecidableRel SameLink := fun p q =>
  inferInstanceAs (Decidable (p.source = q.source ∧ p.target = q.target))

/-- A packet arrives only if it is the oldest one on its link. -/
def InOrder (s : Overlay σ) : Event ι → Prop
  | .command _ _ => True
  | .deliver place => ∀ p ∈ s.wire[place]?, ∀ q ∈ s.wire.take place, ¬ SameLink q p

instance (s : Overlay σ) (e : Event ι) : Decidable (s.InOrder e) :=
  match e with
  | .command _ _ => .isTrue trivial
  | .deliver place =>
    inferInstanceAs (Decidable (∀ p ∈ s.wire[place]?, ∀ q ∈ s.wire.take place, ¬ SameLink q p))

variable {T B}

theorem nodes_act (s : Overlay σ) (a b : Id) (step : σ × List Outgoing) :
    (s.act T a step).nodes b = if b = a then step.1 else s.nodes b := Function.update_apply ..

@[simp] theorem nodes_act_self (s : Overlay σ) (a : Id) (step : σ × List Outgoing) :
    (s.act T a step).nodes a = step.1 := by simp [act]

theorem nodes_act_ne (s : Overlay σ) {a b : Id} (h : b ≠ a) (step : σ × List Outgoing) :
    (s.act T a step).nodes b = s.nodes b := by simp [act, h]

@[simp] theorem delivered_act (s : Overlay σ) (a : Id) (step : σ × List Outgoing) :
    (s.act T a step).delivered = s.delivered := rfl

@[simp] theorem sent_act (s : Overlay σ) (a : Id) (step : σ × List Outgoing) :
    (s.act T a step).sent = s.sent ++ step.2.flatMap (T.packets a) := by
  simp [act, sent, List.append_assoc]

/-- A packet that arrives changes the order of what was sent only. -/
theorem perm_sent_arrived {s : Overlay σ} {front back : List Packet} {p : Packet}
    (hw : s.wire = front ++ p :: back) : (s.arrived front p back).sent.Perm s.sent := by
  simp only [sent, arrived, hw, List.append_assoc, List.singleton_append]
  exact List.Perm.append_left _ List.perm_middle.symm

theorem step_deliver {s : Overlay σ} {front back : List Packet} {p : Packet}
    (hw : s.wire = front ++ p :: back) :
    s.step T B (.deliver front.length) =
      (s.arrived front p back).act T p.target (B.receive p.target p (s.nodes p.target)) := by
  simp [step, hw]

/-- What holds at the start and is kept by every command and every arrival that `rule` admits holds
after every run. -/
theorem run_invariant {rule : Overlay σ → Event ι → Prop} {I : Overlay σ → Prop}
    (command : ∀ s a what, I s → a ∈ T.servers → rule s (.command a what) →
      I (s.act T a (B.command a what (s.nodes a))))
    (arrival : ∀ s front p back, I s → s.wire = front ++ p :: back →
      rule s (.deliver front.length) →
      I ((s.arrived front p back).act T p.target (B.receive p.target p (s.nodes p.target))))
    {s : Overlay σ} (h : I s) {events : List (Event ι)} (he : Admitted T B rule s events) :
    I (s.run T B events) := by
  induction events generalizing s with
  | nil => exact h
  | cons e events ih =>
    refine ih ?_ he.2
    cases e with
    | command a what =>
      simp only [step]
      split
      · exact command s a what h ‹_› he.1
      · exact h
    | deliver place =>
      cases hp : s.wire[place]? with
      | none => simpa [step, hp] using h
      | some p =>
        obtain ⟨hlt, rfl⟩ := List.getElem?_eq_some_iff.1 hp
        have hw : s.wire = s.wire.take place ++ s.wire[place] :: s.wire.drop (place + 1) := by simp
        have hl : (s.wire.take place).length = place := by simp; omega
        have key := arrival s _ _ _ h hw
        rw [← step_deliver hw, hl] at key
        exact key he.1

variable (T B) in
/-- The sends of an event, with the server that makes them. -/
def sends (s : Overlay σ) : Event ι → List (Id × Outgoing)
  | .command a what =>
    if a ∈ T.servers then (B.command a what (s.nodes a)).2.map (a, ·) else []
  | .deliver place =>
    match s.wire[place]? with
    | none => []
    | some p => (B.receive p.target p (s.nodes p.target)).2.map (p.target, ·)

variable (T B) in
/-- All sends of a run, in the order in which they are made. -/
def log (s : Overlay σ) : List (Event ι) → List (Id × Outgoing)
  | [] => []
  | e :: events => s.sends T B e ++ log (s.step T B e) events

theorem admitted_true (s : Overlay σ) (events : List (Event ι)) :
    Admitted T B (fun _ _ => True) s events := by
  induction events generalizing s with
  | nil => trivial
  | cons e events ih => exact ⟨trivial, ih _⟩

/-- Only events of the run happen in it. -/
theorem Admitted.mem {rule : Overlay σ → Event ι → Prop} {s : Overlay σ} {events : List (Event ι)}
    (h : Admitted T B rule s events) :
    Admitted T B (fun s e => rule s e ∧ e ∈ events) s events := by
  suffices key : ∀ all, (∀ e ∈ events, e ∈ all) →
      Admitted T B (fun s e => rule s e ∧ e ∈ all) s events from key events fun _ he => he
  intro all hall
  induction events generalizing s with
  | nil => trivial
  | cons e events ih =>
    exact ⟨⟨h.1, hall e List.mem_cons_self⟩, ih h.2 fun e he => hall e (List.mem_cons_of_mem _ he)⟩

theorem admitted_append {rule : Overlay σ → Event ι → Prop} {s : Overlay σ}
    {events later : List (Event ι)} :
    Admitted T B rule s (events ++ later) ↔
      Admitted T B rule s events ∧ Admitted T B rule (s.run T B events) later := by
  induction events generalizing s with
  | nil => simp [Admitted, run]
  | cons e events ih => simp [Admitted, run, ih, and_assoc]

theorem run_append (s : Overlay σ) (events later : List (Event ι)) :
    s.run T B (events ++ later) = (s.run T B events).run T B later := by
  simp [run]

end Overlay

end RelayMesh
