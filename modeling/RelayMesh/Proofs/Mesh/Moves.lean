import RelayMesh.Mesh.Step
import RelayMesh.Proofs.Server.Sends
import Mathlib.Combinatorics.SimpleGraph.Metric

namespace RelayMesh

namespace Station

/-- What waits at the station for the server `peer`. -/
def queueTo (st : Station) (peer : Id) : List Frame :=
  match st.lineTo? peer with
  | none => []
  | some line => st.server.outbox.waiting line.link

/-- A frame for the server `peer` waits at the station. -/
def Queues (st : Station) (peer : Id) (f : Frame) : Prop :=
  ∃ line ∈ st.lines, line.peer = some peer ∧ f ∈ st.server.outbox.waiting line.link

end Station

namespace Mesh

/-- What happens to an overlay that grows. -/
inductive Move
  /-- Two servers register with each other over a new connection. -/
  | join (a b : Id)
  /-- The frame with this place on the wire arrives. -/
  | deliver (place : Nat)
  | step (s : Step)
deriving DecidableEq

/-- A connection of one server to another. -/
def line? (m : Mesh) (a b : Id) : Option Line := (m.station? a).bind (·.lineTo? b)

def Linked (m : Mesh) (a b : Id) : Prop := (m.line? a b).isSome

instance (m : Mesh) : DecidableRel m.Linked := fun _ _ => inferInstanceAs (Decidable (_ = true))

/-- The servers with the connections between them. -/
def graph (m : Mesh) : SimpleGraph Id := .fromRel m.Linked

/-- A frame is on its way, or it waits for that in a queue. -/
def Pending (m : Mesh) (t : Transit) : Prop :=
  t ∈ m.wire ∨ ∃ st, m.station? t.source = some st ∧ st.Queues t.target t.frame

/-- A move, before anything follows from it. -/
def effect (m : Mesh) : Move → Mesh
  | .join a b => m.join a b
  | .deliver place =>
    match m.wire[place]? with
    | none => m
    | some t => { m with wire := m.wire.eraseIdx place }.deliver t
  | .step s =>
    match m.act s with
    | none => m
    | some (m, _) => m

/-- A move with all that follows from it. -/
def move (m : Mesh) (mv : Move) : Mesh := (m.effect mv).settle.1

def play (m : Mesh) (moves : List Move) : Mesh := moves.foldl move m

theorem effect_deliver {m : Mesh} {place : Nat} {t : Transit} (h : m.wire[place]? = some t) :
    m.effect (.deliver place) = { m with wire := m.wire.eraseIdx place }.deliver t := by
  simp only [effect, h]

theorem effect_deliver_none {m : Mesh} {place : Nat} (h : m.wire[place]? = none) :
    m.effect (.deliver place) = m := by
  simp only [effect, h]

theorem effect_at {m : Mesh} {id : Id} {st : Station} (hs : m.station? id = some st)
    (s : LocalStep) : m.effect (.step (.at id s)) = (m.actAt id st s).1 := by
  simp only [effect, act, hs, Option.map_some]

theorem effect_at_none {m : Mesh} {id : Id} (hs : m.station? id = none) (s : LocalStep) :
    m.effect (.step (.at id s)) = m := by
  simp only [effect, act, hs, Option.map_none]

/-- Every move is one that `rule` allows in the state in which it happens. -/
def Obeys (rule : Mesh → Move → Prop) (m : Mesh) : List Move → Prop
  | [] => True
  | mv :: moves => rule m mv ∧ Obeys rule (m.move mv) moves

instance Obeys.decidable (rule : Mesh → Move → Prop) [∀ m mv, Decidable (rule m mv)] :
    ∀ (m : Mesh) (moves : List Move), Decidable (Obeys rule m moves)
  | _, [] => .isTrue trivial
  | m, mv :: moves =>
    have := Obeys.decidable rule (m.move mv) moves
    inferInstanceAs (Decidable (_ ∧ _))

/-- What may happen at one server. A client gets an identity that nobody has, on a connection of its
own, and what it sends has no path. -/
def AdmitsAt (m : Mesh) (st : Station) : LocalStep → Prop
  | .command command => command.Fresh
  | .client label _ =>
    let id := st.server.mintClientId.2
    m.station? id = none ∧ st.server.routes.get? id = none ∧
      st.named? (label.getD (toString id)) = none
  | .frame label _ frame =>
    (∀ line ∈ st.named? label, line.peer = none) ∧
      ∀ msg ∈ frame.message.toOption, msg.path = []
  | _ => False

/-- Connections are only ever added, one for two servers. -/
def Admits (m : Mesh) : Move → Prop
  | .join a b => a ≠ b ∧ (m.station? a).isSome ∧ (m.station? b).isSome ∧ ¬ m.Linked a b
  | .deliver _ => True
  | .step (.at id s) => ∀ st ∈ m.station? id, m.AdmitsAt st s
  | .step (.advance _) => True
  | .step (.enable _) => True
  | .step _ => False

/-- No message comes to a server that stands on its path as often as it may. -/
def Onward (m : Mesh) : Move → Prop
  | .deliver place =>
    ∀ t ∈ m.wire[place]?, ∀ msg ∈ t.frame.message.toOption,
      msg.path.count t.target < msg.content.visitLimit
  | _ => True

instance (c : Command) : Decidable c.Fresh :=
  inferInstanceAs (Decidable (∀ msg ∈ c.message?, msg.path = []))

instance (m : Mesh) (st : Station) : ∀ s, Decidable (m.AdmitsAt st s)
  | .command c => inferInstanceAs (Decidable c.Fresh)
  | .client _ _ => inferInstanceAs (Decidable (_ ∧ _ ∧ _))
  | .frame label _ frame =>
    inferInstanceAs (Decidable ((∀ line ∈ st.named? label, line.peer = none) ∧
      ∀ msg ∈ frame.message.toOption, msg.path = []))
  | .neighbour _ _ _ => .isFalse id
  | .closed _ => .isFalse id
  | .unhold _ => .isFalse id
  | .dropQueue _ => .isFalse id
  | .closeLine _ _ => .isFalse id
  | .start _ => .isFalse id

instance (m : Mesh) : ∀ mv, Decidable (m.Admits mv)
  | .join a b => inferInstanceAs (Decidable (a ≠ b ∧ _ ∧ _ ∧ ¬ m.Linked a b))
  | .deliver _ => .isTrue trivial
  | .step (.at id s) => inferInstanceAs (Decidable (∀ st ∈ m.station? id, m.AdmitsAt st s))
  | .step (.advance _) => .isTrue trivial
  | .step (.enable _) => .isTrue trivial
  | .step (.pick _) => .isFalse id
  | .step (.lose _) => .isFalse id
  | .step (.cut _ _) => .isFalse id

instance (m : Mesh) : ∀ mv, Decidable (m.Onward mv)
  | .join _ _ => .isTrue trivial
  | .deliver place =>
    inferInstanceAs (Decidable (∀ t ∈ m.wire[place]?, ∀ msg ∈ t.frame.message.toOption,
      msg.path.count t.target < msg.content.visitLimit))
  | .step _ => .isTrue trivial

theorem Obeys.mono {rule rule' : Mesh → Move → Prop} (h : ∀ m mv, rule m mv → rule' m mv) {m : Mesh}
    {moves : List Move} (ho : Obeys rule m moves) : Obeys rule' m moves := by
  induction moves generalizing m with
  | nil => trivial
  | cons mv moves ih => exact ⟨h m mv ho.1, ih ho.2⟩

theorem Obeys.and {rule rule' : Mesh → Move → Prop} {m : Mesh} {moves : List Move}
    (h : Obeys rule m moves) (h' : Obeys rule' m moves) :
    Obeys (fun m mv => rule m mv ∧ rule' m mv) m moves := by
  induction moves generalizing m with
  | nil => trivial
  | cons mv moves ih => exact ⟨⟨h.1, h'.1⟩, ih h.2 h'.2⟩

/-- What every move that `rule` allows preserves holds after all of them. -/
theorem play_invariant {rule : Mesh → Move → Prop} {I : Mesh → Prop}
    (step : ∀ m mv, I m → rule m mv → I (m.move mv)) {m : Mesh} {moves : List Move} (h : I m)
    (ho : Obeys rule m moves) : I (m.play moves) := by
  induction moves generalizing m with
  | nil => exact h
  | cons mv moves ih => exact ih (step m mv h ho.1) ho.2

/-- What timers that go off preserve, queues that are emptied, and messages that are given to their
servers, holds when a step has had all its consequences. -/
theorem settle_invariant {I : Mesh → Prop} (expire : ∀ m, I m → I m.expire)
    (collectAt : ∀ m id, I m → I (m.collectAt id).1)
    (give : ∀ m w, I m → m.waiting.find? m.isReady = some w → I (({ m with
      waiting := m.waiting.eraseP m.isReady } : Mesh).updateServer w.interceptor.owner
        (·.release w))) {m : Mesh} (h : I m) : I m.settle.1 := by
  have collectEach (ids : List Id) : ∀ m : Mesh, I m → I (m.collectEach ids).1 := by
    induction ids with
    | nil => exact fun m h => h
    | cons id ids ih => exact fun m h => ih _ (collectAt m id h)
  have collect (m : Mesh) (h : I m) : I m.collect.1 := collectEach _ _ (expire m h)
  have giveReady (n : Nat) : ∀ m : Mesh, I m → I (m.giveReady n).1 := by
    induction n with
    | zero => exact fun m h => h
    | succ n ih =>
      intro m h
      rw [Mesh.giveReady]
      split
      · exact h
      next w hw => exact ih _ (collect _ (give m w h hw))
  exact giveReady _ _ (collect m h)

end Mesh

end RelayMesh
