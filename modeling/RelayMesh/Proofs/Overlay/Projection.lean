import RelayMesh.Proofs.Overlay.Run
import RelayMesh.Proofs.Server.Acts

namespace RelayMesh

/-- The packets of a send have its content. -/
theorem Topology.content_of_mem_packets {T : Topology} {a : Id} {o : Outgoing} {p : Packet}
    (h : p ∈ T.packets a o) : p.type = o.type ∧ p.msg.content = o.message.content := by
  cases o with
  | flood except type msg =>
    obtain ⟨n, -, -, -, rfl⟩ := mem_packets_flood.1 h
    exact ⟨rfl, Message.content_appendToPath msg a⟩
  | toServer dest type msg =>
    obtain rfl := List.mem_singleton.1 h
    exact ⟨rfl, Message.content_appendToPath msg a⟩

namespace Overlay

variable {σ τ ι : Type} {T : Topology} {s : Overlay σ} {f : σ → τ} {about : Content → Bool}
  {front back : List Packet} {p : Packet}

/-- A part of the state of every server, with the packets whose content it is about. -/
def part (s : Overlay σ) (f : σ → τ) (about : Content → Bool) : Overlay τ where
  nodes a := f (s.nodes a)
  wire := s.wire.filter (about ·.msg.content)
  delivered := s.delivered.filter (about ·.msg.content)

theorem filter_packets (about : Content → Bool) (a : Id) (sends : List Outgoing) :
    (sends.flatMap (T.packets a)).filter (about ·.msg.content) =
      (sends.filter (about ·.message.content)).flatMap (T.packets a) := by
  induction sends with
  | nil => rfl
  | cons o sends ih =>
    have hsame : ∀ p ∈ T.packets a o, about p.msg.content = about o.message.content := fun p hp => by
      rw [(Topology.content_of_mem_packets hp).2]
    rw [List.flatMap_cons, List.filter_append, ih, List.filter_cons]
    split
    next hyes =>
      rw [List.flatMap_cons, List.filter_eq_self.2 fun p hp => (hsame p hp).trans hyes]
    next hno =>
      rw [List.filter_eq_nil_iff.2 fun p hp h => hno ((hsame p hp).symm.trans h), List.nil_append]

theorem part_act (a : Id) (x : σ) (sends : List Outgoing) :
    (s.act T a (x, sends)).part f about =
      (s.part f about).act T a (f x, sends.filter (about ·.message.content)) := by
  simp only [part, act, List.filter_append, filter_packets, mk.injEq, and_true]
  funext b
  by_cases hb : b = a <;> simp [hb]

/-- A step that leaves the part as it is, with sends that it is not about. -/
theorem part_act_of_not {a : Id} {x : σ} {sends : List Outgoing} (hx : f x = f (s.nodes a))
    (hs : ∀ o ∈ sends, about o.message.content = false) :
    (s.act T a (x, sends)).part f about = s.part f about := by
  have hnone : sends.filter (about ·.message.content) = [] :=
    List.filter_eq_nil_iff.2 fun o ho => by simp [hs o ho]
  rw [part_act, hnone, hx]
  simp [act, part]

theorem part_arrived (h : about p.msg.content = true) :
    (s.arrived front p back).part f about =
      (s.part f about).arrived (front.filter (about ·.msg.content)) p
        (back.filter (about ·.msg.content)) := by
  simp [part, arrived, h]

theorem part_arrived_of_not (hw : s.wire = front ++ p :: back)
    (h : about p.msg.content = false) : (s.arrived front p back).part f about = s.part f about := by
  simp [part, arrived, hw, h]

theorem wire_part (hw : s.wire = front ++ p :: back) (h : about p.msg.content = true) :
    (s.part f about).wire = front.filter (about ·.msg.content) ++ p ::
      back.filter (about ·.msg.content) := by
  simp [part, hw, h]

/-- Of the packets on the same link with a content that `about` names, only the oldest one arrives. -/
def InOrderAbout (about : Content → Bool) (s : Overlay σ) : Event ι → Prop
  | .command _ _ => True
  | .deliver place => ∀ p ∈ s.wire[place]?, about p.msg.content = true →
    ∀ q ∈ s.wire.take place, about q.msg.content = true → ¬ SameLink q p

instance (about : Content → Bool) (s : Overlay σ) (e : Event ι) :
    Decidable (s.InOrderAbout about e) :=
  match e with
  | .command _ _ => .isTrue trivial
  | .deliver place => inferInstanceAs (Decidable (∀ p ∈ s.wire[place]?,
    about p.msg.content = true → ∀ q ∈ s.wire.take place, about q.msg.content = true →
      ¬ SameLink q p))

/-- Then the part gets its packets in order. -/
theorem InOrderAbout.part (hw : s.wire = front ++ p :: back) (h : about p.msg.content = true)
    (hin : s.InOrderAbout (ι := ι) about (.deliver front.length)) :
    (s.part f about).InOrder (ι := ι)
      (.deliver (front.filter (about ·.msg.content)).length) := by
  intro q hq r hr
  rw [wire_part hw h] at hq hr
  obtain rfl : p = q := by simpa using hq
  obtain ⟨hmem, habout⟩ : r ∈ front ∧ about r.msg.content = true := by simpa using hr
  exact hin p (by simp [hw]) h r (by simpa [hw] using hmem) habout

end Overlay

end RelayMesh
