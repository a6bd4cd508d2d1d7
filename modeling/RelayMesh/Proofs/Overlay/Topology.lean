import RelayMesh.Id
import Mathlib.Logic.Relation

namespace RelayMesh

/-- Servers and the links between them, none of which changes. A link joins two different servers,
in both directions. -/
structure Topology where
  servers : List Id
  distinct : servers.Nodup
  links : List (Id × Id)

namespace Topology

variable (T : Topology)

def Linked (a b : Id) : Prop :=
  a ≠ b ∧ a ∈ T.servers ∧ b ∈ T.servers ∧ ((a, b) ∈ T.links ∨ (b, a) ∈ T.links)

instance : DecidableRel T.Linked := fun a b =>
  inferInstanceAs (Decidable (a ≠ b ∧ a ∈ T.servers ∧ b ∈ T.servers ∧
    ((a, b) ∈ T.links ∨ (b, a) ∈ T.links)))

def neighbours (a : Id) : List Id := T.servers.filter (T.Linked a)

def degree (a : Id) : Nat := (T.neighbours a).length

/-- Links lead from every server to every other one. -/
def Connected : Prop :=
  ∀ a ∈ T.servers, ∀ b ∈ T.servers, Relation.ReflTransGen T.Linked a b

variable {T}

theorem Linked.symm {a b : Id} (h : T.Linked a b) : T.Linked b a :=
  ⟨h.1.symm, h.2.2.1, h.2.1, h.2.2.2.symm⟩

theorem Linked.ne {a b : Id} (h : T.Linked a b) : a ≠ b := h.1

theorem Linked.source_mem {a b : Id} (h : T.Linked a b) : a ∈ T.servers := h.2.1

theorem Linked.target_mem {a b : Id} (h : T.Linked a b) : b ∈ T.servers := h.2.2.1

@[simp] theorem mem_neighbours {a b : Id} : b ∈ T.neighbours a ↔ T.Linked a b := by
  simp only [neighbours, List.mem_filter, decide_eq_true_eq, and_iff_right_iff_imp]
  exact Linked.target_mem

theorem nodup_neighbours (a : Id) : (T.neighbours a).Nodup := T.distinct.filter _

theorem degree_pos {a b : Id} (h : T.Linked a b) : 0 < T.degree a :=
  List.length_pos_of_mem (mem_neighbours.2 h)

theorem exists_linked_of_degree_pos {a : Id} (h : 0 < T.degree a) : ∃ b, T.Linked a b := by
  obtain ⟨b, hb⟩ := List.exists_mem_of_length_pos h
  exact ⟨b, mem_neighbours.1 hb⟩

theorem eq_of_degree_one {a u v : Id} (hd : T.degree a = 1) (hu : T.Linked a u)
    (hv : T.Linked a v) : v = u := by
  obtain ⟨b, hb⟩ := List.length_eq_one_iff.1 hd
  rw [← mem_neighbours, hb, List.mem_singleton] at hu hv
  rw [hu, hv]

theorem exists_ne_of_degree {a u : Id} (hu : T.Linked a u) (hd : T.degree a ≠ 1) :
    ∃ v, T.Linked a v ∧ v ≠ u := by
  apply Classical.byContradiction
  intro hno
  have hall : ∀ v ∈ T.neighbours a, v = u := fun v hv =>
    Classical.byContradiction fun hne => hno ⟨v, mem_neighbours.1 hv, hne⟩
  have hlen : (T.neighbours a).length = (T.neighbours a).count u :=
    (List.count_eq_length.2 fun v hv => (hall v hv).symm).symm
  have hone : (T.neighbours a).count u ≤ 1 := List.nodup_iff_count.1 (T.nodup_neighbours a) u
  have hpos := degree_pos hu
  unfold degree at hd hpos
  omega

/-- A property that every link passes on reaches every server of a connected graph. -/
theorem Connected.spread (hT : T.Connected) {P : Id → Prop}
    (pass : ∀ u v, T.Linked u v → P u → P v) {a : Id} (ha : a ∈ T.servers) (h : P a) :
    ∀ b ∈ T.servers, P b := by
  intro b hb
  induction hT a ha b hb with
  | refl => exact h
  | tail _ hl ih => exact pass _ _ hl (ih hl.source_mem)

/-- A connected graph with two different servers has a link at each of them. -/
theorem Connected.degree_pos_of_ne (hT : T.Connected) {a b : Id} (ha : a ∈ T.servers)
    (hb : b ∈ T.servers) (hne : a ≠ b) : 0 < T.degree a := by
  rcases (hT a ha b hb).cases_head with h | ⟨c, hc, -⟩
  · exact absurd h hne
  · exact degree_pos hc

theorem Connected.degree_pos (hT : T.Connected) {u v : Id} (hl : T.Linked u v) {a : Id}
    (ha : a ∈ T.servers) : 0 < T.degree a := by
  by_cases h : a = u
  · exact h ▸ Topology.degree_pos hl
  · exact hT.degree_pos_of_ne ha hl.source_mem h

theorem connected_of_hub {T : Topology} (hub : Id)
    (h : ∀ a ∈ T.servers, a = hub ∨ T.Linked a hub) : T.Connected := by
  intro a ha b hb
  have inward : Relation.ReflTransGen T.Linked a hub := by
    rcases h a ha with rfl | hl
    · exact .refl
    · exact .single hl
  rcases h b hb with rfl | hl
  · exact inward
  · exact inward.tail hl.symm

/-- What is checked for one server after the other holds of all. -/
theorem forall_servers {T : Topology} {P : Id → Prop} [DecidablePred P]
    (h : T.servers.all (P ·) = true) : ∀ a ∈ T.servers, P a := by simpa using h

/-- Three servers in a row. -/
def row : Topology := ⟨[1, 2, 3], by decide, [(1, 2), (2, 3)]⟩

theorem connected_row : row.Connected := connected_of_hub 2 (forall_servers (by decide))

/-- Three servers, each linked to both others. -/
def triangle : Topology := ⟨[1, 2, 3], by decide, [(1, 2), (1, 3), (2, 3)]⟩

theorem connected_triangle : triangle.Connected := connected_of_hub 1 (forall_servers (by decide))

end Topology

end RelayMesh
