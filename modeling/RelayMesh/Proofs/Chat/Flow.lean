import RelayMesh.Message
import Mathlib.Combinatorics.SimpleGraph.Connectivity.Connected
import Mathlib.Data.List.Basic

namespace RelayMesh

/-- A copy of a line on its way: the number of the line, and the servers it went through. -/
structure Copy where
  number : Nat
  path : List Id
deriving DecidableEq

namespace Flow

/-- How far the lines have come. `copies u v` are the copies on the connection from `u` to `v`, the
oldest first. -/
structure Sound (adj : Id → Id → Prop) (heard : Id → Nat) (copies : Id → Id → List Copy) :
    Prop where
  /-- Whoever a copy came by has handled its line. -/
  known : ∀ u v, adj u v → ∀ c ∈ copies u v, c.number < heard u ∧ ∀ x ∈ c.path, c.number < heard x
  /-- What a server has handled, its neighbours have handled, or a copy is on its way to them. -/
  complete : ∀ u v, adj u v → ∀ j < heard u, j < heard v ∨ ∃ c ∈ copies u v, c.number = j
  /-- All lines before a copy are handled where it goes, or they are ahead of it. -/
  ordered : ∀ u v, adj u v → ∀ front c back, copies u v = front ++ c :: back → ∀ j < c.number,
    j < heard v ∨ ∃ d ∈ front, d.number = j

/-- A place in two lists, one after the other, is in the first one or in the second. -/
theorem cases_append {α : Type} {l r front back : List α} {c : α} (h : l ++ r = front ++ c :: back) :
    (∃ mid, l = front ++ c :: mid) ∨ c ∈ r ∧ ∃ mid, front = l ++ mid := by
  rcases List.append_eq_append_iff.1 h with ⟨mid, hfront, hr⟩ | ⟨mid, hl, hback⟩
  · exact .inr ⟨by simp [hr], mid, hfront⟩
  · cases mid with
    | nil =>
      have hr : c :: back = r := hback
      exact .inr ⟨hr ▸ List.mem_cons_self, [], by simpa using hl.symm⟩
    | cons d mid =>
      obtain ⟨rfl, -⟩ := List.cons.inj hback
      exact .inl ⟨mid, hl⟩

variable {adj : Id → Id → Prop} {heard : Id → Nat} {copies copies' : Id → Id → List Copy}
  {u v : Id}

theorem sound_nil (adj : Id → Id → Prop) : Sound adj (fun _ => 0) fun _ _ => [] where
  known u v _ c hc := absurd hc List.not_mem_nil
  complete u v _ j hj := absurd hj (Nat.not_lt_zero j)
  ordered u v _ front c back h := by simp at h

/-- The next copy on a connection is of no line beyond the first that was not handled. -/
theorem Sound.number_le (h : Sound adj heard copies) (huv : adj u v) {c : Copy} {rest : List Copy}
    (hc : copies u v = c :: rest) : c.number ≤ heard v := by
  by_contra hlt
  rcases h.ordered u v huv [] c rest hc (heard v) (Nat.not_le.1 hlt) with hj | ⟨d, hd, -⟩
  · exact Nat.lt_irrefl _ hj
  · exact absurd hd List.not_mem_nil

/-- How far the lines have come once `v` has handled line `k`. -/
def handle (heard : Id → Nat) (v : Id) (k : Nat) (x : Id) : Nat :=
  if x = v then max (heard v) (k + 1) else heard x

@[simp] theorem handle_self (heard : Id → Nat) (v : Id) (k : Nat) :
    handle heard v k v = max (heard v) (k + 1) := if_pos rfl

theorem handle_of_ne {x : Id} (h : x ≠ v) (k : Nat) : handle heard v k x = heard x := if_neg h

theorem le_handle (heard : Id → Nat) (v : Id) (k : Nat) (x : Id) : heard x ≤ handle heard v k x := by
  by_cases hx : x = v
  · rw [hx, handle_self]
    exact Nat.le_max_left _ _
  · rw [handle_of_ne hx]

theorem lt_handle_self (heard : Id → Nat) (v : Id) (k : Nat) : k < handle heard v k v := by
  rw [handle_self]
  exact Nat.le_max_right _ _

theorem handle_le {n k : Nat} (h : heard u ≤ n) (hv : u = v → k < n) : handle heard v k u ≤ n := by
  by_cases hu : u = v
  · subst hu
    rw [handle_self]
    exact Nat.max_le.2 ⟨h, hv rfl⟩
  · rwa [handle_of_ne hu]

/-- A line that a server had handled already. -/
theorem handle_of_lt {x : Id} {k : Nat} (h : k < heard x) : handle heard v k x = heard x := by
  by_cases hx : x = v
  · subst hx
    rw [handle_self]
    omega
  · rw [handle_of_ne hx]

/-- What relaying line `k` at `v` does to the copies on a connection: those in `gone` have come to
`v`, and new ones have got on their way from there. -/
structure Passes (v : Id) (k : Nat) (path : List Id) (x w : Id) (before after : List Copy) :
    Prop where
  exists_kept : ∃ gone kept n, before = gone ++ kept ∧ after = kept ++ List.replicate n ⟨k, path⟩ ∧
    (∀ c ∈ gone, w = v ∧ c.number = k) ∧ (n ≠ 0 → x = v) ∧ (x = v → w ∉ path → 0 < n)

/-- A server relays the first line that it has not handled, or one that it has. The copies get a path
of servers that have handled the line. -/
theorem Sound.relay (h : Sound adj heard copies) {k : Nat} {path : List Id} (hk : k ≤ heard v)
    (hpath : ∀ x ∈ path, k < handle heard v k x)
    (hcopies : ∀ x w, adj x w → Passes v k path x w (copies x w) (copies' x w)) :
    Sound adj (handle heard v k) copies' := by
  have hgrow := le_handle heard v k
  have hself := lt_handle_self heard v k
  constructor
  · intro x w hxw c hc
    obtain ⟨gone, kept, n, hbefore, hafter, -, hnew, -⟩ := (hcopies x w hxw).exists_kept
    rw [hafter] at hc
    rcases List.mem_append.1 hc with hold | hrep
    · obtain ⟨hx, hall⟩ := h.known x w hxw c (by rw [hbefore]; exact List.mem_append_right _ hold)
      exact ⟨Nat.lt_of_lt_of_le hx (hgrow x), fun y hy => Nat.lt_of_lt_of_le (hall y hy) (hgrow y)⟩
    · obtain ⟨hn, rfl⟩ := List.mem_replicate.1 hrep
      exact ⟨hnew hn ▸ hself, hpath⟩
  · intro x w hxw j hj
    obtain ⟨gone, kept, n, hbefore, hafter, hgone, -, hall⟩ := (hcopies x w hxw).exists_kept
    by_cases hold : j < heard x
    · -- what `x` had handled before was on its way, and only a copy of line `k` to `v` has arrived
      rcases h.complete x w hxw j hold with hw | ⟨c, hc, hcj⟩
      · exact .inl (Nat.lt_of_lt_of_le hw (hgrow w))
      · rw [hbefore] at hc
        rcases List.mem_append.1 hc with hc | hc
        · obtain ⟨rfl, hck⟩ := hgone c hc
          exact .inl (hcj ▸ hck ▸ hself)
        · exact .inr ⟨c, by rw [hafter]; exact List.mem_append_left _ hc, hcj⟩
    · have hx : x = v := by
        by_contra hx
        rw [handle_of_ne hx] at hj
        exact hold hj
      subst hx
      rw [handle_self] at hj
      obtain rfl : j = k := by omega
      by_cases hw : w ∈ path
      · exact .inl (hpath w hw)
      · have hpos := hall rfl hw
        refine .inr ⟨⟨j, path⟩, ?_, rfl⟩
        rw [hafter]
        exact List.mem_append_right _ (List.mem_replicate.2 ⟨by omega, rfl⟩)
  · intro x w hxw front c back heq j hj
    obtain ⟨gone, kept, n, hbefore, hafter, hgone, hnew, -⟩ := (hcopies x w hxw).exists_kept
    rw [hafter] at heq
    rcases cases_append heq with ⟨mid, hkept⟩ | ⟨hc, mid, hfront⟩
    · have hold : copies x w = (gone ++ front) ++ c :: mid := by
        rw [hbefore, hkept, List.append_assoc]
      rcases h.ordered x w hxw _ c mid hold j hj with hw | ⟨d, hd, hdj⟩
      · exact .inl (Nat.lt_of_lt_of_le hw (hgrow w))
      · rcases List.mem_append.1 hd with hd | hd
        · obtain ⟨rfl, hdk⟩ := hgone d hd
          exact .inl (hdj ▸ hdk ▸ hself)
        · exact .inr ⟨d, hd, hdj⟩
    · -- a new copy: all that `v` had handled before is ahead of it or has arrived
      obtain ⟨hn, rfl⟩ := List.mem_replicate.1 hc
      obtain rfl := hnew hn
      rcases h.complete x w hxw j (Nat.lt_of_lt_of_le hj hk) with hw | ⟨d, hd, hdj⟩
      · exact .inl (Nat.lt_of_lt_of_le hw (hgrow w))
      · rw [hbefore] at hd
        rcases List.mem_append.1 hd with hd | hd
        · exact absurd ((hgone d hd).2.symm.trans hdj) (Nat.ne_of_gt hj)
        · exact .inr ⟨d, by rw [hfront]; exact List.mem_append_left _ hd, hdj⟩

/-- Once no copy is on its way, a server has handled what any server that it is connected with has. -/
theorem Sound.heard_le {G : SimpleGraph Id} (h : Sound G.Adj heard copies)
    (hnone : ∀ u v, G.Adj u v → copies u v = []) (huv : G.Reachable u v) : heard u ≤ heard v := by
  obtain ⟨w⟩ := huv
  induction w with
  | nil => exact Nat.le_refl _
  | @cons u v _ hadj _ ih =>
    refine Nat.le_trans (Nat.le_of_not_lt fun hlt => ?_) ih
    rcases h.complete u v hadj (heard v) hlt with hv | ⟨c, hc, -⟩
    · exact Nat.lt_irrefl _ hv
    · rw [hnone u v hadj] at hc
      exact absurd hc List.not_mem_nil

end Flow

end RelayMesh
