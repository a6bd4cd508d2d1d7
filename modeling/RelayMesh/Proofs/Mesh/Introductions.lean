import RelayMesh.Proofs.Mesh.Newcomers

namespace RelayMesh

namespace Mesh

/-- Who starts in a move, and with which connections. -/
def Move.start? : Move → Option (Id × List Id)
  | .step (.at s (.start peers)) => some (s, peers)
  | _ => none

/-- The servers that start, in their order. -/
def starters (moves : List Move) : List Id := moves.filterMap fun mv => mv.start?.map (·.1)

/-- Nobody starts twice or again after `started`, and everybody gets connected with servers that
have started before. -/
def InTurn (started : List Id) : List Move → Prop
  | [] => True
  | mv :: moves =>
    (∀ b ∈ mv.start?, b.1 ∉ started ∧ b.2 ⊆ started) ∧ InTurn (started ++ starters [mv]) moves

instance InTurn.decidable :
    ∀ (started : List Id) (moves : List Move), Decidable (InTurn started moves)
  | _, [] => .isTrue trivial
  | started, mv :: moves =>
    have := InTurn.decidable (started ++ starters [mv]) moves
    inferInstanceAs (Decidable (_ ∧ _))

/-- The server `a` starts before `b`. -/
def Precedes (moves : List Move) (a b : Id) : Prop := [a, b].Sublist (starters moves)

instance (moves : List Move) (a b : Id) : Decidable (Precedes moves a b) :=
  inferInstanceAs (Decidable (List.Sublist _ _))

/-- Whoever takes `z` to be two links away or more has an answer to it on its way, or this has come
to `z` and goes on from there along the paths of `G` that it has not been on. -/
def Echoed (G : SimpleGraph Id) (z : Id) (m : Mesh) : Prop :=
  ∀ a k, m.Hops a z k → 2 ≤ k → m.Answers a z k ∨ ∃ via, via.length < k ∧
    (a :: via ++ [z]).IsChain m.graph.Adj ∧ m.CoversFrom G a (a :: via) z

variable {m m' : Mesh} {a b d s u v x y z : Id} {k place : Nat} {t : Transit} {mv : Move}
  {peers servers started via : List Id} {config : Config} {moves before later : List Move}
  {G : SimpleGraph Id}

/-- An answer that has come to `z` goes on from there, along every path that it has not been on. -/
theorem Underway.coversFrom_deliver
    (h : m.Underway a z k MessageType.identity (.answer a z) via t) (hc : m.Calm servers config)
    (hsize : Sized servers config) (hG : G ≤ m.graph) (hd : t.target = z)
    (hroomy : (m.deliver t).Roomy) : (m.deliver t).CoversFrom G a (a :: via) z := by
  subst hd
  intro path c hnodup hchain
  obtain ⟨b, r, hfirst⟩ : ∃ b r, path ++ [c] = b :: r := by cases path <;> simp
  rw [hfirst] at hnodup hchain
  have hsplit : a :: via ++ t.target :: b :: r = a :: via ++ [t.target] ++ b :: r := by simp
  rw [hsplit] at hnodup
  obtain ⟨hdistinct, -, hapart⟩ := List.nodup_append.1 hnodup
  obtain ⟨-, hspreads⟩ := hc.spread hsize h.type h.carries (by simp [Message.answer])
    h.trail.last hdistinct h.chain
  have hon := hspreads b (hG (List.isChain_cons_cons.1 hchain).1)
    (fun hmem => hapart b hmem b List.mem_cons_self rfl) hroomy
  exact .inr ⟨[], b, r, hfirst, hon⟩

/-- An overlay that has grown has the echoes still that it had. -/
theorem Echoed.mono (h : m.Echoed G z) (hs : m'.Sound) (he : m.Extends m')
    (hp : ∀ t, m.Pending t → m'.Pending t)
    (hr : ∀ a k, m'.Hops a z k → 2 ≤ k → m.Hops a z k) : m'.Echoed G z := by
  intro a k hk hfar
  rcases h a k (hr a k hk hfar) hfar with ⟨via, t, ht, hway⟩ | ⟨via, hshort, hchain, hcovers⟩
  · exact .inl ⟨via, t, hp t ht, hway.mono hs he⟩
  · exact .inr ⟨via, hshort, hchain.imp fun _ _ hadj => he.graph hadj, hcovers.mono he hp⟩

/-- A frame that arrives leaves no route to `z` without an echo. -/
theorem Echoed.deliver (h : m.Echoed G z) (hc : m.Calm servers config) (hs : m.Sound)
    (ha : Ample servers config) (hG : G ≤ m.graph) (ho : m.Onward (.deliver place))
    (hroomy : (m.effect (.deliver place)).Roomy) : (m.effect (.deliver place)).Echoed G z := by
  cases ht : m.wire[place]? with
  | none => rwa [effect_deliver_none ht]
  | some t =>
    intro a k hk hfar
    have hroom := hasRoom_of_onward ht ho
    obtain ⟨hcalm, hstill⟩ : _ ∧ m.Still (m.effect (.deliver place)) := hc.effect rfl
    rcases hs.hops_deliver hc ha ht hroom hroomy hk with hold | hanswer
    · rcases h a k hold hfar with hanswer | ⟨via, hshort, hchain, hcovers⟩
      · rcases hanswer.deliver hc hs ha ht hroom hroomy with hon | ⟨hd, via, hway⟩
        · exact .inl hon
        · have hcovers := hway.coversFrom_deliver (hc.erase place) ha.sized hG hd
            (effect_deliver ht ▸ hroomy)
          refine .inr ⟨via, hway.short, ?_, effect_deliver ht ▸ hcovers⟩
          rw [hstill.graph, ← hd]
          exact hway.chain
      · refine .inr ⟨via, hshort, by rwa [hstill.graph], ?_⟩
        exact hc.coversFrom_deliver ha.sized hG rfl hchain hcovers ht hroomy
    · exact .inl hanswer

/-- A server that starts gets routes of one hop by that, and so do its peers. -/
theorem Calm.hops_start (h : m.Calm servers config) (hw : m.Welcomes s peers)
    (hk : (m.move (Mesh.start s peers)).Hops a d k) : m.Hops a d k ∨ k = 1 := by
  have hjoined := h.toSane.joinAll_induction
    (I := fun m' => ∀ a d k, m'.Hops a d k → m.Hops a d k ∨ k = 1) (fun _ _ _ hk => .inl hk) hw
    fun m' p sa sb _ hi hab a d k hk => by
      obtain ⟨st', next, link, hs', hget⟩ := hk
      rcases hab.cases hs' with ⟨st, e, hst, rfl, -, -⟩ | hst
      · rw [Station.get?_joined] at hget
        split at hget
        next =>
          cases hget
          exact .inr rfl
        next => exact hi a d k ⟨st, next, link, hst, hget⟩
      · exact hi a d k ⟨st', next, link, hst, hget⟩
  obtain ⟨hposts, hcalm, -⟩ := h.announced hw
  have hsent := hcalm.alike_settle.keepsRoutes.hops hk
  exact hjoined a d k (hposts.alike.keepsRoutes.hops hsent)

/-- Another server that starts leaves no route to `z` without an echo. -/
theorem Echoed.start (h : m.Echoed G z) (hm : m.Acquainted servers config)
    (hw : m.Welcomes s peers) : (m.move (Mesh.start s peers)).Echoed G z := by
  obtain ⟨-, hextends, hpending⟩ := hm.toCalm.start hw
  obtain ⟨hsound, -⟩ := hm.answered.start hm.toCalm hm.sound hw
  refine h.mono hsound hextends hpending fun a k hk hfar => ?_
  rcases hm.toCalm.hops_start hw hk with hold | rfl
  · exact hold
  · omega

theorem Echoed.move (h : m.Echoed G z) (hm : m.Acquainted servers config)
    (ha : Ample servers config) (hG : G ≤ m.graph) (hmv : m.Starts mv) (ho : m.Onward mv) :
    (m.move mv).Echoed G z := by
  obtain ⟨hevolves, hroomy⟩ := hmv
  rcases evolves_cases hevolves with ⟨place, rfl⟩ | ⟨s, peers, rfl, hw⟩
  · obtain ⟨hcalm, -⟩ : (m.effect (.deliver place)).Calm servers config ∧ _ := hm.toCalm.effect rfl
    have hsound : (m.effect (.deliver place)).Sound := hm.sound.effect trivial ho
    exact (h.deliver hm.toCalm hm.sound ha hG ho hroomy).mono hsound.settle
      hcalm.toSane.settle.extended (fun _ => hcalm.toSane.pending_settle)
      fun _ _ hk _ => hcalm.alike_settle.keepsRoutes.hops hk
  · exact h.start hm hw

/-- A path as a list is one in the graph. -/
theorem exists_walk_of_chain {path : List Id} (h : (x :: (path ++ [z])).IsChain G.Adj) :
    ∃ w : G.Walk x z, w.support = x :: (path ++ [z]) := by
  induction path generalizing x with
  | nil =>
    obtain ⟨hadj, -⟩ := List.isChain_cons_cons.1 h
    exact ⟨.cons hadj .nil, rfl⟩
  | cons b path ih =>
    obtain ⟨hadj, hrest⟩ := List.isChain_cons_cons.1 h
    obtain ⟨w, hw⟩ := ih hrest
    exact ⟨.cons hadj w, by rw [SimpleGraph.Walk.support_cons, hw]; rfl⟩

/-- At rest, whoever has `z` on a shortest path from `x` knows how far `x` is, unless `x` and `z`
are neighbours. -/
theorem Echoed.knows (he : m.Echoed G z) (h : m.Acquainted servers config) (hrest : m.AtRest)
    (hc : m.CoversIn G z) (hG : G ≤ m.graph) (p : G.Walk x z) (q : G.Walk z y)
    (hlength : p.length + q.length = m.graph.dist x y) (hapart : p.length ≠ 1) (hne : x ≠ y) :
    m.Knows y x (m.graph.dist x y) := by
  rcases eq_or_ne x z with rfl | hxz
  · exact (hc.knows_of_atRest hrest q.reachable hne).mono
      ((SimpleGraph.dist_le q).trans (by omega))
  obtain ⟨k, hk, hle⟩ := (hc.knows_of_atRest hrest p.reverse.reachable hxz.symm).hops
  have hshort : k ≤ p.length := by
    rw [← p.length_reverse]
    exact hle.trans (SimpleGraph.dist_le p.reverse)
  -- a walk over `z` that is no longer than the distance of `x` and `y` is as long as that
  have hlong : ∀ w : m.graph.Walk x z, p.length ≤ w.length := by
    intro w
    have hdist := SimpleGraph.dist_le (w.append (q.mapLe hG))
    rw [SimpleGraph.Walk.length_append, SimpleGraph.Walk.length_map] at hdist
    omega
  obtain rfl : k = p.length := by
    obtain ⟨st, next, link, hs, hget⟩ := hk
    obtain ⟨first, rest, hwalk⟩ := h.sound.walk_of_route hs hget
    exact Nat.le_antisymm hshort (hwalk ▸ hlong _)
  cases hq : q with
  | nil =>
    subst hq
    rw [← hlength]
    exact (h.answered.hops_back hrest hk).knows
  | cons first rest =>
    have hfar : 2 ≤ p.length := by
      have hsome : p.length ≠ 0 := fun hzero => hxz (SimpleGraph.Walk.eq_of_length_eq_zero hzero)
      omega
    rcases he x p.length hk hfar with ⟨-, t, ht, -⟩ | ⟨via, hvia, hchain, hcovers⟩
    · exact absurd ht (hrest.not_pending t)
    obtain ⟨w, hw⟩ := exists_walk_of_chain hchain
    have hcount : w.length = via.length + 1 := by
      have := w.length_support
      rw [hw] at this
      simpa using this.symm
    have hwhole : (w.append (q.mapLe hG)).length = m.graph.dist x y := by
      have := hlong w
      rw [SimpleGraph.Walk.length_append, SimpleGraph.Walk.length_map]
      omega
    have hnodup := (SimpleGraph.Walk.isPath_of_length_eq_dist _ hwhole).support_nodup
    have hsupport : z :: (rest.support.dropLast ++ [y]) = q.support := by
      have hlast := List.dropLast_append_getLast rest.support_ne_nil
      rw [rest.getLast_support] at hlast
      rw [hlast, hq, SimpleGraph.Walk.support_cons]
    have hsteps : rest.support.dropLast.length + 1 = q.length := by
      rw [List.length_dropLast, rest.length_support, hq, SimpleGraph.Walk.length_cons]
      rfl
    rw [SimpleGraph.Walk.support_append, SimpleGraph.Walk.support_mapLe_eq_support, hw,
      ← hsupport, List.tail_cons] at hnodup
    rcases hcovers rest.support.dropLast y (by simpa using hnodup)
      (hsupport ▸ q.isChain_adj_support) with hknows | ⟨-, -, -, -, t, ht, -⟩
    · exact hknows.mono (by rw [List.length_cons]; omega)
    · exact absurd ht (hrest.not_pending t)

end Mesh

end RelayMesh
