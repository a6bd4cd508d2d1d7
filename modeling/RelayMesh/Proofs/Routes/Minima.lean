import Mathlib.Data.List.Basic
import RelayMesh.Proofs.Routes.Learning

namespace RelayMesh

namespace Routes

variable {t : Routes} {id other next : Id} {link : LinkId} {distance k k' : Nat} {path : List Id}

/-- The hops to an entity, -1 to a client. -/
def hops? (t : Routes) (id : Id) : Option Int := (t.get? id).map Route.hops

/-- The place of an entity on a path, counted from the end, of its last occurrence. The last entity
stands at 1. -/
def place (path : List Id) (id : Id) : Nat := path.reverse.idxOf id + 1

/-- How many hops a path shows to an entity on it. -/
def distance? (path : List Id) (id : Id) : Option Nat :=
  if id ∈ path then some (min (place path id) maxHops) else none

/-- Learns from several paths, each of which came over a connection. -/
def learnAll (t : Routes) (paths : List (List Id × LinkId)) : Routes :=
  paths.foldl (fun t p => (t.learn p.1 p.2).1) t

/-- The route to `id` gets better by a path that is read from its end, of which the first server is
`distance` hops away. -/
def Gains (t : Routes) (distance : Nat) (path : List Id) (id : Id) : Prop :=
  id ∈ path ∧ id ≠ t.own ∧ t.improves id (min (distance + path.idxOf id) maxHops) = true

theorem improves_mono (h : t.improves id k' = true) (hk : k ≤ k') : t.improves id k = true := by
  unfold improves at h ⊢
  cases hget : t.get? id with
  | none => rfl
  | some route =>
    obtain ⟨reach, edge⟩ := route
    cases reach with
    | client => simp [hget, Route.isLongerThan] at h
    | server hops via =>
      simp only [hget, Route.isLongerThan, decide_eq_true_eq] at h ⊢
      omega

theorem not_improves_of_get? {hops : Nat} (h : t.get? id = some ⟨.server hops next, link⟩)
    (hk : hops ≤ k) : t.improves id k = false := by
  simpa [improves, h, Route.isLongerThan] using hk

theorem improves_congr {t' : Routes} (h : t'.get? id = t.get? id) (k : Nat) :
    t'.improves id k = t.improves id k := by
  unfold improves
  rw [h]

theorem get?_meet_of_ne (h : other ≠ id) :
    (meet next link t distance id).get? other = t.get? other := by
  unfold meet
  split
  · rw [get?_set, if_neg fun hs => h hs.1]
  · rfl

section Gains

/-- Who stands first has nothing to gain from the rest of the path any more. -/
theorem not_gains_meet : ¬ (meet next link t distance id).Gains (distance + 1) path id := by
  rintro ⟨-, hne, himproves⟩
  rw [own_meet] at hne
  have hfirst := improves_mono himproves
    (show min distance maxHops ≤ min (distance + 1 + path.idxOf id) maxHops by omega)
  unfold meet at hfirst
  split at hfirst
  next hset =>
    have hget : (t.set id ⟨.server (min distance maxHops) next, link⟩).get? id =
        some ⟨.server (min distance maxHops) next, link⟩ := by
      rw [get?_set, if_pos ⟨rfl, hne⟩]
    rw [not_improves_of_get? hget (Nat.le_refl _)] at hfirst
    cases hfirst
  next hset => exact hset ⟨hne, hfirst⟩

theorem gains_cons_self : t.Gains distance (id :: path) id ↔
    id ≠ t.own ∧ t.improves id (min distance maxHops) = true := by
  simp [Gains]

theorem gains_cons (h : other ≠ id) : t.Gains distance (id :: path) other ↔
    (meet next link t distance id).Gains (distance + 1) path other := by
  unfold Gains
  rw [own_meet, improves_congr (get?_meet_of_ne h), List.mem_cons,
    List.idxOf_cons_ne _ (Ne.symm h), show distance + (path.idxOf other).succ =
      distance + 1 + path.idxOf other by omega]
  simp [h]

/-- Those with something to gain are listed. -/
theorem mem_learnFrom_iff (next : Id) (link : LinkId) :
    other ∈ (learnFrom next link t distance path).2 ↔ t.Gains distance path other := by
  induction path generalizing t distance with
  | nil => simp [learnFrom, Gains]
  | cons id rest ih =>
    -- who stands first again later is not listed again
    have hrest : other ∈ (learnFrom next link (meet next link t distance id) (distance + 1) rest).2 ↔
        other ≠ id ∧ t.Gains distance (id :: rest) other := by
      rw [ih]
      by_cases ho : other = id
      · subst ho
        simp [not_gains_meet]
      · have hcons : t.Gains distance (id :: rest) other ↔
            (meet next link t distance id).Gains (distance + 1) rest other := gains_cons ho
        simp [ho, hcons]
    unfold learnFrom
    unfold meet at hrest
    dsimp only
    split
    next hset =>
      rw [if_pos hset] at hrest
      rw [List.mem_cons, hrest]
      by_cases ho : other = id
      · subst ho
        simp [gains_cons_self.2 hset]
      · simp [ho]
    next hset =>
      rw [if_neg hset] at hrest
      rw [hrest]
      by_cases ho : other = id
      · subst ho
        simp [gains_cons_self, hset]
      · simp [ho]

/-- Only those with something to gain get another route. -/
theorem get?_learnFrom_of_not_gains (h : ¬ t.Gains distance path other) :
    (learnFrom next link t distance path).1.get? other = t.get? other :=
  (mem_learnFrom next link t distance path other).resolve_right
    fun hmem => h ((mem_learnFrom_iff next link).1 hmem)

/-- Who has something to gain gets a route that counts its place. -/
theorem get?_learnFrom_of_gains (h : t.Gains distance path other) :
    (learnFrom next link t distance path).1.get? other =
      some ⟨.server (min (distance + path.idxOf other) maxHops) next, link⟩ := by
  induction path generalizing t distance with
  | nil => exact absurd h.1 List.not_mem_nil
  | cons id rest ih =>
    rw [learnFrom_cons]
    by_cases ho : other = id
    · subst ho
      have hset := gains_cons_self.1 h
      rw [get?_learnFrom_of_not_gains not_gains_meet, meet, if_pos hset, get?_set,
        if_pos ⟨rfl, hset.1⟩, List.idxOf_cons_self, Nat.add_zero]
    · rw [ih ((gains_cons ho).1 h), List.idxOf_cons_ne _ (Ne.symm ho),
        show distance + 1 + rest.idxOf other = distance + (rest.idxOf other).succ by omega]

/-- They are listed by their place. -/
theorem pairwise_learnFrom (next : Id) (link : LinkId) (t : Routes) (distance : Nat)
    (path : List Id) : (learnFrom next link t distance path).2.Pairwise
      (fun a b => path.idxOf a < path.idxOf b) := by
  induction path generalizing t distance with
  | nil => exact .nil
  | cons id rest ih =>
    have hlater {a : Id} (h : a ∈ (learnFrom next link (meet next link t distance id)
        (distance + 1) rest).2) : a ≠ id := by
      rintro rfl
      exact not_gains_meet ((mem_learnFrom_iff next link).1 h)
    have hrest : (learnFrom next link (meet next link t distance id) (distance + 1) rest).2.Pairwise
        (fun a b => (id :: rest).idxOf a < (id :: rest).idxOf b) := by
      refine (ih _ _).imp_of_mem fun ha hb hlt => ?_
      rw [List.idxOf_cons_ne _ (hlater ha).symm, List.idxOf_cons_ne _ (hlater hb).symm]
      exact Nat.succ_lt_succ hlt
    unfold learnFrom
    unfold meet at hrest hlater
    dsimp only
    split
    next hset =>
      rw [if_pos hset] at hrest hlater
      refine List.pairwise_cons.2 ⟨fun b hb => ?_, hrest⟩
      rw [List.idxOf_cons_self, List.idxOf_cons_ne _ (hlater hb).symm]
      exact Nat.succ_pos _
    next hset => rwa [if_neg hset] at hrest

/-- A path by which nobody gains anything changes nothing. -/
theorem learnFrom_eq_self (h : ∀ id, ¬ t.Gains distance path id) :
    learnFrom next link t distance path = (t, []) := by
  rcases learnFrom_cases next link t distance path with hsame | ⟨i, other, -, hlong, hnear⟩
  · exact hsame
  · refine absurd ?_ hlong
    unfold Within at hnear ⊢
    rwa [get?_learnFrom_of_not_gains (h other)] at hnear

/-- After a path has been read, nobody gains anything by it. -/
theorem not_gains_learnFrom (next : Id) (link : LinkId) :
    ¬ (learnFrom next link t distance path).1.Gains distance path id := by
  intro h
  by_cases hg : t.Gains distance path id
  · have hget : (learnFrom next link t distance path).1.get? id =
        some ⟨.server (min (distance + path.idxOf id) maxHops) next, link⟩ :=
      get?_learnFrom_of_gains hg
    have hnot := not_improves_of_get? hget (Nat.le_refl _)
    rw [h.2.2] at hnot
    cases hnot
  · have hsame : (learnFrom next link t distance path).1.get? id = t.get? id :=
      get?_learnFrom_of_not_gains hg
    refine hg ⟨h.1, by simpa using h.2.1, ?_⟩
    rw [← improves_congr hsame]
    exact h.2.2

end Gains

section Learn

variable {t' : Routes} {d : Nat}

theorem learn_of_empty (h : path.getLast? = none ∨ path.getLast? = some t.own) (link : LinkId) :
    t.learn path link = (t, []) := by
  unfold learn
  rcases h with h | h <;> simp [h]

theorem learn_eq (hlast : path.getLast? = some next) (hown : next ≠ t.own) (link : LinkId) :
    t.learn path link = learnFrom next link t 1 path.reverse := by
  unfold learn
  simp only [hlast, if_neg hown]

theorem distance?_eq_some : distance? path id = some d ↔
    id ∈ path ∧ d = min (place path id) maxHops := by
  unfold distance?
  split <;> simp [*, eq_comm]

/-- The route to `id` gets better if the path shows fewer hops to it. -/
theorem gains_reverse : t.Gains 1 path.reverse id ↔ ∃ d, distance? path id = some d ∧
    id ≠ t.own ∧ t.improves id d = true := by
  simp [distance?_eq_some, Gains, place, Nat.add_comm 1]

theorem get?_learnFrom_reverse (hd : distance? path id = some d) (hne : id ≠ t.own)
    (h : t.improves id d = true) : (learnFrom next link t 1 path.reverse).1.get? id =
      some ⟨.server d next, link⟩ := by
  rw [get?_learnFrom_of_gains (gains_reverse.2 ⟨d, hd, hne, h⟩), (distance?_eq_some.1 hd).2, place,
    Nat.add_comm]

/-- Who gets another route is who has something to gain. -/
theorem get?_learnFrom_ne_iff : (learnFrom next link t 1 path.reverse).1.get? id ≠ t.get? id ↔
    t.Gains 1 path.reverse id := by
  refine ⟨fun hne => by_contra fun h => hne (get?_learnFrom_of_not_gains h), fun h hsame => ?_⟩
  obtain ⟨d, hd, hid, himproves⟩ := gains_reverse.1 h
  rw [get?_learnFrom_reverse hd hid himproves] at hsame
  rw [not_improves_of_get? hsame.symm (Nat.le_refl d)] at himproves
  cases himproves

/-- A route in place of one with more hops takes the minimum. -/
theorem merge_of_improves (h : t.improves id d = true) :
    (t.hops? id).merge min (some (d : Int)) = some (d : Int) := by
  unfold improves at h
  unfold hops?
  cases hget : t.get? id with
  | none => rfl
  | some route =>
    obtain ⟨reach, edge⟩ := route
    cases reach with
    | client => simp [hget, Route.isLongerThan] at h
    | server hops via =>
      simp only [hget, Route.isLongerThan, decide_eq_true_eq] at h
      simp only [Option.map_some, Route.hops, Option.merge_some_some, Option.some.injEq]
      omega

theorem merge_of_not_improves (h : t.improves id d = false) :
    (t.hops? id).merge min (some (d : Int)) = t.hops? id := by
  unfold improves at h
  unfold hops?
  cases hget : t.get? id with
  | none => simp [hget] at h
  | some route =>
    obtain ⟨reach, edge⟩ := route
    cases reach with
    | client =>
      simp only [Option.map_some, Route.hops, Option.merge_some_some, Option.some.injEq]
      omega
    | server hops via =>
      simp only [hget, Route.isLongerThan, decide_eq_false_iff_not] at h
      simp only [Option.map_some, Route.hops, Option.merge_some_some, Option.some.injEq]
      omega

/-- The hop count that a path offers to the server `own`, for an entity. -/
def offer (own : Id) (path : List Id) (id : Id) : Option Int :=
  if path.getLast? = some own ∨ id = own then none else (distance? path id).map fun d : Nat => (d : Int)

/-- A hop count becomes the smaller one of what was known and what the path offers. -/
theorem hops?_learn (t : Routes) (path : List Id) (link : LinkId) (id : Id) :
    (t.learn path link).1.hops? id = (t.hops? id).merge min (offer t.own path id) := by
  unfold offer
  cases hlast : path.getLast? with
  | none =>
    have hnobody : distance? path id = none := by
      simp [distance?, List.getLast?_eq_none_iff.1 hlast]
    rw [learn_of_empty (.inl hlast), hnobody, Option.map_none, ite_self, Option.merge_none_right]
  | some next =>
    by_cases hown : next = t.own
    · rw [learn_of_empty (.inr (hown ▸ hlast)), if_pos (.inl (hown ▸ rfl)), Option.merge_none_right]
    · rw [learn_eq hlast hown]
      have same (h : ¬ t.Gains 1 path.reverse id) :
          (learnFrom next link t 1 path.reverse).1.hops? id = t.hops? id := by
        rw [hops?, get?_learnFrom_of_not_gains h, hops?]
      by_cases hid : id = t.own
      · rw [if_pos (.inr hid), Option.merge_none_right, same fun h => h.2.1 hid]
      · rw [if_neg (by simp [hown, hid])]
        cases hd : distance? path id with
        | none =>
          rw [Option.map_none, Option.merge_none_right, same]
          simp [gains_reverse, hd]
        | some d =>
          rw [Option.map_some]
          cases himproves : t.improves id d with
          | true =>
            rw [merge_of_improves himproves, hops?, get?_learnFrom_reverse hd hid himproves]
            rfl
          | false =>
            rw [merge_of_not_improves himproves, same]
            simp [gains_reverse, hd, himproves]

theorem hops?_learnAll (t : Routes) (paths : List (List Id × LinkId)) (id : Id) :
    (t.learnAll paths).hops? id =
      paths.foldl (fun hops p => hops.merge min (offer t.own p.1 id)) (t.hops? id) := by
  unfold learnAll
  induction paths generalizing t with
  | nil => rfl
  | cons p paths ih => rw [List.foldl_cons, List.foldl_cons, ih, own_learn, hops?_learn]

/-- In whatever order paths come, the hop counts are the same after all of them. -/
theorem hops?_learnAll_of_perm {paths paths' : List (List Id × LinkId)} (h : paths.Perm paths')
    (t : Routes) (id : Id) : (t.learnAll paths).hops? id = (t.learnAll paths').hops? id := by
  have assoc (a b c : Option Int) : (a.merge min b).merge min c = a.merge min (b.merge min c) :=
    Std.Associative.assoc a b c
  have comm (a b : Option Int) : a.merge min b = b.merge min a := Std.Commutative.comm a b
  have hcomm (hops a b : Option Int) :
      (hops.merge min a).merge min b = (hops.merge min b).merge min a := by
    rw [assoc, comm a, ← assoc]
  rw [hops?_learnAll, hops?_learnAll]
  exact h.foldl_eq' (fun _ _ _ _ hops => hcomm hops _ _) _

/-- Learning takes minima. Who gets another route is listed, nearest first: the route leads to the last
server of the path, over the connection, and counts the place of its destination. Everybody's hop count
is the smaller one of what was known and what the path shows; a client stays where it is. The same path
changes nothing once more, and hop counts do not depend on the order of paths. -/
theorem learn_takes_minima (t : Routes) (path : List Id) (link : LinkId) :
    let t' := (t.learn path link).1
    let learned := (t.learn path link).2
    (path.getLast? = none ∨ path.getLast? = some t.own → t' = t ∧ learned = []) ∧
    (∀ next, path.getLast? = some next → next ≠ t.own →
      t'.own = t.own ∧ t'.lastChat = t.lastChat ∧
      (∀ id, id ≠ t.own → t'.hops? id =
        (t.hops? id).merge min ((distance? path id).map fun d : Nat => (d : Int))) ∧
      (∀ id, t'.get? id ≠ t.get? id → id ≠ t.own ∧ ¬ t.IsClient id ∧
        ∃ d, distance? path id = some d ∧ t'.get? id = some ⟨.server d next, link⟩) ∧
      (∀ id, id ∈ learned ↔ t'.get? id ≠ t.get? id) ∧
      learned.Pairwise (fun a b => place path a < place path b)) ∧
    (∀ again, t'.learn path again = (t', [])) ∧
    ∀ paths paths' : List (List Id × LinkId), paths.Perm paths' → ∀ id,
      (t.learnAll paths).hops? id = (t.learnAll paths').hops? id := by
  intro t' learned
  have hperm (paths paths' : List (List Id × LinkId)) (h : paths.Perm paths') (id : Id) :=
    hops?_learnAll_of_perm h t id
  cases hlast : path.getLast? with
  | none =>
    have hsame := learn_of_empty (t := t) (.inl hlast)
    refine ⟨fun _ => ?_, nofun, fun again => ?_, hperm⟩
    · exact ⟨congrArg (·.1) (hsame link), congrArg (·.2) (hsame link)⟩
    · rw [show t' = t from congrArg (·.1) (hsame link), hsame]
  | some next =>
    by_cases hown : next = t.own
    · have hsame := learn_of_empty (t := t) (.inr (hown ▸ hlast))
      refine ⟨fun _ => ?_, fun _ hnext hne => ?_, fun again => ?_, hperm⟩
      · exact ⟨congrArg (·.1) (hsame link), congrArg (·.2) (hsame link)⟩
      · exact absurd (Option.some.inj hnext ▸ hown) hne
      · rw [show t' = t from congrArg (·.1) (hsame link), hsame]
    · have hchanged (id : Id) : t'.get? id ≠ t.get? id ↔ t.Gains 1 path.reverse id := by
        simp only [t', learn_eq hlast hown, get?_learnFrom_ne_iff]
      refine ⟨by simp [hown], fun next' hnext _ => ?_, fun again => ?_, hperm⟩
      · obtain rfl := Option.some.inj hnext
        refine ⟨own_learn t path link, lastChat_learn t path link, fun id hid => ?_, fun id hne => ?_,
          fun id => ?_, ?_⟩
        · rw [hops?_learn, offer, if_neg (by simp [hlast, hown, hid])]
        · obtain ⟨d, hd, hid, himproves⟩ := gains_reverse.1 ((hchanged id).1 hne)
          refine ⟨hid, not_isClient_of_improves himproves, d, hd, ?_⟩
          simp only [t', learn_eq hlast hown, get?_learnFrom_reverse hd hid himproves]
        · rw [hchanged]
          simp only [learned, learn_eq hlast hown, mem_learnFrom_iff]
        · simp only [learned, learn_eq hlast hown]
          exact (pairwise_learnFrom next link t 1 path.reverse).imp Nat.succ_lt_succ
      · have hown' : next ≠ t'.own := by rwa [own_learn]
        rw [learn_eq hlast hown']
        refine learnFrom_eq_self fun id => ?_
        simp only [t', learn_eq hlast hown]
        exact not_gains_learnFrom next link

/-- Server 5 has the client 500 and knows 1 to be four hops away, by way of its neighbour 4. -/
def charted : Routes :=
  ((({ own := 5 } : Routes).addNeighbour 4 0).addClient 500 1 |>.learn [1, 2, 6, 4] 0).1

/-- On this path the server itself, its client and two others stand, some of them twice. -/
theorem learn_takes_minima_detour :
    let path : List Id := [3, 1, 500, 5, 1, 9, 9]
    let t' := (charted.learn path 2).1
    path.getLast? = some 9 ∧ 9 ≠ charted.own ∧ (charted.learn path 2).2 = [9, 1, 3] ∧
      t'.get? 1 = some ⟨.server 3 9, 2⟩ ∧ t'.hops? 500 = some (-1) ∧ t'.learn path 3 = (t', []) ∧
      (charted.learnAll [(path, 2), ([1, 9], 2)]).hops? 1 =
        (charted.learnAll [([1, 9], 2), (path, 2)]).hops? 1 := by
  intro path t'
  have hlast : path.getLast? = some 9 := by decide
  have hown : 9 ≠ charted.own := by decide +kernel
  obtain ⟨-, hlearn, hagain, hperm⟩ := learn_takes_minima charted path 2
  obtain ⟨-, -, hhops, hnew, hlisted, -⟩ := hlearn 9 hlast hown
  have hlearned : (charted.learn path 2).2 = [9, 1, 3] := by decide +kernel
  obtain ⟨-, -, d, hd, hroute⟩ := hnew 1 ((hlisted 1).1 (by rw [hlearned]; decide))
  obtain rfl : 3 = d := Option.some.inj hd
  refine ⟨hlast, hown, hlearned, hroute, ?_, hagain 3, hperm _ _ (.swap _ _ _) 1⟩
  rw [hhops 500 (by decide +kernel)]
  decide +kernel

end Learn

end Routes

end RelayMesh
