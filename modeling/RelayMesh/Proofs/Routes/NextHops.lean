import Mathlib.Logic.Basic
import RelayMesh.Proofs.Routes.Learning

namespace RelayMesh

theorem Route.hops_eq_neg_one_iff (r : Route) : r.hops = -1 ↔ r.next? = none := by
  obtain ⟨reach, link⟩ := r
  cases reach <;> simp [Route.hops, Route.next?]

/-- Neighbours and clients are told by their hop counts. -/
theorem Route.direct_iff {r : Route} :
    (r.isNeighbour || r.isClient) = true ↔ r.hops = 1 ∨ r.hops = -1 := by
  obtain ⟨reach, link⟩ := r
  cases reach with
  | client => simp [Route.isNeighbour, Route.isClient, Route.hops]
  | server hops next =>
    simp only [Route.isNeighbour, Route.isClient, Route.hops, Bool.or_eq_true, decide_eq_true_eq,
      reduceCtorEq, or_false]
    omega

namespace Routes

/-- What happens to the routes of a server. -/
inductive Change
  | neighbour (id : Id) (link : LinkId)
  | client (id : Id) (link : LinkId)
  /-- A path is read that came over the connection. -/
  | path (path : List Id) (link : LinkId)
  /-- The connection is lost. -/
  | loss (link : LinkId)
deriving DecidableEq

def change (t : Routes) : Change → Routes
  | .neighbour id link => t.addNeighbour id link
  | .client id link => t.addClient id link
  | .path path link => (t.learn path link).1
  | .loss link => (t.removeLink link).1

def changeAll (t : Routes) (changes : List Change) : Routes := changes.foldl change t

/-- The entity is a neighbour or a client. -/
def Direct (t : Routes) (id : Id) : Prop :=
  ∃ route ∈ t.get? id, (route.isNeighbour || route.isClient) = true

/-- Only newcomers register, and over a new connection. The last server of a path is the neighbour
at the other end of the connection that it came over. -/
def Permits (t : Routes) : Change → Prop
  | .neighbour id link => t.Unused link ∧ ¬ t.Direct id
  | .client id link => t.Unused link ∧ ¬ t.Direct id
  | .path path link => ∃ next ∈ path.getLast?, ∃ route ∈ t.get? next,
      route.isNeighbour = true ∧ route.link = link
  | .loss _ => True

/-- Every change is one that is permitted when it happens. -/
def PermitsAll (t : Routes) : List Change → Prop
  | [] => True
  | c :: changes => t.Permits c ∧ (t.change c).PermitsAll changes

/-- Every route leads somewhere: the next hop is a neighbour, and its connection is the one that the
route goes over. No two entities share a connection. -/
structure Usable (t : Routes) : Prop where
  own : t.get? t.own = none
  nearest : ∀ id hops next link, t.get? id = some ⟨.server hops next, link⟩ → (hops = 1 ↔ next = id)
  onward : ∀ id hops next link, t.get? id = some ⟨.server hops next, link⟩ →
    t.get? next = some ⟨.server 1 next, link⟩
  single : ∀ id id' r r', t.get? id = some r → t.get? id' = some r' →
    (r.isNeighbour || r.isClient) = true → (r'.isNeighbour || r'.isClient) = true →
      r.link = r'.link → id = id'

section Decidable

theorem unused_iff {t : Routes} {link : LinkId} :
    t.Unused link ↔ ∀ b ∈ t.entries.toList, b.2.link ≠ link :=
  ⟨fun h b hb => h b.1 b.2 (t.entries.mem_toList_iff.1 hb),
    fun h id r hget => h (id, r) (t.entries.mem_toList_iff.2 hget)⟩

instance (t : Routes) (link : LinkId) : Decidable (t.Unused link) := decidable_of_iff' _ unused_iff

instance (t : Routes) (id : Id) : Decidable (t.Direct id) :=
  inferInstanceAs (Decidable (∃ route ∈ t.get? id, (route.isNeighbour || route.isClient) = true))

instance (t : Routes) : DecidablePred t.Permits
  | .neighbour id link => inferInstanceAs (Decidable (t.Unused link ∧ ¬ t.Direct id))
  | .client id link => inferInstanceAs (Decidable (t.Unused link ∧ ¬ t.Direct id))
  | .path path link => inferInstanceAs (Decidable (∃ next ∈ path.getLast?, ∃ route ∈ t.get? next,
      route.isNeighbour = true ∧ route.link = link))
  | .loss _ => .isTrue trivial

instance PermitsAll.decidable : ∀ (t : Routes) (changes : List Change), Decidable (t.PermitsAll changes)
  | _, [] => .isTrue trivial
  | t, c :: changes =>
    have := PermitsAll.decidable (t.change c) changes
    inferInstanceAs (Decidable (_ ∧ _))

end Decidable

variable {t : Routes} {id next : Id} {link : LinkId} {path : List Id} {changes : List Change}

@[simp] theorem own_changeAll (t : Routes) (changes : List Change) :
    (t.changeAll changes).own = t.own := by
  have each (t : Routes) (c : Change) : (t.change c).own = t.own := by
    cases c with
    | path path link => exact own_learn t path link
    | loss link => rfl
    | _ => exact own_set t _ _
  unfold changeAll
  induction changes generalizing t with
  | nil => rfl
  | cons c changes ih => rw [List.foldl_cons, ih, each]

section Removal

theorem get?_removeLink (t : Routes) (link : LinkId) (id : Id) :
    (t.removeLink link).1.get? id = (t.get? id).filter fun r => r.link ≠ link := by
  simp only [removeLink, get?, SortedMap.get?_filter]

theorem get?_removeLink_eq_some {r : Route} : (t.removeLink link).1.get? id = some r ↔
    t.get? id = some r ∧ r.link ≠ link := by
  rw [get?_removeLink, Option.filter_eq_some_iff, decide_eq_true_eq]

/-- What is lost is listed. -/
theorem mem_removeLink : id ∈ (t.removeLink link).2 ↔ ∃ r, t.get? id = some r ∧ r.link = link := by
  unfold removeLink
  constructor
  · intro h
    obtain ⟨⟨_, r⟩, hb, rfl⟩ := List.mem_map.1 h
    obtain ⟨hmem, hover⟩ := List.mem_filter.1 hb
    exact ⟨r, t.entries.mem_toList_iff.1 hmem, by simpa using hover⟩
  · rintro ⟨r, hget, hover⟩
    exact List.mem_map.2 ⟨(id, r), List.mem_filter.2
      ⟨t.entries.mem_toList_iff.2 hget, by simpa using hover⟩, rfl⟩

theorem ascending_removeLink (t : Routes) (link : LinkId) :
    (t.removeLink link).2.Pairwise (· < ·) :=
  List.pairwise_map.2 (t.entries.ascending.filter _)

theorem get?_removeLink_eq (t : Routes) (link : LinkId) (id : Id) : (t.removeLink link).1.get? id =
    if id ∈ (t.removeLink link).2 then none else t.get? id := by
  rw [get?_removeLink]
  split
  next h =>
    obtain ⟨r, hget, hover⟩ := mem_removeLink.1 h
    simp [hget, hover]
  next h =>
    cases hget : t.get? id with
    | none => rfl
    | some r =>
      have hover : r.link ≠ link := fun hover => h (mem_removeLink.2 ⟨r, hget, hover⟩)
      simp [hover]

theorem unused_removeLink (t : Routes) (link : LinkId) : (t.removeLink link).1.Unused link :=
  fun _ _ hget => (get?_removeLink_eq_some.1 hget).2

end Removal

namespace Usable

theorem direct (h : t.Usable) {hops : Nat} (hget : t.get? id = some ⟨.server hops next, link⟩) :
    t.Direct next :=
  ⟨_, h.onward id hops next link hget, rfl⟩

/-- A newcomer is the next hop of nobody but itself, and it is alone on its connection. -/
theorem register (h : t.Usable) (hunused : t.Unused link) (hnew : ¬ t.Direct id) {reach : Reach}
    (hreach : reach = .client ∨ reach = .server 1 id) : (t.set id ⟨reach, link⟩).Usable := by
  have hcases {other : Id} {r : Route} (hget : (t.set id ⟨reach, link⟩).get? other = some r) :
      other = id ∧ r = ⟨reach, link⟩ ∨ other ≠ id ∧ t.get? other = some r := by
    rw [get?_set] at hget
    split at hget
    next hs => exact .inl ⟨hs.1, (Option.some.inj hget).symm⟩
    next hs =>
      refine .inr ⟨?_, hget⟩
      rintro rfl
      rw [not_and_not_right.1 hs rfl, h.own] at hget
      cases hget
  constructor
  · rw [own_set, get?_set, if_neg fun hs => hs.2 hs.1.symm, h.own]
  · intro other hops next edge hget
    rcases hcases hget with ⟨rfl, hr⟩ | ⟨-, hold⟩
    · rcases hreach with rfl | rfl <;> cases hr
      exact iff_of_true rfl rfl
    · exact h.nearest other hops next edge hold
  · intro other hops next edge hget
    rcases hcases hget with ⟨rfl, hr⟩ | ⟨-, hold⟩
    · rcases hreach with rfl | rfl <;> cases hr
      exact hget
    · have hne : next ≠ id := fun he => hnew (he ▸ h.direct hold)
      rw [get?_set, if_neg fun hs => hne hs.1]
      exact h.onward other hops next edge hold
  · intro a b r r' ha hb hr hr' hlink
    rcases hcases ha with ⟨hida, rfl⟩ | ⟨-, holda⟩ <;> rcases hcases hb with ⟨hidb, rfl⟩ | ⟨-, holdb⟩
    · rw [hida, hidb]
    · exact absurd hlink.symm (hunused b r' holdb)
    · exact absurd hlink (hunused a r holda)
    · exact h.single a b r r' holda holdb hr hr' hlink

/-- By the path that a neighbour passes on, no neighbour gets another route, and nobody becomes one. -/
theorem learn (h : t.Usable) (hlast : path.getLast? = some next)
    (hnext : t.get? next = some ⟨.server 1 next, link⟩) : (t.learn path link).1.Usable := by
  -- no path shows fewer hops than the one to a neighbour
  have hkept {n : Id} {edge : LinkId} (hget : t.get? n = some ⟨.server 1 n, edge⟩) :
      (t.learn path link).1.get? n = some ⟨.server 1 n, edge⟩ := by
    rcases get?_learn t path link n with hsame | ⟨-, -, _, i, -, -, hlong, -⟩
    · rw [hsame, hget]
    · refine absurd ⟨1, n, edge, hget, ?_⟩ hlong
      unfold maxHops
      omega
  -- who gets another route stands behind the neighbour on the path
  have hcases {other : Id} {r : Route} (hget : (t.learn path link).1.get? other = some r) :
      t.get? other = some r ∨
        ∃ hops, 1 < hops ∧ other ≠ next ∧ r = ⟨.server hops next, link⟩ := by
    rcases get?_learn t path link other with hsame | ⟨-, -, last, i, hl, hi, hlong, hr⟩
    · exact .inl (hsame ▸ hget)
    · obtain rfl : next = last := Option.some.inj (hlast.symm.trans hl)
      have hne : other ≠ next := by
        rintro rfl
        refine absurd ⟨1, other, link, hnext, ?_⟩ hlong
        unfold maxHops
        omega
      have hplace : i ≠ 0 := by
        rintro rfl
        rw [← List.head?_eq_getElem?, List.head?_reverse, hlast] at hi
        exact hne (Option.some.inj hi).symm
      refine .inr ⟨_, ?_, hne, Option.some.inj (hget.symm.trans hr)⟩
      unfold maxHops
      omega
  have hdirect {other : Id} {r : Route} (hget : (t.learn path link).1.get? other = some r)
      (hr : (r.isNeighbour || r.isClient) = true) : t.get? other = some r := by
    refine (hcases hget).resolve_right ?_
    rintro ⟨hops, hfar, -, rfl⟩
    obtain rfl : hops = 1 := by simpa [Route.isNeighbour, Route.isClient] using hr
    exact Nat.lt_irrefl 1 hfar
  constructor
  · rcases get?_learn t path link t.own with hsame | ⟨hne, -⟩
    · rw [own_learn, hsame, h.own]
    · exact absurd rfl hne
  · intro other hops via edge hget
    rcases hcases hget with hold | ⟨hops', hfar, hne, hr⟩
    · exact h.nearest other hops via edge hold
    · cases hr
      exact iff_of_false (Nat.ne_of_gt hfar) hne.symm
  · intro other hops via edge hget
    rcases hcases hget with hold | ⟨hops', -, -, hr⟩
    · exact hkept (h.onward other hops via edge hold)
    · cases hr
      exact hkept hnext
  · intro a b r r' ha hb hr hr' hlink
    exact h.single a b r r' (hdirect ha hr) (hdirect hb hr') hr hr' hlink

/-- The next hop goes with everything that it is the next hop of. -/
theorem removeLink (h : t.Usable) (link : LinkId) : (t.removeLink link).1.Usable where
  own := by
    show (t.removeLink link).1.get? t.own = none
    rw [get?_removeLink, h.own]
    rfl
  nearest other hops via edge hget :=
    h.nearest other hops via edge (get?_removeLink_eq_some.1 hget).1
  onward other hops via edge hget := by
    obtain ⟨hold, hover⟩ := get?_removeLink_eq_some.1 hget
    exact get?_removeLink_eq_some.2 ⟨h.onward other hops via edge hold, hover⟩
  single a b r r' ha hb := h.single a b r r' (get?_removeLink_eq_some.1 ha).1
    (get?_removeLink_eq_some.1 hb).1

theorem change (h : t.Usable) {c : Change} (hc : t.Permits c) : (t.change c).Usable := by
  cases c with
  | neighbour id link => exact h.register hc.1 hc.2 (.inr rfl)
  | client id link => exact h.register hc.1 hc.2 (.inl rfl)
  | path path link =>
    obtain ⟨next, hlast, ⟨reach, edge⟩, hget, hnear, rfl⟩ := hc
    cases reach with
    | client => cases hnear
    | server hops via =>
      obtain rfl : hops = 1 := by simpa [Route.isNeighbour] using hnear
      obtain rfl := (h.nearest next 1 via edge hget).1 rfl
      exact h.learn hlast hget
  | loss link => exact h.removeLink link

theorem changeAll (h : t.Usable) (hc : t.PermitsAll changes) : (t.changeAll changes).Usable := by
  induction changes generalizing t with
  | nil => exact h
  | cons c changes ih => exact ih (h.change hc.1) hc.2

/-- Whoever is reached directly is the one who is found at the connection. -/
theorem atLink (h : t.Usable) {r : Route} (hget : t.get? id = some r)
    (hr : (r.isNeighbour || r.isClient) = true) : t.atLink r.link = some (id, r) := by
  obtain ⟨⟨id', r'⟩, hfound⟩ := Option.isSome_iff_exists.1 (isSome_atLink hget hr)
  obtain ⟨hget', hlink⟩ := of_atLink hfound
  have hr' := List.find?_some hfound
  simp only [Bool.and_eq_true] at hr'
  obtain rfl := h.single id id' r r' hget hget' hr hr'.1 hlink.symm
  obtain rfl : r = r' := Option.some.inj (hget.symm.trans hget')
  exact hfound

end Usable

theorem usable_new (own : Id) : ({ own } : Routes).Usable where
  own := rfl
  nearest _ _ _ _ hget := by cases hget
  onward _ _ _ _ hget := by cases hget
  single _ _ _ _ hget := by cases hget

/-- In whatever order entities register, paths come from neighbours and connections are lost: there is
no route to the server itself, clients are those without a next hop and neighbours those who are their
own, and every next hop is a neighbour on the same connection. With a connection just that is lost, and
listed, which leads over it. -/
theorem next_hops_usable {own : Id} (h : ({ own } : Routes).PermitsAll changes) :
    let t := ({ own } : Routes).changeAll changes
    t.get? own = none ∧
    (∀ id route, t.get? id = some route →
      (route.hops = -1 ↔ route.next? = none) ∧ (route.hops = 1 ↔ route.next? = some id) ∧
      (route.hops = 1 ∨ route.hops = -1 → t.atLink route.link = some (id, route)) ∧
      ∀ next ∈ route.next?, ∃ direct, t.get? next = some direct ∧ direct.hops = 1 ∧
        direct.link = route.link) ∧
    ∀ (any : Routes) (link : LinkId),
      let rest := (any.removeLink link).1
      let lost := (any.removeLink link).2
      lost.Pairwise (· < ·) ∧ (∀ id, id ∈ lost ↔ ∃ r, any.get? id = some r ∧ r.link = link) ∧
        (∀ id, rest.get? id = if id ∈ lost then none else any.get? id) ∧
        rest.own = any.own ∧ rest.lastChat = any.lastChat ∧ rest.atLink link = none := by
  intro t
  have husable : t.Usable := (usable_new own).changeAll h
  have hown : t.own = own := own_changeAll _ _
  refine ⟨?_, fun id route hget => ⟨route.hops_eq_neg_one_iff, ?_, fun hr => ?_, ?_⟩, ?_⟩
  · rw [← hown]
    exact husable.own
  · obtain ⟨reach, link⟩ := route
    cases reach with
    | client => simp [Route.hops, Route.next?]
    | server hops next =>
      have hnearest := husable.nearest id hops next link hget
      simp only [Route.hops, Route.next?, Option.some.injEq, ← hnearest]
      omega
  · exact husable.atLink hget (Route.direct_iff.2 hr)
  · obtain ⟨reach, link⟩ := route
    cases reach with
    | client => exact fun next hnext => by cases hnext
    | server hops next =>
      rintro _ ⟨⟩
      exact ⟨_, husable.onward id hops next link hget, rfl, rfl⟩
  · intro any link
    exact ⟨ascending_removeLink any link, fun _ => mem_removeLink, get?_removeLink_eq any link, rfl, rfl,
      (unused_removeLink any link).atLink⟩

/-- Server 4 is found by way of 2, registers itself and stays when 2 is lost; then it is the next hop
to 2, until 2 comes back. -/
def losses : List Change :=
  [.neighbour 2 0, .client 100 1, .path [5, 4, 2] 0, .neighbour 4 2, .path [5, 4] 2, .loss 0,
    .path [2, 1, 100, 4] 2, .neighbour 2 3, .path [6, 2] 3]

theorem next_hops_usable_losses :
    let t := ({ own := 1 } : Routes).changeAll losses
    ({ own := 1 } : Routes).PermitsAll losses ∧ t.get? 1 = none ∧
      t.get? 5 = some ⟨.server 2 4, 2⟩ ∧
      (∃ direct, t.get? 4 = some direct ∧ direct.hops = 1 ∧ direct.link = 2) ∧
      t.atLink 3 = some (2, ⟨.server 1 2, 3⟩) ∧ (t.removeLink 2).2 = [4, 5] ∧
      (t.removeLink 2).1.atLink 2 = none := by
  intro t
  have hpermits : ({ own := 1 } : Routes).PermitsAll losses := by decide +kernel
  obtain ⟨hown, hroutes, hlost⟩ := next_hops_usable hpermits
  have hfive : t.get? 5 = some ⟨.server 2 4, 2⟩ := by decide +kernel
  have htwo : t.get? 2 = some ⟨.server 1 2, 3⟩ := by decide +kernel
  obtain ⟨-, -, -, hnext⟩ := hroutes 5 _ hfive
  obtain ⟨-, -, hfound, -⟩ := hroutes 2 _ htwo
  obtain ⟨-, -, -, -, -, hnone⟩ := hlost t 2
  exact ⟨hpermits, hown, hfive, hnext 4 rfl, hfound (.inl rfl), by decide +kernel, hnone⟩

end Routes

end RelayMesh
