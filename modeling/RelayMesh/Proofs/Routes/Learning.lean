import RelayMesh.Routes

namespace RelayMesh

namespace Routes

variable {t : Routes} {id other next : Id} {link : LinkId} {k distance : Nat}

/-- A client of the server has this identity. -/
def IsClient (t : Routes) (id : Id) : Prop := ∃ link, t.get? id = some ⟨.client, link⟩

/-- No route leads over the connection. -/
def Unused (t : Routes) (link : LinkId) : Prop := ∀ id r, t.get? id = some r → r.link ≠ link

theorem of_atLink {r : Id × Route} (h : t.atLink link = some r) :
    t.get? r.1 = some r.2 ∧ r.2.link = link := by
  have hmem := List.mem_of_find?_eq_some h
  have hp := List.find?_some h
  simp only [Bool.and_eq_true, decide_eq_true_eq] at hp
  exact ⟨t.entries.mem_toList_iff.1 hmem, hp.2⟩

theorem isSome_atLink {route : Route} (h : t.get? id = some route)
    (hd : route.isNeighbour || route.isClient) : (t.atLink route.link).isSome := by
  unfold atLink
  rw [List.find?_isSome]
  exact ⟨(id, route), t.entries.mem_toList_iff.2 h, by simpa using hd⟩

theorem Unused.atLink (h : t.Unused link) : t.atLink link = none := by
  cases hr : t.atLink link with
  | none => rfl
  | some r => exact absurd (of_atLink hr).2 (h _ _ (of_atLink hr).1)

/-- The server `id` is known to be at most `k` hops away. -/
def Within (t : Routes) (id : Id) (k : Nat) : Prop :=
  ∃ hops next link, t.get? id = some ⟨.server hops next, link⟩ ∧ hops ≤ k

theorem Within.mono {k' : Nat} (h : t.Within id k) (hk : k ≤ k') : t.Within id k' := by
  obtain ⟨hops, next, link, hget, hle⟩ := h
  exact ⟨hops, next, link, hget, Nat.le_trans hle hk⟩

/-- Places on a path are counted from its end. -/
theorem lt_length_of_place {path : List Id} {i : Nat} (h : path.reverse[i]? = some id) :
    i < path.length := by
  have hlt := (List.getElem?_eq_some_iff.1 h).1
  rwa [List.length_reverse] at hlt

theorem within_of_not_improves (hno : ¬ t.IsClient id) (h : ¬ t.improves id k) : t.Within id k := by
  unfold improves at h
  cases hget : t.get? id with
  | none => simp [hget] at h
  | some route =>
    obtain ⟨reach, edge⟩ := route
    cases reach with
    | client => exact absurd ⟨edge, hget⟩ hno
    | server hops via =>
      simp only [hget, Route.isLongerThan, decide_eq_true_eq, Nat.not_lt] at h
      exact ⟨hops, via, edge, hget, h⟩

theorem not_isClient_of_improves (h : t.improves id k) : ¬ t.IsClient id := by
  rintro ⟨edge, hget⟩
  simp [improves, hget, Route.isLongerThan] at h

/-- What one server of a path changes: its own route, if the path makes it shorter. -/
def meet (next : Id) (link : LinkId) (t : Routes) (distance : Nat) (id : Id) : Routes :=
  if id ≠ t.own ∧ t.improves id (min distance maxHops) then
    t.set id ⟨.server (min distance maxHops) next, link⟩
  else t

theorem learnFrom_cons (next : Id) (link : LinkId) (t : Routes) (distance : Nat) (id : Id)
    (rest : List Id) : (learnFrom next link t distance (id :: rest)).1 =
      (learnFrom next link (meet next link t distance id) (distance + 1) rest).1 := by
  rw [learnFrom, meet]
  split <;> rfl

@[simp] theorem own_meet : (meet next link t distance id).own = t.own := by
  unfold meet
  split <;> simp

theorem not_within_of_improves (h : t.improves id k) : ¬ t.Within id k := by
  rintro ⟨hops, next, link, hget, hle⟩
  simp [improves, hget, Route.isLongerThan] at h
  omega

theorem get?_meet (next : Id) (link : LinkId) (t : Routes) (distance : Nat) (id other : Id) :
    (meet next link t distance id).get? other = t.get? other ∨
      other = id ∧ other ≠ t.own ∧ ¬ t.IsClient other ∧ ¬ t.Within other (min distance maxHops) ∧
        (meet next link t distance id).get? other =
          some ⟨.server (min distance maxHops) next, link⟩ := by
  unfold meet
  split
  next h =>
    by_cases ho : other = id
    · subst ho
      exact .inr ⟨rfl, h.1, not_isClient_of_improves h.2, not_within_of_improves h.2,
        by rw [get?_set, if_pos ⟨rfl, h.1⟩]⟩
    · exact .inl (by rw [get?_set, if_neg fun h => ho h.1])
  next => exact .inl rfl

theorem isClient_meet : (meet next link t distance id).IsClient other ↔ t.IsClient other := by
  unfold IsClient
  rcases get?_meet next link t distance id other with h | ⟨-, -, hno, -, h⟩
  · rw [h]
  · rw [h]
    constructor
    · rintro ⟨edge, hget⟩
      simp at hget
    · exact fun hc => absurd hc hno

theorem within_meet (hne : id ≠ t.own) (hno : ¬ t.IsClient id) :
    (meet next link t distance id).Within id distance := by
  unfold meet
  split
  next h =>
    exact ⟨_, next, link, by rw [get?_set, if_pos ⟨rfl, hne⟩], Nat.min_le_left _ _⟩
  next h =>
    have hlong : ¬ t.improves id (min distance maxHops) := fun hi => h ⟨hne, hi⟩
    exact (within_of_not_improves hno hlong).mono (Nat.min_le_left _ _)

/-- A shorter route in place of a longer one takes nobody out of reach. -/
theorem Within.meet (h : t.Within other k) : (meet next link t distance id).Within other k := by
  unfold Routes.meet
  split
  next hi =>
    obtain ⟨hops, via, edge, hget, hle⟩ := h
    by_cases ho : other = id
    · subst ho
      have hlt : min distance maxHops < hops := by
        simpa [improves, hget, Route.isLongerThan] using hi.2
      exact ⟨_, next, link, by rw [get?_set, if_pos ⟨rfl, hi.1⟩], by omega⟩
    · exact ⟨hops, via, edge, by rw [get?_set, if_neg fun h => ho h.1, hget], hle⟩
  next => exact h

theorem Within.learnFrom (h : t.Within other k) (path : List Id) :
    (learnFrom next link t distance path).1.Within other k := by
  induction path generalizing t distance with
  | nil => exact h
  | cons id rest ih =>
    rw [learnFrom_cons]
    exact ih h.meet

/-- No route gets longer by a path. -/
theorem Within.learn (h : t.Within other k) (path : List Id) (link : LinkId) :
    (t.learn path link).1.Within other k := by
  unfold Routes.learn
  split
  · exact h
  · split
    · exact h
    · exact h.learnFrom _

theorem isClient_learnFrom {path : List Id} :
    (learnFrom next link t distance path).1.IsClient other ↔ t.IsClient other := by
  induction path generalizing t distance with
  | nil => rfl
  | cons id rest ih => rw [learnFrom_cons, ih, isClient_meet]

theorem get?_learnFrom (next : Id) (link : LinkId) (t : Routes) (distance : Nat) (path : List Id)
    (other : Id) : (learnFrom next link t distance path).1.get? other = t.get? other ∨
      other ≠ t.own ∧ ¬ t.IsClient other ∧ ∃ i, path[i]? = some other ∧
        ¬ t.Within other (min (distance + i) maxHops) ∧
          (learnFrom next link t distance path).1.get? other =
            some ⟨.server (min (distance + i) maxHops) next, link⟩ := by
  induction path generalizing t distance with
  | nil => exact .inl rfl
  | cons id rest ih =>
    rw [learnFrom_cons]
    rcases ih (meet next link t distance id) (distance + 1) with
      hrest | ⟨hne, hno, i, hi, hlong, hrest⟩
    · rw [hrest]
      rcases get?_meet next link t distance id other with hold | ⟨rfl, hne, hno, hlong, hnew⟩
      · exact .inl hold
      · exact .inr ⟨hne, hno, 0, rfl, hlong, hnew⟩
    · rw [own_meet] at hne
      rw [isClient_meet] at hno
      rw [show distance + 1 + i = distance + (i + 1) by omega] at hrest hlong
      exact .inr ⟨hne, hno, i + 1, hi, fun hw => hlong hw.meet, hrest⟩

theorem within_learnFrom {path : List Id} {i : Nat} (hi : path[i]? = some other)
    (hne : other ≠ t.own) (hno : ¬ t.IsClient other) :
    (learnFrom next link t distance path).1.Within other (distance + i) := by
  induction path generalizing t distance i with
  | nil => simp at hi
  | cons id rest ih =>
    rw [learnFrom_cons]
    cases i with
    | zero =>
      obtain rfl : id = other := by simpa using hi
      exact (within_meet hne hno).learnFrom rest
    | succ i =>
      have hno' : ¬ (meet next link t distance id).IsClient other := by rwa [isClient_meet]
      rw [show distance + (i + 1) = distance + 1 + i by omega]
      exact ih (by simpa using hi) (by simpa using hne) hno'

/-- Nothing is learned from a path, or somebody on it is nearer than was known. -/
theorem learnFrom_cases (next : Id) (link : LinkId) (t : Routes) (distance : Nat) (path : List Id) :
    learnFrom next link t distance path = (t, []) ∨ ∃ i other, path[i]? = some other ∧
      ¬ t.Within other (min (distance + i) maxHops) ∧
        (learnFrom next link t distance path).1.Within other (min (distance + i) maxHops) := by
  induction path generalizing distance with
  | nil => exact .inl rfl
  | cons id rest ih =>
    by_cases h : id ≠ t.own ∧ t.improves id (min distance maxHops)
    · refine .inr ⟨0, id, rfl, not_within_of_improves h.2, ?_⟩
      rw [learnFrom_cons, meet, if_pos h]
      refine Within.learnFrom ⟨_, next, link, ?_, Nat.le_refl _⟩ rest
      rw [get?_set, if_pos ⟨rfl, h.1⟩]
      rfl
    · have hrest : learnFrom next link t distance (id :: rest) =
          learnFrom next link t (distance + 1) rest := by rw [learnFrom, if_neg h]
      rw [hrest]
      refine (ih (distance + 1)).imp_right ?_
      rintro ⟨i, other, hi, hlong, hnear⟩
      rw [show distance + 1 + i = distance + (i + 1) by omega] at hlong hnear
      exact ⟨i + 1, other, hi, hlong, hnear⟩

/-- Every server with another route than before is listed. -/
theorem mem_learnFrom (next : Id) (link : LinkId) (t : Routes) (distance : Nat) (path : List Id)
    (other : Id) : (learnFrom next link t distance path).1.get? other = t.get? other ∨
      other ∈ (learnFrom next link t distance path).2 := by
  induction path generalizing t distance with
  | nil => exact .inl rfl
  | cons id rest ih =>
    rw [learnFrom]
    split
    next h =>
      by_cases ho : other = id
      · exact .inr (ho ▸ List.mem_cons_self)
      · refine (ih (t.set id _) (distance + 1)).imp (fun hsame => ?_) fun hmem =>
          List.mem_cons_of_mem id hmem
        rw [get?_set, if_neg fun he => ho he.1] at hsame
        exact hsame
    next => exact ih t (distance + 1)

@[simp] theorem lastChat_set (t : Routes) (id : Id) (route : Route) :
    (t.set id route).lastChat = t.lastChat := by
  unfold set
  split <;> rfl

@[simp] theorem lastChat_learnFrom (path : List Id) :
    (learnFrom next link t distance path).1.lastChat = t.lastChat := by
  induction path generalizing t distance with
  | nil => rfl
  | cons id rest ih =>
    simp only [learnFrom]
    split
    · simp [ih]
    · exact ih

theorem lastChat_learn (t : Routes) (path : List Id) (link : LinkId) :
    (t.learn path link).1.lastChat = t.lastChat := by
  unfold learn
  split
  · rfl
  · split <;> simp

@[simp] theorem own_learn (t : Routes) (path : List Id) (link : LinkId) :
    (t.learn path link).1.own = t.own := by
  unfold learn
  split
  · rfl
  · split <;> simp

@[simp] theorem isClient_learn {path : List Id} :
    (t.learn path link).1.IsClient other ↔ t.IsClient other := by
  unfold learn
  split
  · rfl
  · split
    · rfl
    · exact isClient_learnFrom

/-- A route is as before, or it is shorter than before, leads over the connection to the last server
of the path and counts the place of its destination from the end. -/
theorem get?_learn (t : Routes) (path : List Id) (link : LinkId) (other : Id) :
    (t.learn path link).1.get? other = t.get? other ∨
      other ≠ t.own ∧ ¬ t.IsClient other ∧ ∃ next i, path.getLast? = some next ∧
        path.reverse[i]? = some other ∧ ¬ t.Within other (min (i + 1) maxHops) ∧
          (t.learn path link).1.get? other = some ⟨.server (min (i + 1) maxHops) next, link⟩ := by
  unfold learn
  cases hlast : path.getLast? with
  | none => exact .inl rfl
  | some next =>
    by_cases hown : next = t.own
    · exact .inl (by simp [hown])
    · simp only [if_neg hown]
      rcases get?_learnFrom next link t 1 path.reverse other with
        h | ⟨hne, hno, i, hi, hlong, h⟩
      · exact .inl h
      · rw [Nat.add_comm] at h hlong
        exact .inr ⟨hne, hno, next, i, rfl, hi, hlong, h⟩

theorem mem_learn (t : Routes) (path : List Id) (link : LinkId) (other : Id) :
    (t.learn path link).1.get? other = t.get? other ∨ other ∈ (t.learn path link).2 := by
  unfold learn
  cases path.getLast? with
  | none => exact .inl rfl
  | some next =>
    by_cases hown : next = t.own
    · exact .inl (by simp [hown])
    · simp only [if_neg hown]
      exact mem_learnFrom next link t 1 path.reverse other

/-- Every server of a path is within reach afterwards, as far as its place is from the end. -/
theorem within_learn {path : List Id} (hlast : path.getLast? = some next) (hown : next ≠ t.own)
    {i : Nat} (hi : path.reverse[i]? = some other) (hne : other ≠ t.own)
    (hno : ¬ t.IsClient other) (link : LinkId) : (t.learn path link).1.Within other (i + 1) := by
  unfold learn
  simp only [hlast, if_neg hown]
  rw [Nat.add_comm]
  exact within_learnFrom hi hne hno

theorem learn_cases (t : Routes) (path : List Id) (link : LinkId) :
    t.learn path link = (t, []) ∨ ∃ i other, path.reverse[i]? = some other ∧
      ¬ t.Within other (min (i + 1) maxHops) ∧
        (t.learn path link).1.Within other (min (i + 1) maxHops) := by
  unfold learn
  cases path.getLast? with
  | none => exact .inl rfl
  | some next =>
    by_cases hown : next = t.own
    · exact .inl (if_pos hown)
    · simp only [if_neg hown, Nat.add_comm _ 1]
      exact learnFrom_cases next link t 1 path.reverse

end Routes

end RelayMesh
