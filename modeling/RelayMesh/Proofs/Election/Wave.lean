import RelayMesh.Proofs.Election.Steps
import Mathlib.Data.List.Count

namespace RelayMesh

namespace Election

/-- The neighbour whose token of the wave of `x` came first. -/
def upstream (inbox : List Packet) (x : Id) : Option Id :=
  (inbox.find? fun p => p.msg.content = .electionToken x).map (·.source)

/-- A packet of the election. -/
def Canonical (p : Packet) : Prop :=
  (∃ x, p = token p.source p.target x) ∨ ∃ z, p = announcement p.source p.target z

theorem Canonical.eq_token {p : Packet} {x : Id} (h : Canonical p)
    (hc : p.msg.content = .electionToken x) : p = token p.source p.target x := by
  obtain ⟨y, hy⟩ | ⟨z, hz⟩ := h
  · rw [hy, content_token, Content.electionToken.injEq] at hc
    exact hc ▸ hy
  · rw [hz] at hc
    simp at hc

/-- What server `w` has got are packets of the election for it. -/
def Proper (w : Id) (inbox : List Packet) : Prop := ∀ p ∈ inbox, p.target = w ∧ Canonical p

/-- The part of server `w` in the wave of `x`. It sends tokens when it joins, to all neighbours but
the one that the wave came from, and to that one when all of them have answered. -/
structure Part (T : Topology) (w : Id) (e : Election) (inbox sent : List Packet) (x : Id) :
    Prop where
  bound : ∀ v, token w v x ∈ sent → e.isOutbid x = true
  met : ∀ v, token v w x ∈ inbox → e.isOutbid x = true
  source : ∀ v, token w v x ∈ sent → x ≠ w → (upstream inbox x).isSome
  floods : ∀ v, token w v x ∈ sent → ∀ v', T.Linked w v' → x = w ∨ upstream inbox x ≠ some v' →
    token w v' x ∈ sent
  echo : ∀ u, token w u x ∈ sent → x ≠ w → upstream inbox x = some u →
    ∀ v, T.Linked w v → token v w x ∈ inbox

/-- What server `w` remembers of the wave of `x` that it takes part in. -/
structure Current (T : Topology) (w : Id) (e : Election) (inbox sent : List Packet) (x : Id) :
    Prop where
  joined : ∃ v, token w v x ∈ sent
  parent : e.parent = if x = w then none else upstream inbox x
  count : e.tokenEchoes = (T.neighbours w).countP (token · w x ∈ inbox)
  announces : e.tokenEchoes = T.degree w → x = w → ∀ v, T.Linked w v → announcement w v w ∈ sent
  answers : e.tokenEchoes = T.degree w → x ≠ w → ∀ u, upstream inbox x = some u →
    token w u x ∈ sent

structure Waves (T : Topology) (w : Id) (e : Election) (inbox sent : List Packet) : Prop where
  own : e.own = w
  part : ∀ x, Part T w e inbox sent x
  current : ∀ x, e.candidate = some x → Current T w e inbox sent x
  announced : ∀ v, announcement w v w ∈ sent → ∀ u, T.Linked w u → token u w w ∈ inbox

variable {T : Topology} {w x u v : Id} {e e' : Election} {inbox inbox' sent sent' : List Packet}

theorem waves_start (T : Topology) (w : Id) : Waves T w { own := w } [] [] where
  own := rfl
  part x := ⟨by simp, by simp, by simp, by simp, by simp⟩
  current x h := by simp at h
  announced := by simp

theorem Waves.mem_sent_congr (h : Waves T w e inbox sent)
    (hs : ∀ p, p.source = w → (p ∈ sent' ↔ p ∈ sent)) : Waves T w e inbox sent' where
  own := h.own
  part x := by
    obtain ⟨bound, met, source, floods, echo⟩ := h.part x
    have ht (v : Id) : token w v x ∈ sent' ↔ token w v x ∈ sent := hs _ rfl
    constructor <;> simpa only [ht]
  current x hc := by
    obtain ⟨joined, parent, count, announces, answers⟩ := h.current x hc
    have ht (v : Id) : token w v x ∈ sent' ↔ token w v x ∈ sent := hs _ rfl
    have ha (v : Id) : announcement w v w ∈ sent' ↔ announcement w v w ∈ sent := hs _ rfl
    constructor <;> simpa only [ht, ha]
  announced v ha := h.announced v ((hs _ rfl).1 ha)

theorem upstream_append_of_isSome (h : (upstream inbox x).isSome) (later : List Packet) :
    upstream (inbox ++ later) x = upstream inbox x := by
  unfold upstream at h ⊢
  rw [Option.isSome_map] at h
  obtain ⟨p, hp⟩ := Option.isSome_iff_exists.1 h
  simp [List.find?_append, hp]

theorem upstream_append_of_ne {p : Packet} (hp : p.msg.content ≠ .electionToken x) :
    upstream (inbox ++ [p]) x = upstream inbox x := by
  simp [upstream, List.find?_append, hp]

theorem Proper.upstream_eq_none (hi : Proper w inbox) (h : ∀ v, token v w x ∉ inbox) :
    upstream inbox x = none := by
  rw [upstream, Option.map_eq_none_iff, List.find?_eq_none]
  intro p hp hc
  obtain ⟨rfl, hcanonical⟩ := hi p hp
  exact h p.source (hcanonical.eq_token (of_decide_eq_true hc) ▸ hp)

theorem Proper.mem_of_upstream (hi : Proper w inbox) (h : upstream inbox x = some u) :
    token u w x ∈ inbox := by
  obtain ⟨p, hf, rfl⟩ := Option.map_eq_some_iff.1 h
  have hp := List.mem_of_find?_eq_some hf
  have hc := List.find?_some hf
  obtain ⟨rfl, hcanonical⟩ := hi p hp
  exact hcanonical.eq_token (of_decide_eq_true hc) ▸ hp

theorem Proper.upstream_append_token (hi : Proper w inbox) (h : ∀ v, token v w x ∉ inbox) :
    upstream (inbox ++ [token u w x]) x = some u := by
  have hnone := hi.upstream_eq_none h
  rw [upstream, Option.map_eq_none_iff] at hnone
  simp [upstream, List.find?_append, hnone]

/-- Waves that an event is not about go on as before. -/
theorem Part.keep (h : Part T w e inbox sent x) (ho : e.isOutbid x = true → e'.isOutbid x = true)
    (hs : ∀ v, token w v x ∈ sent' ↔ token w v x ∈ sent)
    (hi : ∀ v, token v w x ∈ inbox' ↔ token v w x ∈ inbox)
    (hu : upstream inbox' x = upstream inbox x) : Part T w e' inbox' sent' x := by
  obtain ⟨bound, met, source, floods, echo⟩ := h
  constructor
  · exact fun v hv => ho (bound v ((hs v).1 hv))
  · exact fun v hv => ho (met v ((hi v).1 hv))
  · simpa only [hs, hu]
  · simpa only [hs, hu]
  · simpa only [hs, hi, hu]

/-- One more token of a wave that the server takes part in or has passed over. -/
theorem Part.hear (h : Part T w e inbox sent x) (ho : e'.isOutbid x = true) (u : Id) :
    Part T w e' (inbox ++ [token u w x]) sent x := by
  have hup (v : Id) (hv : token w v x ∈ sent) (hx : x ≠ w) :
      upstream (inbox ++ [token u w x]) x = upstream inbox x :=
    upstream_append_of_isSome (h.source v hv hx) _
  constructor
  · exact fun _ _ => ho
  · exact fun _ _ => ho
  · intro v hv hx
    rw [hup v hv hx]
    exact h.source v hv hx
  · intro v hv v' hl hc
    by_cases hx : x = w
    · exact h.floods v hv v' hl (.inl hx)
    · rw [hup v hv hx] at hc
      exact h.floods v hv v' hl hc
  · intro u' hu' hx hsome v hl
    rw [hup u' hu' hx] at hsome
    exact List.mem_append_left _ (h.echo u' hu' hx hsome v hl)

/-- A server that takes part in a larger wave or in none has no part in this one yet. -/
theorem Part.untouched (h : Part T w e inbox sent x) (ho : e.isOutbid x = false) :
    (∀ v, token w v x ∉ sent) ∧ ∀ v, token v w x ∉ inbox :=
  ⟨fun v hv => by simp [h.bound v hv] at ho, fun v hv => by simp [h.met v hv] at ho⟩

/-- A server's new wave is smaller than the ones before. -/
theorem isOutbid_of_smaller {y : Id} (ho : e.isOutbid x = false) (he : e'.candidate = some x)
    (hy : e.isOutbid y = true) : e'.isOutbid y = true := by
  obtain ⟨c, hc, hcy⟩ := isOutbid_iff.1 hy
  have hlt := lt_of_not_isOutbid ho hc
  exact isOutbid_trans (isOutbid_of_candidate he) (UInt32.le_trans (UInt32.le_of_lt hlt) hcy)

theorem Waves.start (h : Waves T w e inbox sent) (hd : 0 < T.degree w) (ho : e.isOutbid w = false)
    (he : e'.own = w ∧ e'.candidate = some w ∧ e'.parent = none ∧ e'.tokenEchoes = 0) :
    Waves T w e' inbox (sent ++ (T.neighbours w).map (token w · w)) := by
  obtain ⟨own, hc, hp, hn⟩ := he
  have hnone := (h.part w).untouched ho
  constructor
  case own => exact own
  case part =>
    intro x
    by_cases hx : x = w
    · subst hx
      constructor
      · exact fun _ _ => isOutbid_of_candidate hc
      · exact fun v hv => absurd hv (hnone.2 v)
      · exact fun _ _ hx => absurd rfl hx
      · exact fun _ _ v' hl _ => List.mem_append_right _ (token_mem_map.2 ⟨rfl, hl, rfl⟩)
      · exact fun _ _ hx => absurd rfl hx
    · exact (h.part x).keep (isOutbid_of_smaller ho hc) (fun v => by simp [hx]) (fun _ => Iff.rfl) rfl
  case current =>
    intro x hx
    obtain rfl : x = w := by simpa [hc] using hx.symm
    obtain ⟨v, hl⟩ := Topology.exists_linked_of_degree_pos hd
    have hzero : (T.neighbours x).countP (token · x x ∈ inbox) = 0 :=
      List.countP_eq_zero.2 fun v _ => by simpa using hnone.2 v
    constructor
    · exact ⟨v, List.mem_append_right _ (token_mem_map.2 ⟨rfl, hl, rfl⟩)⟩
    · simp [hp]
    · rw [hn, hzero]
    · intro hfull
      omega
    · exact fun _ hx => absurd rfl hx
  case announced =>
    intro v hv
    exact h.announced v (by simpa using hv)

theorem Waves.pass (h : Waves T w e inbox sent) {c : Id} (hc : e.candidate = some c) (hlt : c < x)
    (u : Id) : Waves T w e (inbox ++ [token u w x]) sent where
  own := h.own
  part y := by
    by_cases hy : y = x
    · subst hy
      exact (h.part y).hear (isOutbid_iff.2 ⟨c, hc, UInt32.le_of_lt hlt⟩) u
    · exact (h.part y).keep id (fun _ => Iff.rfl) (fun v => by simp [hy])
        (upstream_append_of_ne (by simpa using Ne.symm hy))
  current y hy := by
    have hne : y ≠ x := by
      obtain rfl : c = y := by simpa [hc] using hy
      exact UInt32.ne_of_lt hlt
    obtain ⟨joined, parent, count, announces, answers⟩ := h.current y hy
    have hup : upstream (inbox ++ [token u w x]) y = upstream inbox y :=
      upstream_append_of_ne (by simpa using Ne.symm hne)
    exact ⟨joined, by rw [hup]; exact parent, by simp [count, hne], announces,
      by rw [hup]; exact answers⟩
  announced v hv a hl := List.mem_append_left _ (h.announced v hv a hl)

/-- A token that was not heard before is one more answer. -/
theorem countP_heard (hl : T.Linked u w) (hu : token u w x ∉ inbox) :
    (T.neighbours w).countP (token · w x ∈ inbox ++ [token u w x]) =
      (T.neighbours w).countP (token · w x ∈ inbox) + 1 := by
  have hperm := List.perm_cons_erase (Topology.mem_neighbours.2 hl.symm)
  have hrest : ((T.neighbours w).erase u).countP (token · w x ∈ inbox ++ [token u w x]) =
      ((T.neighbours w).erase u).countP (token · w x ∈ inbox) := by
    refine List.countP_congr fun v hv => ?_
    have hne : v ≠ u := fun h => (T.nodup_neighbours w).not_mem_erase (h ▸ hv)
    simp [hne]
  rw [hperm.countP_eq, hperm.countP_eq (token · w x ∈ inbox), List.countP_cons, List.countP_cons,
    hrest]
  simp [hu]

/-- A server that has counted as many answers as it has neighbours has one of each. -/
theorem all_heard (h : (T.neighbours w).countP (token · w x ∈ inbox) = T.degree w) :
    ∀ v, T.Linked w v → token v w x ∈ inbox := fun v hl => by
  simpa using List.countP_eq_length.1 h v (Topology.mem_neighbours.2 hl)

/-- A server that joins tells all neighbours but `u`, and `u` too if it is the only one. -/
theorem token_mem_join {y : Id} (hl : T.Linked w u) :
    token w v y ∈ ((T.neighbours w).filter (· ≠ u)).map (token w · x) ++
      (if T.degree w = 1 then [token w u x] else []) ↔
        y = x ∧ T.Linked w v ∧ (v ≠ u ∨ T.degree w = 1) := by
  have hrest : token w v y ∈ ((T.neighbours w).filter (· ≠ u)).map (token w · x) ↔
      y = x ∧ T.Linked w v ∧ v ≠ u := by
    simp only [List.mem_map, List.mem_filter, Topology.mem_neighbours, token_inj,
      decide_eq_true_eq]
    constructor
    · rintro ⟨a, ⟨hla, hne⟩, -, rfl, rfl⟩
      exact ⟨rfl, hla, hne⟩
    · rintro ⟨rfl, hlv, hne⟩
      exact ⟨v, ⟨hlv, hne⟩, trivial, rfl, rfl⟩
  have hecho : (token w v y ∈ if T.degree w = 1 then [token w u x] else []) ↔
      T.degree w = 1 ∧ v = u ∧ y = x := by
    split <;> simp [*]
  rw [List.mem_append, hrest, hecho]
  constructor
  · rintro (⟨hy, hlv, hne⟩ | ⟨h1, rfl, hy⟩)
    · exact ⟨hy, hlv, .inl hne⟩
    · exact ⟨hy, hl, .inr h1⟩
  · rintro ⟨hy, hlv, hor⟩
    by_cases hv : v = u
    · exact .inr ⟨hor.resolve_left (absurd hv), hv, hy⟩
    · exact .inl ⟨hy, hlv, hv⟩

theorem Waves.join (h : Waves T w e inbox sent) (hi : Proper w inbox) (hl : T.Linked u w)
    (ho : e.isOutbid x = false) (hx : x ≠ w)
    (he : e'.own = w ∧ e'.candidate = some x ∧ e'.parent = some u ∧ e'.tokenEchoes = 1) :
    Waves T w e' (inbox ++ [token u w x])
      (sent ++ (((T.neighbours w).filter (· ≠ u)).map (token w · x) ++
        if T.degree w = 1 then [token w u x] else [])) := by
  obtain ⟨own, hc, hp, hn⟩ := he
  have hnone := (h.part x).untouched ho
  have hup : upstream (inbox ++ [token u w x]) x = some u := hi.upstream_append_token hnone.2
  have hnew (v y : Id) := token_mem_join (v := v) (y := y) (x := x) hl.symm
  have hcount : (T.neighbours w).countP (token · w x ∈ inbox ++ [token u w x]) = 1 := by
    have hzero : (T.neighbours w).countP (token · w x ∈ inbox) = 0 :=
      List.countP_eq_zero.2 fun v _ => by simpa using hnone.2 v
    rw [countP_heard hl (hnone.2 u), hzero]
  constructor
  case own => exact own
  case part =>
    intro y
    by_cases hy : y = x
    · subst hy
      constructor
      · exact fun _ _ => isOutbid_of_candidate hc
      · exact fun _ _ => isOutbid_of_candidate hc
      · exact fun _ _ _ => by simp [hup]
      · intro _ _ v' hl' hne
        refine List.mem_append_right _ ((hnew v' y).2 ⟨rfl, hl', .inl ?_⟩)
        rintro rfl
        exact hne.elim hx fun hne => hne hup
      · intro u' hu' _ hu'' v hv
        obtain rfl : u = u' := by simpa [hup] using hu''
        rcases List.mem_append.1 hu' with hold | hnew'
        · exact absurd hold (hnone.1 u)
        · obtain ⟨-, -, hne | h1⟩ := (hnew u y).1 hnew'
          · exact absurd rfl hne
          · obtain rfl := Topology.eq_of_degree_one h1 hl.symm hv
            exact List.mem_append_right _ (List.mem_singleton_self _)
    · refine (h.part y).keep (isOutbid_of_smaller ho hc) (fun v => ?_) (fun v => by simp [hy])
        (upstream_append_of_ne (by simpa using Ne.symm hy))
      rw [List.mem_append, hnew]
      simp [hy]
  case current =>
    intro y hy
    obtain rfl : y = x := by simpa [hc] using hy.symm
    constructor
    · by_cases h1 : T.degree w = 1
      · exact ⟨u, List.mem_append_right _ ((hnew u y).2 ⟨rfl, hl.symm, .inr h1⟩)⟩
      · obtain ⟨v, hlv, hne⟩ := Topology.exists_ne_of_degree hl.symm h1
        exact ⟨v, List.mem_append_right _ ((hnew v y).2 ⟨rfl, hlv, .inl hne⟩)⟩
    · rw [hp, if_neg hx, hup]
    · rw [hn, hcount]
    · exact fun _ hx' => absurd hx' hx
    · intro hfull _ u' hu'
      obtain rfl : u = u' := by simpa [hup] using hu'
      exact List.mem_append_right _ ((hnew u y).2 ⟨rfl, hl.symm, .inr (hfull ▸ hn ▸ rfl)⟩)
  case announced =>
    intro v hv a hla
    have hold : announcement w v w ∈ sent := by
      rcases List.mem_append.1 hv with hv | hv
      · exact hv
      · split at hv <;> simp at hv
    exact List.mem_append_left _ (h.announced v hold a hla)

/-- A token of the wave that the server takes part in is counted. With the last one of them the
server announces its own wave, or answers to the neighbour that it has the wave from. -/
theorem Waves.count (h : Waves T w e inbox sent) (hi : Proper w inbox) (hl : T.Linked u w)
    (hu : token u w x ∉ inbox) (hc : e.candidate = some x) {new : List Packet}
    (htoken : ∀ v y, token w v y ∈ new ↔ y = x ∧ x ≠ w ∧ e.tokenEchoes + 1 = T.degree w ∧
      upstream inbox x = some v)
    (hann : ∀ v, announcement w v w ∈ new ↔
      x = w ∧ e.tokenEchoes + 1 = T.degree w ∧ T.Linked w v) :
    Waves T w { e with tokenEchoes := e.tokenEchoes + 1 } (inbox ++ [token u w x])
      (sent ++ new) := by
  obtain ⟨⟨v₀, hjoined⟩, parent, count, announces, answers⟩ := h.current x hc
  have hcount := countP_heard hl hu
  have hall (hfull : e.tokenEchoes + 1 = T.degree w) :
      ∀ v, T.Linked w v → token v w x ∈ inbox ++ [token u w x] :=
    all_heard (by rw [hcount, ← count, hfull])
  have hup (hx : x ≠ w) : upstream (inbox ++ [token u w x]) x = upstream inbox x :=
    upstream_append_of_isSome ((h.part x).source v₀ hjoined hx) _
  have hheard : Part T w e (inbox ++ [token u w x]) sent x :=
    (h.part x).hear (isOutbid_of_candidate hc) u
  constructor
  case own => exact h.own
  case part =>
    intro y
    by_cases hy : y = x
    · subst hy
      constructor
      · exact fun _ _ => isOutbid_of_candidate hc
      · exact fun _ _ => isOutbid_of_candidate hc
      · exact fun _ _ => hheard.source v₀ hjoined
      · exact fun _ _ v' hl' hne => List.mem_append_left _ (hheard.floods v₀ hjoined v' hl' hne)
      · intro a ha hx hsome
        rcases List.mem_append.1 ha with ha | ha
        · exact hheard.echo a ha hx hsome
        · exact hall ((htoken a y).1 ha).2.2.1
    · refine (h.part y).keep id (fun v => ?_) (fun v => by simp [hy])
        (upstream_append_of_ne (by simpa using Ne.symm hy))
      rw [List.mem_append, htoken]
      simp [hy]
  case current =>
    intro y hy
    obtain rfl : x = y := by simpa [hc] using hy
    constructor
    · exact ⟨v₀, List.mem_append_left _ hjoined⟩
    · by_cases hx : x = w
      · simpa [hx] using parent
      · simpa [hx, hup hx] using parent
    · rw [hcount, ← count]
    · exact fun hfull hx v hv => List.mem_append_right _ ((hann v).2 ⟨hx, hfull, hv⟩)
    · intro hfull hx a ha
      rw [hup hx] at ha
      exact List.mem_append_right _ ((htoken a x).2 ⟨rfl, hx, hfull, ha⟩)
  case announced =>
    intro v hv a hla
    rcases List.mem_append.1 hv with hv | hv
    · exact List.mem_append_left _ (h.announced v hv a hla)
    · obtain ⟨rfl, hfull, -⟩ := (hann v).1 hv
      exact hall hfull a hla

/-- Announcements leave the waves alone. -/
theorem Waves.lead (h : Waves T w e inbox sent) (u z : Id) {new : List Packet}
    (he : e'.own = e.own ∧ e'.candidate = e.candidate ∧ e'.parent = e.parent ∧
      e'.tokenEchoes = e.tokenEchoes)
    (htoken : ∀ v y, token w v y ∉ new) (hann : ∀ v, announcement w v w ∉ new) :
    Waves T w e' (inbox ++ [announcement u w z]) (sent ++ new) := by
  obtain ⟨own, hc, hp, hn⟩ := he
  have hup (y : Id) : upstream (inbox ++ [announcement u w z]) y = upstream inbox y :=
    upstream_append_of_ne (by simp)
  constructor
  case own => rw [own, h.own]
  case part =>
    exact fun y => (h.part y).keep (fun ho => by simpa [isOutbid, hc] using ho)
      (fun v => by simp [htoken]) (fun v => by simp) (hup y)
  case current =>
    intro y hy
    obtain ⟨joined, parent, count, announces, answers⟩ := h.current y (hc ▸ hy)
    constructor
    · exact joined.imp fun v hv => List.mem_append_left _ hv
    · rw [hp, hup, parent]
    · simpa [hn] using count
    · exact fun hfull hx v hv => List.mem_append_left _ (announces (hn ▸ hfull) hx v hv)
    · rw [hup, hn]
      exact fun hfull hx a ha => List.mem_append_left _ (answers hfull hx a ha)
  case announced =>
    intro v hv a hla
    have hold : announcement w v w ∈ sent := by simpa [hann] using hv
    exact List.mem_append_left _ (h.announced v hold a hla)

theorem Waves.turn (h : Waves T w e inbox sent) (hd : 0 < T.degree w) (hi : Proper w inbox)
    {heard : Option Packet} {new : List Packet} (t : Turn T w e heard e' new)
    (hh : ∀ p ∈ heard, p ∉ inbox ∧ T.Linked p.source w) :
    Waves T w e' (inbox ++ heard.toList) (sent ++ new) := by
  cases t with
  | idle => simpa using h
  | start hw ho =>
    rw [Option.toList_none, List.append_nil]
    exact h.start hd ho ⟨h.own, rfl, rfl, rfl⟩
  | pass u x c hc hlt =>
    rw [List.append_nil]
    exact h.pass hc hlt u
  | join u x ho hx =>
    obtain ⟨-, hl⟩ := hh _ rfl
    exact h.join hi hl ho hx ⟨h.own, rfl, rfl, rfl⟩
  | count u x hc hd =>
    obtain ⟨hu, hl⟩ := hh _ rfl
    exact h.count hi hl hu hc (by simp [hd]) (by simp [hd])
  | echo u x v hc hd hx hp =>
    obtain ⟨hu, hl⟩ := hh _ rfl
    have hup : upstream inbox x = some v := by
      rw [← hp, (h.current x hc).parent, if_neg hx]
    refine h.count hi hl hu hc (fun a y => ?_) (by simp [hx])
    simp [hd, hx, hup, eq_comm, and_comm]
  | announce u hc hd =>
    obtain ⟨hu, hl⟩ := hh _ rfl
    exact h.count hi hl hu hc (by simp) (by simp [hd])
  | lead u z =>
    refine h.lead u z ?_ (fun v y => ?_) (fun v => ?_)
    · unfold onLeader
      dsimp only
      split <;> exact ⟨rfl, rfl, rfl, rfl⟩
    · split <;> simp
    · split
      next hz => simp [Ne.symm hz.2]
      next => simp

end Election

end RelayMesh
