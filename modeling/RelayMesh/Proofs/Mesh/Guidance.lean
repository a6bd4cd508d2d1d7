import RelayMesh.Proofs.Mesh.Causes

namespace RelayMesh

namespace Mesh

/-- The server `a` knows those on the path to be no further than they stand from its end, and so does
each of them about those before it. -/
structure Track (servers : List Id) (m : Mesh) (a : Id) (path : List Id) : Prop where
  subset : path ⊆ servers
  count : ∀ d, path.count d ≤ 2
  between : ∀ i j b d, i < j → path.reverse[i]? = some b → path.reverse[j]? = some d → d ≠ b →
    m.Knows b d (j - i)
  knows : ∀ i d, path.reverse[i]? = some d → d ≠ a → m.Knows a d (i + 1)

/-- The route of `a` to the server `d` has so many hops. -/
def Hops (m : Mesh) (a d : Id) (hops : Nat) : Prop :=
  ∃ st next link, m.station? a = some st ∧
    st.server.routes.get? d = some ⟨.server hops next, link⟩

/-- Every route to `d` leads over a connection to `d` or to a server that is nearer to `d`; if it is
as near, `age` tells which of the two routes is the older one. -/
def Guided (m : Mesh) (d : Id) (age : Id → Nat) : Prop :=
  ∀ s st hops next link, m.station? s = some st →
    st.server.routes.get? d = some ⟨.server hops next, link⟩ →
      ∃ line ∈ st.lines, line.link = link ∧ ∃ via, line.peer = some via ∧
        (via = d ∨ ∃ k, m.Hops via d k ∧ (k < hops ∨ k = hops ∧ age via < age s))

/-- What holds of routes and paths whatever happens in an overlay that grows. -/
structure Guidance (servers : List Id) (m : Mesh) : Prop extends m.Sane where
  members : ∀ id, (m.station? id).isSome ↔ id ∈ servers
  guided : ∀ d, ∃ age, m.Guided d age
  pending : ∀ t, m.Pending t → m.Linked t.source t.target ∧
    ∃ msg, t.frame.Carries msg ∧ m.Track servers t.source msg.path
  waiting : ∀ w ∈ m.waiting, m.Track servers w.interceptor.owner w.msg.path

variable {servers path : List Id} {m m' m₁ : Mesh} {a b d : Id} {msg : Message} {k l : Nat}
  {age : Id → Nat} {st sa sb : Station} {ok : Transit → Prop} {came : Option (Id × Message)}

theorem Track.mono (h : m.Track servers a path) (he : m.Extends m') : m'.Track servers a path :=
  ⟨h.subset, h.count, fun i j b d hij hb hd hne => he.knows _ _ _ (h.between i j b d hij hb hd hne),
    fun i d hd hne => he.knows _ _ _ (h.knows i d hd hne)⟩

theorem track_nil (servers : List Id) (m : Mesh) (a : Id) : m.Track servers a [] :=
  ⟨List.nil_subset _, fun d => by simp, fun i j b d _ hb => by simp at hb,
    fun i d hd => by simp at hd⟩

/-- The path of a message goes on with the server that sends it. -/
theorem Track.append (h : m.Track servers a path) (ha : a ∈ servers) (hroom : path.count a < 2) :
    m.Track servers a (path ++ [a]) := by
  have hback : (path ++ [a]).reverse = a :: path.reverse := by simp
  refine ⟨?_, fun d => ?_, fun i j b d hij hb hd hne => ?_, fun i d hd hne => ?_⟩
  · intro x hx
    rcases List.mem_append.1 hx with hx | hx
    · exact h.subset hx
    · exact List.mem_singleton.1 hx ▸ ha
  · have := h.count d
    rw [List.count_append, List.count_singleton]
    by_cases hd : a = d
    · subst hd
      simp only [beq_self_eq_true, if_true]
      omega
    · simp only [beq_iff_eq, hd, if_false]
      omega
  · obtain ⟨j, rfl⟩ : ∃ j', j = j' + 1 := ⟨j - 1, by omega⟩
    rw [hback, List.getElem?_cons_succ] at hd
    cases i with
    | zero =>
      rw [hback, List.getElem?_cons_zero] at hb
      obtain rfl : a = b := Option.some.inj hb
      exact h.knows j d hd hne
    | succ i =>
      rw [hback, List.getElem?_cons_succ] at hb
      rw [show j + 1 - (i + 1) = j - i by omega]
      exact h.between i j b d (by omega) hb hd hne
  · rw [hback] at hd
    cases i with
    | zero => exact absurd (by simpa using hd.symm) hne
    | succ i =>
      rw [List.getElem?_cons_succ] at hd
      exact (h.knows i d hd hne).mono (Nat.le_succ _)

/-- A server that may not stand on the path once more is left out. -/
theorem Track.appendToPath (h : m.Track servers a msg.path) (ha : a ∈ servers) :
    m.Track servers a (msg.appendToPath a).path := by
  unfold Message.appendToPath
  split
  next hroom => exact h.append ha (Nat.lt_of_lt_of_le hroom (visitLimit_le _))
  next => exact h

theorem Track.of_stems {c : Option Message} (hm : msg.Stems c)
    (hc : ∀ old ∈ c, m.Track servers a old.path) : m.Track servers a msg.path := by
  rcases hm with hnew | ⟨old, hold, hpath, -⟩
  · rw [hnew]
    exact track_nil servers m a
  · rw [hpath]
    exact hc old hold

/-- A path is short if it goes through the servers, and twice through each at most. -/
theorem length_le_of_count (hsub : path ⊆ servers) (hcount : ∀ d, path.count d ≤ 2) :
    path.length ≤ 2 * servers.length := by
  have hin : path.dedup ⊆ servers := fun x hx => hsub (List.mem_dedup.1 hx)
  have hdedup : path.dedup.length ≤ servers.length := (path.nodup_dedup.subperm hin).length_le
  have hsum : (path.dedup.map fun id => path.count id).sum ≤ path.dedup.length * 2 := by
    have hle := List.sum_le_card_nsmul (path.dedup.map fun id => path.count id) 2 (by
      intro k hk
      obtain ⟨id, -, rfl⟩ := List.mem_map.1 hk
      exact hcount id)
    rwa [List.length_map, smul_eq_mul] at hle
  have htotal : (path.dedup.map fun id => path.count id).sum = path.length :=
    path.sum_map_count_dedup_eq_length
  omega

theorem Track.length_le (h : m.Track servers a path) : path.length ≤ 2 * servers.length :=
  length_le_of_count h.subset h.count

theorem Knows.hops (h : m.Knows a d k) : ∃ j, m.Hops a d j ∧ j ≤ k := by
  obtain ⟨st, hs, hops, next, link, hget, hle⟩ := h
  exact ⟨hops, ⟨st, next, link, hs, hget⟩, hle⟩

theorem Hops.knows (h : m.Hops a d k) : m.Knows a d k := by
  obtain ⟨st, next, link, hs, hget⟩ := h
  exact ⟨st, hs, k, next, link, hget, Nat.le_refl k⟩

theorem Hops.unique (h : m.Hops a d k) (h' : m.Hops a d l) : k = l := by
  obtain ⟨st, next, link, hs, hget⟩ := h
  obtain ⟨st', next', link', hs', hget'⟩ := h'
  obtain rfl : st = st' := Option.some.inj (hs.symm.trans hs')
  have he := hget.symm.trans hget'
  simp only [Option.some.injEq, Route.mk.injEq, Reach.server.injEq] at he
  exact he.1.1

/-- No route gets longer. -/
theorem Hops.shrink (h : m.Hops a d k) (he : m.Extends m') : ∃ j, m'.Hops a d j ∧ j ≤ k :=
  (he.knows _ _ _ h.knows).hops

/-- The server that a route goes by is near enough still. -/
theorem nearer_mono (he : m.Extends m') {via : Id} {older : Prop}
    (h : via = d ∨ ∃ k, m.Hops via d k ∧ (k < l ∨ k = l ∧ older)) :
    via = d ∨ ∃ k, m'.Hops via d k ∧ (k < l ∨ k = l ∧ older) := by
  refine h.imp_right fun ⟨k, hk, hless⟩ => ?_
  obtain ⟨j, hj, hle⟩ := hk.shrink he
  refine ⟨j, hj, ?_⟩
  rcases hless with hlt | ⟨rfl, hold⟩
  · exact .inl (Nat.lt_of_le_of_lt hle hlt)
  · rcases Nat.lt_or_eq_of_le hle with hlt | heq
    · exact .inl hlt
    · exact .inr ⟨heq, hold⟩

theorem Guided.keep (h : m.Guided d age) (he : m.Extends m') (hr : m.KeepsRoutes m') :
    m'.Guided d age := by
  intro s st' hops next link hs' hget
  obtain ⟨st, hs, hlines, hroutes⟩ := hr s st' hs'
  obtain ⟨line, hl, hlink, via, hpeer, hnear⟩ := h s st hops next link hs (hroutes _ _ _ _ hget)
  exact ⟨line, hlines line hl, hlink, via, hpeer, nearer_mono he hnear⟩

/-- A new connection leads straight to its other end. -/
theorem Guided.join (h : m.Guided d age) (he : m.Extends (m.join a b)) (hab : m.Strangers a b sa sb) :
    (m.join a b).Guided d age := by
  intro s st' hops next link hs' hget
  rcases hab.cases hs' with ⟨st, e, hs, rfl, -, -⟩ | hs
  · rw [Station.get?_joined] at hget
    split at hget
    next hd =>
      cases hget
      exact ⟨_, Station.mem_joined.2 (.inr rfl), rfl, next, rfl, .inl hd.1.symm⟩
    next =>
      obtain ⟨line, hl, hlink, via, hpeer, hnear⟩ := h s st hops next link hs hget
      exact ⟨line, Station.mem_joined.2 (.inl hl), hlink, via, hpeer, nearer_mono he hnear⟩
  · obtain ⟨line, hl, hlink, via, hpeer, hnear⟩ := h s st' hops next link hs hget
    exact ⟨line, hl, hlink, via, hpeer, nearer_mono he hnear⟩

/-- A server that learns takes routes over the connection to a server that knows them, so that its
own routes are the youngest. -/
theorem Guided.learn (h : m.Guided d age) (hm : m.Sane) (hs : m.station? b = some st) {line : Line}
    (hl : line ∈ st.lines) (hpeer : line.peer = some a) (htrack : m.Track servers a path)
    (hshort : path.length < Routes.maxHops) :
    ∃ age, (m.set b (st.taught path line.link)).Guided d age := by
  have hgrown := hm.learn hs hl (by simp [hpeer]) path
  have hlinked : m.Linked b a := linked_iff.2 ⟨st, hs, line, hl, hpeer⟩
  have hab : a ≠ b := (hm.ne_of_linked hlinked).symm
  have hother : ∀ {s : Id}, s ≠ b →
      (m.set b (st.taught path line.link)).station? s = m.station? s := fun hne => station?_set_ne hne
  rcases Routes.get?_learn st.server.routes path line.link d with
    hsame | ⟨-, hno, next, i, -, hi, hlong, hnew⟩
  · refine ⟨age, fun s st' hops next link hs' hget => ?_⟩
    have hold : ∃ old, m.station? s = some old ∧ old.lines = st'.lines ∧
        old.server.routes.get? d = some ⟨.server hops next, link⟩ := by
      by_cases hsb : s = b
      · subst hsb
        obtain rfl : st.taught path line.link = st' :=
          Option.some.inj (station?_set_self.symm.trans hs')
        exact ⟨st, hs, rfl, hsame ▸ hget⟩
      · exact ⟨st', (hother hsb).symm.trans hs', rfl, hget⟩
    obtain ⟨old, hold, hlines, hroute⟩ := hold
    obtain ⟨line', hl', hlink, via, hvia, hnear⟩ := h s old hops next link hold hroute
    exact ⟨line', hlines ▸ hl', hlink, via, hvia, nearer_mono hgrown.extended hnear⟩
  · have hlt := Routes.lt_length_of_place hi
    rw [Nat.min_eq_left (by omega)] at hlong hnew
    refine ⟨Function.update age b (age a + 1), fun s st' hops next' link hs' hget => ?_⟩
    by_cases hsb : s = b
    · subst hsb
      obtain rfl : st.taught path line.link = st' :=
        Option.some.inj (station?_set_self.symm.trans hs')
      have he := hnew.symm.trans hget
      simp only [Option.some.injEq, Route.mk.injEq, Reach.server.injEq] at he
      obtain ⟨⟨rfl, -⟩, rfl⟩ := he
      refine ⟨line, hl, rfl, a, hpeer, ?_⟩
      by_cases had : a = d
      · exact .inl had
      · obtain ⟨k, hk, hle⟩ := (hgrown.extended.knows _ _ _
          (htrack.knows i d hi fun hd => had hd.symm)).hops
        refine .inr ⟨k, hk, ?_⟩
        rw [Function.update_self, Function.update_of_ne hab]
        omega
    · obtain ⟨line', hl', hlink, via, hvia, hnear⟩ :=
        h s st' hops next' link ((hother hsb).symm.trans hs') hget
      refine ⟨line', hl', hlink, via, hvia, hnear.imp_right fun ⟨k, hk, hless⟩ => ?_⟩
      by_cases hvb : via = b
      · -- the route of `b` was longer before
        subst hvb
        obtain ⟨st₀, next₀, link₀, hs₀, hget₀⟩ := hk
        obtain rfl : st = st₀ := Option.some.inj (hs.symm.trans hs₀)
        have hk : i + 1 < k := by
          by_contra hle
          exact hlong ⟨k, next₀, link₀, hget₀, Nat.not_lt.1 hle⟩
        exact ⟨i + 1, ⟨_, next, line.link, station?_set_self, hnew⟩, .inl (by omega)⟩
      · obtain ⟨st₀, next₀, link₀, hs₀, hget₀⟩ := hk
        refine ⟨k, ⟨st₀, next₀, link₀, (hother hvb).trans hs₀, hget₀⟩, ?_⟩
        rwa [Function.update_of_ne hvb, Function.update_of_ne hsb]

/-- A server that has learned from a path knows all on it. -/
theorem Track.learned (h : m.Track servers a path) (hm : m.Sane)
    (hmem : ∀ id, id ∈ servers → (m.station? id).isSome) (hs : m.station? b = some st) {line : Line}
    (hl : line ∈ st.lines) (hpeer : line.peer = some a) :
    (m.set b (st.taught path line.link)).Track servers b path := by
  have hgrown := hm.learn hs hl (by simp [hpeer]) path
  have hmono := h.mono hgrown.extended
  refine ⟨h.subset, h.count, hmono.between, fun i d hi hne => ?_⟩
  have hd : d ∈ path := List.mem_reverse.1 (List.mem_of_getElem? hi)
  have hown := (hm.wired b st hs).own
  obtain ⟨last, hlast⟩ : ∃ last, path.getLast? = some last := by
    cases hlast : path.getLast? with
    | none => rw [List.getLast?_eq_none_iff.1 hlast] at hd; exact absurd hd List.not_mem_nil
    | some last => exact ⟨last, rfl⟩
  by_cases hb : last = b
  · -- `b` was left out, and has known what stands before it since then
    subst hb
    have hfirst : path.reverse[0]? = some last := by
      rw [← hlast, List.getLast?_eq_head?_reverse, List.head?_eq_getElem?]
    have hpos : 0 < i := by
      rcases Nat.eq_zero_or_pos i with rfl | hpos
      · exact absurd (Option.some.inj (hi.symm.trans hfirst)) hne
      · exact hpos
    exact (hmono.between 0 i last d hpos hfirst hi hne).mono (by omega)
  · refine ⟨_, station?_set_self, Routes.within_learn hlast ?_ hi ?_ ?_ line.link⟩
    · rw [hown]
      exact hb
    · rw [hown]
      exact hne
    · exact hm.nobody b st d hs (hmem d (h.subset hd))

/-- What is read off a frame on its way has a path in order. -/
theorem Guidance.track (h : m.Guidance servers) {t : Transit} (ht : m.Pending t)
    (hread : t.frame.message = .ok msg) :
    m.Track servers t.source msg.path ∧ msg.path.length < Routes.maxHops := by
  obtain ⟨-, written, hcarries, htrack⟩ := h.pending t ht
  obtain ⟨-, hpath, -, -⟩ := hcarries.header hread
  rw [hpath]
  exact ⟨htrack, hcarries.length_path_lt htrack.count⟩

/-- What a turn starts with leaves routes in order, and the message that has come as well. -/
theorem Guidance.cause (h : m.Guidance servers) (hc : Cause ok m came m₁) :
    (∀ d, ∃ age, m₁.Guided d age) ∧
      ∀ b msg, came = some (b, msg) → m₁.Track servers b msg.path := by
  cases hc with
  | own => exact ⟨h.guided, by simp⟩
  | join hab =>
    refine ⟨fun d => ?_, by simp⟩
    obtain ⟨age, hage⟩ := h.guided d
    exact ⟨age, hage.join (h.toSane.join hab).extended hab⟩
  | give hw =>
    refine ⟨h.guided, ?_⟩
    rintro b msg ⟨⟩
    exact h.waiting _ hw
  | @hear t st line msg ht hok hh =>
    obtain ⟨htrack, hshort⟩ := h.track (.inl ht) hh.read
    refine ⟨fun d => ?_, ?_⟩
    · obtain ⟨age, hage⟩ := h.guided d
      exact hage.learn h.toSane hh.station hh.mem hh.peer htrack hshort
    · rintro b msg ⟨⟩
      exact htrack.learned h.toSane (fun id => (h.members id).2) hh.station hh.mem hh.peer

/-- Every turn keeps routes and paths in order. -/
theorem Guidance.turned (h : m.Guidance servers) (ht : Turned ok m m' came m₁) :
    m'.Guidance servers := by
  obtain ⟨hguided, hcame⟩ := h.cause ht.cause
  have hextended := ht.grown.extended.trans ht.grows.extended
  refine ⟨ht.grows.sane, fun id => (ht.members id).trans (h.members id), fun d => ?_,
    fun t hp => ?_, fun w hw => ?_⟩
  · obtain ⟨age, hage⟩ := hguided d
    exact ⟨age, hage.keep ht.grows.extended ht.routes⟩
  · rcases ht.pending t hp with hold | ⟨hlinked, c, msg, hc, hstems, hcarries⟩
    · obtain ⟨hlinked, msg, hcarries, htrack⟩ := h.pending t hold
      exact ⟨hextended.linked _ _ hlinked, msg, hcarries, htrack.mono hextended⟩
    · have hsource : t.source ∈ servers := by
        obtain ⟨st', hs', -⟩ := linked_iff.1 hlinked
        rw [← h.members, ← ht.members, hs']
        rfl
      have htrack : m₁.Track servers t.source msg.path :=
        Track.of_stems hstems fun old hold => hcame _ _ (hc old hold)
      exact ⟨hlinked, _, hcarries, (htrack.appendToPath hsource).mono ht.grows.extended⟩
  · rcases ht.waiting w hw with hold | hnew
    · exact (h.waiting w hold).mono hextended
    · exact (hcame _ _ hnew).mono ht.grows.extended

theorem Guidance.turn (h : m.Guidance servers) (ht : Turn ok m m') : m'.Guidance servers := by
  obtain ⟨came, m₁, hturned⟩ := h.toSane.turned ht
  exact h.turned hturned

theorem Guidance.move (h : m.Guidance servers) {mv : Move} (ha : m.Admits mv) :
    (m.move mv).Guidance servers :=
  h.toSane.move_induction (I := Guidance servers)
    (fun _ _ _ hg (ht : Turn (fun _ => True) _ _) => hg.turn ht) h ha fun _ _ _ _ => trivial

theorem Guidance.play (h : m.Guidance servers) {moves : List Move} (ha : m.Obeys Admits moves) :
    (m.play moves).Guidance servers :=
  play_invariant (I := Guidance servers) (fun _ _ hg hmv => hg.move hmv) h ha

theorem guidance_new (servers : List Id) (config : Config) (interceptors : List Interceptor)
    (enabled : Bool) : (Mesh.new servers config interceptors enabled).Guidance servers := by
  refine ⟨sane_new servers config interceptors enabled, fun id => ?_, fun d => ⟨fun _ => 0, ?_⟩,
    fun t ht => ?_, fun w hw => absurd hw List.not_mem_nil⟩
  · rw [station?_new]
    by_cases h : id ∈ servers <;> simp [h]
  · intro s st hops next link hs hget
    rw [eq_of_station?_new hs] at hget
    cases hget
  · rcases ht with hwire | ⟨st, hs, line, hl, -⟩
    · exact absurd hwire List.not_mem_nil
    · rw [eq_of_station?_new hs] at hl
      exact absurd hl List.not_mem_nil

end Mesh

end RelayMesh
