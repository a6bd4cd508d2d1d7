import RelayMesh.Proofs.Mesh.Forwarding
import RelayMesh.Proofs.Mesh.Guidance

namespace RelayMesh

namespace Mesh

/-- The route of `s` to `d` leads over a connection to another server, `via`. -/
def Toward (m : Mesh) (d s via : Id) : Prop :=
  via ≠ d ∧ ∃ st hops next, ∃ line ∈ st.lines, m.station? s = some st ∧
    st.server.routes.get? d = some ⟨.server hops next, line.link⟩ ∧ line.peer = some via

open Classical in
/-- The servers that the routes to `d` lead through from `s` on. -/
noncomputable def ahead (servers : List Id) (m : Mesh) (d s : Id) : Finset Id :=
  servers.toFinset.filter fun x => Relation.ReflTransGen (m.Toward d) s x

open Classical in
/-- For which servers and numbers of hops it is not known that `d` is as near as that. -/
noncomputable def unknown (servers : List Id) (m : Mesh) (d : Id) : Finset (Id × Nat) :=
  (servers.toFinset ×ˢ Finset.range (2 * servers.length + 1)).filter fun p => ¬ m.Knows p.1 d p.2

/-- How far a message for `d` on its way to `s` may still go. -/
noncomputable def leeway (servers : List Id) (m : Mesh) (d s : Id) : Nat :=
  (unknown servers m d).card * (servers.length + 1) +
    if s = d then 0 else (ahead servers m d s).card

/-- How often a message is passed on at most, among `n` servers. -/
def passLimit (n : Nat) : Nat := n * (2 * n + 1) * (n + 1) + n

variable {servers path : List Id} {m m' m₁ : Mesh} {a b d s via : Id} {t t' : Transit} {k n : Nat}
  {age : Id → Nat} {ok : Transit → Prop} {came : Option (Id × Message)} {msg : Message}

theorem card_unknown_le (servers : List Id) (m : Mesh) (d : Id) :
    (unknown servers m d).card ≤ servers.length * (2 * servers.length + 1) := by
  classical
  refine (Finset.card_filter_le _ _).trans ?_
  rw [Finset.card_product, Finset.card_range]
  exact Nat.mul_le_mul_right _ servers.toFinset_card_le

theorem card_ahead_le (servers : List Id) (m : Mesh) (d s : Id) :
    (ahead servers m d s).card ≤ servers.length := by
  classical
  exact (Finset.card_filter_le _ _).trans servers.toFinset_card_le

theorem mem_unknown : (a, k) ∈ unknown servers m d ↔
    a ∈ servers ∧ k ≤ 2 * servers.length ∧ ¬ m.Knows a d k := by
  simp [unknown, and_assoc]

theorem mem_ahead {x : Id} :
    x ∈ ahead servers m d s ↔ x ∈ servers ∧ Relation.ReflTransGen (m.Toward d) s x := by
  simp [ahead]

theorem unknown_subset (he : m.Extends m') : unknown servers m' d ⊆ unknown servers m d := by
  rintro ⟨a, k⟩ h
  rw [mem_unknown] at h ⊢
  exact ⟨h.1, h.2.1, fun hk => h.2.2 (he.knows a d k hk)⟩

theorem ahead_subset (h : ∀ s via, m'.Toward d s via → m.Toward d s via) (s : Id) :
    ahead servers m' d s ⊆ ahead servers m d s := by
  intro x hx
  rw [mem_ahead] at hx ⊢
  exact ⟨hx.1, Relation.ReflTransGen.mono h _ _ hx.2⟩

/-- The next server on the way to `d` is nearer to it, or has an older route as long. -/
theorem Guided.toward (h : m.Guided d age) (hm : m.Sane) (ht : m.Toward d s via) :
    ∃ k l, m.Hops s d k ∧ m.Hops via d l ∧ (l < k ∨ l = k ∧ age via < age s) := by
  obtain ⟨hne, st, hops, next, line, hl, hs, hget, hpeer⟩ := ht
  obtain ⟨line', hl', hlink, via', hpeer', hnear⟩ := h s st hops next line.link hs hget
  obtain rfl : line' = line := (hm.wired s st hs).eq_of_link hl' hl hlink
  obtain rfl : via = via' := Option.some.inj (hpeer.symm.trans hpeer')
  obtain ⟨l, hvia, hless⟩ := hnear.resolve_left hne
  exact ⟨hops, l, ⟨st, next, line'.link, hs, hget⟩, hvia, hless⟩

theorem Guided.trans_toward (h : m.Guided d age) (hm : m.Sane) {x : Id}
    (hr : Relation.ReflTransGen (m.Toward d) s x) (hx : m.Hops x d k) :
    ∃ l, m.Hops s d l ∧ (k < l ∨ k = l ∧ age x ≤ age s) := by
  induction hr generalizing k with
  | refl => exact ⟨k, hx, .inr ⟨rfl, Nat.le_refl _⟩⟩
  | tail _ hstep ih =>
    obtain ⟨j, l, hj, hl, hless⟩ := h.toward hm hstep
    obtain rfl := hl.unique hx
    obtain ⟨i, hi, hless'⟩ := ih hj
    exact ⟨i, hi, by omega⟩

/-- No server comes back to itself along routes to one destination. -/
theorem Guidance.not_back (h : m.Guidance servers) (ht : m.Toward d s via) :
    ¬ Relation.ReflTransGen (m.Toward d) via s := by
  obtain ⟨age, hage⟩ := h.guided d
  intro hback
  obtain ⟨k, l, hk, hl, hless⟩ := hage.toward h.toSane ht
  obtain ⟨j, hj, hless'⟩ := hage.trans_toward h.toSane hback hk
  obtain rfl := hl.unique hj
  omega

theorem Guidance.ahead_lt (h : m.Guidance servers) (ht : m.Toward d s via) :
    (ahead servers m d via).card < (ahead servers m d s).card := by
  refine Finset.card_lt_card (Finset.ssubset_iff_of_subset ?_ |>.2 ⟨s, ?_, ?_⟩)
  · intro x hx
    rw [mem_ahead] at hx ⊢
    exact ⟨hx.1, .head ht hx.2⟩
  · obtain ⟨-, st, -, -, -, -, hs, -⟩ := ht
    exact mem_ahead.2 ⟨(h.members s).1 (by rw [hs]; rfl), .refl⟩
  · exact fun hx => h.not_back ht (mem_ahead.1 hx).2

/-- The line of a route is the one with its number. -/
theorem Sane.toward_of_keepsRoutes (h : m₁.Sane) (hm : m'.Sane) (hr : m₁.KeepsRoutes m')
    (ht : m'.Toward d s via) : m₁.Toward d s via := by
  obtain ⟨hne, st', hops, next, line, hl, hs', hget, hpeer⟩ := ht
  obtain ⟨st, hs, hlines, hroutes⟩ := hr s st' hs'
  have hold := hroutes d hops next line.link hget
  obtain ⟨-, line', hl', -, hlink⟩ := (h.wired s st hs).remote d hops next line.link hold
  obtain rfl := (hm.wired s st' hs').eq_of_link (hlines line' hl') hl hlink
  exact ⟨hne, st, hops, next, line', hl', hs, hold, hpeer⟩

/-- A route to `d` that goes on by another server has not changed, or `d` is known to be nearer. -/
theorem Guidance.toward_of_cause (h : m.Guidance servers) (hc : Cause ok m came m₁)
    (hg : m.Grown m₁) (ht : m₁.Toward d s via) :
    m.Toward d s via ∨ ∃ k, k ≤ 2 * servers.length ∧ s ∈ servers ∧ m₁.Knows s d k ∧ ¬ m.Knows s d k := by
  cases hc with
  | own => exact .inl ht
  | give hw => exact .inl ht
  | join hab =>
    left
    obtain ⟨hne, st', hops, next, line, hl, hs', hget, hpeer⟩ := ht
    rcases hab.cases hs' with ⟨st, e, hs, rfl, -, -⟩ | hs
    · rw [Station.get?_joined] at hget
      split at hget
      next hd =>
        have hlink : st.nextLink = line.link := by
          simp only [Option.some.injEq, Route.mk.injEq] at hget
          exact hget.2
        have hnew := (hg.sane.wired s _ hs').eq_of_link (Station.mem_joined.2 (.inr rfl)) hl hlink
        rw [← hnew] at hpeer
        exact absurd (hd.1.trans (Option.some.inj hpeer)).symm hne
      next =>
        obtain ⟨-, line', hl', -, hlink⟩ := (h.wired s st hs).remote d hops next line.link hget
        obtain rfl := (hg.sane.wired s _ hs').eq_of_link (Station.mem_joined.2 (.inl hl')) hl hlink
        exact ⟨hne, st, hops, next, line', hl', hs, hget, hpeer⟩
    · exact ⟨hne, st', hops, next, line, hl, hs, hget, hpeer⟩
  | @hear t st line msg htw hok hh =>
    obtain ⟨hne, st', hops, next, out, hl, hs', hget, hpeer⟩ := ht
    by_cases hs : s = t.target
    · subst hs
      obtain rfl : st.taught msg.path line.link = st' :=
        Option.some.inj (station?_set_self.symm.trans hs')
      rcases Routes.get?_learn st.server.routes msg.path line.link d with
        hsame | ⟨-, -, last, i, -, hi, hlong, hnew⟩
      · exact .inl ⟨hne, st, hops, next, out, hl, hh.station, hsame ▸ hget, hpeer⟩
      · right
        obtain ⟨htrack, -⟩ := h.track (.inl htw) hh.read
        have hlt := Routes.lt_length_of_place hi
        have hlength := htrack.length_le
        refine ⟨min (i + 1) Routes.maxHops, by omega, (h.members _).1 (by rw [hh.station]; rfl),
          ⟨_, station?_set_self, _, last, line.link, hnew, Nat.le_refl _⟩, ?_⟩
        rintro ⟨old, hold, hw⟩
        obtain rfl : st = old := Option.some.inj (hh.station.symm.trans hold)
        exact hlong hw
    · exact .inl ⟨hne, st', hops, next, out, hl, (station?_set_ne hs).symm.trans hs', hget, hpeer⟩

/-- In a turn somebody gets to know `d` to be nearer, or no server goes on by another one. -/
theorem Guidance.turned_cases (h : m.Guidance servers) (ht : Turned ok m m' came m₁) (d : Id) :
    (unknown servers m' d).card < (unknown servers m d).card ∨
      ∀ s via, m'.Toward d s via → m.Toward d s via := by
  have hextended := ht.grown.extended.trans ht.grows.extended
  by_cases hsame : ∀ s via, m'.Toward d s via → m.Toward d s via
  · exact .inr hsame
  · left
    push Not at hsame
    obtain ⟨s, via, hnew, hold⟩ := hsame
    have hcaused := ht.grown.sane.toward_of_keepsRoutes ht.grows.sane ht.routes hnew
    obtain ⟨k, hk, hs, hknows, hno⟩ :=
      (h.toward_of_cause ht.cause ht.grown hcaused).resolve_left hold
    refine Finset.card_lt_card
      ((Finset.ssubset_iff_of_subset (unknown_subset hextended)).2 ⟨(s, k), ?_, ?_⟩)
    · exact mem_unknown.2 ⟨hs, hk, hno⟩
    · exact fun hmem => (mem_unknown.1 hmem).2.2 (ht.grows.extended.knows _ _ _ hknows)

/-- Once somebody knows `d` to be nearer, messages may go less far, wherever they are. -/
theorem leeway_lt_of_unknown (h : (unknown servers m' d).card < (unknown servers m d).card)
    (a b : Id) : leeway servers m' d a < leeway servers m d b := by
  have hle := card_ahead_le servers m' d a
  have hmul := Nat.mul_le_mul_right (servers.length + 1) (Nat.succ_le_of_lt h)
  rw [Nat.succ_mul] at hmul
  unfold leeway
  split <;> omega

/-- How far a message may still go does not grow. -/
theorem Guidance.leeway_le (h : m.Guidance servers) (ht : Turned ok m m' came m₁) (d s : Id) :
    leeway servers m' d s ≤ leeway servers m d s := by
  have hextended := ht.grown.extended.trans ht.grows.extended
  rcases h.turned_cases ht d with hlt | hsame
  · exact (leeway_lt_of_unknown hlt s s).le
  · unfold leeway
    have hunknown : (unknown servers m' d).card ≤ (unknown servers m d).card :=
      Finset.card_le_card (unknown_subset hextended)
    have hahead : (ahead servers m' d s).card ≤ (ahead servers m d s).card :=
      Finset.card_le_card (ahead_subset hsame s)
    have hmul := Nat.mul_le_mul_right (servers.length + 1) hunknown
    split <;> omega

/-- A message that goes on to the next server of a route has less far to go. -/
theorem Guidance.leeway_lt (h : m.Guidance servers) (ht : Turned ok m m' came m₁) (hne : s ≠ d)
    (hs : s ∈ servers) (hon : via = d ∨ m'.Toward d s via) :
    leeway servers m' d via < leeway servers m d s := by
  have hextended := ht.grown.extended.trans ht.grows.extended
  rcases h.turned_cases ht d with hlt | hsame
  · exact leeway_lt_of_unknown hlt via s
  · unfold leeway
    rw [if_neg hne]
    have hunknown : (unknown servers m' d).card ≤ (unknown servers m d).card :=
      Finset.card_le_card (unknown_subset hextended)
    have hmul := Nat.mul_le_mul_right (servers.length + 1) hunknown
    split
    next =>
      have hpos : 0 < (ahead servers m d s).card :=
        Finset.card_pos.2 ⟨s, mem_ahead.2 ⟨hs, .refl⟩⟩
      omega
    next hvia =>
      have hahead : (ahead servers m' d s).card ≤ (ahead servers m d s).card :=
        Finset.card_le_card (ahead_subset hsame s)
      have hlt := (h.turned ht).ahead_lt (hon.resolve_left hvia)
      omega

/-- What has to be so for a message to be passed on. -/
structure PassesOn (m : Mesh) (t t' : Transit) (st : Station) (line out : Line) (msg : Message)
    (d : Id) : Prop where
  type : MessageType.isForClients t.frame.type = false
  handles : m.Handles t st line msg
  recipient : msg.recipient = some d
  ne : t.target ≠ d
  route : ∃ hops next, (st.server.learnRoutes msg line.link).routes.get? d =
    some ⟨.server hops next, out.link⟩
  mem : out ∈ st.lines
  peer : out.peer = some t'.target
  source : t'.source = t.target
  frame : st.server.frame t.frame.type (msg.appendToPath t.target) = .ok t'.frame

theorem Sane.passesOn (h : m.Sane) (hp : m.PassedOn t t') :
    ∃ st line out msg d, m.PassesOn t t' st line out msg d := by
  obtain ⟨st, line, msg, hh⟩ := h.handles_of_passedOn hp
  have hwired := h.wired _ st hh.station
  obtain ⟨d, hdest⟩ := Option.isSome_iff_exists.1 hp.1
  obtain ⟨read, hread, hc, hrecipient, hne⟩ := Transit.destination?_eq_some_iff.1 hdest
  obtain rfl := Except.ok.inj (hread.symm.trans hh.read)
  obtain ⟨hsource, ⟨reach, link⟩, out, -, hroute, hf, -, hl, hpeer, hlink⟩ :=
    (hh.passedOn_iff h hc hrecipient hne).1 hp
  refine ⟨st, line, out, read, d, hc, hh, hrecipient, hne.symm, ?_, hl, hpeer, hsource, hf⟩
  cases reach with
  | server hops next => exact ⟨hops, next, by rw [hroute, hlink]⟩
  | client =>
    have htaught := hwired.taught hh.mem (by simp [hh.peer]) read.path
    rw [Server.routes_learnRoutes] at hroute
    have hnone := (htaught.clients d link hroute).2 out hl hlink
    rw [hpeer] at hnone
    cases hnone

/-- The message goes on to the next server of the route that its holder has by then. -/
theorem PassesOn.next {line out : Line} {st : Station} (hr : m.PassesOn t t' st line out msg d)
    (ht : Turned ok m m' came (m.set t.target (st.taught msg.path line.link))) :
    t'.target = d ∨ m'.Toward d t.target t'.target := by
  obtain ⟨hops, next, hroute⟩ := hr.route
  rw [Server.routes_learnRoutes] at hroute
  have hself : (m.set t.target (st.taught msg.path line.link)).station? t.target =
    some (st.taught msg.path line.link) := station?_set_self
  -- no route is replaced by a turn once the server has learned
  obtain ⟨st', hs', hops', next', link', hget', -⟩ :=
    ht.grows.extended.knows _ _ _ ⟨_, hself, hops, next, out.link, hroute, Nat.le_refl hops⟩
  obtain ⟨old, hold, hlines, hroutes⟩ := ht.routes _ _ hs'
  obtain rfl := Option.some.inj (hself.symm.trans hold)
  have hsame := hroute.symm.trans (hroutes _ _ _ _ hget')
  simp only [Option.some.injEq, Route.mk.injEq, Reach.server.injEq] at hsame
  obtain ⟨⟨rfl, rfl⟩, rfl⟩ := hsame
  by_cases hd : t'.target = d
  · exact .inl hd
  · exact .inr ⟨hd, st', hops, next, out, hlines out hr.mem, hs', hget', hr.peer⟩

/-- The message `t` for `d` may be passed on for so long as its leeway says. -/
structure Bounded (servers : List Id) (d : Id) (m : Mesh) (t : Transit) (n : Nat) : Prop where
  guidance : m.Guidance servers
  carries : ∃ msg, t.frame.Carries msg ∧ msg.recipient = some d
  within : n + leeway servers m d t.target ≤ passLimit servers.length

theorem Bounded.wait (h : Bounded servers d m t n) {mv : Move} (ha : m.Admits mv) :
    Bounded servers d (m.move mv) t n := by
  have hle : (m.move mv).Guidance servers ∧
      leeway servers (m.move mv) d t.target ≤ leeway servers m d t.target := by
    refine h.guidance.toSane.move_induction (I := fun m' => m'.Guidance servers ∧
      leeway servers m' d t.target ≤ leeway servers m d t.target)
      (fun m₁ m₂ hs hi (ht : Turn (fun _ => True) m₁ m₂) => ?_) ⟨h.guidance, Nat.le_refl _⟩ ha
      fun _ _ _ _ => trivial
    obtain ⟨came, m₁', hturned⟩ := hs.turned ht
    exact ⟨hi.1.turned hturned, (hi.1.leeway_le hturned d t.target).trans hi.2⟩
  exact ⟨hle.1, h.carries, (Nat.add_le_add_left hle.2 n).trans h.within⟩

theorem Bounded.pass (h : Bounded servers d m t n) {place : Nat} (hw : m.wire[place]? = some t)
    (hp : m.PassedOn t t') : Bounded servers d (m.move (.deliver place)) t' (n + 1) := by
  obtain ⟨st, line, out, msg, dest, hr⟩ := h.guidance.passesOn hp
  obtain ⟨written, hcarries, hrecipient⟩ := h.carries
  obtain ⟨-, -, hsame, -⟩ := hcarries.header hr.handles.read
  obtain rfl : dest = d := by
    rw [hrecipient, hr.recipient] at hsame
    exact Option.some.inj hsame
  have hturned : Turned (fun _ => True) m _ _ _ := hr.handles.turned h.guidance.toSane hw trivial
  have htarget : t.target ∈ servers :=
    (h.guidance.members _).1 (by rw [hr.handles.station]; rfl)
  have hlt := h.guidance.leeway_lt hturned hr.ne htarget (hr.next hturned)
  have hguidance := h.guidance.turned hturned
  rw [move, effect_deliver hw]
  have hsettled := hguidance.toSane.settle_induction (I := fun m' => m'.Guidance servers ∧
    leeway servers m' dest t'.target < leeway servers m dest t.target)
    (fun m₁ m₂ hs hi (ht : Turn (fun _ => True) m₁ m₂) => by
      obtain ⟨came, m₁', hnext⟩ := hs.turned ht
      exact ⟨hi.1.turned hnext, (hi.1.leeway_le hnext dest t'.target).trans_lt hi.2⟩)
    ⟨hguidance, hlt⟩
  refine ⟨hsettled.1, ⟨_, Frame.carries_of_ofMessage hr.frame, ?_⟩, ?_⟩
  · rw [Message.recipient_appendToPath, hr.recipient]
  · have := h.within
    have := hsettled.2
    omega

theorem Guidance.bounded (h : m.Guidance servers) (hc : t.frame.Carries msg)
    (hd : msg.recipient = some d) : Bounded servers d m t 0 := by
  refine ⟨h, ⟨msg, hc, hd⟩, ?_⟩
  have hunknown := Nat.mul_le_mul_right (servers.length + 1) (card_unknown_le servers m d)
  have hahead := card_ahead_le servers m d t.target
  unfold leeway passLimit
  split <;> omega

theorem Journey.bounded {m₀ : Mesh} {t₀ : Transit} (h : Journey Admits m₀ t₀ path m t)
    (h₀ : Bounded servers d m₀ t₀ 0) : Bounded servers d m t path.length := by
  induction h with
  | start => exact h₀
  | wait _ ha ih => exact ih.wait ha
  | pass _ _ hw hp ih =>
    rw [List.length_append]
    exact ih.pass hw hp

/-- A message that is for nobody in particular is not passed on. -/
theorem Journey.eq_nil {m₀ : Mesh} {t₀ : Transit} (h : Journey Admits m₀ t₀ path m t)
    (h₀ : m₀.Sane) (hc : t₀.frame.Carries msg) (hd : msg.recipient = none) :
    path = [] ∧ m.Sane ∧ t = t₀ := by
  induction h with
  | start => exact ⟨rfl, h₀, rfl⟩
  | wait _ ha ih =>
    obtain ⟨hpath, hsane, ht⟩ := ih
    exact ⟨hpath, (hsane.move ha).sane, ht⟩
  | pass _ _ _ hp ih =>
    obtain ⟨-, hsane, rfl⟩ := ih
    obtain ⟨st, line, out, read, dest, hr⟩ := hsane.passesOn hp
    obtain ⟨-, -, hsame, -⟩ := hc.header hr.handles.read
    rw [hd, hr.recipient] at hsame
    cases hsame

/-- In an overlay that grows, every message on its way to another server is passed on a limited number
of times, whatever happens from then on: the limit depends on the number of servers only. -/
theorem passed_on_finitely (servers : List Id) (config : Config) (interceptors : List Interceptor)
    (enabled : Bool) (moves : List Move)
    (ha : (Mesh.new servers config interceptors enabled).Obeys Admits moves) :
    let m := (Mesh.new servers config interceptors enabled).play moves
    ∀ t, m.Pending t → ∀ via m' t', Journey Admits m t via m' t' →
      via.length ≤ passLimit servers.length := by
  intro m t ht via m' t' hjourney
  have h : m.Guidance servers := (guidance_new servers config interceptors enabled).play ha
  obtain ⟨-, msg, hcarries, -⟩ := h.pending t ht
  cases hd : msg.recipient with
  | none =>
    obtain ⟨rfl, -⟩ := hjourney.eq_nil h.toSane hcarries hd
    exact Nat.zero_le _
  | some d =>
    have := (hjourney.bounded (h.bounded hcarries hd)).within
    omega

theorem passed_on_finitely_hello :
    let m := (Mesh.new [1, 2, 3] {} [] false).play (hello ++ [greet 1 3])
    m.Pending (greetingFrom 1 3 [1] 1 2) ∧
      m.PassedOn (greetingFrom 1 3 [1] 1 2) (greetingFrom 1 3 [1, 2] 2 3) ∧
      [(2 : Id)].length ≤ passLimit [(1 : Id), 2, 3].length := by
  intro m
  have ha : (Mesh.new [1, 2, 3] {} [] false).Obeys Admits (hello ++ [greet 1 3]) := by
    decide +kernel
  have hwire : m.wire[2]? = some (greetingFrom 1 3 [1] 1 2) := by decide +kernel
  have hpass : m.PassedOn (greetingFrom 1 3 [1] 1 2) (greetingFrom 1 3 [1, 2] 2 3) := by
    decide +kernel
  have hpending : m.Pending (greetingFrom 1 3 [1] 1 2) := .inl (List.mem_of_getElem? hwire)
  exact ⟨hpending, hpass, passed_on_finitely [1, 2, 3] {} [] false (hello ++ [greet 1 3]) ha
    (greetingFrom 1 3 [1] 1 2) hpending [2] _ _ (.pass .start trivial hwire hpass)⟩

/-- Server 1 gets to know server 3 by way of 2, and answers. Then there is another way from 3 to 1, by
way of 4, and 3 announces itself again. -/
def otherWay : List Move :=
  [.join 1 2, .join 2 3, .step (.at 3 (.command .announce)), .deliver 0, .deliver 0, .join 3 4,
    .join 1 4, .step (.at 3 (.command .announce)), .deliver 2, .deliver 2]

/-- The connection of 2 and 3 ends, and 2 hears of 3 from 1 before the answer to 3 comes by, which
goes back and forth from then on. -/
def parting : List Move :=
  [.step (.cut 2 3), .deliver 1, .deliver 0, .deliver 2, .deliver 2]

/-- The answer of server 1 to server 3, as it goes from `a` to `b`. -/
def stray (a b : Id) : Transit :=
  ⟨a, b, ⟨MessageType.identity, a, Wire.encodeMessage ⟨1, [1, 2, 1, 2], some 3, .identity⟩⟩⟩

/-- Once the connection has gone, servers 1 and 2 pass on the answer as often as one likes, though
nothing happens but that frames arrive. -/
theorem circulates_for_ever :
    let new := Mesh.new [1, 2, 3, 4] {} [] false
    let m := new.play (otherWay ++ parting)
    new.Obeys Admits otherWay ∧ m.Pending (stray 2 1) ∧
      ∀ n, ∃ via m' t', via.length = n ∧
        Journey (fun _ mv => mv = .deliver 2) m (stray 2 1) via m' t' := by
  intro new m
  have ha : new.Obeys Admits otherWay := by decide +kernel
  have hthere : m.wire[2]? = some (stray 2 1) := by decide +kernel
  have hback : (m.move (.deliver 2)).wire[2]? = some (stray 1 2) := by decide +kernel
  have hfirst : m.PassedOn (stray 2 1) (stray 1 2) := by decide +kernel
  have hsecond : (m.move (.deliver 2)).PassedOn (stray 1 2) (stray 2 1) := by decide +kernel
  have hround : (m.move (.deliver 2)).move (.deliver 2) = m := by decide +kernel
  have hlaps : ∀ n, ∃ via, via.length = n ∧
      (Journey (fun _ mv => mv = .deliver 2) m (stray 2 1) via m (stray 2 1) ∨
        Journey (fun _ mv => mv = .deliver 2) m (stray 2 1) via (m.move (.deliver 2))
          (stray 1 2)) := by
    intro n
    induction n with
    | zero => exact ⟨[], rfl, .inl .start⟩
    | succ n ih =>
      obtain ⟨via, rfl, hhome | haway⟩ := ih
      · exact ⟨via ++ [1], by simp, .inr (hhome.pass rfl hthere hfirst)⟩
      · have hlap := haway.pass rfl hback hsecond
        rw [hround] at hlap
        exact ⟨via ++ [2], by simp, .inl hlap⟩
  refine ⟨ha, .inl (List.mem_of_getElem? hthere), fun n => ?_⟩
  obtain ⟨via, hvia, h | h⟩ := hlaps n
  · exact ⟨via, _, _, hvia, h⟩
  · exact ⟨via, _, _, hvia, h⟩

end Mesh

end RelayMesh
