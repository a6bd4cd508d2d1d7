import RelayMesh.Proofs.Mesh.Sane

namespace RelayMesh

/-- Once it has learned from a message, a server only sends. -/
theorem Station.sends_taught (st : Station) (hooks : Interception) (type : MessageType)
    (msg : Message) (link : LinkId) : (st.taught msg.path link).server.Sends (some msg)
      ((st.server.learnRoutes msg link).dispatch hooks type msg).1 :=
  (Server.sends_learnRoutes st.server msg link).trans
    (Server.sends_dispatch hooks (st.server.learnRoutes msg link) type msg)

namespace Mesh

/-- There is room on the path of the message for the server that it comes to. -/
def HasRoom (t : Transit) : Prop :=
  ∀ msg, t.frame.message = .ok msg → msg.path.count t.target < msg.content.visitLimit

/-- What can happen at once in an overlay that grows. Frames arrive that `ok` admits. -/
inductive Turn (ok : Transit → Prop) (m : Mesh) : Mesh → Prop
  /-- Servers send on their own account. -/
  | send {m' : Mesh} (hp : Posts (fun _ _ => False) m m') (hw : m'.waiting = m.waiting)
      (hh : m'.hooks = m.hooks) : Turn ok m m'
  | collect {m' : Mesh} (hc : m.Collects m') : Turn ok m m'
  | shutdown {id : Id} {st : Station} (hs : m.station? id = some st) :
      Turn ok m (m.set id { st with server := st.server.shutdown })
  /-- A server gets a connection to something that is no server. -/
  | connect {id : Id} {st : Station} (hs : m.station? id = some st) (label : String)
      (capacity : Nat) (held : Bool) :
      Turn ok m (m.set id (st.connect label none capacity held).1)
  /-- A client registers over a connection that leads to no server. -/
  | client {id c : Id} {st : Station} {link : LinkId} (hs : m.station? id = some st)
      (hc : m.station? c = none) (hnew : st.server.routes.get? c = none) (hlink : link < st.nextLink)
      (hpeer : ∀ line ∈ st.lines, line.link = link → line.peer = none) :
      Turn ok m (m.set id { st with server := st.server.addClient c link })
  | join {a b : Id} {sa sb : Station} (hab : m.Strangers a b sa sb) : Turn ok m (m.join a b)
  | enable (hooks : Interception) : Turn ok m { m with hooks }
  /-- A server gets a message that was kept back. -/
  | give {w : Withheld} (hw : w ∈ m.waiting) (p : Withheld → Bool) :
      Turn ok m (({ m with waiting := m.waiting.eraseP p } : Mesh).updateServer
        w.interceptor.owner (·.release w))
  /-- A frame is taken off the wire and arrives. -/
  | deliver {place : Nat} {t : Transit} (ht : m.wire[place]? = some t) (hok : ok t) :
      Turn ok m (({ m with wire := m.wire.eraseIdx place } : Mesh).deliver t)

variable {m m' : Mesh} {ok : Transit → Prop} {id a b : Id} {st : Station}

/-- What a frame does that comes over a connection to no server. -/
theorem arrive_client (h : m.Sane) (hs : m.station? id = some st) {link : LinkId}
    (hlink : ∀ line ∈ st.lines, line.link = link → line.peer = none) {f : Frame}
    (hpath : ∀ msg, f.message = .ok msg → msg.path = []) : Turn ok m (m.arrive id link f) := by
  have hclient : ∀ r, st.server.routes.atLink link = some r → r.2.isClient = true :=
    fun r hr => (h.wired id st hs).isClient_of_atLink hlink hr
  obtain ⟨hsends, hkept⟩ : st.server.Sends none (st.server.arrive m.hooks link f).1 ∧
      (st.server.arrive m.hooks link f).2 = none :=
    Server.sends_arrive_client m.hooks hclient hpath
  have hposts : Posts (fun _ _ => False) m (m.arrive id link f) := by
    unfold arrive
    simp only [hs]
    have hset := posts_set (fun _ _ => False) hs (st.posts_of_sends (by simp) hsends)
    exact ⟨hset.wire, hset.forth, hset.back⟩
  refine .send hposts ?_ ?_
  · unfold arrive
    simp only [hs, hkept, waiting_set, Option.toList_none, List.append_nil]
  · unfold arrive
    simp only [hs, hooks_set]

/-- A server that is not down can read the message in a frame that has come from a neighbour. -/
structure Handles (m : Mesh) (t : Transit) (st : Station) (line : Line) (msg : Message) : Prop where
  station : m.station? t.target = some st
  mem : line ∈ st.lines
  peer : line.peer = some t.source
  up : st.server.down = false
  read : t.frame.message = .ok msg

/-- It learns from the path, and then it does what the message asks for. -/
theorem Handles.deliver {line : Line} {msg : Message} {t : Transit}
    (h : m.Handles t st line msg) (hm : m.Sane) :
    m.deliver t =
      let handled := (st.server.learnRoutes msg line.link).dispatch m.hooks t.frame.type msg
      { m.set t.target { st with server := handled.1 } with
        waiting := m.waiting ++ handled.2.toList } := by
  have hwired := hm.wired _ st h.station
  have hto : st.lineTo? t.source = some line := hwired.lineTo?_iff.2 ⟨h.mem, h.peer⟩
  obtain ⟨r, hr, hserver, hover⟩ := hwired.atLink_of_peer h.mem h.peer
  simp only [Mesh.deliver, h.station, Option.bind_some, hto, arrive, Server.arrive, h.up,
    Bool.false_eq_true, if_false, Server.handleFrame_of_server hr hserver h.read, hover,
    waiting_set]

/-- Any other frame has no effect. -/
theorem Sane.deliver_cases (h : m.Sane) (t : Transit) :
    m.deliver t = m ∨ ∃ st line msg, m.Handles t st line msg := by
  cases hline : (m.station? t.target).bind (·.lineTo? t.source) with
  | none =>
    left
    simp only [Mesh.deliver, hline]
  | some line =>
    obtain ⟨st, hs, hto⟩ := Option.bind_eq_some_iff.1 hline
    obtain ⟨hl, hpeer⟩ := (h.wired _ st hs).lineTo?_iff.1 hto
    by_cases hdown : st.server.down = true
    · left
      simp only [Mesh.deliver, hs, Option.bind_some, hto, arrive, Server.arrive, hdown, if_true,
        Option.toList_none, List.append_nil, set_self hs]
    · cases hread : t.frame.message with
      | ok msg => exact .inr ⟨st, line, msg, hs, hl, hpeer, by simpa using hdown, hread⟩
      | error why =>
        left
        simp only [Mesh.deliver, hs, Option.bind_some, hto, arrive, Server.arrive, hdown,
          Bool.false_eq_true, if_false, Server.handleFrame_of_error hread, Option.toList_none,
          List.append_nil, set_self hs]

/-- What a server has learned from a message it knows while it does what the message asks for. -/
theorem Handles.grown {line : Line} {msg : Message} {t : Transit} (h : m.Handles t st line msg)
    (hm : m.Sane) : m.Grown (m.set t.target (st.taught msg.path line.link)) ∧
      (m.set t.target (st.taught msg.path line.link)).Grown (m.deliver t) := by
  have hlearned := hm.learn h.station h.mem (by simp [h.peer]) msg.path
  have hself : (m.set t.target (st.taught msg.path line.link)).station? t.target =
    some (st.taught msg.path line.link) := station?_set_self
  have hsends := st.sends_taught m.hooks t.frame.type msg line.link
  have hacted := hlearned.sane.act hself hsends
  rw [set_set] at hacted
  rw [h.deliver hm]
  exact ⟨hlearned, hacted.trans (hacted.sane.alike (alike_of_stations rfl))⟩

theorem Sane.deliver (h : m.Sane) (t : Transit) : m.Grown (m.deliver t) := by
  rcases h.deliver_cases t with hsame | ⟨st, line, msg, hhandles⟩
  · rw [hsame]
    exact h.alike m.alike_refl
  · obtain ⟨hlearned, hacted⟩ := hhandles.grown h
    exact hlearned.trans hacted

/-- With every turn the overlay grows. -/
theorem Sane.turn (h : m.Sane) (ht : Turn ok m m') : m.Grown m' := by
  cases ht with
  | send hp _ _ => exact h.alike hp.alike
  | collect hc => exact h.alike hc.alike
  | shutdown hs => exact h.shutdown hs
  | connect hs label capacity held => exact h.connect hs label capacity held
  | client hs hc hnew hlink hpeer => exact h.addClient hs hc hnew hlink hpeer
  | join hab => exact h.join hab
  | enable hooks => exact h.alike (alike_of_stations rfl)
  | @give w hw p =>
    have herased : m.Grown { m with waiting := m.waiting.eraseP p } :=
      h.alike (alike_of_stations rfl)
    exact herased.trans (herased.sane.alike
      (posts_release (fun _ _ => True) _ w trivial).alike)
  | @deliver place t ht _ =>
    have herased : m.Grown { m with wire := m.wire.eraseIdx place } :=
      h.alike (alike_of_stations rfl)
    exact herased.trans (herased.sane.deliver t)

/-- Servers that may get connected have no connection yet. -/
theorem Sane.exists_strangers (h : m.Sane) (ha : m.Admits (.join a b)) :
    ∃ sa sb, m.Strangers a b sa sb := by
  obtain ⟨hne, hsa, hsb, hno⟩ := ha
  obtain ⟨sa, hsa⟩ := Option.isSome_iff_exists.1 hsa
  obtain ⟨sb, hsb⟩ := Option.isSome_iff_exists.1 hsb
  exact ⟨sa, sb, h.strangers hne hsa hsb hno⟩

section Induction

variable {I : Mesh → Prop} (turn : ∀ m m', m.Sane → I m → Turn ok m m' → I m')

include turn

theorem Sane.collect_induction (h : m.Sane) (hi : I m) : m.collect.1.Sane ∧ I m.collect.1 := by
  have expire : Turn ok m m.expire := .send (m.posts_expire _) rfl rfl
  have hexpire := h.turn expire
  have collect : Turn ok m.expire m.collect.1 :=
    .collect (collects_collectEach hexpire.sane.orderly _)
  exact ⟨(hexpire.sane.turn collect).sane,
    turn _ _ hexpire.sane (turn _ _ h hi expire) collect⟩

theorem Sane.giveReady_induction (h : m.Sane) (hi : I m) (n : Nat) : I (m.giveReady n).1 := by
  induction n generalizing m with
  | zero => exact hi
  | succ n ih =>
    rw [giveReady]
    split
    · exact hi
    next w hfind =>
      have give : Turn ok m _ := .give (List.mem_of_find?_eq_some hfind) m.isReady
      have hgiven := h.turn give
      obtain ⟨hsane, hcollected⟩ := hgiven.sane.collect_induction turn (turn _ _ h hi give)
      exact ih hsane hcollected

theorem Sane.settle_induction (h : m.Sane) (hi : I m) : I m.settle.1 := by
  obtain ⟨hsane, hcollected⟩ := h.collect_induction turn hi
  exact hsane.giveReady_induction turn hcollected _

theorem Sane.actAt_induction (h : m.Sane) (hi : I m) (hs : m.station? id = some st)
    {step : LocalStep} (ha : m.AdmitsAt st step) :
    (m.actAt id st step).1.Sane ∧ I (m.actAt id st step).1 := by
  have hwired := h.wired id st hs
  have one : ∀ {m' : Mesh}, Turn ok m m' → m'.Sane ∧ I m' :=
    fun t => ⟨(h.turn t).sane, turn _ _ h hi t⟩
  cases step with
  | command c =>
    have hobeyed : _ ∨ st.server.Sends none (st.server.obey c).1 := st.server.obey_cases ha
    rcases hobeyed with hdown | hsends
    · simp only [actAt, hdown]
      exact one (.shutdown hs)
    · exact one (.send (posts_set _ hs (st.posts_of_sends (by simp) hsends)) rfl rfl)
  | client label options =>
    obtain ⟨hserver, hnew, hlabel⟩ := ha
    let minted : Station := { st with server := st.server.mintClientId.1 }
    let label' := label.getD (toString st.server.mintClientId.2)
    let connected := (minted.connect label' none options.capacity options.held).1
    have hmint : st.server.Sends none minted.server := Server.sends_of_eq rfl rfl rfl rfl rfl
    have mint : Turn ok m (m.set id minted) :=
      .send (posts_set _ hs (st.posts_of_sends (by simp) hmint)) rfl rfl
    obtain ⟨hsane, hminted⟩ := one mint
    have connect : Turn ok (m.set id minted) ((m.set id minted).set id connected) :=
      .connect station?_set_self label' options.capacity options.held
    have hconnected := turn _ _ hsane hminted connect
    have hsane := (hsane.turn connect).sane
    rw [set_set] at hsane hconnected
    have client : Turn ok (m.set id connected) ((m.set id connected).set id { connected with
        server := connected.server.addClient st.server.mintClientId.2 st.nextLink }) := by
      refine .client station?_set_self ?_ hnew (Nat.lt_succ_self _)
        (hwired.peer_connect options.capacity)
      rw [station?_set_ne]
      · exact hserver
      · rintro rfl
        rw [hserver] at hs
        cases hs
    have hregistered := turn _ _ hsane hconnected client
    have hsane := (hsane.turn client).sane
    rw [set_set] at hsane hregistered
    rw [actAt_client m hlabel]
    exact ⟨hsane, hregistered⟩
  | frame label options f =>
    obtain ⟨hlabel, hpath⟩ := ha
    have hpath' : ∀ msg, f.message = .ok msg → msg.path = [] :=
      fun msg hmsg => hpath msg (by rw [hmsg]; rfl)
    let known := st.obtain label options.capacity options.held
    obtain ⟨hsane, hknown⟩ : (m.set id known.1).Sane ∧ I (m.set id known.1) := by
      simp only [known, Station.obtain]
      split
      · exact one (.send (posts_set _ hs (Station.posts_refl _ st)) rfl rfl)
      · exact one (.connect hs label options.capacity options.held)
    have arrive : Turn ok _ ((m.set id known.1).arrive id known.2 f) :=
      arrive_client hsane station?_set_self (hwired.peer_obtain hlabel) hpath'
    exact ⟨(hsane.turn arrive).sane, turn _ _ hsane hknown arrive⟩
  | neighbour _ _ _ => exact ha.elim
  | closed _ => exact ha.elim
  | unhold _ => exact ha.elim
  | dropQueue _ => exact ha.elim
  | closeLine _ _ => exact ha.elim
  | start _ => exact ha.elim

/-- Before anything follows from it, a move is made of turns already. -/
theorem Sane.effect_induction (h : m.Sane) (hi : I m) {mv : Move} (ha : m.Admits mv)
    (hok : ∀ place, mv = .deliver place → ∀ t ∈ m.wire[place]?, ok t) :
    (m.effect mv).Sane ∧ I (m.effect mv) := by
  have one : ∀ {m' : Mesh}, Turn ok m m' → m'.Sane ∧ I m' :=
    fun t => ⟨(h.turn t).sane, turn _ _ h hi t⟩
  cases mv with
  | join a b =>
    obtain ⟨sa, sb, hab⟩ := h.exists_strangers ha
    exact one (.join hab)
  | deliver place =>
    cases ht : m.wire[place]? with
    | none =>
      rw [effect_deliver_none ht]
      exact ⟨h, hi⟩
    | some t =>
      rw [effect_deliver ht]
      exact one (.deliver ht (hok place rfl t ht))
  | step s =>
    cases s with
    | «at» id s =>
      cases hs : m.station? id with
      | none =>
        rw [effect_at_none hs]
        exact ⟨h, hi⟩
      | some st =>
        rw [effect_at hs]
        exact h.actAt_induction turn hi hs (ha st hs)
    | advance ms =>
      exact one (.send (m.posts_updateAll _ fun s => Server.sends_advance s ms) rfl rfl)
    | enable enabled => exact one (.enable _)
    | pick _ => exact ha.elim
    | lose _ => exact ha.elim
    | cut _ _ => exact ha.elim

/-- What every turn preserves, every move preserves. -/
theorem Sane.move_induction (h : m.Sane) (hi : I m) {mv : Move} (ha : m.Admits mv)
    (hok : ∀ place, mv = .deliver place → ∀ t ∈ m.wire[place]?, ok t) : I (m.move mv) := by
  obtain ⟨hsane, heffect⟩ := h.effect_induction turn hi ha hok
  exact hsane.settle_induction turn heffect

end Induction

theorem Sane.effect (h : m.Sane) {mv : Move} (ha : m.Admits mv) : (m.effect mv).Sane :=
  (h.effect_induction (I := fun _ => True)
    (fun _ _ _ _ (_ : Turn (fun _ => True) _ _) => trivial) trivial ha fun _ _ _ _ => trivial).1

/-- With every move the overlay grows. -/
theorem Sane.move (h : m.Sane) {mv : Move} (ha : m.Admits mv) : m.Grown (m.move mv) :=
  h.move_induction (I := fun m' => m.Grown m')
    (fun _ _ hs hg (ht : Turn (fun _ => True) _ _) => hg.trans (hs.turn ht)) ⟨h, m.extends_refl⟩ ha
    fun _ _ _ _ => trivial

/-- As long as the overlay grows, no connection goes and no route gets longer. -/
theorem Sane.play (h : m.Sane) {moves : List Move} (ha : m.Obeys Admits moves) :
    m.Grown (m.play moves) :=
  play_invariant (I := fun m' => m.Grown m')
    (fun _ _ hg hmv => hg.trans (hg.sane.move hmv)) ⟨h, m.extends_refl⟩ ha

/-- What follows from a move lets the overlay grow, too. -/
theorem Sane.settle (h : m.Sane) : m.Grown m.settle.1 :=
  h.settle_induction (I := fun m' => m.Grown m')
    (fun _ _ hs hg (ht : Turn (fun _ => True) _ _) => hg.trans (hs.turn ht)) ⟨h, m.extends_refl⟩

/-- A station has lost none of the frames that wait there. -/
theorem pending_set (st' : Station) (hs : m.station? id = some st)
    (hq : ∀ b f, st.Queues b f → st'.Queues b f) {t : Transit} (ht : m.Pending t) :
    (m.set id st').Pending t := by
  rcases ht with hwire | ⟨old, ho, hqueues⟩
  · exact .inl hwire
  · refine .inr ?_
    by_cases hid : t.source = id
    · obtain rfl : st = old := Option.some.inj (hs.symm.trans (hid ▸ ho))
      exact ⟨st', by rw [station?_set, if_pos hid], hq _ _ hqueues⟩
    · exact ⟨old, (station?_set_ne hid).trans ho, hqueues⟩

/-- No frame gets lost as long as none arrives. -/
theorem Sane.pending_turn (h : m.Sane) (hm : Turn (fun _ => False) m m') {t : Transit}
    (ht : m.Pending t) : m'.Pending t := by
  cases hm with
  | send hp _ _ => exact hp.pending_of_pending ht
  | collect hc => exact (hc.pending t).2 ht
  | @shutdown id st hs =>
    exact pending_set { st with server := st.server.shutdown } hs (fun _ _ hq => hq) ht
  | connect hs _ _ _ => exact pending_set _ hs (fun _ _ => (h.wired _ _ hs).queues_connect) ht
  | @client id c st link hs _ _ _ _ =>
    exact pending_set { st with server := st.server.addClient c link } hs
      (fun _ _ hq => hq) ht
  | @join a b sa sb hab =>
    have joined : ∀ {c : Id} {st : Station} (d : Id), m.station? c = some st →
        st.Queues t.target t.frame → (st.joined d).Queues t.target t.frame :=
      fun _ hs hq => (h.wired _ _ hs).queues_connect hq
    rcases ht with hwire | ⟨st, hs, hq⟩
    · exact .inl (by simpa [Mesh.join, joinOneWay] using hwire)
    · refine .inr ?_
      rw [hab.station?_join]
      by_cases ha : t.source = a
      · obtain rfl : sa = st := Option.some.inj (hab.left.symm.trans (ha ▸ hs))
        exact ⟨_, if_pos ha, joined b hab.left hq⟩
      · by_cases hb : t.source = b
        · obtain rfl : sb = st := Option.some.inj (hab.right.symm.trans (hb ▸ hs))
          exact ⟨_, by rw [if_neg ha, if_pos hb], joined a hab.right hq⟩
        · exact ⟨st, by rw [if_neg ha, if_neg hb, hs], hq⟩
  | enable _ => exact ht
  | @give w hw p =>
    have herased : ({ m with waiting := m.waiting.eraseP p } : Mesh).Pending t := ht
    exact (posts_release (fun _ _ => True) _ w trivial).pending_of_pending herased
  | deliver _ hok => exact hok.elim

theorem Sane.pending_settle (h : m.Sane) {t : Transit} (ht : m.Pending t) :
    m.settle.1.Pending t :=
  h.settle_induction (I := fun m' => m'.Pending t)
    (fun _ _ hs hp (hm : Turn (fun _ => False) _ _) => hs.pending_turn hm hp) ht

theorem station?_new (servers : List Id) (config : Config) (interceptors : List Interceptor)
    (enabled : Bool) (id : Id) :
    (Mesh.new servers config interceptors enabled).station? id =
      if id ∈ servers then some (Station.new id config) else none :=
  SortedMap.get?_ofList_map servers (Station.new · config) id

theorem eq_of_station?_new {servers : List Id} {config : Config} {interceptors : List Interceptor}
    {enabled : Bool} (hs : (Mesh.new servers config interceptors enabled).station? id = some st) :
    st = Station.new id config := by
  rw [station?_new] at hs
  split at hs
  · exact (Option.some.inj hs).symm
  · cases hs

/-- Before anything has happened, no server has a connection. -/
theorem sane_new (servers : List Id) (config : Config) (interceptors : List Interceptor)
    (enabled : Bool) : (Mesh.new servers config interceptors enabled).Sane := by
  refine ⟨fun id st hs => ?_, fun a b hl => ?_, fun id st d hs _ => ?_⟩
  · rw [eq_of_station?_new hs]
    exact {
      identity := rfl
      own := rfl
      noSelf := rfl
      below := fun line hl => absurd hl List.not_mem_nil
      links := List.nodup_nil
      apart := fun line hl => absurd hl List.not_mem_nil
      direct := fun line hl => absurd hl List.not_mem_nil
      remote := fun d hops next link hget => by cases hget
      clients := fun d link hget => by cases hget }
  · obtain ⟨st, hs, line, hl, -⟩ := linked_iff.1 hl
    rw [eq_of_station?_new hs] at hl
    exact absurd hl List.not_mem_nil
  · rw [eq_of_station?_new hs]
    rintro ⟨link, hget⟩
    cases hget

end Mesh

end RelayMesh
