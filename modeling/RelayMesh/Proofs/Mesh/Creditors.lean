import RelayMesh.Proofs.Mesh.Sound
import RelayMesh.Proofs.Server.Calls

namespace RelayMesh

namespace Server

/-- The server has a route to whomever it owes something. -/
structure InTouch (s : Server) : Prop extends Named s where
  owes : ∀ d, s.Owes d → (s.routes.get? d).isSome

variable {s s' : Server} {came : Option Message}

theorem InTouch.heeds (h : s.InTouch) (hh : s.Heeds came s')
    (hc : ∀ d, s.Owed came d → (s.routes.get? d).isSome) : s'.InTouch := by
  refine ⟨hh.named h.toNamed, fun d hd => ?_⟩
  unfold Routes.get?
  rw [hh.entries]
  exact (hh.owes d hd).elim (h.owes d) (hc d)

/-- The algorithms are as before, and no route has gone. -/
theorem InTouch.of_eq (h : s.InTouch) (hi : s'.identity = s.identity)
    (he : s'.election = s.election) (hx : s'.exclusion = s.exclusion)
    (hr : ∀ d, (s.routes.get? d).isSome → (s'.routes.get? d).isSome) : s'.InTouch := by
  exact ⟨⟨he ▸ hi ▸ h.election, hx ▸ hi ▸ h.exclusion⟩, fun d hd => hr d (h.owes d (hd.of_eq he hx))⟩

end Server

namespace Routes

variable {t : Routes} {d : Id}

theorem isSome_learn (h : (t.get? d).isSome) (path : List Id) (link : LinkId) :
    ((t.learn path link).1.get? d).isSome := by
  rcases t.get?_learn path link d with hsame | ⟨-, -, next, i, -, -, -, hnew⟩
  · rwa [hsame]
  · rw [hnew]
    rfl

/-- From a path that it is not on, a server learns the way to everybody there. -/
theorem isSome_learn_of_mem {path : List Id} (hd : d ∈ path) (hown : t.own ∉ path)
    (link : LinkId) : ((t.learn path link).1.get? d).isSome := by
  by_cases hclient : t.IsClient d
  · obtain ⟨edge, hget⟩ := hclient
    exact isSome_learn (by rw [hget]; rfl) path link
  obtain ⟨next, hlast⟩ : ∃ next, path.getLast? = some next :=
    Option.isSome_iff_exists.1 (by simpa using List.ne_nil_of_mem hd)
  have hnext : next ≠ t.own := fun he => hown (he ▸ List.mem_of_getLast? hlast)
  obtain ⟨i, hi⟩ := List.mem_iff_getElem?.1 (List.mem_reverse.2 hd)
  obtain ⟨hops, via, edge, hget, -⟩ :=
    within_learn hlast hnext hi (fun he => hown (he ▸ hd)) hclient link
  rw [hget]
  rfl

theorem isSome_set (h : (t.get? d).isSome) (id : Id) (route : Route) :
    ((t.set id route).get? d).isSome := by
  rw [get?_set]
  split
  · rfl
  · exact h

end Routes

namespace Mesh

/-- The server `a` has a route to `d`. -/
def Routed (m : Mesh) (a d : Id) : Prop :=
  ∃ st, m.station? a = some st ∧ (st.server.routes.get? d).isSome

/-- The message has been to its sender, and wherever it has been there is a route back. -/
structure Traceable (m : Mesh) (msg : Message) : Prop where
  sender : msg.sender ∈ msg.path
  back : ∀ a ∈ msg.path, a = msg.sender ∨ m.Routed a msg.sender

/-- The message has come to a server with a route to its sender. It may be a request of its own that
has come back. -/
structure Answerable (m : Mesh) (id : Id) (msg : Message) : Prop extends Traceable m msg where
  here : msg.content.kind = .mutexRequest ∧ id = msg.sender ∨ m.Routed id msg.sender

/-- A message on its way comes from where there is a route back. A wave comes straight from its
sender, for everybody and under a type of servers. -/
structure Called (m : Mesh) (t : Transit) (msg : Message) : Prop extends Traceable m msg where
  wave : msg.content.kind = .electionToken →
    msg.sender = t.source ∧ msg.recipient = none ∧ MessageType.isForClients t.frame.type = false

/-- Every server has a route to whomever it owes something, and will have one to whomever it comes to
owe something by what is on its way or kept back. -/
structure InTouch (m : Mesh) : Prop where
  sane : m.Sane
  stations : ∀ id st, m.station? id = some st → st.server.InTouch
  pending : ∀ t msg, m.Pending t → t.frame.message = .ok msg → msg.IsCall → m.Called t msg
  waiting : ∀ w ∈ m.waiting, w.msg.IsCall → m.Answerable w.interceptor.owner w.msg

/-- No route has gone. -/
def KeepsReach (m m' : Mesh) : Prop := ∀ a d, m.Routed a d → m'.Routed a d

variable {m m' : Mesh} {id a d : Id} {st st' : Station} {msg : Message} {t : Transit}

theorem Traceable.mono (h : m.Traceable msg) (hr : m.KeepsReach m') : m'.Traceable msg :=
  ⟨h.sender, fun a ha => (h.back a ha).imp_right (hr a _)⟩

theorem Answerable.mono (h : m.Answerable id msg) (hr : m.KeepsReach m') : m'.Answerable id msg :=
  ⟨h.toTraceable.mono hr, h.here.imp_right (hr id _)⟩

theorem Called.mono (h : m.Called t msg) (hr : m.KeepsReach m') : m'.Called t msg :=
  ⟨h.toTraceable.mono hr, h.wave⟩

theorem keepsReach_set (hs : m.station? id = some st)
    (hr : ∀ d, (st.server.routes.get? d).isSome → (st'.server.routes.get? d).isSome) :
    m.KeepsReach (m.set id st') := by
  rintro a d ⟨old, ho, hsome⟩
  unfold Routed
  rw [station?_set]
  by_cases ha : a = id
  · obtain rfl : st = old := Option.some.inj (hs.symm.trans (ha ▸ ho))
    exact ⟨st', if_pos ha, hr d hsome⟩
  · exact ⟨old, (if_neg ha).trans ho, hsome⟩

/-- Nothing has been sent or kept back, and no route has gone. -/
theorem InTouch.keep (h : m.InTouch) (sane : m'.Sane) (reach : m.KeepsReach m')
    (stations : ∀ id st, m'.station? id = some st → st.server.InTouch)
    (pending : ∀ t, m'.Pending t → m.Pending t) (waiting : ∀ w ∈ m'.waiting, w ∈ m.waiting) :
    m'.InTouch where
  sane := sane
  stations := stations
  pending t msg ht hread hcall := (h.pending t msg (pending t ht) hread hcall).mono reach
  waiting w hw hcall := (h.waiting w (waiting w hw) hcall).mono reach

theorem keepsReach_of_stations (hs : m'.stations = m.stations) : m.KeepsReach m' := by
  rintro a d ⟨st, ho, hsome⟩
  exact ⟨st, by unfold station? at ho ⊢; rwa [hs], hsome⟩

theorem InTouch.refile (h : m.InTouch) (hs : m'.stations = m.stations)
    (hwire : ∀ t ∈ m'.wire, t ∈ m.wire) (hwaiting : ∀ w ∈ m'.waiting, w ∈ m.waiting) :
    m'.InTouch := by
  have hstation : ∀ id, m'.station? id = m.station? id := fun id => by unfold station?; rw [hs]
  refine h.keep (h.sane.alike (alike_of_stations hs)).sane (keepsReach_of_stations hs)
    (fun id st hst => h.stations id st (hstation id ▸ hst)) (fun t ht => ?_) hwaiting
  rcases ht with ht | ⟨st, hst, hq⟩
  · exact .inl (hwire t ht)
  · exact .inr ⟨st, hstation _ ▸ hst, hq⟩

/-- One station has changed, and its server has sent nothing. -/
theorem InTouch.set (h : m.InTouch) (hs : m.station? id = some st) (sane : (m.set id st').Sane)
    (hst : st'.server.InTouch)
    (hr : ∀ d, (st.server.routes.get? d).isSome → (st'.server.routes.get? d).isSome)
    (hq : ∀ b f, st'.Queues b f → st.Queues b f) : (m.set id st').InTouch := by
  refine h.keep sane (keepsReach_set hs hr) (fun other new ho => ?_)
    (fun t ht => pending_of_pending_set hs ht hq) fun _ hw => hw
  rw [station?_set] at ho
  split at ho
  · exact Option.some.inj ho ▸ hst
  · exact h.stations other new ho

/-- Servers have done something, each about a message that it can answer. -/
structure Heeds (m m' : Mesh) : Prop where
  forth : ∀ id st, m.station? id = some st →
    ∃ st', m'.station? id = some st' ∧ st'.server.routes.entries = st.server.routes.entries
  back : ∀ id st', m'.station? id = some st' → ∃ st came, m.station? id = some st ∧
    st'.lines = st.lines ∧ st.server.Heeds came st'.server ∧
      ∀ msg ∈ came, msg.IsCall → m.Answerable id msg

theorem heeds_set (hs : m.station? id = some st) {came : Option Message} {s : Server}
    (hh : st.server.Heeds came s) (hc : ∀ msg ∈ came, msg.IsCall → m.Answerable id msg) :
    m.Heeds (m.set id { st with server := s }) := by
  constructor
  · intro other old ho
    by_cases he : other = id
    · subst he
      obtain rfl : st = old := Option.some.inj (hs.symm.trans ho)
      exact ⟨_, station?_set_self, hh.entries⟩
    · exact ⟨old, (station?_set_ne he).trans ho, rfl⟩
  · intro other new ho
    rw [station?_set] at ho
    split at ho
    next he =>
      subst he
      cases ho
      exact ⟨st, came, hs, rfl, hh, hc⟩
    next => exact ⟨new, none, ho, rfl, Server.heeds_refl none _, nofun⟩

theorem InTouch.heeds_updateAll (h : m.InTouch) {change : Server → Server}
    (hc : ∀ s : Server, s.Named → s.Heeds none (change s)) : m.Heeds (m.updateAll change) := by
  constructor
  · intro id st hs
    refine ⟨{ st with server := change st.server }, by rw [station?_updateAll, hs]; rfl, ?_⟩
    exact (hc _ (h.stations id st hs).toNamed).entries
  · intro id st' hs'
    rw [station?_updateAll] at hs'
    obtain ⟨st, hs, rfl⟩ := Option.map_eq_some_iff.1 hs'
    exact ⟨st, none, hs, rfl, hc _ (h.stations id st hs).toNamed, nofun⟩

theorem Heeds.keepsReach (h : m.Heeds m') : m.KeepsReach m' := by
  rintro a d ⟨st, hs, hsome⟩
  obtain ⟨st', hs', hentries⟩ := h.forth a st hs
  exact ⟨st', hs', by unfold Routes.get?; rwa [hentries]⟩

/-- What a server owes because of a message that it can answer, it can send. -/
theorem Answerable.routed (hs : m.station? id = some st) (hid : st.server.identity = id)
    {came : Option Message} (hc : ∀ msg ∈ came, msg.IsCall → m.Answerable id msg)
    (hd : st.server.Owed came d) : (st.server.routes.get? d).isSome := by
  obtain ⟨msg, hcame, rfl, hkind⟩ := hd
  have hcall : msg.IsCall := hkind.imp_right And.left
  rcases (hc msg hcame hcall).here with ⟨hrequest, hself⟩ | ⟨old, ho, hsome⟩
  -- A request of its own that has come back leaves no debt.
  · rcases hkind with htoken | ⟨-, hne⟩
    · rw [hrequest] at htoken
      cases htoken
    · exact absurd (hid.trans hself).symm hne
  · obtain rfl : st = old := Option.some.inj (hs.symm.trans ho)
    exact hsome

/-- The calls that a server writes about a message that it can answer. -/
theorem Answerable.called {came : Option Message} (ht : t.frame.Relays t.source came)
    (hc : ∀ msg ∈ came, msg.IsCall → m.Answerable t.source msg) (hread : t.frame.message = .ok msg)
    (hcall : msg.IsCall) : m.Called t msg := by
  rcases ht msg hread hcall with
    ⟨hsender, hpath, hwave⟩ | ⟨hkind, old, hcame, holdCall, hsender, hpath⟩
  · refine ⟨⟨(hpath _).2 hsender, fun a ha => .inl ?_⟩, fun hk => ⟨hsender, hwave hk⟩⟩
    rw [hsender]
    exact (hpath a).1 ha
  · have hans := hc old hcame holdCall
    refine ⟨⟨(hpath _).2 (.inl (hsender ▸ hans.sender)), fun a ha => ?_⟩, fun hwave => ?_⟩
    · rw [hsender]
      rcases (hpath a).1 ha with hold | rfl
      · exact hans.back a hold
      · exact hans.here.imp_left And.right
    · rw [hkind] at hwave
      cases hwave

/-- Whatever servers do about messages that they can answer, they stay in touch. -/
theorem InTouch.heed (h : m.InTouch) (sane : m'.Sane) (hh : m.Heeds m')
    (hwire : ∀ t ∈ m'.wire, t ∈ m.wire) (hwaiting : ∀ w ∈ m'.waiting, w ∈ m.waiting ∨
      (w.msg.IsCall → m.Answerable w.interceptor.owner w.msg)) : m'.InTouch where
  sane := sane
  stations := by
    intro id st' hs'
    obtain ⟨st, came, hs, -, hheeds, hc⟩ := hh.back id st' hs'
    exact (h.stations id st hs).heeds hheeds fun d hd =>
      Answerable.routed hs (h.sane.wired id st hs).identity hc hd
  pending := by
    intro t msg ht hread hcall
    refine Called.mono ?_ hh.keepsReach
    rcases ht with ht | ⟨st', hs', line, hl, hpeer, hf⟩
    · exact h.pending t msg (.inl (hwire t ht)) hread hcall
    · obtain ⟨st, came, hs, hlines, hheeds, hc⟩ := hh.back _ st' hs'
      obtain ⟨frames, hq, hnew⟩ := hheeds.outbox.queues line.link
      rw [hq] at hf
      rcases List.mem_append.1 hf with hold | hwritten
      · exact h.pending t msg (.inr ⟨st, hs, line, hlines ▸ hl, hpeer, hold⟩) hread hcall
      · have hrelays := hnew _ hwritten
        rw [(h.sane.wired _ st hs).identity] at hrelays
        exact Answerable.called hrelays hc hread hcall
  waiting := by
    intro w hw hcall
    exact ((hwaiting w hw).elim (fun hold => h.waiting w hold hcall) fun hnew => hnew hcall).mono
      hh.keepsReach

/-- A server has done something about a message that it can answer. -/
theorem InTouch.act (h : m.InTouch) (hs : m.station? id = some st) {came : Option Message}
    {s : Server} (sane : (m.set id { st with server := s }).Sane) (hh : st.server.Heeds came s)
    (hc : ∀ msg ∈ came, msg.IsCall → m.Answerable id msg) :
    (m.set id { st with server := s }).InTouch :=
  h.heed sane (heeds_set hs hh hc) (fun _ ht => ht) fun _ hw => .inl hw

/-- All servers have done something on their own account. -/
theorem InTouch.actAll (h : m.InTouch) {change : Server → Server}
    (sane : (m.updateAll change).Sane) (hc : ∀ s : Server, s.Named → s.Heeds none (change s)) :
    (m.updateAll change).InTouch :=
  h.heed sane (h.heeds_updateAll hc) (fun _ ht => ht) fun _ hw => .inl hw

/-- What has come to a server, it can answer once it has learned from it. -/
theorem InTouch.answerable (h : m.InTouch) {line : Line} (hh : m.Handles t st line msg)
    (ht : msg.IsCall → m.Called t msg) (hcall : msg.IsCall) :
    (m.set t.target { st with server := st.server.learnRoutes msg line.link }).Answerable t.target
      msg := by
  have hwired := h.sane.wired _ st hh.station
  have hreach : m.KeepsReach
      (m.set t.target { st with server := st.server.learnRoutes msg line.link }) := by
    refine keepsReach_set hh.station fun d hd => ?_
    rw [Server.routes_learnRoutes]
    exact Routes.isSome_learn hd _ _
  have hcalled := ht hcall
  refine ⟨hcalled.toTraceable.mono hreach, ?_⟩
  rcases hcall with hwave | hrequest
  · refine .inr (hreach _ _ ⟨st, hh.station, ?_⟩)
    rw [(hcalled.wave hwave).1, hwired.direct line hh.mem t.source hh.peer]
    rfl
  -- Whoever is on the path knew the way back before; anybody else learns it from the path.
  · by_cases hmem : t.target ∈ msg.path
    · exact (hcalled.back _ hmem).imp (fun he => ⟨hrequest, he⟩) (hreach _ _)
    · refine .inr ⟨_, station?_set_self, ?_⟩
      rw [Server.routes_learnRoutes]
      exact Routes.isSome_learn_of_mem hcalled.sender (by rwa [hwired.own]) _

/-- A server has learned from a message that arrives, and announced itself to those that it has learned
of. -/
theorem InTouch.learn (h : m.InTouch) {line : Line} (hh : m.Handles t st line msg) :
    (m.set t.target { st with server := st.server.learnRoutes msg line.link }).InTouch := by
  let taught := st.taught msg.path line.link
  have hsane := (hh.grown h.sane).1.sane
  have hst : taught.server.InTouch := (h.stations _ st hh.station).of_eq rfl rfl rfl
    fun d hd => Routes.isSome_learn hd _ _
  have htaught : (m.set t.target taught).InTouch := h.set hh.station hsane hst
    (fun d hd => Routes.isSome_learn hd _ _) fun _ _ hq => hq
  have hsends : taught.server.Sends none (st.server.learnRoutes msg line.link) :=
    Server.sends_learnRoutes st.server msg line.link
  have hheeds : taught.server.Heeds none (st.server.learnRoutes msg line.link) :=
    Server.heeds_learnRoutes st.server msg line.link
  have hlearned := htaught.act station?_set_self (hsane.act station?_set_self hsends).sane hheeds
    nofun
  rwa [set_set] at hlearned

/-- A server learns from a message that arrives, and then it does what the message asks for. -/
theorem InTouch.deliver (h : m.InTouch)
    (ht : ∀ msg, t.frame.message = .ok msg → msg.IsCall → m.Called t msg) :
    (m.deliver t).InTouch := by
  rcases h.sane.deliver_cases t with hsame | ⟨st, line, msg, hh⟩
  · rwa [hsame]
  let learned : Station := { st with server := st.server.learnRoutes msg line.link }
  have hlearned : (m.set t.target learned).InTouch := h.learn hh
  have hans := h.answerable hh (ht msg hh.read)
  have hheeds : learned.server.Heeds (some msg)
      (learned.server.dispatch m.hooks t.frame.type msg).1 :=
    Server.heeds_dispatch (hlearned.stations _ _ station?_set_self).toNamed m.hooks
      fun hk => ((ht msg hh.read (.inl hk)).wave hk).2
  have hset := heeds_set (m := m.set t.target learned) station?_set_self hheeds
    fun _ hcame => Option.some.inj hcame ▸ hans
  rw [set_set] at hset
  have hdelivered := hh.deliver h.sane
  refine hlearned.heed (hh.grown h.sane).2.sane ?_ (fun t' ht' => ?_) fun w hw => ?_
  · rw [hdelivered]
    exact ⟨hset.forth, hset.back⟩
  · rwa [hdelivered] at ht'
  · rw [hdelivered] at hw
    rcases List.mem_append.1 hw with hold | hkept
    · exact .inl hold
    · obtain ⟨hmsg, howner⟩ := Server.withheld_dispatch (Option.mem_toList.1 hkept)
      rw [Server.identity_learnRoutes, (h.sane.wired _ st hh.station).identity] at howner
      refine .inr fun hcall => ?_
      rw [hmsg] at hcall ⊢
      exact howner ▸ hans hcall

/-- Two servers have got a connection. -/
theorem InTouch.join (h : m.InTouch) {a b : Id} {sa sb : Station} (hab : m.Strangers a b sa sb) :
    (m.join a b).InTouch := by
  have joined (st : Station) (e d : Id) (hd : (st.server.routes.get? d).isSome) :
      ((st.joined e).server.routes.get? d).isSome := Routes.isSome_set hd _ _
  refine h.keep (h.sane.join hab).sane ?_ (fun c st' hs' => ?_) (fun t ht => hab.pending_of_join ht)
    fun w hw => by simpa [Mesh.join, joinOneWay] using hw
  · rintro c d ⟨st, hs, hd⟩
    unfold Routed
    rw [hab.station?_join]
    by_cases hca : c = a
    · obtain rfl : sa = st := Option.some.inj (hab.left.symm.trans (hca ▸ hs))
      exact ⟨_, if_pos hca, joined sa b d hd⟩
    · by_cases hcb : c = b
      · obtain rfl : sb = st := Option.some.inj (hab.right.symm.trans (hcb ▸ hs))
        exact ⟨_, by rw [if_neg hca, if_pos hcb], joined sb a d hd⟩
      · exact ⟨st, by rw [if_neg hca, if_neg hcb, hs], hd⟩
  · rcases hab.cases hs' with ⟨st, e, hs, rfl, -, -⟩ | hs
    · exact (h.stations c st hs).of_eq rfl rfl rfl (joined st e)
    · exact h.stations c st' hs

/-- What comes over a connection to no server is no call. -/
theorem InTouch.arrive_client (h : m.InTouch) (hs : m.station? id = some st) {link : LinkId}
    (hlink : ∀ line ∈ st.lines, line.link = link → line.peer = none) {f : Frame}
    (hpath : ∀ msg, f.message = .ok msg → msg.path = []) : (m.arrive id link f).InTouch := by
  have hclient : ∀ r, st.server.routes.atLink link = some r → r.2.isClient = true :=
    fun r hr => (h.sane.wired id st hs).isClient_of_atLink hlink hr
  obtain ⟨hsends, hkept⟩ : st.server.Sends none (st.server.arrive m.hooks link f).1 ∧
      (st.server.arrive m.hooks link f).2 = none :=
    Server.sends_arrive_client m.hooks hclient hpath
  have hheeds : st.server.Heeds none (st.server.arrive m.hooks link f).1 :=
    Server.heeds_arrive_client m.hooks hclient
  have harrived : (m.set id { st with server := (st.server.arrive m.hooks link f).1 }).InTouch :=
    h.act hs (h.sane.act hs hsends).sane hheeds nofun
  unfold arrive
  simp only [hs, hkept, waiting_set, Option.toList_none, List.append_nil]
  exact harrived

/-- A server has a connection under a name, which may be a new one to something that is no server. -/
theorem InTouch.obtain (h : m.InTouch) (hs : m.station? id = some st) (label : String)
    (capacity : Nat) (held : Bool) : (m.set id (st.obtain label capacity held).1).InTouch := by
  unfold Station.obtain
  split
  · rwa [set_self hs]
  · exact h.set hs (h.sane.connect hs label capacity held).sane
      ((h.stations id st hs).of_eq rfl rfl rfl fun _ hd => hd) (fun _ hd => hd)
      fun _ _ => Station.queues_of_queues_connect

/-- A client has registered with a server over a connection of its own. -/
theorem InTouch.attach (h : m.InTouch) (hs : m.station? id = some st) {label : Option String}
    {options : QueueOptions} (sane : (m.set id (st.attached label options)).Sane) :
    (m.set id (st.attached label options)).InTouch := by
  have hroutes (d : Id) (hd : (st.server.routes.get? d).isSome) :
      ((st.attached label options).server.routes.get? d).isSome := Routes.isSome_set hd _ _
  have hqueues (b : Id) (f : Frame) (hq : (st.attached label options).Queues b f) :
      ({ st with server := st.server.mintClientId.1 } : Station).Queues b f :=
    Station.queues_of_queues_connect hq
  exact h.set hs sane ((h.stations id st hs).of_eq rfl rfl rfl hroutes) hroutes hqueues

/-- One case for each kind of step at a server. -/
theorem InTouch.actAt (h : m.InTouch) (hs : m.station? id = some st) {step : LocalStep}
    (ha : m.AdmitsAt st step) (hc : ∀ c, step = .command c → c.NoCall)
    (sane : (m.actAt id st step).1.Sane) : (m.actAt id st step).1.InTouch := by
  cases step with
  | command c =>
    have hobeyed : st.server.Heeds none (st.server.obey c).1 :=
      Server.heeds_obey (h.stations id st hs).toNamed (hc c rfl)
    exact h.act hs sane hobeyed nofun
  | client label options =>
    obtain ⟨-, -, hlabel⟩ := ha
    rw [actAt_client m hlabel] at sane ⊢
    exact h.attach hs sane
  | frame label options f =>
    obtain ⟨hlabel, hpath⟩ := ha
    have hpath' : ∀ msg, f.message = .ok msg → msg.path = [] :=
      fun msg hmsg => hpath msg (by rw [hmsg]; rfl)
    have hobtained := h.obtain hs label options.capacity options.held
    exact hobtained.arrive_client station?_set_self ((h.sane.wired id st hs).peer_obtain hlabel) hpath'
  | neighbour _ _ _ => exact ha.elim
  | closed _ => exact ha.elim
  | unhold _ => exact ha.elim
  | dropQueue _ => exact ha.elim
  | closeLine _ _ => exact ha.elim
  | start _ => exact ha.elim

/-- No wave and no request comes from outside. -/
def Move.NoCall : Move → Prop
  | .step (.at _ (.command c)) => c.NoCall
  | _ => True

instance : DecidablePred Move.NoCall
  | .step (.at _ (.command c)) => inferInstanceAs (Decidable c.NoCall)
  | .step (.at _ (.neighbour _ _ _)) | .step (.at _ (.client _ _)) | .step (.at _ (.frame _ _ _))
  | .step (.at _ (.closed _)) | .step (.at _ (.unhold _)) | .step (.at _ (.dropQueue _))
  | .step (.at _ (.closeLine _ _)) | .step (.at _ (.start _)) => .isTrue trivial
  | .join _ _ | .deliver _ | .step (.advance _) | .step (.enable _) | .step (.pick _)
  | .step (.lose _) | .step (.cut _ _) => .isTrue trivial

theorem InTouch.effect (h : m.InTouch) {mv : Move} (ha : m.Admits mv) (hc : mv.NoCall) :
    (m.effect mv).InTouch := by
  have sane := h.sane.effect ha
  cases mv with
  | join a b =>
    obtain ⟨sa, sb, hab⟩ := h.sane.exists_strangers ha
    exact h.join hab
  | deliver place =>
    cases ht : m.wire[place]? with
    | none => rwa [effect_deliver_none ht]
    | some t =>
      rw [effect_deliver ht]
      have hgone : ({ m with wire := m.wire.eraseIdx place } : Mesh).InTouch :=
        h.refile rfl (fun _ => List.mem_of_mem_eraseIdx) fun _ hw => hw
      exact hgone.deliver fun msg hread hcall =>
        (h.pending t msg (.inl (List.mem_of_getElem? ht)) hread hcall).mono
          (keepsReach_of_stations rfl)
  | step s =>
    cases s with
    | «at» id s =>
      cases hs : m.station? id with
      | none => rwa [effect_at_none hs]
      | some st =>
        rw [effect_at hs] at sane ⊢
        refine h.actAt hs (ha st hs) (fun c hcommand => ?_) sane
        subst hcommand
        exact hc
    | advance ms =>
      have hall : (m.updateAll (·.advance ms)).InTouch :=
        h.actAll sane fun s hn => Server.heeds_advance hn ms
      exact hall
    | enable enabled => exact h.refile rfl (fun _ ht => ht) fun _ hw => hw
    | pick _ => exact ha.elim
    | lose _ => exact ha.elim
    | cut _ _ => exact ha.elim

/-- All that is due at a server happens. -/
theorem InTouch.expire (h : m.InTouch) : m.expire.InTouch :=
  h.actAll (h.sane.alike (m.posts_expire fun _ _ => False).alike).sane
    fun _ hn => Server.heeds_expire hn

theorem InTouch.collectAt (h : m.InTouch) (id : Id) : (m.collectAt id).1.InTouch := by
  have hc := collects_collectAt h.sane.orderly id
  have hsane := (h.sane.alike hc.alike).sane
  cases hs : m.station? id with
  | none => rwa [collectAt_none hs]
  | some st =>
    obtain ⟨outbox, hdrained, -⟩ := st.exists_drain
    refine h.keep hsane ?_ (fun other new ho => ?_) (fun t => (hc.pending t).1) fun w hw => hc.waiting ▸ hw
    · rintro a d ⟨old, ho, hd⟩
      obtain ⟨new, hn, halike⟩ := hc.alike.forth a old ho
      exact ⟨new, hn, by rwa [halike.get?]⟩
    · rw [station?_collectAt hs] at ho
      split at ho
      · cases ho
        rw [hdrained]
        exact (h.stations id st hs).of_eq rfl rfl rfl fun _ hd => hd
      · exact h.stations other new ho

/-- A message that was kept back is given to its server. -/
theorem InTouch.give (h : m.InTouch) {w : Withheld} (hw : w ∈ m.waiting) (p : Withheld → Bool) :
    (({ m with waiting := m.waiting.eraseP p } : Mesh).updateServer w.interceptor.owner
      (·.release w)).InTouch := by
  have hgone : ({ m with waiting := m.waiting.eraseP p } : Mesh).InTouch :=
    h.refile rfl (fun _ ht => ht) fun _ => List.mem_of_mem_eraseP
  have give : Turn (fun _ => True) m (({ m with waiting := m.waiting.eraseP p } : Mesh).updateServer
      w.interceptor.owner (·.release w)) := .give hw p
  have hsane := (h.sane.turn give).sane
  unfold updateServer update at hsane ⊢
  cases hs : ({ m with waiting := m.waiting.eraseP p } : Mesh).station? w.interceptor.owner with
  | none => exact hgone
  | some st =>
    rw [hs] at hsane
    have hans : ∀ msg ∈ some w.msg, msg.IsCall → ({ m with
        waiting := m.waiting.eraseP p } : Mesh).Answerable w.interceptor.owner msg := by
      rintro _ ⟨⟩ hcall
      exact (h.waiting w hw hcall).mono (keepsReach_of_stations rfl)
    exact hgone.act hs hsane (Server.heeds_release (hgone.stations _ st hs).toNamed w) hans

theorem inTouch_new (servers : List Id) (config : Config) (interceptors : List Interceptor)
    (enabled : Bool) : (Mesh.new servers config interceptors enabled).InTouch where
  sane := sane_new servers config interceptors enabled
  stations := by
    intro id st hs
    rw [eq_of_station?_new hs]
    refine ⟨⟨rfl, rfl⟩, fun d hd => ?_⟩
    cases hd with
    | echo hd => cases hd
    | token hd => cases hd
  pending := by
    rintro t msg (ht | ⟨st, hs, line, hl, -⟩)
    · cases ht
    · rw [eq_of_station?_new hs] at hl
      cases hl
  waiting w hw := absurd hw List.not_mem_nil

/-- The moments that an overlay comes through. A move has its effect, timers go off, the queues of a
server are emptied, or a server gets a message that was kept back, no matter what it waits for. -/
inductive Reached (m : Mesh) : Mesh → Prop
  | here : Reached m m
  | effect {m' : Mesh} {mv : Move} (h : Reached m m') (ha : m'.Admits mv) (hc : mv.NoCall) :
      Reached m (m'.effect mv)
  | expire {m' : Mesh} (h : Reached m m') : Reached m m'.expire
  | collect {m' : Mesh} (h : Reached m m') (id : Id) : Reached m (m'.collectAt id).1
  | give {m' : Mesh} (h : Reached m m') {p : Withheld → Bool} {w : Withheld}
      (hw : m'.waiting.find? p = some w) :
      Reached m (({ m' with waiting := m'.waiting.eraseP p } : Mesh).updateServer
        w.interceptor.owner (·.release w))

theorem Reached.inTouch (hr : m.Reached m') (h : m.InTouch) : m'.InTouch := by
  induction hr with
  | here => exact h
  | effect _ ha hc ih => exact ih.effect ha hc
  | expire _ ih => exact ih.expire
  | collect _ id ih => exact ih.collectAt id
  | @give m' _ p w hw ih => exact ih.give (List.mem_of_find?_eq_some hw) p

/-- Moves with all that follows from them lead through such moments only. -/
theorem reached_play {moves : List Move}
    (ho : m.Obeys (fun m mv => m.Admits mv ∧ mv.NoCall) moves) : m.Reached (m.play moves) := by
  refine play_invariant (I := m.Reached) (fun m' mv h hmv => ?_) .here ho
  exact settle_invariant (I := m.Reached) (fun _ => .expire) (fun _ id h => .collect h id)
    (fun _ _ h hw => .give h hw) (.effect h hmv.1 hmv.2)

/-- A route never leads to the server itself. -/
theorem Sane.reaches (h : m.Sane) (hs : m.station? id = some st)
    (hd : (st.server.routes.get? d).isSome) : st.server.Reaches d := by
  have hwired := h.wired id st hs
  refine ⟨?_, hd⟩
  rintro rfl
  rw [hwired.identity, hwired.noSelf] at hd
  cases hd

/-- About a message that it can answer, a server sends nothing astray. -/
theorem InTouch.finds (h : m.InTouch) (hs : m.station? id = some st) {came : Option Message}
    (hc : ∀ msg ∈ came, msg.IsCall → m.Answerable id msg) {o : Outgoing}
    (ho : st.server.Asks came o) : st.server.Finds o := by
  have hst := h.stations id st hs
  exact Server.finds_of_asks hst.toNamed (fun d hd => h.sane.reaches hs (hst.owes d hd))
    (fun d hd => h.sane.reaches hs
      (Answerable.routed hs (h.sane.wired id st hs).identity hc hd)) ho

/-- At every moment a server has a route to all servers whose requests it knows and to the parent of
its election, and it is none of these itself. So what its algorithms send to one server never fails for
want of a route nor because it would go to the server itself: neither what they send on their own
account, nor about a message that was kept back, nor about one that arrives. -/
theorem creditors_within_reach {servers : List Id} {config : Config}
    {interceptors : List Interceptor} {enabled : Bool} {m : Mesh}
    (hr : (Mesh.new servers config interceptors enabled).Reached m) {id : Id} {st : Station}
    (hs : m.station? id = some st) :
    (∀ d, (st.server.exclusion.requests.get? d).isSome ∨ st.server.election.parent = some d →
      d ≠ id ∧ (st.server.routes.get? d).isSome) ∧
    (∀ o, st.server.Asks none o → st.server.Finds o) ∧
    (∀ w ∈ m.waiting, w.interceptor.owner = id →
      ∀ o, st.server.Asks (some w.msg) o → st.server.Finds o) ∧
    (∀ t ∈ m.wire, ∀ line msg, m.Handles t st line msg →
      ∀ o, (st.server.learnRoutes msg line.link).Asks (some msg) o →
        (st.server.learnRoutes msg line.link).Finds o) := by
  have h : m.InTouch := hr.inTouch (inTouch_new servers config interceptors enabled)
  have own : ∀ msg ∈ (none : Option Message), msg.IsCall → m.Answerable id msg := nofun
  refine ⟨fun d hd => ?_, fun o ho => h.finds hs own ho, fun w hw howner o ho => ?_,
    fun t ht line msg hh o ho => ?_⟩
  · have howes : st.server.Owes d := hd.elim .token .echo
    have hreaches := h.sane.reaches hs ((h.stations id st hs).owes d howes)
    exact ⟨(h.sane.wired id st hs).identity ▸ hreaches.other, hreaches.route⟩
  · refine h.finds hs (fun msg hcame hcall => ?_) ho
    obtain rfl : w.msg = msg := Option.some.inj hcame
    exact howner ▸ h.waiting w hw hcall
  · have hans := h.answerable hh (h.pending t msg (.inl ht) hh.read)
    exact (h.learn hh).finds station?_set_self (fun _ hcame => Option.some.inj hcame ▸ hans) ho

/-- Server 3 does not get the requests of 1. -/
def detaining : Interceptor :=
  ⟨"late", 3, { sender := some 1, kind := some .mutexRequest }, { never := true }⟩

/-- In a row of three servers, 1 is elected, 3 gets the token and is done with it, and the request of 1
is kept back from it. -/
def detained : List Move :=
  [.join 1 2, .join 2 3, .step (.at 1 (.command .elect))] ++ List.replicate 12 (.deliver 0) ++
    [.step (.at 3 (.command .request))] ++ List.replicate 8 (.deliver 0) ++
      [.step (.at 3 (.command .release)), .step (.at 1 (.command .request))] ++
        List.replicate 2 (.deliver 0)

/-- Server 3 has the way to the parent of its election, and once it gets the request it gives the token
to 1, which is two hops away. -/
theorem creditors_within_reach_detained :
    let m := (Mesh.new [1, 2, 3] {} [detaining] true).play detained
    ∃ st, m.station? 3 = some st ∧ st.server.election.parent = some 2 ∧
      (st.server.routes.get? 2).isSome ∧ ∃ w ∈ m.waiting, w.msg.sender = 1 ∧
        ∃ o, o.addressed?.map (·.1) = some 1 ∧ st.server.Asks (some w.msg) o ∧ st.server.Finds o := by
  intro m
  have hmoves : (Mesh.new [1, 2, 3] {} [detaining] true).Obeys
      (fun m mv => m.Admits mv ∧ mv.NoCall) detained := by decide +kernel
  obtain ⟨st, hs, hparent, w, hw, howner, hsender, o, ho, hdest⟩ : ∃ st ∈ m.station? 3,
      st.server.election.parent = some 2 ∧ ∃ w ∈ m.waiting, w.interceptor.owner = 3 ∧
        w.msg.sender = 1 ∧ ∃ o ∈ (st.server.exclusion.receive w.msg).2,
          o.addressed?.map (·.1) = some 1 := by decide +kernel
  obtain ⟨hroutes, -, hkept, -⟩ := creditors_within_reach (reached_play hmoves) hs
  have hasks : st.server.Asks (some w.msg) o := .exclusion ho
  exact ⟨st, hs, hparent, (hroutes 2 (.inr hparent)).2, w, hw, hsender, o, hdest, hasks,
    hkept w hw howner o hasks⟩

end Mesh

end RelayMesh
