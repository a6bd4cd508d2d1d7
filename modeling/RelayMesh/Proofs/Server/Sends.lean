import RelayMesh.Proofs.Server.Acts
import RelayMesh.Proofs.Wire.Reading

namespace RelayMesh

/-- The message starts here, or it goes on where `came` has got to. -/
def Message.Stems (came : Option Message) (msg : Message) : Prop :=
  msg.path = [] ∨ ∃ m ∈ came, msg.path = m.path ∧ msg.content.kind = m.content.kind

theorem Message.stems_self (msg : Message) : msg.Stems (some msg) := .inr ⟨msg, rfl, rfl, rfl⟩

theorem Outgoing.Own.stems {o : Outgoing} (h : o.Own) (came : Option Message) :
    o.message.Stems came := .inl h.path

theorem Message.visitLimit_of_kind {m m' : Message} (h : m.content.kind = m'.content.kind) :
    m.content.visitLimit = m'.content.visitLimit := by
  cases hm : m.content <;> cases hm' : m'.content <;> simp_all [Content.kind, Content.visitLimit]

namespace Outbox

/-- Some of the queues have got longer, by frames with a property. -/
structure Grows (P : LinkId → Frame → Prop) (o o' : Outbox) : Prop where
  queues : ∀ link, ∃ frames, o'.waiting link = o.waiting link ++ frames ∧ ∀ f ∈ frames, P link f
  capacities : ∀ link, (o'.get? link).map (·.capacity) = (o.get? link).map (·.capacity)

variable {P : LinkId → Frame → Prop} {o o' o'' : Outbox} {f : Frame} {link : LinkId}

theorem grows_refl (P : LinkId → Frame → Prop) (o : Outbox) : Grows P o o :=
  ⟨fun _ => ⟨[], by simp, by simp⟩, fun _ => rfl⟩

theorem Grows.trans (h : Grows P o o') (h' : Grows P o' o'') : Grows P o o'' := by
  refine ⟨fun link => ?_, fun link => (h'.capacities link).trans (h.capacities link)⟩
  obtain ⟨first, hq, hfirst⟩ := h.queues link
  obtain ⟨later, hq', hlater⟩ := h'.queues link
  refine ⟨first ++ later, by rw [hq', hq, List.append_assoc], fun f hf => ?_⟩
  exact (List.mem_append.1 hf).elim (hfirst f) (hlater f)

theorem Grows.mono {Q : LinkId → Frame → Prop} (h : Grows P o o')
    (hq : ∀ link f, P link f → Q link f) : Grows Q o o' := by
  refine ⟨fun link => ?_, h.capacities⟩
  obtain ⟨frames, hframes, hp⟩ := h.queues link
  exact ⟨frames, hframes, fun f hf => hq link f (hp f hf)⟩

theorem grows_push (h : o.push link f = .ok o') (hf : P link f) : Grows P o o' := by
  refine ⟨fun other => ⟨_, waiting_of_push h other, fun g hg => ?_⟩, fun other => ?_⟩
  · split at hg
    next he => rwa [List.mem_singleton.1 hg, he]
    next => simp at hg
  · obtain ⟨queue, hq, -, rfl⟩ := push_eq_ok_iff.1 h
    rw [SortedMap.get?_insert]
    split
    next he => simp [he, hq]
    next => rfl

theorem grows_pushEach (o : Outbox) {links : List LinkId} (hf : ∀ link ∈ links, P link f) :
    Grows P o (o.pushEach f links).1 := by
  induction links generalizing o with
  | nil => exact grows_refl P o
  | cons link links ih =>
    have hrest : ∀ link ∈ links, P link f := fun l hl => hf l (List.mem_cons_of_mem _ hl)
    rw [pushEach]
    split
    next o' h => exact (grows_push h (hf link List.mem_cons_self)).trans (ih o' hrest)
    next => exact ih o hrest

end Outbox

namespace Server

theorem isClient_of_mem_clients {t : Routes} {b : Id × Route} (h : b ∈ t.clients) :
    t.get? b.1 = some ⟨.client, b.2.link⟩ := by
  obtain ⟨hmem, hc⟩ := List.mem_filter.1 h
  obtain ⟨id, reach, link⟩ := b
  have hreach : reach = .client := by simpa [Route.isClient] using hc
  rw [hreach] at hmem
  exact t.entries.mem_toList_iff.1 hmem

section Grows

variable {ok : Outgoing → Prop} {P : LinkId → Frame → Prop} {s s' : Server} {type : MessageType}
  {msg : Message}

theorem Kept.frame (h : s.Kept s') (type : MessageType) (msg : Message) :
    s'.frame type msg = s.frame type msg := by
  unfold Server.frame
  rw [h.identity, h.config]

theorem grows_flood (s : Server) (except : Option Id)
    (h : ∀ link f, s.frame type (msg.appendToPath s.identity) = .ok f → P link f) :
    s.outbox.Grows P (s.flood except type msg).1.outbox := by
  simp only [flood]
  split
  · exact Outbox.grows_refl P _
  next f hf => exact Outbox.grows_pushEach _ fun link _ => h link f hf

theorem grows_sendTo {dest : Id} (hs : s.sendTo dest type msg = .ok s')
    (h : ∀ link f, s.frame type (msg.appendToPath s.identity) = .ok f → P link f) :
    s.outbox.Grows P s'.outbox := by
  obtain ⟨-, route, f, outbox, -, hf, hpush, rfl⟩ := sendTo_eq_ok_iff.1 hs
  exact Outbox.grows_push hpush (h _ f hf)

/-- What holds of the frame of a send holds of all that the send adds to the queues. -/
theorem grows_carryOut (s : Server) {o : Outgoing}
    (h : ∀ link f, s.frame o.type (o.message.appendToPath s.identity) = .ok f → P link f) :
    s.outbox.Grows P (s.carryOut o).outbox := by
  cases o with
  | flood except type msg => exact s.grows_flood except h
  | toServer dest type msg =>
    rw [carryOut]
    split
    next s' hs => exact grows_sendTo hs h
    next => exact Outbox.grows_refl P _

theorem Acts.grows (h : Acts ok s s') (write : ∀ o, ok o → ∀ link f,
    s.frame o.type (o.message.appendToPath s.identity) = .ok f → P link f) :
    s.outbox.Grows P s'.outbox := by
  induction h with
  | refl => exact Outbox.grows_refl P _
  | send h ho ih =>
    refine ih.trans (grows_carryOut _ fun link f hf => ?_)
    rw [h.kept.frame, h.kept.identity] at hf
    exact write _ ho link f hf
  | same _ hs ih => rwa [hs.outbox]

/-- What goes to clients waits in the outbox, and that a line has reached them is recorded. -/
theorem exists_floodClients (s : Server) (except : Option Id) (type : MessageType) (msg : Message) :
    ∃ lastChat outbox, (s.floodClients except type msg).1 =
      { s with routes := { s.routes with lastChat }, outbox } := by
  unfold floodClients
  split
  · exact ⟨_, _, rfl⟩
  · split
    · split
      · exact ⟨_, _, rfl⟩
      · dsimp only
        split
        · exact ⟨_, _, rfl⟩
        · exact ⟨s.routes.lastChat, _, rfl⟩
    · exact ⟨_, _, rfl⟩

theorem grows_floodClients (s : Server) (except : Option Id) (type : MessageType) (msg : Message)
    (h : ∀ id link f, s.routes.get? id = some ⟨.client, link⟩ → s.frame type msg = .ok f →
      P link f) : s.outbox.Grows P (s.floodClients except type msg).1.outbox := by
  unfold floodClients
  split
  · exact Outbox.grows_refl P _
  · split
    · split
      · exact Outbox.grows_refl P _
      next f hf =>
        have toClients : s.outbox.Grows P
            (s.outbox.pushEach f (eligible except msg s.routes.clients)).1 := by
          refine Outbox.grows_pushEach _ fun link hl => ?_
          obtain ⟨b, hb, rfl⟩ := List.mem_map.1 hl
          exact h b.1 _ f (isClient_of_mem_clients (List.mem_filter.1 hb).1) hf
        dsimp only
        split <;> exact toClients
    · exact Outbox.grows_refl P _

/-- A server that relays a message writes it for its clients as it is, and for neighbours with itself on
the path. -/
theorem grows_relayChat (s : Server)
    (clients : ∀ id link f, s.routes.get? id = some ⟨.client, link⟩ → s.frame type msg = .ok f →
      P link f)
    (neighbours : ∀ link f, s.frame type (msg.appendToPath s.identity) = .ok f → P link f) :
    s.outbox.Grows P (s.relayChat type msg).outbox := by
  have hkept : s.Kept (s.flood (some msg.sender) type msg).1 :=
    s.kept_carryOut (.flood (some msg.sender) type msg)
  refine (s.grows_flood _ neighbours).trans
    (grows_floodClients _ _ type msg fun id link f hget hf => clients id link f ?_ ?_)
  · rwa [hkept.routes] at hget
  · rwa [hkept.frame] at hf

/-- About new routes a server sends announcements, each to one of the servers that it has learned. -/
theorem grows_learnRoutes (s : Server) (link : LinkId)
    (h : ∀ dest ∈ (s.routes.learn msg.path link).2, ∀ edge f, s.frame MessageType.identity
      (((Message.new s.identity .identity).addressedTo dest).appendToPath s.identity) = .ok f →
        P edge f) : s.outbox.Grows P (s.learnRoutes msg link).outbox := by
  have each (learned : List Id) (hsub : learned ⊆ (s.routes.learn msg.path link).2) :
      ∀ s' : Server, s.identity = s'.identity → s.config = s'.config →
        s'.outbox.Grows P (learned.foldl announceTo s').outbox := by
    induction learned with
    | nil => exact fun s' _ _ => Outbox.grows_refl P _
    | cons id learned ih =>
      intro s' hid hconfig
      have hfirst : s'.outbox.Grows P (s'.announceTo id).outbox := by
        refine s'.grows_carryOut fun edge f hf => h id (hsub List.mem_cons_self) edge f ?_
        unfold Server.frame at hf ⊢
        rw [hid, hconfig]
        exact hf
      have hkept := s'.kept_carryOut (.toServer id MessageType.identity
        ((Message.new s'.identity .identity).addressedTo id))
      exact hfirst.trans (ih (fun _ hd => hsub (List.mem_cons_of_mem _ hd)) _
        (hid.trans hkept.identity.symm) (hconfig.trans hkept.config.symm))
  exact each _ (List.Subset.refl _) { s with routes := (s.routes.learn msg.path link).1 } rfl rfl

end Grows

/-- A frame that the server writes for a connection while it handles `came`. What goes to a client
is of no concern here. -/
def Writes (s : Server) (came : Option Message) (link : LinkId) (f : Frame) : Prop :=
  (∃ id, s.routes.get? id = some ⟨.client, link⟩) ∨
    ∃ msg : Message, msg.Stems came ∧ f.Carries (msg.appendToPath s.identity)

/-- The server keeps its routes, and all it does is send. -/
structure Sends (came : Option Message) (s s' : Server) : Prop where
  identity : s'.identity = s.identity
  config : s'.config = s.config
  down : s'.down = s.down
  own : s'.routes.own = s.routes.own
  entries : s'.routes.entries = s.routes.entries
  outbox : s.outbox.Grows (s.Writes came) s'.outbox

variable {came : Option Message} {s s' s'' : Server} {msg : Message}

theorem Sends.get? (h : Sends came s s') (id : Id) : s'.routes.get? id = s.routes.get? id := by
  unfold Routes.get?
  rw [h.entries]

theorem Sends.writes (h : Sends came s s') : s'.Writes came = s.Writes came := by
  funext link f
  unfold Writes
  simp only [h.get?, h.identity]

theorem sends_refl (came : Option Message) (s : Server) : Sends came s s :=
  ⟨rfl, rfl, rfl, rfl, rfl, Outbox.grows_refl _ _⟩

theorem Sends.trans (h : Sends came s s') (h' : Sends came s' s'') : Sends came s s'' :=
  ⟨h'.identity.trans h.identity, h'.config.trans h.config, h'.down.trans h.down,
    h'.own.trans h.own, h'.entries.trans h.entries, h.outbox.trans (h.writes ▸ h'.outbox)⟩

/-- Nothing has changed that matters for sending. -/
theorem sends_of_eq (hi : s'.identity = s.identity) (hc : s'.config = s.config)
    (hd : s'.down = s.down) (hr : s'.routes = s.routes) (ho : s'.outbox = s.outbox) :
    Sends came s s' :=
  ⟨hi, hc, hd, by rw [hr], by rw [hr], by rw [ho]; exact Outbox.grows_refl _ _⟩

theorem writes_frame {type : MessageType} {f : Frame} (hm : msg.Stems came)
    (h : s.frame type (msg.appendToPath s.identity) = .ok f) (link : LinkId) :
    s.Writes came link f :=
  .inr ⟨msg, hm, Frame.carries_of_ofMessage h⟩

theorem sends_carryOut (s : Server) {o : Outgoing} (hm : o.message.Stems came) :
    Sends came s (s.carryOut o) := by
  have h := s.kept_carryOut o
  exact ⟨h.identity, h.config, h.down, by rw [h.routes], by rw [h.routes],
    s.grows_carryOut fun link f hf => writes_frame hm hf link⟩

theorem sends_flood (s : Server) (except : Option Id) (type : MessageType) (hm : msg.Stems came) :
    Sends came s (s.flood except type msg).1 :=
  sends_carryOut s (o := .flood except type msg) hm

theorem sends_floodClients (s : Server) (except : Option Id) (type : MessageType) (msg : Message) :
    Sends came s (s.floodClients except type msg).1 := by
  have hgrows : s.outbox.Grows (s.Writes came) (s.floodClients except type msg).1.outbox :=
    s.grows_floodClients except type msg fun id _ _ hget _ => .inl ⟨id, hget⟩
  obtain ⟨lastChat, outbox, h⟩ := s.exists_floodClients except type msg
  rw [h] at hgrows ⊢
  exact ⟨rfl, rfl, rfl, rfl, rfl, hgrows⟩

theorem sends_relayChat (s : Server) (type : MessageType) (hm : msg.Stems came) :
    Sends came s (s.relayChat type msg) :=
  (sends_flood s _ type hm).trans (sends_floodClients _ _ type msg)

theorem Acts.sends (h : Acts (fun o => o.message.Stems came) s s') : Sends came s s' :=
  ⟨h.kept.identity, h.kept.config, h.kept.down, by rw [h.kept.routes], by rw [h.kept.routes],
    h.grows fun _ ho link _ hf => writes_frame ho hf link⟩

/-- Once it has learned from the path of a message, the server tells those that it has learned. -/
theorem sends_learnRoutes (s : Server) (msg : Message) (link : LinkId) :
    Sends came { s with routes := (s.routes.learn msg.path link).1 } (s.learnRoutes msg link) :=
  (acts_announceEach (fun _ h => h.stems came) _ _).sends

theorem sends_executeMessage (hm : msg.Stems came) (h : s.executeMessage msg = .ok s') :
    Sends came s s' :=
  (acts_executeMessage (fun _ h => h.stems came) (fun _ _ _ => hm) h).sends

theorem sends_perform (s : Server) (type : MessageType) (hm : msg.Stems came) :
    Sends came s (s.perform type msg) :=
  (acts_perform (fun _ h => h.stems came) (fun _ _ _ => hm) s type).sends

theorem sends_release (s : Server) (withheld : Withheld) :
    Sends (some withheld.msg) s (s.release withheld) := by
  unfold release
  split
  next s' h => exact sends_executeMessage withheld.msg.stems_self h
  next => exact sends_refl _ s

theorem sends_dispatch (hooks : Interception) (s : Server) (type : MessageType) (msg : Message) :
    Sends (some msg) s (s.dispatch hooks type msg).1 := by
  unfold dispatch
  split
  · exact sends_relayChat s type msg.stems_self
  · split
    · exact sends_carryOut s (o := .toServer _ type msg) msg.stems_self
    · split
      · exact sends_refl _ s
      · exact sends_perform s type msg.stems_self

/-- A message is withheld on its own, from the server that it came to. -/
theorem withheld_dispatch {hooks : Interception} {type : MessageType} {w : Withheld}
    (h : (s.dispatch hooks type msg).2 = some w) : w.msg = msg ∧ w.interceptor.owner = s.identity := by
  unfold dispatch at h
  split at h
  · cases h
  · split at h
    · cases h
    · split at h
      next interceptor hc =>
        cases h
        unfold Interception.claim at hc
        split at hc
        · have hmem := List.mem_of_find?_eq_some hc
          exact ⟨rfl, by simpa [Interception.ofOwner] using (List.mem_filter.1 hmem).2⟩
        · cases hc
      next => cases h

/-- A message that is kept back is the one that has come. -/
theorem withheld_arrive {hooks : Interception} {link : LinkId} {f : Frame} {w : Withheld}
    (h : (s.arrive hooks link f).2 = some w) : f.message = .ok w.msg := by
  unfold arrive handleFrame at h
  split at h
  · cases h
  · split at h
    next id route msg hat hmsg =>
      split at h
      · split at h <;> cases h
      · rw [hmsg, (withheld_dispatch h).1]
    next => cases h

/-- A frame without a message is dropped. -/
theorem handleFrame_of_error {hooks : Interception} {link : LinkId} {f : Frame} {why : Fault}
    (h : f.message = .error why) : s.handleFrame hooks link f = (s, none) := by
  unfold handleFrame
  rw [h]
  split
  next heq => cases heq
  next => rfl

theorem handleFrame_of_server {hooks : Interception} {link : LinkId} {f : Frame} {r : Id × Route}
    (hr : s.routes.atLink link = some r) (hs : r.2.isClient = false) (h : f.message = .ok msg) :
    s.handleFrame hooks link f = (s.learnRoutes msg r.2.link).dispatch hooks f.type msg := by
  unfold handleFrame
  rw [hr, h]
  simp only [hs, Bool.false_eq_true, if_false]

/-- The routes to other servers change by the path of what a server sends, and not at all by what a
client sends. -/
theorem get?_arrive (hooks : Interception) (s : Server) (link : LinkId) (f : Frame) :
    (∀ id, (s.arrive hooks link f).1.routes.get? id = s.routes.get? id) ∨
      ∃ peer route msg, s.routes.atLink link = some (peer, route) ∧ route.isClient = false ∧
        f.message = .ok msg ∧ ∀ id, (s.arrive hooks link f).1.routes.get? id =
          (s.routes.learn msg.path route.link).1.get? id := by
  unfold arrive
  split
  · exact .inl fun _ => rfl
  · cases hm : f.message with
    | error why => rw [handleFrame_of_error hm]; exact .inl fun _ => rfl
    | ok msg =>
      cases hr : s.routes.atLink link with
      | none => exact .inl fun _ => by simp [handleFrame, hr]
      | some r =>
        obtain ⟨peer, route⟩ := r
        cases hc : route.isClient with
        | true =>
          refine .inl fun id => ?_
          simp only [handleFrame, hr, hm, hc, if_true]
          split
          · exact (sends_relayChat s f.type msg.stems_self).get? id
          · rfl
        | false =>
          refine .inr ⟨peer, route, msg, rfl, hc, rfl, fun id => ?_⟩
          rw [handleFrame_of_server hr hc hm, (sends_dispatch hooks _ f.type msg).get? id]
          have hsends : Sends none { s with routes := (s.routes.learn msg.path route.link).1 }
              (s.learnRoutes msg route.link) := s.sends_learnRoutes msg route.link
          exact hsends.get? id

/-- A client, and a connection that nobody has registered over, has no message kept back. -/
theorem sends_arrive_client (hooks : Interception) {link : LinkId} {f : Frame}
    (hr : ∀ r, s.routes.atLink link = some r → r.2.isClient = true)
    (hpath : ∀ msg, f.message = .ok msg → msg.path = []) :
    Sends came s (s.arrive hooks link f).1 ∧ (s.arrive hooks link f).2 = none := by
  unfold arrive
  split
  · exact ⟨sends_refl came s, rfl⟩
  · unfold handleFrame
    split
    next id route msg hat hmsg =>
      have hc : route.isClient = true := hr (id, route) hat
      simp only [hc, if_true]
      split
      · exact ⟨sends_relayChat s _ (.inl (hpath msg hmsg)), rfl⟩
      · exact ⟨sends_refl came s, rfl⟩
    next => exact ⟨sends_refl came s, rfl⟩

theorem sends_expire (s : Server) : Sends came s s.expire :=
  (acts_expire (fun _ h => h.stems came) s).sends

theorem sends_advance (s : Server) (ms : Nat) : Sends came s (s.advance ms) :=
  (acts_advance (fun _ h => h.stems came) s ms).sends

theorem sends_announce (s : Server) : Sends came s s.announce :=
  (acts_announce (fun _ h => h.stems came) s).sends

end Server

namespace Command

/-- The message that a command comes with has gone nowhere yet. -/
def Fresh (c : Command) : Prop := ∀ msg ∈ c.message?, msg.path = []

theorem fresh_of_isQuiet {c : Command} (h : c.isQuiet = true) : c.Fresh := by
  have hnone : c.message? = none := by
    revert h
    cases c <;> first | exact fun _ => rfl | exact nofun
  intro msg hmsg
  rw [hnone] at hmsg
  cases hmsg

end Command

namespace Server

variable {came : Option Message} {s s' : Server}

/-- A command ends the server, or all that the server does is send. -/
theorem obey_stems (s : Server) {c : Command} (hc : ∀ msg ∈ c.message?, msg.Stems came) :
    (s.obey c).1 = s.shutdown ∨ Sends came s (s.obey c).1 := by
  have own (o : Outgoing) (ho : o.Own) : o.message.Stems came := ho.stems came
  have pass (msg : Message) (hmsg : msg ∈ c.message?) (o : Outgoing)
      (hpath : o.message.path = msg.path) (hcontent : o.message.content = msg.content) :
      o.message.Stems came := by
    unfold Message.Stems
    rw [hpath, hcontent]
    exact hc msg hmsg
  rcases s.obey_acts own pass with hdown | ⟨except, type, msg, rfl⟩ | hacts
  · exact .inl hdown
  · exact .inr (sends_floodClients s except type msg)
  · exact .inr hacts.sends

theorem obey_cases (s : Server) {c : Command} (hc : c.Fresh) :
    (s.obey c).1 = s.shutdown ∨ Sends came s (s.obey c).1 :=
  s.obey_stems fun msg hmsg => .inl (hc msg hmsg)

end Server

end RelayMesh
