import RelayMesh.Proofs.Routes.Learning
import RelayMesh.Proofs.Server.Sends
import RelayMesh.Proofs.Server.Steps

namespace RelayMesh

namespace Frame

/-- A message that is read from the frame has nobody but `servers` on its path. -/
def Names (servers : List Id) (f : Frame) : Prop := ∀ msg ∈ f.message.toOption, msg.path ⊆ servers

instance (servers : List Id) (f : Frame) : Decidable (f.Names servers) :=
  inferInstanceAs (Decidable (∀ msg ∈ f.message.toOption, msg.path ⊆ servers))

theorem Names.path {servers : List Id} {f : Frame} (h : f.Names servers) {msg : Message}
    (hr : f.message = .ok msg) : msg.path ⊆ servers := h msg (by simp [hr, Except.toOption])

theorem Carries.names {servers : List Id} {f : Frame} {msg : Message} (h : f.Carries msg)
    (hp : msg.path ⊆ servers) : f.Names servers := by
  intro read hr
  have hok : f.message = .ok read := by
    cases hm : f.message with
    | ok msg => rw [hm] at hr; exact congrArg _ (Option.some.inj hr)
    | error why => rw [hm] at hr; cases hr
  rw [(h.header hok).2.1]
  exact hp

end Frame

namespace Server

/-- The server has accepted nobody, it has new routes to `servers` only, and the paths that it has
written have nobody else on them. -/
structure Among (servers : List Id) (s s' : Server) : Prop where
  identity : s'.identity = s.identity
  minted : s'.minted = s.minted
  routes : ∀ id, (s'.routes.get? id).isSome → id ∈ servers ∨ (s.routes.get? id).isSome
  outbox : s.outbox.Grows (fun _ f => f.Names servers) s'.outbox

variable {servers : List Id} {s s' s'' : Server} {msg : Message} {type : MessageType}

theorem among_refl (servers : List Id) (s : Server) : Among servers s s :=
  ⟨rfl, rfl, fun _ h => .inr h, Outbox.grows_refl _ _⟩

theorem Among.trans (h : Among servers s s') (h' : Among servers s' s'') : Among servers s s'' :=
  ⟨h'.identity.trans h.identity, h'.minted.trans h.minted,
    fun id hid => (h'.routes id hid).elim .inl (h.routes id), h.outbox.trans h'.outbox⟩

theorem path_appendToPath_subset (hp : msg.path ⊆ servers) {id : Id} (hid : id ∈ servers) :
    (msg.appendToPath id).path ⊆ servers := by
  unfold Message.appendToPath
  split
  · exact List.append_subset.2 ⟨hp, by simpa using hid⟩
  · exact hp

theorem names_frame (hid : s.identity ∈ servers) (hp : msg.path ⊆ servers) {f : Frame}
    (hf : s.frame type (msg.appendToPath s.identity) = .ok f) : f.Names servers :=
  (Frame.carries_of_ofMessage hf).names (path_appendToPath_subset hp hid)

theorem Acts.among (h : Acts (fun o => o.message.path ⊆ servers) s s') (hid : s.identity ∈ servers) :
    Among servers s s' :=
  ⟨h.kept.identity, h.kept.minted, fun id hsome => .inr (by rwa [h.kept.routes] at hsome),
    h.grows fun _ ho _ _ hf => names_frame hid ho hf⟩

theorem subset_of_own {o : Outgoing} (h : o.Own) : o.message.path ⊆ servers := by
  rw [h.path]
  exact List.nil_subset _

theorem among_floodClients (s : Server) (except : Option Id) (type : MessageType)
    (hp : msg.path ⊆ servers) :
    Among servers s (s.floodClients except type msg).1 := by
  have hgrows := s.grows_floodClients (P := fun _ f => f.Names servers) except type msg
    fun _ _ _ _ hf => (Frame.carries_of_ofMessage hf).names hp
  obtain ⟨lastChat, outbox, hsent⟩ := s.exists_floodClients except type msg
  rw [hsent] at hgrows ⊢
  exact ⟨rfl, rfl, fun _ h => .inr h, hgrows⟩

theorem among_closeLink (link : LinkId) : Among servers s (s.closeLink link) := by
  unfold closeLink
  split
  · exact among_refl _ s
  · refine ⟨rfl, rfl, fun id hsome => .inr ?_, Outbox.grows_refl _ _⟩
    obtain ⟨r, hr⟩ := Option.isSome_iff_exists.1 hsome
    simp only [Routes.removeLink, Routes.get?, SortedMap.get?_filter,
      Option.filter_eq_some_iff] at hr
    exact Option.isSome_iff_exists.2 ⟨r, hr.1⟩

section Closed

variable (hid : s.identity ∈ servers)

include hid

theorem among_relayChat (type : MessageType) (hp : msg.path ⊆ servers) :
    Among servers s (s.relayChat type msg) := by
  have hflood : Among servers s (s.flood (some msg.sender) type msg).1 :=
    (Acts.send (o := .flood (some msg.sender) type msg) .refl hp).among hid
  exact hflood.trans (among_floodClients _ _ type hp)

/-- The servers that are learned stand on the path. -/
theorem among_learnRoutes (link : LinkId) (hp : msg.path ⊆ servers) :
    Among servers s (s.learnRoutes msg link) := by
  have hlearn : Among servers s { s with routes := (s.routes.learn msg.path link).1 } := by
    refine ⟨rfl, rfl, fun id hsome => ?_, Outbox.grows_refl _ _⟩
    rcases Routes.get?_learn s.routes msg.path link id with hsame | ⟨-, -, next, i, -, hi, -, -⟩
    · exact .inr (hsame ▸ hsome)
    · exact .inl (hp (List.mem_reverse.1 (List.mem_of_getElem? hi)))
  exact hlearn.trans ((acts_announceEach (fun _ h => subset_of_own h) _ _).among hid)

theorem among_perform (type : MessageType) (hp : msg.path ⊆ servers) :
    Among servers s (s.perform type msg) :=
  (acts_perform (fun _ h => subset_of_own h) (fun _ _ _ => hp) s type).among hid

theorem among_dispatch (hooks : Interception) (type : MessageType) (hp : msg.path ⊆ servers) :
    Among servers s (s.dispatch hooks type msg).1 := by
  unfold dispatch
  split
  · exact among_relayChat hid type hp
  · split
    next dest _ => exact (Acts.send (o := .toServer dest type msg) .refl hp).among hid
    · split
      · exact among_refl _ s
      · exact among_perform hid type hp

theorem among_arrive (hooks : Interception) (link : LinkId) {f : Frame} (hf : f.Names servers) :
    Among servers s (s.arrive hooks link f).1 := by
  unfold arrive
  split
  · exact among_refl _ s
  · unfold handleFrame
    split
    next id route msg hat hmsg =>
      have hp := hf.path hmsg
      split
      · split
        · exact among_relayChat hid _ hp
        · exact among_refl _ s
      · have hlearn := among_learnRoutes hid route.link hp
        exact hlearn.trans (among_dispatch (hlearn.identity ▸ hid) hooks _ hp)
    next => exact among_refl _ s

theorem among_obey {c : Command} (hp : ∀ msg ∈ c.message?, msg.path ⊆ servers) :
    Among servers s (s.obey c).1 := by
  have pass (msg : Message) (hmsg : msg ∈ c.message?) (o : Outgoing)
      (hpath : o.message.path = msg.path) (_ : o.message.content = msg.content) :
      o.message.path ⊆ servers := hpath ▸ hp msg hmsg
  rcases s.obey_acts (fun _ h => subset_of_own h) pass with hdown | ⟨except, type, msg, rfl⟩ | hacts
  · rw [hdown]
    exact ⟨rfl, rfl, fun _ h => .inr h, Outbox.grows_refl _ _⟩
  · exact among_floodClients s except type (hp msg rfl)
  · exact hacts.among hid

theorem among_expire : Among servers s s.expire :=
  (acts_expire (fun _ h => subset_of_own h) s).among hid

theorem among_advance (ms : Nat) : Among servers s (s.advance ms) :=
  (acts_advance (fun _ h => subset_of_own h) s ms).among hid

theorem among_announce : Among servers s s.announce :=
  (acts_announce (fun _ h => subset_of_own h) s).among hid

theorem among_release {w : Withheld} (hp : w.msg.path ⊆ servers) :
    Among servers s (s.release w) := by
  unfold release
  split
  next s' h =>
    exact (acts_executeMessage (fun _ h => subset_of_own h) (fun _ _ _ => hp) h).among hid
  next => exact among_refl _ s

end Closed

end Server

end RelayMesh
