import RelayMesh.Proofs.Chat.Relay
import RelayMesh.Proofs.Server.Stays

namespace RelayMesh

namespace Frame

/-- A message for this client alone, under a type of servers. -/
def isFor (client : Id) (f : Frame) : Bool :=
  !MessageType.isForClients f.type && f.chat?.any (·.recipient = some client)

/-- The number of the line of `sender` in a frame, if there is one. -/
def lineOf? (sender : Id) (f : Frame) : Option Nat :=
  (f.chat?.filter (·.sender = sender)).bind Message.sequence?

/-- The client is not told a line by the frame. -/
def Silent (client : Id) (f : Frame) : Prop := f.isFor client = true ∨ f.chat? = none

end Frame

/-- The numbers of the lines of `sender` among some frames for a client, in order. What came for this
client alone does not count. -/
def relayed (client sender : Id) (frames : List Frame) : List Nat :=
  (frames.filter fun f => !f.isFor client).filterMap (Frame.lineOf? sender)

section Relayed

variable {client sender : Id} {frames more : List Frame} {f : Frame}

@[simp] theorem relayed_append (client sender : Id) (frames more : List Frame) :
    relayed client sender (frames ++ more) =
      relayed client sender frames ++ relayed client sender more := by
  rw [relayed, List.filter_append, List.filterMap_append, relayed, relayed]

theorem relayed_silent (h : ∀ f ∈ frames, f.Silent client) : relayed client sender frames = [] := by
  refine List.filterMap_eq_nil_iff.2 fun f hf => ?_
  obtain ⟨hmem, hfor⟩ := List.mem_filter.1 hf
  have hnone : f.chat? = none := (h f hmem).resolve_left (by simpa using hfor)
  rw [Frame.lineOf?, hnone]
  rfl

theorem relayed_singleton (client sender : Id) (f : Frame) :
    relayed client sender [f] = [] ∨
      ∃ k, f.lineOf? sender = some k ∧ relayed client sender [f] = [k] := by
  unfold relayed
  cases hf : f.isFor client <;> cases hk : f.lineOf? sender <;> simp [hf, hk]

end Relayed

namespace Routes

variable {t : Routes} {sender other : Id} {k n : Nat}

/-- Between a line that is old and one that is new there is the newest one that was recorded. -/
theorem lt_of_isNewChat (hold : t.isNewChat sender n = false) (hnew : t.isNewChat sender k = true) :
    n < k := by
  by_contra hle
  have hnewer : t.isNewChat sender n = true := isNewChat_eq_true_iff.2 fun last hlast =>
    Nat.lt_of_lt_of_le (isNewChat_eq_true_iff.1 hnew last hlast) (Nat.le_of_not_lt hle)
  rw [hold] at hnewer
  cases hnewer

theorem isNewChat_recordChat (t : Routes) (sender other : Id) (k n : Nat) :
    (t.recordChat sender k).isNewChat other n = true →
      t.isNewChat other n = true ∧ (other = sender → k < n) := by
  simp only [isNewChat_eq_true_iff, get?_recordChat]
  by_cases he : other = sender
  · subst he
    intro hn
    have hmax := hn _ (if_pos rfl)
    refine ⟨fun last hlast => ?_, fun _ => by omega⟩
    rw [hlast, Option.getD_some] at hmax
    omega
  · rw [if_neg he]
    exact fun hn => ⟨hn, fun h => absurd h he⟩

/-- All that goes over the connection is for this client: no other route leads over it. -/
def Serves (t : Routes) (client : Id) (link : LinkId) : Prop :=
  ∀ id r, t.get? id = some r → r.link = link → id = client ∧ r.reach = .client

end Routes

namespace Outbox

variable {o : Outbox} {f : Frame} {link : LinkId} {links : List LinkId}

theorem waiting_pushEach_of_not_mem (h : link ∉ links) :
    (o.pushEach f links).1.waiting link = o.waiting link := by
  have hgrows : Grows (fun edge _ => edge ∈ links) o (o.pushEach f links).1 :=
    grows_pushEach o fun _ hl => hl
  obtain ⟨frames, hwaiting, hframes⟩ := hgrows.queues link
  have hnone : frames = [] := List.eq_nil_iff_forall_not_mem.2 fun g hg => h (hframes g hg)
  rw [hwaiting, hnone, List.append_nil]

/-- A connection that is listed once gets one frame, which is counted then, or none. -/
theorem pushEach_once (h : links.count link ≤ 1) :
    (o.pushEach f links).1.waiting link = o.waiting link ∨
      (o.pushEach f links).1.waiting link = o.waiting link ++ [f] ∧ 0 < (o.pushEach f links).2 := by
  induction links generalizing o with
  | nil => exact .inl rfl
  | cons first links ih =>
    have hrest : links.count link ≤ 1 := Nat.le_trans List.count_le_count_cons h
    rw [pushEach]
    cases hpush : o.push first f with
    | ok o' =>
      have hfirst := waiting_of_push hpush link
      by_cases hl : link = first
      · subst hl
        have hno : link ∉ links := by
          rw [List.count_cons_self] at h
          exact List.count_eq_zero.1 (by omega)
        refine .inr ⟨?_, Nat.succ_pos _⟩
        rw [waiting_pushEach_of_not_mem hno, hfirst, if_pos rfl]
      · rw [if_neg hl, List.append_nil] at hfirst
        rw [← hfirst]
        exact (ih hrest).imp_right fun hgot => ⟨hgot.1, Nat.succ_pos _⟩
    | error why => exact ih hrest

end Outbox

namespace Outgoing

/-- A send that tells the client no line, unless it is for the client alone under a type of
servers. -/
def Spares (client : Id) : Outgoing → Prop
  | .flood _ _ _ => True
  | .toServer dest type msg => dest = client → msg.content.kind ≠ .chat ∨
      MessageType.isForClients type = false ∧ msg.recipient = some client

theorem Own.spares {o : Outgoing} (h : o.Own) (client : Id) : o.Spares client := by
  cases o with
  | flood => trivial
  | toServer dest type msg => exact fun _ => .inl h.plain.2

end Outgoing

namespace Server

open Routes (Serves)

variable {s s' s'' : Server} {client : Id} {link : LinkId} {type : MessageType} {msg : Message}
  {f : Frame} {ok : Outgoing → Prop}

theorem silent_of_frame (hf : s.frame type (msg.appendToPath s.identity) = .ok f)
    (h : msg.content.kind ≠ .chat ∨
      MessageType.isForClients type = false ∧ msg.recipient = some client) : f.Silent client := by
  cases hchat : f.chat? with
  | none => exact .inr hchat
  | some read =>
    left
    obtain ⟨hread, hkind⟩ := Frame.chat?_eq_some.1 hchat
    have hheader := (Frame.carries_of_ofMessage hf).header hread
    rcases h with hno | ⟨htype, hfor⟩
    · rw [Message.content_appendToPath] at hheader
      exact absurd (hheader.2.2.2.symm.trans hkind) hno
    · rw [Message.recipient_appendToPath, hfor] at hheader
      simp [Frame.isFor, Frame.type_of_ofMessage hf, htype, hchat, hheader.2.2.1]

/-- The server has told the client no line, and records none. -/
structure Mute (client : Id) (link : LinkId) (s s' : Server) : Prop where
  serves : s.routes.Serves client link → s'.routes.Serves client link
  lastChat : s'.routes.lastChat = s.routes.lastChat
  outbox : s.outbox.Grows (fun edge f => edge = link → f.Silent client) s'.outbox

theorem mute_refl (client : Id) (link : LinkId) (s : Server) : Mute client link s s :=
  ⟨id, rfl, Outbox.grows_refl _ _⟩

theorem Mute.trans (h : Mute client link s s') (h' : Mute client link s' s'') :
    Mute client link s s'' :=
  ⟨h'.serves ∘ h.serves, h'.lastChat.trans h.lastChat, h.outbox.trans h'.outbox⟩

theorem mute_of_eq (hr : s'.routes = s.routes) (ho : s'.outbox = s.outbox) :
    Mute client link s s' :=
  ⟨fun h => hr ▸ h, by rw [hr], by rw [ho]; exact Outbox.grows_refl _ _⟩

theorem mute_carryOut (hs : s.routes.Serves client link) {o : Outgoing} (ho : o.Spares client) :
    Mute client link s (s.carryOut o) := by
  have hkept := (s.kept_carryOut o).routes
  refine ⟨fun h => hkept ▸ h, by rw [hkept], ?_⟩
  cases o with
  | flood except type msg =>
    rw [carryOut, flood]
    split
    · exact Outbox.grows_refl _ _
    next f hf =>
      refine Outbox.grows_pushEach _ fun edge hedge hsame => ?_
      obtain ⟨b, hb, hover⟩ := List.mem_map.1 hedge
      obtain ⟨hmem, hnear⟩ := List.mem_filter.1 (List.mem_filter.1 hb).1
      have hget : s.routes.get? b.1 = some b.2 := s.routes.entries.mem_toList_iff.1 hmem
      have hreach := (hs b.1 b.2 hget (hover.trans hsame)).2
      simp [Route.isNeighbour, hreach] at hnear
  | toServer dest type msg =>
    rw [carryOut]
    split
    next s' hsent =>
      obtain ⟨-, route, f, outbox, hget, hf, hpush, rfl⟩ := sendTo_eq_ok_iff.1 hsent
      refine Outbox.grows_push hpush fun hover => ?_
      exact silent_of_frame hf (ho (hs dest route hget hover).1)
    next => exact Outbox.grows_refl _ _

theorem Acts.mute (h : Acts (Outgoing.Spares client) s s') (hs : s.routes.Serves client link) :
    Mute client link s s' := by
  induction h with
  | refl => exact mute_refl client link s
  | send h ho ih => exact ih.trans (mute_carryOut (ih.serves hs) ho)
  | same _ hsame ih => exact ih.trans (mute_of_eq hsame.routes hsame.outbox)

/-- What a server learns leads over connections to other servers. -/
theorem mute_learnRoutes (hs : s.routes.Serves client link) {id : Id} {route : Route}
    (hget : s.routes.get? id = some route) (hserver : route.isClient = false) (msg : Message) :
    Mute client link s (s.learnRoutes msg route.link) := by
  have hother : route.link ≠ link := fun he => by
    simp [Route.isClient, (hs id route hget he).2] at hserver
  have hlearned : Mute client link s { s with routes := (s.routes.learn msg.path route.link).1 } := by
    refine ⟨fun _ id r hr hover => ?_, Routes.lastChat_learn _ _ _, Outbox.grows_refl _ _⟩
    rcases Routes.get?_learn s.routes msg.path route.link id with hold | ⟨-, -, _, _, -, -, -, hnew⟩
    · exact hs id r (hold.symm.trans hr) hover
    · obtain rfl := Option.some.inj (hnew.symm.trans hr)
      exact absurd hover hother
  exact hlearned.trans ((acts_announceEach (fun o ho => ho.spares client) _ _).mute
    (hlearned.serves hs))

/-- What the server has told the client by the frames in `new`: nothing, or one line at the end, which
was news and is none any more. -/
inductive Brings (client : Id) (s s' : Server) (new : List Frame) : Prop
  | nothing (silent : ∀ f ∈ new, f.Silent client)
      (ages : ∀ p n, s'.routes.isNewChat p n = true → s.routes.isNewChat p n = true) :
      Brings client s s' new
  | line {front : List Frame} {f : Frame} {sender : Id} {k : Nat} (new_eq : new = front ++ [f])
      (silent : ∀ f ∈ front, f.Silent client)
      (number : ∀ p n, f.lineOf? p = some n → p = sender ∧ n = k)
      (news : s.routes.isNewChat sender k = true)
      (old : s'.routes.isNewChat sender k = false)
      (ages : ∀ p n, s'.routes.isNewChat p n = true → s.routes.isNewChat p n = true) :
      Brings client s s' new

/-- The server goes on serving the client over the connection, and has told it a line at most. -/
structure Told (client : Id) (link : LinkId) (s s' : Server) : Prop where
  serves : s'.routes.Serves client link
  waiting : ∃ new, s'.outbox.waiting link = s.outbox.waiting link ++ new ∧ Brings client s s' new

theorem isNewChat_of_lastChat (h : s'.routes.lastChat = s.routes.lastChat) (p : Id) (n : Nat) :
    s'.routes.isNewChat p n = s.routes.isNewChat p n := by
  rw [Routes.isNewChat, h, Routes.isNewChat]

theorem Mute.told (h : Mute client link s s') (hs : s.routes.Serves client link) :
    Told client link s s' := by
  obtain ⟨new, hnew, hsilent⟩ := h.outbox.queues link
  exact ⟨h.serves hs, new, hnew, .nothing (fun f hf => hsilent f hf rfl) fun p n hn =>
    isNewChat_of_lastChat h.lastChat p n ▸ hn⟩

theorem Told.after (h' : Told client link s' s'') (h : Mute client link s s') :
    Told client link s s'' := by
  obtain ⟨serves, new, hnew, hbrings⟩ := h'
  obtain ⟨first, hfirst, hsilent⟩ := h.outbox.queues link
  have hlast := isNewChat_of_lastChat h.lastChat
  refine ⟨serves, first ++ new, by rw [hnew, hfirst, List.append_assoc], ?_⟩
  have hfront {frames : List Frame} (hmore : ∀ f ∈ frames, f.Silent client) :
      ∀ f ∈ first ++ frames, f.Silent client := fun f hf =>
    (List.mem_append.1 hf).elim (fun hf => hsilent f hf rfl) (hmore f)
  cases hbrings with
  | nothing silent ages => exact .nothing (hfront silent) fun p n hn => hlast p n ▸ ages p n hn
  | line new_eq silent number news old ages =>
    exact .line (by rw [new_eq, List.append_assoc]) (hfront silent) number (hlast _ _ ▸ news) old
      fun p n hn => hlast p n ▸ ages p n hn

/-- No two routes to clients lead over the connection. -/
theorem count_eligible_clients (hs : s.routes.Serves client link) (except : Option Id)
    (msg : Message) : (eligible except msg s.routes.clients).count link ≤ 1 := by
  have hover : ∀ b ∈ s.routes.entries.toList, b.2.link = link → b.1 = client := fun b hb hl =>
    (hs b.1 b.2 (s.routes.entries.mem_toList_iff.1 hb) hl).1
  have each : ∀ targets : List (Id × Route), targets.Pairwise (·.1 < ·.1) →
      (∀ b ∈ targets, b.2.link = link → b.1 = client) → (targets.map (·.2.link)).count link ≤ 1 := by
    intro targets
    induction targets with
    | nil => exact fun _ _ => Nat.zero_le 1
    | cons b targets ih =>
      intro hascending hclient
      obtain ⟨hb, hrest⟩ := List.pairwise_cons.1 hascending
      have hbound := ih hrest fun b' hb' => hclient b' (List.mem_cons_of_mem _ hb')
      rw [List.map_cons, List.count_cons]
      split
      next hl =>
        have hnone : link ∉ targets.map (·.2.link) := fun hmem => by
          obtain ⟨b', hb', hl'⟩ := List.mem_map.1 hmem
          have hsame := (hclient b List.mem_cons_self (by simpa using hl)).trans
            (hclient b' (List.mem_cons_of_mem _ hb') hl').symm
          exact absurd (hb b' hb') (hsame ▸ UInt32.lt_irrefl _)
        rw [List.count_eq_zero.2 hnone]
      next => exact hbound
  have hsub : (s.routes.clients.filter fun b => some b.1 ≠ except ∧ ¬ msg.hasVisited b.1).Sublist
      s.routes.entries.toList := List.filter_sublist.trans List.filter_sublist
  exact each _ (s.routes.entries.ascending.sublist hsub) fun b hb => hover b (hsub.subset hb)

/-- The only line in a frame for clients is the one that it was written for. -/
theorem lineOf_of_frame {k : Nat} (hseq : msg.sequence? = some k) (hf : s.frame type msg = .ok f)
    (p : Id) (n : Nat) (h : f.lineOf? p = some n) : p = msg.sender ∧ n = k := by
  obtain ⟨read, hread, hn⟩ := Option.bind_eq_some_iff.1 h
  obtain ⟨hchat, hsender⟩ := Option.filter_eq_some_iff.1 hread
  have hmsg := (Frame.chat?_eq_some.1 hchat).1
  have hcarries := Frame.carries_of_ofMessage hf
  rw [hcarries.sequence? hmsg, hseq] at hn
  refine ⟨?_, (Option.some.inj hn).symm⟩
  rw [← (hcarries.header hmsg).1]
  exact (of_decide_eq_true hsender).symm

theorem told_floodClients (hs : s.routes.Serves client link) (except : Option Id)
    (type : MessageType) (msg : Message) : Told client link s (s.floodClients except type msg).1 := by
  unfold floodClients
  cases hseq : msg.sequence? with
  | none => exact (mute_refl client link s).told hs
  | some k =>
    by_cases hnew : s.routes.isNewChat msg.sender k = true
    swap
    · simp only [hnew]
      exact (mute_refl client link s).told hs
    cases hf : s.frame type msg with
    | error why =>
      simp only [hnew, if_true]
      exact (mute_refl client link s).told hs
    | ok f =>
      have hages := s.routes.isNewChat_recordChat msg.sender
      have honce := Outbox.pushEach_once (o := s.outbox) (f := f)
        (count_eligible_clients hs except msg)
      simp only [hnew, if_true]
      generalize s.outbox.pushEach f (eligible except msg s.routes.clients) = pushed at honce ⊢
      obtain ⟨outbox, sent⟩ := pushed
      dsimp only at honce ⊢
      split
      next hpos =>
        refine ⟨hs, ?_⟩
        rcases honce with hsame | ⟨hgot, -⟩
        · exact ⟨[], by rw [List.append_nil]; exact hsame, .nothing (by simp) fun p n hn =>
            (hages p k n hn).1⟩
        · have hold : (s.routes.recordChat msg.sender k).isNewChat msg.sender k = false :=
            Bool.eq_false_iff.2 fun hn => Nat.lt_irrefl k ((hages _ k k hn).2 rfl)
          exact ⟨[f], hgot, .line (List.nil_append [f]).symm (by simp) (lineOf_of_frame hseq hf) hnew
            hold fun p n hn => (hages p k n hn).1⟩
      next hnone =>
        have hsame := honce.resolve_right fun hgot => hnone hgot.2
        exact ⟨hs, [], by rw [List.append_nil]; exact hsame, .nothing (by simp) fun _ _ hn => hn⟩

theorem told_relayChat (hs : s.routes.Serves client link) (type : MessageType) (msg : Message) :
    Told client link s (s.relayChat type msg) := by
  have hflood : Mute client link s (s.flood (some msg.sender) type msg).1 :=
    mute_carryOut hs (o := .flood (some msg.sender) type msg) trivial
  exact (told_floodClients (hflood.serves hs) _ type msg).after hflood

theorem told_dispatch (hs : s.routes.Serves client link) (hooks : Interception)
    (type : MessageType) (msg : Message) : Told client link s (s.dispatch hooks type msg).1 := by
  unfold dispatch
  split
  next => exact told_relayChat hs type msg
  next hserver =>
    split
    next dest hdest =>
      have hfor : msg.recipient = some dest := (Option.filter_eq_some_iff.1 hdest).1
      refine (mute_carryOut hs (o := .toServer dest type msg) fun he => .inr ?_).told hs
      exact ⟨Bool.eq_false_iff.2 hserver, he ▸ hfor⟩
    next =>
      split
      · exact (mute_refl client link s).told hs
      · exact ((acts_perform (fun o ho => ho.spares client) (fun _ _ _ => trivial) s type).mute
          hs).told hs

theorem told_arrive (hs : s.routes.Serves client link) (hooks : Interception) (edge : LinkId)
    (f : Frame) : Told client link s (s.arrive hooks edge f).1 := by
  unfold arrive
  split
  · exact (mute_refl client link s).told hs
  · unfold handleFrame
    split
    next id route msg hat _ =>
      split
      · split
        · exact told_relayChat hs f.type msg
        · exact (mute_refl client link s).told hs
      next hserver =>
        have hlearned := mute_learnRoutes hs (Routes.of_atLink hat).1
          (Bool.eq_false_iff.2 hserver) msg
        exact (told_dispatch (hlearned.serves hs) hooks f.type msg).after hlearned
    next => exact (mute_refl client link s).told hs

end Server

/-- What is sent by hand is no chat. -/
def Command.Spares : Command → Prop
  | .send _ _ msg => msg.content.kind ≠ .chat
  | _ => True

namespace Server

/-- Over the connection nobody but the client registers, and no chat is sent by hand. -/
def Moment.Spares (client : Id) (link : LinkId) : Moment → Prop
  | .event (.neighbour _ edge) => edge ≠ link
  | .event (.client id edge) => edge = link → id = client
  | .event (.obey c) => c.Spares
  | _ => True

/-- The frames that the queue of a connection takes. -/
def taken (s : Server) (link : LinkId) : Moment → List Frame
  | .queues _ => []
  | moment => ((s.pass moment).outbox.waiting link).drop (s.outbox.waiting link).length

def accepted (s : Server) (link : LinkId) : List Moment → List Frame
  | [] => []
  | moment :: moments => s.taken link moment ++ (s.pass moment).accepted link moments

section Run

variable {s s' : Server} {client : Id} {link : LinkId} {frames : List Frame}

theorem told_obey (hs : s.routes.Serves client link) {c : Command} (hc : c.Spares) :
    Told client link s (s.obey c).1 := by
  have own (o : Outgoing) (ho : o.Own) : o.Spares client := ho.spares client
  by_cases hquiet : c.isQuiet = true
  · exact ((acts_obey own s hquiet).mute hs).told hs
  have hshut : Mute client link s s.shutdown := mute_of_eq rfl rfl
  have hacts {s' : Server} (h : Acts (Outgoing.Spares client) s s') : Told client link s s' :=
    (h.mute hs).told hs
  have pass {msg : Message} (type : MessageType) (recipient : Option Id)
      (_ : MessageType.isForClients type = false) :
      Outgoing.Spares client (.flood none type { msg with recipient }) := trivial
  cases c with
  | shutdown => exact hshut.told hs
  | console line =>
    have hquit : String.ofList (Text.trim line.toList) = "quit" := by
      simpa [Command.isQuiet] using hquiet
    simp only [obey, console, if_pos hquit]
    exact hshut.told hs
  | send dest type msg => exact hacts (acts_attempt fun s' h => acts_sendTo h fun _ => .inl hc)
  | flood except type msg => exact (mute_carryOut hs (o := .flood except type msg) trivial).told hs
  | floodClients except type msg => exact told_floodClients hs except type msg
  | execute type msg => exact hacts (acts_attempt fun s' h => acts_execute own pass h)
  | executeMessage msg => exact hacts (acts_attempt fun s' h => acts_executeMessage own pass h)
  | receive kind msg => exact hacts (acts_attempt fun s' h => acts_receive own pass h)
  | _ => exact absurd rfl hquiet

/-- A registration over another connection, or of the client itself. -/
theorem serves_set (hs : s.routes.Serves client link) {id : Id} {route : Route}
    (h : route.link = link → id = client ∧ route.reach = .client) :
    (s.routes.set id route).Serves client link := by
  intro other r hget hover
  rw [Routes.get?_set] at hget
  split at hget
  next he =>
    obtain rfl := Option.some.inj hget
    exact he.1 ▸ h hover
  next => exact hs other r hget hover

theorem told_handle (hs : s.routes.Serves client link) {e : Event}
    (h : (Moment.event e).Spares client link) : Told client link s (s.handle e) := by
  have hacts {s' : Server} (h : Acts (Outgoing.Spares client) s s') : Told client link s s' :=
    (h.mute hs).told hs
  have hset (id : Id) (route : Route) (h : route.link = link → id = client ∧ route.reach = .client) :
      Mute client link s { s with routes := s.routes.set id route } :=
    ⟨fun hs => serves_set hs h, Routes.lastChat_set _ _ _, Outbox.grows_refl _ _⟩
  cases e with
  | arrive hooks edge f => exact told_arrive hs hooks edge f
  | neighbour id edge =>
    have hother := hset id ⟨.server 1 id, edge⟩ fun he => absurd he h
    exact hother.told hs
  | client id edge =>
    have hclient := hset id ⟨.client, edge⟩ fun he => ⟨h he, rfl⟩
    exact hclient.told hs
  | close edge =>
    simp only [handle, closeLink]
    split
    · exact (mute_refl client link s).told hs
    · have hclosed : Mute client link s { s with routes := (s.routes.removeLink edge).1 } := by
        refine ⟨fun hs id r hget => hs id r ?_, rfl, Outbox.grows_refl _ _⟩
        simp only [Routes.removeLink, Routes.get?, SortedMap.get?_filter] at hget
        exact (Option.filter_eq_some_iff.1 hget).1
      exact hclosed.told hs
  | advance ms => exact hacts (acts_advance (fun o ho => ho.spares client) s ms)
  | obey c => exact told_obey hs h
  | release w =>
    simp only [handle, release]
    split
    next s' h =>
      exact hacts (acts_executeMessage (fun o ho => ho.spares client) (fun _ _ _ => trivial) h)
    next => exact (mute_refl client link s).told hs

theorem told_timer (hs : s.routes.Serves client link) (index : Nat) :
    Told client link s (s.pass (.timer index)) := by
  rw [pass]
  split
  · exact (mute_refl client link s).told hs
  next timer _ =>
    let unset : Server := { s with timers := s.timers.eraseIdx index }
    have hunset : Mute client link s unset := mute_of_eq rfl rfl
    have hleft : Mute client link unset (unset.fire timer) :=
      (acts_leave (fun o ho => ho.spares client) unset (some timer.stay)).mute hs
    exact (hunset.trans hleft).told hs

theorem told_pass (hs : s.routes.Serves client link) {moment : Moment}
    (h : moment.Spares client link) (hq : ∀ outbox, moment ≠ .queues outbox) :
    Told client link s (s.pass moment) := by
  cases moment with
  | event e => exact told_handle hs h
  | timer index => exact told_timer hs index
  | queues outbox => exact absurd rfl (hq outbox)
  | identity =>
    have hmute : Mute client link s s.mintClientId.1 := mute_of_eq rfl rfl
    exact hmute.told hs

/-- The frames that the queue takes are those at its end afterwards. -/
theorem brings_taken (hs : s.routes.Serves client link) {moment : Moment}
    (h : moment.Spares client link) (hq : ∀ outbox, moment ≠ .queues outbox) :
    (s.pass moment).outbox.waiting link = s.outbox.waiting link ++ s.taken link moment ∧
      Brings client s (s.pass moment) (s.taken link moment) := by
  obtain ⟨-, new, hnew, hbrings⟩ := told_pass hs h hq
  have htaken : s.taken link moment = new := by
    have hdrop : ((s.pass moment).outbox.waiting link).drop (s.outbox.waiting link).length = new := by
      rw [hnew, List.drop_left]
    cases moment with
    | queues outbox => exact absurd rfl (hq outbox)
    | _ => exact hdrop
  exact ⟨htaken ▸ hnew, htaken ▸ hbrings⟩

theorem brings_pass (hs : s.routes.Serves client link) {moment : Moment}
    (h : moment.Spares client link) : (s.pass moment).routes.Serves client link ∧
      Brings client s (s.pass moment) (s.taken link moment) := by
  by_cases hq : ∃ outbox, moment = .queues outbox
  · obtain ⟨outbox, rfl⟩ := hq
    exact ⟨hs, .nothing (by simp [taken]) fun _ _ hn => hn⟩
  · rw [not_exists] at hq
    exact ⟨(told_pass hs h hq).serves, (brings_taken hs h hq).2⟩

/-- The client has been told the lines of every sender in order, and none of them is news any more. -/
structure Heard (client : Id) (s : Server) (frames : List Frame) : Prop where
  rising : ∀ sender, (relayed client sender frames).Pairwise (· < ·)
  old : ∀ sender, ∀ n ∈ relayed client sender frames, s.routes.isNewChat sender n = false

theorem Brings.heard {new : List Frame} (h : Brings client s s' new) (hh : Heard client s frames) :
    Heard client s' (frames ++ new) := by
  have hstill (ages : ∀ p n, s'.routes.isNewChat p n = true → s.routes.isNewChat p n = true)
      (p : Id) (n : Nat) (hn : n ∈ relayed client p frames) : s'.routes.isNewChat p n = false :=
    Bool.eq_false_iff.2 fun hnew => Bool.eq_false_iff.1 (hh.old p n hn) (ages p n hnew)
  cases h with
  | nothing silent ages =>
    have hsame (p : Id) : relayed client p (frames ++ new) = relayed client p frames := by
      rw [relayed_append, relayed_silent silent, List.append_nil]
    exact ⟨fun p => (hsame p).symm ▸ hh.rising p, fun p n hn => hstill ages p n (hsame p ▸ hn)⟩
  | @line front f sender k new_eq silent number news old ages =>
    have hadds (p : Id) : relayed client p (frames ++ new) = relayed client p frames ∨
        p = sender ∧ relayed client p (frames ++ new) = relayed client p frames ++ [k] := by
      rw [new_eq, relayed_append, relayed_append, relayed_silent silent, List.nil_append]
      rcases relayed_singleton client p f with hnone | ⟨n, hline, hone⟩
      · rw [hnone, List.append_nil]
        exact .inl rfl
      · obtain ⟨rfl, rfl⟩ := number p n hline
        exact .inr ⟨rfl, by rw [hone]⟩
    constructor
    · intro p
      rcases hadds p with hsame | ⟨rfl, hmore⟩
      · exact hsame ▸ hh.rising p
      · rw [hmore, List.pairwise_append]
        refine ⟨hh.rising p, List.pairwise_singleton _ _, fun n hn m hm => ?_⟩
        rw [List.mem_singleton.1 hm]
        exact Routes.lt_of_isNewChat (hh.old p n hn) news
    · intro p n hn
      rcases hadds p with hsame | ⟨rfl, hmore⟩
      · exact hstill ages p n (hsame ▸ hn)
      · rw [hmore, List.mem_append, List.mem_singleton] at hn
        rcases hn with hn | rfl
        · exact hstill ages p n hn
        · exact old

theorem heard_accepted {moments : List Moment} (hs : s.routes.Serves client link)
    (h : ∀ moment ∈ moments, moment.Spares client link) (hh : Heard client s frames) :
    Heard client (s.live moments) (frames ++ s.accepted link moments) := by
  induction moments generalizing s frames with
  | nil => rwa [accepted, List.append_nil]
  | cons moment moments ih =>
    obtain ⟨hserves, hbrings⟩ := brings_pass hs (h moment List.mem_cons_self)
    rw [accepted, ← List.append_assoc]
    exact ih hserves (fun m hm => h m (List.mem_cons_of_mem _ hm)) (hbrings.heard hh)

end Run

/-- A line that reached nobody leaves no trace. -/
theorem routes_floodClients_of_zero {s : Server} {except : Option Id} {type : MessageType}
    {msg : Message} (h : (s.floodClients except type msg).2 = 0) :
    (s.floodClients except type msg).1.routes = s.routes := by
  unfold floodClients at h ⊢
  cases hseq : msg.sequence? with
  | none => rfl
  | some k =>
    dsimp only
    split
    next hnew =>
      cases hf : s.frame type msg with
      | error why => rfl
      | ok f =>
        dsimp only
        split
        next hpos =>
          simp only [hseq, hf, if_pos hnew, if_pos hpos] at h
          exact absurd h (Nat.ne_of_gt hpos)
        next => rfl
    next => rfl

/-- Whatever happens to a server, in whatever order and however often: of every sender, the lines that
the queue of a client takes have rising numbers, but for messages under a type of servers and for that
client alone, which are passed on as they come. And a line that reached nobody counts as new or old as
it did before. -/
theorem lines_at_most_once (identity : Id) (config : Config) {client : Id} {link : LinkId}
    {moments : List Moment} (h : ∀ moment ∈ moments, moment.Spares client link) :
    (∀ sender, (relayed client sender
      ((Server.new identity config).accepted link moments)).Pairwise (· < ·)) ∧
    let s := (Server.new identity config).live moments
    ∀ except type msg, (s.floodClients except type msg).2 = 0 → ∀ sender k,
      (s.floodClients except type msg).1.routes.isNewChat sender k =
        s.routes.isNewChat sender k := by
  constructor
  · have hunused : (Server.new identity config).routes.Serves client link := fun _ _ hget => by
      cases hget
    have hnothing : Heard client (Server.new identity config) [] :=
      ⟨fun _ => .nil, fun _ _ hn => absurd hn List.not_mem_nil⟩
    exact (heard_accepted hunused h hnothing).rising
  · intro s except type msg hzero sender k
    rw [routes_floodClients_of_zero hzero]

/-- What comes from server 2 over the first of two connections, of which the second one is that of
client 100. -/
def overheard (frames : List Frame) : List Moment :=
  [.queues ((Outbox.addLink .empty 0 4).addLink 1 4), .event (.neighbour 2 0),
    .event (.client 100 1)] ++ frames.map fun f => .event (.arrive {} 0 f)

theorem spares_overheard (frames : List Frame) :
    ∀ moment ∈ overheard frames, moment.Spares 100 1 := by
  intro moment hm
  rcases List.mem_append.1 hm with hm | hm
  · rcases hm with _ | ⟨_, _ | ⟨_, _ | ⟨_, ⟨⟩⟩⟩⟩
    · trivial
    · exact Nat.zero_ne_one
    · exact fun _ => rfl
  · obtain ⟨f, -, rfl⟩ := List.mem_map.1 hm
    trivial

/-- Client 100 is told two of five lines, one of them the last that there can be. -/
theorem lines_at_most_once_overheard :
    let line (n : Nat) : Frame :=
      ⟨MessageType.chat, 2, Wire.encodeMessage ⟨200, [2], none, .chat n ""⟩⟩
    let moments := overheard [line 1, line 1, line 0, line 18446744073709551615, line 7]
    relayed 100 200 ((Server.new 1 {}).accepted 1 moments) = [1, 18446744073709551615] ∧
      (relayed 100 200 ((Server.new 1 {}).accepted 1 moments)).Pairwise (· < ·) := by
  intro line moments
  exact ⟨by decide +kernel, (lines_at_most_once 1 {} (spares_overheard _)).1 200⟩

/-- A line that comes twice under a type of servers, for client 100 alone, is passed on twice. -/
theorem lines_passed_twice :
    let line : Frame :=
      ⟨MessageType.identity, 2, Wire.encodeMessage ⟨200, [2], some 100, .chat 0 ""⟩⟩
    let moments := overheard [line, line]
    let lines := ((Server.new 1 {}).accepted 1 moments).filterMap (Frame.lineOf? 200)
    (∀ moment ∈ moments, moment.Spares 100 1) ∧ lines = [0, 0] ∧ ¬ lines.Pairwise (· < ·) := by
  intro line moments lines
  have htwice : lines = [0, 0] := by decide +kernel
  exact ⟨spares_overheard _, htwice, by rw [htwice]; decide⟩

end Server

end RelayMesh
