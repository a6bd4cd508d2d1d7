import RelayMesh.Proofs.Election.Order
import RelayMesh.Proofs.Server.Turns

namespace RelayMesh

namespace Server

open RelayMesh.Action (Registered)

/-- The elections of the servers. -/
def elections (s : Overlay Server) : Overlay Election := s.part Server.election Content.isElection

/-- No server has taken part in an election or asked for the token, and each one knows its
neighbours. -/
structure Fresh (T : Topology) (s : Overlay Server) : Prop where
  wire : s.wire = []
  delivered : s.delivered = []
  election : ∀ a ∈ T.servers, (s.nodes a).election = { own := a }
  exclusion : ∀ a, (s.nodes a).exclusion = { own := a }
  degrees : ∀ a ∈ T.servers, (s.nodes a).neighbourCount = T.degree a

/-- Packets go under the type for their content, and leaders have made the token. -/
structure Lawful (T : Topology) (s : Overlay Server) : Prop where
  registered : ∀ p ∈ s.wire, Registered p.type p.msg.content.kind
  degrees : ∀ a ∈ T.servers, (s.nodes a).neighbourCount = T.degree a
  minted : ∀ a ∈ T.servers, (s.nodes a).election.status = .leader →
    (s.nodes a).exclusion.minted = true

structure Steady (T : Topology) (s : Overlay Server) : Prop extends Lawful T s where
  sane : Election.Sane T (elections s)
  ordered : Election.Ordered (elections s)

/-- A run has got from `s` to `s'`. -/
structure Onward (T : Topology) (s s' : Overlay Server) : Prop where
  steady : Steady T s'
  leader : ∀ a ∈ T.servers, (s.nodes a).election.status = .leader →
    (s'.nodes a).election.status = .leader

variable {T : Topology} {s s' t : Overlay Server} {a b m : Id} {heard : Option Message}
  {r : Server × List Outgoing} {front back : List Packet} {p : Packet}

theorem Onward.trans {s'' : Overlay Server} (h : Onward T s s') (h' : Onward T s' s'') :
    Onward T s s'' := ⟨h'.steady, fun a ha hl => h'.leader a ha (h.leader a ha hl)⟩

theorem Fresh.lawful (h : Fresh T s) : Lawful T s where
  registered p hp := by simp [h.wire] at hp
  degrees := h.degrees
  minted a ha hl := by simp [h.election a ha] at hl

theorem Fresh.steady (h : Fresh T s) : Steady T s where
  toLawful := h.lawful
  sane := by
    have hsent : (elections s).sent = [] := by
      simp [elections, Overlay.part, Overlay.sent, h.wire, h.delivered]
    have hinbox (w : Id) : Election.inbox (elections s) w = [] := by
      simp [elections, Overlay.part, Election.inbox, h.delivered]
    have helection (w : Id) (hd : 0 < T.degree w) : (elections s).nodes w = { own := w } := by
      obtain ⟨v, hl⟩ := Topology.exists_linked_of_degree_pos hd
      exact h.election w hl.source_mem
    constructor
    case waves =>
      intro w hd
      rw [helection w hd, hinbox, hsent]
      exact Election.waves_start T w
    case spread =>
      intro w hd
      rw [helection w hd, hinbox, hsent]
      exact Election.spread_start hd
    all_goals simp [hsent, hinbox, Election.upstream]
  ordered := by
    have hsent : (elections s).sent = [] := by
      simp [elections, Overlay.part, Overlay.sent, h.wire, h.delivered]
    constructor <;> simp [hsent]

/-- A turn keeps to the law, if its sends go under the types for their contents. -/
theorem Lawful.act (h : Lawful T s) (hnodes : t.nodes = s.nodes) (hwire : ∀ q ∈ t.wire, q ∈ s.wire)
    (hr : (s.nodes a).Does heard r)
    (hsends : ∀ o ∈ r.2, Registered o.type o.message.content.kind) : Lawful T (t.act T a r) where
  registered q hq := by
    rcases List.mem_append.1 hq with hold | hnew
    · exact h.registered q (hwire q hold)
    · obtain ⟨o, ho, hpacket⟩ := List.mem_flatMap.1 hnew
      obtain ⟨htype, hcontent⟩ := Topology.content_of_mem_packets hpacket
      rw [htype, hcontent]
      exact hsends o ho
  degrees b hb := by
    rw [Overlay.nodes_act, hnodes]
    split
    next hba =>
      subst hba
      rw [neighbourCount, hr.routes]
      exact h.degrees b hb
    next => exact h.degrees b hb
  minted b hb hl := by
    rw [Overlay.nodes_act, hnodes] at hl ⊢
    split at hl
    next hba =>
      subst hba
      rw [if_pos rfl]
      exact hr.minted (h.minted b hb) hl
    next hba =>
      rw [if_neg hba]
      exact h.minted b hb hl

theorem Lawful.command (h : Lawful T s) (a : Id) (trigger : Trigger) :
    Lawful T (s.act T a (behaviour.command a trigger (s.nodes a))) :=
  h.act rfl (fun _ hq => hq) (does_command a trigger _) (registered_command a trigger _)

theorem mem_wire_of_arrived (hw : s.wire = front ++ p :: back) :
    ∀ q ∈ (s.arrived front p back).wire, q ∈ s.wire := by
  intro q hq
  rw [hw]
  rcases List.mem_append.1 hq with hq | hq
  · exact List.mem_append_left _ hq
  · exact List.mem_append_right _ (List.mem_cons_of_mem _ hq)

theorem Lawful.does_arrival (h : Lawful T s) (hw : s.wire = front ++ p :: back) :
    (s.nodes p.target).Does (some p.msg) (behaviour.receive p.target p (s.nodes p.target)) :=
  does_turn _ (h.registered p (by simp [hw]))

theorem Lawful.arrival (h : Lawful T s) (hw : s.wire = front ++ p :: back) :
    Lawful T ((s.arrived front p back).act T p.target
      (behaviour.receive p.target p (s.nodes p.target))) :=
  h.act rfl (mem_wire_of_arrived hw) (h.does_arrival hw) (registered_turn _ _ _)

/-- What is not about the election leaves it where it is. -/
theorem Steady.aside (h : Steady T s) (ht : elections t = elections s) (hnodes : t.nodes = s.nodes)
    {x : Server} {sends : List Outgoing} (hlaw : Lawful T (t.act T a (x, sends)))
    (hx : Aside (s.nodes a) x) (hs : ∀ o ∈ sends, o.message.content.isElection = false) :
    Onward T s (t.act T a (x, sends)) := by
  have hsame : elections (t.act T a (x, sends)) = elections s := by
    have hkept : x.election = (t.nodes a).election := by rw [hx.election, hnodes]
    exact (Overlay.part_act_of_not hkept hs).trans ht
  refine ⟨⟨hlaw, hsame ▸ h.sane, hsame ▸ h.ordered⟩, fun b hb hl => ?_⟩
  have hnode : ((t.act T a (x, sends)).nodes b).election = (s.nodes b).election :=
    congrFun (congrArg Overlay.nodes hsame) b
  rwa [hnode]

/-- A step of the election at server `a`. -/
theorem Steady.elected (hd : ∀ a ∈ T.servers, 0 < T.degree a) (h : Steady T s)
    {step : Election × List Outgoing} (heard : Option Packet)
    (hlaw : Lawful T (t.act T a ((s.nodes a).applyElection step, (s.nodes a).electionSends step)))
    (hs : ∀ o ∈ step.2, o.IsElection)
    (moved : Election.Moved T (elections s) a heard (step.2.flatMap (T.packets a))
      ((elections t).act T a step))
    (order : Overlay.KeepsOrder (elections s) (step.2.flatMap (T.packets a))
      ((elections t).act T a step)) :
    Onward T s (t.act T a ((s.nodes a).applyElection step, (s.nodes a).electionSends step)) := by
  have hsame :
      elections (t.act T a ((s.nodes a).applyElection step, (s.nodes a).electionSends step)) =
        (elections t).act T a step := by
    rw [elections, Overlay.part_act, election_applyElection, filter_isElection hs]
    rfl
  refine ⟨⟨hlaw, hsame ▸ h.sane.moved moved, hsame ▸ h.ordered.moved h.sane moved order⟩,
    fun b hb hl => ?_⟩
  have hnode := congrFun (congrArg Overlay.nodes hsame) b
  have hleads := h.sane.leader_moved moved (hd b hb) hl
  rwa [← hnode] at hleads

theorem Steady.command (hd : ∀ a ∈ T.servers, 0 < T.degree a) (h : Steady T s)
    (ha : a ∈ T.servers) (trigger : Trigger) :
    Onward T s (s.act T a (behaviour.command a trigger (s.nodes a))) := by
  have hlaw := h.toLawful.command a trigger
  have hdoes := does_command a trigger (s.nodes a)
  generalize behaviour.command a trigger (s.nodes a) = r at hlaw hdoes
  cases hdoes with
  | start =>
    have moved := h.sane.moved_command (hd a ha)
    have hstep : (s.nodes a).election.start (s.nodes a).neighbourCount =
        (Election.behaviour T).command a () ((elections s).nodes a) := by
      rw [h.degrees a ha]
      rfl
    simp only [startElection] at hlaw ⊢
    rw [hstep] at hlaw ⊢
    exact h.elected hd none hlaw (Election.isElection_start _ _) moved
      (Overlay.keepsOrder_command T _ a _)
  | obey what hwhat x aside hx =>
    exact h.aside rfl rfl hlaw aside fun o ho =>
      Content.isElection_eq_false ((Exclusion.obey_tells _ what).isExclusion o ho)
  | other _ x sends aside hx hheard hs =>
    exact h.aside rfl rfl hlaw aside fun o ho => (hs o ho).1

theorem Steady.arrival (hd : ∀ a ∈ T.servers, 0 < T.degree a) (h : Steady T s)
    (hw : s.wire = front ++ p :: back)
    (hin : s.InOrderAbout (ι := Trigger) Content.isElection (.deliver front.length)) :
    Onward T s ((s.arrived front p back).act T p.target
      (behaviour.receive p.target p (s.nodes p.target))) := by
  have hlaw := h.toLawful.arrival hw
  have hdoes := h.toLawful.does_arrival hw
  generalize hmsg : some p.msg = heard at hdoes
  generalize behaviour.receive p.target p (s.nodes p.target) = r at hlaw hdoes
  cases hdoes with
  | start => cases hmsg
  | obey what hwhat x aside hx => cases hmsg
  | vote msg hc =>
    obtain rfl : p.msg = msg := Option.some.inj hmsg
    have hw' := Overlay.wire_part (f := Server.election) hw hc
    have hsent : p ∈ (elections s).sent := List.mem_append_right _ (by simp [elections, hw'])
    have hstep : (s.nodes p.target).electionStep p.msg =
        (Election.behaviour T).receive p.target p ((elections s).nodes p.target) := by
      have hdegree := h.degrees _ (h.sane.linked p hsent).target_mem
      unfold electionStep
      rw [hdegree]
      rfl
    have hparts : elections (s.arrived front p back) =
        (elections s).arrived (front.filter (·.msg.content.isElection)) p
          (back.filter (·.msg.content.isElection)) := Overlay.part_arrived hc
    have moved := h.sane.moved_arrival hw'
    have order := Overlay.keepsOrder_arrival T hw' (hin.part hw hc) p.target
      ((Election.behaviour T).receive p.target p ((elections s).nodes p.target))
    refine h.elected hd (some p) hlaw (isElection_electionStep _ _) ?_ ?_
    · rw [hstep, hparts]
      exact moved
    · rw [hstep, hparts]
      exact order
  | serve msg hc x aside hx =>
    obtain rfl : p.msg = msg := Option.some.inj hmsg
    refine h.aside (Overlay.part_arrived_of_not hw (Content.isElection_eq_false hc)) rfl hlaw aside
      fun o ho => ?_
    exact Content.isElection_eq_false ((Exclusion.receive_tells _ p.msg).isExclusion o ho)
  | other _ x sends aside hx hheard hs =>
    subst hmsg
    exact h.aside (Overlay.part_arrived_of_not hw (hheard p.msg rfl).1) rfl hlaw aside
      fun o ho => (hs o ho).1

theorem run_onward (hd : ∀ a ∈ T.servers, 0 < T.degree a) (h : Steady T s)
    {events : List (Event Trigger)}
    (he : Overlay.Admitted T behaviour (Overlay.InOrderAbout Content.isElection) s events) :
    Onward T s (s.run T behaviour events) :=
  Overlay.run_invariant
    (fun _ _ trigger h ha _ => h.trans (h.steady.command hd ha trigger))
    (fun _ _ _ _ h hw hin => h.trans (h.steady.arrival hd hw hin)) ⟨h, fun _ _ hl => hl⟩ he

/-- Two leaders, at any two moments of a run, are the same server. -/
theorem Steady.eq_of_leader (hT : T.Connected) (hd : ∀ a ∈ T.servers, 0 < T.degree a)
    (h : Steady T s) (ha : a ∈ T.servers) (hb : b ∈ T.servers)
    (hla : (s.nodes a).election.status = .leader)
    (hlb : (s.nodes b).election.status = .leader) : a = b :=
  h.ordered.eq_of_leader h.sane hT (hd a ha) (hd b hb) hla hlb

end Server

end RelayMesh
