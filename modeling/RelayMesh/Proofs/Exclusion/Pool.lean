import RelayMesh.Proofs.Exclusion.Steps
import Mathlib.Algebra.BigOperators.Group.Finset.Basic
import Mathlib.Logic.Function.Basic

namespace RelayMesh

namespace Exclusion

/-- The servers, all requests that were ever flooded, and the tokens on their way. -/
structure Pool where
  nodes : Id → Exclusion
  requests : List Message := []
  flight : List (Id × Message) := []

namespace Pool

/-- What can happen. The message that `hear` brings has gone through any servers. -/
inductive Event
  | command (target : Id) (what : Command)
  | hear (target : Id) (place : Nat) (path : List Id)
  | take (place : Nat)
deriving DecidableEq

/-- Nobody has asked for anything, and there is no token. -/
def start : Pool := ⟨fun a => { own := a }, [], []⟩

/-- Server `a` takes over a step. -/
def act (s : Pool) (a : Id) (step : Exclusion × List Outgoing) : Pool where
  nodes := Function.update s.nodes a step.1
  requests := s.requests ++ step.2.filterMap Outgoing.flooded?
  flight := s.flight ++ step.2.filterMap Outgoing.addressed?

variable (servers : Finset Id) (minter : Id)

/-- Only `minter` is told to make the token. Tokens that are lost stay on their way for ever. -/
def step (s : Pool) : Event → Pool
  | .command a what =>
    if a ∈ servers ∧ (what = .mint → a = minter) then s.act a ((s.nodes a).obey what) else s
  | .hear a place path =>
    match s.requests[place]? with
    | none => s
    | some msg => if a ∈ servers then s.act a ((s.nodes a).receive { msg with path }) else s
  | .take place =>
    match s.flight[place]? with
    | none => s
    | some (dest, msg) =>
      { s with flight := s.flight.eraseIdx place }.act dest ((s.nodes dest).receive msg)

def run (events : List Event) : Pool := events.foldl (step servers minter) start

/-- The steps that all events consist of. -/
inductive Change (s : Pool) : Pool → Prop
  | ask (a : Id) (ha : a ∈ servers) (hp : (s.nodes a).phase = .outside)
      (ht : (s.nodes a).token = none) :
      Change s (s.act a ((s.nodes a).asked, [(s.nodes a).asked.requestMessage]))
  | enter (a : Id) (ha : a ∈ servers) (hp : (s.nodes a).phase = .outside)
      (ht : (s.nodes a).token.isSome) : Change s (s.act a ({ s.nodes a with phase := .inside }, []))
  | leave (a : Id) (ha : a ∈ servers) (hp : (s.nodes a).phase = .inside) :
      Change s (s.act a ({ s.nodes a with phase := .outside }, []))
  | note (a : Id) (ha : a ∈ servers) (msg : Message) (n : Nat)
      (hc : msg.content = .mutexRequest n) (hs : msg.sender ≠ a)
      (hn : n ≤ (s.nodes msg.sender).number) (news : Prop) [Decidable news] :
      Change s (s.act a ((s.nodes a).noted msg.sender n,
        if news then [.flood none MessageType.mutexRequest msg] else []))
  | take (a : Id) (ha : a ∈ servers) (front back : List (Id × Message)) (msg : Message) (n : Nat)
      (token : Token) (hf : s.flight = front ++ (a, msg) :: back)
      (hc : msg.content = .mutexToken n token) :
      Change s ({ s with flight := front ++ back }.act a ((s.nodes a).accepted token, []))
  | mint (ha : minter ∈ servers) (hm : (s.nodes minter).minted = false) :
      Change s (s.act minter (({ s.nodes minter with minted := true } : Exclusion).accepted .fresh, []))
  | give (a : Id) (ha : a ∈ servers) (token : Token) (dest : Id)
      (hp : (s.nodes a).phase = .outside) (ht : (s.nodes a).token = some token)
      (hd : token.entry dest < (s.nodes a).requestOf dest) :
      Change s (s.act a ({ s.nodes a with token := none }, [(s.nodes a).handOver dest token]))

/-- What the servers know of each other's requests, and where the token can be. -/
structure Known (s : Pool) : Prop where
  own : ∀ a, (s.nodes a).own = a
  inside : ∀ a, (s.nodes a).phase = .inside → (s.nodes a).token.isSome
  waiting : ∀ a, (s.nodes a).phase = .waiting → (s.nodes a).token = none
  outsider : ∀ a, a ∉ servers → (s.nodes a).token = none ∧ (s.nodes a).number = 0
  flooded : ∀ m ∈ s.requests, ∃ n, m.content = .mutexRequest n ∧ n ≤ (s.nodes m.sender).number
  bound : ∀ a p, (s.nodes a).requestOf p ≤ (s.nodes p).number
  self : ∀ a, (s.nodes a).requestOf a = 0
  flight : ∀ f ∈ s.flight, f.1 ∈ servers ∧ ∃ n token, f.2.content = .mutexToken n token

variable {servers} {minter} {s : Pool} {a : Id}

@[simp] theorem nodes_act_self (step : Exclusion × List Outgoing) :
    (s.act a step).nodes a = step.1 := by simp [act]

theorem nodes_act_ne {b : Id} (h : b ≠ a) (step : Exclusion × List Outgoing) :
    (s.act a step).nodes b = s.nodes b := by simp [act, h]

theorem nodes_act (b : Id) (step : Exclusion × List Outgoing) :
    (s.act a step).nodes b = if b = a then step.1 else s.nodes b := by
  simp [act, Function.update_apply]

/-- Two steps of one server, one after the other, are one step with the sends of both. -/
theorem act_act (first second : Exclusion × List Outgoing) :
    (s.act a first).act a second = s.act a (second.1, first.2 ++ second.2) := by
  simp [act, List.append_assoc]

theorem known_start : Known servers start where
  own _ := rfl
  inside _ h := by simp [start] at h
  waiting _ _ := rfl
  outsider _ _ := ⟨rfl, rfl⟩
  flooded _ h := by simp [start] at h
  bound _ _ := by simp [start, requestOf]
  self _ := by simp [start, requestOf]
  flight _ h := by simp [start] at h

/-- A step of a server keeps `Known` if it keeps the server's own part of it. -/
theorem Known.act (h : Known servers s) (ha : a ∈ servers) {x : Exclusion} {sends : List Outgoing}
    (own : x.own = a) (inside : x.phase = .inside → x.token.isSome)
    (waiting : x.phase = .waiting → x.token = none) (number : (s.nodes a).number ≤ x.number)
    (flooded : ∀ m ∈ sends.filterMap Outgoing.flooded?,
      ∃ n, m.content = .mutexRequest n ∧ n ≤ ((s.act a (x, sends)).nodes m.sender).number)
    (bound : ∀ p, x.requestOf p ≤ (s.nodes p).number) (self : x.requestOf a = 0)
    (flight : ∀ f ∈ sends.filterMap Outgoing.addressed?,
      f.1 ∈ servers ∧ ∃ n token, f.2.content = .mutexToken n token) :
    Known servers (s.act a (x, sends)) := by
  have grows (p : Id) : (s.nodes p).number ≤ ((s.act a (x, sends)).nodes p).number := by
    rw [nodes_act]
    split
    next hp => exact hp ▸ number
    next => exact Nat.le_refl _
  constructor
  case own => intro b; rw [nodes_act]; split <;> simp_all [h.own]
  case inside => intro b; rw [nodes_act]; split; exacts [inside, h.inside b]
  case waiting => intro b; rw [nodes_act]; split; exacts [waiting, h.waiting b]
  case outsider =>
    intro b hb
    rw [nodes_act_ne (ne_of_mem_of_not_mem ha hb).symm]
    exact h.outsider b hb
  case flooded =>
    intro m hm
    rcases List.mem_append.1 hm with hm | hm
    · obtain ⟨n, hc, hn⟩ := h.flooded m hm
      exact ⟨n, hc, hn.trans (grows _)⟩
    · exact flooded m hm
  case bound =>
    intro b p
    refine Nat.le_trans ?_ (grows p)
    rw [nodes_act]
    split
    exacts [bound p, h.bound b p]
  case self =>
    intro b
    rw [nodes_act]
    split
    next hb => exact hb ▸ self
    next => exact h.self b
  case flight =>
    intro f hf
    rcases List.mem_append.1 hf with hf | hf
    exacts [h.flight f hf, flight f hf]

theorem Known.change (h : Known servers s) {s' : Pool} (c : Change servers minter s s') :
    Known servers s' := by
  cases c with
  | ask a ha hp ht =>
    refine h.act ha (h.own a) (by simp [asked]) (fun _ => ht) (Nat.le_succ _) ?_ (h.bound a)
      (h.self a) (by simp)
    intro m hm
    obtain rfl : m = .new (s.nodes a).asked.own (.mutexRequest (s.nodes a).asked.number) := by
      simpa using hm
    exact ⟨_, rfl, by simp [Message.new, asked, h.own a]⟩
  | enter a ha hp ht =>
    exact h.act ha (h.own a) (fun _ => ht) (by simp) (Nat.le_refl _) (by simp) (h.bound a)
      (h.self a) (by simp)
  | leave a ha hp =>
    exact h.act ha (h.own a) (by simp) (by simp) (Nat.le_refl _) (by simp) (h.bound a) (h.self a)
      (by simp)
  | note a ha msg n hc hs hn news =>
    refine h.act ha (by simp [h.own a]) (by simpa using h.inside a) (by simpa using h.waiting a)
      (by simp) ?_ ?_ ?_ (by split <;> simp [Outgoing.addressed?])
    · intro m hm
      obtain rfl : m = msg := by split at hm <;> simp_all [Outgoing.flooded?]
      exact ⟨n, hc, by rwa [nodes_act_ne hs]⟩
    · intro p
      rw [requestOf_noted]
      split
      next hp => subst hp; exact max_le (h.bound a _) hn
      next => exact h.bound a p
    · rw [requestOf_noted, if_neg hs.symm]
      exact h.self a
  | take a ha front back msg n token hf hc =>
    have hk : Known servers { s with flight := front ++ back } :=
      { h with flight := fun f hm => h.flight f (by rw [hf]; simp at hm ⊢; tauto) }
    exact hk.act ha (h.own a) (by simp [accepted]) (fun hw => absurd hw (phase_accepted_ne_waiting _ _))
      (Nat.le_refl _) (by simp) (h.bound a) (h.self a) (by simp)
  | mint ha hm =>
    exact h.act ha (h.own _) (by simp [accepted]) (fun hw => absurd hw (phase_accepted_ne_waiting _ _))
      (Nat.le_refl _) (by simp) (h.bound _) (h.self _) (by simp)
  | give a ha token dest hp ht hd =>
    refine h.act ha (h.own a) (by simp [hp]) (fun _ => rfl) (Nat.le_refl _) (by simp) (h.bound a)
      (h.self a) ?_
    intro f hf
    obtain rfl : f = (dest, (s.nodes a).tokenMessage dest token) := by simpa using hf
    refine ⟨?_, _, _, rfl⟩
    by_contra hn
    have hb := h.bound a dest
    rw [(h.outsider dest hn).2] at hb
    omega

end Pool

end Exclusion

end RelayMesh
