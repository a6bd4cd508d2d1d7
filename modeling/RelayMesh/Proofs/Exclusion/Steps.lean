import RelayMesh.Exclusion
import Mathlib.Logic.Basic

namespace RelayMesh

/-- The message of a flood. -/
def Outgoing.flooded? : Outgoing → Option Message
  | .flood _ _ msg => some msg
  | .toServer _ _ _ => none

/-- The destination and the message of a send to one server. -/
def Outgoing.addressed? : Outgoing → Option (Id × Message)
  | .flood _ _ _ => none
  | .toServer dest _ msg => some (dest, msg)

namespace Exclusion

/-- What the operator of a server can ask for. -/
inductive Command
  | request
  | release
  | mint
deriving DecidableEq

def obey (x : Exclusion) : Command → Exclusion × List Outgoing
  | .request => (x.request.1, x.request.2.sends)
  | .release => x.release
  | .mint => (x.mint.1, x.mint.2.sends)

/-- Handles a message by its content. -/
def receive (x : Exclusion) (msg : Message) : Exclusion × List Outgoing :=
  match msg.content with
  | .mutexRequest _ => x.onRequest msg
  | .mutexToken _ token => ((x.onToken token).1, (x.onToken token).2.sends)
  | _ => (x, [])

/-- The token satisfies every request that is known. -/
def AllServed (x : Exclusion) (token : Token) : Prop := ∀ p, x.requestOf p ≤ token.entry p

/-- A token that lies idle here satisfies every request that is known. -/
def Idle (x : Exclusion) : Prop :=
  x.phase = .outside → ∀ token, x.token = some token → x.AllServed token

/-- The server asks for the token. -/
def asked (x : Exclusion) : Exclusion := { x with number := x.number + 1, phase := .waiting }

/-- The server knows request `number` of `p`. -/
def noted (x : Exclusion) (p : Id) (number : Nat) : Exclusion :=
  if x.requestOf p < number then { x with requests := x.requests.insert p number } else x

/-- The server has the token, and enters if it waits for it. -/
def accepted (x : Exclusion) (token : Token) : Exclusion :=
  { x with token := some token, phase := if x.phase = .waiting then .inside else x.phase }

def requestMessage (x : Exclusion) : Outgoing :=
  .flood none MessageType.mutexRequest (.new x.own (.mutexRequest x.number))

/-- The message that takes `token`, with the server's own last request on it, to `dest`. -/
def tokenMessage (x : Exclusion) (dest : Id) (token : Token) : Message :=
  (Message.new x.own (.mutexToken x.number (token.setEntry x.own x.number))).addressedTo dest

def handOver (x : Exclusion) (dest : Id) (token : Token) : Outgoing :=
  .toServer dest MessageType.mutexToken (x.tokenMessage dest token)

/-- The server keeps the token, or hands it to a server whose request it does not satisfy. -/
inductive Settles (x : Exclusion) : Exclusion × List Outgoing → Prop
  | keep (h : x.Idle) : Settles x (x, [])
  | give (token : Token) (dest : Id) (hp : x.phase = .outside) (ht : x.token = some token)
      (hd : token.entry dest < x.requestOf dest) :
      Settles x ({ x with token := none }, [x.handOver dest token])

@[simp] theorem flooded?_requestMessage (x : Exclusion) :
    x.requestMessage.flooded? = some (.new x.own (.mutexRequest x.number)) := rfl

@[simp] theorem addressed?_requestMessage (x : Exclusion) : x.requestMessage.addressed? = none := rfl

@[simp] theorem flooded?_handOver (x : Exclusion) (dest : Id) (token : Token) :
    (x.handOver dest token).flooded? = none := rfl

@[simp] theorem addressed?_handOver (x : Exclusion) (dest : Id) (token : Token) :
    (x.handOver dest token).addressed? = some (dest, x.tokenMessage dest token) := rfl

@[simp] theorem number_asked (x : Exclusion) : x.asked.number = x.number + 1 := rfl

@[simp] theorem requestOf_noted (x : Exclusion) (p q : Id) (number : Nat) :
    (x.noted p number).requestOf q =
      if q = p then max (x.requestOf p) number else x.requestOf q := by
  unfold noted
  by_cases hq : q = p
  · subst hq
    split <;> simp [requestOf] at * <;> omega
  · split <;> simp [requestOf, hq]

@[simp] theorem own_noted (x : Exclusion) (p : Id) (n : Nat) : (x.noted p n).own = x.own := by
  unfold noted
  split <;> rfl

@[simp] theorem number_noted (x : Exclusion) (p : Id) (n : Nat) :
    (x.noted p n).number = x.number := by
  unfold noted
  split <;> rfl

@[simp] theorem token_noted (x : Exclusion) (p : Id) (n : Nat) :
    (x.noted p n).token = x.token := by
  unfold noted
  split <;> rfl

@[simp] theorem phase_noted (x : Exclusion) (p : Id) (n : Nat) :
    (x.noted p n).phase = x.phase := by
  unfold noted
  split <;> rfl

@[simp] theorem minted_noted (x : Exclusion) (p : Id) (n : Nat) :
    (x.noted p n).minted = x.minted := by
  unfold noted
  split <;> rfl

@[simp] theorem minted_handOff (x : Exclusion) (dest : Id) :
    (x.handOff dest).1.minted = x.minted := by
  unfold handOff
  split <;> rfl

@[simp] theorem minted_passOn (x : Exclusion) : x.passOn.1.minted = x.minted := by
  unfold passOn
  split <;> simp

@[simp] theorem minted_serve (x : Exclusion) (p : Id) : (x.serve p).1.minted = x.minted := by
  unfold serve
  split
  · rfl
  · split <;> simp

@[simp] theorem minted_request (x : Exclusion) : x.request.1.minted = x.minted := by
  unfold request
  split
  · rfl
  · split <;> rfl

@[simp] theorem minted_release (x : Exclusion) : x.release.1.minted = x.minted := by
  unfold release
  split <;> simp

@[simp] theorem minted_onToken (x : Exclusion) (token : Token) :
    (x.onToken token).1.minted = x.minted := by
  unfold onToken
  split
  · rfl
  · dsimp only
    split <;> simp

/-- Whoever has been told to make the token has done so. -/
@[simp] theorem minted_mint (x : Exclusion) : x.mint.1.minted = true := by
  unfold mint
  split
  · assumption
  · rw [minted_onToken]

@[simp] theorem minted_onRequest (x : Exclusion) (msg : Message) :
    (x.onRequest msg).1.minted = x.minted := by
  unfold onRequest
  split
  · split
    · rfl
    · simp only [noteRequest]
      split <;> simp
  · rfl

@[simp] theorem requests_handOff (x : Exclusion) (dest : Id) :
    (x.handOff dest).1.requests = x.requests := by
  unfold handOff
  split <;> rfl

@[simp] theorem requests_passOn (x : Exclusion) : x.passOn.1.requests = x.requests := by
  unfold passOn
  split <;> simp

@[simp] theorem requests_serve (x : Exclusion) (p : Id) :
    (x.serve p).1.requests = x.requests := by
  unfold serve
  split
  · rfl
  · split <;> simp

@[simp] theorem requests_onToken (x : Exclusion) (token : Token) :
    (x.onToken token).1.requests = x.requests := by
  unfold onToken
  split
  · rfl
  · dsimp only
    split <;> simp

theorem requests_obey (x : Exclusion) (what : Command) : (x.obey what).1.requests = x.requests := by
  cases what with
  | request =>
    simp only [obey, request]
    split
    · rfl
    · split <;> rfl
  | release =>
    simp only [obey, release]
    split <;> simp
  | mint =>
    simp only [obey, mint]
    split <;> simp

theorem get?_requests_noted {x : Exclusion} {p q : Id} (h : q ≠ p) (n : Nat) :
    (x.noted p n).requests.get? q = x.requests.get? q := by
  unfold noted
  split <;> simp [h]

theorem obey_request_of_token {x : Exclusion} (hp : x.phase = .outside) (ht : x.token.isSome) :
    x.obey .request = ({ x with phase := .inside }, []) := by simp [obey, request, hp, ht]

theorem obey_request_of_none {x : Exclusion} (hp : x.phase = .outside) (ht : x.token = none) :
    x.obey .request = (x.asked, [x.asked.requestMessage]) := by
  simp [obey, request, hp, ht, asked, requestMessage]

theorem obey_request_of_phase {x : Exclusion} (hp : x.phase ≠ .outside) :
    x.obey .request = (x, []) := by simp [obey, request, hp]

theorem obey_release_of_phase {x : Exclusion} (hp : x.phase ≠ .inside) :
    x.obey .release = (x, []) := by simp [obey, release, hp]

theorem obey_mint_of_minted {x : Exclusion} (hm : x.minted = true) : x.obey .mint = (x, []) := by
  simp [obey, mint, hm]

theorem obey_mint {x : Exclusion} (hm : x.minted = false) :
    x.obey .mint = ((({ x with minted := true } : Exclusion).onToken .fresh).1,
      (({ x with minted := true } : Exclusion).onToken .fresh).2.sends) := by
  simp [obey, mint, hm]

theorem receive_token {x : Exclusion} {msg : Message} {n : Nat} {token : Token}
    (hc : msg.content = .mutexToken n token) :
    x.receive msg = ((x.onToken token).1, (x.onToken token).2.sends) := by simp [receive, hc]

/-- A server's own request that comes back is ignored. -/
theorem receive_own {x : Exclusion} {msg : Message} {n : Nat}
    (hc : msg.content = .mutexRequest n) (hs : msg.sender = x.own) : x.receive msg = (x, []) := by
  simp [receive, hc, onRequest, hs]

/-- A message that is not for this algorithm changes nothing. -/
theorem receive_other {x : Exclusion} {msg : Message}
    (hr : ∀ n, msg.content ≠ .mutexRequest n) (ht : ∀ n token, msg.content ≠ .mutexToken n token) :
    x.receive msg = (x, []) := by
  unfold receive
  split
  next he => exact absurd he (hr _)
  next he => exact absurd he (ht _ _)
  next => rfl

theorem phase_accepted_ne_waiting (x : Exclusion) (token : Token) :
    (x.accepted token).phase ≠ .waiting := by
  simp only [accepted]
  split
  · simp
  · assumption

theorem handOff_of_token {x : Exclusion} {token : Token} (h : x.token = some token) (dest : Id) :
    x.handOff dest = ({ x with token := none }, [x.handOver dest token]) := by
  simp [handOff, h, handOver, tokenMessage]

theorem firstPending_eq_none {requests : IdMap Nat} {token : Token}
    (h : firstPending requests token = none) (p : Id) :
    (requests.get? p).getD 0 ≤ token.entry p := by
  simp only [firstPending, Option.map_eq_none_iff, List.find?_eq_none] at h
  cases hp : requests.get? p with
  | none => simp
  | some number => simpa using h _ ((requests.mem_toList_iff).2 hp)

theorem firstPending_eq_some {requests : IdMap Nat} {token : Token} {dest : Id}
    (h : firstPending requests token = some dest) :
    token.entry dest < (requests.get? dest).getD 0 := by
  simp only [firstPending, Option.map_eq_some_iff] at h
  obtain ⟨⟨p, number⟩, hf, rfl⟩ := h
  have hm := (requests.mem_toList_iff).1 (List.mem_of_find?_eq_some hf)
  simpa [hm] using List.find?_some hf

theorem passOn_settles {x : Exclusion} (hp : x.phase = .outside) : x.Settles x.passOn := by
  unfold passOn
  cases ht : x.token with
  | none => exact .keep fun _ token h => by simp [ht] at h
  | some token =>
    simp only [Option.bind_some]
    cases hf : firstPending x.requests token with
    | none =>
      refine .keep fun _ token' h p => ?_
      obtain rfl : token = token' := by simpa [ht] using h
      exact firstPending_eq_none hf p
    | some dest =>
      simp only [handOff_of_token ht]
      exact .give token dest hp ht (firstPending_eq_some hf)

theorem release_settles {x : Exclusion} (hp : x.phase = .inside) :
    ({ x with phase := .outside } : Exclusion).Settles (x.obey .release) := by
  simp only [obey, release, hp, if_true]
  exact passOn_settles rfl

theorem onToken_settles {x : Exclusion} (token : Token) (ht : x.token = none)
    (hp : x.phase ≠ .inside) :
    (x.accepted token).Settles ((x.onToken token).1, (x.onToken token).2.sends) := by
  simp only [onToken, ht, Option.isSome_none, Bool.false_eq_true, if_false]
  by_cases hw : x.phase = .waiting
  · simp only [hw, if_true]
    have hx : x.accepted token = { x with token := some token, phase := .inside } := by
      simp [accepted, hw]
    rw [hx]
    exact .keep fun h => by simp at h
  · have hx : x.accepted token = { x with token := some token } := by simp [accepted, hw]
    have ho : x.phase = .outside := by cases h : x.phase <;> simp_all
    simp only [hw, if_false, hx]
    exact passOn_settles ho

theorem receive_request {x : Exclusion} {msg : Message} {n : Nat}
    (hc : msg.content = .mutexRequest n) (hs : msg.sender ≠ x.own) :
    x.receive msg =
      (((x.noted msg.sender n).serve msg.sender).1,
        (if x.requestOf msg.sender < n then [.flood none MessageType.mutexRequest msg] else []) ++
          ((x.noted msg.sender n).serve msg.sender).2) := by
  simp only [receive, onRequest, hc, hs, if_false, noteRequest, noted]
  split <;> rfl

/-- A server takes no note of its own requests. -/
theorem get?_requests_receive (x : Exclusion) (msg : Message) :
    (x.receive msg).1.requests.get? x.own = x.requests.get? x.own := by
  cases hc : msg.content with
  | mutexToken n token => rw [receive_token hc, requests_onToken]
  | mutexRequest n =>
    by_cases hs : msg.sender = x.own
    · rw [receive_own hc hs]
    · rw [receive_request hc hs, requests_serve, get?_requests_noted (Ne.symm hs)]
  | _ => rw [receive_other (by simp [hc]) (by simp [hc])]

theorem serve_settles {x : Exclusion} (p : Id)
    (h : x.phase = .outside → ∀ token, x.token = some token →
      ∀ q, q ≠ p → x.requestOf q ≤ token.entry q) : x.Settles (x.serve p) := by
  unfold serve
  cases ht : x.token with
  | none => exact .keep fun _ token h => by simp [ht] at h
  | some token =>
    simp only
    split
    next hc =>
      rw [handOff_of_token ht]
      exact .give token p hc.1 ht hc.2
    next hc =>
      refine .keep fun ho token' h' q => ?_
      obtain rfl : token = token' := by simpa [ht] using h'
      by_cases hq : q = p
      · subst hq
        exact Nat.le_of_not_lt fun hlt => hc ⟨ho, hlt⟩
      · exact h ho token ht q hq

theorem serve_noted_settles {x : Exclusion} (hi : x.Idle) (p : Id) (number : Nat) :
    (x.noted p number).Settles ((x.noted p number).serve p) := by
  refine serve_settles p fun ho token ht q hq => ?_
  rw [requestOf_noted, if_neg hq]
  exact hi (by simpa using ho) token (by simpa using ht) q

end Exclusion

end RelayMesh
