import Mathlib.Data.Nat.Digits.Lemmas
import RelayMesh.Proofs.Wire.Reading
import RelayMesh.Site

namespace RelayMesh

namespace Text

/-- The number that digits spell, the most significant one first. -/
def decimal (digits : List Char) : Nat :=
  Nat.ofDigits 10 (digits.reverse.map fun c => c.toNat - '0'.toNat)

/-- The text is the decimal spelling of the number, with or without a plus sign and zeros before it. -/
def Spells (text : List Char) (w : UInt32) : Prop :=
  ∃ digits, (text = digits ∨ text = '+' :: digits) ∧ digits ≠ [] ∧ (∀ c ∈ digits, c.isDigit) ∧
    decimal digits = w.toNat

variable {c : Char} {text : List Char} {value n : Nat} {w : UInt32}

theorem decimal_cons (c : Char) (digits : List Char) :
    decimal (c :: digits) = (c.toNat - '0'.toNat) * 10 ^ digits.length + decimal digits := by
  simp only [decimal, List.reverse_cons, List.map_append, Nat.ofDigits_append, List.map_cons,
    List.map_nil, Nat.ofDigits_singleton, List.length_map, List.length_reverse]
  ring

theorem digit?_of_isDigit (h : c.isDigit) : digit? c = some (c.toNat - '0'.toNat) := by
  rw [digit?, if_pos]
  simpa [Char.isDigit, Char.le_def] using h

theorem digit?_of_not_isDigit (h : ¬ c.isDigit) : digit? c = none := by
  rw [digit?, if_neg]
  simpa [Char.isDigit, Char.le_def] using h

/-- Once a number is too large, further digits do not make it smaller. -/
theorem digits_eq_ok_iff (hv : value < UInt32.size) : digits value text = .ok n ↔
    (∀ c ∈ text, c.isDigit) ∧ value * 10 ^ text.length + decimal text = n ∧ n < UInt32.size := by
  induction text generalizing value with
  | nil =>
    simp only [digits, decimal, List.length_nil, List.reverse_nil, List.map_nil, Nat.ofDigits_nil]
    grind
  | cons c text ih =>
    rw [digits]
    by_cases hc : c.isDigit
    · have hsum : value * 10 ^ (c :: text).length + decimal (c :: text) =
          (10 * value + (c.toNat - '0'.toNat)) * 10 ^ text.length + decimal text := by
        rw [decimal_cons, List.length_cons]
        ring
      simp only [digit?_of_isDigit hc, hsum, List.forall_mem_cons, hc, true_and]
      split
      next hlt => exact ih hlt
      next hlarge =>
        have hgrows := Nat.le_mul_of_pos_right (10 * value + (c.toNat - '0'.toNat))
          (Nat.pow_pos (n := text.length) (show 0 < 10 by decide))
        simp only [reduceCtorEq, false_iff]
        rintro ⟨-, rfl, hn⟩
        omega
    · simp [digit?_of_not_isDigit hc, hc]

theorem map_digits_eq_ok_iff : (digits 0 text).map UInt32.ofNat = .ok w ↔
    (∀ c ∈ text, c.isDigit) ∧ decimal text = w.toNat := by
  have hread (n : Nat) : digits 0 text = .ok n ↔
      (∀ c ∈ text, c.isDigit) ∧ decimal text = n ∧ n < UInt32.size := by
    rw [digits_eq_ok_iff (by decide), Nat.zero_mul, Nat.zero_add]
  constructor
  · intro h
    cases hd : digits 0 text with
    | error why => rw [hd] at h; cases h
    | ok n =>
      obtain ⟨hdigits, hn, hlt⟩ := (hread n).1 hd
      rw [hd] at h
      cases h
      exact ⟨hdigits, by rw [hn, UInt32.toNat_ofNat_of_lt' hlt]⟩
  · rintro ⟨hdigits, hw⟩
    rw [(hread w.toNat).2 ⟨hdigits, hw, w.toNat_lt⟩]
    simp [Except.map]

/-- A number is read exactly from its spellings. -/
theorem word_eq_ok_iff : word text = .ok w ↔ Spells text w := by
  have hplus (rest : List Char) : ¬ ∀ c ∈ '+' :: rest, c.isDigit := fun h =>
    absurd (h '+' List.mem_cons_self) (by decide)
  unfold word
  split
  next => simp [Spells]
  next =>
    simp only [reduceCtorEq, false_iff]
    rintro ⟨digits, rfl | h, hne, hdigits, -⟩
    · exact hplus [] hdigits
    · exact hne (List.cons.inj h).2.symm
  next rest hrest =>
    rw [map_digits_eq_ok_iff]
    constructor
    · rintro ⟨hdigits, hw⟩
      exact ⟨rest, .inr rfl, fun hnil => hrest hnil, hdigits, hw⟩
    · rintro ⟨digits, rfl | h, -, hdigits, hw⟩
      · exact absurd hdigits (hplus rest)
      · obtain rfl := (List.cons.inj h).2
        exact ⟨hdigits, hw⟩
  next hne _ hno =>
    rw [map_digits_eq_ok_iff]
    constructor
    · rintro ⟨hdigits, hw⟩
      exact ⟨text, .inl rfl, hne, hdigits, hw⟩
    · rintro ⟨digits, rfl | h, -, hdigits, hw⟩
      · exact ⟨hdigits, hw⟩
      · exact absurd h (hno digits)

end Text

namespace Fault

variable {α : Type} {step : Except Fault α} {u : Unit} {why : Fault}

theorem discard_eq_ok_iff : discard step = .ok u ↔ ∃ a, step = .ok a := by
  cases step <;> simp [Functor.discard, Functor.mapConst, Except.map]

theorem discard_eq_error_iff : discard step = .error why ↔ step = .error why := by
  cases step <;> simp [Functor.discard, Functor.mapConst, Except.map]

end Fault

theorem Config.port_eq_error_iff {server : Id} {number : Nat} {why : Fault} :
    port server number = .error why ↔
      maxPort < number ∧ why = .invalidArgument (.noPort server) := by
  unfold port
  split <;> grind

/-- A server can have this number: it is not 0, and the numbers of its two ports are not too large. -/
structure Config.Admits (c : Config) (id : Id) : Prop where
  pos : 0 < id.toNat
  clients : c.basePort.toNat + id.toNat ≤ Config.maxPort
  servers : c.basePort.toNat + id.toNat + Config.serverPortOffset ≤ Config.maxPort

theorem Config.admits_iff {c : Config} {id : Id} : c.Admits id ↔
    id ≠ 0 ∧ c.basePort.toNat + id.toNat + serverPortOffset ≤ maxPort := by
  constructor
  · intro h
    refine ⟨?_, h.servers⟩
    rintro rfl
    exact absurd h.pos (by decide)
  · rintro ⟨hne, hle⟩
    have hpos : id.toNat ≠ 0 := fun h => hne (UInt32.toNat_inj.1 h)
    exact ⟨by omega, by omega, hle⟩

namespace Startup

open Text (Spells)

/-- The host of a peer and its number, as they are written. -/
def Names (pair : String × String) (peer : Peer) : Prop :=
  pair.1 = peer.host ∧ Spells pair.2.toList peer.id

def spread (pairs : List (String × String)) : List String :=
  pairs.flatMap fun pair => [pair.1, pair.2]

/-- The arguments are a number and any number of pairs of a host and a number, and the server has this
identity and these peers, in their order. -/
def Described (arguments : List String) (s : Startup) : Prop :=
  ∃ first pairs, arguments = first :: spread pairs ∧ Spells first.toList s.identity ∧
    List.Forall₂ Names pairs s.peers

variable {s : Startup} {peers : List Peer} {pairs : List (String × String)} {id : Id}

theorem length_spread (pairs : List (String × String)) : (spread pairs).length % 2 = 0 := by
  simp [spread]

theorem exists_spread : ∀ rest : List String, rest.length % 2 = 0 → ∃ pairs, rest = spread pairs
  | [], _ => ⟨[], rfl⟩
  | [_], h => by simp at h
  | host :: id :: rest, h => by
    obtain ⟨pairs, rfl⟩ := exists_spread rest (by simp at h; omega)
    exact ⟨(host, id) :: pairs, rfl⟩

theorem parseId_eq_ok_iff {argument : String} :
    parseId argument = .ok id ↔ Spells argument.toList id := by
  rw [← Text.word_eq_ok_iff, parseId]
  cases Text.word argument.toList <;> simp [Except.mapError]

theorem parsePeers_eq_ok_iff :
    parsePeers (spread pairs) = .ok peers ↔ List.Forall₂ Names pairs peers := by
  induction pairs generalizing peers with
  | nil => simp [spread, parsePeers, eq_comm]
  | cons pair pairs ih =>
    have hcons : spread (pair :: pairs) = pair.1 :: pair.2 :: spread pairs := rfl
    simp only [hcons, parsePeers, Fault.bind_eq_ok_iff, parseId_eq_ok_iff, ih,
      List.forall₂_cons_left_iff]
    constructor
    · rintro ⟨id, hid, rest, hrest, ⟨⟩⟩
      exact ⟨⟨pair.1, id⟩, rest, ⟨rfl, hid⟩, hrest, rfl⟩
    · rintro ⟨⟨host, id⟩, rest, ⟨rfl, hid⟩, hrest, rfl⟩
      exact ⟨id, hid, rest, hrest, rfl⟩

theorem ofArguments_spread {first : String} : ofArguments (first :: spread pairs) = .ok s ↔
    Spells first.toList s.identity ∧ List.Forall₂ Names pairs s.peers ∧ s.config = {} ∧
      s.validate = .ok () := by
  simp only [ofArguments, length_spread, ne_eq, not_true, if_false, Fault.bind_eq_ok_iff,
    parseId_eq_ok_iff, parsePeers_eq_ok_iff]
  constructor
  · rintro ⟨identity, hfirst, peers, hpeers, ⟨⟩, hvalid, ⟨⟩⟩
    exact ⟨hfirst, hpeers, rfl, hvalid⟩
  · obtain ⟨identity, peers, config⟩ := s
    rintro ⟨hfirst, hpeers, rfl, hvalid⟩
    exact ⟨identity, hfirst, peers, hpeers, (), hvalid, rfl⟩

theorem exists_of_ofArguments {arguments : List String} (h : ofArguments arguments = .ok s) :
    ∃ first pairs, arguments = first :: spread pairs := by
  cases arguments with
  | nil => cases h
  | cons first rest =>
    by_cases hlength : rest.length % 2 = 0
    · obtain ⟨pairs, rfl⟩ := exists_spread rest hlength
      exact ⟨first, pairs, rfl⟩
    · simp only [ofArguments, hlength, ne_eq, not_false_eq_true, if_true] at h
      cases h

theorem ofArguments_eq_ok_iff {arguments : List String} :
    ofArguments arguments = .ok s ↔ Described arguments s ∧ s.config = {} ∧ s.validate = .ok () := by
  constructor
  · intro h
    obtain ⟨first, pairs, rfl⟩ := exists_of_ofArguments h
    obtain ⟨hfirst, hpeers, hrest⟩ := ofArguments_spread.1 h
    exact ⟨⟨first, pairs, rfl, hfirst, hpeers⟩, hrest⟩
  · rintro ⟨⟨first, pairs, rfl, hfirst, hpeers⟩, hrest⟩
    exact ofArguments_spread.2 ⟨hfirst, hpeers, hrest⟩

theorem validate_eq_ok_iff : s.validate = .ok () ↔ s.config.validate = .ok () ∧
    s.config.Admits s.identity ∧ ∀ peer ∈ s.peers, peer.id ≠ s.identity := by
  rw [Config.admits_iff]
  unfold validate
  split
  next h => simp [h]
  next h =>
    split
    next hown => simp_all
    next hown =>
      simp only [Fault.bind_eq_ok_iff, Fault.discard_eq_ok_iff, Config.serverPort, Config.port_eq_ok_iff]
      constructor
      · rintro ⟨⟨⟩, hconfig, port, -, hle⟩
        exact ⟨hconfig, ⟨h, hle⟩, by simpa using hown⟩
      · rintro ⟨hconfig, ⟨-, hle⟩, -⟩
        exact ⟨(), hconfig, _, rfl, hle⟩

end Startup

namespace Network

/-- The port of the peer is one, and the network takes the connection to it. -/
def Reaches (network : Network) (config : Config) (peer : Peer) : Prop :=
  ∃ port greeting, config.serverPort peer.id = .ok port ∧
    network (peer.host ++ ":" ++ toString port) = .accepted greeting

/-- Who connects to the peers in their order gets as far as this one. -/
def ComesTo (network : Network) (config : Config) (peers : List Peer) (peer : Peer) : Prop :=
  ∃ reached rest, peers = reached ++ peer :: rest ∧ ∀ p ∈ reached, network.Reaches config p

variable {network : Network} {config : Config} {peers : List Peer} {peer first : Peer}

theorem connect_eq_ok_iff {host : String} {port : Nat} {greeting : Incoming} :
    network.connect host port = .ok greeting ↔
      network (host ++ ":" ++ toString port) = .accepted greeting := by
  unfold connect
  split <;> simp_all

theorem connect_ne_refused {host : String} {port : Nat} {why : Refusal} :
    network.connect host port ≠ .error (.invalidArgument why) := by
  unfold connect
  split <;> simp

theorem not_comesTo_nil : ¬ network.ComesTo config [] peer := by
  rintro ⟨reached, rest, h, -⟩
  simp at h

theorem comesTo_cons : network.ComesTo config (first :: peers) peer ↔
    peer = first ∨ network.Reaches config first ∧ network.ComesTo config peers peer := by
  constructor
  · rintro ⟨reached, rest, h, hreached⟩
    cases reached with
    | nil => exact .inl (List.cons.inj h).1.symm
    | cons p reached =>
      obtain ⟨rfl, htail⟩ := List.cons.inj h
      obtain ⟨hp, hothers⟩ := List.forall_mem_cons.1 hreached
      exact .inr ⟨hp, reached, rest, htail, hothers⟩
  · rintro (rfl | ⟨hfirst, reached, rest, rfl, hreached⟩)
    · exact ⟨[], peers, rfl, by simp⟩
    · exact ⟨first :: reached, rest, rfl, List.forall_mem_cons.2 ⟨hfirst, hreached⟩⟩

theorem ComesTo.mem (h : network.ComesTo config peers peer) : peer ∈ peers := by
  obtain ⟨reached, rest, rfl, -⟩ := h
  simp

end Network

namespace Site

variable {site : Site} {s : Startup} {why : Refusal} {network : Network} {server next : Server}
  {link : LinkId} {peer : Peer}

theorem listen_eq_ok_iff {port : Nat} {u : Unit} :
    site.listen port = .ok u ↔ port ∉ site.portsInUse := by
  unfold listen
  split <;> simp_all

theorem listen_ne_refused {port : Nat} : site.listen port ≠ .error (.invalidArgument why) := by
  unfold listen
  split <;> simp

theorem checkSize_ne_refused {limit : UInt32} {size : Nat} :
    Frame.checkSize limit size ≠ .error (.invalidArgument why) := by
  simp [Frame.checkSize_eq_error_iff]

/-- What the server says of itself on a new connection fits into a frame. -/
def Presentable (server : Server) : Prop :=
  (Wire.encodeId server.identity).length ≤ server.config.maxMessageSize.toNat

theorem presentable_new (identity : Id) : Presentable (Server.new identity {}) := by
  have hlimit : 5 ≤ ({} : Config).maxMessageSize.toNat := by decide
  exact (Wire.length_encodeId_le identity).trans hlimit

theorem write_handshake_eq_ok_iff {bytes : Bytes} :
    (Frame.handshake server.identity server.identity).write server.config.maxMessageSize [] =
      .ok bytes ↔
    Presentable server ∧ bytes = (Frame.handshake server.identity server.identity).bytes := by
  simp only [Frame.write, Fault.bind_eq_ok_iff, Frame.checkSize_eq_ok_iff, List.nil_append]
  constructor
  · rintro ⟨-, hsize, ⟨⟩⟩
    exact ⟨hsize, rfl⟩
  · rintro ⟨hsize, rfl⟩
    exact ⟨(), hsize, rfl⟩

theorem join_eq_ok_iff : join network server link peer = .ok next ↔
    network.Reaches server.config peer ∧ Presentable server ∧
      next = { server.addNeighbour peer.id link with
        outbox := server.outbox.addLink link server.config.sendQueueCapacity } := by
  simp only [join, Fault.bind_eq_ok_iff, Fault.discard_eq_ok_iff, Network.connect_eq_ok_iff,
    write_handshake_eq_ok_iff]
  constructor
  · rintro ⟨port, hport, -, ⟨greeting, hgreeting⟩, -, ⟨bytes, hfits, -⟩, ⟨⟩⟩
    exact ⟨⟨port, greeting, hport, hgreeting⟩, hfits, rfl⟩
  · rintro ⟨⟨port, greeting, hport, hgreeting⟩, hfits, rfl⟩
    exact ⟨port, hport, (), ⟨greeting, hgreeting⟩, (), ⟨_, hfits, rfl⟩, rfl⟩

/-- That a number has no port is noticed on connecting. -/
theorem join_eq_error_iff :
    join network server link peer = .error (.invalidArgument why) ↔
      Config.maxPort < server.config.basePort.toNat + peer.id.toNat + Config.serverPortOffset ∧
        why = .noPort peer.id := by
  simp only [join, Fault.bind_eq_error_iff, Fault.discard_eq_error_iff, Config.serverPort,
    Config.port_eq_error_iff, Network.connect_ne_refused, Frame.write]
  simp [checkSize_ne_refused, pure, Except.pure]

theorem dial_eq_error_iff {peers : List Peer} (hfits : Presentable server) :
    dial network server link peers = .error (.invalidArgument why) ↔
      ∃ peer, network.ComesTo server.config peers peer ∧
        Config.maxPort < server.config.basePort.toNat + peer.id.toNat + Config.serverPortOffset ∧
          why = .noPort peer.id := by
  induction peers generalizing server link with
  | nil => simp [dial, Network.not_comesTo_nil]
  | cons first rest ih =>
    have hrest (next : Server) (h : join network server link first = .ok next) :
        dial network next (link + 1) rest = .error (.invalidArgument why) ↔
          ∃ peer, network.ComesTo server.config rest peer ∧
            Config.maxPort < server.config.basePort.toNat + peer.id.toNat +
              Config.serverPortOffset ∧ why = .noPort peer.id := by
      obtain ⟨-, -, rfl⟩ := join_eq_ok_iff.1 h
      exact ih hfits
    simp only [dial, Fault.bind_eq_error_iff, join_eq_error_iff, Network.comesTo_cons]
    constructor
    · rintro (hfirst | ⟨next, hjoin, hdial⟩)
      · exact ⟨first, .inl rfl, hfirst⟩
      · obtain ⟨peer, hcomes, hpeer⟩ := (hrest next hjoin).1 hdial
        exact ⟨peer, .inr ⟨(join_eq_ok_iff.1 hjoin).1, hcomes⟩, hpeer⟩
    · rintro ⟨peer, rfl | ⟨hreached, hcomes⟩, hpeer⟩
      · exact .inl hpeer
      · have hjoin : join network server link first = .ok _ :=
          join_eq_ok_iff.2 ⟨hreached, hfits, rfl⟩
        exact .inr ⟨_, hjoin, (hrest _ hjoin).2 ⟨peer, hcomes, hpeer⟩⟩

/-- That a number has no port is noticed after the server's own ports are in use. -/
theorem start_eq_error_iff (site : Site) (why : Refusal) (hvalid : s.validate = .ok ())
    (hconfig : s.config = {}) : site.start s = .error (.invalidArgument why) ↔
      s.config.basePort.toNat + s.identity.toNat ∉ site.portsInUse ∧
      s.config.basePort.toNat + s.identity.toNat + Config.serverPortOffset ∉ site.portsInUse ∧
      ∃ peer, site.network.ComesTo s.config s.peers peer ∧
        Config.maxPort < s.config.basePort.toNat + peer.id.toNat + Config.serverPortOffset ∧
          why = .noPort peer.id := by
  have hadmits := (Startup.validate_eq_ok_iff.1 hvalid).2.1
  have hclients : s.config.clientPort s.identity = .ok _ :=
    Config.port_eq_ok_iff.2 ⟨rfl, hadmits.clients⟩
  have hservers : s.config.serverPort s.identity = .ok _ :=
    Config.port_eq_ok_iff.2 ⟨rfl, hadmits.servers⟩
  have hfits : Presentable (Server.new s.identity s.config) := hconfig ▸ presentable_new s.identity
  have hsteps : site.start s = .error (.invalidArgument why) ↔
      s.config.basePort.toNat + s.identity.toNat ∉ site.portsInUse ∧
      s.config.basePort.toNat + s.identity.toNat + Config.serverPortOffset ∉ site.portsInUse ∧
      dial site.network (Server.new s.identity s.config) 0 s.peers =
        .error (.invalidArgument why) := by
    simp [start, hvalid, hclients, hservers, Fault.bind_eq_error_iff, listen_eq_ok_iff,
      listen_ne_refused, pure, Except.pure]
  rw [hsteps, dial_eq_error_iff hfits]
  exact Iff.rfl

end Site

namespace Startup

/-- A command line is taken exactly if it is a number and pairs of a host and a number, the first number
is one that a server can have, and none of the others is the same. Then the server is what they say,
with the default settings. Whatever the network does, its start is refused over a number exactly if its
own ports are free and, on connecting to its peers in their order, it comes to one that has no port. So
it is never refused over a number if all of them are numbers that a server can have. -/
theorem accepted_arguments (arguments : List String) (s : Startup) :
    (ofArguments arguments = .ok s ↔ Described arguments s ∧ s.config = {} ∧
      s.config.Admits s.identity ∧ ∀ peer ∈ s.peers, peer.id ≠ s.identity) ∧
    (ofArguments arguments = .ok s → ∀ (site : Site) why,
      site.start s = .error (.invalidArgument why) ↔
        s.config.basePort.toNat + s.identity.toNat ∉ site.portsInUse ∧
        s.config.basePort.toNat + s.identity.toNat + Config.serverPortOffset ∉ site.portsInUse ∧
        ∃ peer, site.network.ComesTo s.config s.peers peer ∧
          Config.maxPort < s.config.basePort.toNat + peer.id.toNat + Config.serverPortOffset ∧
            why = .noPort peer.id) ∧
    (ofArguments arguments = .ok s → (∀ peer ∈ s.peers, s.config.Admits peer.id) →
      ∀ (site : Site) why, site.start s ≠ .error (.invalidArgument why)) := by
  have hstart (h : ofArguments arguments = .ok s) (site : Site) (why : Refusal) := by
    obtain ⟨-, hconfig, hvalid⟩ := ofArguments_eq_ok_iff.1 h
    exact Site.start_eq_error_iff site why hvalid hconfig
  refine ⟨?_, hstart, fun h hadmits site why hfail => ?_⟩
  · rw [ofArguments_eq_ok_iff, validate_eq_ok_iff]
    constructor
    · rintro ⟨hdescribed, hconfig, -, hadmits, hothers⟩
      exact ⟨hdescribed, hconfig, hadmits, hothers⟩
    · rintro ⟨hdescribed, hconfig, hadmits, hothers⟩
      exact ⟨hdescribed, hconfig, by rw [hconfig]; rfl, hadmits, hothers⟩
  · obtain ⟨-, -, peer, hcomes, hlarge, -⟩ := (hstart h site why).1 hfail
    exact absurd (hadmits peer hcomes.mem).servers (by omega)

/-- Server 5 is to connect to 7 and 4, and its numbers are not written in the shortest way. -/
theorem accepted_arguments_spelled_out :
    ofArguments ["005", "left", "+7", "right", "4"] = .ok ⟨5, [⟨"left", 7⟩, ⟨"right", 4⟩], {}⟩ ∧
    (∀ peer ∈ [Peer.mk "left" 7, Peer.mk "right" 4], ({} : Config).Admits peer.id) ∧
    ∀ (site : Site) why, site.start ⟨5, [⟨"left", 7⟩, ⟨"right", 4⟩], {}⟩ ≠
      .error (.invalidArgument why) := by
  have hread : ofArguments ["005", "left", "+7", "right", "4"] =
      .ok ⟨5, [⟨"left", 7⟩, ⟨"right", 4⟩], {}⟩ := by decide +kernel
  have hadmits : ∀ peer ∈ [Peer.mk "left" 7, Peer.mk "right" 4], ({} : Config).Admits peer.id := by
    intro peer hpeer
    rcases List.mem_cons.1 hpeer with rfl | hpeer
    · exact ⟨by decide, by decide, by decide⟩
    · obtain rfl := List.mem_singleton.1 hpeer
      exact ⟨by decide, by decide, by decide⟩
  exact ⟨hread, hadmits, (accepted_arguments _ _).2.2 hread hadmits⟩

/-- Every connection is taken. -/
def everywhere : Network := fun _ => .accepted ⟨[], false⟩

/-- Peers are taken that no server can be: one with the number 0, and one with a number so large that it
has no port. The second one keeps the server from coming up, though the command line was accepted and
every connection succeeds, also if it is not the first peer. -/
theorem peers_unchecked :
    ofArguments ["1", "localhost", "0"] = .ok ⟨1, [⟨"localhost", 0⟩], {}⟩ ∧
    ofArguments ["1", "localhost", "70000"] = .ok ⟨1, [⟨"localhost", 70000⟩], {}⟩ ∧
    ofArguments ["1", "left", "2", "right", "70000"] =
      .ok ⟨1, [⟨"left", 2⟩, ⟨"right", 70000⟩], {}⟩ ∧
    ¬ ({} : Config).Admits 0 ∧ ¬ ({} : Config).Admits 70000 ∧
    (Site.mk {} everywhere [] .empty []).start ⟨1, [⟨"localhost", 70000⟩], {}⟩ =
      .error (.invalidArgument (.noPort 70000)) ∧
    (Site.mk {} everywhere [] .empty []).start ⟨1, [⟨"left", 2⟩, ⟨"right", 70000⟩], {}⟩ =
      .error (.invalidArgument (.noPort 70000)) ∧
    ¬ (∀ arguments s, ofArguments arguments = .ok s ↔ Described arguments s ∧ s.config = {} ∧
      s.config.Admits s.identity ∧
        ∀ peer ∈ s.peers, s.config.Admits peer.id ∧ peer.id ≠ s.identity) := by
  have hread : ofArguments ["1", "localhost", "70000"] =
      .ok ⟨1, [⟨"localhost", 70000⟩], {}⟩ := by decide +kernel
  have hlarge : ¬ ({} : Config).Admits 70000 := fun h => absurd h.servers (by decide)
  have hcomes : everywhere.ComesTo {} [⟨"left", 2⟩, ⟨"right", 70000⟩] ⟨"right", 70000⟩ := by
    refine ⟨[⟨"left", 2⟩], [], rfl, fun p hp => ?_⟩
    obtain rfl := List.mem_singleton.1 hp
    exact ⟨2152, ⟨[], false⟩, rfl, rfl⟩
  have hsecond : (Site.mk {} everywhere [] .empty []).start
      ⟨1, [⟨"left", 2⟩, ⟨"right", 70000⟩], {}⟩ = .error (.invalidArgument (.noPort 70000)) :=
    (Site.start_eq_error_iff _ _ rfl rfl).2
      ⟨by decide, by decide, ⟨"right", 70000⟩, hcomes, by decide, rfl⟩
  refine ⟨by decide +kernel, hread, by decide +kernel, fun h => absurd h.pos (by decide), hlarge,
    rfl, hsecond, fun h => ?_⟩
  obtain ⟨-, -, -, hpeers⟩ := (h _ _).1 hread
  exact hlarge (hpeers _ List.mem_cons_self).1

end Startup

end RelayMesh
