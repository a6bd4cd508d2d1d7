import RelayMesh.Fault

namespace RelayMesh

/-- Among entries with distinct keys the first one with a key is the only one. -/
theorem find?_eq_some_iff_of_key {α κ : Type} [DecidableEq κ] {key : α → κ} {l : List α}
    (h : ∀ a ∈ l, ∀ b ∈ l, key a = key b → a = b) {k : κ} {a : α} :
    l.find? (key · = k) = some a ↔ a ∈ l ∧ key a = k := by
  constructor
  · intro hfind
    exact ⟨List.mem_of_find?_eq_some hfind, by simpa using List.find?_some hfind⟩
  · rintro ⟨ha, rfl⟩
    obtain ⟨b, hb⟩ := Option.isSome_iff_exists.1 (List.find?_isSome.2 ⟨a, ha, by simp⟩ :
      (l.find? (key · = key a)).isSome)
    have hkey : key b = key a := by simpa using List.find?_some hb
    rw [hb, h b (List.mem_of_find?_eq_some hb) a ha hkey]

/-- The action of a server algorithm: the message type it is registered under, and the kind of content
it expects. -/
structure Action where
  name : String
  type : MessageType
  kind : Kind
deriving DecidableEq, Repr

namespace Action

def all : List Action :=
  [⟨"IDENTITY_MESSAGE", MessageType.identity, .identity⟩,
    ⟨"TOKEN_MESSAGE", MessageType.electionToken, .electionToken⟩,
    ⟨"LEADER_MESSAGE", MessageType.electionLeader, .electionLeader⟩,
    ⟨"REQUEST_MESSAGE", MessageType.mutexRequest, .mutexRequest⟩,
    ⟨"SEND_TOKEN_MESSAGE", MessageType.mutexToken, .mutexToken⟩]

def ofType? (type : MessageType) : Option Action := all.find? (·.type = type)

/-- The action for a kind of content. Chat has none: servers only relay it. -/
def ofKind? (kind : Kind) : Option Action := all.find? (·.kind = kind)

/-- An action is registered under the type, for this kind of content. -/
def Registered (type : MessageType) (kind : Kind) : Prop :=
  ∃ action ∈ all, action.type = type ∧ action.kind = kind

instance (type : MessageType) (kind : Kind) : Decidable (Registered type kind) :=
  inferInstanceAs (Decidable (∃ action ∈ all, action.type = type ∧ action.kind = kind))

variable {action : Action} {type : MessageType} {kind : Kind}

theorem ofType?_eq_some : ofType? type = some action ↔ action ∈ all ∧ action.type = type :=
  find?_eq_some_iff_of_key (by decide)

theorem ofKind?_eq_some : ofKind? kind = some action ↔ action ∈ all ∧ action.kind = kind :=
  find?_eq_some_iff_of_key (by decide)

/-- Only chat has no action. -/
theorem ofKind?_eq_none : ofKind? kind = none ↔ kind = .chat := by
  cases kind <;> decide

theorem isForClients_of_mem (h : action ∈ all) : MessageType.isForClients action.type = false := by
  revert h action
  decide

/-- The type determines the action. -/
theorem registered_iff : Registered type kind ↔ (ofType? type).map (·.kind) = some kind := by
  simp [Registered, ofType?_eq_some, Option.map_eq_some_iff, and_assoc]

end Action

end RelayMesh
