import RelayMesh.Id

namespace RelayMesh

/-- A number for each connection that a server ever had. -/
abbrev LinkId := Nat

inductive Reach
  | client
  /-- It is a server so many hops away, by way of the neighbour `next`. -/
  | server (hops : Nat) (next : Id)
deriving DecidableEq, Repr

structure Route where
  reach : Reach
  link : LinkId
deriving DecidableEq, Repr

namespace Route

/-- The hops to a server; -1 for a client. -/
def hops (r : Route) : Int :=
  match r.reach with
  | .client => -1
  | .server hops _ => hops

def next? (r : Route) : Option Id :=
  match r.reach with
  | .client => none
  | .server _ next => some next

def isClient (r : Route) : Bool := r.reach = .client

/-- A server one hop away is a neighbour, whichever way its route was found. -/
def isNeighbour (r : Route) : Bool :=
  match r.reach with
  | .client => false
  | .server hops _ => hops = 1

def isLongerThan (r : Route) (distance : Nat) : Bool :=
  match r.reach with
  | .client => false
  | .server hops _ => distance < hops

end Route

/-- The routes of the server `own`, and for every chat sender the newest line that has reached the
server's clients. -/
structure Routes where
  own : Id
  entries : IdMap Route := SortedMap.empty
  lastChat : IdMap Nat := SortedMap.empty
deriving DecidableEq

namespace Routes

/-- Writes a route; one to the server itself is refused. -/
def set (t : Routes) (id : Id) (route : Route) : Routes :=
  if id = t.own then t else { t with entries := t.entries.insert id route }

def addNeighbour (t : Routes) (id : Id) (link : LinkId) : Routes :=
  t.set id ⟨.server 1 id, link⟩

def addClient (t : Routes) (id : Id) (link : LinkId) : Routes :=
  t.set id ⟨.client, link⟩

def get? (t : Routes) (id : Id) : Option Route := t.entries.get? id

def contains (t : Routes) (id : Id) : Bool := t.entries.contains id

def size (t : Routes) : Nat := t.entries.size

/-- The neighbours with their routes, by ascending identity. -/
def neighbours (t : Routes) : List (Id × Route) := t.entries.toList.filter (·.2.isNeighbour)

/-- The clients with their routes, by ascending identity. -/
def clients (t : Routes) : List (Id × Route) := t.entries.toList.filter (·.2.isClient)

/-- The entity at the other end of a connection: the first one, by ascending identity, that is
reached directly over it. -/
def atLink (t : Routes) (link : LinkId) : Option (Id × Route) :=
  t.entries.toList.find? fun b => (b.2.isNeighbour || b.2.isClient) && b.2.link = link

/-- Drops all routes over a connection, and lists what they led to. No other way is looked for. -/
def removeLink (t : Routes) (link : LinkId) : Routes × List Id :=
  ({ t with entries := t.entries.filter (fun _ r => r.link ≠ link) },
    (t.entries.toList.filter (·.2.link = link)).map (·.1))

def maxHops : Nat := 2147483647

def improves (t : Routes) (id : Id) (distance : Nat) : Bool :=
  match t.get? id with
  | none => true
  | some route => route.isLongerThan distance

/-- Learns from a path that is read from its end, of which the first server is `distance` hops
away. -/
def learnFrom (next : Id) (link : LinkId) (t : Routes) (distance : Nat) :
    List Id → Routes × List Id
  | [] => (t, [])
  | id :: rest =>
    let hops := min distance maxHops
    if id ≠ t.own ∧ t.improves id hops then
      let (t, learned) := learnFrom next link (t.set id ⟨.server hops next, link⟩) (distance + 1) rest
      (t, id :: learned)
    else learnFrom next link t (distance + 1) rest

/-- Learns from the path of a message that came over `link`: its last server is one hop away, the
one before that two, and so on. Lists the servers whose route is new or shorter now. -/
def learn (t : Routes) (path : List Id) (link : LinkId) : Routes × List Id :=
  match path.getLast? with
  | none => (t, [])
  | some next => if next = t.own then (t, []) else learnFrom next link t 1 path.reverse

/-- Whether line `sequence` of `sender` is newer than those that have reached the clients. -/
def isNewChat (t : Routes) (sender : Id) (sequence : Nat) : Bool :=
  match t.lastChat.get? sender with
  | none => true
  | some last => last < sequence

/-- Line `sequence` of `sender` has reached clients. -/
def recordChat (t : Routes) (sender : Id) (sequence : Nat) : Routes :=
  { t with lastChat := t.lastChat.insert sender (max ((t.lastChat.get? sender).getD 0) sequence) }

theorem isNewChat_eq_true_iff {t : Routes} {sender : Id} {sequence : Nat} :
    t.isNewChat sender sequence = true ↔
      ∀ last, t.lastChat.get? sender = some last → last < sequence := by
  unfold isNewChat
  cases t.lastChat.get? sender <;> simp

theorem get?_recordChat (t : Routes) (sender other : Id) (sequence : Nat) :
    (t.recordChat sender sequence).lastChat.get? other =
      if other = sender then some (max ((t.lastChat.get? sender).getD 0) sequence)
      else t.lastChat.get? other :=
  SortedMap.get?_insert ..

@[simp] theorem own_set (t : Routes) (id : Id) (route : Route) : (t.set id route).own = t.own := by
  unfold set
  split <;> rfl

theorem get?_set (t : Routes) (id other : Id) (route : Route) :
    (t.set id route).get? other =
      if other = id ∧ id ≠ t.own then some route else t.get? other := by
  unfold set get?
  split <;> simp_all

@[simp] theorem own_learnFrom (next : Id) (link : LinkId) (t : Routes) (distance : Nat)
    (path : List Id) : (learnFrom next link t distance path).1.own = t.own := by
  induction path generalizing t distance with
  | nil => rfl
  | cons id rest ih =>
    simp only [learnFrom]
    split
    · simp [ih]
    · exact ih _ _

end Routes

end RelayMesh
