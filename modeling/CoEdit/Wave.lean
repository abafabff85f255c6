import CoEdit.Algorithm

/-!
# The wave algorithm

A client has at most one operation in flight; what it generates meanwhile waits in a buffer until
the server echoes the one in flight, which is the acknowledgement. The server transforms an incoming
operation against the part of its history that the sender had not seen, applies it and relays it to
every site, the sender included.

The state has one component: how many operations of the server's history a site has seen. This
number and all positions are unbounded, so that a step past the last word is not described here.
-/

namespace CoEdit.Wave

variable {α : Type}

/-- A client: what it has seen, its document and its operations under way, the oldest first. -/
structure Client (α : Type) where
  site : SiteId
  seen : Nat
  copy : LocalCopy α
  inFlight : Option (Operation α)
  buffer : List (Operation α)

namespace Client

def start (policy : Policy) (site : SiteId) : Client α := ⟨site, 0, .empty policy, none, []⟩

def state (c : Client α) : StateVector := ⟨[c.seen]⟩

def setState (c : Client α) (v : StateVector) : Except SyncError (Client α) :=
  (c.state.copyFrom v).map fun v => { c with seen := v.get 0 }

/-- An edit is sent at once if nothing is under way, and buffered otherwise. -/
def generate [Element α] (c : Client α) (op : Operation α) :
    Outcome (Client α) α (Operation α) :=
  let op := op.stamped c.site c.state
  match c.copy.apply op with
  | .error e => .fail e c
  | .ok copy =>
    let c := { c with copy }
    if c.inFlight.isNone && c.buffer.isEmpty then
      .done op { c with inFlight := some op } [(.server, op)]
    else .done op { c with buffer := c.buffer ++ [op] } []

/-- The echo of the operation in flight came back: the next one in the buffer follows, with the
present state for the one it was made in. -/
def acknowledge (c : Client α) (echo : Operation α) : Outcome (Client α) α (Operation α) :=
  match c.inFlight, c.buffer with
  | none, _ => .fail (.protocol (.nothingInFlight c.site)) c
  | some _, [] => .done echo { c with inFlight := none } []
  | some _, next :: rest =>
    match next.retag c.state with
    | .error e => .fail e { c with inFlight := none, buffer := rest }
    | .ok next => .done echo { c with inFlight := some next, buffer := rest } [(.server, next)]

/-- An operation of another site is taken past everything under way and applied. The state counts
it even if it cannot be applied. -/
def receive [Element α] (c : Client α) (remote : Operation α) :
    Outcome (Client α) α (Operation α) :=
  let c := { c with seen := c.seen + 1 }
  match transformPast c.copy.policy .client remote (c.inFlight.toList ++ c.buffer) with
  | .error e => .fail e c
  | .ok (remote, underWay) =>
    let c :=
      if c.inFlight.isSome then { c with inFlight := underWay.head?, buffer := underWay.tail }
      else c
    match c.copy.apply remote with
    | .error e => .fail e c
    | .ok copy => .done remote { c with copy } []

/-- Takes in an operation that the server relayed. -/
def integrate [Element α] (c : Client α) (remote : Operation α) :
    Outcome (Client α) α (Operation α) :=
  match remote.stamp with
  | none => .fail .unstamped c
  | some stamp =>
    if stamp.creator = c.site then acknowledge { c with seen := c.seen + 1 } remote
    else if c.inFlight.isNone && !c.buffer.isEmpty then
      .fail (.protocol (.stalledBuffer c.site c.buffer.length)) c
    else c.receive remote

end Client

/-- A server: its document and the registered sites in the order in which they joined. -/
structure Server (α : Type) where
  copy : LocalCopy α
  sites : List SiteId

namespace Server

def start (policy : Policy) : Server α := ⟨.empty policy, []⟩

def state (s : Server α) : StateVector := ⟨[s.copy.history.length]⟩

def addSite (s : Server α) (site : SiteId) (mode : FillMode) :
    Except SyncError (Fill α × Server α) :=
  if site ∈ s.sites then .error (.siteTaken site)
  else .ok (s.copy.capture mode s.state, { s with sites := s.sites ++ [site] })

def removeSite (s : Server α) (site : SiteId) : Except SyncError (Server α) :=
  if site ∈ s.sites then .ok { s with sites := s.sites.erase site }
  else .error (.unknownSite site)

/-- The operation in the form that applies after the whole history. -/
def rebase (s : Server α) (op : Operation α) (revision : Nat) :
    Except SyncError (Operation α) := do
  let unseen ← s.copy.history.since revision
  let (op, _) ← transformPast s.copy.policy .server op unseen
  return op

/-- Takes in an operation of a registered site and relays it to all of them. -/
def integrate [Element α] (s : Server α) (remote : Operation α) :
    Outcome (Server α) α (Operation α) :=
  match remote.stamp with
  | none => .fail .unstamped s
  | some stamp =>
    if stamp.creator ∉ s.sites then .fail (.unknownSite stamp.creator) s
    else
      match s.rebase remote (stamp.state.get 0) with
      | .error e => .fail e s
      | .ok op =>
        match s.copy.apply op with
        | .error e => .fail e s
        | .ok copy => .done op { s with copy } (s.sites.map fun site => (.site site, op))

end Server

instance : ClientAlgorithm Client where
  start := Client.start
  site c := c.site
  copy c := c.copy
  withCopy c copy := { c with copy }
  state := Client.state
  setState := Client.setState
  waiting c := c.buffer
  generate := Client.generate
  integrate := Client.integrate

instance : ServerAlgorithm Server where
  start := Server.start
  copy s := s.copy
  state := Server.state
  sites s := s.sites
  addSite := Server.addSite
  removeSite := Server.removeSite
  integrate := Server.integrate

end CoEdit.Wave
