import CoEdit.Algorithm

/-!
# The jupiter algorithm

On each link the client and its proxy at the server keep two counters, the operations sent and the
operations received, and a queue of sent operations that the other end may not have seen yet. An
incoming operation tells how many operations its sender had received; older ones leave the queue,
and the operation is transformed against the rest.

Counters and positions are unbounded. What becomes of them past the last word is left out.
-/

namespace CoEdit.Jupiter

variable {α : Type}

def sentAxis : Nat := 0

def receivedAxis : Nat := 1

/-- The queued operations that a peer had not seen when it had received `count` of them. -/
def unseen (queue : List (Operation α)) (count : Nat) : List (Operation α) :=
  queue.filter fun op =>
    match op.stamp with
    | some stamp => count ≤ stamp.state.get sentAxis
    | none => false

/-- Drops from the queue what the sender had seen and takes the operation past the rest. -/
def passQueue (policy : Policy) (role : Role) (queue : List (Operation α))
    (remote : Operation α) : Except SyncError (Operation α × List (Operation α)) := do
  let stamp ← remote.getStamp
  transformPast policy role remote (unseen queue (stamp.state.get receivedAxis))

/-- A client: its counters, its document and the operations that it sent, the oldest first. -/
structure Client (α : Type) where
  site : SiteId
  sent : Nat
  received : Nat
  copy : LocalCopy α
  outgoing : List (Operation α)

namespace Client

def start (policy : Policy) (site : SiteId) : Client α := ⟨site, 0, 0, .empty policy, []⟩

def state (c : Client α) : StateVector := ⟨[c.sent, c.received]⟩

def setState (c : Client α) (v : StateVector) : Except SyncError (Client α) :=
  (c.state.copyFrom v).map fun v =>
    { c with sent := v.get sentAxis, received := v.get receivedAxis }

/-- Every edit is sent at once. -/
def generate [Element α] (c : Client α) (op : Operation α) :
    Outcome (Client α) α (Operation α) :=
  let op := op.stamped c.site c.state
  match c.copy.apply op with
  | .error e => .fail e c
  | .ok copy =>
    .done op { c with copy, outgoing := c.outgoing ++ [op], sent := c.sent + 1 } [(.server, op)]

/-- Takes in an operation that the proxy relayed. The queue is rewritten even if the operation
cannot be applied. -/
def integrate [Element α] (c : Client α) (remote : Operation α) :
    Outcome (Client α) α (Operation α) :=
  match passQueue c.copy.policy .client c.outgoing remote with
  | .error e => .fail e c
  | .ok (remote, outgoing) =>
    let c := { c with outgoing }
    match c.copy.apply remote with
    | .error e => .fail e c
    | .ok copy => .done remote { c with copy, received := c.received + 1 } []

end Client

/-- The server's end of the link to one client. -/
structure Proxy (α : Type) where
  sent : Nat
  received : Nat
  outgoing : List (Operation α)

namespace Proxy

def state (p : Proxy α) : StateVector := ⟨[p.sent, p.received]⟩

/-- The end of a new link to a client that starts with the first `seen` operations. -/
def start (seen : Nat) : Proxy α := ⟨seen, 0, []⟩

/-- Brings an operation of the client into the server's context. -/
def integrate (p : Proxy α) (policy : Policy) (remote : Operation α) :
    Except SyncError (Operation α × Proxy α) :=
  (passQueue policy .server p.outgoing remote).map fun (op, outgoing) =>
    (op, { p with outgoing, received := p.received + 1 })

/-- The form in which an operation goes to the client: stamped with the proxy's state. -/
def relayed (p : Proxy α) (creator : SiteId) (op : Operation α) : Operation α :=
  op.stamped creator p.state

/-- Queues and counts an operation sent to the client. -/
def relay (p : Proxy α) (creator : SiteId) (op : Operation α) : Proxy α :=
  { p with outgoing := p.outgoing ++ [p.relayed creator op], sent := p.sent + 1 }

end Proxy

/-- A server: its document and one proxy for each registered site. -/
structure Server (α : Type) where
  copy : LocalCopy α
  proxies : SortedMap SiteId (Proxy α)

namespace Server

def start (policy : Policy) : Server α := ⟨.empty policy, .empty⟩

def state (s : Server α) : StateVector := ⟨[0, s.copy.history.length]⟩

def proxyState (s : Server α) (site : SiteId) : Except SyncError StateVector :=
  match s.proxies.get? site with
  | some proxy => .ok proxy.state
  | none => .error (.unknownSite site)

def addSite (s : Server α) (site : SiteId) (mode : FillMode) :
    Except SyncError (Fill α × Server α) :=
  if s.proxies.contains site then .error (.siteTaken site)
  else
    .ok (s.copy.capture mode s.state,
      { s with proxies := s.proxies.insert site (.start s.copy.history.length) })

def removeSite (s : Server α) (site : SiteId) : Except SyncError (Server α) :=
  if s.proxies.contains site then .ok { s with proxies := s.proxies.erase site }
  else .error (.unknownSite site)

/-- What goes to the sites other than the creator, by site. -/
def relays (proxies : SortedMap SiteId (Proxy α)) (creator : SiteId) (op : Operation α) :
    List (Address × Operation α) :=
  (proxies.erase creator).entries.map fun (site, proxy) => (.site site, proxy.relayed creator op)

/-- Takes in an operation of a registered site and relays it to all the others. The sender's proxy
counts the operation even if it cannot be applied. -/
def integrate [Element α] (s : Server α) (remote : Operation α) :
    Outcome (Server α) α (Operation α) :=
  match remote.stamp with
  | none => .fail .unstamped s
  | some stamp =>
    match s.proxies.get? stamp.creator with
    | none => .fail (.unknownSite stamp.creator) s
    | some proxy =>
      match proxy.integrate s.copy.policy remote with
      | .error e => .fail e s
      | .ok (op, proxy) =>
        let s := { s with proxies := s.proxies.adjust stamp.creator fun _ => proxy }
        match s.copy.apply op with
        | .error e => .fail e s
        | .ok copy =>
          let proxies := s.proxies.mapWithKey fun site proxy =>
            if site = stamp.creator then proxy else proxy.relay stamp.creator op
          .done op { s with copy, proxies } (relays s.proxies stamp.creator op)

end Server

instance : ClientAlgorithm Client where
  start := Client.start
  site c := c.site
  copy c := c.copy
  withCopy c copy := { c with copy }
  state := Client.state
  setState := Client.setState
  waiting _ := []
  generate := Client.generate
  integrate := Client.integrate

instance : ServerAlgorithm Server where
  start := Server.start
  copy s := s.copy
  state := Server.state
  sites s := s.proxies.keys
  addSite := Server.addSite
  removeSite := Server.removeSite
  integrate := Server.integrate

end CoEdit.Jupiter
