import CoEdit.Algorithm

/-!
# Star networks

A star: one server, clients at any number of sites, and between them links that deliver in order,
one in each direction per site. Links are lists of operations, the oldest first. Whatever a step
sends is on its link when the step ends.
-/

namespace CoEdit

/-- The state of a network for one document. Links to the server are kept by sender, links from it
by receiver. -/
structure Star (S C : Type → Type) (α : Type) where
  server : S α
  policy : Policy
  fillMode : FillMode
  clients : SortedMap SiteId (C α)
  up : SortedMap SiteId (List (Operation α))
  down : SortedMap SiteId (List (Operation α))

namespace Star

variable {S C : Type → Type} [ServerAlgorithm S] [ClientAlgorithm C] {α : Type}

def start (policy : Policy) (fillMode : FillMode) : Star S C α :=
  ⟨ServerAlgorithm.start policy, policy, fillMode, .empty, .empty, .empty⟩

def upLink (star : Star S C α) (site : SiteId) : List (Operation α) :=
  (star.up.get? site).getD []

def downLink (star : Star S C α) (site : SiteId) : List (Operation α) :=
  (star.down.get? site).getD []

def getClient (star : Star S C α) (site : SiteId) : Except SyncError (C α) :=
  match star.clients.get? site with
  | some c => .ok c
  | none => .error (.unknownSite site)

def setClient (star : Star S C α) (site : SiteId) (c : C α) : Star S C α :=
  { star with clients := star.clients.insert site c }

def setUp (star : Star S C α) (site : SiteId) (ops : List (Operation α)) : Star S C α :=
  { star with up := star.up.insert site ops }

def setDown (star : Star S C α) (site : SiteId) (ops : List (Operation α)) : Star S C α :=
  { star with down := star.down.insert site ops }

def sendUp (star : Star S C α) (site : SiteId) (sent : List (Address × Operation α)) :
    Star S C α :=
  if sent.isEmpty then star else star.setUp site (star.upLink site ++ sent.map Prod.snd)

def sendDown (star : Star S C α) (sent : List (Address × Operation α)) : Star S C α :=
  sent.foldl (fun star (address, op) =>
    match address with
    | .site site => star.setDown site (star.downLink site ++ [op])
    | .server => star) star

def atClient {ρ : Type} (star : Star S C α) (site : SiteId)
    (step : C α → Outcome (C α) α ρ) : Outcome (Star S C α) α ρ :=
  match star.getClient site with
  | .error e => .fail e star
  | .ok c =>
    let o := step c
    o.within fun c => (star.setClient site c).sendUp site o.sent

def atServer {ρ : Type} (star : Star S C α) (step : S α → Outcome (S α) α ρ) :
    Outcome (Star S C α) α ρ :=
  let o := step star.server
  o.within fun server => { star with server }.sendDown o.sent

/-- Registers a site at the server only. -/
def addSite (star : Star S C α) (site : SiteId) : Outcome (Star S C α) α (Fill α) :=
  star.atServer fun s => .ofExcept s (ServerAlgorithm.addSite s site star.fillMode)

/-- Ends the registration of a site; its client and its links stay. -/
def removeSite (star : Star S C α) (site : SiteId) : Outcome (Star S C α) α Unit :=
  star.atServer fun s =>
    .ofExcept s ((ServerAlgorithm.removeSite s site).map fun s => ((), s))

/-- Puts a client that has seen nothing at a site, without the server's knowledge. -/
def newClient (star : Star S C α) (site : SiteId) : Star S C α :=
  star.setClient site (ClientAlgorithm.start star.policy site)

variable [Element α]

/-- Registers a site, fills a new client with what the server captured, and clears both links. -/
def join (star : Star S C α) (site : SiteId) : Outcome (Star S C α) α (Fill α) :=
  let added := star.addSite site
  match added.result with
  | .error e => .fail e star
  | .ok data =>
    match ClientAlgorithm.fill (ClientAlgorithm.start star.policy site : C α) data with
    | .error e => .fail e added.state
    | .ok c => .done data (((added.state.setClient site c).setUp site []).setDown site []) []

def edit (star : Star S C α) (site : SiteId) (op : Operation α) :
    Outcome (Star S C α) α (Operation α) :=
  star.atClient site fun c => ClientAlgorithm.generate c op

def serverReceive (star : Star S C α) (op : Operation α) :
    Outcome (Star S C α) α (Operation α) :=
  star.atServer fun s => ServerAlgorithm.integrate s op

def clientReceive (star : Star S C α) (site : SiteId) (op : Operation α) :
    Outcome (Star S C α) α (Operation α) :=
  star.atClient site fun c => ClientAlgorithm.integrate c op

/-- Delivers the oldest operation from a site to the server, if there is one. -/
def deliverUp? (star : Star S C α) (site : SiteId) :
    Option (Outcome (Star S C α) α (Operation α)) :=
  match star.upLink site with
  | [] => none
  | op :: rest => some ((star.setUp site rest).serverReceive op)

/-- Delivers the oldest operation from the server to the client at a site, if there are both. -/
def deliverDown? (star : Star S C α) (site : SiteId) :
    Option (Outcome (Star S C α) α (Operation α)) :=
  match star.downLink site, star.clients.get? site with
  | op :: rest, some _ => some ((star.setDown site rest).clientReceive site op)
  | _, _ => none

/-- Deliveries made so far, and the errors among them in order. -/
structure Tally where
  delivered : Nat
  errors : List SyncError

namespace Tally

def count {ρ : Type} (t : Tally) : Except SyncError ρ → Tally
  | .ok _ => { t with delivered := t.delivered + 1 }
  | .error e => ⟨t.delivered + 1, t.errors ++ [e]⟩

end Tally

/-- Makes up to a number of deliveries of one kind. -/
def deliver (step : Star S C α → Option (Outcome (Star S C α) α (Operation α))) :
    Nat → Star S C α × Tally → Star S C α × Tally
  | 0, s => s
  | n + 1, (star, tally) =>
    match step star with
    | none => (star, tally)
    | some o => deliver step n (o.state, tally.count o.result)

/-- Empties the links to the server, site by site, and then the links from it. -/
def round (s : Star S C α × Tally) : Star S C α × Tally :=
  let sites := s.1.clients.keys
  let ups := sites.foldl (fun s site => deliver (·.deliverUp? site) (s.1.upLink site).length s) s
  sites.foldl (fun s site => deliver (·.deliverDown? site) (s.1.downLink site).length s) ups

/-- Rounds until one of them delivers nothing. -/
def rounds : Nat → Star S C α × Tally → Star S C α × Tally
  | 0, s => s
  | n + 1, s =>
    let next := round s
    if next.2.delivered = s.2.delivered then next else rounds n next

/-- Operations that still have to go up, on a link or waiting at a client. -/
def upwardLoad (star : Star S C α) : Nat :=
  star.up.values.flatten.length
    + (star.clients.values.flatMap fun c => ClientAlgorithm.waiting c).length

/-- Delivers until nothing is left to deliver. -/
def settle (star : Star S C α) : Star S C α × Tally :=
  rounds (star.upwardLoad + 2) (star, ⟨0, []⟩)

end Star

end CoEdit
