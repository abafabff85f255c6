import CoEdit.Algorithm

/-!
# Server hosts

The server side of one document: membership, operations, and the loop that serves a queue of events.
-/

namespace CoEdit

/-- A server and the kind of fill that it hands out. -/
structure Host (S : Type → Type) (α : Type) where
  server : S α
  fillMode : FillMode

/-- Something that reaches the server. A site that joins is answered with a fill. -/
inductive Event (α : Type) where
  | operation (op : Operation α)
  | joined (site : SiteId)
  | left (site : SiteId)

namespace Host

variable {S : Type → Type} [ServerAlgorithm S] {α : Type}

def start (policy : Policy) (fillMode : FillMode) : Host S α :=
  ⟨ServerAlgorithm.start policy, fillMode⟩

def copy (h : Host S α) : LocalCopy α := ServerAlgorithm.copy h.server

def join (h : Host S α) (site : SiteId) : Outcome (Host S α) α (Fill α) :=
  .ofExcept h ((ServerAlgorithm.addSite h.server site h.fillMode).map fun (data, server) =>
    (data, { h with server }))

def remove (h : Host S α) (site : SiteId) : Outcome (Host S α) α Unit :=
  .ofExcept h ((ServerAlgorithm.removeSite h.server site).map fun server =>
    ((), { h with server }))

variable [Element α]

def integrate (h : Host S α) (op : Operation α) : Outcome (Host S α) α (Operation α) :=
  (ServerAlgorithm.integrate h.server op).within fun server => { h with server }

/-- How a queue of events was served: the session as a whole, and the answers to the sites that
asked to join, in order. -/
structure Served (S : Type → Type) (α : Type) where
  session : Outcome (Host S α) α Unit
  answers : List (Except SyncError (Fill α))

/-- Serves events in order. Operations of strangers and failing changes of membership are passed
over; any other operation that fails ends the session. -/
def serve (h : Host S α) : List (Event α) → Served S α
  | [] => ⟨.done () h [], []⟩
  | .operation op :: rest =>
    let o := h.integrate op
    match o.result with
    | .ok _ | .error (.unknownSite _) =>
      let later := o.state.serve rest
      { later with session := { later.session with sent := o.sent ++ later.session.sent } }
    | .error e => ⟨⟨.error e, o.state, o.sent⟩, []⟩
  | .joined site :: rest =>
    let o := h.join site
    let later := o.state.serve rest
    { later with answers := o.result :: later.answers }
  | .left site :: rest => (h.remove site).state.serve rest

end Host

end CoEdit
