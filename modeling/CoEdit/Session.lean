import CoEdit.LocalEdit
import CoEdit.Message

/-!
# Client sessions

The client side of one document. A session starts empty and closed; the first fill opens it, and
there is no second one. Until then operations from the network are refused, and local edits wait.
-/

namespace CoEdit

/-- A client and whether it has received its content. -/
structure Session (C : Type → Type) (α : Type) where
  client : C α
  joined : Bool

namespace Session

variable {C : Type → Type} [ClientAlgorithm C] {α : Type}

open ClientAlgorithm

def start (policy : Policy) (site : SiteId) : Session C α :=
  ⟨ClientAlgorithm.start policy site, false⟩

def copy (s : Session C α) : LocalCopy α := ClientAlgorithm.copy s.client

/-- A step of the client that does not wait for the fill. -/
def atClient {ρ : Type} (s : Session C α) (step : C α → Outcome (C α) α ρ) :
    Outcome (Session C α) α ρ :=
  (step s.client).within fun client => { s with client }

variable [Element α]

def integrate (s : Session C α) (op : Operation α) :
    Outcome (Session C α) α (Operation α) :=
  if s.joined then s.atClient fun c => ClientAlgorithm.integrate c op
  else .fail .notJoined s

/-- Loads the first content and opens the session. -/
def fill (s : Session C α) (data : Fill α) : Outcome (Session C α) α Unit :=
  if s.joined then .fail .alreadyJoined s
  else
    match ClientAlgorithm.fill s.client data with
    | .error e => .fail e s
    | .ok client => .done () ⟨client, true⟩ []

def receive (s : Session C α) : Message α → Outcome (Session C α) α Unit
  | .operation op => (s.integrate op).reply ()
  | .fill data => s.fill data

/-- Takes in queued messages until one is refused, which ends the session. -/
def drain (s : Session C α) : List (Message α) → Outcome (Session C α) α Unit
  | [] => .done () s []
  | m :: rest =>
    let first := s.receive m
    match first.result with
    | .error _ => first
    | .ok _ =>
      let others := first.state.drain rest
      { others with sent := first.sent ++ others.sent }

/-- Carries out a local edit, or returns `none` if it has to wait for the fill. -/
def edit? [DecidableEq α] (s : Session C α) (e : LocalEdit α) :
    Option (Outcome (Session C α) α (Reply α)) :=
  if s.joined then some (s.atClient fun c => ClientAlgorithm.edit c e) else none

end Session

end CoEdit
