import CoEdit.LocalCopy

/-!
# Control algorithms

A control algorithm decides what an incoming operation has to be transformed against before it is
applied. One server orders the operations of a document; every other site runs a client.

Steps are functions from a state to an `Outcome`: a result, the state afterwards and the operations
handed to the network. A step that fails may still have changed the state.
-/

namespace CoEdit

inductive Address where
  | server
  | site (id : SiteId)
deriving DecidableEq

/-- What a step returns, leaves behind and sends, the first sent first. -/
structure Outcome (σ α ρ : Type) where
  result : Except SyncError ρ
  state : σ
  sent : List (Address × Operation α)

namespace Outcome

variable {σ τ α ρ : Type}

def fail (e : SyncError) (state : σ) : Outcome σ α ρ := ⟨.error e, state, []⟩

def done (r : ρ) (state : σ) (sent : List (Address × Operation α)) : Outcome σ α ρ :=
  ⟨.ok r, state, sent⟩

/-- A step that either succeeds in silence with a new state or leaves the old one. -/
def ofExcept (before : σ) : Except SyncError (ρ × σ) → Outcome σ α ρ
  | .ok (r, state) => ⟨.ok r, state, []⟩
  | .error e => ⟨.error e, before, []⟩

/-- The same step inside a larger state. -/
def within (o : Outcome σ α ρ) (wrap : σ → τ) : Outcome τ α ρ :=
  ⟨o.result, wrap o.state, o.sent⟩

end Outcome

/-- The algorithm of a client. `generate` stamps a local edit, applies it, and sends it or keeps it
waiting; `integrate` takes in an operation from the server and returns it as it was applied. A state
can be set only to one of the shape that the algorithm uses. -/
class ClientAlgorithm (C : Type → Type) where
  start {α : Type} : Policy → SiteId → C α
  site {α : Type} : C α → SiteId
  copy {α : Type} : C α → LocalCopy α
  withCopy {α : Type} : C α → LocalCopy α → C α
  state {α : Type} : C α → StateVector
  setState {α : Type} : C α → StateVector → Except SyncError (C α)
  waiting {α : Type} : C α → List (Operation α)
  generate {α : Type} [Element α] : C α → Operation α → Outcome (C α) α (Operation α)
  integrate {α : Type} [Element α] : C α → Operation α → Outcome (C α) α (Operation α)

/-- The algorithm of the server. A fill is captured for a site as it is added, and from then on
what `integrate` takes in from the registered sites is relayed to it. -/
class ServerAlgorithm (S : Type → Type) where
  start {α : Type} : Policy → S α
  copy {α : Type} : S α → LocalCopy α
  state {α : Type} : S α → StateVector
  sites {α : Type} : S α → List SiteId
  addSite {α : Type} : S α → SiteId → FillMode → Except SyncError (Fill α × S α)
  removeSite {α : Type} : S α → SiteId → Except SyncError (S α)
  integrate {α : Type} [Element α] : S α → Operation α → Outcome (S α) α (Operation α)

namespace ClientAlgorithm

variable {C : Type → Type} [ClientAlgorithm C] {α : Type}

/-- Loads a fill and takes over its state, which must have the right shape. -/
def fill [Element α] (c : C α) (data : Fill α) : Except SyncError (C α) := do
  if data.state.size ≠ (state c).size then
    throw (.stateShape (state c).size data.state.size)
  let copy ← (copy c).load data
  setState (withCopy c copy) data.state

/-- The loading of a fill as a step; a fill that is refused changes nothing. -/
def load [Element α] (c : C α) (data : Fill α) : Outcome (C α) α Unit :=
  .ofExcept c ((fill c data).map fun c => ((), c))

def moveState (c : C α) (v : StateVector) : Outcome (C α) α Unit :=
  .ofExcept c ((setState c v).map fun c => ((), c))

def withCursors (c : C α) (cursors : Cursors) : C α :=
  withCopy c { copy c with cursors }

def register (c : C α) (cursor : Cursor) : Outcome (C α) α Unit :=
  .ofExcept c (((copy c).cursors.register cursor).map fun cursors =>
    ((), withCursors c cursors))

def moveCursor (c : C α) (id : CursorId) (position : Int) : Outcome (C α) α Unit :=
  .ofExcept c (((copy c).cursors.moveTo id position).map fun cursors =>
    ((), withCursors c cursors))

def deregister (c : C α) (id : CursorId) : Outcome (C α) α Cursor :=
  .ofExcept c (((copy c).cursors.deregister id).map fun (cursor, cursors) =>
    (cursor, withCursors c cursors))

end ClientAlgorithm

end CoEdit
