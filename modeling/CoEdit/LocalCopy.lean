import CoEdit.Cursor
import CoEdit.Document

/-!
# Local copies

The part that all replicas share, whatever algorithm they run: the document, the history of what
was applied to it, the cursors that follow it, and the conflict policy. A new replica starts from
a fill, which is either a snapshot of the elements or a history to replay.
-/

namespace CoEdit

inductive FillMode where
  | stateBased
  | operationBased
deriving DecidableEq

instance : Inhabited FillMode := ⟨.stateBased⟩

/-- Content and state that a replica starts from. A snapshot is compact, but without the past; a
history holds every operation that was applied. -/
inductive Fill (α : Type) where
  | snapshot (values : List α) (state : StateVector)
  | replay (history : History α) (state : StateVector)
deriving DecidableEq

def Fill.state {α : Type} : Fill α → StateVector
  | snapshot _ state | replay _ state => state

/-- Document, history and cursors of one replica. -/
structure LocalCopy (α : Type) where
  document : Document α
  history : History α
  cursors : Cursors
  policy : Policy

namespace LocalCopy

variable {α : Type}

def empty (policy : Policy) : LocalCopy α := ⟨.empty, [], .empty, policy⟩

def capture (copy : LocalCopy α) (mode : FillMode) (state : StateVector) : Fill α :=
  match mode with
  | .stateBased => .snapshot copy.document.values state
  | .operationBased => .replay copy.history state

variable [Element α]

/-- Applies an operation, records it and lets the cursors follow. A refused operation leaves no
trace. -/
def apply (copy : LocalCopy α) (op : Operation α) : Except SyncError (LocalCopy α) :=
  (copy.document.apply op).map fun document =>
    { copy with
      document
      history := copy.history ++ [op]
      cursors := copy.cursors.follow op.edit }

/-- Loads the content of a fill in place of what was there; cursors stay where they are. A history
that cannot be replayed changes nothing. -/
def load (copy : LocalCopy α) : Fill α → Except SyncError (LocalCopy α)
  | .snapshot values _ => .ok { copy with document := copy.document.fill values, history := [] }
  | .replay history _ =>
    (Document.empty.applyAll history).map fun document => { copy with document, history }

end LocalCopy

end CoEdit
