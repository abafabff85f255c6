import CoEdit.Algorithm

/-!
# Cursor movement

Reading and moving through a registered cursor.
-/

namespace CoEdit

/-- A move of a cursor by its owner. -/
inductive Move where
  | forward
  | backward
  | toHead
  | toTail
  | toPosition (position : Int)
deriving DecidableEq

/-- Where a move leads from a position in a document of `size` elements. -/
def Move.destination (move : Move) (position : Int) (size : Nat) : Int :=
  match move with
  | forward => position + 1
  | backward => position - 1
  | toHead => 0
  | toTail => size
  | toPosition p => p

namespace LocalCopy

variable {α : Type} (copy : LocalCopy α) (id : CursorId)

/-- The element at a cursor position; there is none outside of the document. -/
def elementAt (position : Int) : Option α :=
  if 0 ≤ position then copy.document.get? position.toNat else none

def cursorElement : Except SyncError (Option α) := do
  let cursor ← copy.cursors.get id
  return copy.elementAt cursor.position

/-- Moves a cursor and returns the element it reaches. At the tail, where there is none, it returns
the last element. -/
def navigate (move : Move) : Except SyncError (Option α × LocalCopy α) := do
  let cursor ← copy.cursors.get id
  let position := move.destination cursor.position copy.document.size
  let cursors ← copy.cursors.moveTo id position
  let reached :=
    match move with
    | .toTail => copy.elementAt (position - 1)
    | _ => copy.elementAt position
  return (reached, { copy with cursors })

def hasNext : Except SyncError Bool := do
  let cursor ← copy.cursors.get id
  return cursor.position + 1 < copy.document.size

/-- Whether the cursor is behind the first element of a document that has any. -/
def hasPrevious : Except SyncError Bool := do
  let cursor ← copy.cursors.get id
  return !copy.document.isEmpty && 0 < cursor.position

end LocalCopy

def ClientAlgorithm.navigate {C : Type → Type} [ClientAlgorithm C] {α : Type} (c : C α)
    (id : CursorId) (move : Move) : Outcome (C α) α (Option α) :=
  .ofExcept c (((copy c).navigate id move).map fun (reached, copy) => (reached, withCopy c copy))

end CoEdit
