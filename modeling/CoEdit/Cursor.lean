import CoEdit.Transform

/-!
# Cursors

A cursor is a position in a document that follows the operations applied to it. It may stand before
the first element or past the last. It remembers whether its element was deleted or changed until
its owner moves it.

An edit is compared with the cursor as a machine compares the two, its position read as a word with
a sign. The position of the cursor itself is an unbounded number: a step past the last word with a
sign, which a machine does not take or takes to the other end, is not described here.
-/

namespace CoEdit

/-- What happened to the element under a cursor. -/
inductive CursorStatus where
  | valid
  /-- the element was taken out; the cursor stands on its successor -/
  | deleted
  | updated
deriving DecidableEq, Inhabited

/-- A position that follows the document. -/
structure Cursor where
  id : CursorId
  position : Int
  status : CursorStatus
deriving DecidableEq, Inhabited

namespace Cursor

variable {α : Type}

def start (id : CursorId) (position : Int) : Cursor := ⟨id, position, .valid⟩

/-- Explicit move by the owner; it clears any mark. -/
def moveTo (c : Cursor) (position : Int) : Cursor := { c with position, status := .valid }

/-- A position as a cursor sees it: a word read with a sign. -/
def signed (p : Nat) : Int := Word.withSign p

/-- Follows an edit that was applied to the document. -/
def follow (c : Cursor) (edit : Edit α) : Cursor :=
  match edit.shape with
  | .noop => c
  | .insert p => if signed p ≤ c.position then { c with position := c.position + 1 } else c
  | .delete p =>
    if signed p < c.position then { c with position := c.position - 1 }
    else if signed p = c.position then { c with status := .deleted }
    else c
  | .update p => if signed p = c.position then { c with status := .updated } else c

/-- The index at which an edit through the cursor takes place. An insertion may also take place
behind the last element. -/
def target (c : Cursor) (size : Nat) (inserting : Bool) : Except SyncError Nat :=
  let p := c.position.toNat
  if 0 ≤ c.position ∧ (p < size ∨ inserting ∧ p = size) then .ok p
  else .error (.positionOutOfRange p size)

theorem signed_of_lt {p : Nat} (h : p < Word.signBit) : signed p = p := Word.withSign_of_lt h

@[simp] theorem id_follow (c : Cursor) (edit : Edit α) : (c.follow edit).id = c.id := by
  unfold follow; repeat' split
  all_goals rfl

end Cursor

/-- Registered cursors, no two with one id. -/
structure Cursors where
  all : List Cursor
deriving DecidableEq, Inhabited

namespace Cursors

variable {α : Type}

def empty : Cursors := ⟨[]⟩

def size (cs : Cursors) : Nat := cs.all.length

def isEmpty (cs : Cursors) : Bool := cs.all.isEmpty

def find? (cs : Cursors) (id : CursorId) : Option Cursor := cs.all.find? fun c => c.id = id

def get (cs : Cursors) (id : CursorId) : Except SyncError Cursor :=
  match cs.find? id with
  | some c => .ok c
  | none => .error (.unknownCursor id)

/-- Registers a cursor; its id must be new. -/
def register (cs : Cursors) (c : Cursor) : Except SyncError Cursors :=
  match cs.find? c.id with
  | some _ => .error (.cursorTaken c.id)
  | none => .ok ⟨cs.all ++ [c]⟩

def deregister (cs : Cursors) (id : CursorId) : Except SyncError (Cursor × Cursors) :=
  (cs.get id).map fun c => (c, ⟨cs.all.filter fun c => c.id ≠ id⟩)

def moveTo (cs : Cursors) (id : CursorId) (position : Int) : Except SyncError Cursors :=
  (cs.get id).map fun _ => ⟨cs.all.map fun c => if c.id = id then c.moveTo position else c⟩

def follow (cs : Cursors) (edit : Edit α) : Cursors := ⟨cs.all.map (·.follow edit)⟩

@[simp] theorem find?_follow (cs : Cursors) (edit : Edit α) (id : CursorId) :
    (cs.follow edit).find? id = (cs.find? id).map (·.follow edit) := by
  simp only [find?, follow, List.find?_map, Function.comp_def, Cursor.id_follow]

end Cursors

end CoEdit
