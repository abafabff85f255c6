import CoEdit.Element
import CoEdit.StateVector

/-!
# Operations

An operation on a sequence is an edit at a position, with a stamp that says who made it and what
that site had seen by then. An operation gets its stamp when it is generated and keeps it through
every transformation.
-/

namespace CoEdit

/-- What an operation does to a sequence. -/
inductive Edit (α : Type) where
  /-- nothing; what is left of an edit that another one cancelled -/
  | noop
  | insert (position : Nat) (value : α)
  | delete (position : Nat)
  | replace (position : Nat) (value : α)
  | update (position : Nat) (tag : String) (delta : Fields)
deriving DecidableEq

/-- Where an operation comes from, and the state of its site when it was made. -/
structure Stamp where
  creator : SiteId
  state : StateVector
deriving DecidableEq, Inhabited

structure Operation (α : Type) where
  edit : Edit α
  stamp : Option Stamp
deriving DecidableEq

namespace Edit

variable {α : Type}

def position? : Edit α → Option Nat
  | noop => none
  | insert p _ | delete p | replace p _ | update p _ _ => some p

def moveTo (p : Nat) : Edit α → Edit α
  | noop => noop
  | insert _ v => insert p v
  | delete _ => delete p
  | replace _ v => replace p v
  | update _ tag delta => update p tag delta

def kindName : Edit α → String
  | noop => "noop"
  | insert .. => "insert"
  | delete .. => "delete"
  | replace .. => "replace"
  | update .. => "update-entity"

def isUpdate : Edit α → Bool
  | replace .. | update .. => true
  | _ => false

end Edit

namespace Operation

variable {α : Type}

instance : Inhabited (Operation α) := ⟨⟨.noop, none⟩⟩

/-- Builds an entity update; it must have a type tag and name at least one field. -/
def update? (p : Nat) (tag : String) (delta : Fields) : Except SyncError (Operation α) :=
  if tag = "" then .error (.invalidArgument .untaggedUpdate)
  else if delta.isEmpty then .error (.invalidArgument .emptyUpdate)
  else .ok ⟨.update p tag delta, none⟩

def position? (op : Operation α) : Option Nat := op.edit.position?

def isNoop (op : Operation α) : Bool := op.edit matches .noop

def getStamp (op : Operation α) : Except SyncError Stamp :=
  match op.stamp with
  | some stamp => .ok stamp
  | none => .error .unstamped

/-- Stamps an operation; an earlier stamp is replaced. -/
def stamped (op : Operation α) (creator : SiteId) (state : StateVector) : Operation α :=
  { op with stamp := some ⟨creator, state⟩ }

/-- Changes the state of the stamp and keeps the creator. -/
def retag (op : Operation α) (state : StateVector) : Except SyncError (Operation α) :=
  op.getStamp.map fun stamp => op.stamped stamp.creator state

def moveTo (op : Operation α) (p : Nat) : Operation α := { op with edit := op.edit.moveTo p }

/-- The operation with its effect cancelled; the stamp stays. -/
def collapsed (op : Operation α) : Operation α := { op with edit := .noop }

def listing [Listed α] (op : Operation α) : String :=
  match op.edit with
  | .noop => "[nop()]"
  | .insert p v => "[ins(" ++ toString p ++ ", " ++ Listed.listing v ++ ")]"
  | .delete p => "[del(" ++ toString p ++ ")]"
  | .replace p v => "[rep(" ++ toString p ++ ", " ++ Listed.listing v ++ ")]"
  | .update p tag delta =>
    let fields := delta.entries.map fun e => ", " ++ e.1 ++ "=" ++ e.2.brief
    "[upd(" ++ toString p ++ ", " ++ tag ++ String.join fields ++ ")]"

@[simp] theorem stamp_moveTo (op : Operation α) (p : Nat) : (op.moveTo p).stamp = op.stamp := rfl

@[simp] theorem stamp_collapsed (op : Operation α) : op.collapsed.stamp = op.stamp := rfl

@[simp] theorem stamp_stamped (op : Operation α) (s : SiteId) (v : StateVector) :
    (op.stamped s v).stamp = some ⟨s, v⟩ := rfl

@[simp] theorem edit_stamped (op : Operation α) (s : SiteId) (v : StateVector) :
    (op.stamped s v).edit = op.edit := rfl

end Operation

/-- Operations in the order in which one site applied them. -/
abbrev History (α : Type) := List (Operation α)

/-- The entries recorded from a revision on. A revision past the end is one that no honest peer can
have seen. -/
def History.since {α : Type} (history : History α) (revision : Nat) :
    Except SyncError (List (Operation α)) :=
  if revision ≤ history.length then .ok (history.drop revision)
  else .error (.protocol (.revisionAhead revision history.length))

end CoEdit
