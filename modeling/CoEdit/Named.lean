import CoEdit.Config

/-!
# Named members

Enumerations whose members are written by name, on the wire and in configuration files.
-/

namespace CoEdit

/-- A finite type whose members are found again by their names. -/
class Named (α : Type) where
  members : List α
  name : α → String
  find_name : ∀ a, (members.find? fun b => name b = name a) = some a

namespace Named

variable {α : Type} [Named α]

/-- The member with a name. -/
def ofName? (s : String) : Option α := members.find? fun a => name a = s

theorem ofName?_name (a : α) : ofName? (name a) = some a := find_name a

end Named

instance : Named Lifecycle where
  members := [.uninitialized, .operative, .locked, .exclusiveWrite]
  name
    | .uninitialized => "Uninitialized"
    | .operative => "Operative"
    | .locked => "Locked"
    | .exclusiveWrite => "ExclusiveWrite"
  find_name a := by cases a <;> decide

instance : Named CursorStatus where
  members := [.valid, .deleted, .updated]
  name
    | .valid => "Valid"
    | .deleted => "Deleted"
    | .updated => "Updated"
  find_name a := by cases a <;> decide

instance : Named Role where
  members := [.client, .server]
  name
    | .client => "Client"
    | .server => "Server"
  find_name a := by cases a <;> decide

instance : Named Policy where
  members := [.firstWriterWins, .lastWriterWins]
  name
    | .firstWriterWins => "FirstWriterWins"
    | .lastWriterWins => "LastWriterWins"
  find_name a := by cases a <;> decide

instance : Named AlgorithmKind where
  members := [.wave, .jupiter]
  name
    | .wave => "Wave"
    | .jupiter => "Jupiter"
  find_name a := by cases a <;> decide

instance : Named FillMode where
  members := [.stateBased, .operationBased]
  name
    | .stateBased => "StateBased"
    | .operationBased => "OperationBased"
  find_name a := by cases a <;> decide

end CoEdit
