import CoEdit.Json.Tree
import CoEdit.Named
import CoEdit.Value

/-!
# JSON forms

A type with a form is written to a JSON value, and read from any
JSON value that spells one of its members.

A structure is an object of its fields, and is also read from an array of them in order. Members
that it does not know are passed over. A variant that carries data is an object with one member; a
bare one is its name, and is also read from a member that holds `null`.

Reading takes the number of levels that may still be entered; members that are passed over do not
count.
-/

namespace CoEdit

class JsonForm (α : Type) where
  toJson : α → Json
  /-- reads a value of which at most `room` levels are entered -/
  ofJson? (room : Nat) : Json → Option α

namespace Json

/-- How many arrays and objects may be open at once. -/
def maxDepth : Nat := 127

/-- Goes one level down, if there is room. -/
def enter {β : Type} (room : Nat) (inside : Nat → Option β) : Option β :=
  match room with
  | 0 => none
  | room + 1 => inside room

def member? (key : String) (members : List (Option String × Json)) : Option Json :=
  (members.find? fun m => m.1 = some key).map Prod.snd

def keyCount (key : String) (members : List (Option String × Json)) : Nat :=
  members.countP fun m => m.1 = some key

/-- What a structure holds in each of its fields. In an object every key must be a proper text, and
the field names must not repeat; an array must have all fields and no more. -/
def fields? (names : List String) : Json → Option (List (Option Json))
  | object members =>
    if members.all (·.1.isSome) && names.all (fun name => keyCount name members ≤ 1) then
      some (names.map fun name => member? name members)
    else none
  | array items => if items.length = names.length then some (items.map some) else none
  | _ => none

/-- The name of a variant, what it carries, and the room left for that. -/
def variant? (room : Nat) : Json → Option (String × Option (Nat × Json))
  | text (some name) => some (name, none)
  | object [(some name, body)] => enter room fun room => some (name, some (room, body))
  | _ => none

def bareVariant? (room : Nat) (v : Json) : Option String :=
  match variant? room v with
  | some (name, none) | some (name, some (_, null)) => some name
  | _ => none

/-- A variant with what it carries. -/
def ofVariant (name : String) (body : Json) : Json := ofFields [(name, body)]

def word? : Json → Option Nat
  | integer n => Word.unsigned? n
  | _ => none

def string? : Json → Option String
  | text content => content
  | _ => none

/-- An array, entered one level. -/
def items? {β : Type} (room : Nat) (item : Nat → Json → Option β) : Json → Option (List β)
  | array items => enter room fun room => items.mapM (item room)
  | _ => none

end Json

namespace JsonForm

open Json

def write {α : Type} [JsonForm α] (a : α) : String := (toJson a).compact

def read? {α : Type} [JsonForm α] (s : String) : Option α :=
  (Json.ofText? s).bind (ofJson? maxDepth)

/-- The form of an enumeration: its names as bare variants. -/
@[reducible] def ofNamed (α : Type) [Named α] : JsonForm α where
  toJson a := ofString (Named.name a)
  ofJson? room v := (bareVariant? room v).bind Named.ofName?

instance : JsonForm Lifecycle := ofNamed Lifecycle
instance : JsonForm CursorStatus := ofNamed CursorStatus
instance : JsonForm Role := ofNamed Role
instance : JsonForm Policy := ofNamed Policy
instance : JsonForm AlgorithmKind := ofNamed AlgorithmKind
instance : JsonForm FillMode := ofNamed FillMode

/-- A character is a text of one. -/
instance : JsonForm Char where
  toJson c := ofString (String.singleton c)
  ofJson? _ v := do
    let s ← string? v
    match s.toList with
    | [c] => some c
    | _ => none

instance : JsonForm String where
  toJson := ofString
  ofJson? _ := string?

instance : JsonForm Int64 where
  toJson n := integer n.toInt
  ofJson? _
    | integer n => Word.signed? n
    | _ => none

/-- A site is the text of its number. -/
instance : JsonForm SiteId where
  toJson s := ofString s.text
  ofJson? _ v := (string? v).bind SiteId.ofText?

end JsonForm

/-! ## Field values -/

namespace Value

mutual

/-- Values are written without their kind; bytes as an array of numbers. -/
def toJson : Value → Json
  | null => .null
  | bool b => .bool b
  | int n => .integer n.toInt
  | string s => .ofString s
  | bytes bs => .array (bs.map fun b => .integer b.toNat)
  | list items => .array (toJsonItems items)
  | map entries => .object (toJsonMembers entries)

def toJsonItems : List Value → List Json
  | [] => []
  | v :: rest => v.toJson :: toJsonItems rest

def toJsonMembers : List (String × Value) → List (Option String × Json)
  | [] => []
  | (key, v) :: rest => (some key, v.toJson) :: toJsonMembers rest

end

mutual

/-- The kind of a value is found from its form alone. -/
def ofJson? (room : Nat) : Json → Option Value
  | .null => some null
  | .bool b => some (bool b)
  | .integer n => (JsonForm.ofJson? room (.integer n)).map int
  | .fraction => none
  | .text content => content.map string
  | .array items => Json.enter room fun room => (ofJsonItems? room items).map ofItems
  | .object members =>
    Json.enter room fun room => (ofJsonMembers? room members).map fun es => map (Entries.sort es)
termination_by structural v => v

def ofJsonItems? (room : Nat) : List Json → Option (List Value)
  | [] => some []
  | v :: rest => do return (← ofJson? room v) :: (← ofJsonItems? room rest)
termination_by structural vs => vs

def ofJsonMembers? (room : Nat) : List (Option String × Json) → Option (List (String × Value))
  | [] => some []
  | (key, v) :: rest => do return (← key, ← ofJson? room v) :: (← ofJsonMembers? room rest)
termination_by structural ms => ms

end

instance : JsonForm Value := ⟨toJson, ofJson?⟩

end Value

/-- A field map is an object; of repeated keys the last one counts. -/
instance : JsonForm Fields where
  toJson fields := .object (Value.toJsonMembers fields.entries)
  ofJson? room
    | .object members =>
      Json.enter room fun room => (Value.ofJsonMembers? room members).map .ofList
    | _ => none

end CoEdit
