import CoEdit.Json.Form
import CoEdit.Operation

/-!
# JSON forms of operations

State vectors, stamps, entities, operations and histories as JSON values.
-/

namespace CoEdit

open Json JsonForm

instance : JsonForm StateVector where
  toJson v := ofFields [("components", .array (v.components.map fun n : Nat => .integer n))]
  ofJson? room v :=
    enter room fun room => do
      match ← fields? ["components"] v with
      | [some components] => return ⟨← items? room (fun _ => word?) components⟩
      | _ => none

instance : JsonForm Stamp where
  toJson s := ofFields [("creator", toJson s.creator), ("state", toJson s.state)]
  ofJson? room v :=
    enter room fun room => do
      match ← fields? ["creator", "state"] v with
      | [some creator, some state] => return ⟨← ofJson? room creator, ← ofJson? room state⟩
      | _ => none

instance : JsonForm Record where
  toJson r := ofFields [("type_tag", toJson r.tag), ("fields", toJson r.fields)]
  ofJson? room v :=
    enter room fun room => do
      match ← fields? ["type_tag", "fields"] v with
      | [some tag, some fields] => return ⟨← ofJson? room tag, ← ofJson? room fields⟩
      | _ => none

namespace Edit

variable {α : Type} [JsonForm α]

def toJson : Edit α → Json
  | noop => ofString "NoOp"
  | insert p v =>
    ofVariant "Insert" (ofFields [("position", .integer p), ("value", JsonForm.toJson v)])
  | delete p => ofVariant "Delete" (ofFields [("position", .integer p)])
  | replace p v =>
    ofVariant "Replace" (ofFields [("position", .integer p), ("value", JsonForm.toJson v)])
  | update p tag delta =>
    ofVariant "UpdateEntity" (ofFields [("position", .integer p), ("type_tag", ofString tag),
      ("delta", JsonForm.toJson delta)])

/-- Reads what a variant that is not bare carries. -/
def ofBody? (name : String) (room : Nat) (body : Json) : Option (Edit α) :=
  enter room fun room =>
    match name with
    | "Insert" => do
      match ← fields? ["position", "value"] body with
      | [some p, some v] => return insert (← word? p) (← JsonForm.ofJson? room v)
      | _ => none
    | "Delete" => do
      match ← fields? ["position"] body with
      | [some p] => return delete (← word? p)
      | _ => none
    | "Replace" => do
      match ← fields? ["position", "value"] body with
      | [some p, some v] => return replace (← word? p) (← JsonForm.ofJson? room v)
      | _ => none
    | "UpdateEntity" => do
      match ← fields? ["position", "type_tag", "delta"] body with
      | [some p, some tag, some delta] =>
        return update (← word? p) (← string? tag) (← JsonForm.ofJson? room delta)
      | _ => none
    | _ => none

def ofJson? (room : Nat) (v : Json) : Option (Edit α) :=
  match variant? room v with
  | some ("NoOp", none) | some ("NoOp", some (_, .null)) => some noop
  | some (name, some (room, body)) => ofBody? name room body
  | _ => none

instance : JsonForm (Edit α) := ⟨toJson, ofJson?⟩

end Edit

/-- The stamp is `null` if there is none; as a member of an object it may be left out then. -/
instance {α : Type} [JsonForm α] : JsonForm (Operation α) where
  toJson op :=
    ofFields [("kind", toJson op.edit), ("metadata", (op.stamp.map toJson).getD .null)]
  ofJson? room v :=
    enter room fun room => do
      match ← fields? ["kind", "metadata"] v with
      | [some edit, none] | [some edit, some .null] => return ⟨← ofJson? room edit, none⟩
      | [some edit, some stamp] => return ⟨← ofJson? room edit, some (← ofJson? room stamp)⟩
      | _ => none

namespace History

variable {α : Type} [JsonForm α]

/-- A history is a structure around its operations. -/
def toJson (history : History α) : Json :=
  ofFields [("ops", .array (history.map JsonForm.toJson))]

def ofJson? (room : Nat) (v : Json) : Option (History α) :=
  enter room fun room => do
    match ← fields? ["ops"] v with
    | [some ops] => items? room JsonForm.ofJson? ops
    | _ => none

instance : JsonForm (History α) := ⟨toJson, ofJson?⟩

end History

end CoEdit
