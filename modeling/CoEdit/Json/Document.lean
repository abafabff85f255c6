import CoEdit.Document
import CoEdit.Json.Operation

/-!
# JSON forms of documents

Documents as JSON values.
-/

namespace CoEdit

open Json JsonForm

instance : JsonForm PreImage where
  toJson d := ofFields [("state", toJson d.state), ("rollback", toJson d.fields)]
  ofJson? room v :=
    enter room fun room => do
      match ← fields? ["state", "rollback"] v with
      | [some state, some fields] => return ⟨← ofJson? room state, ← ofJson? room fields⟩
      | _ => none

variable {α : Type} [JsonForm α]

/-- The pre-images of a slot are kept newest first and written oldest first. -/
instance : JsonForm (Slot α) where
  toJson s := ofFields [("value", toJson s.value), ("deltas", .array (s.deltas.map toJson))]
  ofJson? room v :=
    enter room fun room => do
      match ← fields? ["value", "deltas"] v with
      | [some value, some deltas] =>
        return ⟨← ofJson? room value, (← items? room ofJson? deltas).reverse⟩
      | _ => none

instance : JsonForm (Document α) where
  toJson d :=
    ofFields [("slots", .array (d.slots.map toJson)), ("type_state", toJson d.lifecycle)]
  ofJson? room v :=
    enter room fun room => do
      match ← fields? ["slots", "type_state"] v with
      | [some slots, some lifecycle] =>
        return ⟨← items? room ofJson? slots, ← ofJson? room lifecycle⟩
      | _ => none

end CoEdit
