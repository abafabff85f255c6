import CoEdit.Algorithm
import CoEdit.Json.Operation
import CoEdit.Message

/-!
# JSON forms of messages

Fills, messages and addresses as JSON values.
-/

namespace CoEdit

open Json JsonForm

variable {α : Type} [JsonForm α]

instance : JsonForm (Fill α) where
  toJson
    | .snapshot values state =>
      ofVariant "StateBased"
        (ofFields [("model", .array (values.map toJson)), ("state", toJson state)])
    | .replay history state =>
      ofVariant "OperationBased"
        (ofFields [("history", history.toJson), ("state", toJson state)])
  ofJson? room v := do
    match variant? room v with
    | some ("StateBased", some (room, body)) =>
      enter room fun room => do
        match ← fields? ["model", "state"] body with
        | [some values, some state] =>
          return .snapshot (← items? room ofJson? values) (← ofJson? room state)
        | _ => none
    | some ("OperationBased", some (room, body)) =>
      enter room fun room => do
        match ← fields? ["history", "state"] body with
        | [some history, some state] =>
          return .replay (← History.ofJson? room history) (← ofJson? room state)
        | _ => none
    | _ => none

instance : JsonForm (Message α) where
  toJson
    | .operation op => ofVariant "Operation" (toJson op)
    | .fill data => ofVariant "Fill" (toJson data)
  ofJson? room v := do
    match variant? room v with
    | some ("Operation", some (room, body)) => return .operation (← ofJson? room body)
    | some ("Fill", some (room, body)) => return .fill (← ofJson? room body)
    | _ => none

/-- The name of the server may also have nothing but `null` behind it. -/
instance : JsonForm Address where
  toJson
    | .server => ofString "Server"
    | .site id => ofVariant "Site" (toJson id)
  ofJson? room v := do
    match variant? room v with
    | some ("Server", none) | some ("Server", some (_, .null)) => return .server
    | some ("Site", some (room, body)) => return .site (← ofJson? room body)
    | _ => none

end CoEdit
