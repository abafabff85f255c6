import CoEdit.Cbor.Form
import CoEdit.Error
import CoEdit.Message

/-!
# CBOR forms of messages

Operations, fills and messages as bytes. `Message.encode` is what goes over the network, and
`Message.decode` takes it back; bytes behind the message are left alone.
-/

namespace CoEdit

open Cbor Reader CborForm

instance : CborForm StateVector where
  toCbor v := writeMap [("components", writeArray (v.components.map fun n : Nat => writeInt n))]
  read room := do
    let counts (room : Nat) : Reader (List Nat) :=
      sequence room (fun _ => word) fun b => some b.toNat
    return ⟨← structure1 .named room ("components", counts)⟩
  ofByte? _ := none

instance : CborForm Stamp where
  toCbor s := writeMap [("creator", toCbor s.creator), ("state", toCbor s.state)]
  read room := do
    let (creator, state) ← structure2 .named room ("creator", read) ("state", read)
    return ⟨creator, state⟩
  ofByte? _ := none

instance : CborForm Record where
  toCbor r := writeMap [("type_tag", toCbor r.tag), ("fields", toCbor r.fields)]
  read room := do
    let (tag, fields) ← structure2 .named room ("type_tag", read) ("fields", read)
    return ⟨tag, fields⟩
  ofByte? _ := none

variable {α : Type} [CborForm α]

namespace Edit

def toCbor : Edit α → List UInt8
  | noop => writeText "NoOp"
  | insert p v =>
    writeMap [("Insert",
      writeMap [("position", writeInt p), ("value", CborForm.toCbor v)])]
  | delete p => writeMap [("Delete", writeMap [("position", writeInt p)])]
  | replace p v =>
    writeMap [("Replace",
      writeMap [("position", writeInt p), ("value", CborForm.toCbor v)])]
  | update p tag delta =>
    writeMap [("UpdateEntity",
      writeMap [("position", writeInt p), ("type_tag", CborForm.toCbor tag),
        ("delta", CborForm.toCbor delta)])]

def read (room : Nat) : Reader (Edit α) :=
  variant room fun room name =>
    if name = utf8 "NoOp" then return noop
    else if name = utf8 "Insert" then do
      let (p, v) ← structure2 .carried room ("position", fun _ => word) ("value", CborForm.read)
      return insert p v
    else if name = utf8 "Delete" then
      delete <$> structure1 .carried room ("position", fun _ => word)
    else if name = utf8 "Replace" then do
      let (p, v) ← structure2 .carried room ("position", fun _ => word) ("value", CborForm.read)
      return replace p v
    else if name = utf8 "UpdateEntity" then do
      let (p, tag, delta) ← structure3 .carried room
        ("position", fun _ => word) ("type_tag", CborForm.read) ("delta", CborForm.read)
      return update p tag delta
    else failure

instance : CborForm (Edit α) := ⟨toCbor, read, fun _ => none⟩

end Edit

instance : CborForm (Operation α) where
  toCbor op :=
    writeMap [("kind", toCbor op.edit), ("metadata", (op.stamp.map toCbor).getD writeNull)]
  read room := do
    let stamp (room : Nat) : Reader (Option Stamp) := nullable (read room)
    match ← structure2? .named room ("kind", read) ("metadata", stamp) with
    | (some edit, stamp) => return ⟨edit, stamp.join⟩
    | _ => failure
  ofByte? _ := none

namespace Fill

/-- The variant that carries a snapshot. -/
def snapshotName : String := "StateBased"

/-- The variant that carries a history. -/
def replayName : String := "OperationBased"

instance : CborForm (Fill α) where
  toCbor
    | .snapshot values state =>
      writeMap [(snapshotName,
        writeMap [("model", writeList values), ("state", toCbor state)])]
    | .replay history state =>
      writeMap [(replayName,
        writeMap [("history", writeMap [("ops", writeList history)]), ("state", toCbor state)])]
  read room :=
    variant room fun room name =>
      if name = utf8 snapshotName then do
        let (values, state) ← structure2 .carried room ("model", readList) ("state", read)
        return .snapshot values state
      else if name = utf8 replayName then do
        let history (room : Nat) : Reader (List (Operation α)) :=
          structure1 .named room ("ops", readList)
        let (history, state) ← structure2 .carried room ("history", history) ("state", read)
        return .replay history state
      else failure
  ofByte? _ := none

end Fill

instance : CborForm (Message α) where
  toCbor
    | .operation op => writeMap [("Operation", toCbor op)]
    | .fill data => writeMap [("Fill", toCbor data)]
  read room :=
    variant room fun room name =>
      if name = utf8 "Operation" then .operation <$> read room
      else if name = utf8 "Fill" then .fill <$> read room
      else failure
  ofByte? _ := none

namespace Message

/-- The bytes of a message. -/
def encode (m : Message α) : List UInt8 := toCbor m

/-- The message at the front of a byte string. -/
def decode (bs : List UInt8) : Except SyncError (Message α) :=
  match (CborForm.read maxDepth : Reader (Message α)) bs with
  | some (m, _) => .ok m
  | none => .error .malformed

end Message

end CoEdit
