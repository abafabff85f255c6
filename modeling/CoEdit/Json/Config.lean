import CoEdit.Error
import CoEdit.Json.Form

/-!
# JSON text of a configuration

Whatever the text leaves out takes its default.
-/

namespace CoEdit.Config

open Json JsonForm

/-- The names of the settings. -/
def settings : List String := ["algorithm", "conflict", "fill"]

def toJson (c : Config) : Json :=
  ofFields (settings.zip
    [JsonForm.toJson c.algorithm, JsonForm.toJson c.policy, JsonForm.toJson c.fillMode])

/-- An array gives the settings in order, perhaps not all of them. -/
def padded : Json → Json
  | .array items =>
    .object ((settings.zip items).map fun (name, item) => (some name, item))
  | v => v

/-- A setting that is left out has its default. -/
def setting? {β : Type} [JsonForm β] [Inhabited β] (room : Nat) : Option Json → Option β
  | none => some default
  | some v => ofJson? room v

def ofJson? (room : Nat) (v : Json) : Option Config :=
  enter room fun room => do
    match v with
    | .array items => if settings.length < items.length then none
    | _ => pure ()
    match ← fields? settings (padded v) with
    | [algorithm, policy, fillMode] =>
      return ⟨← setting? room algorithm, ← setting? room policy, ← setting? room fillMode⟩
    | _ => none

instance : JsonForm Config := ⟨toJson, ofJson?⟩

def text (c : Config) : String := c.toJson.pretty

def ofText (s : String) : Except SyncError Config :=
  match JsonForm.read? s with
  | some c => .ok c
  | none => .error .malformed

end CoEdit.Config
