import CoEdit.Error
import CoEdit.Value

/-!
# Elements

What a document can hold. Plain values (characters, strings, numbers, field values) can only be
inserted, deleted and replaced. Entities also have a type tag and named fields, and their fields
can be overwritten one by one.

The laws of `Element` are those of independent cells: a write is seen by reads of the same field
and by no others, and it neither adds a field nor changes the tag.
-/

namespace CoEdit

/-- What a call that works on a value in place returns, and the value as the call leaves it. A call
that fails half way leaves what it has done by then. -/
abbrev InPlace (σ ρ : Type) := Except SyncError ρ × σ

/-- What the call returns if it succeeds, with the value that it leaves. -/
def InPlace.committed {σ ρ : Type} : InPlace σ ρ → Except SyncError (ρ × σ)
  | (.ok r, s) => .ok (r, s)
  | (.error e, _) => .error e

theorem InPlace.committed_eq_ok {σ ρ : Type} {call : InPlace σ ρ} {r : ρ} {s : σ} :
    call.committed = .ok (r, s) ↔ call = (.ok r, s) := by
  rcases call with ⟨_ | _, _⟩ <;> simp [committed]

/-- A type of document elements. -/
class Element (α : Type) where
  /-- name of the entity type; plain values have the empty name -/
  typeTag : α → String
  field? : α → String → Option Value
  /-- overwrites a field; an element without the field stays as it is -/
  setField : α → String → Value → α
  typeTag_setField : ∀ e f v, typeTag (setField e f v) = typeTag e
  field?_setField : ∀ e f v g,
    field? (setField e f v) g = if g = f then (field? e g).map fun _ => v else field? e g
  setField_of_none : ∀ e f v, field? e f = none → setField e f v = e
  setField_self : ∀ e f v, field? e f = some v → setField e f v = e
  setField_setField : ∀ e f v w, setField (setField e f v) f w = setField e f w
  setField_comm : ∀ e f v g w, f ≠ g →
    setField (setField e f v) g w = setField (setField e g w) f v

namespace Element

@[reducible] def plain (α : Type) : Element α where
  typeTag _ := ""
  field? _ _ := none
  setField e _ _ := e
  typeTag_setField _ _ _ := rfl
  field?_setField _ _ _ _ := by simp
  setField_of_none _ _ _ _ := rfl
  setField_self _ _ _ _ := rfl
  setField_setField _ _ _ _ := rfl
  setField_comm _ _ _ _ _ _ := rfl

variable {α : Type} [Element α]

/-- Overwrites a field that must exist. -/
def set (e : α) (f : String) (v : Value) : Except SyncError α :=
  if (field? e f).isSome then .ok (setField e f v) else .error (.unknownField (typeTag e) f)

/-- Overwrites fields one after the other. The first one that the element does not have ends it, and
what was written by then stays written. -/
def overwrite (e : α) : List (String × Value) → InPlace α Unit
  | [] => (.ok (), e)
  | (f, v) :: rest =>
    match set e f v with
    | .ok e => overwrite e rest
    | .error fault => (.error fault, e)

/-- Overwrites several fields. -/
def setFields (e : α) (fields : Fields) : α :=
  fields.entries.foldl (fun e entry => setField e entry.1 entry.2) e

end Element

instance : Element Char := .plain Char
instance : Element String := .plain String
instance : Element Int64 := .plain Int64
instance : Element Value := .plain Value

/-- An entity: its type and a fixed set of named fields. -/
structure Record where
  tag : String
  fields : Fields
deriving DecidableEq

instance : Inhabited Record := ⟨⟨"", .empty⟩⟩

namespace Record

theorem ext_get? {r s : Record} (tag : r.tag = s.tag)
    (fields : ∀ f, r.fields.get? f = s.fields.get? f) : r = s := by
  cases r; cases s
  cases tag
  exact congrArg _ (SortedMap.ext_get? fields)

instance : Element Record where
  typeTag r := r.tag
  field? r f := r.fields.get? f
  setField r f v := { r with fields := r.fields.adjust f fun _ => v }
  typeTag_setField _ _ _ := rfl
  field?_setField r f v g := by simp
  setField_of_none r f v h := ext_get? rfl fun g => by
    by_cases hg : g = f <;> simp_all
  setField_self r f v h := ext_get? rfl fun g => by
    by_cases hg : g = f <;> simp_all
  setField_setField r f v w := ext_get? rfl fun g => by
    by_cases hg : g = f <;> simp [hg, Function.comp_def]
  setField_comm r f v g w h := ext_get? rfl fun k => by
    by_cases hf : k = f <;> by_cases hg : k = g <;> simp_all

end Record

/-- The form of an element in operation listings. -/
class Listed (α : Type) where
  listing : α → String

instance : Listed Char := ⟨fun c => Text.quoted '\'' [c]⟩
instance : Listed String := ⟨fun s => Text.quoted '"' s.toList⟩
instance : Listed Int64 := ⟨fun n => toString n.toInt⟩
instance : Listed Value := ⟨Value.detail⟩

instance : Listed Record := ⟨fun r =>
  "Record \x7b type_tag: " ++ Text.quoted '"' r.tag.toList ++ ", fields: " ++ r.fields.detail
    ++ " \x7d"⟩

end CoEdit
