import CoEdit.Operation

/-!
# Documents

A document is a sequence of slots, each with an element and a stack of pre-images. Every entity
update leaves the previous values of the fields that it overwrote, under the state of the operation
that did it, so that updates can be taken back, the newest first.

An update writes several fields, and taking updates back writes many more, so these calls are also
given in place (`InPlace`), write by write.
-/

namespace CoEdit

/-- What an entity update overwrote. -/
structure PreImage where
  state : StateVector
  fields : Fields
deriving DecidableEq

/-- An element and the pre-images of the updates it has seen, the newest first. -/
structure Slot (α : Type) where
  value : α
  undo : List PreImage
deriving DecidableEq

/-- Stage in the life of a document; no algorithm depends on it. -/
inductive Lifecycle where
  | uninitialized
  | operative
  | locked
  | exclusiveWrite
deriving DecidableEq, Inhabited

structure Document (α : Type) where
  slots : List (Slot α)
  lifecycle : Lifecycle
deriving DecidableEq

namespace Slot

variable {α : Type}

def fresh (v : α) : Slot α := ⟨v, []⟩

/-- The pre-images, the oldest first. -/
def deltas (s : Slot α) : List PreImage := s.undo.reverse

variable [Element α]

/-- Overwrites fields of an entity and records what they held. The tag must be the entity's, and it
must have every field; otherwise nothing is changed. -/
def update (s : Slot α) (state : StateVector) (tag : String) (delta : Fields) :
    Except SyncError (Slot α) :=
  if Element.typeTag s.value ≠ tag then
    .error (.wrongTag (Element.typeTag s.value) tag)
  else
    match delta.keys.find? fun f => (Element.field? s.value f).isNone with
    | some f => .error (.unknownField tag f)
    | none =>
      let before := delta.mapWithKey fun f _ => (Element.field? s.value f).getD .null
      .ok ⟨Element.setFields s.value delta, ⟨state, before⟩ :: s.undo⟩

/-- Reads what fields hold, in the order of a list of names; the first one that the element does
not have ends it. -/
def capture (e : α) (tag : String) (before : Fields) : List String → Except SyncError Fields
  | [] => .ok before
  | f :: rest =>
    match Element.field? e f with
    | some v => capture e tag (before.insert f v) rest
    | none => .error (.unknownField tag f)

/-- An update of a slot in place: first all fields are read, then all are written. -/
def updateInPlace (s : Slot α) (state : StateVector) (tag : String) (delta : Fields) :
    InPlace (Slot α) Unit :=
  if Element.typeTag s.value ≠ tag then (.error (.wrongTag (Element.typeTag s.value) tag), s)
  else
    match capture s.value tag .empty delta.keys with
    | .error e => (.error e, s)
    | .ok before =>
      match Element.overwrite s.value delta.entries with
      | (.error e, value) => (.error e, { s with value })
      | (.ok (), value) => (.ok (), ⟨value, ⟨state, before⟩ :: s.undo⟩)

/-- Takes back updates in place, newest first, as long as their state has a first component above
`cutoff`, and counts them. A pre-image is gone from the stack before its fields are written. -/
def unwind (cutoff : Nat) (value : α) : List PreImage → InPlace (Slot α) Nat
  | [] => (.ok 0, ⟨value, []⟩)
  | last :: older =>
    if last.state.get 0 ≤ cutoff then (.ok 0, ⟨value, last :: older⟩)
    else
      match Element.overwrite value last.fields.entries with
      | (.error e, value) => (.error e, ⟨value, older⟩)
      | (.ok (), value) =>
        let (undone, slot) := unwind cutoff value older
        (undone.map (· + 1), slot)

end Slot

namespace Document

variable {α : Type}

def empty : Document α := ⟨[], .uninitialized⟩

instance : Inhabited (Document α) := ⟨empty⟩

def size (d : Document α) : Nat := d.slots.length

def isEmpty (d : Document α) : Bool := d.slots.isEmpty

def values (d : Document α) : List α := d.slots.map (·.value)

def get? (d : Document α) (p : Nat) : Option α := d.slots[p]?.map (·.value)

def deltas? (d : Document α) (p : Nat) : Option (List PreImage) := d.slots[p]?.map (·.deltas)

/-- Replaces the whole content by elements without updates. -/
def fill (d : Document α) (values : List α) : Document α :=
  { d with slots := values.map Slot.fresh }

def getSlot (d : Document α) (p : Nat) : Except SyncError (Slot α) :=
  match d.slots[p]? with
  | some slot => .ok slot
  | none => .error (.positionOutOfRange p d.size)

@[simp] theorem values_fill (d : Document α) (vs : List α) : (d.fill vs).values = vs := by
  simp [fill, values, Slot.fresh, Function.comp_def]

theorem length_values (d : Document α) : d.values.length = d.size := by simp [values, size]

variable [Element α]

/-- Applies one operation, or refuses it and leaves the document as it is. -/
def apply (d : Document α) (op : Operation α) : Except SyncError (Document α) :=
  match op.edit with
  | .noop => .ok d
  | .insert p v =>
    if p ≤ d.size then .ok { d with slots := d.slots.insertIdx p (Slot.fresh v) }
    else .error (.positionOutOfRange p d.size)
  | .delete p =>
    if p < d.size then .ok { d with slots := d.slots.eraseIdx p }
    else .error (.positionOutOfRange p d.size)
  | .replace p v =>
    if p < d.size then .ok { d with slots := d.slots.set p (Slot.fresh v) }
    else .error (.positionOutOfRange p d.size)
  | .update p tag delta => do
    let slot ← d.getSlot p
    let stamp ← op.getStamp
    let slot ← slot.update stamp.state tag delta
    return { d with slots := d.slots.set p slot }

def applyAll (d : Document α) : List (Operation α) → Except SyncError (Document α)
  | [] => .ok d
  | op :: rest => do
    let d ← d.apply op
    d.applyAll rest

/-- Applies one operation in place. -/
def applyInPlace (d : Document α) (op : Operation α) : InPlace (Document α) Unit :=
  match op.edit with
  | .noop => (.ok (), d)
  | .insert p v =>
    if p ≤ d.size then (.ok (), { d with slots := d.slots.insertIdx p (Slot.fresh v) })
    else (.error (.positionOutOfRange p d.size), d)
  | .delete p =>
    if p < d.size then (.ok (), { d with slots := d.slots.eraseIdx p })
    else (.error (.positionOutOfRange p d.size), d)
  | .replace p v =>
    if p < d.size then (.ok (), { d with slots := d.slots.set p (Slot.fresh v) })
    else (.error (.positionOutOfRange p d.size), d)
  | .update p tag delta =>
    match d.getSlot p, op.getStamp with
    | .error e, _ | .ok _, .error e => (.error e, d)
    | .ok slot, .ok stamp =>
      let (result, slot) := slot.updateInPlace stamp.state tag delta
      (result, { d with slots := d.slots.set p slot })

/-- Takes back the newest updates of an element in place, those with a state beyond `since` in the
first component, and counts them. -/
def rollbackInPlace (d : Document α) (p : Nat) (since : StateVector) : InPlace (Document α) Nat :=
  match d.getSlot p with
  | .error e => (.error e, d)
  | .ok slot =>
    let (undone, slot) := Slot.unwind (since.get 0) slot.value slot.undo
    (undone, { d with slots := d.slots.set p slot })

/-- Takes back the newest updates of an element, with the document for a result. -/
def rollback (d : Document α) (p : Nat) (since : StateVector) :
    Except SyncError (Nat × Document α) :=
  (d.rollbackInPlace p since).committed

end Document

end CoEdit
