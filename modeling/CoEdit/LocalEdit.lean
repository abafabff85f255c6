import CoEdit.Algorithm

/-!
# Local edits

Edits as a user of a document makes them: by index, by value, or through a cursor. Each one resolves
its positions in the document as it stands, generates its operations one by one, and stops at the
first that is refused.
-/

namespace CoEdit

inductive CursorEdit (α : Type) where
  | insert (value : α)
  | delete
  | replace (value : α)
  | update (delta : Fields)

/-- An edit of a document. `insertAll` puts the first element at the index, and `removeValue` takes
out the first element that equals the value. -/
inductive LocalEdit (α : Type) where
  | perform (op : Operation α)
  | push (value : α)
  | insert (index : Nat) (value : α)
  | insertAll (index : Nat) (values : List α)
  | set (index : Nat) (value : α)
  | remove (index : Nat)
  | removeValue (value : α)
  | clear
  | update (index : Nat) (delta : Fields)
  | through (cursor : CursorId) (edit : CursorEdit α)

/-- What an edit returns: the operation as it was applied, the element that was taken out or
replaced, or whether something was found. -/
inductive Reply (α : Type) where
  | done
  | operation (op : Operation α)
  | element (value : α)
  | found (yes : Bool)
deriving DecidableEq

namespace Outcome

variable {σ α ρ τ : Type}

def reply (o : Outcome σ α ρ) (r : τ) : Outcome σ α τ :=
  ⟨o.result.map fun _ => r, o.state, o.sent⟩

end Outcome

def Document.indexOf? {α : Type} [DecidableEq α] (d : Document α) (v : α) : Option Nat :=
  d.values.findIdx? (· = v)

def Document.getElement {α : Type} (d : Document α) (index : Nat) : Except SyncError α :=
  (d.getSlot index).map (·.value)

namespace ClientAlgorithm

variable {C : Type → Type} [ClientAlgorithm C] {α : Type} [Element α]

/-- Generates operations one after the other until one is refused. -/
def generateAll (c : C α) : List (Operation α) → Outcome (C α) α Unit
  | [] => .done () c []
  | op :: rest =>
    let first := generate c op
    match first.result with
    | .error e => ⟨.error e, first.state, first.sent⟩
    | .ok _ =>
      let others := generateAll first.state rest
      { others with sent := first.sent ++ others.sent }

def generateFor (c : C α) (op : Operation α) (r : Reply α) : Outcome (C α) α (Reply α) :=
  (generate c op).reply r

/-- Generates the operation that was worked out, or fails for the reason why there is none. -/
def generateIfOk (c : C α) : Except SyncError (Operation α × Reply α) → Outcome (C α) α (Reply α)
  | .ok (op, r) => generateFor c op r
  | .error e => .fail e c

/-- Overwrites fields of the entity at an index, under the entity's own tag. -/
def updateOperation (c : C α) (index : Nat) (delta : Fields) :
    Except SyncError (Operation α × Reply α) := do
  let e ← (copy c).document.getElement index
  let op ← Operation.update? index (Element.typeTag e) delta
  return (op, .done)

/-- The operation of an edit through a cursor, and its reply. -/
def cursorOperation (c : C α) (cursor : CursorId) (edit : CursorEdit α) :
    Except SyncError (Operation α × Reply α) := do
  let here ← (copy c).cursors.get cursor
  let document := (copy c).document
  match edit with
  | .insert v =>
    let p ← here.target document.size true
    return (⟨.insert p v, none⟩, .done)
  | .delete =>
    let p ← here.target document.size false
    let e ← document.getElement p
    return (⟨.delete p, none⟩, .element e)
  | .replace v =>
    let p ← here.target document.size false
    let e ← document.getElement p
    return (⟨.replace p v, none⟩, .element e)
  | .update delta =>
    let p ← here.target document.size false
    updateOperation c p delta

def edit [DecidableEq α] (c : C α) : LocalEdit α → Outcome (C α) α (Reply α)
  | .perform op =>
    let o := generate c op
    ⟨o.result.map .operation, o.state, o.sent⟩
  | .push v => generateFor c ⟨.insert (copy c).document.size v, none⟩ .done
  | .insert i v => generateFor c ⟨.insert i v, none⟩ .done
  | .insertAll i vs =>
    (generateAll c (vs.zipIdx i |>.map fun (v, p) => ⟨.insert p v, none⟩)).reply .done
  | .set i v =>
    generateIfOk c ((copy c).document.getElement i |>.map fun e =>
      (⟨.replace i v, none⟩, .element e))
  | .remove i =>
    generateIfOk c ((copy c).document.getElement i |>.map fun e =>
      (⟨.delete i, none⟩, .element e))
  | .removeValue v =>
    match (copy c).document.indexOf? v with
    | some i => generateFor c ⟨.delete i, none⟩ (.found true)
    | none => .done (.found false) c []
  | .clear =>
    (generateAll c (List.replicate (copy c).document.size ⟨.delete 0, none⟩)).reply .done
  | .update i delta => generateIfOk c (updateOperation c i delta)
  | .through cursor e => generateIfOk c (cursorOperation c cursor e)

end ClientAlgorithm

end CoEdit
