import CoEdit.Proofs.Effect

/-!
# Documents without dates

A document keeps the state of every update beside what the update overwrote. The algorithms count
in different ways, so two replicas under different algorithms never agree about these states. They
can agree about everything else: without its dates a document depends on nothing but the edits that
led to it (`undated_of_applyAll`).
-/

namespace CoEdit

variable {α : Type}

/-- What an update overwrote, with nothing said about when. -/
def PreImage.undated (p : PreImage) : PreImage := { p with state := ⟨[]⟩ }

/-- A slot whose updates have no dates. -/
def Slot.undated (s : Slot α) : Slot α := { s with undo := s.undo.map PreImage.undated }

/-- The same edit under a stamp that is the same for all. -/
def Operation.undated (op : Operation α) : Operation α := ⟨op.edit, some ⟨.ofNat 0, ⟨[]⟩⟩⟩

/-- A document whose updates have no dates. -/
def Document.undated (d : Document α) : Document α :=
  { d with slots := d.slots.map Slot.undated }

theorem Operation.undated_of_edits {ops ops' : List (Operation α)}
    (same : ops.map (·.edit) = ops'.map (·.edit)) :
    ops.map Operation.undated = ops'.map Operation.undated := by
  have undated := congrArg (List.map fun edit => (⟨edit, none⟩ : Operation α).undated) same
  rwa [List.map_map, List.map_map] at undated

namespace Document

@[simp] theorem size_undated (d : Document α) : d.undated.size = d.size := List.length_map ..

theorem getSlot_undated {d : Document α} {p : Nat} {slot : Slot α} (h : d.getSlot p = .ok slot) :
    d.undated.getSlot p = .ok slot.undated := by
  simp only [getSlot] at h ⊢
  split at h
  · rename_i there
    cases h
    simp only [undated, List.getElem?_map, there, Option.map_some]
  · cases h

end Document

variable [Element α]

theorem Slot.update_undated {s s' : Slot α} {state : StateVector} {tag : String} {delta : Fields}
    (h : s.update state tag delta = .ok s') :
    s.undated.update ⟨[]⟩ tag delta = .ok s'.undated := by
  simp only [update] at h ⊢
  split at h
  · cases h
  · rename_i sameTag
    rw [if_neg (show ¬ Element.typeTag s.undated.value ≠ tag from sameTag)]
    split at h
    · cases h
    · rename_i known
      cases h
      rw [show (delta.keys.find? fun f => (Element.field? s.undated.value f).isNone) = none
        from known]
      rfl

namespace Document

variable {d d' e e' : Document α} {op : Operation α} {ops ops' : List (Operation α)}

/-- Without dates an operation that is accepted does what it does with them. -/
theorem apply_undated (h : d.apply op = .ok d') : d.undated.apply op.undated = .ok d'.undated := by
  have edit : op.undated.edit = op.edit := rfl
  simp only [apply, edit] at h ⊢
  cases kind : op.edit with
  | noop =>
    simp only [kind] at h ⊢
    cases h
    rfl
  | insert p v =>
    simp only [kind, size_undated] at h ⊢
    split at h
    · rename_i inside
      cases h
      rw [if_pos inside]
      simp only [undated, List.map_insertIdx]
      rfl
    · cases h
  | delete p =>
    simp only [kind, size_undated] at h ⊢
    split at h
    · rename_i inside
      cases h
      rw [if_pos inside]
      simp only [undated, List.eraseIdx_map]
    · cases h
  | replace p v =>
    simp only [kind, size_undated] at h ⊢
    split at h
    · rename_i inside
      cases h
      rw [if_pos inside]
      simp only [undated, List.map_set]
      rfl
    · cases h
  | update p tag delta =>
    simp only [kind, bind, Except.bind] at h ⊢
    cases there : d.getSlot p with
    | error e => simp [there] at h
    | ok slot =>
      cases stamped : op.getStamp with
      | error e => simp [there, stamped] at h
      | ok stamp =>
        cases updated : slot.update stamp.state tag delta with
        | error e => simp [there, stamped, updated] at h
        | ok slot' =>
          simp only [there, stamped, updated] at h
          cases h
          have stamp_eq : op.undated.getStamp = .ok ⟨.ofNat 0, ⟨[]⟩⟩ := rfl
          simp only [getSlot_undated there, stamp_eq, Slot.update_undated updated]
          simp only [undated, List.map_set]
          rfl

theorem applyAll_undated (h : d.applyAll ops = .ok d') :
    d.undated.applyAll (ops.map Operation.undated) = .ok d'.undated := by
  induction ops generalizing d with
  | nil =>
    cases h
    rfl
  | cons op ops ih =>
    simp only [applyAll, bind, Except.bind] at h
    cases first : d.apply op with
    | error e => simp [first] at h
    | ok mid =>
      rw [first] at h
      simp only [List.map_cons, applyAll, bind, Except.bind, apply_undated first]
      exact ih h

/-- The same edits make documents that agree up to dates agree again. -/
theorem undated_of_applyAll (same : d.undated = d'.undated)
    (edits : ops.map (·.edit) = ops'.map (·.edit)) (h : d.applyAll ops = .ok e)
    (h' : d'.applyAll ops' = .ok e') : e.undated = e'.undated := by
  have here := applyAll_undated h
  have there := applyAll_undated h'
  rw [same, Operation.undated_of_edits edits] at here
  exact Except.ok.inj (here.symm.trans there)

end Document

end CoEdit
