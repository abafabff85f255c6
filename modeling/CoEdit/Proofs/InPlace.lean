import CoEdit.Proofs.FieldWrites

/-!
# Operations in place

An operation is applied by steps: checks, a loop that reads the fields to be overwritten, a loop
that writes them, a pre-image on top of the stack. The reading loop meets every field that the
writing loop is going to meet, so a missing field is found before the first write, and the steps
together are all or nothing (`Document.applyInPlace_eq`). Which operations a document takes, and
what becomes of it, is said without loops by `Document.Takes` and `Document.Becomes`
(`apply_exact`).
-/

namespace CoEdit

variable {α : Type}

namespace InPlace

variable {σ : Type} {before after : σ} {result : Except SyncError σ} {e : SyncError}

/-- A call that succeeds with a new value or leaves the old one. -/
def allOrNothing (before : σ) : Except SyncError σ → InPlace σ Unit
  | .ok after => (.ok (), after)
  | .error e => (.error e, before)

theorem allOrNothing_eq_ok :
    allOrNothing before result = (.ok (), after) ↔ result = .ok after := by
  cases result <;> simp [allOrNothing]

theorem allOrNothing_eq_error :
    allOrNothing before result = (.error e, after) ↔ result = .error e ∧ before = after := by
  cases result <;> simp [allOrNothing]

end InPlace

open InPlace

namespace Element

variable [Element α]

/-- Writes to fields that are there all go through. -/
theorem overwrite_eq {e : α} {entries : List (String × Value)}
    (known : ∀ f ∈ entries.map Prod.fst, (field? e f).isSome) :
    overwrite e entries = (.ok (), setEntries e entries) := by
  induction entries generalizing e with
  | nil => rfl
  | cons entry rest ih =>
    obtain ⟨f, v⟩ := entry
    have here : set e f v = .ok (setField e f v) := if_pos (known f List.mem_cons_self)
    simp only [overwrite, here]
    refine ih fun g among => ?_
    rw [isSome_field?_setField]
    exact known g (List.mem_cons_of_mem _ among)

/-- What the fields hold that an update is going to write. -/
def held (e : α) (delta : Fields) : Fields := delta.mapWithKey fun f _ => (field? e f).getD .null

theorem get?_held {e : α} {delta : Fields} (known : ∀ f ∈ delta.keys, (field? e f).isSome)
    (f : String) : (held e delta).get? f = if f ∈ delta.keys then field? e f else none := by
  rw [held, SortedMap.get?_mapWithKey]
  by_cases among : f ∈ delta.keys
  · obtain ⟨v, stored⟩ := Option.isSome_iff_exists.mp
      ((SortedMap.contains_eq_true_iff ..).mpr among)
    obtain ⟨old, there⟩ := Option.isSome_iff_exists.mp (known f among)
    rw [stored, if_pos among, there]
    rfl
  · have absent := mt (SortedMap.contains_eq_true_iff delta f).mp among
    rw [Option.not_isSome_iff_eq_none.mp absent, if_neg among]
    rfl

end Element

namespace Slot

variable [Element α] {s s' : Slot α} {e : α} {state : StateVector} {tag : String} {delta : Fields}
  {names : List String} {before : Fields}

theorem find?_missing_eq_none : (names.find? fun f => (Element.field? e f).isNone) = none ↔
    ∀ f ∈ names, (Element.field? e f).isSome := by
  simp [Option.isSome_iff_ne_none]

/-- If all fields are there, the reading loop ends with what each of them holds. -/
theorem capture_of_known (tag : String) (before : Fields)
    (known : ∀ f ∈ names, (Element.field? e f).isSome) :
    ∃ read, capture e tag before names = .ok read ∧
      ∀ f, read.get? f = if f ∈ names then Element.field? e f else before.get? f := by
  induction names generalizing before with
  | nil => exact ⟨before, rfl, fun f => (if_neg List.not_mem_nil).symm⟩
  | cons name rest ih =>
    obtain ⟨v, there⟩ := Option.isSome_iff_exists.mp (known name List.mem_cons_self)
    obtain ⟨read, done, holds⟩ :=
      ih (before.insert name v) fun f among => known f (List.mem_cons_of_mem _ among)
    refine ⟨read, by simp only [capture, there, done], fun f => ?_⟩
    rw [holds, SortedMap.get?_insert]
    by_cases here : f = name
    · subst here
      simp [there]
    · simp [here]

/-- The reading loop ends at the first field that is missing. -/
theorem capture_of_missing {f : String}
    (missing : names.find? (fun f => (Element.field? e f).isNone) = some f) :
    capture e tag before names = .error (.unknownField tag f) := by
  induction names generalizing before with
  | nil => cases missing
  | cons name rest ih =>
    cases there : Element.field? e name with
    | none =>
      rw [List.find?_cons_of_pos (by rw [there]; rfl)] at missing
      cases missing
      simp only [capture, there]
    | some v =>
      rw [List.find?_cons_of_neg (by simp [there])] at missing
      simp only [capture, there]
      exact ih missing

theorem capture_eq (known : ∀ f ∈ delta.keys, (Element.field? e f).isSome) :
    capture e tag .empty delta.keys = .ok (Element.held e delta) := by
  obtain ⟨read, done, holds⟩ := capture_of_known tag .empty known
  rw [done]
  refine congrArg _ (SortedMap.ext_get? fun f => ?_)
  rw [holds, Element.get?_held known, SortedMap.get?_empty]

theorem update_eq_ok : s.update state tag delta = .ok s' ↔ Element.Accepts s.value tag delta ∧
    s' = ⟨Element.setFields s.value delta, ⟨state, Element.held s.value delta⟩ :: s.undo⟩ := by
  simp only [update, Element.Accepts]
  by_cases sameTag : Element.typeTag s.value = tag
  · cases missing : delta.keys.find? fun f => (Element.field? s.value f).isNone with
    | none =>
      have known := find?_missing_eq_none.mp missing
      simp only [ne_eq, sameTag, not_true_eq_false, if_false, Except.ok.injEq, true_and]
      exact ⟨fun same => ⟨known, same.symm⟩, fun same => same.2.symm⟩
    | some f =>
      have absent : (Element.field? s.value f).isNone := by simpa using List.find?_some missing
      have among := List.mem_of_find?_eq_some missing
      simp only [ne_eq, sameTag, not_true_eq_false, if_false, reduceCtorEq, false_iff]
      rintro ⟨⟨-, known⟩, -⟩
      have there := known f among
      rw [Option.isNone_iff_eq_none.mp absent] at there
      cases there
  · simp [sameTag]

/-- The two loops of an update are all or nothing. -/
theorem updateInPlace_eq (s : Slot α) (state : StateVector) (tag : String) (delta : Fields) :
    s.updateInPlace state tag delta = allOrNothing s (s.update state tag delta) := by
  by_cases sameTag : Element.typeTag s.value = tag
  · cases missing : delta.keys.find? fun f => (Element.field? s.value f).isNone with
    | none =>
      have known := find?_missing_eq_none.mp missing
      rw [update_eq_ok.mpr ⟨⟨sameTag, known⟩, rfl⟩]
      -- what was read is there, so every write goes through
      simp only [updateInPlace, sameTag, ne_eq, not_true_eq_false, if_false, capture_eq known,
        Element.overwrite_eq known]
      rfl
    | some f =>
      simp only [updateInPlace, update, sameTag, ne_eq, not_true_eq_false, if_false,
        capture_of_missing missing, missing]
      rfl
  · simp only [updateInPlace, update, ne_eq, sameTag, not_false_eq_true, if_true]
    rfl

/-- The slot as an update of some fields leaves it. -/
structure Updated (s : Slot α) (state : StateVector) (delta : Fields) (s' : Slot α) : Prop where
  value : s'.value = Element.setFields s.value delta
  tag : Element.typeTag s'.value = Element.typeTag s.value
  known : ∀ f, (Element.field? s'.value f).isSome = (Element.field? s.value f).isSome
  fields : ∀ f, Element.field? s'.value f =
    if f ∈ delta.keys then delta.get? f else Element.field? s.value f
  undo : ∃ before, s'.undo = ⟨state, before⟩ :: s.undo ∧
    ∀ f, before.get? f = if f ∈ delta.keys then Element.field? s.value f else none

theorem updated (accepts : Element.Accepts s.value tag delta) :
    s.Updated state delta
      ⟨Element.setFields s.value delta, ⟨state, Element.held s.value delta⟩ :: s.undo⟩ := by
  refine ⟨rfl, Element.typeTag_setEntries .., ?_, ?_, ?_⟩
  · intro f
    exact Element.isSome_field?_setEntries ..
  · intro f
    rw [Element.field?_setFields]
    by_cases among : f ∈ delta.keys
    · obtain ⟨v, stored⟩ := Option.isSome_iff_exists.mp
        ((SortedMap.contains_eq_true_iff ..).mpr among)
      obtain ⟨old, there⟩ := Option.isSome_iff_exists.mp (accepts.2 f among)
      rw [if_pos among, stored, there]
      rfl
    · have absent := mt (SortedMap.contains_eq_true_iff delta f).mp among
      rw [if_neg among, Option.not_isSome_iff_eq_none.mp absent]
      exact Option.map_id'
  · exact ⟨_, rfl, Element.get?_held accepts.2⟩

end Slot

section Lists

variable {β : Type} {xs : List β} {p : Nat}

theorem insertIdx_eq_take_drop (inside : p ≤ xs.length) (x : β) :
    xs.insertIdx p x = xs.take p ++ x :: xs.drop p := by
  induction p generalizing xs with
  | zero => rfl
  | succ p ih =>
    cases xs with
    | nil => cases inside
    | cons y ys =>
      rw [List.insertIdx_succ_cons, ih (Nat.le_of_succ_le_succ inside)]
      rfl

theorem set_eq_take_drop (inside : p < xs.length) (x : β) :
    xs.set p x = xs.take p ++ x :: xs.drop (p + 1) := by
  rw [List.set_eq_take_append_cons_drop, if_pos inside]

end Lists

namespace Document

variable [Element α] {d d' : Document α} {op : Operation α}

omit [Element α] in
theorem getSlot_eq_ok {p : Nat} {slot : Slot α} :
    d.getSlot p = .ok slot ↔ d.slots[p]? = some slot := by
  simp only [getSlot]
  cases d.slots[p]? <;> simp

/-- The steps of an operation are all or nothing. -/
theorem applyInPlace_eq (d : Document α) (op : Operation α) :
    d.applyInPlace op = allOrNothing d (d.apply op) := by
  cases edit : op.edit with
  | noop =>
    simp only [applyInPlace, apply, edit]
    rfl
  | insert p v | delete p | replace p v =>
    simp only [applyInPlace, apply, edit]
    split <;> rfl
  | update p tag delta =>
    simp only [applyInPlace, apply, edit]
    cases there : d.getSlot p with
    | error e => rfl
    | ok slot =>
      cases op.getStamp with
      | error e => rfl
      | ok stamp =>
        simp only [Slot.updateInPlace_eq, bind, Except.bind, pure, Except.pure]
        cases slot.update stamp.state tag delta with
        | ok slot' => rfl
        | error e =>
          -- the slot that is put back is the one that was there
          obtain ⟨inside, rfl⟩ := List.getElem?_eq_some_iff.mp (getSlot_eq_ok.mp there)
          simp only [allOrNothing, List.set_getElem_self]

/-- The operations that a document takes. -/
def Takes (d : Document α) (op : Operation α) : Prop :=
  match op.edit with
  | .noop => True
  | .insert p _ => p ≤ d.size
  | .delete p | .replace p _ => p < d.size
  | .update p tag delta =>
    op.stamp.isSome ∧ ∃ slot, d.slots[p]? = some slot ∧ Element.Accepts slot.value tag delta

/-- What becomes of a document that takes an operation. -/
def Becomes (d : Document α) (op : Operation α) (d' : Document α) : Prop :=
  d'.lifecycle = d.lifecycle ∧
  match op.edit with
  | .noop => d'.slots = d.slots
  | .insert p v => d'.slots = d.slots.take p ++ ⟨v, []⟩ :: d.slots.drop p
  | .delete p => d'.slots = d.slots.take p ++ d.slots.drop (p + 1)
  | .replace p v => d'.slots = d.slots.take p ++ ⟨v, []⟩ :: d.slots.drop (p + 1)
  | .update p _ delta => ∃ slot stamp slot', d.slots[p]? = some slot ∧ op.stamp = some stamp ∧
      slot.Updated stamp.state delta slot' ∧
      d'.slots = d.slots.take p ++ slot' :: d.slots.drop (p + 1)

/-- What a document can do with an operation: an update is applied to a slot that accepts it, under
the stamp that it has, and everything else to the sequence of slots. -/
theorem apply_eq_ok_iff : d.apply op = .ok d' ↔
    match op.edit with
    | .noop => d = d'
    | .insert p v => p ≤ d.size ∧ { d with slots := d.slots.insertIdx p (Slot.fresh v) } = d'
    | .delete p => p < d.size ∧ { d with slots := d.slots.eraseIdx p } = d'
    | .replace p v => p < d.size ∧ { d with slots := d.slots.set p (Slot.fresh v) } = d'
    | .update p tag delta => ∃ slot stamp, d.slots[p]? = some slot ∧ op.stamp = some stamp ∧
        Element.Accepts slot.value tag delta ∧
        { d with slots := d.slots.set p ⟨Element.setFields slot.value delta,
          ⟨stamp.state, Element.held slot.value delta⟩ :: slot.undo⟩ } = d' := by
  cases edit : op.edit with
  | noop => simp [apply, edit]
  | insert p v | delete p | replace p v =>
    simp only [apply, edit]
    split <;> simp [*]
  | update p tag delta =>
    simp only [apply, edit, getSlot, Operation.getStamp]
    cases d.slots[p]? with
    | none => simp [bind, Except.bind]
    | some slot =>
      cases op.stamp with
      | none => simp [bind, Except.bind]
      | some stamp =>
        simp only [bind, Except.bind, pure, Except.pure, Option.some.injEq]
        cases updated : slot.update stamp.state tag delta with
        | error e =>
          have refused : ¬ Element.Accepts slot.value tag delta := by
            intro accepts
            rw [Slot.update_eq_ok.mpr ⟨accepts, rfl⟩] at updated
            cases updated
          simp [refused]
        | ok slot' =>
          obtain ⟨accepts, rfl⟩ := Slot.update_eq_ok.mp updated
          simp [accepts]

/-- A document takes the operations that fit, and no others. -/
theorem exists_apply_iff (d : Document α) (op : Operation α) :
    (∃ d', d.apply op = .ok d') ↔ d.Takes op := by
  simp only [apply_eq_ok_iff, Takes]
  cases op.edit with
  | noop | insert p v | delete p | replace p v => simp
  | update p tag delta =>
    constructor
    · rintro ⟨_, slot, stamp, at_p, stamped, accepts, rfl⟩
      exact ⟨by rw [stamped]; rfl, slot, at_p, accepts⟩
    · rintro ⟨stamped, slot, at_p, accepts⟩
      obtain ⟨stamp, stamped⟩ := Option.isSome_iff_exists.mp stamped
      exact ⟨_, slot, stamp, at_p, stamped, accepts, rfl⟩

theorem becomes_of_apply (applied : d.apply op = .ok d') : d.Becomes op d' := by
  have does := apply_eq_ok_iff.mp applied
  cases edit : op.edit with simp only [Becomes, edit] at does ⊢
  | noop =>
    subst does
    exact ⟨rfl, rfl⟩
  | insert p v =>
    obtain ⟨inside, rfl⟩ := does
    exact ⟨rfl, insertIdx_eq_take_drop inside _⟩
  | delete p =>
    obtain ⟨-, rfl⟩ := does
    exact ⟨rfl, List.eraseIdx_eq_take_drop_succ ..⟩
  | replace p v =>
    obtain ⟨inside, rfl⟩ := does
    exact ⟨rfl, set_eq_take_drop inside _⟩
  | update p tag delta =>
    obtain ⟨slot, stamp, at_p, stamped, accepts, rfl⟩ := does
    have inside := (List.getElem?_eq_some_iff.mp at_p).1
    exact ⟨rfl, slot, stamp, _, at_p, stamped, Slot.updated accepts, set_eq_take_drop inside _⟩

end Document

/-- For every document and every operation: the steps of the call succeed if and only if the
operation fits, and then the document is what the operation makes of it, pre-images included; if any
step fails, whatever was done before, the document is as it was. The call that returns the document
instead of changing it does the same. -/
theorem apply_exact [Element α] (d : Document α) (op : Operation α) :
    ((∃ d', d.applyInPlace op = (.ok (), d')) ↔ d.Takes op) ∧
    (∀ d', d.applyInPlace op = (.ok (), d') → d.Becomes op d') ∧
    (∀ e d', d.applyInPlace op = (.error e, d') → d' = d) ∧
    (∀ d', d.apply op = .ok d' ↔ d.applyInPlace op = (.ok (), d')) ∧
    ∀ e, d.apply op = .error e ↔ d.applyInPlace op = (.error e, d) := by
  simp only [d.applyInPlace_eq, allOrNothing_eq_ok, allOrNothing_eq_error, and_true, implies_true]
  refine ⟨d.exists_apply_iff op, ?_, ?_⟩
  · intro d' applied
    exact Document.becomes_of_apply applied
  · intro e d' refused
    exact refused.2.symm

/-- A task is finished under a new title; an update whose last field the task does not have changes
none of the others. -/
theorem apply_exact_last_field_missing :
    let d : Document Record := Document.empty.fill
      [⟨"task", .ofList [("done", .bool false), ("title", .string "draft")]⟩]
    let stamp : Option Stamp := some ⟨.ofNat 1, ⟨[3]⟩⟩
    let finish : Operation Record :=
      ⟨.update 0 "task" (.ofList [("done", .bool true), ("title", .string "final")]), stamp⟩
    let assign : Operation Record :=
      ⟨.update 0 "task" (.ofList [("done", .bool true), ("title", .null), ("who", .null)]), stamp⟩
    (∃ d', d.applyInPlace finish = (.ok (), d') ∧ d.Becomes finish d') ∧
      d.applyInPlace assign = (.error (.unknownField "task" "who"), d) := by
  intro d stamp finish assign
  obtain ⟨-, becomes, -⟩ := apply_exact d finish
  obtain ⟨-, -, unchanged, -⟩ := apply_exact d assign
  obtain ⟨d', applied⟩ : ∃ d', d.applyInPlace finish = (.ok (), d') := ⟨_, rfl⟩
  obtain ⟨left, refused⟩ :
      ∃ left, d.applyInPlace assign = (.error (.unknownField "task" "who"), left) := ⟨_, rfl⟩
  refine ⟨⟨d', applied, becomes d' applied⟩, ?_⟩
  rw [refused, unchanged _ left refused]

end CoEdit
