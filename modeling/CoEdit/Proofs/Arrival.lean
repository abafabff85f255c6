import CoEdit.Message

/-!
# What arrives

Values travel without their kind, so a list of small numbers arrives as bytes; whatever holds values
arrives with the values in it changed in this way. Only what has no such list inside arrives as it
was sent (`Travels.arrival_eq_iff`).
-/

namespace CoEdit

/-- A type whose values are sent. -/
class Travels (α : Type) where
  /-- what arrives of a value -/
  arrival : α → α
  /-- no list inside looks like bytes -/
  Lossless : α → Prop
  arrival_eq_iff : ∀ a, arrival a = a ↔ Lossless a

/-- Types that hold no dynamic values. -/
@[reducible] def Travels.whole (α : Type) : Travels α where
  arrival := id
  Lossless _ := True
  arrival_eq_iff _ := ⟨fun _ => trivial, fun _ => rfl⟩

open Travels

instance : Travels Char := .whole Char
instance : Travels String := .whole String
instance : Travels Int64 := .whole Int64
instance : Travels SiteId := .whole SiteId
instance : Travels StateVector := .whole StateVector
instance : Travels Stamp := .whole Stamp

/-! ## Values -/

namespace Value

mutual

/-- What arrives of a value: from the inside out, bytes for every list that looks like them. -/
def arrival : Value → Value
  | null => null
  | bool b => bool b
  | int n => int n
  | string s => string s
  | bytes bs => bytes bs
  | list items => ofItems (arrivalItems items)
  | map entries => map (arrivalEntries entries)

/-- What arrives of the items of a list. -/
def arrivalItems : List Value → List Value
  | [] => []
  | v :: rest => v.arrival :: arrivalItems rest

/-- What arrives of the entries of a map. -/
def arrivalEntries : List (String × Value) → List (String × Value)
  | [] => []
  | (key, v) :: rest => (key, v.arrival) :: arrivalEntries rest

end

mutual

/-- No list inside a value looks like bytes. -/
def Lossless : Value → Prop
  | list items => items.mapM byte? = none ∧ LosslessItems items
  | map entries => LosslessEntries entries
  | _ => True

/-- No list inside the items of a list looks like bytes. -/
def LosslessItems : List Value → Prop
  | [] => True
  | v :: rest => v.Lossless ∧ LosslessItems rest

/-- No list inside the entries of a map looks like bytes. -/
def LosslessEntries : List (String × Value) → Prop
  | [] => True
  | (_, v) :: rest => v.Lossless ∧ LosslessEntries rest

end

theorem arrivalEntries_eq (entries : List (String × Value)) :
    arrivalEntries entries = entries.map fun entry => (entry.1, entry.2.arrival) := by
  induction entries with
  | nil => rfl
  | cons entry rest ih => rw [arrivalEntries, ih, List.map_cons]

theorem ofItems_eq_list_iff {items kept : List Value} :
    ofItems items = list kept ↔ items = kept ∧ items.mapM byte? = none := by
  rw [ofItems]
  split
  · rename_i found
    simp [found]
  · rename_i missing
    simp [missing]

mutual

theorem arrival_eq_iff : (v : Value) → (v.arrival = v ↔ v.Lossless)
  | null | bool _ | int _ | string _ | bytes _ => ⟨fun _ => trivial, fun _ => rfl⟩
  | list items => by
    rw [arrival, ofItems_eq_list_iff, arrivalItems_eq_iff items, Lossless, and_comm]
    refine and_congr_left fun lossless => ?_
    rw [(arrivalItems_eq_iff items).mpr lossless]
  | map entries => by
    rw [arrival, map.injEq, arrivalEntries_eq_iff entries, Lossless]

theorem arrivalItems_eq_iff : (items : List Value) →
    (arrivalItems items = items ↔ LosslessItems items)
  | [] => ⟨fun _ => trivial, fun _ => rfl⟩
  | v :: rest => by
    rw [arrivalItems, List.cons.injEq, arrival_eq_iff v, arrivalItems_eq_iff rest, LosslessItems]

theorem arrivalEntries_eq_iff : (entries : List (String × Value)) →
    (arrivalEntries entries = entries ↔ LosslessEntries entries)
  | [] => ⟨fun _ => trivial, fun _ => rfl⟩
  | (key, v) :: rest => by
    rw [arrivalEntries, List.cons.injEq, Prod.mk.injEq, arrival_eq_iff v,
      arrivalEntries_eq_iff rest, LosslessEntries]
    simp only [true_and]

end

end Value

instance : Travels Value := ⟨Value.arrival, Value.Lossless, Value.arrival_eq_iff⟩

instance : Travels Fields where
  arrival fields := fields.mapWithKey fun _ v => v.arrival
  Lossless fields := Value.LosslessEntries fields.entries
  arrival_eq_iff fields := by
    rw [← Value.arrivalEntries_eq_iff, Value.arrivalEntries_eq]
    exact ⟨congrArg SortedMap.entries, fun same => SortedMap.ext same⟩

instance : Travels Record where
  arrival r := { r with fields := arrival r.fields }
  Lossless r := Lossless r.fields
  arrival_eq_iff r := by
    rw [← arrival_eq_iff r.fields]
    exact ⟨congrArg Record.fields, fun same => by rw [same]⟩

/-! ## Messages -/

variable {α : Type} [Travels α]

instance : Travels (Edit α) where
  arrival
    | .noop => .noop
    | .insert p v => .insert p (arrival v)
    | .delete p => .delete p
    | .replace p v => .replace p (arrival v)
    | .update p tag delta => .update p tag (arrival delta)
  Lossless
    | .noop | .delete _ => True
    | .insert _ v | .replace _ v => Lossless v
    | .update _ _ delta => Lossless delta
  arrival_eq_iff edit := by
    cases edit <;> simp [arrival_eq_iff]

instance : Travels (Operation α) where
  arrival op := { op with edit := arrival op.edit }
  Lossless op := Lossless op.edit
  arrival_eq_iff op := by
    rw [← arrival_eq_iff op.edit]
    exact ⟨congrArg Operation.edit, fun same => by rw [same]⟩

theorem map_arrival_eq_iff (vs : List α) : vs.map arrival = vs ↔ ∀ v ∈ vs, Lossless v := by
  induction vs with
  | nil => simp
  | cons v vs ih => rw [List.map_cons, List.cons.injEq, arrival_eq_iff, ih, List.forall_mem_cons]

instance : Travels (History α) where
  arrival history := history.map arrival
  Lossless history := ∀ op ∈ history, Lossless op
  arrival_eq_iff := map_arrival_eq_iff

instance : Travels (Fill α) where
  arrival
    | .snapshot values state => .snapshot (values.map arrival) state
    | .replay history state => .replay (history.map arrival) state
  Lossless
    | .snapshot values _ => ∀ v ∈ values, Lossless v
    | .replay history _ => ∀ op ∈ history, Lossless op
  arrival_eq_iff data := by
    cases data <;> simp [map_arrival_eq_iff]

instance : Travels (Message α) where
  arrival
    | .operation op => .operation (arrival op)
    | .fill data => .fill (arrival data)
  Lossless
    | .operation op => Lossless op
    | .fill data => Lossless data
  arrival_eq_iff m := by
    cases m <;> simp [arrival_eq_iff]

/-! ## Documents -/

instance : Travels PreImage where
  arrival d := { d with fields := arrival d.fields }
  Lossless d := Lossless d.fields
  arrival_eq_iff d := by
    rw [← arrival_eq_iff d.fields]
    exact ⟨congrArg PreImage.fields, fun same => by rw [same]⟩

instance : Travels (Slot α) where
  arrival s := ⟨arrival s.value, s.undo.map arrival⟩
  Lossless s := Lossless s.value ∧ ∀ d ∈ s.undo, Lossless d
  arrival_eq_iff s := by
    rw [← arrival_eq_iff s.value, ← map_arrival_eq_iff s.undo, Slot.mk.injEq]

instance : Travels (Document α) where
  arrival d := { d with slots := d.slots.map arrival }
  Lossless d := ∀ s ∈ d.slots, Lossless s
  arrival_eq_iff d := by
    rw [← map_arrival_eq_iff d.slots]
    exact ⟨congrArg Document.slots, fun same => by rw [same]⟩

end CoEdit
