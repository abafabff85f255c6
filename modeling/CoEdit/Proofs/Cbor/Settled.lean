import CoEdit.Proofs.Cbor.RoundTrip
import CoEdit.Proofs.Cbor.Yields

/-!
# What the codec keeps

Values and elements that were read can be written and read again as they are (`Settled`). A byte
string may have stood for an array, which takes no level where it is read and one where it is
written; so what was read may need a few more levels than it was read with.
-/

namespace CoEdit

open Cbor Reader Travels CborForm Portable

/-- What is written and read as it is, if there is room for so many levels. -/
structure Settled {α : Type} [CborForm α] [Travels α] [Portable α] (room : Nat) (a : α) : Prop where
  fits : Fits a
  lossless : Lossless a
  levels_le : levels a ≤ room

/-- Types whose readers make only what is settled, and whose bytes tell what arrives. What is read
without entering a level may take some where it is written; `spare` says how many there have to
be. -/
class Settles (spare : outParam Nat) (α : Type) [CborForm α] [Travels α] [Portable α] : Prop where
  yields : ∀ room, Yields (read room : Reader α) (Settled (max room spare))
  settled_ofByte : ∀ (b : UInt8) (a : α), ofByte? b = some a → Settled spare a
  toCbor_arrival : ∀ a : α, toCbor (arrival a) = toCbor a

/-- One level down, a level is left for what stands around. -/
theorem Settles.yields_inside {α : Type} [CborForm α] [Travels α] [Portable α] [Settles 0 α]
    {n room : Nat} (up : room = n + 1) :
    Yields (read n : Reader α) fun a => Fits a ∧ Lossless a ∧ levels a < room := by
  refine (Settles.yields n).weaken fun a settled => ⟨settled.fits, settled.lossless, ?_⟩
  have deep := settled.levels_le
  omega

/-! ## Values -/

namespace Value

/-- The numbers of bytes are written as the bytes are. -/
theorem toCborItems_numbers (bs : List UInt8) :
    toCborItems (bs.map fun b => int (Int64.ofInt b.toNat)) = bs.map fun b => writeInt b.toNat := by
  induction bs with
  | nil => rfl
  | cons b bs ih => rw [List.map_cons, toCborItems, toCbor, toInt_ofNat_byte, ih, List.map_cons]

/-- Bytes are written as the list of numbers that they are taken for. -/
theorem toCbor_ofItems (items : List Value) :
    (ofItems items).toCbor = writeArray (toCborItems items) := by
  rw [ofItems]
  split
  · rename_i bs found
    rw [items_eq_of_mapM found, toCbor, toCborItems_numbers]
  · rfl

mutual

/-- What arrives of a value has the bytes of the value. -/
theorem toCbor_arrival : (v : Value) → v.arrival.toCbor = v.toCbor
  | null | bool _ | int _ | string _ | bytes _ => rfl
  | list items => by rw [arrival, toCbor_ofItems, toCborItems_arrival items, toCbor]
  | map entries => by rw [arrival, toCbor, toCborEntries_arrival entries, toCbor]

theorem toCborItems_arrival : (items : List Value) →
    toCborItems (arrivalItems items) = toCborItems items
  | [] => rfl
  | v :: rest => by
    rw [arrivalItems, toCborItems, toCbor_arrival v, toCborItems_arrival rest, toCborItems]

theorem toCborEntries_arrival : (entries : List (String × Value)) →
    toCborEntries (arrivalEntries entries) = toCborEntries entries
  | [] => rfl
  | (key, v) :: rest => by
    rw [arrivalEntries, toCborEntries, toCbor_arrival v, toCborEntries_arrival rest, toCborEntries]

end

variable {room : Nat}

/-- Items that are settled are so together. -/
theorem settled_items {items : List Value} (each : ∀ v ∈ items, Settled room v) :
    WellFormedItems items ∧ SizedItems items ∧ LosslessItems items ∧ levelsItems items ≤ room := by
  induction items with
  | nil => exact ⟨trivial, trivial, trivial, Nat.zero_le _⟩
  | cons v rest ih =>
    obtain ⟨⟨wf, sized⟩, lossless, deep⟩ := each v List.mem_cons_self
    obtain ⟨wf', sized', lossless', deep'⟩ :=
      ih fun w inside => each w (List.mem_cons_of_mem v inside)
    exact ⟨⟨wf, wf'⟩, ⟨sized, sized'⟩, ⟨lossless, lossless'⟩, Nat.max_le.mpr ⟨deep, deep'⟩⟩

theorem settled_ofItems {items : List Value} (few : items.length < Word.count)
    (each : ∀ v ∈ items, Settled room v) : Settled (room + 1) (ofItems items) := by
  rw [ofItems]
  split
  · rename_i bs found
    have few' : bs.length < Word.count := (forall₂_of_mapM found).length_eq ▸ few
    exact ⟨⟨trivial, few'⟩, trivial, Nat.succ_le_succ (Nat.zero_le _)⟩
  · rename_i larger
    obtain ⟨wf, sized, lossless, deep⟩ := settled_items each
    exact ⟨⟨wf, few, sized⟩, ⟨larger, lossless⟩, Nat.succ_le_succ deep⟩

/-- An entry whose key is not too long and whose value is settled. -/
def SettledEntry (room : Nat) (entry : String × Value) : Prop :=
  (utf8 entry.1).length < Word.count ∧ Settled room entry.2

theorem settled_entries {entries : List (String × Value)}
    (each : ∀ entry ∈ entries, SettledEntry room entry) :
    WellFormedEntries entries ∧ SizedEntries entries ∧ LosslessEntries entries ∧
      levelsEntries entries ≤ room := by
  induction entries with
  | nil => exact ⟨trivial, trivial, trivial, Nat.zero_le _⟩
  | cons entry rest ih =>
    obtain ⟨short, ⟨wf, sized⟩, lossless, deep⟩ := each entry List.mem_cons_self
    obtain ⟨wf', sized', lossless', deep'⟩ :=
      ih fun e inside => each e (List.mem_cons_of_mem _ inside)
    exact ⟨⟨wf, wf'⟩, ⟨short, sized, sized'⟩, ⟨lossless, lossless'⟩, Nat.max_le.mpr ⟨deep, deep'⟩⟩

/-- Entries in any order make a map, in which each key is there once. -/
theorem settled_sort {entries : List (String × Value)} (few : entries.length < Word.count)
    (each : ∀ entry ∈ entries, SettledEntry room entry) :
    Settled (room + 1) (map (Entries.sort entries)) := by
  obtain ⟨wf, sized, lossless, deep⟩ :=
    settled_entries fun entry inside => each entry (Entries.mem_sort inside)
  have fewer := Nat.lt_of_le_of_lt (Entries.length_sort_le entries) few
  exact ⟨⟨⟨Entries.ascending_sort entries, wf⟩, fewer, sized⟩, lossless, Nat.succ_le_succ deep⟩

/-! ## Reading values -/

theorem textual_yields (h : Head) :
    Yields (textual h) fun s => (utf8 s).length < Word.count := by
  cases h with
  | text length => exact .textBody length
  | bytes length =>
    refine (Yields.bytesBody length).bind fun bs few => ?_
    split
    · rename_i decoded
      exact .pure ((utf8_of_ofUtf8? decoded).symm ▸ few)
    · exact .failure
  | _ => exact .failure

theorem readEntry_yields {key : Reader String} {value : Reader Value}
    (short : Yields key fun s => (utf8 s).length < Word.count)
    (inside : Yields value (Settled room)) : Yields (readEntry key value) (SettledEntry room) :=
  short.bind fun _ key => inside.bind fun _ settled => .pure ⟨key, settled⟩

theorem readBody_yields {inside : Option (Reader Value)} {h : Head}
    (below : ∀ value, inside = some value → ∃ n, room = n + 1 ∧ Yields value (Settled n))
    (sized : h.Sized) : Yields (readBody inside h) (Settled room) := by
  have leaf : ∀ v : Value, v.WellFormed ∧ v.Sized → v.Lossless → v.levels = 0 →
      Settled room v := fun v fits lossless flat =>
    ⟨fits, lossless, Nat.le_trans (Nat.le_of_eq flat) (Nat.zero_le _)⟩
  have number : ∀ i, Yields (liftM (ofInt? i) : Reader Value) (Settled room) := by
    intro i
    refine .lift fun v found => ?_
    obtain ⟨n, -, rfl⟩ := Option.map_eq_some_iff.mp found
    exact leaf _ ⟨trivial, trivial⟩ trivial rfl
  have texts : Yields (string <$> textual h) (Settled room) :=
    (textual_yields h).map fun s short => leaf _ ⟨trivial, short⟩ trivial rfl
  simp only [readBody]
  split
  · exact number _
  · exact number _
  · exact texts
  · exact texts
  · obtain ⟨n, rfl, inside⟩ := below _ rfl
    exact (Yields.items inside sized).map fun _ made => settled_ofItems made.1 made.2
  · obtain ⟨n, rfl, inside⟩ := below _ rfl
    have keys : Yields (do textual (← head)) fun s => (utf8 s).length < Word.count :=
      Yields.head.bind fun h _ => textual_yields h
    refine (Yields.items (readEntry_yields keys inside) sized).bind fun entries made => ?_
    exact .pure (settled_sort made.1 made.2)
  · exact .pure (leaf _ ⟨trivial, trivial⟩ trivial rfl)
  · exact .pure (leaf _ ⟨trivial, trivial⟩ trivial rfl)
  · exact .pure (leaf _ ⟨trivial, trivial⟩ trivial rfl)
  · exact .pure (leaf _ ⟨trivial, trivial⟩ trivial rfl)
  · exact .failure

theorem readCbor_yields (room : Nat) : Yields (readCbor room) (Settled room) := by
  induction room with
  | zero => exact Yields.head.bind fun h sized => readBody_yields (by rintro _ ⟨⟩) sized
  | succ room ih =>
    refine Yields.head.bind fun h sized => readBody_yields ?_ sized
    rintro _ ⟨⟩
    exact ⟨room, rfl, ih⟩

theorem readFields_yields (room : Nat) : Yields (readFields room) (Settled room) := by
  refine Yields.bareHead.bind fun h sized => ?_
  split
  · refine .enter fun n up => ?_
    subst up
    have entry := readEntry_yields .text (readCbor_yields n)
    refine (Yields.items entry sized).bind fun entries made => ?_
    obtain ⟨⟨⟨-, wf⟩, fewer, inside⟩, lossless, deep⟩ := settled_sort made.1 made.2
    exact .pure ⟨⟨fewer, wf, inside⟩, lossless, deep⟩
  · exact .failure

theorem settled_ofByte (b : UInt8) : Settled 0 (int (Int64.ofInt b.toNat)) :=
  ⟨⟨trivial, trivial⟩, trivial, Nat.le_refl _⟩

end Value

/-! ## Elements -/

instance : Settles 0 Char where
  yields _ := .shortString fun _ _ _ => ⟨trivial, trivial, Nat.zero_le _⟩
  settled_ofByte := nofun
  toCbor_arrival _ := rfl

instance : Settles 0 String where
  yields _ := Yields.text.weaken fun _ short => ⟨short, trivial, Nat.zero_le _⟩
  settled_ofByte := nofun
  toCbor_arrival _ := rfl

instance : Settles 0 Int64 where
  yields _ := Yields.signedWord.weaken fun _ _ => ⟨trivial, trivial, Nat.zero_le _⟩
  settled_ofByte _ _ _ := ⟨trivial, trivial, Nat.zero_le _⟩
  toCbor_arrival _ := rfl

instance : Settles 0 Value where
  yields room := (Nat.max_zero room).symm ▸ Value.readCbor_yields room
  settled_ofByte b _ found := Option.some.inj found ▸ Value.settled_ofByte b
  toCbor_arrival := Value.toCbor_arrival

instance : Settles 0 Fields where
  yields room := (Nat.max_zero room).symm ▸ Value.readFields_yields room
  settled_ofByte := nofun
  toCbor_arrival fields := by
    simp only [toCbor, ← Value.toCborEntries_arrival fields.entries, Value.arrivalEntries_eq]
    rfl

instance : Settles 0 Record where
  yields room := by
    refine (Yields.structure2 (fun _ _ => .text)
      (fun _ up => Settles.yields_inside up)).bind fun found made => ?_
    obtain ⟨tag, fits, lossless, deep⟩ := made
    exact .pure ⟨⟨tag, fits⟩, lossless, (Nat.max_zero room).symm ▸ deep⟩
  settled_ofByte := nofun
  toCbor_arrival r := by
    have fields : toCbor (arrival r.fields) = toCbor r.fields := Settles.toCbor_arrival r.fields
    simp only [toCbor, arrival] at fields ⊢
    rw [fields]

end CoEdit
