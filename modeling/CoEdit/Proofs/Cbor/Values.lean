import CoEdit.Proofs.Arrival
import CoEdit.Proofs.Cbor.Forms
import Mathlib.Data.List.Forall2

/-!
# Values that are taken back

A value is written without its kind, and its reader tells the kind from the form alone. So what is
taken back is what arrives of the value: bytes for a list of small numbers, the value itself where
no such list is inside. The reader needs as many levels as the value has.
-/

namespace CoEdit.Value

open Cbor Reader

mutual

/-- The lengths of strings, lists and maps inside a value are words. -/
def Sized : Value → Prop
  | string s => (utf8 s).length < Word.count
  | bytes bs => bs.length < Word.count
  | list items => items.length < Word.count ∧ SizedItems items
  | map entries => entries.length < Word.count ∧ SizedEntries entries
  | _ => True

/-- The lengths inside the items of a list are words. -/
def SizedItems : List Value → Prop
  | [] => True
  | v :: rest => v.Sized ∧ SizedItems rest

/-- The lengths inside the entries of a map are words. -/
def SizedEntries : List (String × Value) → Prop
  | [] => True
  | (key, v) :: rest => (utf8 key).length < Word.count ∧ v.Sized ∧ SizedEntries rest

end

mutual

/-- How deep arrays and maps stand in each other where a value is written. -/
def levels : Value → Nat
  | bytes _ => 1
  | list items => levelsItems items + 1
  | map entries => levelsEntries entries + 1
  | _ => 0

/-- How deep they stand in the items of a list. -/
def levelsItems : List Value → Nat
  | [] => 0
  | v :: rest => max v.levels (levelsItems rest)

/-- How deep they stand in the entries of a map. -/
def levelsEntries : List (String × Value) → Nat
  | [] => 0
  | (_, v) :: rest => max v.levels (levelsEntries rest)

end

theorem toCborItems_length (items : List Value) : (toCborItems items).length = items.length := by
  induction items with
  | nil => rfl
  | cons v rest ih => rw [toCborItems, List.length_cons, ih, List.length_cons]

theorem toCborEntries_length (entries : List (String × Value)) :
    (toCborEntries entries).length = entries.length := by
  induction entries with
  | nil => rfl
  | cons entry rest ih => rw [toCborEntries, List.length_cons, ih, List.length_cons]

/-! ## Reading -/

section Bodies

variable {room : Nat} {h : Head} {more : List UInt8} {v : Value}

theorem reads_of_body (fits : h.Fits) (behind : ∀ inside, Reads (readBody inside h) more v) :
    Reads (readCbor room) (h.write ++ more) v := by
  cases room <;> exact (Reads.head fits).bind (behind _)

theorem reads_of_head (fits : h.Fits) (behind : ∀ inside, Reads (readBody inside h) [] v) :
    Reads (readCbor room) h.write v := by
  cases room <;> exact (Reads.head fits).bind_pure (behind _)

end Bodies

theorem int_reads (n : Int64) (room : Nat) : Reads (readCbor room) (writeInt n.toInt) (int n) := by
  have low := n.le_toInt
  have high := n.toInt_lt
  -- The head gives the number without its sign; what is put together again is the number itself.
  have value : ofInt? n.toInt = some (int n) := by
    rw [ofInt?, Word.signed?_toInt]
    rfl
  cases number : n.toInt with
  | ofNat m =>
    rw [number] at value high
    have fits : (Head.positive m).Fits := by
      have below : (m : Int) < 2 ^ 63 := high
      change m < Word.count
      simp only [Word.count]
      omega
    exact reads_of_head fits fun _ => .lift value
  | negSucc m =>
    rw [number] at value low
    have fits : (Head.negative m).Fits := by
      change m < Word.count
      simp only [Word.count]
      omega
    have signed : sign true m = Int.negSucc m := by
      simp only [sign, if_true]
      omega
    exact reads_of_head fits fun _ => .lift (signed ▸ value)

/-- An array is a list that looks like bytes or not. -/
theorem array_reads {pieces : List (List UInt8)} {items : List Value} {room : Nat}
    (sized : pieces.length < Word.count)
    (each : List.Forall₂ (Reads (readCbor room)) pieces items) :
    Reads (readCbor (room + 1)) (writeArray pieces) (ofItems items) :=
  (Reads.head (h := .array (some pieces.length)) ⟨_, sized, rfl⟩).bind
    ((Reads.items each).map ofItems)

theorem bytes_read (bs : List UInt8) (sized : bs.length < Word.count) (room : Nat) :
    Reads (readCbor (room + 1)) (bytes bs).toCbor (bytes bs) := by
  have each : List.Forall₂ (Reads (readCbor room)) (bs.map fun b => writeInt b.toNat)
      (bs.map fun b => int (Int64.ofInt b.toNat)) := by
    rw [List.forall₂_map_left_iff, List.forall₂_map_right_iff, List.forall₂_same]
    intro b _
    have read := int_reads (Int64.ofInt b.toNat) room
    rwa [toInt_ofNat_byte] at read
  have read := array_reads (by rwa [List.length_map]) each
  rwa [ofItems_bytes] at read

theorem textual_reads {s : String} (sized : (utf8 s).length < Word.count) :
    Reads (do textual (← head)) (writeText s) s :=
  (Reads.head (h := .text (some (utf8 s).length)) ⟨_, sized, rfl⟩).bind (Reads.textBody s)

theorem map_reads {written : List (String × List UInt8)} {entries : List (String × Value)}
    {room : Nat} (sized : written.length < Word.count) (ordered : Ascending entries)
    (each : List.Forall₂ (Reads (readEntry (do textual (← head)) (readCbor room)))
      (written.map fun entry => writeText entry.1 ++ entry.2) entries) :
    Reads (readCbor (room + 1)) (writeMap written) (map entries) := by
  refine (Reads.head (h := .map (some written.length)) ⟨_, sized, rfl⟩).bind ?_
  refine (Reads.entries each).bind_pure ?_
  rw [Entries.sort_of_ascending ordered]
  exact .pure _

-- By recursion on the value: an array or a map takes one level, and its parts find what is left.
mutual

/-- Every value is taken back as what arrives of it, if there is room. -/
theorem reads : (v : Value) → v.WellFormed → v.Sized → ∀ {room}, v.levels ≤ room →
    Reads (readCbor room) v.toCbor v.arrival
  | null, _, _, _, _ => reads_of_head (h := .simple 22) (by decide : 22 < 24) fun _ => .pure _
  | bool b, _, _, _, _ => by
    cases b with
    | false => exact reads_of_head (h := .simple 20) (by decide : 20 < 24) fun _ => .pure _
    | true => exact reads_of_head (h := .simple 21) (by decide : 21 < 24) fun _ => .pure _
  | int n, _, _, room, _ => int_reads n room
  | string s, _, sized, _, _ =>
    reads_of_body (h := .text (some (utf8 s).length)) ⟨_, sized, rfl⟩ fun _ =>
      (Reads.textBody s).map string
  | bytes bs, _, sized, room + 1, _ => bytes_read bs sized room
  | list items, wf, sized, room + 1, deep =>
    array_reads (by rw [toCborItems_length]; exact sized.1)
      (items_read items wf sized.2 (Nat.le_of_succ_le_succ deep))
  | map entries, wf, sized, room + 1, deep => by
    have ordered := Entries.ascending_map (fun _ v => v.arrival) wf.1
    rw [← arrivalEntries_eq] at ordered
    exact map_reads (by rw [toCborEntries_length]; exact sized.1) ordered
      (entries_read textual_reads entries wf.2 sized.2 (Nat.le_of_succ_le_succ deep))

/-- Every item of a list is taken back. -/
theorem items_read : (items : List Value) → WellFormedItems items → SizedItems items →
    ∀ {room}, levelsItems items ≤ room →
    List.Forall₂ (Reads (readCbor room)) (toCborItems items) (arrivalItems items)
  | [], _, _, _, _ => .nil
  | v :: rest, wf, sized, _, deep =>
    .cons (reads v wf.1 sized.1 (Nat.le_trans (Nat.le_max_left ..) deep))
      (items_read rest wf.2 sized.2 (Nat.le_trans (Nat.le_max_right ..) deep))

/-- Every entry of a map is taken back, if keys are. -/
theorem entries_read {key : Reader String}
    (keys : ∀ {s : String}, (utf8 s).length < Word.count → Reads key (writeText s) s) :
    (entries : List (String × Value)) → WellFormedEntries entries →
    SizedEntries entries → ∀ {room}, levelsEntries entries ≤ room →
    List.Forall₂ (Reads (readEntry key (readCbor room)))
      ((toCborEntries entries).map fun entry => writeText entry.1 ++ entry.2)
      (arrivalEntries entries)
  | [], _, _, _, _ => .nil
  | (_, v) :: rest, wf, sized, _, deep =>
    .cons ((keys sized.1).bind
        ((reads v wf.1 sized.2.1 (Nat.le_trans (Nat.le_max_left ..) deep)).bind_pure (.pure _)))
      (entries_read keys rest wf.2 sized.2.2 (Nat.le_trans (Nat.le_max_right ..) deep))

end

end CoEdit.Value
