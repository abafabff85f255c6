import CoEdit.Json.Form
import CoEdit.Proofs.Arrival
import CoEdit.Proofs.Json.Trees
import Mathlib.Data.List.Nodup

/-!
# Forms that are taken back

What a structure, an array or a field value is written as is read as what arrives of it, if there is
room for all levels. A site is read from the text of its number.
-/

namespace CoEdit

namespace Json

variable {room : Nat}

/-! ## Structures and arrays -/

theorem plain_ofString (s : String) : (ofString s).Plain := by
  rintro t (_ | ⟨_, ⟨⟩⟩)
  rfl

theorem plain_null : null.Plain := by
  rintro t (_ | ⟨_, ⟨⟩⟩)
  trivial

theorem plain_integer (n : Int) : (integer n).Plain := by
  rintro t (_ | ⟨_, ⟨⟩⟩)
  trivial

/-- The names of fields always have content, so only their values count. -/
theorem plain_ofFields {fields : List (String × Json)} :
    (ofFields fields).Plain ↔ ∀ f ∈ fields, f.2.Plain := by
  rw [ofFields, plain_object, List.forall_mem_map]
  exact forall₂_congr fun _ _ => and_iff_right rfl

theorem plain_ofVariant {name : String} {body : Json} (plain : body.Plain) :
    (ofVariant name body).Plain :=
  plain_ofFields.mpr (List.forall_mem_singleton.mpr plain)

/-- Room for an array leaves one level less for each of its items. -/
theorem array_inside {items : List Json} (deep : (array items).depth ≤ room) :
    ∃ n, room = n + 1 ∧ ∀ v ∈ items, v.depth ≤ n := by
  cases room with
  | zero => cases deep
  | succ n => exact ⟨n, rfl, depthOfItems_le.mp (Nat.le_of_succ_le_succ deep)⟩

theorem ofFields_inside {fields : List (String × Json)} (deep : (ofFields fields).depth ≤ room) :
    ∃ n, room = n + 1 ∧ ∀ f ∈ fields, f.2.depth ≤ n := by
  cases room with
  | zero => cases deep
  | succ n =>
    refine ⟨n, rfl, ?_⟩
    exact List.forall_mem_map.mp (depthOfMembers_le.mp (Nat.le_of_succ_le_succ deep))

/-- A key stands in an object as often as its name among the fields. -/
theorem keyCount_ofFields (name : String) (fields : List (String × Json)) :
    keyCount name (fields.map fun (key, value) => (some key, value)) =
      (fields.map Prod.fst).count name := by
  induction fields with
  | nil => rfl
  | cons f rest ih =>
    simp only [keyCount] at ih
    simp [keyCount, List.countP_cons, List.count_cons, ih]

/-- Every field is found under its name if the names are different. -/
theorem member?_ofFields {fields : List (String × Json)} (distinct : (fields.map Prod.fst).Nodup)
    {f : String × Json} (inside : f ∈ fields) :
    member? f.1 (fields.map fun (key, value) => (some key, value)) = some f.2 := by
  induction fields with
  | nil => cases inside
  | cons g rest ih =>
    obtain ⟨other, distinct⟩ := List.nodup_cons.mp distinct
    obtain rfl | inside := List.mem_cons.mp inside
    · simp [member?]
    · have differ : g.1 ≠ f.1 := fun same => other (same ▸ List.mem_map_of_mem inside)
      rw [List.map_cons, member?, List.find?_cons_of_neg (by simp [differ])]
      exact ih distinct inside

/-- Fields are found if no two of them have one name. -/
theorem fields?_ofFields {names : List String} {fields : List (String × Json)}
    (named : fields.map Prod.fst = names) (distinct : names.Nodup) :
    fields? names (ofFields fields) = some (fields.map fun f => some f.2) := by
  subst named
  have proper : (fields.map fun (key, value) => (some key, value)).all (·.1.isSome) = true := by
    simp
  have once : (fields.map Prod.fst).all (fun name =>
      keyCount name (fields.map fun (key, value) => (some key, value)) ≤ 1) = true := by
    rw [List.all_eq_true]
    intro name _
    rw [keyCount_ofFields, decide_eq_true_eq]
    exact List.nodup_iff_count_le_one.mp distinct name
  simp only [ofFields, fields?, proper, once, Bool.and_self, if_true, List.map_map,
    Option.some.injEq]
  exact List.map_congr_left fun f inside => member?_ofFields distinct inside

/-- A structure is read from its fields in order. -/
theorem enter_ofFields {β : Type} (names : List String) {fields : List (String × Json)}
    {body : Nat → List (Option Json) → Option β} (named : fields.map Prod.fst = names)
    (distinct : names.Nodup) :
    enter (room + 1) (fun room => fields? names (ofFields fields) >>= body room) =
      body room (fields.map fun f => some f.2) := by
  rw [enter, fields?_ofFields named distinct]
  rfl

theorem mapM_map {β γ : Type} {form : β → Json} {item : Json → Option γ} {make : β → γ}
    {bs : List β} (each : ∀ b ∈ bs, item (form b) = some (make b)) :
    (bs.map form).mapM item = some (bs.map make) := by
  induction bs with
  | nil => rfl
  | cons b bs ih =>
    obtain ⟨first, others⟩ := List.forall_mem_cons.mp each
    simp [first, ih others]

/-- An array is read item by item. -/
theorem items?_map {β γ : Type} {form : β → Json} (item : Nat → Json → Option γ)
    (make : β → γ) {bs : List β} (deep : (array (bs.map form)).depth ≤ room)
    (each : ∀ b ∈ bs, ∀ {n}, (form b).depth ≤ n → item n (form b) = some (make b)) :
    items? room item (array (bs.map form)) = some (bs.map make) := by
  obtain ⟨n, rfl, inside⟩ := array_inside deep
  exact mapM_map fun b here => each b here (inside _ (List.mem_map_of_mem here))

theorem variant?_ofVariant (name : String) (body : Json) :
    variant? (room + 1) (ofVariant name body) = some (name, some (room, body)) := rfl

theorem word?_integer {n : Nat} (fits : n < Word.count) : word? (integer n) = some n :=
  Word.unsigned?_of_lt fits

theorem string?_ofString (s : String) : string? (ofString s) = some s := rfl

end Json

/-! ## Sites -/

namespace SiteId

open Text

/-- The hyphens are found where they were put in, behind as many digits. -/
theorem unhyphenate?_hyphenate (sizes : List Nat) (cs : List Char)
    (enough : sizes.foldr (· + ·) 0 ≤ cs.length) :
    unhyphenate? sizes (hyphenate sizes cs) = some cs := by
  fun_induction hyphenate sizes cs with
  | case1 n m sizes cs ih =>
    rw [List.foldr_cons] at enough
    have length : (cs.take n).length = n := List.length_take_of_le (by omega)
    have others := ih (by rw [List.length_drop]; omega)
    rw [unhyphenate?, List.drop_left' length, List.take_left' length]
    simp only [others, Option.map_some, List.take_append_drop]
  | case2 sizes cs short =>
    unfold unhyphenate?
    split
    · cases short _ _ _ rfl
    · rfl

/-- There is a hyphen between any two groups. -/
theorem length_hyphenate (sizes : List Nat) (cs : List Char)
    (enough : sizes.foldr (· + ·) 0 ≤ cs.length) :
    (hyphenate sizes cs).length = cs.length + (sizes.length - 1) := by
  fun_induction hyphenate sizes cs with
  | case1 n m sizes cs ih =>
    rw [List.foldr_cons] at enough
    have others := ih (by rw [List.length_drop]; omega)
    rw [List.length_append, List.length_cons, others, List.length_take_of_le (by omega),
      List.length_drop]
    simp only [List.length_cons]
    omega
  | case2 sizes cs short =>
    match sizes with
    | [] | [_] => rfl
    | _ :: _ :: _ => cases short _ _ _ rfl

theorem hexDigits_eq_cons (count n : Nat) : ∃ k ds, hexDigits (count + 1) n = hexDigit k :: ds := by
  induction count generalizing n with
  | zero => exact ⟨n, [], rfl⟩
  | succ count ih =>
    obtain ⟨k, ds, first⟩ := ih (n / 16)
    exact ⟨k, ds ++ [hexDigit n], by rw [hexDigits, first, List.cons_append]⟩

theorem ofDigits?_digits (s : SiteId) : ofDigits? s.digits = some s := by
  have small := s.bits.isLt
  rw [ofDigits?, digits, length_hexDigits, if_pos rfl, hexNumber?_hexDigits,
    Nat.mod_eq_of_lt (by simpa using small), Option.map_some, ofNat, BitVec.ofNat_toNat,
    BitVec.setWidth_eq]

/-- No digit opens a brace or starts the name of a space. -/
theorem hexDigit_ne (n : Nat) : hexDigit n ≠ '\x7b' ∧ (hexDigit n).toLower ≠ 'u' := by
  have digits : ∀ d : Fin 16, Nat.digitChar d.val ≠ '\x7b' ∧
      (Nat.digitChar d.val).toLower ≠ 'u' := by decide
  exact digits ⟨n % 16, Nat.mod_lt n (by decide)⟩

/-- The text of a site is read in its hyphenated form: by its length and its first character it is
none of the others. -/
theorem ofText?_text (s : SiteId) : ofText? s.text = some s := by
  have length : s.digits.length = 32 := length_hexDigits ..
  have enough : groups.foldr (· + ·) 0 ≤ s.digits.length := Nat.le_of_eq length.symm
  have hyphenated : ofHyphenated? (hyphenate groups s.digits) = some s := by
    rw [ofHyphenated?, unhyphenate?_hyphenate _ _ enough, Option.bind_some, ofDigits?_digits]
  have longer : (hyphenate groups s.digits).length ≠ 32 := by
    rw [length_hyphenate _ _ enough, length]
    decide
  obtain ⟨k, ds, first⟩ := hexDigits_eq_cons 31 s.bits.toNat
  obtain ⟨tail, starts⟩ : ∃ tail, hyphenate groups s.digits = hexDigit k :: tail :=
    ⟨_, by rw [digits, first]; rfl⟩
  rw [text, ofText?, String.toList_ofList]
  split
  · rename_i brace
    rw [starts] at brace
    exact absurd (List.cons.inj brace).1 (hexDigit_ne k).1
  · have unnamed : ((hyphenate groups s.digits).take nameSpace.length).map Char.toLower ≠
        nameSpace.toList := by
      rw [starts]
      exact fun same => (hexDigit_ne k).2 (List.cons.inj same).1
    simp only [if_neg unnamed, if_neg longer, hyphenated]

end SiteId

/-! ## Field values -/

namespace Value

open Json (plain_array plain_integer plain_object)

mutual

theorem plain : (v : Value) → v.toJson.Plain
  | null | bool _ | int _ | string _ => by
    rintro t (_ | ⟨_, ⟨⟩⟩)
    trivial
  | bytes bs => plain_array.mpr (List.forall_mem_map.mpr fun b _ => plain_integer _)
  | list items => plain_array.mpr (plainItems items)
  | map entries => plain_object.mpr (plainMembers entries)

theorem plainItems : (items : List Value) → ∀ v ∈ toJsonItems items, v.Plain
  | [] => nofun
  | v :: rest => List.forall_mem_cons.mpr ⟨plain v, plainItems rest⟩

theorem plainMembers : (entries : List (String × Value)) →
    ∀ m ∈ toJsonMembers entries, m.1.isSome ∧ m.2.Plain
  | [] => nofun
  | (_, v) :: rest => List.forall_mem_cons.mpr ⟨⟨rfl, plain v⟩, plainMembers rest⟩

end

/-- The numbers of bytes are written as the bytes are. -/
theorem toJsonItems_numbers (bs : List UInt8) :
    toJsonItems (bs.map fun b => int (Int64.ofInt b.toNat)) = bs.map fun b => .integer b.toNat := by
  induction bs with
  | nil => rfl
  | cons b bs ih => rw [List.map_cons, toJsonItems, toJson, toInt_ofNat_byte, ih, List.map_cons]

/-- Items that are all bytes become a byte string, which is written as the items are. -/
theorem toJson_ofItems (items : List Value) :
    (ofItems items).toJson = .array (toJsonItems items) := by
  rw [ofItems]
  split
  · rename_i bs found
    rw [items_eq_of_mapM found, toJson, toJsonItems_numbers]
  · rfl

mutual

theorem toJson_arrival : (v : Value) → v.arrival.toJson = v.toJson
  | null | bool _ | int _ | string _ | bytes _ => rfl
  | list items => by rw [arrival, toJson_ofItems, toJsonItems_arrival items, toJson]
  | map entries => by rw [arrival, toJson, toJsonMembers_arrival entries, toJson]

theorem toJsonItems_arrival : (items : List Value) →
    toJsonItems (arrivalItems items) = toJsonItems items
  | [] => rfl
  | v :: rest => by
    rw [arrivalItems, toJsonItems, toJson_arrival v, toJsonItems_arrival rest, toJsonItems]

theorem toJsonMembers_arrival : (entries : List (String × Value)) →
    toJsonMembers (arrivalEntries entries) = toJsonMembers entries
  | [] => rfl
  | (key, v) :: rest => by
    rw [arrivalEntries, toJsonMembers, toJson_arrival v, toJsonMembers_arrival rest, toJsonMembers]

end

theorem ofJson?_integer (n : Int64) (room : Nat) :
    ofJson? room (.integer n.toInt) = some (int n) := by
  change (Word.signed? n.toInt).map int = _
  rw [Word.signed?_toInt, Option.map_some]

theorem ofJsonItems?_numbers (bs : List UInt8) (room : Nat) :
    ofJsonItems? room (bs.map fun b => .integer b.toNat) =
      some (bs.map fun b => int (Int64.ofInt b.toNat)) := by
  induction bs with
  | nil => rfl
  | cons b bs ih =>
    have first := ofJson?_integer (Int64.ofInt b.toNat) room
    rw [toInt_ofNat_byte] at first
    rw [List.map_cons, ofJsonItems?, first, ih]
    rfl

mutual

theorem ofJson?_toJson : (v : Value) → v.WellFormed → ∀ {room}, v.toJson.depth ≤ room →
    ofJson? room v.toJson = some v.arrival
  | null, _, _, _ | bool _, _, _, _ | string _, _, _, _ => rfl
  | int n, _, room, _ => ofJson?_integer n room
  | bytes bs, _, room + 1, deep => by
    have numbers := ofJsonItems?_numbers bs room
    rw [toJson, ofJson?, Json.enter, numbers, Option.map_some, ofItems_bytes, arrival]
  | list items, wf, room + 1, deep => by
    have inside := ofJsonItems?_toJson items wf (Nat.le_of_succ_le_succ deep)
    rw [toJson, ofJson?, Json.enter, inside, Option.map_some, arrival]
  | map entries, wf, room + 1, deep => by
    have inside := ofJsonMembers?_toJson entries wf.2 (Nat.le_of_succ_le_succ deep)
    have ordered := Entries.ascending_map (fun _ v => v.arrival) wf.1
    rw [← arrivalEntries_eq] at ordered
    rw [toJson, ofJson?, Json.enter, inside, Option.map_some, Entries.sort_of_ascending ordered,
      arrival]

theorem ofJsonItems?_toJson : (items : List Value) → WellFormedItems items → ∀ {room},
    Json.depthOfItems (toJsonItems items) ≤ room →
    ofJsonItems? room (toJsonItems items) = some (arrivalItems items)
  | [], _, _, _ => rfl
  | v :: rest, wf, _, deep => by
    obtain ⟨first, others⟩ := Nat.max_le.mp deep
    rw [toJsonItems, ofJsonItems?, ofJson?_toJson v wf.1 first,
      ofJsonItems?_toJson rest wf.2 others]
    rfl

theorem ofJsonMembers?_toJson : (entries : List (String × Value)) → WellFormedEntries entries →
    ∀ {room}, Json.depthOfMembers (toJsonMembers entries) ≤ room →
    ofJsonMembers? room (toJsonMembers entries) = some (arrivalEntries entries)
  | [], _, _, _ => rfl
  | (key, v) :: rest, wf, _, deep => by
    obtain ⟨first, others⟩ := Nat.max_le.mp deep
    rw [toJsonMembers, ofJsonMembers?, ofJson?_toJson v wf.1 first,
      ofJsonMembers?_toJson rest wf.2 others]
    rfl

end

end Value

end CoEdit
