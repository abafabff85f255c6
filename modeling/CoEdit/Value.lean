import CoEdit.SortedMap
import CoEdit.Text.Quoted

/-!
# Field values

The values that entity fields hold, and the maps from field names to values.

A value is dynamic: it can hold lists and maps of values to any depth. Written on the wire it loses
its tag, so a list of small numbers and a byte string look alike there; `Value.ofItems` says which
of the two a reader takes.
-/

namespace CoEdit

/-- A value that an entity field can hold. The keys of a map are expected in ascending order. -/
inductive Value where
  | null
  | bool (b : Bool)
  | int (n : Int64)
  | string (s : String)
  | bytes (bs : List UInt8)
  | list (items : List Value)
  | map (entries : List (String × Value))
deriving Inhabited

namespace Value

mutual

def decEq : (v w : Value) → Decidable (v = w)
  | null, null => isTrue rfl
  | bool a, bool b => decidable_of_iff (a = b) (by simp)
  | int a, int b => decidable_of_iff (a = b) (by simp)
  | string a, string b => decidable_of_iff (a = b) (by simp)
  | bytes a, bytes b => decidable_of_iff (a = b) (by simp)
  | list a, list b => @decidable_of_iff _ (a = b) (by simp) (decEqItems a b)
  | map a, map b => @decidable_of_iff _ (a = b) (by simp) (decEqEntries a b)
  | null, bool _ | null, int _ | null, string _ | null, bytes _ | null, list _ | null, map _
  | bool _, null | bool _, int _ | bool _, string _ | bool _, bytes _ | bool _, list _
  | bool _, map _ | int _, null | int _, bool _ | int _, string _ | int _, bytes _
  | int _, list _ | int _, map _ | string _, null | string _, bool _ | string _, int _
  | string _, bytes _ | string _, list _ | string _, map _ | bytes _, null | bytes _, bool _
  | bytes _, int _ | bytes _, string _ | bytes _, list _ | bytes _, map _ | list _, null
  | list _, bool _ | list _, int _ | list _, string _ | list _, bytes _ | list _, map _
  | map _, null | map _, bool _ | map _, int _ | map _, string _ | map _, bytes _
  | map _, list _ => isFalse nofun
termination_by structural v => v

def decEqItems : (vs ws : List Value) → Decidable (vs = ws)
  | [], [] => isTrue rfl
  | [], _ :: _ | _ :: _, [] => isFalse nofun
  | v :: vs, w :: ws =>
    match decEq v w, decEqItems vs ws with
    | isTrue h, isTrue t => isTrue (by rw [h, t])
    | isFalse h, _ => isFalse (by simp [h])
    | _, isFalse t => isFalse (by simp [t])
termination_by structural vs => vs

def decEqEntries : (es fs : List (String × Value)) → Decidable (es = fs)
  | [], [] => isTrue rfl
  | [], _ :: _ | _ :: _, [] => isFalse nofun
  | (k, v) :: es, (l, w) :: fs =>
    if hk : k = l then
      match decEq v w, decEqEntries es fs with
      | isTrue h, isTrue t => isTrue (by rw [hk, h, t])
      | isFalse h, _ => isFalse (by simp [h])
      | _, isFalse t => isFalse (by simp [t])
    else isFalse (by simp [hk])
termination_by structural es => es

end

instance : DecidableEq Value := decEq

/-- The byte that a number between 0 and 255 stands for. -/
def byte? : Value → Option UInt8
  | int n => if 0 ≤ n.toInt ∧ n.toInt < 256 then some (UInt8.ofNat n.toInt.toNat) else none
  | _ => none

/-- What a reader makes of an untagged list: bytes, if every item is one (an empty list counts),
and a list otherwise. -/
def ofItems (items : List Value) : Value :=
  match items.mapM byte? with
  | some bs => bytes bs
  | none => list items

theorem toInt_ofNat_byte (b : UInt8) : (Int64.ofInt b.toNat).toInt = b.toNat := by
  have small := b.toNat_lt
  refine Int64.toInt_ofInt_of_le ?_ ?_ <;> omega

theorem byte?_ofNat (b : UInt8) : (int (Int64.ofInt b.toNat)).byte? = some b := by
  have small := b.toNat_lt
  rw [byte?, toInt_ofNat_byte, if_pos (by omega), Int.toNat_natCast, UInt8.ofNat_toNat]

/-- Only the number of a byte stands for it. -/
theorem eq_of_byte? {v : Value} {b : UInt8} (small : v.byte? = some b) :
    v = int (Int64.ofInt b.toNat) := by
  cases v with
  | int n =>
    simp only [byte?] at small
    split at small
    · rename_i inside
      cases small
      rw [UInt8.toNat_ofNat', Nat.mod_eq_of_lt (by omega), Int.toNat_of_nonneg inside.1,
        Int64.ofInt_toInt]
    · cases small
  | _ => cases small

theorem items_eq_of_mapM {items : List Value} {bs : List UInt8}
    (found : items.mapM byte? = some bs) :
    items = bs.map fun b => int (Int64.ofInt b.toNat) := by
  induction items generalizing bs with
  | nil =>
    cases found
    rfl
  | cons v rest ih =>
    simp only [List.mapM_cons, bind, Option.bind_eq_some_iff] at found
    obtain ⟨b, first, more, others, joined⟩ := found
    cases joined
    rw [List.map_cons, ← eq_of_byte? first, ← ih others]

/-- The numbers that bytes are written as look like bytes. -/
theorem ofItems_bytes (bs : List UInt8) :
    ofItems (bs.map fun b => int (Int64.ofInt b.toNat)) = bytes bs := by
  have all : (bs.map fun b => int (Int64.ofInt b.toNat)).mapM byte? = some bs := by
    induction bs with
    | nil => rfl
    | cons b bs ih => simp [byte?_ofNat, ih]
  rw [ofItems, all]

mutual

/-- The maps inside a value have strictly increasing keys. -/
def WellFormed : Value → Prop
  | list items => WellFormedItems items
  | map entries => Ascending entries ∧ WellFormedEntries entries
  | _ => True

def WellFormedItems : List Value → Prop
  | [] => True
  | v :: rest => v.WellFormed ∧ WellFormedItems rest

def WellFormedEntries : List (String × Value) → Prop
  | [] => True
  | (_, v) :: rest => v.WellFormed ∧ WellFormedEntries rest

end

/-- The short form: strings and collections are not opened up. -/
def brief : Value → String
  | null => "null"
  | bool b => if b then "true" else "false"
  | int n => toString n.toInt
  | string s => Text.quoted '"' s.toList
  | bytes bs => "<" ++ toString bs.length ++ " bytes>"
  | list items => "<list of " ++ toString items.length ++ ">"
  | map entries => "<map of " ++ toString entries.length ++ ">"

mutual

/-- The long form: every part with the name of its kind. -/
def detail : Value → String
  | null => "Null"
  | bool b => "Bool(" ++ (if b then "true" else "false") ++ ")"
  | int n => "Int(" ++ toString n.toInt ++ ")"
  | string s => "String(" ++ Text.quoted '"' s.toList ++ ")"
  | bytes bs => "Bytes([" ++ Text.joined ", " (bs.map fun b => toString b.toNat) ++ "])"
  | list items => "List([" ++ Text.joined ", " (detailItems items) ++ "])"
  | map entries => "Map(\x7b" ++ Text.joined ", " (detailEntries entries) ++ "\x7d)"

def detailItems : List Value → List String
  | [] => []
  | v :: rest => v.detail :: detailItems rest

def detailEntries : List (String × Value) → List String
  | [] => []
  | (k, v) :: rest => (Text.quoted '"' k.toList ++ ": " ++ v.detail) :: detailEntries rest

end

end Value

/-- Field names with values: the fields of an entity, or those an update overwrites. -/
abbrev Fields := SortedMap String Value

def Fields.detail (fields : Fields) : String :=
  "\x7b" ++ Text.joined ", " (Value.detailEntries fields.entries) ++ "\x7d"

end CoEdit
