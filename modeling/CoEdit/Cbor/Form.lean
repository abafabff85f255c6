import CoEdit.Cbor.Text
import CoEdit.Identity
import CoEdit.Value

/-!
# CBOR forms

A type with a form is written to bytes and read from them. A structure is a map of its fields by
name, read in any order; members that it does not know are passed over. A variant that carries data
is a map with one entry, and a bare one is its name; the data may also be an array of its fields.

Reading takes the number of levels of arrays, maps and variants that may still be entered. In what
is passed over a tag is a level too.
-/

namespace CoEdit

class CborForm (α : Type) where
  toCbor : α → List UInt8
  /-- takes an item of which at most `room` levels are entered -/
  read (room : Nat) : Cbor.Reader α
  /-- what a byte stands for where a byte string takes the place of an array -/
  ofByte? (b : UInt8) : Option α

namespace Cbor.Reader

/-- How many levels may be open at once. -/
def maxDepth : Nat := 256

def enter {β : Type} (room : Nat) (inside : Nat → Reader β) : Reader β :=
  match room with
  | 0 => failure
  | room + 1 => inside room

/-! ## Items that are passed over -/

/-- Takes the number that a tag makes of a short byte string behind it, if it does. -/
def shortNumber? (tag : Nat) : Reader (Option Int) := do
  match ← ahead head with
  | .bytes (some length) =>
    if (tag = bigPositive ∨ tag = bigNegative) ∧ length ≤ 16 then do
      let _ ← head
      return some (sign (tag = bigNegative) (Word.ofBytes (← take length)))
    else return none
  | _ => return none

def leastNumber : Int := -0x80000000000000000000000000000000

/-- Passes over what stands behind the head of an item; `inside` passes over an item one level down,
if there is room for it. A tag is a level, unless it is a part of a number. -/
def skipBody (inside : Option (Reader Unit)) (h : Head) : Reader Unit :=
  match h, inside with
  | .positive _, _ | .negative _, _ | .float, _ => return ()
  | .bytes length, _ => do let _ ← bytesBody length
  | .text length, _ => do let _ ← textBody length
  | .array length, some item => repeated (fun _ => item) length ()
  | .map length, some item => repeated (fun _ => do item; item) length ()
  | .tag n, inside => do
    match ← shortNumber? n, inside with
    | some v, _ => if leastNumber ≤ v then return () else failure
    | none, some item => item
    | none, none => failure
  | .simple n, _ => if 20 ≤ n ∧ n ≤ 23 then return () else failure
  | _, _ => failure

def skip : (room : Nat) → Reader Unit
  | 0 => do skipBody none (← head)
  | room + 1 => do skipBody (some (skip room)) (← head)

/-! ## Structures -/

/-- A field of a structure: its name, and how its value goes into what was read so far. -/
structure Field (σ : Type) where
  name : String
  read : σ → Reader σ

/-- A field that must not repeat. -/
def Field.once {σ β : Type} (name : String) (present : σ → Option β) (put : σ → β → σ)
    (value : Reader β) : Field σ where
  name
  read s := if (present s).isSome then failure else do return put s (← value)

def byName {σ : Type} (room : Nat) (known : List (Field σ)) : Option Nat → σ → Reader σ :=
  repeated fun s => do
    let key ← name
    match known.find? fun f => utf8 f.name = key with
    | some f => f.read s
    | none => do skip room; return s

/-- Takes the first items of an array as the fields; what stands behind them is left alone. -/
def inOrder {σ : Type} : List (Field σ) → Option Nat → σ → Reader σ
  | [], _, s => return s
  | _ :: _, some 0, _ => failure
  | f :: rest, length, s => do inOrder rest (length.map (· - 1)) (← f.read s)

/-- How the fields of a structure stand in an item. -/
inductive Layout where
  /-- in a map by name, with any tags in front -/
  | named
  /-- as the data of a variant: in a map by name or an array in order, without tags -/
  | carried

def Layout.head : Layout → Reader Head
  | named => bareHead
  | carried => Reader.head

def fields {σ : Type} (layout : Layout) (room : Nat) (start : σ)
    (known : Nat → List (Field σ)) : Reader σ := do
  match layout, ← layout.head with
  | _, .map length => enter room fun room => byName room (known room) length start
  | .carried, .array length => enter room fun room => inOrder (known room) length start
  | _, _ => failure

def structure1 {β : Type} (layout : Layout) (room : Nat) (first : String × (Nat → Reader β)) :
    Reader β := do
  let found ← fields layout room none fun room =>
    [.once first.1 id (fun _ v => some v) (first.2 room)]
  match found with
  | some a => return a
  | none => failure

def structure2? {β γ : Type} (layout : Layout) (room : Nat)
    (first : String × (Nat → Reader β)) (second : String × (Nat → Reader γ)) :
    Reader (Option β × Option γ) :=
  fields layout room (none, none) fun room =>
    [.once first.1 Prod.fst (fun s v => (some v, s.2)) (first.2 room),
     .once second.1 Prod.snd (fun s v => (s.1, some v)) (second.2 room)]

def structure2 {β γ : Type} (layout : Layout) (room : Nat)
    (first : String × (Nat → Reader β)) (second : String × (Nat → Reader γ)) :
    Reader (β × γ) := do
  match ← structure2? layout room first second with
  | (some a, some b) => return (a, b)
  | _ => failure

def structure3 {β γ δ : Type} (layout : Layout) (room : Nat)
    (first : String × (Nat → Reader β)) (second : String × (Nat → Reader γ))
    (third : String × (Nat → Reader δ)) : Reader (β × γ × δ) := do
  let found ← fields layout room (none, none, none) fun room =>
    [.once first.1 Prod.fst (fun s v => (some v, s.2)) (first.2 room),
     .once second.1 (·.2.1) (fun s v => (s.1, some v, s.2.2)) (second.2 room),
     .once third.1 (·.2.2) (fun s v => (s.1, s.2.1, some v)) (third.2 room)]
  match found with
  | (some a, some b, some c) => return (a, b, c)
  | _ => failure

/-! ## Variants and sequences -/

/-- Takes the name of a variant and goes on behind it, one level down. -/
def variant {β : Type} (room : Nat) (body : Nat → List UInt8 → Reader β) : Reader β := do
  skipTags fun _ => false
  match ← ahead head with
  | .map (some 1) => do let _ ← head
  | .text _ => pure ()
  | _ => failure
  enter room fun room => do body room (← name)

/-- Takes a sequence: an array, or a byte string of which every byte stands for an item. -/
def sequence {β : Type} (room : Nat) (item : Nat → Reader β) (ofByte? : UInt8 → Option β) :
    Reader (List β) := do
  match ← bareHead with
  | .array length => enter room fun room => items (item room) length
  | .bytes length =>
    match (← bytesBody length).mapM ofByte? with
    | some vs => return vs
    | none => failure
  | _ => failure

def nullable {β : Type} (value : Reader β) : Reader (Option β) := do
  match ← ahead head with
  | .simple 22 | .simple 23 => do let _ ← head; return none
  | _ => some <$> value

end Cbor.Reader

namespace CborForm

open Cbor Reader

def writeList {α : Type} [CborForm α] (vs : List α) : List UInt8 := writeArray (vs.map toCbor)

def readList {α : Type} [CborForm α] (room : Nat) : Reader (List α) :=
  sequence room read ofByte?

def charOfUtf8? (bs : List UInt8) : Option Char :=
  match (ofUtf8? bs).map String.toList with
  | some [c] => some c
  | _ => none

/-- A character is a text of at most four bytes. -/
def readChar : Reader Char := shortString Head.textLength? 4 charOfUtf8?

instance : CborForm Char where
  toCbor c := writeText (String.singleton c)
  read _ := readChar
  ofByte? _ := none

instance : CborForm String where
  toCbor := writeText
  read _ := text
  ofByte? _ := none

instance : CborForm Int64 where
  toCbor n := writeInt n.toInt
  read _ := signedWord
  ofByte? b := some (Int64.ofInt b.toNat)

/-- A site is its 16 bytes. -/
def readSite : Reader SiteId := shortString Head.bytesLength? shortLimit SiteId.ofBytes?

instance : CborForm SiteId where
  toCbor s := writeBytes s.bytes
  read _ := readSite
  ofByte? _ := none

end CborForm

/-! ## Field values -/

namespace Value

open Cbor Reader

mutual

/-- Values are written without their kind; bytes as an array of numbers. -/
def toCbor : Value → List UInt8
  | null => writeNull
  | bool b => writeBool b
  | int n => writeInt n.toInt
  | string s => writeText s
  | bytes bs => writeArray (bs.map fun b => writeInt b.toNat)
  | list items => writeArray (toCborItems items)
  | map entries => writeMap (toCborEntries entries)

def toCborItems : List Value → List (List UInt8)
  | [] => []
  | v :: rest => v.toCbor :: toCborItems rest

def toCborEntries : List (String × Value) → List (String × List UInt8)
  | [] => []
  | (key, v) :: rest => (key, v.toCbor) :: toCborEntries rest

end

def ofInt? (n : Int) : Option Value := (Word.signed? n).map int

/-- Takes a text behind its head; bytes that encode one will do. -/
def textual : Head → Reader String
  | .text length => textBody length
  | .bytes length => do
    match ofUtf8? (← bytesBody length) with
    | some s => return s
    | none => failure
  | _ => failure

def readEntry (key : Reader String) (value : Reader Value) : Reader (String × Value) := do
  let k ← key
  return (k, ← value)

def readBody (inside : Option (Reader Value)) (h : Head) : Reader Value :=
  match h, inside with
  | .positive n, _ => (ofInt? (sign false n) : Option Value)
  | .negative n, _ => (ofInt? (sign true n) : Option Value)
  | .bytes _, _ | .text _, _ => string <$> textual h
  | .array length, some value => ofItems <$> items value length
  | .map length, some value => do
    let key : Reader String := do textual (← head)
    return map (Entries.sort (← items (readEntry key value) length))
  | .simple 20, _ => return bool false
  | .simple 21, _ => return bool true
  | .simple 22, _ | .simple 23, _ => return null
  | _, _ => failure

/-- Takes a value; its kind is found from its form alone. -/
def readCbor : (room : Nat) → Reader Value
  | 0 => do readBody none (← head)
  | room + 1 => do readBody (some (readCbor room)) (← head)

instance : CborForm Value where
  toCbor := toCbor
  read := readCbor
  ofByte? b := some (int (Int64.ofInt b.toNat))

/-- Takes a map from texts to values; of repeated keys the last one counts. -/
def readFields (room : Nat) : Reader Fields := do
  match ← bareHead with
  | .map length =>
    enter room fun room => do
      return .ofList (← items (readEntry text (readCbor room)) length)
  | _ => failure

end Value

instance : CborForm Fields where
  toCbor fields := Cbor.writeMap (Value.toCborEntries fields.entries)
  read := Value.readFields
  ofByte? _ := none

end CoEdit
