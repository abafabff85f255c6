import CoEdit.Cbor.Head

/-!
# CBOR numbers and strings

The leaves of an item. A string may come in segments, and each segment of a text is encoded text of
its own.
-/

namespace CoEdit.Cbor

def utf8 (s : String) : List UInt8 := s.toByteArray.data.toList

def ofUtf8? (bs : List UInt8) : Option String := String.fromUTF8? ⟨bs.toArray⟩

theorem ofUtf8?_utf8 (s : String) : ofUtf8? (utf8 s) = some s := by
  simp only [ofUtf8?, utf8, Array.toArray_toList]
  exact dif_pos s.isValidUTF8

/-! ## Writing -/

def writeInt (n : Int) : List UInt8 :=
  match n with
  | .ofNat n => Head.write (.positive n)
  | .negSucc n => Head.write (.negative n)

def writeText (s : String) : List UInt8 :=
  Head.write (.text (some (utf8 s).length)) ++ utf8 s

def writeBytes (bs : List UInt8) : List UInt8 := Head.write (.bytes (some bs.length)) ++ bs

def writeNull : List UInt8 := Head.write (.simple 22)

def writeBool (b : Bool) : List UInt8 := Head.write (.simple (if b then 21 else 20))

def writeArray (items : List (List UInt8)) : List UInt8 :=
  Head.write (.array (some items.length)) ++ items.flatten

/-- A map from texts to items that are already written. -/
def writeMap (entries : List (String × List UInt8)) : List UInt8 :=
  Head.write (.map (some entries.length))
    ++ entries.flatMap fun (key, item) => writeText key ++ item

/-! ## Reading -/

namespace Reader

/-- A number with a sign. -/
def sign (negative : Bool) (n : Nat) : Int := if negative then -1 - (n : Int) else n

/-- Takes the segments of a string behind its head. Strings in segments may stand in each other;
`depth` of them are open. -/
def segmentsWithin (segment? : Head → Option (Option Nat)) :
    Nat → Nat → Reader (List (List UInt8))
  | 0, _ => failure
  | fuel + 1, depth => do
    let h ← head
    if h = .stop then
      if depth ≤ 1 then return [] else segmentsWithin segment? fuel (depth - 1)
    else
      match segment? h with
      | some (some n) => return (← take n) :: (← segmentsWithin segment? fuel depth)
      | some none => segmentsWithin segment? fuel (depth + 1)
      | none => failure

/-- Takes the segments of a string whose head gave this length. -/
def segments (segment? : Head → Option (Option Nat)) : Option Nat → Reader (List (List UInt8))
  | some n => do return [← take n]
  | none => fun bs => segmentsWithin segment? (bs.length + 1) 1 bs

def bytesBody (length : Option Nat) : Reader (List UInt8) := do
  let isSegment : Head → Option (Option Nat)
    | .bytes length => some length
    | _ => none
  return (← segments isSegment length).flatten

def textBody (length : Option Nat) : Reader String := do
  let isSegment : Head → Option (Option Nat)
    | .text length => some length
    | _ => none
  match (← segments isSegment length).mapM ofUtf8? with
  | some parts => return String.join parts
  | none => failure

def text : Reader String := do
  match ← bareHead with
  | .text length => textBody length
  | _ => failure

/-- The most bytes that a short string has. -/
def shortLimit : Nat := 4096

/-- Takes a string of at most `limit` bytes as what they are converted to. The head must give its
length, and `length?` tells it for the kind of string that is wanted. -/
def shortString {β : Type} (length? : Head → Option Nat) (limit : Nat)
    (convert? : List UInt8 → Option β) : Reader β := do
  match length? (← bareHead) with
  | some n =>
    if n ≤ limit then do
      match convert? (← take n) with
      | some b => return b
      | none => failure
    else failure
  | none => failure

/-- Takes a name: a short text, or short bytes in place of one. -/
def name : Reader (List UInt8) := do
  match ← bareHead with
  | .text (some n) =>
    if n ≤ shortLimit then do
      let bs ← take n
      if (ofUtf8? bs).isSome then return bs else failure
    else failure
  | .bytes (some n) => if n ≤ shortLimit then take n else failure
  | _ => failure

/-- The tag of a byte string that holds a large positive number. -/
def bigPositive : Nat := 2

/-- The tag of a byte string that holds a large negative number. -/
def bigNegative : Nat := 3

/-- Takes a byte string that holds a number of at most 16 bytes. -/
def bigNumber : Reader Nat := do
  match ← head with
  | .bytes length =>
    let digits := (← bytesBody length).dropWhile (· = 0)
    if digits.length ≤ 16 then return Word.ofBytes digits else failure
  | _ => failure

def integer : Reader Int := do
  skipTags fun n => n = bigPositive || n = bigNegative
  match ← head with
  | .positive n => return sign false n
  | .negative n => return sign true n
  | .tag n => return sign (n = bigNegative) (← bigNumber)
  | _ => failure

def word : Reader Nat := do
  match Word.unsigned? (← integer) with
  | some n => return n
  | none => failure

def signedWord : Reader Int64 := do
  match Word.signed? (← integer) with
  | some n => return n
  | none => failure

end Reader

end CoEdit.Cbor
