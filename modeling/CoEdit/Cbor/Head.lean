import CoEdit.Word

/-!
# CBOR heads

An item starts with a head: a major type and a number, which is a value, a length or a tag. Numbers
are written in the shortest form and read in any.
-/

namespace CoEdit.Cbor

/-- The start of an item. Lengths of strings, arrays and maps are absent if a stop ends them. -/
inductive Head where
  | positive (n : Nat)
  | negative (n : Nat)
  | bytes (length : Option Nat)
  | text (length : Option Nat)
  | array (length : Option Nat)
  | map (length : Option Nat)
  | tag (n : Nat)
  | simple (n : Nat)
  /-- a floating-point number; no type here has one, so its value is not kept -/
  | float
  | stop
deriving DecidableEq

def Head.bytesLength? : Head → Option Nat
  | bytes length => length
  | _ => none

def Head.textLength? : Head → Option Nat
  | text length => length
  | _ => none

/-! ## Writing -/

/-- A major type with a number of at most 64 bits. -/
def writeHead (major n : Nat) : List UInt8 :=
  if n < 24 then [UInt8.ofNat (32 * major + n)]
  else if n < 0x100 then UInt8.ofNat (32 * major + 24) :: Word.bytes 1 n
  else if n < 0x10000 then UInt8.ofNat (32 * major + 25) :: Word.bytes 2 n
  else if n < 0x100000000 then UInt8.ofNat (32 * major + 26) :: Word.bytes 4 n
  else UInt8.ofNat (32 * major + 27) :: Word.bytes 8 n

def Head.write : Head → List UInt8
  | positive n => writeHead 0 n
  | negative n => writeHead 1 n
  | bytes (some n) => writeHead 2 n
  | bytes none => [0x5f]
  | text (some n) => writeHead 3 n
  | text none => [0x7f]
  | array (some n) => writeHead 4 n
  | array none => [0x9f]
  | map (some n) => writeHead 5 n
  | map none => [0xbf]
  | tag n => writeHead 6 n
  | simple n => writeHead 7 n
  | float => [0xf9, 0, 0]
  | stop => [0xff]

/-! ## Reading -/

/-- Takes something from the front of a byte string, or fails. -/
abbrev Reader := StateT (List UInt8) Option

namespace Reader

def byte : Reader UInt8
  | [] => none
  | b :: rest => some (b, rest)

def take (n : Nat) : Reader (List UInt8) := fun bs =>
  let front := bs.take n
  if front.length = n then some (front, bs.drop n) else none

/-- Runs a reader and puts back what it took. -/
def ahead {β : Type} (r : Reader β) : Reader β := fun bs => (r bs).map fun (a, _) => (a, bs)

def number (size : Nat) : Reader Nat := Word.ofBytes <$> take size

/-- Takes the number that belongs to the low five bits of a first byte. There is none behind 31,
and 28 to 30 mean nothing. -/
def argument (low : Nat) : Reader (Option Nat) :=
  if low < 24 then return some low
  else if low = 24 then some <$> number 1
  else if low = 25 then some <$> number 2
  else if low = 26 then some <$> number 4
  else if low = 27 then some <$> number 8
  else if low = 31 then return none
  else failure

def head : Reader Head := do
  let first ← byte
  let low := first.toNat % 32
  match first.toNat / 32, ← argument low with
  | 0, some n => return .positive n
  | 1, some n => return .negative n
  | 2, length => return .bytes length
  | 3, length => return .text length
  | 4, length => return .array length
  | 5, length => return .map length
  | 6, some n => return .tag n
  | 7, some n => return if low ≤ 24 then .simple n else .float
  | 7, none => return .stop
  | _, _ => failure

def skipTagsWithin (wanted : Nat → Bool) : Nat → Reader Unit
  | 0 => failure
  | fuel + 1 => do
    match ← ahead head with
    | .tag n => if wanted n then return () else do let _ ← head; skipTagsWithin wanted fuel
    | _ => return ()

/-- Skips the tags in front of an item, up to the first one that is wanted. -/
def skipTags (wanted : Nat → Bool) : Reader Unit := fun bs =>
  skipTagsWithin wanted bs.length bs

def bareHead : Reader Head := do
  skipTags fun _ => false
  head

def times {σ : Type} (step : σ → Reader σ) : Nat → σ → Reader σ
  | 0, s => return s
  | n + 1, s => do times step n (← step s)

def toStopWithin {σ : Type} (step : σ → Reader σ) : Nat → σ → Reader σ
  | 0, _ => failure
  | fuel + 1, s => fun bs =>
    match bs with
    | 0xff :: rest => some (s, rest)
    | _ => (do toStopWithin step fuel (← step s)) bs

/-- Runs a step as often as a length says, or up to a stop if there is none. A step takes at least
one byte. -/
def repeated {σ : Type} (step : σ → Reader σ) : Option Nat → σ → Reader σ
  | some n, s => times step n s
  | none, s => fun bs => toStopWithin step (bs.length + 1) s bs

def items {β : Type} (item : Reader β) (length : Option Nat) : Reader (List β) := do
  return (← repeated (fun taken => do return (← item) :: taken) length []).reverse

end Reader

end CoEdit.Cbor
