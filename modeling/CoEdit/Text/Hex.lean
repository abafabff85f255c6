/-!
# Hexadecimal digits

Both cases are read, lower case is written.
-/

namespace CoEdit.Text

def hexValue? (c : Char) : Option Nat :=
  if '0' ≤ c ∧ c ≤ '9' then some (c.toNat - '0'.toNat)
  else if 'a' ≤ c ∧ c ≤ 'f' then some (c.toNat - 'a'.toNat + 10)
  else if 'A' ≤ c ∧ c ≤ 'F' then some (c.toNat - 'A'.toNat + 10)
  else none

/-- The number that a row of digits stands for, the highest first. -/
def hexNumber? (cs : List Char) : Option Nat :=
  (cs.mapM hexValue?).map fun ds => ds.foldl (fun n d => 16 * n + d) 0

def hexDigit (n : Nat) : Char := Nat.digitChar (n % 16)

/-- The last `count` digits of a number, the highest first. -/
def hexDigits : (count : Nat) → Nat → List Char
  | 0, _ => []
  | count + 1, n => hexDigits count (n / 16) ++ [hexDigit n]

def hexText (bs : List UInt8) : String :=
  String.ofList (bs.flatMap fun b => hexDigits 2 b.toNat)

/-- Reads two digits for each byte. -/
def bytesOfHex? : List Char → Option (List UInt8)
  | [] => some []
  | a :: b :: rest => do return UInt8.ofNat (← hexNumber? [a, b]) :: (← bytesOfHex? rest)
  | [_] => none

theorem hexValue?_hexDigit (n : Nat) : hexValue? (hexDigit n) = some (n % 16) := by
  have digits : ∀ d : Fin 16, hexValue? (Nat.digitChar d.val) = some d.val := by decide
  exact digits ⟨n % 16, Nat.mod_lt n (by decide)⟩

example : hexNumber? ['f', 'F', '0'] = some 0xff0 := by decide

example : hexDigits 4 0xbeef = ['b', 'e', 'e', 'f'] := by decide

end CoEdit.Text
