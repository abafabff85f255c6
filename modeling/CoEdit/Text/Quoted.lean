import CoEdit.Text.Unprintable

/-!
# Quoted text

How operation listings show texts and characters. A character stands for itself, unless it is the
quote, the escape character, one of four named controls, or unprintable.
-/

namespace CoEdit.Text

/-- Lower-case hexadecimal digits without leading zeros. -/
def hexNumber (n : Nat) : List Char := Nat.toDigits 16 n

/-- One character between quotes of the kind `quote`. -/
def escape (quote c : Char) : List Char :=
  if c = '\x00' then ['\\', '0']
  else if c = '\t' then ['\\', 't']
  else if c = '\r' then ['\\', 'r']
  else if c = '\n' then ['\\', 'n']
  else if c = '\\' then ['\\', '\\']
  else if c = quote then ['\\', quote]
  else if isUnprintable c then ['\\', 'u', '\x7b'] ++ hexNumber c.toNat ++ ['\x7d']
  else [c]

def quoted (quote : Char) (cs : List Char) : String :=
  String.ofList (quote :: cs.flatMap (escape quote) ++ [quote])

def joined (separator : String) : List String → String
  | [] => ""
  | [s] => s
  | s :: rest => s ++ separator ++ joined separator rest

end CoEdit.Text
