import CoEdit.Text.Hex

/-!
# JSON tokens

How each token is written, and how a text is cut into tokens. Blanks between
tokens are free and never written.

Only whole numbers matter here. A number with a fraction or an exponent, and a negative zero, is
recognised, but its value is not kept.
-/

namespace CoEdit.Json

inductive Token where
  | leftBracket
  | rightBracket
  | leftBrace
  | rightBrace
  | colon
  | comma
  | null
  | bool (b : Bool)
  | integer (n : Int)
  | fraction
  /-- a text; it has no content if an escape names half of a surrogate pair without the other -/
  | text (content : Option String)
deriving DecidableEq

/-! ## Writing -/

def decimal (n : Nat) : List Char := Nat.toDigits 10 n

/-- A character inside a text: quotes, backslashes and controls are escaped. -/
def escape (c : Char) : List Char :=
  if c = '"' then ['\\', '"']
  else if c = '\\' then ['\\', '\\']
  else if c = '\x08' then ['\\', 'b']
  else if c = '\x0c' then ['\\', 'f']
  else if c = '\n' then ['\\', 'n']
  else if c = '\r' then ['\\', 'r']
  else if c = '\t' then ['\\', 't']
  else if c < ' ' then '\\' :: 'u' :: Text.hexDigits 4 c.toNat
  else [c]

namespace Token

/-- The one spelling in which a token is written. -/
def write : Token → List Char
  | leftBracket => ['[']
  | rightBracket => [']']
  | leftBrace => ['\x7b']
  | rightBrace => ['\x7d']
  | colon => [':']
  | comma => [',']
  | null => ['n', 'u', 'l', 'l']
  | bool true => ['t', 'r', 'u', 'e']
  | bool false => ['f', 'a', 'l', 's', 'e']
  | integer (.ofNat n) => decimal n
  | integer (.negSucc n) => '-' :: decimal (n + 1)
  | fraction => ['-', '0']
  | text content => '"' :: ((content.map String.toList).getD []).flatMap escape ++ ['"']

end Token

/-! ## Numbers -/

def takeDigits (cs : List Char) : List Char × List Char := cs.span (·.isDigit)

/-- Takes a whole number without sign; it has no leading zeros. -/
def whole? (cs : List Char) : Option (Nat × List Char) :=
  match cs with
  | '0' :: rest => some (0, rest)
  | _ =>
    match takeDigits cs with
    | ([], _) => none
    | (ds, rest) => some (Nat.ofDigitChars 10 ds 0, rest)

def someDigits? (cs : List Char) : Option (List Char) :=
  match takeDigits cs with
  | ([], _) => none
  | (_, rest) => some rest

/-- Skips a decimal point with digits, if there is one, and tells whether there was. -/
def pointPart? : List Char → Option (Bool × List Char)
  | '.' :: rest => (someDigits? rest).map (true, ·)
  | cs => some (false, cs)

def exponentPart? : List Char → Option (Bool × List Char)
  | c :: rest =>
    if c = 'e' ∨ c = 'E' then
      match rest with
      | '+' :: rest | '-' :: rest => (someDigits? rest).map (true, ·)
      | _ => (someDigits? rest).map (true, ·)
    else some (false, c :: rest)
  | [] => some (false, [])

def number? (negative : Bool) (cs : List Char) : Option (Token × List Char) := do
  let (n, rest) ← whole? cs
  let (point, rest) ← pointPart? rest
  let (exponent, rest) ← exponentPart? rest
  let token : Token :=
    if point || exponent || (negative && n == 0) then .fraction
    else .integer (if negative then -n else n)
  return (token, rest)

/-! ## Texts -/

/-- A part of a text: a character, or half of a surrogate pair as it stands in an escape. -/
inductive Piece where
  | char (c : Char)
  | high (n : Nat)
  | low (n : Nat)

/-- What an escaped 16-bit code stands for. -/
def Piece.ofCode (code : Nat) : Piece :=
  if 0xD800 ≤ code ∧ code < 0xDC00 then high (code - 0xD800)
  else if 0xDC00 ≤ code ∧ code < 0xE000 then low (code - 0xDC00)
  else char (Char.ofNat code)

/-- Joins halves of surrogate pairs; each must stand beside its other half. -/
def joinPieces : List Piece → Option (List Char)
  | [] => some []
  | .char c :: rest => (joinPieces rest).map (c :: ·)
  | .high h :: .low l :: rest =>
    (joinPieces rest).map (Char.ofNat (0x10000 + 0x400 * h + l) :: ·)
  | _ => none

def unescape? (c : Char) : Option Char :=
  match c with
  | '"' => some '"'
  | '\\' => some '\\'
  | '/' => some '/'
  | 'b' => some '\x08'
  | 'f' => some '\x0c'
  | 'n' => some '\n'
  | 'r' => some '\r'
  | 't' => some '\t'
  | _ => none

def pieces? : List Char → Option (List Piece × List Char)
  | [] => none
  | '"' :: rest => some ([], rest)
  | '\\' :: 'u' :: a :: b :: c :: d :: rest =>
    match Text.hexNumber? [a, b, c, d] with
    | some code => (pieces? rest).map fun (ps, rest) => (.ofCode code :: ps, rest)
    | none => none
  | '\\' :: e :: rest =>
    match unescape? e with
    | some c => (pieces? rest).map fun (ps, rest) => (.char c :: ps, rest)
    | none => none
  | c :: rest =>
    if c < ' ' then none else (pieces? rest).map fun (ps, rest) => (.char c :: ps, rest)

/-! ## Reading -/

def isBlank (c : Char) : Bool := c = ' ' || c = '\n' || c = '\t' || c = '\r'

def token? : List Char → Option (Token × List Char)
  | '[' :: rest => some (.leftBracket, rest)
  | ']' :: rest => some (.rightBracket, rest)
  | '\x7b' :: rest => some (.leftBrace, rest)
  | '\x7d' :: rest => some (.rightBrace, rest)
  | ':' :: rest => some (.colon, rest)
  | ',' :: rest => some (.comma, rest)
  | 'n' :: 'u' :: 'l' :: 'l' :: rest => some (.null, rest)
  | 't' :: 'r' :: 'u' :: 'e' :: rest => some (.bool true, rest)
  | 'f' :: 'a' :: 'l' :: 's' :: 'e' :: rest => some (.bool false, rest)
  | '"' :: rest =>
    (pieces? rest).map fun (ps, rest) => (.text ((joinPieces ps).map String.ofList), rest)
  | '-' :: rest => number? true rest
  | cs => number? false cs

def tokensWithin : Nat → List Char → Option (List Token)
  | _, [] => some []
  | 0, _ :: _ => none
  | fuel + 1, c :: cs =>
    if isBlank c then tokensWithin fuel cs
    else
      match token? (c :: cs) with
      | some (token, rest) => (tokensWithin fuel rest).map (token :: ·)
      | none => none

/-- Cuts a text into tokens. There are no more of them than characters. -/
def tokens? (cs : List Char) : Option (List Token) := tokensWithin cs.length cs

example : tokens? "[-12, \"\\u00e9\\ud83d\\ude00\"]".toList
    = some [.leftBracket, .integer (-12), .comma, .text (some "é😀"), .rightBracket] := by
  decide +kernel

end CoEdit.Json
