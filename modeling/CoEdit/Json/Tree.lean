import CoEdit.Json.Token
import CoEdit.Text.Quoted

/-!
# JSON values

The text of a value, compact or indented, and the value of a text. Members of an
object keep their order and may repeat; what a repeated key means is up to who reads the object.
-/

namespace CoEdit

/-- A JSON value. -/
inductive Json where
  | null
  | bool (b : Bool)
  | integer (n : Int)
  | fraction
  /-- a text, unless it holds half of a surrogate pair -/
  | text (content : Option String)
  | array (items : List Json)
  | object (members : List (Option String × Json))
deriving Inhabited

namespace Json

def ofString (s : String) : Json := text (some s)

def ofFields (fields : List (String × Json)) : Json :=
  object (fields.map fun (key, value) => (some key, value))

/-! ## Writing -/

mutual

/-- The tokens of a value. -/
def tokens : Json → List Token
  | null => [.null]
  | bool b => [.bool b]
  | integer n => [.integer n]
  | fraction => [.fraction]
  | text content => [.text content]
  | array items => .leftBracket :: tokensOfItems items ++ [.rightBracket]
  | object members => .leftBrace :: tokensOfMembers members ++ [.rightBrace]

def tokensOfItems : List Json → List Token
  | [] => []
  | [v] => v.tokens
  | v :: rest => v.tokens ++ .comma :: tokensOfItems rest

def tokensOfMembers : List (Option String × Json) → List Token
  | [] => []
  | [(key, v)] => .text key :: .colon :: v.tokens
  | (key, v) :: rest => .text key :: .colon :: v.tokens ++ .comma :: tokensOfMembers rest

end

def compact (v : Json) : String := String.ofList (v.tokens.flatMap Token.write)

/-- A new line, indented by two blanks per level. -/
def newLine (level : Nat) : List Char := '\n' :: List.replicate (2 * level) ' '

mutual

/-- The text with a line for every item and member; empty ones stay closed. -/
def indented (level : Nat) : Json → List Char
  | array [] => ['[', ']']
  | object [] => ['\x7b', '\x7d']
  | array items => '[' :: indentedItems level items ++ newLine level ++ [']']
  | object members =>
    '\x7b' :: indentedMembers level members ++ newLine level ++ ['\x7d']
  | v => v.tokens.flatMap Token.write

def indentedItems (level : Nat) : List Json → List Char
  | [] => []
  | [v] => newLine (level + 1) ++ v.indented (level + 1)
  | v :: rest => newLine (level + 1) ++ v.indented (level + 1) ++ ',' :: indentedItems level rest

def indentedMembers (level : Nat) : List (Option String × Json) → List Char
  | [] => []
  | [(key, v)] =>
    newLine (level + 1) ++ Token.write (.text key) ++ [':', ' '] ++ v.indented (level + 1)
  | (key, v) :: rest =>
    newLine (level + 1) ++ Token.write (.text key) ++ [':', ' '] ++ v.indented (level + 1)
      ++ ',' :: indentedMembers level rest

end

def pretty (v : Json) : String := String.ofList (v.indented 0)

/-! ## Reading -/

mutual

/-- Takes the value at the front of a token list. -/
def take? : Nat → List Token → Option (Json × List Token)
  | 0, _ => none
  | fuel + 1, ts =>
    match ts with
    | .null :: rest => some (null, rest)
    | .bool b :: rest => some (bool b, rest)
    | .integer n :: rest => some (integer n, rest)
    | .fraction :: rest => some (fraction, rest)
    | .text content :: rest => some (text content, rest)
    | .leftBracket :: .rightBracket :: rest => some (array [], rest)
    | .leftBracket :: rest => (takeItems? fuel rest).map fun (vs, rest) => (array vs, rest)
    | .leftBrace :: .rightBrace :: rest => some (object [], rest)
    | .leftBrace :: rest => (takeMembers? fuel rest).map fun (ms, rest) => (object ms, rest)
    | _ => none

def takeItems? : Nat → List Token → Option (List Json × List Token)
  | 0, _ => none
  | fuel + 1, ts =>
    match take? fuel ts with
    | some (v, .rightBracket :: rest) => some ([v], rest)
    | some (v, .comma :: rest) => (takeItems? fuel rest).map fun (vs, rest) => (v :: vs, rest)
    | _ => none

def takeMembers? : Nat → List Token → Option (List (Option String × Json) × List Token)
  | 0, _ => none
  | fuel + 1, ts =>
    match ts with
    | .text key :: .colon :: rest =>
      match take? fuel rest with
      | some (v, .rightBrace :: rest) => some ([(key, v)], rest)
      | some (v, .comma :: rest) =>
        (takeMembers? fuel rest).map fun (ms, rest) => ((key, v) :: ms, rest)
      | _ => none
    | _ => none

end

/-- The value that a token list spells out, all of it. Every token is looked at no more than
twice. -/
def ofTokens? (ts : List Token) : Option Json :=
  match take? (2 * ts.length) ts with
  | some (v, []) => some v
  | _ => none

def ofText? (s : String) : Option Json := (tokens? s.toList).bind ofTokens?

end Json

end CoEdit
