import CoEdit.Text.Hex
import CoEdit.Word

/-!
# Identifiers

A site is a 128-bit number, written as five hyphenated groups of hexadecimal digits;
a cursor has a readable name and a serial number that tells cursors of one name apart.
-/

namespace CoEdit

/-- Globally unique identifier of a participating site. -/
structure SiteId where
  bits : BitVec 128
deriving DecidableEq, Inhabited

namespace SiteId

instance : Ord SiteId := ⟨fun a b => compare a.bits b.bits⟩

instance : Std.TransOrd SiteId where
  eq_swap {a b} := (Std.OrientedOrd.eq_swap : compare a.bits b.bits = (compare b.bits a.bits).swap)
  isLE_trans {a _ c} ab bc :=
    (Std.TransOrd.isLE_trans ab bc : (compare a.bits c.bits).isLE = true)

instance : Std.LawfulEqOrd SiteId where
  compare_self {a} := (Std.ReflOrd.compare_self : compare a.bits a.bits = .eq)
  eq_of_compare {a b} h := by
    cases a; cases b; exact congrArg mk (Std.LawfulEqOrd.eq_of_compare h)

/-- The site with a given number; only the low 128 bits count. -/
def ofNat (n : Nat) : SiteId := ⟨BitVec.ofNat 128 n⟩

def digits (s : SiteId) : List Char := Text.hexDigits 32 s.bits.toNat

def bytes (s : SiteId) : List UInt8 := Word.bytes 16 s.bits.toNat

/-- The site whose bytes are given, if there are 16 of them. -/
def ofBytes? (bs : List UInt8) : Option SiteId :=
  if bs.length = 16 then some (ofNat (Word.ofBytes bs)) else none

def groups : List Nat := [8, 4, 4, 4, 12]

def hyphenate : List Nat → List Char → List Char
  | n :: m :: sizes, cs => cs.take n ++ '-' :: hyphenate (m :: sizes) (cs.drop n)
  | _, cs => cs

/-- Takes the hyphens out again; each must stand where a group ends. -/
def unhyphenate? : List Nat → List Char → Option (List Char)
  | n :: m :: sizes, cs =>
    match cs.drop n with
    | '-' :: rest => (unhyphenate? (m :: sizes) rest).map (cs.take n ++ ·)
    | _ => none
  | _, cs => some cs

def text (s : SiteId) : String := String.ofList (hyphenate groups s.digits)

/-- Reads exactly 32 hexadecimal digits. -/
def ofDigits? (cs : List Char) : Option SiteId :=
  if cs.length = 32 then (Text.hexNumber? cs).map ofNat else none

def ofHyphenated? (cs : List Char) : Option SiteId :=
  (unhyphenate? groups cs).bind ofDigits?

/-- What a name of the space of sites starts with, in letters of any case. -/
def nameSpace : String := "urn:uuid:"

/-- Reads a site: plain digits, or the hyphenated form alone, in braces, or as a name. -/
def ofText? (s : String) : Option SiteId :=
  let cs := s.toList
  match cs with
  | '\x7b' :: rest =>
    if rest.getLast? = some '\x7d' then ofHyphenated? rest.dropLast else none
  | _ =>
    let n := nameSpace.length
    if (cs.take n).map Char.toLower = nameSpace.toList then ofHyphenated? (cs.drop n)
    else if cs.length = 32 then ofDigits? cs else ofHyphenated? cs

example : (ofNat 1).text = "00000000-0000-0000-0000-000000000001" := by decide +kernel

example : ofText? "0123ABCD-ef45-6789-abcd-ef0123456789"
    = some (ofNat 0x0123abcdef456789abcdef0123456789) := by decide +kernel

example : ofText? "URN:uuid:00000000-0000-0000-0000-00000000000A" = some (ofNat 10) := by
  decide +kernel

end SiteId

structure CursorId where
  name : String
  serial : Nat
deriving DecidableEq, Inhabited

end CoEdit
