import CoEdit.Json.Token
import Mathlib.Algebra.Group.Nat.Defs
import Mathlib.Data.List.Chain
import Mathlib.Data.List.TakeDrop

/-!
# Tokens that are taken back

A row of tokens that is written without blanks is cut into the same tokens again (`tokens?_write`).
Two numbers must not stand side by side there, since they would run together; all other tokens tell
where they end.
-/

namespace CoEdit

namespace Text

theorem length_hexDigits (count n : Nat) : (hexDigits count n).length = count := by
  induction count generalizing n with
  | zero => rfl
  | succ count ih => simp [hexDigits, ih]

theorem hexNumber?_append_digit (cs : List Char) (n : Nat) :
    hexNumber? (cs ++ [hexDigit n]) = (hexNumber? cs).map fun high => 16 * high + n % 16 := by
  simp only [hexNumber?, List.mapM_append, List.mapM_cons, List.mapM_nil, hexValue?_hexDigit]
  cases cs.mapM hexValue? <;> simp

/-- Digits hold a number up to what is too large for them. -/
theorem hexNumber?_hexDigits (count n : Nat) :
    hexNumber? (hexDigits count n) = some (n % 16 ^ count) := by
  induction count generalizing n with
  | zero => simp [hexDigits, hexNumber?, Nat.mod_one]
  | succ count ih =>
    have split : 16 ^ (count + 1) = 16 * 16 ^ count := Nat.pow_succ'
    rw [hexDigits, hexNumber?_append_digit, ih, Option.map_some, split, Nat.mod_mul, Nat.add_comm]

end Text

namespace Json

/-! ## Numbers -/

/-- No number goes on at the front of a text. -/
def Closed (rest : List Char) : Prop :=
  ∀ c ∈ rest.head?, c.isDigit = false ∧ c ≠ '.' ∧ c ≠ 'e' ∧ c ≠ 'E'

theorem takeDigits_append {ds rest : List Char} (digits : ∀ d ∈ ds, d.isDigit = true)
    (closed : Closed rest) : takeDigits (ds ++ rest) = (ds, rest) := by
  have ends : rest.takeWhile (·.isDigit) = [] := by
    cases rest with
    | nil => rfl
    | cons c rest => simp [(closed c rfl).1]
  have stays : rest.dropWhile (·.isDigit) = rest := by
    cases rest with
    | nil => rfl
    | cons c rest => simp [(closed c rfl).1]
  rw [takeDigits, List.span_eq_takeWhile_dropWhile, List.takeWhile_append_of_pos digits,
    List.dropWhile_append_of_pos digits, ends, stays, List.append_nil]

theorem isDigit_of_mem_decimal {n : Nat} {d : Char} (inside : d ∈ decimal n) : d.isDigit = true :=
  Nat.isDigit_of_mem_toDigits (by decide) (by decide) inside

theorem decimal_ne_nil (n : Nat) : decimal n ≠ [] := Nat.toDigits_ne_nil

theorem decimal_eq_cons (n : Nat) : ∃ d ds, decimal n = d :: ds ∧ d.isDigit = true := by
  cases digits : decimal n with
  | nil => cases decimal_ne_nil n digits
  | cons d ds =>
    exact ⟨d, ds, rfl, isDigit_of_mem_decimal (n := n) (digits ▸ List.mem_cons_self)⟩

theorem head?_decimal {n : Nat} (positive : 0 < n) : (decimal n).head? ≠ some '0' := by
  induction n using Nat.strongRecOn with
  | ind n ih =>
    rw [decimal, Nat.toDigits_eq_if (by decide)]
    split_ifs with small
    · rw [List.head?_cons, ne_eq, Option.some.injEq, Nat.digitChar_eq_zero]
      omega
    · rw [List.head?_append_of_ne_nil _ Nat.toDigits_ne_nil]
      exact ih (n / 10) (by omega) (by omega)

theorem whole?_decimal (n : Nat) {rest : List Char} (closed : Closed rest) :
    whole? (decimal n ++ rest) = some (n, rest) := by
  have digits := takeDigits_append (fun _ => isDigit_of_mem_decimal (n := n)) closed
  unfold whole?
  split
  · rename_i behind starts
    cases n with
    | zero =>
      cases starts
      rfl
    | succ n =>
      have zero := congrArg List.head? starts
      rw [List.head?_append_of_ne_nil _ (decimal_ne_nil _)] at zero
      exact absurd zero (head?_decimal n.succ_pos)
  · rw [digits]
    split
    · rename_i same
      cases decimal_ne_nil n (congrArg Prod.fst same)
    · rename_i same
      cases same
      rw [decimal, Nat.ofDigitChars_ten_toDigits]

theorem number?_decimal (negative : Bool) (n : Nat) (signed : negative = true → n ≠ 0)
    {rest : List Char} (closed : Closed rest) :
    number? negative (decimal n ++ rest) =
      some (.integer (if negative then -n else n), rest) := by
  have point : pointPart? rest = some (false, rest) := by
    unfold pointPart?
    split
    · cases (closed _ rfl).2.1 rfl
    · rfl
  have exponent : exponentPart? rest = some (false, rest) := by
    cases rest with
    | nil => rfl
    | cons c rest => simp [exponentPart?, (closed c rfl).2.2]
  have whole : ¬(negative = true ∧ n = 0) := fun both => signed both.1 both.2
  simp [number?, whole?_decimal n closed, point, exponent, whole]

theorem token?_digit {d : Char} (digit : d.isDigit = true) (cs : List Char) :
    token? (d :: cs) = number? false (d :: cs) := by
  unfold token?
  split <;> first | rfl | (rename_i starts; cases starts; cases digit)

/-! ## Texts -/

/-- A control is escaped by its number, which is no half of a surrogate pair. -/
theorem pieces?_control {c : Char} (control : c < ' ') (rest : List Char) :
    pieces? ('\\' :: 'u' :: Text.hexDigits 4 c.toNat ++ rest) =
      (pieces? rest).map fun (ps, rest) => (.char c :: ps, rest) := by
  have small : c.toNat < 32 := control
  have code : Text.hexNumber? (Text.hexDigits 4 c.toNat) = some c.toNat := by
    rw [Text.hexNumber?_hexDigits, Nat.mod_eq_of_lt (by omega)]
  have plain : Piece.ofCode c.toNat = .char c := by
    rw [Piece.ofCode, if_neg (by omega), if_neg (by omega), Char.ofNat_toNat]
  match digits : Text.hexDigits 4 c.toNat, Text.length_hexDigits 4 c.toNat with
  | [d₁, d₂, d₃, d₄], _ =>
    rw [digits] at code
    simp only [List.cons_append, List.nil_append, pieces?, code, plain]

theorem pieces?_escape (c : Char) (rest : List Char) :
    pieces? (escape c ++ rest) = (pieces? rest).map fun (ps, rest) => (.char c :: ps, rest) := by
  rw [escape]
  split_ifs with quote backslash back form line carriage tab control
  · subst quote
    rfl
  · subst backslash
    rfl
  · subst back
    rfl
  · subst form
    rfl
  · subst line
    rfl
  · subst carriage
    rfl
  · subst tab
    rfl
  · exact pieces?_control control rest
  · rw [List.singleton_append, pieces?.eq_def]
    split <;> simp_all

theorem pieces?_text (cs rest : List Char) :
    pieces? (cs.flatMap escape ++ '"' :: rest) = some (cs.map .char, rest) := by
  induction cs with
  | nil => simp [pieces?]
  | cons c cs ih =>
    rw [List.flatMap_cons, List.append_assoc, pieces?_escape, ih]
    rfl

theorem joinPieces_chars (cs : List Char) : joinPieces (cs.map .char) = some cs := by
  induction cs with
  | nil => rfl
  | cons c cs ih => rw [List.map_cons, joinPieces, ih, Option.map_some]

/-! ## Rows of tokens -/

namespace Token

/-- The tokens that are taken back: texts with content and numbers that are whole. -/
def Plain : Token → Prop
  | fraction => False
  | text content => content.isSome
  | _ => True

def isNumber : Token → Bool
  | integer _ | fraction => true
  | _ => false

/-- Two tokens that may stand side by side. -/
def Apart (t u : Token) : Prop := t.isNumber = true → u.isNumber = false

/-- No number goes on with a token that is none. -/
theorem closed_of_apart {t u : Token} (apart : Apart t u) (number : t.isNumber = true)
    (rest : List Char) : Closed (u.write ++ rest) := by
  have other := apart number
  cases u with
  | integer n => cases other
  | fraction => cases other
  | bool b => cases b <;> simp [Closed, write]
  | _ => simp [Closed, write]

theorem token?_write {t : Token} (plain : t.Plain) {rest : List Char}
    (closed : t.isNumber = true → Closed rest) : token? (t.write ++ rest) = some (t, rest) := by
  cases t with
  | fraction => cases plain
  | integer n =>
    cases n with
    | ofNat n =>
      have number := number?_decimal false n nofun (closed rfl)
      obtain ⟨d, ds, digits, digit⟩ := decimal_eq_cons n
      rw [write, digits, List.cons_append, token?_digit digit, ← List.cons_append, ← digits, number]
      rfl
    | negSucc n => exact number?_decimal true (n + 1) (fun _ => n.succ_ne_zero) (closed rfl)
  | text content =>
    obtain ⟨s, rfl⟩ := Option.isSome_iff_exists.mp plain
    have taken := pieces?_text s.toList rest
    simp only [write, Option.map_some, Option.getD_some, List.cons_append, List.append_assoc,
      List.nil_append, token?, taken, joinPieces_chars, String.ofList_toList]
  | bool b => cases b <;> rfl
  | _ => rfl

/-- No token starts with a blank. -/
theorem write_eq_cons (t : Token) : ∃ c cs, t.write = c :: cs ∧ isBlank c = false := by
  cases t with
  | integer n =>
    cases n with
    | ofNat n =>
      obtain ⟨d, ds, digits, digit⟩ := decimal_eq_cons n
      refine ⟨d, ds, digits, Bool.eq_false_iff.mpr fun blank => ?_⟩
      simp only [isBlank, Bool.or_eq_true, decide_eq_true_eq] at blank
      obtain ((rfl | rfl) | rfl) | rfl := blank <;> cases digit
    | negSucc n => exact ⟨_, _, rfl, rfl⟩
  | bool b => cases b <;> exact ⟨_, _, rfl, rfl⟩
  | _ => exact ⟨_, _, rfl, rfl⟩

end Token

open Token

theorem tokensWithin_write {ts : List Token} (plain : ∀ t ∈ ts, t.Plain)
    (apart : ts.IsChain Apart) {fuel : Nat} (enough : (ts.flatMap write).length ≤ fuel) :
    tokensWithin fuel (ts.flatMap write) = some ts := by
  induction ts generalizing fuel with
  | nil => cases fuel <;> rfl
  | cons t rest ih =>
    obtain ⟨next, apart⟩ := List.isChain_cons.mp apart
    obtain ⟨c, cs, starts, notBlank⟩ := write_eq_cons t
    have closed : t.isNumber = true → Closed (rest.flatMap write) := by
      intro number
      cases rest with
      | nil => nofun
      | cons u rest => exact closed_of_apart (next u rfl) number _
    have first := token?_write (plain t List.mem_cons_self) closed
    rw [List.flatMap_cons, List.length_append, starts, List.length_cons] at enough
    rw [List.flatMap_cons]
    rw [starts, List.cons_append] at first ⊢
    cases fuel with
    | zero => omega
    | succ fuel =>
      have others := ih (fun u inside => plain u (List.mem_cons_of_mem t inside)) apart
        (show _ ≤ fuel by omega)
      rw [tokensWithin, notBlank, first]
      simp only [others, Option.map_some, Bool.false_eq_true, if_false]

/-- A row of tokens is taken back from the text without blanks. -/
theorem tokens?_write {ts : List Token} (plain : ∀ t ∈ ts, t.Plain) (apart : ts.IsChain Apart) :
    tokens? (ts.flatMap write) = some ts :=
  tokensWithin_write plain apart (Nat.le_refl _)

end Json

end CoEdit
