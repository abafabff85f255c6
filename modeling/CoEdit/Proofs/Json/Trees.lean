import CoEdit.Json.Tree
import CoEdit.Proofs.Json.Tokens

/-!
# JSON values that are taken back

The compact text of a value is read as the value (`ofText?_compact`), if every text in it has
content and every number is whole. The tokens are taken back one by one, and from them the value,
since brackets and braces tell how the tokens belong together.
-/

namespace CoEdit.Json

open Token

/-- All texts in a value have content, and all numbers are whole. -/
def Plain (v : Json) : Prop := ∀ t ∈ v.tokens, t.Plain

theorem tokensOfItems_cons_cons (v w : Json) (rest : List Json) :
    tokensOfItems (v :: w :: rest) = v.tokens ++ .comma :: tokensOfItems (w :: rest) := rfl

theorem tokensOfMembers_cons_cons (m n : Option String × Json)
    (rest : List (Option String × Json)) :
    tokensOfMembers (m :: n :: rest) =
      .text m.1 :: .colon :: m.2.tokens ++ .comma :: tokensOfMembers (n :: rest) := rfl

section Plain

variable {P : Token → Prop} {items : List Json} {members : List (Option String × Json)}

theorem forall_tokensOfItems (comma : P .comma) :
    (∀ t ∈ tokensOfItems items, P t) ↔ ∀ v ∈ items, ∀ t ∈ v.tokens, P t := by
  induction items with
  | nil => simp [tokensOfItems]
  | cons v rest ih =>
    cases rest with
    | nil => simp [tokensOfItems]
    | cons w rest =>
      rw [tokensOfItems_cons_cons, List.forall_mem_append, List.forall_mem_cons, ih,
        and_iff_right comma, List.forall_mem_cons (a := v)]

theorem forall_tokensOfMembers (colon : P .colon) (comma : P .comma) :
    (∀ t ∈ tokensOfMembers members, P t) ↔
      ∀ m ∈ members, P (.text m.1) ∧ ∀ t ∈ m.2.tokens, P t := by
  induction members with
  | nil => simp [tokensOfMembers]
  | cons m rest ih =>
    cases rest with
    | nil => simp [tokensOfMembers, colon]
    | cons w rest =>
      rw [tokensOfMembers_cons_cons, List.forall_mem_append, List.forall_mem_cons,
        List.forall_mem_cons, List.forall_mem_cons, ih, and_iff_right colon, and_iff_right comma,
        List.forall_mem_cons (a := m)]

theorem plain_array : (array items).Plain ↔ ∀ v ∈ items, v.Plain := by
  rw [Plain, tokens, List.forall_mem_append, List.forall_mem_cons, List.forall_mem_singleton,
    forall_tokensOfItems trivial]
  exact ⟨fun plain => plain.1.2, fun plain => ⟨⟨trivial, plain⟩, trivial⟩⟩

/-- An object has content where its keys and its values have. -/
theorem plain_object :
    (object members).Plain ↔ ∀ m ∈ members, m.1.isSome ∧ m.2.Plain := by
  rw [Plain, tokens, List.forall_mem_append, List.forall_mem_cons, List.forall_mem_singleton,
    forall_tokensOfMembers trivial trivial]
  exact ⟨fun plain => plain.1.2, fun plain => ⟨⟨trivial, plain⟩, trivial⟩⟩

end Plain

/-! ## Tokens side by side -/

mutual

/-- No two numbers stand side by side: brackets, colons and commas are between them. -/
theorem tokens_apart : (v : Json) → v.tokens.IsChain Apart
  | null | bool _ | integer _ | fraction | text _ => .singleton _
  | array items => by
    have inside := tokensOfItems_apart items
    simp [tokens, List.isChain_cons, List.isChain_append, Apart, isNumber, inside]
  | object members => by
    have inside := tokensOfMembers_apart members
    simp [tokens, List.isChain_cons, List.isChain_append, Apart, isNumber, inside]

theorem tokensOfItems_apart : (items : List Json) → (tokensOfItems items).IsChain Apart
  | [] => .nil
  | [v] => tokens_apart v
  | v :: w :: rest => by
    have first := tokens_apart v
    have others := tokensOfItems_apart (w :: rest)
    simp [tokensOfItems, List.isChain_cons, List.isChain_append, Apart, isNumber, first, others]

theorem tokensOfMembers_apart : (members : List (Option String × Json)) →
    (tokensOfMembers members).IsChain Apart
  | [] => .nil
  | [(key, v)] => by
    have value := tokens_apart v
    simp [tokensOfMembers, List.isChain_cons, Apart, isNumber, value]
  | (key, v) :: m :: rest => by
    have value := tokens_apart v
    have others := tokensOfMembers_apart (m :: rest)
    simp [tokensOfMembers, List.isChain_cons, List.isChain_append, Apart, isNumber, value, others]

end

/-! ## Values -/

/-- Items start with a token, and it is no closing bracket. -/
theorem tokensOfItems_eq_cons (v : Json) (items : List Json) :
    ∃ t ts, tokensOfItems (v :: items) = t :: ts ∧ t ≠ .rightBracket := by
  obtain ⟨t, ts, first, opens⟩ : ∃ t ts, v.tokens = t :: ts ∧ t ≠ .rightBracket := by
    cases v <;> exact ⟨_, _, rfl, nofun⟩
  cases items with
  | nil => exact ⟨t, ts, first, opens⟩
  | cons w items => exact ⟨t, _, by rw [tokensOfItems_cons_cons, first, List.cons_append], opens⟩

theorem tokensOfMembers_eq_cons (m : Option String × Json) (members : List (Option String × Json)) :
    ∃ ts, tokensOfMembers (m :: members) = .text m.1 :: ts := by
  cases members <;> exact ⟨_, rfl⟩

section Taking

variable {fuel : Nat} {ts : List Token}

theorem take?_array {t : Token} (opens : t ≠ .rightBracket) :
    take? (fuel + 1) (.leftBracket :: t :: ts) =
      (takeItems? fuel (t :: ts)).map fun (vs, rest) => (array vs, rest) := by
  cases t <;> first | rfl | exact absurd rfl opens

theorem takeItems?_last {v : Json} {rest : List Token}
    (taken : take? fuel ts = some (v, .rightBracket :: rest)) :
    takeItems? (fuel + 1) ts = some ([v], rest) := by
  rw [takeItems?, taken]

theorem takeItems?_comma {v : Json} {behind : List Token}
    (taken : take? fuel ts = some (v, .comma :: behind)) :
    takeItems? (fuel + 1) ts =
      (takeItems? fuel behind).map fun (vs, rest) => (v :: vs, rest) := by
  rw [takeItems?, taken]

/-- The last member is followed by the closing brace. -/
theorem takeMembers?_last {v : Json} {rest : List Token} (key : Option String)
    (taken : take? fuel ts = some (v, .rightBrace :: rest)) :
    takeMembers? (fuel + 1) (.text key :: .colon :: ts) = some ([(key, v)], rest) := by
  rw [takeMembers?]
  simp only [taken]

theorem takeMembers?_comma {v : Json} {behind : List Token} (key : Option String)
    (taken : take? fuel ts = some (v, .comma :: behind)) :
    takeMembers? (fuel + 1) (.text key :: .colon :: ts) =
      (takeMembers? fuel behind).map fun (ms, rest) => ((key, v) :: ms, rest) := by
  rw [takeMembers?]
  simp only [taken]

end Taking

-- By recursion on the value. A bracket or a brace pays for the step to its parts, and so does a
-- comma for the step to the next one.
mutual

theorem take?_tokens (rest : List Token) : (v : Json) → {fuel : Nat} →
    2 * v.tokens.length ≤ fuel → take? fuel (v.tokens ++ rest) = some (v, rest)
  | null, _ + 1, _ | bool _, _ + 1, _ | integer _, _ + 1, _ | fraction, _ + 1, _ => rfl
  | text _, _ + 1, _ | array [], _ + 1, _ | object [], _ + 1, _ => rfl
  | array (v :: items), fuel + 1, enough => by
    rw [tokens, List.length_append, List.length_cons, List.length_singleton] at enough
    have inside := takeItems?_tokens rest v items (show _ < fuel by omega)
    obtain ⟨t, ts, first, opens⟩ := tokensOfItems_eq_cons v items
    rw [first, List.cons_append] at inside
    rw [tokens, first, List.append_assoc, List.cons_append, List.cons_append, take?_array opens,
      List.singleton_append, inside, Option.map_some]
  | object (m :: members), fuel + 1, enough => by
    rw [tokens, List.length_append, List.length_cons, List.length_singleton] at enough
    have inside := takeMembers?_tokens rest m members (show _ < fuel by omega)
    obtain ⟨ts, first⟩ := tokensOfMembers_eq_cons m members
    rw [first, List.cons_append] at inside
    rw [tokens, first, List.append_assoc, List.cons_append, List.cons_append, take?,
      List.singleton_append, inside, Option.map_some]
    all_goals nofun

theorem takeItems?_tokens (rest : List Token) : (v : Json) → (items : List Json) → {fuel : Nat} →
    2 * (tokensOfItems (v :: items)).length < fuel →
    takeItems? fuel (tokensOfItems (v :: items) ++ .rightBracket :: rest) = some (v :: items, rest)
  | v, [], fuel + 1, enough =>
    takeItems?_last (take?_tokens (.rightBracket :: rest) v (Nat.le_of_lt_succ enough))
  | v, w :: items, fuel + 1, enough => by
    rw [tokensOfItems_cons_cons, List.length_append, List.length_cons] at enough
    have others := takeItems?_tokens rest w items (show _ < fuel by omega)
    rw [tokensOfItems_cons_cons, List.append_assoc, List.cons_append,
      takeItems?_comma (take?_tokens _ v (by omega)), others, Option.map_some]

theorem takeMembers?_tokens (rest : List Token) : (m : Option String × Json) →
    (members : List (Option String × Json)) → {fuel : Nat} →
    2 * (tokensOfMembers (m :: members)).length < fuel →
    takeMembers? fuel (tokensOfMembers (m :: members) ++ .rightBrace :: rest) =
      some (m :: members, rest)
  | (key, v), [], fuel + 1, enough => by
    rw [tokensOfMembers, List.length_cons, List.length_cons] at enough
    exact takeMembers?_last key (take?_tokens (.rightBrace :: rest) v (by omega))
  | (key, v), n :: members, fuel + 1, enough => by
    simp only [tokensOfMembers_cons_cons, List.length_append, List.length_cons] at enough
    have others := takeMembers?_tokens rest n members (show _ < fuel by omega)
    rw [tokensOfMembers_cons_cons, List.append_assoc, List.cons_append, List.cons_append,
      List.cons_append, takeMembers?_comma key (take?_tokens _ v (by omega)), others,
      Option.map_some]

end

/-- The compact text of a value is read as the value. -/
theorem ofText?_compact {v : Json} (plain : v.Plain) : ofText? v.compact = some v := by
  have whole := take?_tokens [] v (Nat.le_refl _)
  rw [List.append_nil] at whole
  rw [ofText?, compact, String.toList_ofList, tokens?_write plain (tokens_apart v),
    Option.bind_some, ofTokens?, whole]

/-! ## Depth -/

mutual

/-- How deep arrays and objects stand in each other. -/
def depth : Json → Nat
  | array items => depthOfItems items + 1
  | object members => depthOfMembers members + 1
  | _ => 0

/-- How deep they stand in the items of an array. -/
def depthOfItems : List Json → Nat
  | [] => 0
  | v :: rest => max v.depth (depthOfItems rest)

/-- How deep they stand in the members of an object. -/
def depthOfMembers : List (Option String × Json) → Nat
  | [] => 0
  | (_, v) :: rest => max v.depth (depthOfMembers rest)

end

/-- There is room for the items if there is room for each of them. -/
theorem depthOfItems_le {items : List Json} {room : Nat} :
    depthOfItems items ≤ room ↔ ∀ v ∈ items, v.depth ≤ room := by
  induction items with
  | nil => simp [depthOfItems]
  | cons v rest ih => rw [depthOfItems, Nat.max_le, ih, List.forall_mem_cons]

theorem depthOfMembers_le {members : List (Option String × Json)} {room : Nat} :
    depthOfMembers members ≤ room ↔ ∀ m ∈ members, m.2.depth ≤ room := by
  induction members with
  | nil => simp [depthOfMembers]
  | cons m rest ih => rw [depthOfMembers, Nat.max_le, ih, List.forall_mem_cons]

end CoEdit.Json
