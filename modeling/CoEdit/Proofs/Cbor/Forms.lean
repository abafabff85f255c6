import CoEdit.Cbor.Form
import CoEdit.Proofs.Cbor.Reads

/-!
# Forms that are taken back

Structures, variants and sequences take back what is written of them if their parts do. Names of
fields and variants have to be short, and those of one structure different; a level is entered for
each structure, variant and sequence.
-/

namespace CoEdit.Cbor

theorem utf8_inj {s t : String} : utf8 s = utf8 t ↔ s = t := by
  refine ⟨fun h => ?_, congrArg utf8⟩
  have same := congrArg ofUtf8? h
  rwa [ofUtf8?_utf8, ofUtf8?_utf8, Option.some.injEq] at same

/-- A text that can be the name of a field or of a variant. -/
def Short (name : String) : Prop := (utf8 name).length ≤ Reader.shortLimit

instance (name : String) : Decidable (Short name) := inferInstanceAs (Decidable (_ ≤ _))

namespace Reads

open Reader

variable {β γ δ σ : Type} {layout : Layout} {room : Nat}

/-! ## Structures -/

/-- Takes one member of a map whose keys name fields. -/
def member (room : Nat) (known : List (Reader.Field σ)) (s : σ) : Reader σ := do
  let key ← Reader.name
  match known.find? fun f => utf8 f.name = key with
  | some f => f.read s
  | none => do skip room; return s

section Members

variable {key : String} {present : σ → Option β} {put : σ → β → σ} {value : Reader β}
  {known : List (Reader.Field σ)}

theorem find?_here :
    ((Reader.Field.once key present put value :: known).find? fun g => utf8 g.name = utf8 key) =
      some (.once key present put value) :=
  List.find?_cons_of_pos (decide_eq_true rfl)

/-- A field of another name stands in front and is no obstacle. -/
theorem find?_later {f g : Reader.Field σ} (differ : g.name ≠ key)
    (found : (known.find? fun g => utf8 g.name = utf8 key) = some f) :
    ((g :: known).find? fun g => utf8 g.name = utf8 key) = some f := by
  rw [List.find?_cons_of_neg, found]
  exact fun same => differ (utf8_inj.mp (of_decide_eq_true same))

/-- A member that names a field which is still missing is taken into it. -/
theorem once {s : σ} {item : List UInt8} {b : β} (short : Short key)
    (found : (known.find? fun g => utf8 g.name = utf8 key) = some (.once key present put value))
    (missing : present s = none) (h : Reads value item b) :
    Reads (member room known s) (writeText key ++ item) (put s b) := by
  refine (name short).bind ?_
  rw [found]
  simp only [Reader.Field.once, missing]
  exact h.bind_pure (pure _)

end Members

/-- The members are taken one after the other, as many as the head of the map says. -/
theorem fields {start t : σ} {known : Nat → List (Reader.Field σ)}
    {entries : List (String × List UInt8)} (fits : entries.length < Word.count)
    (steps : Steps (member room (known room)) start
      (entries.map fun entry => writeText entry.1 ++ entry.2) t) :
    Reads (Reader.fields layout (room + 1) start known) (writeMap entries) t := by
  have members := times steps
  rw [List.length_map, ← List.flatMap_def] at members
  have opened : Reads layout.head (Head.map (some entries.length)).write
      (.map (some entries.length)) := by
    cases layout with
    | named => exact bareHead ⟨_, fits, rfl⟩
    | carried => exact head ⟨_, fits, rfl⟩
  exact opened.bind members

theorem structure1 {key : String} {value : Nat → Reader β} {item : List UInt8} {b : β}
    (short : Short key) (inside : Reads (value room) item b) :
    Reads (Reader.structure1 layout (room + 1) (key, value)) (writeMap [(key, item)]) b := by
  refine (fields (t := some b) ?_ ?_).bind_pure (pure b)
  · exact (by decide : 1 < Word.count)
  · exact .cons (once short find?_here rfl inside) (.nil _)

section Several

variable {key₁ key₂ key₃ : String} {value₁ : Nat → Reader β} {value₂ : Nat → Reader γ}
  {value₃ : Nat → Reader δ} {item₁ item₂ item₃ : List UInt8} {b : β} {c : γ} {d : δ}

/-- The first field is found at once and the second behind it, as they differ by name. -/
theorem structure2? (short₁ : Short key₁) (short₂ : Short key₂) (differ : key₁ ≠ key₂)
    (inside₁ : Reads (value₁ room) item₁ b) (inside₂ : Reads (value₂ room) item₂ c) :
    Reads (Reader.structure2? layout (room + 1) (key₁, value₁) (key₂, value₂))
      (writeMap [(key₁, item₁), (key₂, item₂)]) (some b, some c) := by
  refine fields (by exact (by decide : 2 < Word.count)) ?_
  refine .cons (once short₁ find?_here rfl inside₁) ?_
  exact .cons (once short₂ (find?_later differ find?_here) rfl inside₂) (.nil _)

theorem structure2 (short₁ : Short key₁) (short₂ : Short key₂) (differ : key₁ ≠ key₂)
    (inside₁ : Reads (value₁ room) item₁ b) (inside₂ : Reads (value₂ room) item₂ c) :
    Reads (Reader.structure2 layout (room + 1) (key₁, value₁) (key₂, value₂))
      (writeMap [(key₁, item₁), (key₂, item₂)]) (b, c) :=
  (structure2? short₁ short₂ differ inside₁ inside₂).bind_pure (pure (b, c))

theorem structure3 (short₁ : Short key₁) (short₂ : Short key₂) (short₃ : Short key₃)
    (differ₁₂ : key₁ ≠ key₂) (differ₁₃ : key₁ ≠ key₃) (differ₂₃ : key₂ ≠ key₃)
    (inside₁ : Reads (value₁ room) item₁ b) (inside₂ : Reads (value₂ room) item₂ c)
    (inside₃ : Reads (value₃ room) item₃ d) :
    Reads (Reader.structure3 layout (room + 1) (key₁, value₁) (key₂, value₂) (key₃, value₃))
      (writeMap [(key₁, item₁), (key₂, item₂), (key₃, item₃)]) (b, c, d) := by
  refine (fields (t := (some b, some c, some d)) ?_ ?_).bind_pure (pure (b, c, d))
  · exact (by decide : 3 < Word.count)
  · refine .cons (once short₁ find?_here rfl inside₁) ?_
    refine .cons (once short₂ (find?_later differ₁₂ find?_here) rfl inside₂) ?_
    exact .cons (once short₃ (find?_later differ₁₃ (find?_later differ₂₃ find?_here)) rfl inside₃)
      (.nil _)

end Several

/-! ## Variants and sequences -/

/-- A variant without data is written as its name alone. -/
theorem variant_bare {body : Nat → List UInt8 → Reader β} {key : String} {b : β}
    (short : Short key) (inside : Reads (body room (utf8 key)) [] b) :
    Reads (Reader.variant (room + 1) body) (writeText key) b := by
  have fits : (Head.text (some (utf8 key).length)).Fits :=
    ⟨_, Nat.lt_of_le_of_lt short (by decide), rfl⟩
  refine after_tags fits (List.prefix_append ..) (peek fits (List.prefix_append ..) ?_)
  exact (name short).bind_pure inside

theorem variant {body : Nat → List UInt8 → Reader β} {key : String} {item : List UInt8} {b : β}
    (short : Short key) (inside : Reads (body room (utf8 key)) item b) :
    Reads (Reader.variant (room + 1) body) (writeMap [(key, item)]) b := by
  have fits : (Head.map (some 1)).Fits := ⟨1, by decide, rfl⟩
  have named := (name short).bind inside
  rw [writeMap, List.flatMap_cons, List.flatMap_nil, List.append_nil]
  exact after_tags fits (List.prefix_append ..) (peek fits (List.prefix_append ..)
    ((head fits).bind named))

/-- A sequence is written as an array, and its items are taken back one by one. -/
theorem sequence {item : Nat → Reader β} {ofByte? : UInt8 → Option β} {pieces : List (List UInt8)}
    {bs : List β} (fits : pieces.length < Word.count)
    (each : List.Forall₂ (Reads (item room)) pieces bs) :
    Reads (Reader.sequence (room + 1) item ofByte?) (writeArray pieces) bs :=
  (bareHead (h := .array (some pieces.length)) ⟨_, fits, rfl⟩).bind (items each)

theorem nullable_null {value : Reader β} : Reads (Reader.nullable value) writeNull none := by
  have fits : (Head.simple 22).Fits := (by decide : 22 < 24)
  exact peek fits (List.prefix_refl _) ((head fits).bind_pure (pure none))

/-- What is there must not start with one of the two heads that stand for nothing. -/
theorem nullable {value : Reader β} {h : Head} {item : List UInt8} {b : β} (fits : h.Fits)
    (starts : h.write <+: item) (some_there : h ≠ .simple 22 ∧ h ≠ .simple 23)
    (inside : Reads value item b) : Reads (Reader.nullable value) item (some b) := by
  refine peek fits starts ?_
  have taken := inside.map some
  split
  · exact absurd rfl some_there.1
  · exact absurd rfl some_there.2
  · exact taken

end Reads

end CoEdit.Cbor
