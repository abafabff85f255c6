import CoEdit.Cbor.Text
import Mathlib.Algebra.Group.Nat.Defs
import Mathlib.Data.List.Basic

/-!
# Readers that take back what was written

A reader takes back a piece of bytes if it takes exactly these off the front of whatever they stand
in, and makes the right thing of them (`Reads`). Readers put together from parts take back what is
put together from the parts' bytes; here this is shown for heads, numbers and strings.
-/

namespace CoEdit

namespace Word

theorem ofBytes_append (bs : List UInt8) (b : UInt8) :
    ofBytes (bs ++ [b]) = 256 * ofBytes bs + b.toNat := by
  simp [ofBytes]

/-- Bytes hold a number up to what is too large for them. -/
theorem ofBytes_bytes (size n : Nat) : ofBytes (bytes size n) = n % 256 ^ size := by
  induction size generalizing n with
  | zero => simp [ofBytes, bytes, Nat.mod_one]
  | succ size ih =>
    have split : 256 ^ (size + 1) = 256 * 256 ^ size := Nat.pow_succ'
    rw [bytes, ofBytes_append, ih, UInt8.toNat_ofNat', split, Nat.mod_mul]
    exact Nat.add_comm ..

end Word

namespace Cbor

/-- The reader takes the bytes off the front and makes `b` of them, whatever stands behind them. -/
def Reads {β : Type} (r : Reader β) (bytes : List UInt8) (b : β) : Prop :=
  ∀ rest, r (bytes ++ rest) = some (b, rest)

/-- The heads that are written: lengths are given, and numbers are words. -/
def Head.Fits : Head → Prop
  | .positive n | .negative n => n < Word.count
  | .bytes length | .text length | .array length | .map length => ∃ n < Word.count, length = some n
  | .simple n => n < 24
  | .tag _ | .float | .stop => False

namespace Reads

variable {β γ : Type} {r : Reader β} {f : β → Reader γ} {bytes more : List UInt8} {b : β} {c : γ}

theorem pure (b : β) : Reads (Pure.pure b) [] b := fun _ => rfl

theorem lift {found : Option β} (h : found = some b) : Reads (liftM found) [] b := by
  subst h
  exact fun _ => rfl

theorem bind (first : Reads r bytes b) (next : Reads (f b) more c) :
    Reads (r >>= f) (bytes ++ more) c := by
  intro rest
  change (r (bytes ++ more ++ rest)).bind (fun p => f p.1 p.2) = _
  rw [List.append_assoc, first]
  exact next rest

/-- The last step may leave it at what was taken before. -/
theorem bind_pure (first : Reads r bytes b) (next : Reads (f b) [] c) :
    Reads (r >>= f) bytes c := by
  have := first.bind next
  rwa [List.append_nil] at this

theorem map (h : Reads r bytes b) (g : β → γ) : Reads (g <$> r) bytes (g b) := by
  intro rest
  change (r (bytes ++ rest)).bind (fun p => some (g p.1, p.2)) = _
  rw [h]
  rfl

open Reader

theorem byte (b : UInt8) : Reads Reader.byte [b] b := fun _ => rfl

theorem take (bytes : List UInt8) : Reads (Reader.take bytes.length) bytes bytes := by
  intro rest
  simp [Reader.take]

theorem number {size n : Nat} (fits : n < 256 ^ size) :
    Reads (Reader.number size) (Word.bytes size n) n := by
  have taken := (take (Word.bytes size n)).map Word.ofBytes
  rw [Word.length_bytes, Word.ofBytes_bytes, Nat.mod_eq_of_lt fits] at taken
  exact taken

/-- The first byte of a head tells its major type, and where the number is. -/
theorem argument {major n : Nat} (small : major < 8) (fits : n < Word.count) :
    ∃ first tail, writeHead major n = first :: tail ∧ first.toNat / 32 = major ∧
      Reads (Reader.argument (first.toNat % 32)) tail (some n) ∧
      (n < 24 → first.toNat % 32 = n) := by
  have split : ∀ low < 32, (UInt8.ofNat (32 * major + low)).toNat / 32 = major ∧
      (UInt8.ofNat (32 * major + low)).toNat % 32 = low := by
    intro low inside
    rw [UInt8.toNat_ofNat', Nat.mod_eq_of_lt (by omega)]
    omega
  have behind : ∀ low size : Nat, low < 32 → n < 256 ^ size →
      Reader.argument low = some <$> Reader.number size →
      Reads (Reader.argument ((UInt8.ofNat (32 * major + low)).toNat % 32)) (Word.bytes size n)
        (some n) := by
    intro low size inside short number_behind
    rw [(split low inside).2, number_behind]
    exact (number short).map some
  simp only [Word.count] at fits
  simp only [writeHead]
  split_ifs with tiny byte_long two_long four_long
  · refine ⟨_, [], rfl, (split n (by omega)).1, ?_, fun _ => (split n (by omega)).2⟩
    rw [(split n (by omega)).2, Reader.argument, if_pos tiny]
    exact pure _
  · exact ⟨_, _, rfl, (split 24 (by omega)).1, behind 24 1 (by omega) (by omega) rfl,
      fun h => absurd h tiny⟩
  · exact ⟨_, _, rfl, (split 25 (by omega)).1, behind 25 2 (by omega) (by omega) rfl,
      fun h => absurd h tiny⟩
  · exact ⟨_, _, rfl, (split 26 (by omega)).1, behind 26 4 (by omega) (by omega) rfl,
      fun h => absurd h tiny⟩
  · exact ⟨_, _, rfl, (split 27 (by omega)).1, behind 27 8 (by omega) (by omega) rfl,
      fun h => absurd h tiny⟩

theorem head {h : Head} (fits : h.Fits) : Reads Reader.head h.write h := by
  have whole : ∀ {major n : Nat} {answer : Head}, major < 8 → n < Word.count →
      (∀ (first : UInt8) (tail : List UInt8), first.toNat / 32 = major →
        (n < 24 → first.toNat % 32 = n) → Reads (Reader.argument (first.toNat % 32)) tail (some n) →
        Reads Reader.head (first :: tail) answer) →
      Reads Reader.head (writeHead major n) answer := by
    intro major n answer small inside finish
    obtain ⟨first, tail, written, type, behind, low⟩ := argument small inside
    rw [written]
    exact finish first tail type low behind
  cases h with
  | positive n | negative n =>
    refine whole (by decide) fits fun first tail type low behind => ?_
    refine (byte first).bind (behind.bind_pure ?_)
    rw [type]
    exact pure _
  | bytes length | text length | array length | map length =>
    obtain ⟨n, inside, rfl⟩ := fits
    refine whole (by decide) inside fun first tail type low behind => ?_
    refine (byte first).bind (behind.bind_pure ?_)
    rw [type]
    exact pure _
  | simple n =>
    have inside : n < 24 := fits
    refine whole (by decide) (by simp only [Word.count]; omega) fun first tail type low behind => ?_
    refine (byte first).bind (behind.bind_pure ?_)
    rw [type, low inside]
    change Reads (Pure.pure (if n ≤ 24 then Head.simple n else Head.float)) [] (Head.simple n)
    rw [if_pos (by omega)]
    exact pure _
  | tag n => exact fits.elim
  | float => exact fits.elim
  | stop => exact fits.elim

/-- Looking at the head leaves everything in place. -/
theorem ahead_head {h : Head} (fits : h.Fits) (starts : h.write <+: bytes) (rest : List UInt8) :
    ahead Reader.head (bytes ++ rest) = some (h, bytes ++ rest) := by
  obtain ⟨tail, rfl⟩ := starts
  rw [List.append_assoc, ahead, head fits (tail ++ rest)]
  rfl

theorem peek {h : Head} {f : Head → Reader γ} (fits : h.Fits) (starts : h.write <+: bytes)
    (next : Reads (f h) bytes c) : Reads (ahead Reader.head >>= f) bytes c := by
  intro rest
  change (ahead Reader.head (bytes ++ rest)).bind (fun p => f p.1 p.2) = _
  rw [ahead_head fits starts]
  exact next rest

/-- There are no tags in front of what is written. -/
theorem skipTags_eq {h : Head} (fits : h.Fits) (starts : h.write <+: bytes)
    (wanted : Nat → Bool) (rest : List UInt8) :
    skipTags wanted (bytes ++ rest) = some ((), bytes ++ rest) := by
  have seen := ahead_head fits starts rest
  rw [skipTags]
  cases length : (bytes ++ rest).length with
  | zero =>
    rw [List.eq_nil_of_length_eq_zero length] at seen
    cases seen
  | succ fuel =>
    rw [skipTagsWithin]
    change (ahead Reader.head (bytes ++ rest)).bind (fun p => _) = _
    rw [seen]
    cases h <;> first | rfl | exact fits.elim

theorem after_tags {h : Head} {wanted : Nat → Bool} {r : Unit → Reader γ} (fits : h.Fits)
    (starts : h.write <+: bytes) (next : Reads (r ()) bytes c) :
    Reads (skipTags wanted >>= r) bytes c := by
  intro rest
  change (skipTags wanted (bytes ++ rest)).bind (fun p => r p.1 p.2) = _
  rw [skipTags_eq fits starts]
  exact next rest

theorem bareHead {h : Head} (fits : h.Fits) : Reads Reader.bareHead h.write h :=
  after_tags fits (List.prefix_refl _) (head fits)

/-! ## Numbers -/

theorem integer {n : Int} (low : -(Word.count : Int) ≤ n) (high : n < Word.count) :
    Reads Reader.integer (writeInt n) n := by
  cases n with
  | ofNat n =>
    have fits : (Head.positive n).Fits := Int.ofNat_lt.mp high
    refine after_tags fits (List.prefix_refl _) ((head fits).bind_pure ?_)
    exact pure _
  | negSucc n =>
    have fits : (Head.negative n).Fits := by
      change n < Word.count
      omega
    refine after_tags fits (List.prefix_refl _) ((head fits).bind_pure ?_)
    have value : -1 - (n : Int) = Int.negSucc n := by
      rw [Int.negSucc_eq]
      omega
    change Reads (Pure.pure (-1 - (n : Int))) [] (Int.negSucc n)
    rw [value]
    exact pure _

theorem word {n : Nat} (fits : n < Word.count) : Reads Reader.word (writeInt n) n := by
  refine (integer ?_ (Int.ofNat_lt.mpr fits)).bind_pure ?_
  · omega
  · rw [Word.unsigned?_of_lt fits]
    exact pure _

theorem signedWord (n : Int64) : Reads Reader.signedWord (writeInt n.toInt) n := by
  have low := n.le_toInt
  have high := n.toInt_lt
  refine (integer ?_ ?_).bind_pure ?_
  · simp only [Word.count]
    omega
  · simp only [Word.count]
    omega
  · rw [Word.signed?_toInt]
    exact pure _

/-! ## Strings -/

theorem textBody (s : String) : Reads (Reader.textBody (some (utf8 s).length)) (utf8 s) s := by
  refine bind_pure (b := [utf8 s]) ((take (utf8 s)).bind_pure (pure _)) ?_
  have parts : [utf8 s].mapM ofUtf8? = some [s] := by
    simp [ofUtf8?_utf8]
  rw [parts]
  have whole : String.join [s] = s := by simp [String.join]
  change Reads (Pure.pure (String.join [s])) [] s
  rw [whole]
  exact pure s

theorem text {s : String} (fits : (utf8 s).length < Word.count) :
    Reads Reader.text (writeText s) s :=
  (bareHead (h := .text (some (utf8 s).length)) ⟨_, fits, rfl⟩).bind (textBody s)

theorem name {s : String} (short : (utf8 s).length ≤ shortLimit) :
    Reads Reader.name (writeText s) (utf8 s) := by
  have fits : (Head.text (some (utf8 s).length)).Fits :=
    ⟨_, Nat.lt_of_le_of_lt short (by decide), rfl⟩
  refine (bareHead fits).bind ?_
  change Reads (if (utf8 s).length ≤ shortLimit then _ else _) (utf8 s) (utf8 s)
  rw [if_pos short]
  refine (take (utf8 s)).bind_pure ?_
  rw [ofUtf8?_utf8]
  exact pure _

/-- A short string of the wanted kind is taken back if its bytes are converted back. -/
theorem shortString {h : Head} {length? : Head → Option Nat} {limit : Nat}
    {convert? : List UInt8 → Option β} (fits : h.Fits) (kind : length? h = some bytes.length)
    (short : bytes.length ≤ limit) (converted : convert? bytes = some b) :
    Reads (Reader.shortString length? limit convert?) (h.write ++ bytes) b := by
  refine (bareHead fits).bind ?_
  simp only [kind, short, if_true]
  refine (take bytes).bind_pure ?_
  rw [converted]
  exact pure b

/-! ## Sequences -/

/-- A step that is repeated takes one piece at a time. -/
inductive Steps {σ : Type} (step : σ → Reader σ) : σ → List (List UInt8) → σ → Prop where
  | nil (s : σ) : Steps step s [] s
  | cons {s t u : σ} {piece : List UInt8} {rest : List (List UInt8)}
      (first : Reads (step s) piece t) (others : Steps step t rest u) :
      Steps step s (piece :: rest) u

theorem times {σ : Type} {step : σ → Reader σ} {s t : σ} {pieces : List (List UInt8)}
    (h : Steps step s pieces t) : Reads (Reader.times step pieces.length s) pieces.flatten t := by
  induction h with
  | nil s => exact pure s
  | cons first others ih => exact first.bind ih

/-- Every item is taken back. -/
theorem items {item : Reader β} {pieces : List (List UInt8)} {bs : List β}
    (each : List.Forall₂ (Reads item) pieces bs) :
    Reads (Reader.items item (some pieces.length)) pieces.flatten bs := by
  have steps : ∀ taken : List β, Steps (fun taken => do return (← item) :: taken) taken pieces
      (bs.reverse ++ taken) := by
    induction each with
    | nil => exact fun taken => .nil taken
    | @cons piece b pieces bs first others ih =>
      intro taken
      rw [List.reverse_cons, List.append_assoc]
      exact .cons (first.bind_pure (pure _)) (ih (b :: taken))
  refine (times (steps [])).bind_pure ?_
  rw [List.append_nil, List.reverse_reverse]
  exact pure bs

/-- The entries of a map are pieces of a key and an item. -/
theorem entries {entry : Reader β} {written : List (String × List UInt8)} {bs : List β}
    (each : List.Forall₂ (Reads entry) (written.map fun e => writeText e.1 ++ e.2) bs) :
    Reads (Reader.items entry (some written.length))
      (written.flatMap fun (key, item) => writeText key ++ item) bs := by
  have pieces := items each
  rwa [List.length_map, ← List.flatMap_def] at pieces

end Reads

end Cbor

end CoEdit
