import CoEdit.Proofs.Cbor.Reads
import CoEdit.Cbor.Form
import Mathlib.Data.List.Forall2
import Mathlib.Data.List.Induction

/-!
# What readers make of any bytes

Bytes from the network need not have been written here: numbers may be longer than necessary,
lengths may be absent, fields may stand in any order among others that are unknown. Whatever bytes
a reader accepts, it leaves no more of them than there were, and what it makes of them has the
properties that its parts guarantee (`Yields`). The bytes are fewer than there are words, as all
byte strings in memory are, and so are the lengths of all texts and sequences that are read.
-/

namespace CoEdit

/-- A number from bytes is less than the number of byte strings of that length. -/
theorem Word.ofBytes_lt (bs : List UInt8) : ofBytes bs < 256 ^ bs.length := by
  induction bs using List.reverseRecOn with
  | nil => simp [ofBytes]
  | append_singleton bs b ih =>
    have digit := b.toNat_lt
    rw [ofBytes_append, List.length_append, List.length_singleton, Nat.pow_succ']
    omega

namespace Cbor

/-- A text that was decoded has the bytes that it was decoded from. -/
theorem utf8_of_ofUtf8? {bs : List UInt8} {s : String} (decoded : ofUtf8? bs = some s) :
    utf8 s = bs := by
  simp only [ofUtf8?, String.fromUTF8?] at decoded
  split at decoded
  · cases decoded
    rfl
  · cases decoded

theorem utf8_append (s t : String) : utf8 (s ++ t) = utf8 s ++ utf8 t := by
  simp [utf8]

theorem forall₂_of_mapM {β γ : Type} {f : β → Option γ} {bs : List β} {cs : List γ}
    (found : bs.mapM f = some cs) : List.Forall₂ (fun b c => f b = some c) bs cs := by
  induction bs generalizing cs with
  | nil =>
    cases found
    exact .nil
  | cons b rest ih =>
    simp only [List.mapM_cons, bind, Option.bind_eq_some_iff] at found
    obtain ⟨c, first, more, others, joined⟩ := found
    cases joined
    exact .cons first (ih others)

/-- A text that came in pieces has the bytes of the pieces. -/
theorem utf8_join {pieces : List (List UInt8)} {parts : List String}
    (decoded : pieces.mapM ofUtf8? = some parts) : utf8 (String.join parts) = pieces.flatten := by
  have each := forall₂_of_mapM decoded
  clear decoded
  induction each with
  | nil => rfl
  | cons first _ ih =>
    rw [String.join_cons, utf8_append, utf8_of_ofUtf8? first, ih, List.flatten_cons]

/-- A length that is given is a word. -/
def Head.Sized : Head → Prop
  | .array length | .map length => ∀ n, length = some n → n < Word.count
  | _ => True

/-- From fewer bytes than there are words, the reader makes only what has the property, and it
leaves no more bytes than there were. -/
def Yields {β : Type} (r : Reader β) (P : β → Prop) : Prop :=
  ∀ bytes b rest, bytes.length < Word.count → r bytes = some (b, rest) →
    rest.length ≤ bytes.length ∧ P b

namespace Yields

variable {β γ σ : Type} {r : Reader β} {f : β → Reader γ} {P : β → Prop} {Q : γ → Prop}

theorem pure {b : β} (h : P b) : Yields (Pure.pure b) P := by
  intro bytes b' rest _ taken
  cases taken
  exact ⟨Nat.le_refl _, h⟩

theorem failure : Yields (Alternative.failure : Reader β) P := by
  intro bytes b rest _ taken
  cases taken

theorem lift {found : Option β} (h : ∀ b, found = some b → P b) : Yields (liftM found) P := by
  intro bytes b rest _ taken
  cases found with
  | none => cases taken
  | some b' =>
    cases taken
    exact ⟨Nat.le_refl _, h b rfl⟩

/-- The second reader meets no more bytes than the first one left. -/
theorem bind (first : Yields r P) (next : ∀ b, P b → Yields (f b) Q) : Yields (r >>= f) Q := by
  intro bytes c rest short taken
  change (r bytes).bind (fun p => f p.1 p.2) = some (c, rest) at taken
  obtain ⟨⟨b, between⟩, began, ended⟩ := Option.bind_eq_some_iff.mp taken
  obtain ⟨shorter, made⟩ := first bytes b between short began
  obtain ⟨shortest, made'⟩ :=
    next b made between c rest (Nat.lt_of_le_of_lt shorter short) ended
  exact ⟨Nat.le_trans shortest shorter, made'⟩

theorem weaken {P' : β → Prop} (h : Yields r P) (weaker : ∀ b, P b → P' b) : Yields r P' := by
  intro bytes b rest short taken
  obtain ⟨shorter, made⟩ := h bytes b rest short taken
  exact ⟨shorter, weaker b made⟩

/-- Whatever the reader makes, it makes it of the bytes in front. -/
theorem any (h : Yields r P) : Yields r fun _ => True := h.weaken fun _ _ => trivial

theorem map {g : β → γ} (h : Yields r P) (maps : ∀ b, P b → Q (g b)) : Yields (g <$> r) Q :=
  h.bind fun b made => pure (maps b made)

/-- Nothing is made unless a condition holds. -/
theorem guarded {p : Prop} [Decidable p] (h : p → Yields r P) :
    Yields (if p then r else Alternative.failure) P := by
  split
  · exact h ‹p›
  · exact failure

open Reader

theorem byte : Yields Reader.byte fun _ => True := by
  intro bytes b rest _ taken
  cases bytes with
  | nil => cases taken
  | cons first others =>
    cases taken
    exact ⟨Nat.le_succ _, trivial⟩

/-- What is taken and what is left are all the bytes that there were. -/
theorem take_length {n : Nat} {bytes bs rest : List UInt8}
    (taken : Reader.take n bytes = some (bs, rest)) :
    bs.length = n ∧ bs.length + rest.length = bytes.length := by
  simp only [Reader.take] at taken
  split at taken
  · rename_i enough
    cases taken
    rw [List.length_drop]
    rw [List.length_take] at enough ⊢
    omega
  · cases taken

theorem take (n : Nat) : Yields (Reader.take n) fun bs => bs.length = n ∧ n < Word.count := by
  intro bytes bs rest short taken
  obtain ⟨length, all⟩ := take_length taken
  refine ⟨?_, length, ?_⟩ <;> omega

theorem ahead (h : Yields r P) : Yields (Reader.ahead r) P := by
  intro bytes b rest short taken
  obtain ⟨⟨b', rest'⟩, seen, same⟩ := Option.map_eq_some_iff.mp taken
  cases same
  exact ⟨Nat.le_refl _, (h bytes b rest' short seen).2⟩

theorem number (size : Nat) : Yields (Reader.number size) fun n => n < 256 ^ size :=
  (take size).map fun bs length => length.1 ▸ Word.ofBytes_lt bs

/-- The number in a head has eight bytes at most. -/
theorem argument (low : Nat) :
    Yields (Reader.argument low) fun found => ∀ n, found = some n → n < Word.count := by
  have behind : ∀ size ≤ 8, Yields (some <$> Reader.number size) fun found =>
      ∀ n, found = some n → n < Word.count := by
    intro size small
    refine (number size).map ?_
    rintro n fits _ ⟨⟩
    exact Nat.lt_of_lt_of_le fits (Nat.pow_le_pow_right (by decide) small)
  simp only [Reader.argument]
  split_ifs with tiny
  · refine pure ?_
    rintro _ ⟨⟩
    exact Nat.lt_trans tiny (by decide)
  · exact behind 1 (by decide)
  · exact behind 2 (by decide)
  · exact behind 4 (by decide)
  · exact behind 8 (by decide)
  · refine pure ?_
    rintro _ ⟨⟩
  · exact failure

theorem head : Yields Reader.head Head.Sized := by
  refine byte.bind fun first _ => (argument _).bind fun found sized => ?_
  split
  all_goals first
    | exact failure
    | exact pure sized
    | exact pure trivial
    | split_ifs <;> exact pure trivial

theorem skipTagsWithin (wanted : Nat → Bool) (fuel : Nat) :
    Yields (Reader.skipTagsWithin wanted fuel) fun _ => True := by
  induction fuel with
  | zero => exact failure
  | succ fuel ih =>
    refine (ahead head).bind fun h _ => ?_
    split
    · split_ifs
      · exact pure trivial
      · exact head.bind fun _ _ => ih
    · exact pure trivial

theorem skipTags (wanted : Nat → Bool) : Yields (Reader.skipTags wanted) fun _ => True :=
  fun bytes => skipTagsWithin wanted bytes.length bytes

theorem bareHead : Yields Reader.bareHead Head.Sized := (skipTags _).bind fun _ _ => head

/-! ## Repetitions -/

section Repetitions

variable {step : σ → Reader σ} {I : Nat → σ → Prop} {s : σ} {k : Nat}

/-- What every step carries on from one count to the next is carried through all of them. -/
theorem times (each : ∀ k s, I k s → Yields (step s) (I (k + 1))) (n : Nat) (start : I k s) :
    Yields (Reader.times step n s) (I (k + n)) := by
  induction n generalizing k s with
  | zero => exact pure start
  | succ n ih =>
    refine (each k s start).bind fun t made => ?_
    rw [← Nat.add_assoc, Nat.add_right_comm]
    exact ih made

/-- Every step takes its share of the fuel. -/
theorem toStopWithin (each : ∀ k s, I k s → Yields (step s) (I (k + 1))) (fuel : Nat)
    (start : I k s) :
    Yields (Reader.toStopWithin step fuel s) fun t => ∃ n < fuel, I (k + n) t := by
  induction fuel generalizing k s with
  | zero => exact failure
  | succ fuel ih =>
    intro bytes t rest short taken
    simp only [Reader.toStopWithin] at taken
    split at taken
    · cases taken
      exact ⟨Nat.le_succ _, 0, Nat.succ_pos _, start⟩
    · have others : Yields (step s >>= fun u => Reader.toStopWithin step fuel u) fun t =>
          ∃ n < fuel + 1, I (k + n) t := by
        refine (each k s start).bind fun u made => (ih made).weaken ?_
        rintro v ⟨n, spent, made⟩
        refine ⟨n + 1, Nat.succ_lt_succ spent, ?_⟩
        rwa [← Nat.add_assoc, Nat.add_right_comm]
      exact others bytes t rest short taken

/-- A step is repeated fewer times than there are words. -/
theorem repeated (each : ∀ k s, I k s → Yields (step s) (I (k + 1))) {length : Option Nat}
    (sized : ∀ n, length = some n → n < Word.count) (start : I 0 s) :
    Yields (Reader.repeated step length s) fun t => ∃ n < Word.count, I n t := by
  cases length with
  | some n =>
    refine (times each n start).weaken fun t made => ?_
    rw [Nat.zero_add] at made
    exact ⟨n, sized n rfl, made⟩
  | none =>
    intro bytes t rest short taken
    obtain ⟨shorter, n, spent, made⟩ :=
      toStopWithin each (bytes.length + 1) start bytes t rest short taken
    rw [Nat.zero_add] at made
    exact ⟨shorter, n, by omega, made⟩

end Repetitions

/-- What holds of all the time holds at the end. -/
theorem repeated_of {step : σ → Reader σ} {I : σ → Prop} {s : σ} {length : Option Nat}
    (each : ∀ s, I s → Yields (step s) I) (sized : ∀ n, length = some n → n < Word.count)
    (start : I s) : Yields (Reader.repeated step length s) I :=
  (repeated (I := fun _ => I) (fun _ => each) sized start).weaken
    fun _ ⟨_, _, made⟩ => made

/-- There are fewer items than words, and each is what its reader makes. -/
theorem items {item : Reader β} {length : Option Nat} (each : Yields item P)
    (sized : ∀ n, length = some n → n < Word.count) :
    Yields (Reader.items item length) fun bs => bs.length < Word.count ∧ ∀ b ∈ bs, P b := by
  have steps : Yields (Reader.repeated (fun taken => do return (← item) :: taken) length [])
      fun taken => ∃ n < Word.count, taken.length = n ∧ ∀ b ∈ taken, P b := by
    refine repeated (fun k taken made => ?_) sized ⟨rfl, nofun⟩
    refine each.bind fun b made' => pure ⟨congrArg Nat.succ made.1, ?_⟩
    rintro c (_ | ⟨_, older⟩)
    · exact made'
    · exact made.2 c older
  refine steps.bind ?_
  rintro taken ⟨n, few, counted, made⟩
  refine pure ⟨?_, ?_⟩
  · rw [List.length_reverse, counted]
    exact few
  · intro b inside
    exact made b (List.mem_reverse.mp inside)

/-! ## Strings and numbers -/

/-- The segments of a string are some of the bytes that are taken. -/
theorem segmentsWithin {segment? : Head → Option (Option Nat)} {fuel depth : Nat}
    {bytes rest : List UInt8} {parts : List (List UInt8)} (short : bytes.length < Word.count)
    (taken : Reader.segmentsWithin segment? fuel depth bytes = some (parts, rest)) :
    parts.flatten.length + rest.length ≤ bytes.length := by
  -- strings in segments may stand in each other, so the depth varies along the way
  induction fuel generalizing depth bytes parts with
  | zero => cases taken
  | succ fuel ih =>
    obtain ⟨⟨h, behind⟩, first, taken⟩ := Option.bind_eq_some_iff.mp taken
    have shorter := (head bytes h behind short first).1
    have others : ∀ {depth parts}, Reader.segmentsWithin segment? fuel depth behind =
        some (parts, rest) → parts.flatten.length + rest.length ≤ bytes.length := fun taken =>
      Nat.le_trans (ih (Nat.lt_of_le_of_lt shorter short) taken) shorter
    dsimp only at taken
    split at taken
    · split at taken
      · cases taken
        simpa using shorter
      · exact others taken
    · cases found : segment? h with
      | none =>
        rw [found] at taken
        cases taken
      | some length =>
        cases length with
        | none =>
          rw [found] at taken
          exact others taken
        | some n =>
          rw [found] at taken
          obtain ⟨⟨segment, after⟩, second, taken⟩ := Option.bind_eq_some_iff.mp taken
          obtain ⟨⟨more, last⟩, third, joined⟩ := Option.bind_eq_some_iff.mp taken
          cases joined
          have length := (take_length second).2
          have later := ih (by omega) third
          rw [List.flatten_cons, List.length_append]
          omega

theorem segments (segment? : Head → Option (Option Nat)) (length : Option Nat) :
    Yields (Reader.segments segment? length) fun parts => parts.flatten.length < Word.count := by
  cases length with
  | some n =>
    refine (take n).bind fun bs fits => pure ?_
    rw [List.flatten_singleton, fits.1]
    exact fits.2
  | none =>
    intro bytes parts rest short taken
    have all := segmentsWithin short taken
    constructor <;> omega

theorem bytesBody (length : Option Nat) :
    Yields (Reader.bytesBody length) fun bs => bs.length < Word.count :=
  (segments _ length).bind fun _ few => pure few

theorem textBody (length : Option Nat) :
    Yields (Reader.textBody length) fun s => (utf8 s).length < Word.count := by
  refine (segments _ length).bind fun parts few => ?_
  split
  · rename_i decoded
    refine pure ?_
    rw [utf8_join decoded]
    exact few
  · exact failure

theorem text : Yields Reader.text fun s => (utf8 s).length < Word.count := by
  refine bareHead.bind fun h _ => ?_
  split
  · exact textBody _
  · exact failure

/-- A short string has the properties that its conversion gives. -/
theorem shortString {length? : Head → Option Nat} {limit : Nat} {convert? : List UInt8 → Option β}
    (converts : ∀ bs b, convert? bs = some b → P b) :
    Yields (Reader.shortString length? limit convert?) P := by
  refine bareHead.bind fun h _ => ?_
  split
  · refine guarded fun _ => (take _).bind fun bs _ => ?_
    split
    · exact pure (converts bs _ ‹_›)
    · exact failure
  · exact failure

theorem name : Yields Reader.name fun _ => True := by
  refine bareHead.bind fun h _ => ?_
  split
  · exact guarded fun _ => (take _).bind fun bs _ => guarded fun _ => pure trivial
  · exact guarded fun _ => (take _).any
  · exact failure

theorem bigNumber : Yields Reader.bigNumber fun _ => True := by
  refine head.bind fun h _ => ?_
  split
  · exact (bytesBody _).bind fun bs _ => guarded fun _ => pure trivial
  · exact failure

theorem integer : Yields Reader.integer fun _ => True := by
  refine (skipTags _).bind fun _ _ => head.bind fun h _ => ?_
  split
  · exact pure trivial
  · exact pure trivial
  · exact bigNumber.bind fun _ _ => pure trivial
  · exact failure

/-- A number counts as a word only if it is one. -/
theorem word : Yields Reader.word fun n => n < Word.count := by
  refine integer.bind fun i _ => ?_
  split
  · rename_i n unsigned
    simp only [Word.unsigned?] at unsigned
    split_ifs at unsigned with inside
    cases unsigned
    exact pure (by omega)
  · exact failure

theorem signedWord : Yields Reader.signedWord fun _ => True := by
  refine integer.bind fun i _ => ?_
  split
  · exact pure trivial
  · exact failure

/-! ## What is passed over -/

theorem shortNumber? (tag : Nat) : Yields (Reader.shortNumber? tag) fun _ => True := by
  refine (ahead head).bind fun h _ => ?_
  split
  · split_ifs
    · exact head.bind fun _ _ => (take _).bind fun _ _ => pure trivial
    · exact pure trivial
  · exact pure trivial

theorem skipBody {inside : Option (Reader Unit)}
    (below : ∀ item, inside = some item → Yields item fun _ => True) {h : Head} (sized : h.Sized) :
    Yields (Reader.skipBody inside h) fun _ => True := by
  simp only [Reader.skipBody]
  split
  · exact pure trivial
  · exact pure trivial
  · exact pure trivial
  · exact (bytesBody _).bind fun _ _ => pure trivial
  · exact (textBody _).bind fun _ _ => pure trivial
  · exact repeated_of (fun _ _ => below _ rfl) sized trivial
  · exact repeated_of (fun _ _ => (below _ rfl).bind fun _ _ => below _ rfl) sized trivial
  · refine (shortNumber? _).bind fun found _ => ?_
    split
    · exact guarded fun _ => pure trivial
    · exact below _ rfl
    · exact failure
  · exact guarded fun _ => pure trivial
  · exact failure

theorem skip (room : Nat) : Yields (Reader.skip room) fun _ => True := by
  induction room with
  | zero => exact head.bind fun h sized => skipBody (by rintro _ ⟨⟩) sized
  | succ room ih =>
    refine head.bind fun h sized => skipBody ?_ sized
    rintro _ ⟨⟩
    exact ih

/-! ## Structures -/

variable {layout : Layout} {room : Nat}

theorem enter {inside : Nat → Reader β} (below : ∀ n, room = n + 1 → Yields (inside n) P) :
    Yields (Reader.enter room inside) P := by
  cases room with
  | zero => exact failure
  | succ n => exact below n rfl

section Fields

variable {I : σ → Prop} {s : σ}

theorem once {name : String} {present : σ → Option β} {put : σ → β → σ} {value : Reader β}
    (inside : Yields value P) (puts : ∀ b, P b → I (put s b)) :
    Yields ((Reader.Field.once name present put value).read s) I := by
  simp only [Reader.Field.once]
  split
  · exact failure
  · exact inside.bind fun b made => pure (puts b made)

variable {known : List (Reader.Field σ)} {length : Option Nat}

theorem byName (each : ∀ f ∈ known, ∀ s, I s → Yields (f.read s) I)
    (sized : ∀ n, length = some n → n < Word.count) (start : I s) :
    Yields (Reader.byName room known length s) I := by
  refine repeated_of (fun t made => ?_) sized start
  refine name.bind fun key _ => ?_
  split
  · rename_i f found
    exact each f (List.mem_of_find?_eq_some found) t made
  · exact (skip room).bind fun _ _ => pure made

theorem inOrder (each : ∀ f ∈ known, ∀ s, I s → Yields (f.read s) I) (start : I s) :
    Yields (Reader.inOrder known length s) I := by
  induction known generalizing length s with
  | nil => exact pure start
  | cons f rest ih =>
    have others := fun g inside => each g (List.mem_cons_of_mem f inside)
    -- the length only decides whether the row ends too early
    have here : ∀ length, Yields (do Reader.inOrder rest length (← f.read s)) I := fun length =>
      (each f List.mem_cons_self s start).bind fun t made => ih others made
    match length with
    | some 0 => exact failure
    | some (n + 1) => exact here (some n)
    | none => exact here none

/-- What holds of the fields all the time holds of the structure. -/
theorem fields {known : Nat → List (Reader.Field σ)}
    (each : ∀ n, room = n + 1 → ∀ f ∈ known n, ∀ s, I s → Yields (f.read s) I) (start : I s) :
    Yields (Reader.fields layout room s known) I := by
  have opened : Yields layout.head Head.Sized := by
    cases layout with
    | named => exact bareHead
    | carried => exact head
  refine opened.bind fun h sized => ?_
  split
  · exact enter fun n up => byName (each n up) sized start
  · exact enter fun n up => inOrder (each n up) start
  · exact failure

end Fields

section Structures

variable {δ : Type} {R : δ → Prop} {first : String × (Nat → Reader β)}
  {second : String × (Nat → Reader γ)} {third : String × (Nat → Reader δ)}

theorem structure1 (inside : ∀ n, room = n + 1 → Yields (first.2 n) P) :
    Yields (Reader.structure1 layout room first) P := by
  refine Yields.bind (P := fun found => ∀ b, found = some b → P b) ?_ fun found made => ?_
  · refine fields (fun n up => ?_) nofun
    rintro f (_ | ⟨_, ⟨⟩⟩) s _
    refine once (inside n up) ?_
    rintro b made _ ⟨⟩
    exact made
  · split
    · exact pure (made _ rfl)
    · exact failure

/-- Of a structure whose fields may be missing, those that are there have their properties. -/
theorem structure2? (inside₁ : ∀ n, room = n + 1 → Yields (first.2 n) P)
    (inside₂ : ∀ n, room = n + 1 → Yields (second.2 n) Q) :
    Yields (Reader.structure2? layout room first second) fun found =>
      (∀ b, found.1 = some b → P b) ∧ ∀ c, found.2 = some c → Q c := by
  refine fields (fun n up => ?_) ⟨nofun, nofun⟩
  rintro f (_ | ⟨_, _ | ⟨_, ⟨⟩⟩⟩) s made
  · refine once (inside₁ n up) fun b made' => ⟨?_, made.2⟩
    rintro _ ⟨⟩
    exact made'
  · refine once (inside₂ n up) fun c made' => ⟨made.1, ?_⟩
    rintro _ ⟨⟩
    exact made'

theorem structure2 (inside₁ : ∀ n, room = n + 1 → Yields (first.2 n) P)
    (inside₂ : ∀ n, room = n + 1 → Yields (second.2 n) Q) :
    Yields (Reader.structure2 layout room first second) fun found => P found.1 ∧ Q found.2 := by
  refine (structure2? inside₁ inside₂).bind fun found made => ?_
  split
  · exact pure ⟨made.1 _ rfl, made.2 _ rfl⟩
  · exact failure

theorem structure3 (inside₁ : ∀ n, room = n + 1 → Yields (first.2 n) P)
    (inside₂ : ∀ n, room = n + 1 → Yields (second.2 n) Q)
    (inside₃ : ∀ n, room = n + 1 → Yields (third.2 n) R) :
    Yields (Reader.structure3 layout room first second third) fun found =>
      P found.1 ∧ Q found.2.1 ∧ R found.2.2 := by
  refine Yields.bind (P := fun found : Option β × Option γ × Option δ =>
    (∀ b, found.1 = some b → P b) ∧ (∀ c, found.2.1 = some c → Q c) ∧
      ∀ d, found.2.2 = some d → R d) ?_ fun found made => ?_
  · refine fields (fun n up => ?_) ⟨nofun, nofun, nofun⟩
    rintro f (_ | ⟨_, _ | ⟨_, _ | ⟨_, ⟨⟩⟩⟩⟩) s made
    · refine once (inside₁ n up) fun b made' => ⟨?_, made.2.1, made.2.2⟩
      rintro _ ⟨⟩
      exact made'
    · refine once (inside₂ n up) fun c made' => ⟨made.1, ?_, made.2.2⟩
      rintro _ ⟨⟩
      exact made'
    · refine once (inside₃ n up) fun d made' => ⟨made.1, made.2.1, ?_⟩
      rintro _ ⟨⟩
      exact made'
  · split
    · exact pure ⟨made.1 _ rfl, made.2.1 _ rfl, made.2.2 _ rfl⟩
    · exact failure

end Structures

/-! ## Variants and sequences -/

theorem variant {body : Nat → List UInt8 → Reader β}
    (inside : ∀ n name, room = n + 1 → Yields (body n name) P) :
    Yields (Reader.variant room body) P := by
  have named : Yields (Reader.enter room fun room => do body room (← Reader.name)) P :=
    enter fun n up => name.bind fun key _ => inside n key up
  refine (skipTags _).bind fun _ _ => (ahead head).bind fun h _ => ?_
  split
  · exact head.bind fun _ _ => named
  · exact named
  · exact failure

/-- A sequence is an array of items or a row of bytes that stand for items. -/
theorem sequence {item : Nat → Reader β} {ofByte? : UInt8 → Option β}
    (inside : ∀ n, room = n + 1 → Yields (item n) P)
    (ofByte : ∀ byte b, ofByte? byte = some b → P b) :
    Yields (Reader.sequence room item ofByte?) fun bs =>
      bs.length < Word.count ∧ ∀ b ∈ bs, P b := by
  refine bareHead.bind fun h sized => ?_
  split
  · exact enter fun n up => items (inside n up) sized
  · refine (bytesBody _).bind fun bs few => ?_
    split
    · rename_i found
      have stand := forall₂_of_mapM found
      refine pure ⟨stand.length_eq ▸ few, ?_⟩
      clear found few
      induction stand with
      | nil => nofun
      | cons first _ ih => exact List.forall_mem_cons.mpr ⟨ofByte _ _ first, ih⟩
    · exact failure
  · exact failure

theorem nullable {value : Reader β} (inside : Yields value P) :
    Yields (Reader.nullable value) fun found => ∀ b, found = some b → P b := by
  have there : Yields (some <$> value) fun found => ∀ b, found = some b → P b := by
    refine inside.map ?_
    rintro b made _ ⟨⟩
    exact made
  refine (ahead head).bind fun h _ => ?_
  split
  · exact head.bind fun _ _ => pure nofun
  · exact head.bind fun _ _ => pure nofun
  · exact there

end Yields

end Cbor

end CoEdit
