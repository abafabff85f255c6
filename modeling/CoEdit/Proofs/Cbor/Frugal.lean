import CoEdit.Proofs.Cbor.RoundTrip
import CoEdit.Proofs.Cbor.Yields

/-!
# Messages that end by themselves

A reader takes what it needs and no more: whatever it makes of some bytes, it makes of them as well
if more stand behind them (`Frugal`). A reader that goes on up to a stop has as much fuel as there
are bytes, so with more bytes it is another reader; that one goes further, but not elsewhere
(`Extends`).

So the bytes of a message are not the beginning of the bytes of another one
(`messages_self_delimiting`). Bytes that are cut off anywhere are not a message at all: what they
stood for would still be there in front of the rest.
-/

namespace CoEdit

namespace Cbor

/-- Whatever the first reader makes of some bytes, the second makes of them as well if more stand
behind them, and it leaves these. -/
def Extends {β : Type} (r r' : Reader β) : Prop :=
  ∀ bytes b rest more, r bytes = some (b, rest) → r' (bytes ++ more) = some (b, rest ++ more)

/-- A reader that does not mind what stands behind the bytes that it takes. -/
abbrev Frugal {β : Type} (r : Reader β) : Prop := Extends r r

/-- A reader that makes nothing of no bytes. -/
def Hungry {β : Type} (r : Reader β) : Prop := r [] = none

section Parts

variable {β γ σ : Type} {r r' : Reader β} {f f' : β → Reader γ}

/-- What starts with a reader that wants bytes wants them as well. -/
theorem Hungry.bind (hungry : Hungry r) (f : β → Reader γ) : Hungry (r >>= f) := by
  change (r []).bind (fun p => f p.1 p.2) = none
  rw [hungry]
  rfl

namespace Extends

theorem pure (b : β) : Frugal (Pure.pure b) := by
  intro bytes b' rest more taken
  cases taken
  rfl

/-- A reader that always fails is extended by any other. -/
theorem failure : Extends (Alternative.failure : Reader β) r := by
  intro bytes b rest more taken
  cases taken

theorem lift (found : Option β) : Frugal (liftM found : Reader β) := by
  cases found with
  | none => exact failure
  | some b => exact pure b

/-- The bytes that stand behind are handed from the first reader to the next. -/
theorem bind (first : Extends r r') (next : ∀ b, Extends (f b) (f' b)) :
    Extends (r >>= f) (r' >>= f') := by
  intro bytes c rest more taken
  obtain ⟨⟨b, between⟩, began, ended⟩ := Option.bind_eq_some_iff.mp taken
  change (r' (bytes ++ more)).bind (fun p => f' p.1 p.2) = _
  rw [first bytes b between more began]
  exact next b between c rest more ended

theorem map (h : Extends r r') (g : β → γ) : Extends (g <$> r) (g <$> r') :=
  h.bind fun b => pure (g b)

/-- A condition that is known beforehand does not depend on the bytes. -/
theorem guarded {p : Prop} [Decidable p] (h : p → Extends r r') :
    Extends (if p then r else Alternative.failure) (if p then r' else Alternative.failure) := by
  split
  · exact h ‹p›
  · exact failure

end Extends

namespace Frugal

open Extends (pure failure lift)

theorem byte : Frugal Reader.byte := by
  intro bytes b rest more taken
  cases bytes with
  | nil => cases taken
  | cons first others =>
    cases taken
    rfl

/-- Enough bytes in front stay enough when more follow. -/
theorem take (n : Nat) : Frugal (Reader.take n) := by
  intro bytes bs rest more taken
  obtain ⟨length, all⟩ := Yields.take_length taken
  have enough : n ≤ bytes.length := by omega
  simp only [Reader.take] at taken ⊢
  rw [List.take_append_of_le_length enough, List.drop_append_of_le_length enough]
  split at taken
  · cases taken
    rw [if_pos ‹_›]
  · cases taken

/-- What is only looked at stands in front of what follows, before and after. -/
theorem ahead (h : Frugal r) : Frugal (Reader.ahead r) := by
  intro bytes b rest more taken
  obtain ⟨⟨b', rest'⟩, seen, same⟩ := Option.map_eq_some_iff.mp taken
  cases same
  exact Option.map_eq_some_iff.mpr ⟨_, h bytes b rest' more seen, rfl⟩

theorem number (size : Nat) : Frugal (Reader.number size) := (take size).map _

theorem argument (low : Nat) : Frugal (Reader.argument low) := by
  simp only [Reader.argument]
  split_ifs
  · exact pure _
  · exact (number 1).map some
  · exact (number 2).map some
  · exact (number 4).map some
  · exact (number 8).map some
  · exact pure _
  · exact failure

/-- The first byte of a head says how many more belong to it. -/
theorem head : Frugal Reader.head := by
  refine byte.bind fun first => (argument _).bind fun found => ?_
  split
  all_goals first
    | exact failure
    | exact pure _

/-- More fuel takes the reader no further: the tags end at a head that is no tag. -/
theorem skipTagsWithin (wanted : Nat → Bool) {fuel fuel' : Nat} (more : fuel ≤ fuel') :
    Extends (Reader.skipTagsWithin wanted fuel) (Reader.skipTagsWithin wanted fuel') := by
  induction fuel generalizing fuel' with
  | zero => exact failure
  | succ fuel ih =>
    match fuel', more with
    | fuel' + 1, more =>
      refine (ahead head).bind fun h => ?_
      split
      · split_ifs
        · exact pure _
        · exact head.bind fun _ => ih (Nat.le_of_succ_le_succ more)
      · exact pure _

theorem skipTags (wanted : Nat → Bool) : Frugal (Reader.skipTags wanted) := by
  intro bytes _ rest more taken
  have longer : bytes.length ≤ (bytes ++ more).length := by simp
  exact skipTagsWithin wanted longer bytes _ rest more taken

theorem bareHead : Frugal Reader.bareHead := (skipTags _).bind fun _ => head

/-! ## Repetitions -/

section Repetitions

variable {step : σ → Reader σ}

/-- A number of steps that is given does not depend on the bytes. -/
theorem times (each : ∀ s, Frugal (step s)) (n : Nat) (s : σ) :
    Frugal (Reader.times step n s) := by
  induction n generalizing s with
  | zero => exact pure s
  | succ n ih => exact (each s).bind ih

/-- In front of any byte but the stop, a step is made. -/
theorem toStopWithin_of_ne {b : UInt8} (on : b ≠ 0xff) (fuel : Nat) (s : σ) (others : List UInt8) :
    Reader.toStopWithin step (fuel + 1) s (b :: others) =
      (step s >>= Reader.toStopWithin step fuel) (b :: others) := by
  simp only [Reader.toStopWithin]
  split
  · rename_i stops
    exact absurd (List.cons.inj stops).1 on
  · rfl

/-- A step that could do without bytes might run where the bytes end but not where a stop is. -/
theorem toStopWithin (each : ∀ s, Frugal (step s)) (hungry : ∀ s, Hungry (step s))
    {fuel fuel' : Nat} (more : fuel ≤ fuel') (s : σ) :
    Extends (Reader.toStopWithin step fuel s) (Reader.toStopWithin step fuel' s) := by
  induction fuel generalizing fuel' s with
  | zero => exact failure
  | succ fuel ih =>
    match fuel', more with
    | fuel' + 1, more =>
      intro bytes t rest behind taken
      match bytes with
      | [] =>
        have nothing := (hungry s).bind (Reader.toStopWithin step fuel)
        cases nothing.symm.trans taken
      | b :: others =>
        by_cases stop : b = 0xff
        · subst stop
          cases taken
          rfl
        · have on := (each s).bind fun t => ih (Nat.le_of_succ_le_succ more) t
          rw [toStopWithin_of_ne stop] at taken
          rw [List.cons_append, toStopWithin_of_ne stop]
          exact on (b :: others) t rest behind taken

/-- Without a number the bytes give the fuel, and more of them only give more than enough. -/
theorem repeated (each : ∀ s, Frugal (step s)) (hungry : ∀ s, Hungry (step s))
    (length : Option Nat) (s : σ) : Frugal (Reader.repeated step length s) := by
  cases length with
  | some n => exact times each n s
  | none =>
    intro bytes t rest more taken
    have longer : bytes.length + 1 ≤ (bytes ++ more).length + 1 := by simp
    exact toStopWithin each hungry longer s bytes t rest more taken

end Repetitions

theorem items {item : Reader β} (each : Frugal item) (hungry : Hungry item)
    (length : Option Nat) : Frugal (Reader.items item length) := by
  refine (repeated (fun taken => ?_) (fun taken => hungry.bind _) length []).bind fun _ => pure _
  exact each.bind fun b => pure _

/-! ## Strings and numbers -/

/-- The pieces of a string end at their stop, and the fuel only has to reach it. -/
theorem segmentsWithin (segment? : Head → Option (Option Nat)) {fuel fuel' : Nat}
    (more : fuel ≤ fuel') (depth : Nat) :
    Extends (Reader.segmentsWithin segment? fuel depth)
      (Reader.segmentsWithin segment? fuel' depth) := by
  induction fuel generalizing fuel' depth with
  | zero => exact failure
  | succ fuel ih =>
    match fuel', more with
    | fuel' + 1, more =>
      have on := fun depth => ih (Nat.le_of_succ_le_succ more) depth
      refine head.bind fun h => ?_
      split_ifs
      · exact pure []
      · exact on _
      · split
        · exact (take _).bind fun _ => (on _).bind fun _ => pure _
        · exact on _
        · exact failure

theorem segments (segment? : Head → Option (Option Nat)) (length : Option Nat) :
    Frugal (Reader.segments segment? length) := by
  cases length with
  | some n => exact (take n).bind fun _ => pure _
  | none =>
    intro bytes parts rest more taken
    have longer : bytes.length + 1 ≤ (bytes ++ more).length + 1 := by simp
    exact segmentsWithin segment? longer 1 bytes parts rest more taken

theorem bytesBody (length : Option Nat) : Frugal (Reader.bytesBody length) :=
  (segments _ length).bind fun _ => pure _

theorem textBody (length : Option Nat) : Frugal (Reader.textBody length) := by
  refine (segments _ length).bind fun parts => ?_
  split
  · exact pure _
  · exact failure

theorem text : Frugal Reader.text := by
  refine bareHead.bind fun h => ?_
  split
  · exact textBody _
  · exact failure

theorem shortString (length? : Head → Option Nat) (limit : Nat)
    (convert? : List UInt8 → Option β) : Frugal (Reader.shortString length? limit convert?) := by
  refine bareHead.bind fun h => ?_
  split
  · refine .guarded fun _ => (take _).bind fun bs => ?_
    split
    · exact pure _
    · exact failure
  · exact failure

/-- The name of a field is text or bytes, in one piece and not long. -/
theorem name : Frugal Reader.name := by
  refine bareHead.bind fun h => ?_
  split
  · exact .guarded fun _ => (take _).bind fun bs => .guarded fun _ => pure bs
  · exact .guarded fun _ => take _
  · exact failure

theorem name_hungry : Hungry Reader.name := rfl

theorem bigNumber : Frugal Reader.bigNumber := by
  refine head.bind fun h => ?_
  split
  · exact (bytesBody _).bind fun bs => .guarded fun _ => pure _
  · exact failure

/-- A number is a head, or a tag and the bytes of a big one. -/
theorem integer : Frugal Reader.integer := by
  refine (skipTags _).bind fun _ => head.bind fun h => ?_
  split
  · exact pure _
  · exact pure _
  · exact bigNumber.bind fun _ => pure _
  · exact failure

theorem word : Frugal Reader.word := by
  refine integer.bind fun i => ?_
  split
  · exact pure _
  · exact failure

theorem signedWord : Frugal Reader.signedWord := by
  refine integer.bind fun i => ?_
  split
  · exact pure _
  · exact failure

/-! ## What is passed over -/

/-- What stands behind the tag is looked at first, and only a short byte string is taken. -/
theorem shortNumber? (tag : Nat) : Frugal (Reader.shortNumber? tag) := by
  refine (ahead head).bind fun h => ?_
  split
  · split_ifs
    · exact head.bind fun _ => (take _).bind fun _ => pure _
    · exact pure none
  · exact pure none

/-- An item that no field wants is passed over up to its own end, whatever follows. -/
theorem skipBody {inside : Option (Reader Unit)}
    (below : ∀ item, inside = some item → Frugal item ∧ Hungry item) (h : Head) :
    Frugal (Reader.skipBody inside h) := by
  simp only [Reader.skipBody]
  split
  · exact pure ()
  · exact pure ()
  · exact pure ()
  · exact (bytesBody _).bind fun _ => pure ()
  · exact (textBody _).bind fun _ => pure ()
  · obtain ⟨item, hungry⟩ := below _ rfl
    exact repeated (fun _ => item) (fun _ => hungry) _ ()
  · obtain ⟨item, hungry⟩ := below _ rfl
    exact repeated (fun _ => item.bind fun _ => item) (fun _ => hungry.bind _) _ ()
  · refine (shortNumber? _).bind fun found => ?_
    split
    · exact .guarded fun _ => pure ()
    · exact (below _ rfl).1
    · exact failure
  · exact .guarded fun _ => pure ()
  · exact failure

/-- What stands in it is passed over with one level less, down to heads that have nothing inside. -/
theorem skip (room : Nat) : Frugal (Reader.skip room) := by
  induction room with
  | zero => exact head.bind (skipBody (by rintro _ ⟨⟩))
  | succ room ih =>
    refine head.bind (skipBody ?_)
    rintro _ ⟨⟩
    exact ⟨ih, by cases room <;> rfl⟩

/-! ## Structures -/

variable {layout : Reader.Layout} {room : Nat}

/-- Without a level left nothing is read, and then nothing behind it matters. -/
theorem enter {inside : Nat → Reader β} (below : ∀ n, Frugal (inside n)) :
    Frugal (Reader.enter room inside) := by
  cases room with
  | zero => exact failure
  | succ n => exact below n

section Fields

/-- A field that is there already refuses whatever follows. -/
theorem once (name : String) (present : σ → Option β) (put : σ → β → σ) {value : Reader β}
    (inside : Frugal value) (s : σ) :
    Frugal ((Reader.Field.once name present put value).read s) := by
  simp only [Reader.Field.once]
  split
  · exact failure
  · exact inside.bind fun b => pure _

variable {known : List (Reader.Field σ)}

/-- The keys are never nothing, so a map ends at its stop. -/
theorem byName (each : ∀ f ∈ known, ∀ s, Frugal (f.read s)) (length : Option Nat) (s : σ) :
    Frugal (Reader.byName room known length s) := by
  refine repeated (fun t => name.bind fun key => ?_) (fun t => name_hungry.bind _) length s
  split
  · rename_i f found
    exact each f (List.mem_of_find?_eq_some found) t
  · exact (skip room).bind fun _ => pure t

/-- Without names the number of the fields says where they end. -/
theorem inOrder (each : ∀ f ∈ known, ∀ s, Frugal (f.read s)) (length : Option Nat) (s : σ) :
    Frugal (Reader.inOrder known length s) := by
  induction known generalizing length s with
  | nil => exact pure s
  | cons f rest ih =>
    have here : ∀ length, Frugal (do Reader.inOrder rest length (← f.read s)) := fun length =>
      (each f List.mem_cons_self s).bind (ih (fun g inside => each g (.tail _ inside)) length)
    match length with
    | some 0 => exact failure
    | some (n + 1) => exact here (some n)
    | none => exact here none

/-- A structure is a map of its fields; the data of a variant may also be an array of them. -/
theorem fields {known : Nat → List (Reader.Field σ)}
    (each : ∀ n, ∀ f ∈ known n, ∀ s, Frugal (f.read s)) (s : σ) :
    Frugal (Reader.fields layout room s known) := by
  have opened : Frugal layout.head := by
    cases layout with
    | named => exact bareHead
    | carried => exact head
  refine opened.bind fun h => ?_
  split
  · exact enter fun n => byName (each n) _ s
  · exact enter fun n => inOrder (each n) _ s
  · exact failure

end Fields

section Structures

variable {δ : Type} {name₁ name₂ name₃ : String} {first : Nat → Reader β}
  {second : Nat → Reader γ} {third : Nat → Reader δ}

theorem structure1 (inside : ∀ n, Frugal (first n)) :
    Frugal (Reader.structure1 layout room (name₁, first)) := by
  refine Extends.bind (fields (fun n => ?_) none) fun found => ?_
  · rintro f (_ | ⟨_, ⟨⟩⟩)
    exact once _ _ _ (inside n)
  · split
    · exact pure _
    · exact failure

/-- Of two fields either may be missing; the map ends all the same. -/
theorem structure2? (inside₁ : ∀ n, Frugal (first n)) (inside₂ : ∀ n, Frugal (second n)) :
    Frugal (Reader.structure2? layout room (name₁, first) (name₂, second)) := by
  refine fields (fun n => ?_) _
  rintro f (_ | ⟨_, _ | ⟨_, ⟨⟩⟩⟩)
  · exact once _ _ _ (inside₁ n)
  · exact once _ _ _ (inside₂ n)

theorem structure2 (inside₁ : ∀ n, Frugal (first n)) (inside₂ : ∀ n, Frugal (second n)) :
    Frugal (Reader.structure2 layout room (name₁, first) (name₂, second)) := by
  refine (structure2? inside₁ inside₂).bind fun found => ?_
  split
  · exact pure _
  · exact failure

theorem structure3 (inside₁ : ∀ n, Frugal (first n)) (inside₂ : ∀ n, Frugal (second n))
    (inside₃ : ∀ n, Frugal (third n)) :
    Frugal (Reader.structure3 layout room (name₁, first) (name₂, second) (name₃, third)) := by
  refine Extends.bind (fields (fun n => ?_) _) fun found => ?_
  · rintro f (_ | ⟨_, _ | ⟨_, _ | ⟨_, ⟨⟩⟩⟩⟩)
    · exact once _ _ _ (inside₁ n)
    · exact once _ _ _ (inside₂ n)
    · exact once _ _ _ (inside₃ n)
  · split
    · exact pure _
    · exact failure

end Structures

/-! ## Variants and sequences -/

/-- A variant is its name, or a map of one member under its name. -/
theorem variant {body : Nat → List UInt8 → Reader β} (inside : ∀ n name, Frugal (body n name)) :
    Frugal (Reader.variant room body) := by
  have named : Frugal (Reader.enter room fun room => do body room (← Reader.name)) :=
    enter fun n => name.bind (inside n)
  refine (skipTags _).bind fun _ => (ahead head).bind fun h => ?_
  split
  · exact head.bind fun _ => named
  · exact named
  · exact failure

/-- A sequence is an array, or bytes that stand for its items. -/
theorem sequence {item : Nat → Reader β} (inside : ∀ n, Frugal (item n) ∧ Hungry (item n))
    (ofByte? : UInt8 → Option β) : Frugal (Reader.sequence room item ofByte?) := by
  refine bareHead.bind fun h => ?_
  split
  · exact enter fun n => items (inside n).1 (inside n).2 _
  · refine (bytesBody _).bind fun bs => ?_
    split
    · exact pure _
    · exact failure
  · exact failure

theorem nullable {value : Reader β} (inside : Frugal value) :
    Frugal (Reader.nullable value) := by
  refine (ahead head).bind fun h => ?_
  split
  · exact head.bind fun _ => pure none
  · exact head.bind fun _ => pure none
  · exact inside.map some

end Frugal

end Parts

end Cbor

open Cbor Reader CborForm Travels Portable

/-! ## Elements -/

/-- A type whose readers take at least one byte, and no more than they need. -/
class Delimited (α : Type) [CborForm α] : Prop where
  frugal : ∀ room, Frugal (read room : Reader α)
  hungry : ∀ room, Hungry (read room : Reader α)

open Delimited

namespace Value

theorem textual_frugal (h : Head) : Frugal (textual h) := by
  unfold textual
  split
  · exact Frugal.textBody _
  · refine (Frugal.bytesBody _).bind fun bs => ?_
    split
    · exact .pure _
    · exact .failure
  · exact .failure

theorem readEntry_frugal {key : Reader String} {value : Reader Value} (keys : Frugal key)
    (values : Frugal value) : Frugal (readEntry key value) :=
  keys.bind fun _ => values.bind fun _ => .pure _

/-- A value is taken from its head on; whatever it is, it says itself where it ends. -/
theorem readBody_frugal {inside : Option (Reader Value)}
    (below : ∀ value, inside = some value → Frugal value ∧ Hungry value) (h : Head) :
    Frugal (readBody inside h) := by
  unfold readBody
  split
  · exact .lift _
  · exact .lift _
  · exact (textual_frugal _).map string
  · exact (textual_frugal _).map string
  · obtain ⟨value, hungry⟩ := below _ rfl
    exact (Frugal.items value hungry _).map ofItems
  · obtain ⟨value, hungry⟩ := below _ rfl
    have entry := readEntry_frugal (Frugal.head.bind textual_frugal) value
    exact (Frugal.items entry rfl _).bind fun _ => .pure _
  · exact .pure _
  · exact .pure _
  · exact .pure _
  · exact .pure _
  · exact .failure

/-- Every value starts with a head, so it takes at least a byte. -/
theorem readCbor_hungry (room : Nat) : Hungry (readCbor room) := by
  cases room <;> rfl

theorem readCbor_frugal (room : Nat) : Frugal (readCbor room) := by
  induction room with
  | zero => exact Frugal.head.bind (readBody_frugal (by rintro _ ⟨⟩))
  | succ room ih =>
    refine Frugal.head.bind (readBody_frugal ?_)
    rintro _ ⟨⟩
    exact ⟨ih, readCbor_hungry room⟩

theorem readFields_frugal (room : Nat) : Frugal (readFields room) := by
  refine Frugal.bareHead.bind fun h => ?_
  split
  · refine Frugal.enter fun n => Extends.bind ?_ fun _ => .pure _
    exact Frugal.items (readEntry_frugal Frugal.text (readCbor_frugal n)) rfl _
  · exact .failure

end Value

instance : Delimited Char :=
  ⟨fun _ => Frugal.shortString Head.textLength? 4 charOfUtf8?, fun _ => rfl⟩

instance : Delimited String := ⟨fun _ => Frugal.text, fun _ => rfl⟩

instance : Delimited Int64 := ⟨fun _ => Frugal.signedWord, fun _ => rfl⟩

instance : Delimited SiteId :=
  ⟨fun _ => Frugal.shortString Head.bytesLength? shortLimit SiteId.ofBytes?, fun _ => rfl⟩

instance : Delimited Value := ⟨Value.readCbor_frugal, Value.readCbor_hungry⟩

instance : Delimited Fields := ⟨Value.readFields_frugal, fun _ => rfl⟩

instance : Delimited Record where
  frugal _ := (Frugal.structure2 frugal frugal).bind fun _ => .pure _
  hungry _ := rfl

instance : Delimited StateVector where
  frugal _ := by
    refine (Frugal.structure1 fun n => ?_).bind fun _ => .pure _
    exact Frugal.sequence (fun _ => ⟨Frugal.word, rfl⟩) _
  hungry _ := rfl

instance : Delimited Stamp where
  frugal _ := (Frugal.structure2 frugal frugal).bind fun _ => .pure _
  hungry _ := rfl

/-! ## Messages -/

variable {α : Type} [CborForm α] [Delimited α]

theorem readList_frugal (room : Nat) : Frugal (readList room : Reader (List α)) :=
  Frugal.sequence (fun n => ⟨frugal n, hungry n⟩) _

namespace Edit

/-- Each name has its own data behind it, and each ends with its last field. -/
theorem read_frugal (room : Nat) : Frugal (Edit.read room : Reader (Edit α)) := by
  refine Frugal.variant fun n name => ?_
  split_ifs
  · exact .pure noop
  · exact (Frugal.structure2 (fun _ => Frugal.word) frugal).bind fun _ => .pure _
  · exact (Frugal.structure1 fun _ => Frugal.word).map delete
  · exact (Frugal.structure2 (fun _ => Frugal.word) frugal).bind fun _ => .pure _
  · exact (Frugal.structure3 (fun _ => Frugal.word) frugal frugal).bind fun _ => .pure _
  · exact .failure

instance : Delimited (Edit α) := ⟨read_frugal, fun _ => rfl⟩

end Edit

instance : Delimited (Operation α) where
  frugal _ := by
    refine (Frugal.structure2? frugal fun n => Frugal.nullable (frugal n)).bind fun found => ?_
    split
    · exact .pure _
    · exact .failure
  hungry _ := rfl

instance : Delimited (Fill α) where
  frugal _ := by
    refine Frugal.variant fun n name => ?_
    split_ifs
    · exact (Frugal.structure2 readList_frugal frugal).bind fun _ => .pure _
    · refine (Frugal.structure2 (fun _ => ?_) frugal).bind fun _ => .pure _
      exact Frugal.structure1 readList_frugal
    · exact .failure
  hungry _ := rfl

instance : Delimited (Message α) where
  frugal _ := by
    refine Frugal.variant fun n name => ?_
    split_ifs
    · exact (frugal n).map Message.operation
    · exact (frugal n).map Message.fill
    · exact .failure
  hungry _ := rfl

variable [Travels α] [Portable α]

omit [Delimited α] in
/-- The bytes of a message are read from the front of whatever they begin. -/
theorem Message.decode_encode_append {m : Message α} (fits : m.Fits)
    (deep : m.levels ≤ maxDepth) (more : List UInt8) :
    Message.decode (m.encode ++ more) = .ok (arrival m) := by
  rw [decode, encode, reads_taken fits deep more]

/-- What a part of a message stood for would leave the other part over, but the message leaves
nothing over. -/
theorem Message.decode_cut {m : Message α} (fits : m.Fits) (deep : m.levels ≤ maxDepth)
    {cut missing : List UInt8} (parts : cut ++ missing = m.encode) (something : missing ≠ []) :
    Message.decode (α := α) cut = .error .malformed := by
  rw [decode]
  split
  · rename_i found rest taken
    have whole := reads_taken fits deep []
    rw [List.append_nil] at whole
    have longer := frugal maxDepth cut found rest missing taken
    rw [parts, encode, whole] at longer
    have leftover := congrArg Prod.snd (Option.some.inj longer)
    exact absurd (List.append_eq_nil_iff.mp leftover.symm).2 something
  · rfl

/-- A message is the same whatever stands behind its bytes, and it is not there before all of them
are. -/
theorem messages_self_delimiting {m : Message α} (fits : m.Fits) (deep : m.levels ≤ maxDepth) :
    Message.decode m.encode = .ok (arrival m) ∧
      (∀ more, Message.decode (α := α) (m.encode ++ more) = Message.decode m.encode) ∧
      ∀ cut, cut <+: m.encode → cut ≠ m.encode →
        Message.decode (α := α) cut = .error .malformed := by
  refine ⟨Message.decode_encode fits deep, fun more => ?_, ?_⟩
  · rw [Message.decode_encode fits deep, Message.decode_encode_append fits deep]
  · rintro cut ⟨missing, parts⟩ strict
    refine Message.decode_cut fits deep parts fun nothing => strict ?_
    rw [← parts, nothing, List.append_nil]

/-- A map is put in without a stamp. The field for the stamp is the last one and may be missing. -/
def unstamped : Message Value :=
  .operation ⟨.insert 0 (.map [("due", .list [.null, .int 300])]), none⟩

theorem messages_self_delimiting_unstamped :
    unstamped.Fits ∧ unstamped.levels ≤ maxDepth ∧
      Message.decode (unstamped.encode ++ unstamped.encode) = .ok unstamped ∧
      Message.decode (α := Value) (unstamped.encode.take 52) = .error .malformed := by
  have fits : unstamped.Fits := by
    refine ⟨⟨by decide, ?_, ?_⟩, nofun⟩
    · exact ⟨List.pairwise_singleton .., ⟨trivial, trivial, trivial⟩, trivial⟩
    · exact ⟨by decide, by decide, ⟨by decide, trivial, trivial, trivial⟩, trivial⟩
  have deep : unstamped.levels ≤ maxDepth := by decide
  obtain ⟨whole, behind, cut⟩ := messages_self_delimiting fits deep
  refine ⟨fits, deep, ?_, cut _ (List.take_prefix ..) (by decide +kernel)⟩
  rw [behind, whole]
  rfl

end CoEdit
