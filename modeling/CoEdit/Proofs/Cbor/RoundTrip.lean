import CoEdit.Cbor.Message
import CoEdit.Proofs.Cbor.Values

/-!
# Messages that are taken back

Whatever a message is made of is taken back as what arrives of it (`Portable`), provided that all
numbers and lengths are words and that the reader has room for all levels. So the bytes of a message
decode to the message, except that lists which look like bytes are bytes then
(`message_round_trip`).
-/

namespace CoEdit

open Cbor Reader Travels CborForm

/-- A type whose values are taken back as what arrives of them. -/
class Portable (α : Type) [CborForm α] [Travels α] where
  /-- the numbers and lengths inside are words, and the maps inside are in order -/
  Fits : α → Prop
  /-- how many levels are entered where a value is read -/
  levels : α → Nat
  reads : ∀ {a room}, Fits a → levels a ≤ room → Reads (read room) (toCbor a) (arrival a)

open Portable

/-! ## Elements -/

theorem char_reads (c : Char) : Reads readChar (writeText (String.singleton c)) c := by
  have size : (utf8 (String.singleton c)).length ≤ 4 := by
    have bytes : (utf8 (String.singleton c)).length = (String.singleton c).utf8ByteSize := rfl
    rw [bytes, String.utf8ByteSize_singleton]
    exact c.utf8Size_le_four
  have decoded : charOfUtf8? (utf8 (String.singleton c)) = some c := by
    simp only [charOfUtf8?, ofUtf8?_utf8, Option.map_some, String.toList_singleton]
  exact .shortString (h := .text (some _)) ⟨_, Nat.lt_of_le_of_lt size (by decide), rfl⟩ rfl size
    decoded

theorem fields_read {fields : Fields} {room : Nat} (sized : fields.entries.length < Word.count)
    (wf : Value.WellFormedEntries fields.entries) (inside : Value.SizedEntries fields.entries)
    (deep : Value.levelsEntries fields.entries ≤ room) :
    Reads (Value.readFields (room + 1)) (toCbor fields) (arrival fields) := by
  have members := Reads.entries (Value.entries_read Reads.text fields.entries wf inside deep)
  rw [← Value.toCborEntries_length] at sized
  refine (Reads.bareHead (h := .map (some _)) ⟨_, sized, rfl⟩).bind ?_
  refine members.bind_pure ?_
  have same : SortedMap.ofList (Value.arrivalEntries fields.entries) = arrival fields := by
    rw [Value.arrivalEntries_eq]
    exact (arrival fields).ofList_entries
  rw [same]
  exact .pure _

instance : Portable Char where
  Fits _ := True
  levels _ := 0
  reads _ _ := char_reads _

instance : Portable String where
  Fits s := (utf8 s).length < Word.count
  levels _ := 0
  reads fits _ := .text fits

instance : Portable Int64 where
  Fits _ := True
  levels _ := 0
  reads _ _ := .signedWord _

instance : Portable Value where
  Fits v := v.WellFormed ∧ v.Sized
  levels := Value.levels
  reads fits deep := Value.reads _ fits.1 fits.2 deep

instance : Portable Fields where
  Fits fields := fields.entries.length < Word.count ∧ Value.WellFormedEntries fields.entries ∧
    Value.SizedEntries fields.entries
  levels fields := Value.levelsEntries fields.entries + 1
  reads {_ room} fits deep := by
    cases room with
    | zero => cases deep
    | succ room => exact fields_read fits.1 fits.2.1 fits.2.2 (Nat.le_of_succ_le_succ deep)

instance : Portable Record where
  Fits r := Fits r.tag ∧ Fits r.fields
  levels r := levels r.fields + 1
  reads {r room} fits deep := by
    cases room with
    | zero => cases deep
    | succ room =>
      have tag : Reads (read room) (toCbor r.tag) r.tag := reads fits.1 (Nat.zero_le _)
      have fields := reads fits.2 (Nat.le_of_succ_le_succ deep)
      refine Reads.bind_pure (b := (r.tag, arrival r.fields)) ?_ (.pure _)
      exact Reads.structure2 (by decide) (by decide) (by decide) tag fields

/-! ## Stamps -/

theorem SiteId.ofBytes?_bytes (s : SiteId) : ofBytes? s.bytes = some s := by
  have small := s.bits.isLt
  simp only [ofBytes?, bytes, Word.length_bytes, if_true, Word.ofBytes_bytes]
  rw [Nat.mod_eq_of_lt (by simpa using small), ofNat, BitVec.ofNat_toNat, BitVec.setWidth_eq]

theorem site_reads (s : SiteId) : Reads readSite (writeBytes s.bytes) s := by
  have length : s.bytes.length = 16 := Word.length_bytes ..
  have short : s.bytes.length ≤ shortLimit := by
    rw [length]
    decide
  exact .shortString (h := .bytes (some _)) ⟨_, Nat.lt_of_le_of_lt short (by decide), rfl⟩ rfl
    short s.ofBytes?_bytes

theorem vector_reads {v : StateVector} {room : Nat} (sized : v.components.length < Word.count)
    (words : ∀ n ∈ v.components, n < Word.count) : Reads (read (room + 2)) (toCbor v) v := by
  have each : List.Forall₂ (Reads word) (v.components.map fun n : Nat => writeInt n)
      v.components := by
    rw [List.forall₂_map_left_iff, List.forall₂_same]
    exact fun n inside => .word (words n inside)
  refine Reads.bind_pure (b := v.components) ?_ (.pure v)
  exact Reads.structure1 (by decide) (Reads.sequence (by rwa [List.length_map]) each)

instance : Portable SiteId where
  Fits _ := True
  levels _ := 0
  reads _ _ := site_reads _

instance : Portable StateVector where
  Fits v := v.components.length < Word.count ∧ ∀ n ∈ v.components, n < Word.count
  levels _ := 2
  reads {_ room} fits deep := by
    match room, deep with
    | room + 2, _ => exact vector_reads fits.1 fits.2

instance : Portable Stamp where
  Fits s := Fits s.state
  levels _ := 3
  reads {s room} fits deep := by
    cases room with
    | zero => cases deep
    | succ room =>
      have creator : Reads (read room) (toCbor s.creator) s.creator := site_reads s.creator
      have state : Reads (read room) (toCbor s.state) s.state :=
        reads (α := StateVector) fits (Nat.le_of_succ_le_succ deep)
      refine Reads.bind_pure (b := (s.creator, s.state)) ?_ (.pure s)
      exact Reads.structure2 (by decide) (by decide) (by decide) creator state

/-! ## Operations -/

variable {α : Type} [CborForm α] [Travels α] [Portable α]

namespace Edit

/-- The numbers and lengths inside an edit are words, and the maps inside are in order. -/
def Fits : Edit α → Prop
  | noop => True
  | insert p v | replace p v => p < Word.count ∧ Portable.Fits v
  | delete p => p < Word.count
  | update p tag delta => p < Word.count ∧ Portable.Fits tag ∧ Portable.Fits delta

/-- How many levels are entered where an edit is read. -/
def levels : Edit α → Nat
  | noop => 1
  | insert _ v | replace _ v => Portable.levels v + 2
  | delete _ => 2
  | update _ _ delta => Portable.levels delta + 2

/-- A position with a value at it. -/
theorem placed_reads {p room : Nat} {v : α} (inside : p < Word.count) (fits : Portable.Fits v)
    (deep : Portable.levels v ≤ room) :
    Reads (structure2 .carried (room + 1) ("position", fun _ => word) ("value", CborForm.read))
      (writeMap [("position", writeInt p), ("value", CborForm.toCbor v)]) (p, arrival v) :=
  Reads.structure2 (by decide) (by decide) (by decide) (.word inside) (reads fits deep)

theorem reads_taken {edit : Edit α} {room : Nat} (fits : edit.Fits) (deep : edit.levels ≤ room) :
    Reads (Edit.read room) edit.toCbor (arrival edit) := by
  -- A variant is one level, and what it carries is a structure, which is another.
  cases edit with
  | noop =>
    match room, deep with
    | room + 1, _ =>
      refine Reads.variant_bare (by decide) ?_
      simp only [↓reduceIte]
      exact .pure _
  | insert p v =>
    match room, deep with
    | room + 2, deep =>
      have placed := placed_reads fits.1 fits.2 (Nat.le_of_add_le_add_right deep)
      refine Reads.variant (by decide) ?_
      simp only [utf8_inj, String.reduceEq, ↓reduceIte]
      exact placed.bind_pure (.pure _)
  | delete p =>
    match room, deep with
    | room + 2, _ =>
      refine Reads.variant (by decide) ?_
      simp only [utf8_inj, String.reduceEq, ↓reduceIte]
      exact (Reads.structure1 (by decide) (.word fits)).map delete
  | replace p v =>
    match room, deep with
    | room + 2, deep =>
      have placed := placed_reads fits.1 fits.2 (Nat.le_of_add_le_add_right deep)
      refine Reads.variant (by decide) ?_
      simp only [utf8_inj, String.reduceEq, ↓reduceIte]
      exact placed.bind_pure (.pure _)
  | update p tag delta =>
    match room, deep with
    | room + 2, deep =>
      have fields := reads fits.2.2 (Nat.le_of_add_le_add_right deep)
      have type : Reads (CborForm.read room) (CborForm.toCbor tag) tag :=
        reads fits.2.1 (Nat.zero_le _)
      refine Reads.variant (by decide) ?_
      simp only [utf8_inj, String.reduceEq, ↓reduceIte]
      refine Reads.bind_pure (b := (p, tag, arrival delta)) ?_ (.pure _)
      exact Reads.structure3 (by decide) (by decide) (by decide) (by decide) (by decide)
        (by decide) (.word fits.1) type fields

instance : Portable (Edit α) := ⟨Fits, levels, reads_taken⟩

end Edit

theorem stamp_reads {stamp : Option Stamp} {room : Nat} (fits : ∀ s ∈ stamp, Fits s)
    (deep : (stamp.map levels).getD 0 ≤ room) :
    Reads (nullable (read room)) ((stamp.map toCbor).getD writeNull) stamp := by
  cases stamp with
  | none => exact .nullable_null
  | some s =>
    have taken : Reads (read room) (toCbor s) s := reads (fits s rfl) deep
    exact .nullable (h := .map (some 2)) ⟨2, by decide, rfl⟩ (List.prefix_append ..)
      (by decide) taken

instance : Portable (Operation α) where
  Fits op := Fits op.edit ∧ ∀ s ∈ op.stamp, Fits s
  levels op := max (levels op.edit) ((op.stamp.map levels).getD 0) + 1
  reads {op room} fits deep := by
    cases room with
    | zero => cases deep
    | succ room =>
      have below := Nat.max_le.mp (Nat.le_of_succ_le_succ deep)
      have edit := reads fits.1 below.1
      have stamp := stamp_reads fits.2 below.2
      refine Reads.bind_pure (b := (some (arrival op.edit), some op.stamp)) ?_ (.pure _)
      exact Reads.structure2? (by decide) (by decide) (by decide) edit stamp

/-! ## Fills -/

/-- All values of a list fit, and so does its length. -/
def FitsAll (vs : List α) : Prop := vs.length < Word.count ∧ ∀ v ∈ vs, Fits v

/-- How many levels are entered where an array of values is read. -/
def levelsAll (vs : List α) : Nat := (vs.map levels).foldr max 0 + 1

theorem list_reads {vs : List α} {room : Nat} (fits : FitsAll vs) (deep : levelsAll vs ≤ room) :
    Reads (readList room) (writeList vs) (vs.map arrival) := by
  cases room with
  | zero => cases deep
  | succ room =>
    obtain ⟨sized, each⟩ := fits
    have inside := Nat.le_of_succ_le_succ deep
    refine Reads.sequence (by rwa [List.length_map]) ?_
    -- The bounds on the whole list are spent; the induction is on what is left to read.
    clear sized deep
    induction vs with
    | nil => exact .nil
    | cons v vs ih =>
      have below := Nat.max_le.mp inside
      exact .cons (reads (each v List.mem_cons_self) below.1)
        (ih (fun w hw => each w (List.mem_cons_of_mem v hw)) below.2)

namespace Fill

/-- The numbers and lengths inside a fill are words, and the maps inside are in order. -/
def Fits : Fill α → Prop
  | snapshot values state => FitsAll values ∧ Portable.Fits state
  | replay history state => FitsAll history ∧ Portable.Fits state

/-- How many levels are entered where a fill is read. -/
def levels : Fill α → Nat
  | snapshot values state => max (levelsAll values) (Portable.levels state) + 2
  | replay history state => max (levelsAll history + 1) (Portable.levels state) + 2

theorem reads_taken {data : Fill α} {room : Nat} (fits : data.Fits) (deep : data.levels ≤ room) :
    Reads (read room) (toCbor data) (arrival data) := by
  cases data with
  | snapshot values state =>
    match room, deep with
    | room + 2, deep =>
      have below := Nat.max_le.mp (Nat.le_of_add_le_add_right deep)
      have model := list_reads fits.1 below.1
      have counted : Reads (read room) (toCbor state) state := reads fits.2 below.2
      refine Reads.variant (by decide) ?_
      simp only [↓reduceIte]
      refine Reads.bind_pure (b := (values.map arrival, state)) ?_ (.pure _)
      exact Reads.structure2 (by decide) (by decide) (by decide) model counted
  | replay history state =>
    match room, deep with
    | room + 2, deep =>
      have below := Nat.max_le.mp (Nat.le_of_add_le_add_right deep)
      have counted : Reads (read room) (toCbor state) state := reads fits.2 below.2
      refine Reads.variant (by decide) ?_
      simp only [snapshotName, replayName, utf8_inj, String.reduceEq, ↓reduceIte]
      refine Reads.bind_pure (b := (history.map arrival, state)) ?_ (.pure _)
      refine Reads.structure2 (by decide) (by decide) (by decide) ?_ counted
      match room, below with
      | room + 1, below =>
        exact Reads.structure1 (by decide) (list_reads fits.1 (Nat.le_of_succ_le_succ below.1))

instance : Portable (Fill α) := ⟨Fits, levels, reads_taken⟩

end Fill

/-! ## Messages -/

namespace Message

/-- The numbers and lengths inside a message are words, and the maps inside are in order. -/
def Fits : Message α → Prop
  | operation op => Portable.Fits op
  | fill data => Portable.Fits data

/-- How many levels are entered where a message is read. -/
def levels : Message α → Nat
  | operation op => Portable.levels op + 1
  | fill data => Portable.levels data + 1

theorem reads_taken {m : Message α} {room : Nat} (fits : m.Fits) (deep : m.levels ≤ room) :
    Reads (read room) (toCbor m) (arrival m) := by
  match room, m, deep with
  | room + 1, operation op, deep =>
    have taken := reads (a := op) fits (Nat.le_of_succ_le_succ deep)
    refine Reads.variant (by decide) ?_
    simp only [↓reduceIte]
    exact taken.map operation
  | room + 1, fill data, deep =>
    have taken := reads (a := data) fits (Nat.le_of_succ_le_succ deep)
    refine Reads.variant (by decide) ?_
    simp only [utf8_inj, String.reduceEq, ↓reduceIte]
    exact taken.map fill

theorem decode_encode {m : Message α} (fits : m.Fits) (deep : m.levels ≤ maxDepth) :
    decode (encode m) = .ok (arrival m) := by
  have taken := reads_taken fits deep []
  rw [List.append_nil] at taken
  rw [decode, encode, taken]

end Message

/-- What is decoded is what arrives of the message, so it is the message itself exactly if no list
inside looks like bytes. -/
theorem message_round_trip {m : Message α} (fits : m.Fits) (deep : m.levels ≤ maxDepth) :
    Message.decode m.encode = .ok (arrival m) ∧
      (Message.decode m.encode = .ok m ↔ Lossless m) := by
  have arrived := Message.decode_encode fits deep
  refine ⟨arrived, ?_⟩
  rw [arrived, Except.ok.injEq, arrival_eq_iff]

/-- Two fields of a record are overwritten; one of them takes a list, but not of numbers alone. -/
def retitled : Message Record :=
  .operation ⟨.update 3 "task" (.ofList [("title", .string "ship it"),
    ("done", .list [.bool true, .int 1])]), some ⟨.ofNat 7, ⟨[4, 1]⟩⟩⟩

theorem message_round_trip_retitled :
    retitled.Fits ∧ retitled.levels ≤ maxDepth ∧ Lossless retitled ∧
      Message.decode retitled.encode = .ok retitled := by
  have fits : retitled.Fits := by
    refine ⟨⟨by decide, (by decide : (utf8 "task").length < Word.count), by decide, ?_, ?_⟩, ?_⟩
    · exact ⟨⟨trivial, trivial, trivial⟩, trivial, trivial⟩
    · exact ⟨by decide, ⟨by decide, trivial, trivial, trivial⟩, by decide,
        (by decide : (utf8 "ship it").length < Word.count), trivial⟩
    · rintro s ⟨⟩
      exact ⟨by decide, by decide⟩
  have deep : retitled.levels ≤ maxDepth := by decide
  have lossless : Lossless retitled := ⟨⟨by decide, trivial, trivial, trivial⟩, trivial, trivial⟩
  exact ⟨fits, deep, lossless, (message_round_trip fits deep).2.mpr lossless⟩

/-- A list of small numbers is put in. -/
def smallNumbers : Message Value := .operation ⟨.insert 0 (.list [.int 1, .int 2]), none⟩

theorem smallNumbers_not_taken_back : Message.decode smallNumbers.encode ≠ .ok smallNumbers := by
  decide +kernel

end CoEdit
