import CoEdit.Proofs.Cbor.Settled

/-!
# Decoded messages are canonical

Bytes that stand for a message may be written in many ways, but the message that is read from them
is settled: written and read again it is the same. It may need a few more levels than it was read
with, but the few structures around the elements are not nearly as deep as a message may be.

A message that was not read, on the other hand, changes at most on its first way through the codec,
since what arrives of it has the same bytes as the message itself.
-/

namespace CoEdit

open Cbor Reader Travels CborForm Portable

/-! ## Stamps -/

instance : Settles 0 SiteId where
  yields _ := .shortString fun _ _ _ => ⟨trivial, trivial, Nat.zero_le _⟩
  settled_ofByte := nofun
  toCbor_arrival _ := rfl

instance : Settles 2 StateVector where
  yields room := by
    refine (Yields.structure1 fun n _ => Yields.sequence (P := (· < Word.count))
      (fun _ _ => .word) ?_).bind fun counts fits => ?_
    · rintro byte count found
      cases found
      exact Nat.lt_trans byte.toNat_lt (by decide)
    · exact .pure ⟨fits, trivial, Nat.le_max_right ..⟩
  settled_ofByte := nofun
  toCbor_arrival _ := rfl

instance : Settles 3 Stamp where
  yields room := by
    refine Yields.bind (Yields.structure2 (P := fun _ : SiteId => True)
      (Q := fun state : StateVector => Fits state) ?_ ?_) fun found made => ?_
    · exact fun _ _ => .shortString fun _ _ _ => trivial
    · exact fun n _ => (Settles.yields n).weaken fun _ settled => settled.fits
    · exact .pure ⟨made.2, trivial, Nat.le_max_right ..⟩
  settled_ofByte := nofun
  toCbor_arrival _ := rfl

/-! ## Operations -/

variable {α : Type} [CborForm α] [Travels α] [Portable α] [Settles 0 α] {room : Nat}

namespace Edit

/-- A position with a value at it, two levels down. -/
theorem placed_yields :
    Yields (structure2 .carried room ("position", fun _ => word)
      ("value", (CborForm.read : Nat → Reader α))) fun found =>
        found.1 < Word.count ∧ Portable.Fits found.2 ∧ Lossless found.2 ∧
          Portable.levels found.2 < room :=
  (Yields.structure2 (fun _ _ => .word) fun _ up => Settles.yields_inside up).weaken
    fun _ made => made

theorem read_yields : Yields (Edit.read room : Reader (Edit α)) (Settled (max room 2)) := by
  refine .variant fun n name up => ?_
  subst up
  split_ifs
  · exact .pure ⟨trivial, trivial, Nat.le_trans (Nat.le_succ 1) (Nat.le_max_right ..)⟩
  · refine placed_yields.bind fun found made => ?_
    obtain ⟨inside, fits, lossless, deep⟩ := made
    exact .pure ⟨⟨inside, fits⟩, lossless,
      Nat.le_trans (Nat.succ_le_succ deep) (Nat.le_max_left ..)⟩
  · refine (Yields.structure1 fun _ _ => Yields.word).map fun p inside => ?_
    exact ⟨inside, trivial, Nat.le_max_right ..⟩
  · refine placed_yields.bind fun found made => ?_
    obtain ⟨inside, fits, lossless, deep⟩ := made
    exact .pure ⟨⟨inside, fits⟩, lossless,
      Nat.le_trans (Nat.succ_le_succ deep) (Nat.le_max_left ..)⟩
  · refine (Yields.structure3 (fun _ _ => .word) (fun _ _ => .text)
      (fun _ up => Settles.yields_inside up)).bind fun found made => ?_
    obtain ⟨inside, tag, fits, lossless, deep⟩ := made
    exact .pure ⟨⟨inside, tag, fits⟩, lossless,
      Nat.le_trans (Nat.succ_le_succ deep) (Nat.le_max_left ..)⟩
  · exact .failure

instance : Settles 2 (Edit α) where
  yields _ := read_yields
  settled_ofByte := nofun
  toCbor_arrival edit := by
    cases edit with
    | noop | delete p => rfl
    | insert p v | replace p v =>
      have value := Settles.toCbor_arrival v
      simp only [CborForm.toCbor, arrival, Edit.toCbor] at value ⊢
      rw [value]
    | update p tag delta =>
      have fields := Settles.toCbor_arrival delta
      simp only [CborForm.toCbor, arrival, Edit.toCbor] at fields ⊢
      rw [fields]

end Edit

instance : Settles 4 (Operation α) where
  yields room := by
    refine Yields.bind (Yields.structure2?
      (P := fun edit : Edit α => Fits edit ∧ Lossless edit ∧ levels edit + 1 ≤ max room 3)
      (Q := fun stamp : Option Stamp => ∀ s, stamp = some s → Fits s) ?_ ?_) fun found made => ?_
    · rintro n rfl
      refine (Settles.yields n).weaken fun edit settled => ⟨settled.fits, settled.lossless, ?_⟩
      have below := settled.levels_le
      omega
    · intro n _
      exact .nullable ((Settles.yields n).weaken fun _ settled => settled.fits)
    · split
      · rename_i edit stamp
        obtain ⟨fits, lossless, (deep : levels edit + 1 ≤ max room 3)⟩ := made.1 _ rfl
        have three : (stamp.join.map levels).getD 0 ≤ 3 := by
          cases stamp.join with
          | none => exact Nat.zero_le _
          | some s => exact Nat.le_refl _
        refine .pure ⟨⟨fits, fun s there => ?_⟩, lossless, ?_⟩
        · exact made.2 _ (Option.join_eq_some_iff.mp there) s rfl
        · change max (levels edit) ((stamp.join.map levels).getD 0) + 1 ≤ max room 4
          omega
      · exact .failure
  settled_ofByte := nofun
  toCbor_arrival op := by
    have edit := Settles.toCbor_arrival op.edit
    simp only [toCbor, arrival] at edit ⊢
    rw [edit]

/-! ## Fills -/

/-- A list that is written and read as it is, if there is room for so many levels. -/
structure SettledAll {β : Type} [CborForm β] [Travels β] [Portable β] (room : Nat) (vs : List β) :
    Prop where
  fits : FitsAll vs
  lossless : ∀ v ∈ vs, Lossless v
  levels_le : levelsAll vs ≤ room

theorem levelsAll_le {β : Type} [CborForm β] [Travels β] [Portable β] {vs : List β}
    (each : ∀ v ∈ vs, levels v ≤ room) : levelsAll vs ≤ room + 1 := by
  refine Nat.succ_le_succ ?_
  induction vs with
  | nil => exact Nat.zero_le _
  | cons v rest ih =>
    exact Nat.max_le.mpr ⟨each v List.mem_cons_self, ih fun w inside =>
      each w (List.mem_cons_of_mem v inside)⟩

/-- A list may have been read from a byte string, without entering a level for it. -/
theorem readList_yields {β : Type} {spare : Nat} [CborForm β] [Travels β] [Portable β]
    [Settles spare β] (room : Nat) :
    Yields (readList room : Reader (List β)) (SettledAll (max room (spare + 1))) := by
  -- the list is a level of its own, so there is one less for its items
  refine Yields.weaken (P := fun vs => vs.length < Word.count ∧
    ∀ v ∈ vs, Settled (max room (spare + 1) - 1) v) ?_ ?_
  · refine .sequence ?_ ?_
    · rintro n rfl
      refine (Settles.yields n).weaken fun v settled => ⟨settled.fits, settled.lossless, ?_⟩
      have below := settled.levels_le
      omega
    · intro b v found
      obtain ⟨fits, lossless, deep⟩ := Settles.settled_ofByte b v found
      exact ⟨fits, lossless, by omega⟩
  · rintro vs ⟨few, each⟩
    refine ⟨⟨few, fun v inside => (each v inside).fits⟩,
      fun v inside => (each v inside).lossless, ?_⟩
    have bound := levelsAll_le fun v inside => (each v inside).levels_le
    omega

theorem writeList_arrival {β : Type} {spare : Nat} [CborForm β] [Travels β] [Portable β]
    [Settles spare β] (vs : List β) : writeList (vs.map arrival) = writeList vs := by
  have each : vs.map (toCbor ∘ arrival) = vs.map toCbor :=
    List.map_congr_left fun v _ => Settles.toCbor_arrival v
  rw [writeList, writeList, List.map_map, each]

namespace Fill

theorem read_yields : Yields (read room : Reader (Fill α)) (Settled (max room 8)) := by
  refine .variant fun n name up => ?_
  subst up
  split_ifs
  · refine Yields.bind (Yields.structure2
      (P := fun values : List α => SettledAll (max (n - 1) 1) values)
      (Q := fun state : StateVector => Portable.Fits state) ?_ ?_) fun found made => ?_
    · rintro k rfl
      exact readList_yields k
    · exact fun k _ => (Settles.yields k).weaken fun _ settled => settled.fits
    · obtain ⟨values, state⟩ := found
      obtain ⟨⟨fits, lossless, (deep : levelsAll values ≤ max (n - 1) 1)⟩, counted⟩ := made
      refine .pure ⟨⟨fits, counted⟩, lossless, ?_⟩
      change max (levelsAll values) 2 + 2 ≤ max (n + 1) 8
      omega
  · refine Yields.bind (Yields.structure2
      (P := fun history : List (Operation α) => SettledAll (max (n - 2) 5) history)
      (Q := fun state : StateVector => Portable.Fits state) ?_ ?_) fun found made => ?_
    · rintro k rfl
      refine .structure1 ?_
      rintro j rfl
      exact readList_yields j
    · exact fun k _ => (Settles.yields k).weaken fun _ settled => settled.fits
    · obtain ⟨history, state⟩ := found
      obtain ⟨⟨fits, lossless, (deep : levelsAll history ≤ max (n - 2) 5)⟩, counted⟩ := made
      refine .pure ⟨⟨fits, counted⟩, lossless, ?_⟩
      change max (levelsAll history + 1) 2 + 2 ≤ max (n + 1) 8
      omega
  · exact .failure

instance : Settles 8 (Fill α) where
  yields _ := read_yields
  settled_ofByte := nofun
  toCbor_arrival data := by
    cases data with
    | snapshot values state => simp only [toCbor, arrival, writeList_arrival]
    | replay history state =>
      have ops := writeList_arrival history
      simp only [toCbor, arrival] at ops ⊢
      rw [ops]

end Fill

/-! ## Messages -/

namespace Message

theorem read_yields : Yields (read room : Reader (Message α)) fun m =>
    m.Fits ∧ Lossless m ∧ m.levels ≤ max room 9 := by
  refine .variant fun n name up => ?_
  subst up
  split_ifs
  · refine (Settles.yields (α := Operation α) n).map fun op settled => ?_
    refine ⟨settled.fits, settled.lossless, ?_⟩
    have deep := settled.levels_le
    change Portable.levels op + 1 ≤ max (n + 1) 9
    omega
  · refine (Settles.yields (α := Fill α) n).map fun data settled => ?_
    refine ⟨settled.fits, settled.lossless, ?_⟩
    have deep := settled.levels_le
    change Portable.levels data + 1 ≤ max (n + 1) 9
    omega
  · exact .failure

/-- A message that was read is one that the codec keeps. -/
theorem settled_of_decode {bytes : List UInt8} {m : Message α} (short : bytes.length < Word.count)
    (decoded : decode bytes = .ok m) : m.Fits ∧ Lossless m ∧ m.levels ≤ maxDepth := by
  simp only [decode] at decoded
  split at decoded
  · rename_i m' rest taken
    cases decoded
    exact (read_yields bytes m rest short taken).2
  · cases decoded

/-- What arrives of a message has the bytes of the message. -/
theorem encode_arrival (m : Message α) : (arrival m).encode = m.encode := by
  cases m with
  | operation op =>
    have same := Settles.toCbor_arrival op
    simp only [encode, toCbor, arrival] at same ⊢
    rw [same]
  | fill data =>
    have same := Settles.toCbor_arrival data
    simp only [encode, CborForm.toCbor, arrival] at same ⊢
    rw [same]

omit [Travels α] [Portable α] [Settles 0 α] in
/-- What has become of a message that went through the codec so many times. -/
def relayed : Nat → Message α → Except SyncError (Message α)
  | 0, m => .ok m
  | n + 1, m => do relayed n (← decode m.encode)

/-- A message changes at most on its first way through the codec. -/
theorem relayed_eq {m : Message α} (fits : m.Fits) (deep : m.levels ≤ maxDepth) (n : Nat) :
    relayed (n + 1) m = .ok (arrival m) := by
  have first := decode_encode fits deep
  induction n with
  | zero => simp only [relayed, first, bind, Except.bind]
  | succ n ih =>
    have same : relayed (n + 1) (arrival m) = relayed (n + 1) m := by
      rw [relayed, encode_arrival, relayed]
    calc relayed (n + 2) m = relayed (n + 1) (arrival m) := by
          rw [relayed, first]
          rfl
      _ = relayed (n + 1) m := same
      _ = .ok (arrival m) := ih

end Message

/-- Whatever bytes a message was read from, it is read again from its own bytes; only their number
has to be a word, as in memory it is. Any message whose numbers and lengths are words and which is
not too deep has the bytes of what arrives of it, which is the message with bytes for all lists that
look like them; so this is what is read from them, and what is read after any number of times. -/
theorem decoded_messages_canonical :
    (∀ (bytes : List UInt8) (m : Message α), bytes.length < Word.count →
      Message.decode bytes = .ok m → Message.decode m.encode = .ok m) ∧
    ∀ m : Message α, m.Fits → m.levels ≤ maxDepth →
      (arrival m).encode = m.encode ∧ Message.decode m.encode = .ok (arrival m) ∧
        ∀ n, m.relayed (n + 1) = .ok (arrival m) := by
  refine ⟨?_, ?_⟩
  · intro bytes m short decoded
    obtain ⟨fits, lossless, deep⟩ := Message.settled_of_decode short decoded
    rw [Message.decode_encode fits deep, (arrival_eq_iff m).mpr lossless]
  · intro m fits deep
    exact ⟨m.encode_arrival, Message.decode_encode fits deep, Message.relayed_eq fits deep⟩

/-- The insertion of a list of two numbers, in a form that is never written: bytes for the names,
arrays and maps without a length, longer numbers than necessary, the fields of the insertion in a
row, and a member that nobody knows. -/
def roundabout : List UInt8 :=
  [0xa1, 0x49] ++ utf8 "Operation" ++
    [0xbf, 0x61] ++ utf8 "x" ++ [0xf5, 0x44] ++ utf8 "kind" ++
      [0xa1, 0x46] ++ utf8 "Insert" ++ [0x82, 0x18, 0, 0x9f, 0x18, 1, 0x19, 0, 2, 0xff, 0xff]

/-- Read once, the list is bytes, and stays so. -/
theorem decoded_messages_canonical_roundabout :
    let read : Message Value := .operation ⟨.insert 0 (.bytes [1, 2]), none⟩
    Message.decode roundabout = .ok read ∧ read.encode ≠ roundabout ∧
      Message.decode read.encode = .ok read ∧
      smallNumbers.Fits ∧ smallNumbers.levels ≤ maxDepth ∧
      smallNumbers ≠ read ∧ smallNumbers.encode = read.encode ∧
      ∀ n, smallNumbers.relayed (n + 1) = .ok read := by
  intro read
  obtain ⟨decoded, relayed⟩ := decoded_messages_canonical (α := Value)
  have taken : Message.decode roundabout = .ok read := by decide +kernel
  have fits : smallNumbers.Fits :=
    ⟨⟨by decide, ⟨trivial, trivial, trivial⟩, by decide, trivial, trivial, trivial⟩, nofun⟩
  have deep : smallNumbers.levels ≤ maxDepth := by decide
  obtain ⟨same, -, stays⟩ := relayed smallNumbers fits deep
  have arrives : arrival smallNumbers = read := by decide +kernel
  rw [arrives] at same stays
  exact ⟨taken, by decide +kernel, decoded roundabout read (by decide +kernel) taken, fits, deep,
    by decide, same.symm, stays⟩

end CoEdit
