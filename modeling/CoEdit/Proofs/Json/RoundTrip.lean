import CoEdit.Json.Document
import CoEdit.Json.Message
import CoEdit.Proofs.Json.Forms

/-!
# JSON texts that are taken back

Whatever goes into a JSON text is read from it as what arrives of it (`Legible`), if the counters
and positions in it are words, the maps in it are in order, and the parser has room for all levels.
What arrives is written as the same text, so a second passage changes nothing
(`json_round_trip`).
-/

namespace CoEdit

open Json JsonForm Travels

/-- A type whose values are read from what they are written as. -/
class Legible (α : Type) [JsonForm α] [Travels α] where
  /-- the counters and positions inside are words, and the maps inside are in order -/
  Sound : α → Prop
  plain : ∀ a : α, (toJson a).Plain
  taken : ∀ {a : α} {room}, Sound a → (toJson a).depth ≤ room →
    ofJson? room (toJson a) = some (arrival a)
  toJson_arrival : ∀ a : α, toJson (arrival a) = toJson a

open Legible

/-! ## Elements -/

instance : Legible Char where
  Sound _ := True
  plain _ := plain_ofString _
  taken {c _} _ _ := by
    simp only [toJson, ofJson?, string?_ofString, Option.bind_eq_bind, Option.bind_some,
      String.toList_singleton]
    rfl
  toJson_arrival _ := rfl

instance : Legible String where
  Sound _ := True
  plain := plain_ofString
  taken _ _ := rfl
  toJson_arrival _ := rfl

instance : Legible Int64 where
  Sound _ := True
  plain _ := plain_integer _
  taken _ _ := Word.signed?_toInt _
  toJson_arrival _ := rfl

instance : Legible SiteId where
  Sound _ := True
  plain _ := plain_ofString _
  taken {s _} _ _ := by
    change (string? (ofString s.text)).bind SiteId.ofText? = some s
    rw [string?_ofString, Option.bind_some, SiteId.ofText?_text]
  toJson_arrival _ := rfl

instance : Legible Value where
  Sound := Value.WellFormed
  plain := Value.plain
  taken sound deep := Value.ofJson?_toJson _ sound deep
  toJson_arrival := Value.toJson_arrival

instance : Legible Fields where
  Sound fields := Value.WellFormedEntries fields.entries
  plain fields := plain_object.mpr (Value.plainMembers fields.entries)
  taken {fields room} sound deep := by
    cases room with
    | zero => cases deep
    | succ n =>
      have inside := Value.ofJsonMembers?_toJson fields.entries sound
        (Nat.le_of_succ_le_succ deep)
      change (Value.ofJsonMembers? n (Value.toJsonMembers fields.entries)).map SortedMap.ofList = _
      rw [inside, Option.map_some, Value.arrivalEntries_eq]
      exact congrArg some (arrival fields).ofList_entries
  toJson_arrival fields := by
    have members := Value.toJsonMembers_arrival fields.entries
    rw [Value.arrivalEntries_eq] at members
    exact congrArg object members

instance : Legible Record where
  Sound r := Sound r.fields
  plain r := plain_ofFields.mpr
    (List.forall_mem_cons.mpr ⟨plain r.tag, List.forall_mem_singleton.mpr (plain r.fields)⟩)
  taken {r room} sound deep := by
    obtain ⟨n, rfl, inside⟩ := ofFields_inside deep
    have fields := taken (a := r.fields) sound (inside _ (.tail _ (.head _)))
    refine (enter_ofFields ["type_tag", "fields"] rfl (by decide)).trans ?_
    simp only [List.map_cons, List.map_nil]
    rw [fields]
    rfl
  toJson_arrival r := by
    have fields := toJson_arrival r.fields
    simp only [toJson, arrival] at fields ⊢
    rw [fields]

/-! ## Stamps -/

instance : Legible StateVector where
  Sound v := ∀ n ∈ v.components, n < Word.count
  plain v := plain_ofFields.mpr (List.forall_mem_singleton.mpr
    (plain_array.mpr (List.forall_mem_map.mpr fun _ _ => plain_integer _)))
  taken {v room} sound deep := by
    obtain ⟨n, rfl, inside⟩ := ofFields_inside deep
    have counts := items?_map (fun _ => word?) id (inside _ (.head _))
      fun k here _ _ => word?_integer (sound k here)
    refine (enter_ofFields ["components"] rfl (by decide)).trans ?_
    simp only [List.map_cons, List.map_nil]
    rw [counts, List.map_id]
    rfl
  toJson_arrival _ := rfl

/-- Counters are flat, however many there are. -/
theorem StateVector.depth_toJson (v : StateVector) : (toJson v).depth = 2 := by
  have flat : depthOfItems (v.components.map fun n : Nat => integer n) ≤ 0 :=
    depthOfItems_le.mpr (List.forall_mem_map.mpr fun _ _ => Nat.le_refl 0)
  change max (depthOfItems _ + 1) 0 + 1 = 2
  rw [Nat.le_zero.mp flat]
  rfl

instance : Legible Stamp where
  Sound s := Sound s.state
  plain s := plain_ofFields.mpr
    (List.forall_mem_cons.mpr ⟨plain s.creator, List.forall_mem_singleton.mpr (plain s.state)⟩)
  taken {s room} sound deep := by
    obtain ⟨n, rfl, inside⟩ := ofFields_inside deep
    have creator := taken (a := s.creator) trivial (inside _ (.head _))
    have state := taken (a := s.state) sound (inside _ (.tail _ (.head _)))
    refine (enter_ofFields ["creator", "state"] rfl (by decide)).trans ?_
    simp only [List.map_cons, List.map_nil]
    rw [creator, state]
    rfl
  toJson_arrival _ := rfl

/-! ## Operations -/

variable {α : Type} [JsonForm α] [Travels α] [Legible α]

namespace Edit

/-- The positions inside an edit are words, and the maps inside are in order. -/
def Sound : Edit α → Prop
  | noop => True
  | insert p v | replace p v => p < Word.count ∧ Legible.Sound v
  | delete p => p < Word.count
  | update p _ delta => p < Word.count ∧ Legible.Sound delta

theorem plain (edit : Edit α) : edit.toJson.Plain := by
  cases edit with
  | noop => exact plain_ofString _
  | insert p v | replace p v =>
    exact plain_ofVariant (plain_ofFields.mpr (List.forall_mem_cons.mpr
      ⟨plain_integer p, List.forall_mem_singleton.mpr (Legible.plain v)⟩))
  | delete p =>
    exact plain_ofVariant (plain_ofFields.mpr (List.forall_mem_singleton.mpr (plain_integer p)))
  | update p tag delta =>
    refine plain_ofVariant (plain_ofFields.mpr (List.forall_mem_cons.mpr ⟨plain_integer p, ?_⟩))
    exact List.forall_mem_cons.mpr
      ⟨plain_ofString tag, List.forall_mem_singleton.mpr (Legible.plain delta)⟩

theorem ofJson?_toJson {edit : Edit α} {room : Nat} (sound : edit.Sound)
    (deep : edit.toJson.depth ≤ room) : ofJson? room edit.toJson = some (arrival edit) := by
  -- A variant is one level, and what it carries is a structure, which is another.
  cases edit with
  | noop => rfl
  | insert p v | replace p v =>
    obtain ⟨n, rfl, inside⟩ := ofFields_inside deep
    obtain ⟨k, rfl, below⟩ := ofFields_inside (inside _ (.head _))
    have value := taken (a := v) sound.2 (below _ (.tail _ (.head _)))
    simp only [toJson, ofJson?, variant?_ofVariant, ofBody?]
    refine (enter_ofFields ["position", "value"] rfl (by decide)).trans ?_
    simp only [List.map_cons, List.map_nil]
    rw [word?_integer sound.1, value]
    rfl
  | delete p =>
    obtain ⟨n, rfl, inside⟩ := ofFields_inside deep
    obtain ⟨k, rfl, below⟩ := ofFields_inside (inside _ (.head _))
    simp only [toJson, ofJson?, variant?_ofVariant, ofBody?]
    refine (enter_ofFields ["position"] rfl (by decide)).trans ?_
    simp only [List.map_cons, List.map_nil]
    rw [word?_integer sound]
    rfl
  | update p tag delta =>
    obtain ⟨n, rfl, inside⟩ := ofFields_inside deep
    obtain ⟨k, rfl, below⟩ := ofFields_inside (inside _ (.head _))
    have fields := taken (a := delta) sound.2 (below _ (.tail _ (.tail _ (.head _))))
    simp only [toJson, ofJson?, variant?_ofVariant, ofBody?]
    refine (enter_ofFields ["position", "type_tag", "delta"] rfl (by decide)).trans ?_
    simp only [List.map_cons, List.map_nil]
    rw [word?_integer sound.1, string?_ofString, fields]
    rfl

instance : Legible (Edit α) where
  Sound := Sound
  plain := plain
  taken := ofJson?_toJson
  toJson_arrival edit := by
    cases edit with
    | noop => rfl
    | insert p v | replace p v => simp only [JsonForm.toJson, arrival, toJson, toJson_arrival v]
    | delete p => rfl
    | update p tag delta =>
      have fields := toJson_arrival delta
      simp only [JsonForm.toJson, arrival, toJson] at fields ⊢
      rw [fields]

end Edit

instance : Legible (Operation α) where
  Sound op := Sound op.edit ∧ ∀ s ∈ op.stamp, Sound s
  plain op := by
    refine plain_ofFields.mpr (List.forall_mem_cons.mpr
      ⟨plain op.edit, List.forall_mem_singleton.mpr ?_⟩)
    cases op.stamp with
    | none => exact plain_null
    | some s => exact plain s
  taken {op room} sound deep := by
    obtain ⟨edit, stamp⟩ := op
    obtain ⟨n, rfl, inside⟩ := ofFields_inside deep
    have kind := taken (a := edit) sound.1 (inside _ (.head _))
    refine (enter_ofFields ["kind", "metadata"] rfl (by decide)).trans ?_
    simp only [List.map_cons, List.map_nil]
    cases stamp with
    | none =>
      simp only [Option.map_none, Option.getD_none]
      rw [kind]
      rfl
    | some s =>
      have metadata := taken (a := s) (sound.2 s rfl) (inside _ (.tail _ (.head _)))
      -- A stamp is written as a structure, so it is not taken for a missing one.
      change (do return ⟨← ofJson? n (toJson edit), some (← ofJson? n (toJson s))⟩ :
        Option (Operation α)) = _
      rw [kind, metadata]
      rfl
  toJson_arrival op := by
    have edit := toJson_arrival op.edit
    simp only [toJson, arrival] at edit ⊢
    rw [edit]

/-! ## Lists -/

/-- An array of values. -/
theorem plain_values (vs : List α) : (array (vs.map toJson)).Plain :=
  plain_array.mpr (List.forall_mem_map.mpr fun v _ => plain v)

theorem values_taken {vs : List α} {room : Nat} (sound : ∀ v ∈ vs, Sound v)
    (deep : (array (vs.map toJson)).depth ≤ room) :
    items? room ofJson? (array (vs.map toJson)) = some (vs.map arrival) :=
  items?_map ofJson? arrival deep fun v here _ => taken (sound v here)

theorem map_toJson_arrival (vs : List α) : (vs.map arrival).map toJson = vs.map toJson := by
  rw [List.map_map]
  exact List.map_congr_left fun v _ => toJson_arrival v

instance : Legible (History α) where
  Sound history := ∀ op ∈ history, Sound op
  plain history := plain_ofFields.mpr (List.forall_mem_singleton.mpr (plain_values history))
  taken {history room} sound deep := by
    obtain ⟨n, rfl, inside⟩ := ofFields_inside deep
    have ops := values_taken sound (inside _ (.head _))
    change History.ofJson? (n + 1) history.toJson = _
    rw [History.toJson, History.ofJson?]
    refine (enter_ofFields ["ops"] rfl (by decide)).trans ?_
    simp only [List.map_cons, List.map_nil]
    rw [ops]
    rfl
  toJson_arrival history := by
    have ops := map_toJson_arrival history
    simp only [toJson, arrival, History.toJson] at ops ⊢
    rw [ops]

/-! ## Documents -/

instance : Legible PreImage where
  Sound d := Sound d.state ∧ Sound d.fields
  plain d := plain_ofFields.mpr
    (List.forall_mem_cons.mpr ⟨plain d.state, List.forall_mem_singleton.mpr (plain d.fields)⟩)
  taken {d room} sound deep := by
    obtain ⟨n, rfl, inside⟩ := ofFields_inside deep
    have state := taken (a := d.state) sound.1 (inside _ (.head _))
    have fields := taken (a := d.fields) sound.2 (inside _ (.tail _ (.head _)))
    refine (enter_ofFields ["state", "rollback"] rfl (by decide)).trans ?_
    simp only [List.map_cons, List.map_nil]
    rw [state, fields]
    rfl
  toJson_arrival d := by
    have fields := toJson_arrival d.fields
    simp only [toJson, arrival] at fields ⊢
    rw [fields]

/-- The pre-images are turned around where they are written and where they are read. -/
instance : Legible (Slot α) where
  Sound s := Sound s.value ∧ ∀ d ∈ s.undo, Sound d
  plain s := plain_ofFields.mpr (List.forall_mem_cons.mpr
    ⟨plain s.value, List.forall_mem_singleton.mpr (plain_values s.deltas)⟩)
  taken {s room} sound deep := by
    obtain ⟨n, rfl, inside⟩ := ofFields_inside deep
    have value := taken (a := s.value) sound.1 (inside _ (.head _))
    have deltas : items? n ofJson? (array (s.deltas.map toJson)) = some (s.deltas.map arrival) :=
      values_taken (fun d here => sound.2 d (List.mem_reverse.mp here))
        (inside _ (.tail _ (.head _)))
    refine (enter_ofFields ["value", "deltas"] rfl (by decide)).trans ?_
    simp only [List.map_cons, List.map_nil]
    rw [value, deltas, Slot.deltas, List.map_reverse]
    exact congrArg (fun undo => some (Slot.mk (arrival s.value) undo)) (List.reverse_reverse _)
  toJson_arrival s := by
    have deltas : (arrival s).deltas = s.deltas.map arrival := List.map_reverse.symm
    change ofFields [("value", toJson (arrival s.value)),
      ("deltas", array ((arrival s).deltas.map toJson))] = _
    rw [toJson_arrival, deltas, map_toJson_arrival]
    rfl

instance : Legible (Document α) where
  Sound d := ∀ s ∈ d.slots, Sound s
  plain d := plain_ofFields.mpr (List.forall_mem_cons.mpr
    ⟨plain_values d.slots, List.forall_mem_singleton.mpr (plain_ofString _)⟩)
  taken {d room} sound deep := by
    obtain ⟨n, rfl, inside⟩ := ofFields_inside deep
    have slots := values_taken sound (inside _ (.head _))
    have stage : ofJson? n (toJson d.lifecycle) = some d.lifecycle :=
      Named.ofName?_name d.lifecycle
    refine (enter_ofFields ["slots", "type_state"] rfl (by decide)).trans ?_
    simp only [List.map_cons, List.map_nil]
    rw [slots, stage]
    rfl
  toJson_arrival d := by
    have slots := map_toJson_arrival d.slots
    simp only [toJson, arrival] at slots ⊢
    rw [slots]

/-! ## Messages -/

namespace Fill

/-- The counters and positions inside a fill are words, and the maps inside are in order. -/
def Sound : Fill α → Prop
  | snapshot values state => (∀ v ∈ values, Legible.Sound v) ∧ Legible.Sound state
  | replay history state => Legible.Sound history ∧ Legible.Sound state

instance : Legible (Fill α) where
  Sound := Sound
  plain data := by
    cases data with
    | snapshot values state =>
      exact plain_ofVariant (plain_ofFields.mpr (List.forall_mem_cons.mpr
        ⟨plain_values values, List.forall_mem_singleton.mpr (plain state)⟩))
    | replay history state =>
      exact plain_ofVariant (plain_ofFields.mpr (List.forall_mem_cons.mpr
        ⟨plain history, List.forall_mem_singleton.mpr (plain state)⟩))
  taken {data room} sound deep := by
    cases data with
    | snapshot values state =>
      obtain ⟨n, rfl, inside⟩ := ofFields_inside deep
      obtain ⟨k, rfl, below⟩ := ofFields_inside (inside _ (.head _))
      have model := values_taken sound.1 (below _ (.head _))
      have counted := taken (a := state) sound.2 (below _ (.tail _ (.head _)))
      change enter (k + 1) _ = _
      refine (enter_ofFields ["model", "state"] rfl (by decide)).trans ?_
      simp only [List.map_cons, List.map_nil]
      rw [model, counted]
      rfl
    | replay history state =>
      obtain ⟨n, rfl, inside⟩ := ofFields_inside deep
      obtain ⟨k, rfl, below⟩ := ofFields_inside (inside _ (.head _))
      have ops : History.ofJson? k history.toJson = some (history.map arrival) :=
        taken (a := history) sound.1 (below _ (.head _))
      have counted := taken (a := state) sound.2 (below _ (.tail _ (.head _)))
      change enter (k + 1) _ = _
      refine (enter_ofFields ["history", "state"] rfl (by decide)).trans ?_
      simp only [List.map_cons, List.map_nil]
      rw [ops, counted]
      rfl
  toJson_arrival data := by
    cases data with
    | snapshot values state =>
      have model := map_toJson_arrival values
      simp only [toJson, arrival] at model ⊢
      rw [model]
    | replay history state =>
      have ops := toJson_arrival history
      simp only [toJson, arrival] at ops ⊢
      rw [ops]

end Fill

namespace Message

/-- The counters and positions inside a message are words, and the maps inside are in order. -/
def Sound : Message α → Prop
  | operation op => Legible.Sound op
  | fill data => Legible.Sound data

instance : Legible (Message α) where
  Sound := Sound
  plain m := by
    cases m with
    | operation op => exact plain_ofVariant (plain op)
    | fill data => exact plain_ofVariant (plain data)
  taken {m room} sound deep := by
    cases m with
    | operation op =>
      obtain ⟨n, rfl, inside⟩ := ofFields_inside deep
      have body := taken (a := op) sound (inside _ (.head _))
      change ((ofJson? n (toJson op)).bind fun op => some (operation op)) = _
      rw [body]
      rfl
    | fill data =>
      obtain ⟨n, rfl, inside⟩ := ofFields_inside deep
      have body := taken (a := data) sound (inside _ (.head _))
      change ((ofJson? n (toJson data)).bind fun data => some (fill data)) = _
      rw [body]
      rfl
  toJson_arrival m := by
    cases m with
    | operation op => exact congrArg (ofVariant "Operation") (toJson_arrival op)
    | fill data => exact congrArg (ofVariant "Fill") (toJson_arrival data)

end Message

/-! ## Texts -/

/-- Whatever is sound and not too deep is read from its text as what arrives of it, and this is
written as the same text. -/
def RoundTrips (β : Type) [JsonForm β] [Travels β] [Legible β] : Prop :=
  ∀ b : β, Sound b → (toJson b).depth ≤ maxDepth →
    read? (write b) = some (arrival b) ∧ write (arrival b) = write b

theorem roundTrips (β : Type) [JsonForm β] [Travels β] [Legible β] : RoundTrips β := by
  intro b sound deep
  refine ⟨?_, congrArg compact (toJson_arrival b)⟩
  rw [read?, write, ofText?_compact (plain b), Option.bind_some, taken sound deep]

/-- All that is sent or kept comes back from its JSON text as what arrives of it. Counters,
positions, numbers, characters and texts come back as they were. -/
theorem json_round_trip (α : Type) [JsonForm α] [Travels α] [Legible α] :
    (RoundTrips StateVector ∧ RoundTrips Stamp ∧ RoundTrips Value ∧ RoundTrips α ∧
      RoundTrips Record ∧ RoundTrips (Operation α) ∧ RoundTrips (History α) ∧
      RoundTrips (Document α) ∧ RoundTrips (Fill α) ∧ RoundTrips (Message α)) ∧
    (∀ v : StateVector, (∀ n ∈ v.components, n < Word.count) → read? (write v) = some v) ∧
    (∀ p < Word.count, read? (write (.delete p : Edit α)) = some (.delete p : Edit α)) ∧
    (∀ n : Int64, read? (write n) = some n) ∧ (∀ c : Char, read? (write c) = some c) ∧
    ∀ s : String, read? (write s) = some s := by
  refine ⟨⟨?_, ?_, ?_, ?_, ?_, ?_, ?_, ?_, ?_, ?_⟩, ?_, ?_, ?_, ?_, ?_⟩
  iterate 10 exact roundTrips _
  · exact fun v words => (roundTrips StateVector v words (v.depth_toJson ▸ by decide)).1
  · exact fun p word => (roundTrips (Edit α) (.delete p) word (show 2 ≤ maxDepth by decide)).1
  · exact fun n => (roundTrips Int64 n trivial (Nat.zero_le _)).1
  · exact fun c => (roundTrips Char c trivial (Nat.zero_le _)).1
  · exact fun s => (roundTrips String s trivial (Nat.zero_le _)).1

/-- A field whose name has to be escaped is given a value, by an edit at the last position. -/
def relabeled (v : Value) : Message Record :=
  .operation ⟨.update (Word.count - 1) "task" (.ofList [("a \"\\\n\x01é😀", v),
    ("least", .int Int64.minValue)]), some ⟨.ofNat 1, ⟨[Word.count - 1, 0]⟩⟩⟩

theorem json_round_trip_relabeled :
    let sent := relabeled (.list [.list [], .list [.int 0, .int 255]])
    Sound sent ∧ (toJson sent).depth ≤ maxDepth ∧
      read? (write sent) = some (relabeled (.list [.bytes [], .bytes [0, 255]])) := by
  intro sent
  have sound : Sound sent := by
    refine ⟨⟨by decide, ?_⟩, ?_⟩
    · exact ⟨⟨trivial, ⟨trivial, trivial, trivial⟩, trivial⟩, trivial, trivial⟩
    · rintro s ⟨⟩
      exact List.forall_mem_cons.mpr ⟨by decide, List.forall_mem_singleton.mpr (by decide)⟩
  have deep : (toJson sent).depth ≤ maxDepth := by decide +kernel
  obtain ⟨⟨-, -, -, -, -, -, -, -, -, messages⟩, -⟩ := json_round_trip Record
  exact ⟨sound, deep, (messages sent sound deep).1⟩

end CoEdit
