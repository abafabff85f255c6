import CoEdit.Jupiter
import CoEdit.Proofs.Unattended

/-!
# Cursors track their elements

A cursor that stands at an element of a document, or behind the last one, follows it through
everything that is applied (`LocalCopy.Tracks`), be it an edit of its own site or what arrives from
the others (`cursor_tracks`). What the same element is, is said by its name.
-/

namespace CoEdit

open ClientAlgorithm

variable {α : Type}

namespace Roster

variable {r : Roster} {c : Cursor} {op : Operation α} {before after ops : List (Operation α)}
  {name i j p : Nat}

theorem eq_of_getElem? (at_i : r.names[i]? = some name) (at_j : r.names[j]? = some name) : j = i :=
  (List.getElem?_inj (List.getElem?_eq_some_iff.mp at_j).1 r.distinct).mp (at_j.trans at_i.symm)

theorem allows_append :
    r.Allows (before ++ after) ↔ r.Allows before ∧ (r.followAll before).Allows after := by
  induction before generalizing r with
  | nil => simp [Allows]
  | cons op rest ih => simp [Allows, ih, and_assoc]

/-- If its element is deleted, a cursor is at the one behind it. -/
theorem followAll_lost (allows : r.Allows (before ++ [op])) (at_i : c.position = i)
    (at_name : r.names[i]? = some name) (deletes : op.edit = .delete p)
    (lost : (r.followAll before).names[p]? = some name) :
    (c.followAll (before ++ [op])).position = p ∧
      (c.followAll (before ++ [op])).status = .deleted ∧
      (r.followAll (before ++ [op])).names[p]? = (r.followAll before).names[p + 1]? := by
  obtain ⟨allowed, fits, room, -⟩ := allows_append.mp allows
  have there : name ∈ (r.followAll before).names := List.mem_of_getElem? lost
  obtain ⟨p', at_p', holds, -⟩ :=
    followAll_holds allowed at_i at_name (spared_of_mem allowed at_i at_name there)
  obtain rfl : p' = p := eq_of_getElem? lost (holds.name.trans at_name)
  have shape : op.edit.shape = .delete p' := by rw [deletes, Edit.shape]
  have passes := passes_follow at_p' fits room
  rw [shape] at passes
  obtain ⟨marked, behind⟩ := passes.lost
  rw [Cursor.followAll_append, followAll_append]
  simp only [Cursor.followAll_cons, Cursor.followAll_nil, followAll_cons, followAll_nil, marked]
  exact ⟨at_p', trivial, behind⟩

end Roster

/-- What becomes of a cursor in a document while operations are applied, by the names of the
elements. -/
structure Cursor.Tracks (c : Cursor) (r : Roster) (ops : List (Operation α)) (c' : Cursor) :
    Prop where
  /-- it stays inside -/
  inside : 0 ≤ c'.position ∧ c'.position ≤ (r.followAll ops).names.length
  /-- while its element is there, it is at this element, and is marked if the element was changed -/
  stays : ∀ name, r.at? c.position = some name → name ∈ (r.followAll ops).names →
    (r.followAll ops).at? c'.position = some name ∧
      c'.status = if r.changes name ops then .updated else c.status
  /-- when its element is deleted, it is marked, and is at the element that was behind it -/
  loses : ∀ name before op (p : Nat), ops = before ++ [op] → r.at? c.position = some name →
    op.edit = .delete p → (r.followAll before).names[p]? = some name →
      c'.position = p ∧ c'.status = .deleted ∧
        (r.followAll ops).names[p]? = (r.followAll before).names[p + 1]?
  /-- behind the last element it stays there -/
  ends : c.position = r.names.length →
    c'.position = (r.followAll ops).names.length ∧ c'.status = c.status

theorem Cursor.tracks_followAll {r : Roster} {c : Cursor} {ops : List (Operation α)} {i : Nat}
    (allows : r.Allows ops) (at_i : c.position = i) (inside : i ≤ r.names.length) :
    c.Tracks r ops (c.followAll ops) where
  inside := by
    obtain ⟨i', at_i', inside'⟩ := Roster.followAll_inside allows at_i inside
    omega
  stays name at_name there := by
    rw [at_i, Roster.at?_natCast] at at_name
    have spared := Roster.spared_of_mem allows at_i at_name there
    obtain ⟨i', at_i', holds, status⟩ := Roster.followAll_holds allows at_i at_name spared
    rw [at_i', Roster.at?_natCast]
    exact ⟨holds.name.trans at_name, status⟩
  loses name before op p last at_name deletes lost := by
    rw [at_i, Roster.at?_natCast] at at_name
    subst last
    exact Roster.followAll_lost allows at_i at_name deletes lost
  ends := Roster.followAll_atEnd allows

namespace Roster

variable [Element α] {r : Roster} {d d' : Document α} {op : Operation α}
  {ops : List (Operation α)} {name i j : Nat}

/-- An edit moves elements about, and changes those that it replaces or updates. -/
theorem slot_of_apply (applied : d.apply op = .ok d') (at_i : r.names[i]? = some name)
    (at_j : (r.follow op.edit).names[j]? = some name)
    (unchanged : r.revises name op.edit = false) : d'.slots[j]? = d.slots[i]? := by
  have does := Document.apply_eq_ok_iff.mp applied
  have old := r.given name (List.mem_of_getElem? at_i)
  have elsewhere : ∀ p, op.edit.shape = .update p → p ≠ i := by
    rintro p shape rfl
    rw [Bool.eq_false_iff] at unchanged
    exact unchanged ((revises_eq_true_iff at_i).mpr shape)
  simp only [follow] at at_j
  cases edit : op.edit with simp only [edit, Edit.shape] at does at_j elsewhere
  | noop =>
    subst does
    rw [eq_of_getElem? at_i at_j]
  | insert p v =>
    obtain ⟨inside, rfl⟩ := does
    rw [enter, List.getElem?_insertIdx] at at_j
    rw [List.getElem?_insertIdx]
    split at at_j
    · obtain rfl := eq_of_getElem? at_i at_j
      rw [if_pos ‹_›]
    · split at at_j
      · -- the name of what comes in is a new one
        split at at_j <;> cases at_j
        exact absurd old (Nat.lt_irrefl _)
      · rw [if_neg ‹_›, if_neg ‹_›, eq_of_getElem? at_i at_j]
  | delete p =>
    obtain ⟨inside, rfl⟩ := does
    rw [strike, List.getElem?_eraseIdx] at at_j
    rw [List.getElem?_eraseIdx]
    split at at_j
    · obtain rfl := eq_of_getElem? at_i at_j
      rw [if_pos ‹_›]
    · rw [if_neg ‹_›, eq_of_getElem? at_i at_j]
  | replace p v =>
    obtain ⟨-, rfl⟩ := does
    rw [eq_of_getElem? at_i at_j, List.getElem?_set_ne (elsewhere p rfl)]
  | update p tag delta =>
    obtain ⟨slot, stamp, -, -, -, rfl⟩ := does
    rw [eq_of_getElem? at_i at_j, List.getElem?_set_ne (elsewhere p rfl)]

/-- A name stands for one element: what it names is later what it was, as long as it is not
changed. -/
theorem slot_of_applyAll (applied : d.applyAll ops = .ok d') (at_i : r.names[i]? = some name)
    (at_j : (r.followAll ops).names[j]? = some name) (unchanged : r.changes name ops = false) :
    d'.slots[j]? = d.slots[i]? := by
  induction ops generalizing d r i with
  | nil =>
    cases applied
    rw [eq_of_getElem? at_i at_j]
  | cons op rest ih =>
    obtain ⟨mid, first, later⟩ := Document.applyAll_cons_eq_ok.mp applied
    rw [changes, Bool.or_eq_false_iff] at unchanged
    -- the name is there all the time, so the element has an index in between
    have known := r.given name (List.mem_of_getElem? at_i)
    have meanwhile : name ∈ (r.follow op.edit).names := mem_of_mem_followAll
      (Nat.lt_of_lt_of_le known (r.next_le_follow op)) (List.mem_of_getElem? at_j)
    obtain ⟨k, at_k⟩ := List.mem_iff_getElem?.mp meanwhile
    rw [ih later at_k at_j unchanged.2, slot_of_apply first at_i at_k unchanged.1]

end Roster

namespace LocalCopy

variable [Element α] {copy copy' : LocalCopy α} {id : CursorId} {ops : List (Operation α)}

/-- Operations are applied, the names of the elements follow them, and so does the cursor with an
identifier if it is inside of the document. -/
structure Tracks (id : CursorId) (copy : LocalCopy α) (ops : List (Operation α))
    (copy' : LocalCopy α) : Prop where
  applied : copy.document.applyAll ops = .ok copy'.document
  lists : ((Roster.ofSize copy.document.size).followAll ops).Lists copy'.document
  slot : ∀ name j : Nat, ((Roster.ofSize copy.document.size).followAll ops).names[j]? = some name →
    name < copy.document.size → (Roster.ofSize copy.document.size).changes name ops = false →
      copy'.document.slots[j]? = copy.document.slots[name]?
  cursor : ∀ c, copy.cursors.find? id = some c → 0 ≤ c.position →
    c.position ≤ copy.document.size → ∃ c', copy'.cursors.find? id = some c' ∧
      c.Tracks (Roster.ofSize copy.document.size) ops c'

theorem Runs.tracks (runs : Runs id copy ops copy')
    (addressable : copy.document.Addressable ops) : Tracks id copy ops copy' := by
  obtain ⟨allows, lists⟩ := Document.allows_of_applyAll
    (Roster.lists_ofSize copy.document) addressable runs.document
  refine ⟨runs.document, lists, ?_, ?_⟩
  · intro name j at_j old unchanged
    have at_name : (Roster.ofSize copy.document.size).names[name]? = some name :=
      List.getElem?_range old
    exact Roster.slot_of_applyAll runs.document at_name at_j unchanged
  · intro c registered low high
    obtain ⟨i, at_i⟩ := Int.eq_ofNat_of_zero_le low
    refine ⟨c.followAll ops, by rw [runs.cursor, registered, Option.map_some], ?_⟩
    refine Cursor.tracks_followAll allows at_i ?_
    rw [Roster.ofSize, List.length_range]
    omega

end LocalCopy

/-- Whatever is applied to a copy while the owner of a cursor does not move it: the cursor stays
inside, it is at its element as long as the element is there, it is marked when the element is
changed or deleted, and then it is at the one behind. So it is when a client is called with edits,
messages and whatever does not move the cursor, and the acknowledgement of its own operation leaves
the copy of a client as it is. -/
theorem cursor_tracks [Element α] (id : CursorId) :
    (∀ (copy copy' : LocalCopy α) ops, copy.Runs id ops copy' → copy.document.Addressable ops →
      copy.Tracks id ops copy') ∧
    (∀ (client : Wave.Client α) calls c, client.copy.cursors.find? id = some c →
      KeepsFill client calls → (∀ next ∈ calls, next.spares id) →
      let later : Wave.Client α := callAll client calls
      client.copy.document.Addressable (since client.copy.history later) →
        client.copy.Tracks id (since client.copy.history later) later.copy) ∧
    (∀ (client : Jupiter.Client α) calls c, client.copy.cursors.find? id = some c →
      KeepsFill client calls → (∀ next ∈ calls, next.spares id) →
      let later : Jupiter.Client α := callAll client calls
      client.copy.document.Addressable (since client.copy.history later) →
        client.copy.Tracks id (since client.copy.history later) later.copy) ∧
    ∀ (client : Wave.Client α) (op : Operation α), op.creator? = some client.site →
      (call client (.integrate op)).state.copy = client.copy := by
  refine ⟨?_, ?_, ?_, fun client op own => Wave.Client.integrate_own own⟩
  · intro copy copy' ops runs addressable
    exact runs.tracks addressable
  · intro client calls c registered keeps spares later addressable
    exact (Wave.Client.steady.runs_callAll registered keeps spares).tracks addressable
  · intro client calls c registered keeps spares later addressable
    exact (Jupiter.Client.steady.runs_callAll registered keeps spares).tracks addressable

/-- A client with two elements and a cursor at the second one. -/
def atSecond {C : Type → Type} [ClientAlgorithm C] (caret : CursorId) (state : StateVector) :
    C Char :=
  callAll (start .firstWriterWins (.ofNat 1))
    [.fill (.snapshot ['a', 'b'] state), .register (.start caret 1)]

/-- The client enters an element before the cursor, fails to delete one, and hears that another site
has replaced the element at the cursor. -/
def replacedMeanwhile (state : StateVector) : List (ClientCall Char) :=
  [.generate ⟨.insert 0 'x', none⟩, .generate ⟨.delete 9, none⟩,
    .integrate ⟨.replace 1 'c', some ⟨.ofNat 2, state⟩⟩]

theorem cursor_tracks_replaced :
    let caret : CursorId := ⟨"caret", 0⟩
    let wave : Wave.Client Char := atSecond caret ⟨[0]⟩
    let wave' := callAll wave (replacedMeanwhile ⟨[0]⟩)
    let jupiter : Jupiter.Client Char := atSecond caret ⟨[0, 0]⟩
    let jupiter' := callAll jupiter (replacedMeanwhile ⟨[0, 0]⟩)
    let deletion : Operation Char := ⟨.delete 1, none⟩
    (∃ copy, wave.copy.Runs caret [deletion] copy ∧ wave.copy.Tracks caret [deletion] copy ∧
      copy.cursors.find? caret = some ⟨caret, 1, .deleted⟩) ∧
    (wave.copy.Tracks caret (since wave.copy.history wave') wave'.copy ∧
      wave'.copy.document.values = ['x', 'a', 'c'] ∧
      wave'.copy.cursors.find? caret = some ⟨caret, 2, .updated⟩) ∧
    (jupiter.copy.Tracks caret (since jupiter.copy.history jupiter') jupiter'.copy ∧
      jupiter'.copy.document.values = ['x', 'a', 'c'] ∧
      jupiter'.copy.cursors.find? caret = some ⟨caret, 2, .updated⟩) ∧
    (call wave' (.integrate ⟨.insert 0 'x', some ⟨.ofNat 1, ⟨[0]⟩⟩⟩)).state.copy = wave'.copy := by
  intro caret wave wave' jupiter jupiter' deletion
  obtain ⟨runs, waves, jupiters, acknowledged⟩ := cursor_tracks (α := Char) caret
  have deleted : wave.copy.Runs caret [deletion] _ := .apply rfl (.stop _)
  refine ⟨⟨_, deleted, runs _ _ _ deleted ?_, ?_⟩,
    ⟨waves wave (replacedMeanwhile ⟨[0]⟩) (.start caret 1) ?_ ?_ ?_ ?_, ?_, ?_⟩,
    ⟨jupiters jupiter (replacedMeanwhile ⟨[0, 0]⟩) (.start caret 1) ?_ ?_ ?_ ?_, ?_, ?_⟩,
    acknowledged wave' _ ?_⟩
  case refine_1 | refine_6 | refine_12 => exact Document.addressable_of_length (by decide +kernel)
  case refine_4 | refine_10 => exact ⟨nofun, nofun, nofun, trivial⟩
  all_goals decide +kernel

end CoEdit
