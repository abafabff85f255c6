import CoEdit.Navigation
import CoEdit.Proofs.Unattended

/-!
# Moves

How far a cursor gets out of a document, and what its tests say there. What is applied to a
document takes a cursor neither in nor out (`Roster.stray_followAll`); its owner can lead it out,
step by step and as far as he likes (`cursor_roams`). Inside, and one step outside, the tests for a
next and a previous element say what a step would return; further out the test that looks back at
the elements says that there are some, although one step does not reach them.
-/

namespace CoEdit

variable {α : Type}

/-- How far a cursor is from the nearest position in a document of `size` elements, or one step
outside of it. -/
def Cursor.stray (c : Cursor) (size : Nat) : Nat :=
  (c.position - size).toNat + (-1 - c.position).toNat

/-- A step off the end at which a cursor is. -/
def Move.overshoots (move : Move) (position : Int) (size : Nat) : Bool :=
  match move with
  | .forward => size ≤ position
  | .backward => position ≤ -1
  | .toHead | .toTail | .toPosition _ => false

/-- A move that does not name its destination. -/
def Move.relative : Move → Bool
  | .toPosition _ => false
  | _ => true

theorem Move.forward_overshoots (position : Int) (size : Nat)
    (off_end : forward.overshoots position size) : forward.overshoots (position + 1) size := by
  simp only [overshoots, decide_eq_true_iff] at off_end ⊢
  omega

theorem Move.backward_overshoots (position : Int) (size : Nat)
    (off_end : backward.overshoots position size) : backward.overshoots (position + -1) size := by
  simp only [overshoots, decide_eq_true_iff] at off_end ⊢
  omega

theorem Cursor.stray_eq_zero_iff {c : Cursor} {size : Nat} :
    c.stray size = 0 ↔ -1 ≤ c.position ∧ c.position ≤ size := by
  rw [stray]
  omega

/-- A move leads one step further out at most, and only if it is one off the end. -/
theorem Cursor.stray_moveTo_le {move : Move} (relative : move.relative) (c : Cursor) (size : Nat) :
    (c.moveTo (move.destination c.position size)).stray size ≤
      c.stray size + (move.overshoots c.position size).toNat := by
  cases move with simp only [stray, moveTo, Move.destination, Move.overshoots]
  | forward =>
    by_cases off : (size : Int) ≤ c.position <;> simp [off] <;> omega
  | backward =>
    by_cases off : c.position ≤ -1 <;> simp [off] <;> omega
  | toHead | toTail => simp
  | toPosition p => cases relative

namespace Roster

variable {r : Roster} {c : Cursor} {op : Operation α} {ops : List (Operation α)}

/-- An edit takes a cursor neither in nor out. -/
theorem stray_follow (fits : op.edit.shape.Fits r.names.length)
    (room : r.names.length < Word.signBit) :
    (c.follow op.edit).stray (r.follow op.edit).names.length = c.stray r.names.length := by
  simp only [Cursor.follow, follow]
  cases shape : op.edit.shape with simp only [shape, Shape.Fits] at fits ⊢
  | insert p =>
    rw [Cursor.signed_of_lt (by omega), enter, List.length_insertIdx_of_le_length fits]
    split <;> simp only [Cursor.stray] <;> omega
  | delete p =>
    rw [Cursor.signed_of_lt (by omega), strike, List.length_eraseIdx_of_lt fits]
    repeat' split
    all_goals simp only [Cursor.stray]; omega
  | update p => split <;> rfl

/-- Operations take a cursor neither in nor out. -/
theorem stray_followAll (allows : r.Allows ops) :
    (c.followAll ops).stray (r.followAll ops).names.length = c.stray r.names.length := by
  induction ops generalizing r c with
  | nil => rfl
  | cons op rest ih =>
    obtain ⟨fits, room, allows⟩ := allows
    exact (ih allows).trans (stray_follow fits room)

end Roster

namespace LocalCopy

variable {copy mid copy' : LocalCopy α} {id : CursorId} {c : Cursor} {move : Move}

/-- The element that a move returns. -/
def reached (copy : LocalCopy α) (move : Move) (position : Int) : Option α :=
  let target := move.destination position copy.document.size
  copy.elementAt (if move = .toTail then target - 1 else target)

/-- A registered cursor can be moved, and the document stays as it is. -/
theorem navigate_eq_ok (registered : copy.cursors.find? id = some c) (move : Move) :
    ∃ mid, copy.navigate id move = .ok (copy.reached move c.position, mid) ∧
      mid.document = copy.document ∧ mid.history = copy.history ∧
      mid.cursors.find? id = some (c.moveTo (move.destination c.position copy.document.size)) := by
  have found : copy.cursors.get id = .ok c := by simp only [Cursors.get, registered]
  obtain ⟨cursors, moved⟩ : ∃ cursors, copy.cursors.moveTo id
      (move.destination c.position copy.document.size) = .ok cursors :=
    ⟨_, by rw [Cursors.moveTo, found]; rfl⟩
  refine ⟨{ copy with cursors }, ?_, rfl, rfl, ?_⟩
  · simp only [navigate, found, bind, Except.bind, moved, pure, Except.pure, reached]
    cases move <;> rfl
  · change cursors.find? id = _
    rw [Cursors.find?_of_moveTo moved, registered, Option.map_some, if_pos rfl]

theorem elementAt_isSome (copy : LocalCopy α) (position : Int) :
    (copy.elementAt position).isSome ↔ 0 ≤ position ∧ position < copy.document.size := by
  simp only [elementAt, Document.get?, Document.size]
  split
  · simp
    omega
  · simp
    omega

/-- What the tests for a next and a previous element say, and what steps in these directions
return. -/
structure Foresees (copy : LocalCopy α) (id : CursorId) (c : Cursor) : Prop where
  next : ∃ test ahead found, copy.hasNext id = .ok test ∧
    copy.navigate id .forward = .ok (found, ahead) ∧
      (test ↔ found.isSome ∨ c.position < -1)
  previous : ∃ test behind found, copy.hasPrevious id = .ok test ∧
    copy.navigate id .backward = .ok (found, behind) ∧
      (test ↔ found.isSome ∨ 0 < copy.document.size ∧ copy.document.size < c.position)

theorem foresees (registered : copy.cursors.find? id = some c) : copy.Foresees id c := by
  have found : copy.cursors.get id = .ok c := by simp only [Cursors.get, registered]
  obtain ⟨ahead, forward, -⟩ := navigate_eq_ok registered .forward
  obtain ⟨behind, backward, -⟩ := navigate_eq_ok registered .backward
  constructor
  · refine ⟨_, _, _, by rw [hasNext, found]; rfl, forward, ?_⟩
    simp only [reached, Move.destination, reduceCtorEq, if_false, elementAt_isSome,
      decide_eq_true_iff]
    omega
  · have any : copy.document.isEmpty = false ↔ 0 < copy.document.size := by
      simp [Document.isEmpty, Document.size, List.length_pos_iff]
    refine ⟨_, _, _, by rw [hasPrevious, found]; rfl, backward, ?_⟩
    simp only [reached, Move.destination, reduceCtorEq, if_false, elementAt_isSome,
      Bool.and_eq_true, Bool.not_eq_true', any, decide_eq_true_iff]
    omega

variable [Element α] {off : Nat}

/-- Operations and moves of a cursor in any order, with the number of steps off an end. -/
inductive Roams (id : CursorId) : LocalCopy α → Nat → LocalCopy α → Prop where
  | stop (copy : LocalCopy α) : Roams id copy 0 copy
  | run {copy mid copy' : LocalCopy α} {ops : List (Operation α)} {off : Nat}
      (runs : copy.Runs id ops mid) (addressable : copy.document.Addressable ops)
      (rest : Roams id mid off copy') : Roams id copy off copy'
  | move {copy mid copy' : LocalCopy α} {c : Cursor} {move : Move} {found : Option α} {off : Nat}
      (registered : copy.cursors.find? id = some c) (relative : move.relative)
      (moved : copy.navigate id move = .ok (found, mid)) (rest : Roams id mid off copy') :
      Roams id copy ((move.overshoots c.position copy.document.size).toNat + off) copy'

/-- A cursor is no further out than steps off an end have led it. -/
theorem Roams.stray_le (roams : copy.Roams id off copy')
    (registered : copy.cursors.find? id = some c) :
    ∃ c', copy'.cursors.find? id = some c' ∧
      c'.stray copy'.document.size ≤ c.stray copy.document.size + off := by
  induction roams generalizing c with
  | stop copy => exact ⟨c, registered, Nat.le_refl _⟩
  | @run copy mid copy' ops off runs addressable rest ih =>
    have kept : mid.cursors.find? id = some (c.followAll ops) := by
      rw [runs.cursor, registered, Option.map_some]
    obtain ⟨c', registered', bound⟩ := ih kept
    have lists := Roster.lists_ofSize copy.document
    obtain ⟨allows, lists'⟩ := Document.allows_of_applyAll lists addressable runs.document
    have same := Roster.stray_followAll (c := c) allows
    -- the lengths of the rosters are the sizes of the documents
    rw [lists, lists'] at same
    exact ⟨c', registered', same ▸ bound⟩
  | @move copy mid copy' c₀ move found off registered₀ relative moved rest ih =>
    obtain rfl : c₀ = c := Option.some.inj (registered₀.symm.trans registered)
    obtain ⟨mid', done, same, -, steered⟩ := navigate_eq_ok registered move
    cases moved.symm.trans done
    obtain ⟨c', registered', bound⟩ := ih steered
    rw [same] at bound
    refine ⟨c', registered', ?_⟩
    calc c'.stray copy'.document.size
      _ ≤ (c₀.moveTo _).stray copy.document.size + off := bound
      _ ≤ c₀.stray copy.document.size + _ + off :=
        Nat.add_le_add_right (c₀.stray_moveTo_le relative _) off
      _ = c₀.stray copy.document.size + (_ + off) := Nat.add_assoc ..

/-- A move that is not off an end can be made first. -/
theorem exists_move (move : Move) (registered : copy.cursors.find? id = some c)
    (relative : move.relative)
    (inside : move.overshoots c.position copy.document.size = false) :
    ∃ mid : LocalCopy α, mid.document = copy.document ∧
      mid.cursors.find? id = some (c.moveTo (move.destination c.position copy.document.size)) ∧
      ∀ off copy', mid.Roams id off copy' → copy.Roams id off copy' := by
  obtain ⟨mid, moved, same, -, steered⟩ := navigate_eq_ok registered move
  refine ⟨mid, same, steered, fun off copy' roams => ?_⟩
  have first := Roams.move registered relative moved roams
  rwa [inside, Bool.toNat_false, Nat.zero_add] at first

/-- A move that leads on by the same distance from everywhere can be made off its end again and
again. -/
theorem exists_roams (move : Move) (relative : move.relative) {distance : Int}
    (leads : ∀ position size, move.destination position size = position + distance)
    (further : ∀ position size, move.overshoots position size →
      move.overshoots (position + distance) size)
    (registered : copy.cursors.find? id = some c)
    (off_end : move.overshoots c.position copy.document.size) (off : Nat) :
    ∃ copy' c', copy.Roams id off copy' ∧ copy'.cursors.find? id = some c' ∧
      copy'.document = copy.document ∧ c'.position = c.position + off * distance := by
  induction off generalizing copy c with
  | zero => exact ⟨copy, c, .stop copy, registered, rfl, by simp⟩
  | succ off ih =>
    obtain ⟨mid, moved, same, -, steered⟩ := navigate_eq_ok registered move
    rw [leads] at steered
    obtain ⟨copy', c', roams, registered', same', position⟩ :=
      ih steered (same ▸ further _ _ off_end)
    refine ⟨copy', c', ?_, registered', same'.trans same, ?_⟩
    · have first := Roams.move registered relative moved roams
      rwa [off_end, Bool.toNat_true, Nat.add_comm] at first
    · rw [position, Int.natCast_succ, Int.add_mul, Int.one_mul]
      change c.position + distance + off * distance = _
      omega

end LocalCopy

/-- A cursor that starts inside of a document or one step outside is no further out than the steps
off an end that its owner made, whatever is applied meanwhile; without such a step it stays inside
or one step outside, and there the tests for a next and a previous element tell what a step returns.
Every further step off an end leads further out, without limit; there the test that looks towards
the elements says that there is one, and the step returns none. -/
theorem cursor_roams [Element α] {copy : LocalCopy α} {id : CursorId} {c : Cursor}
    (registered : copy.cursors.find? id = some c) (low : -1 ≤ c.position)
    (high : c.position ≤ copy.document.size) :
    (∀ off copy', copy.Roams id off copy' → ∃ c', copy'.cursors.find? id = some c' ∧
      -1 - off ≤ c'.position ∧ c'.position ≤ copy'.document.size + off ∧
      copy'.Foresees id c') ∧
    ∀ off, (∃ copy' c', copy.Roams id off copy' ∧ copy'.cursors.find? id = some c' ∧
        c'.position = copy'.document.size + off) ∧
      ∃ copy' c', copy.Roams id off copy' ∧ copy'.cursors.find? id = some c' ∧
        c'.position = -1 - off := by
  refine ⟨?_, fun off => ⟨?_, ?_⟩⟩
  · intro off copy' roams
    obtain ⟨c', registered', bound⟩ := roams.stray_le registered
    rw [Cursor.stray_eq_zero_iff.mpr ⟨low, high⟩, Nat.zero_add, Cursor.stray] at bound
    exact ⟨c', registered', by omega, by omega, LocalCopy.foresees registered'⟩
  · obtain ⟨tail, same, at_tail, first⟩ := LocalCopy.exists_move .toTail registered rfl rfl
    obtain ⟨copy', c', roams, registered', same', position⟩ := LocalCopy.exists_roams
      .forward rfl (fun _ _ => rfl) Move.forward_overshoots at_tail
      (by simp [Move.overshoots, Cursor.moveTo, Move.destination, same]) off
    refine ⟨copy', c', first _ _ roams, registered', ?_⟩
    rw [position, same', same, Int.mul_one]
    rfl
  · obtain ⟨head, -, at_head, first⟩ := LocalCopy.exists_move .toHead registered rfl rfl
    obtain ⟨outside, -, at_outside, second⟩ :=
      LocalCopy.exists_move .backward at_head rfl rfl
    obtain ⟨copy', c', roams, registered', -, position⟩ := LocalCopy.exists_roams
      .backward rfl (fun _ _ => rfl) Move.backward_overshoots at_outside rfl off
    refine ⟨copy', c', first _ _ (second _ _ roams), registered', ?_⟩
    rw [position]
    simp [Cursor.moveTo, Move.destination]
    omega

/-- A cursor steps behind the last of three elements, one of which came in before it. -/
theorem cursor_roams_tail :
    let caret : CursorId := ⟨"caret", 0⟩
    let copy : LocalCopy Char := .withCaret ['a', 'b'] (.start caret 1)
    let insertion : Operation Char := ⟨.insert 0 'x', none⟩
    ∃ mid copy', copy.Runs caret [insertion] mid ∧
      mid.navigate caret .forward = .ok (none, copy') ∧
      copy'.document.values = ['x', 'a', 'b'] ∧
      copy'.cursors.find? caret = some ⟨caret, 3, .valid⟩ ∧
      copy'.Foresees caret ⟨caret, 3, .valid⟩ := by
  intro caret copy insertion
  have runs : copy.Runs caret [insertion] _ := .apply rfl (.stop _)
  refine ⟨_, _, runs, rfl, by decide +kernel, by decide +kernel, ?_⟩
  have addressable : copy.document.Addressable [insertion] :=
    Document.addressable_of_length (by decide +kernel)
  obtain ⟨c', registered, -, -, foresees⟩ :=
    (cursor_roams (c := .start caret 1) rfl (by decide) (by decide)).1 _ _
      (.run runs addressable
        (@LocalCopy.Roams.move _ _ _ _ _ _ _ .forward _ _ rfl rfl rfl (.stop _)))
  cases registered
  exact foresees

/-- Steps off the ends of a document with one element: the tests see the element, and the steps
back do not reach it. -/
theorem cursor_strays :
    let caret : CursorId := ⟨"caret", 0⟩
    let behind : LocalCopy Char := .withCaret ['a'] (.start caret 1)
    let before : LocalCopy Char := .withCaret ['a'] (.start caret (-1))
    (∃ copy back, behind.navigate caret .forward = .ok (none, copy) ∧
      copy.cursors.find? caret = some ⟨caret, 2, .valid⟩ ∧
      copy.hasPrevious caret = .ok true ∧ copy.navigate caret .backward = .ok (none, back)) ∧
    ∃ copy back, before.navigate caret .backward = .ok (none, copy) ∧
      copy.cursors.find? caret = some ⟨caret, -2, .valid⟩ ∧
      copy.hasNext caret = .ok true ∧ copy.navigate caret .forward = .ok (none, back) := by
  intro caret behind before
  exact ⟨⟨_, _, rfl, rfl, rfl, rfl⟩, ⟨_, _, rfl, rfl, rfl, rfl⟩⟩

end CoEdit
