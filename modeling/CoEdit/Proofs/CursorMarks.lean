import CoEdit.Proofs.Unattended

/-!
# Marks

An edit of what a cursor stands on puts a mark on the cursor, in place of the one before. A deletion
leaves the cursor on the next element, and from there on it is that element whose edits are marked.
So a cursor that lost its element is marked as deleted until its owner moves it, unless the element
that it stands on is changed (`deletion_mark_lasts`).
-/

namespace CoEdit

variable {α : Type}

theorem Edit.updatesAt_of_deletesAt {edit : Edit α} {position : Int}
    (deletes : edit.deletesAt position) : edit.updatesAt position = false := by
  cases shape : edit.shape <;> simp_all [deletesAt, updatesAt]

namespace Roster

variable {r : Roster} {c : Cursor} {op : Operation α} {ops : List (Operation α)}

/-- The last edit of what a cursor stands on is what it is marked with. -/
theorem status_follow (fits : op.edit.shape.Fits r.names.length)
    (room : r.names.length < Word.signBit) :
    (c.follow op.edit).status =
      if op.edit.deletesAt c.position then .deleted
      else if op.edit.updatesAt c.position then .updated
      else c.status := by
  cases shape : op.edit.shape with
    simp only [Cursor.follow, Edit.deletesAt, Edit.updatesAt, shape, Shape.Fits] at fits ⊢
  | noop => rfl
  | insert p => split <;> rfl
  | delete p =>
    rw [Cursor.signed_of_lt (by omega)]
    rcases Int.lt_trichotomy p c.position with before | here | behind
    · simp [before, Int.ne_of_lt before]
    · simp [here]
    · simp [Int.lt_asymm behind, Int.ne_of_gt behind]
  | update p =>
    rw [Cursor.signed_of_lt (by omega)]
    by_cases here : (p : Int) = c.position <;> simp [here]

/-- A cursor is marked as changed if what it stands on was changed since it came there. -/
theorem status_followAll_eq_updated_iff (allows : r.Allows ops) :
    (c.followAll ops).status = .updated ↔
      (c.status = .updated ∧ c.spared ops) ∨
      ∃ before op after, ops = before ++ op :: after ∧
        op.edit.updatesAt (c.followAll before).position ∧
        (c.followAll (before ++ [op])).spared after := by
  induction ops generalizing r c with
  | nil => simp [Cursor.spared]
  | cons op rest ih =>
    obtain ⟨fits, room, allows⟩ := allows
    have first : ((c.follow op.edit).status = .updated ∧ (c.follow op.edit).spared rest) ↔
        (c.status = .updated ∧ c.spared (op :: rest)) ∨
          (op.edit.updatesAt c.position ∧ (c.follow op.edit).spared rest) := by
      rw [status_follow fits room, Cursor.spared]
      cases deletes : op.edit.deletesAt c.position with
      | true => simp [Edit.updatesAt_of_deletesAt deletes]
      | false => cases op.edit.updatesAt c.position <;> simp
    rw [Cursor.followAll_cons, ih allows, first, or_assoc]
    refine or_congr_right ⟨?_, ?_⟩
    · rintro (⟨updates, spared⟩ | ⟨before, op', after, rfl, updates, spared⟩)
      · exact ⟨[], op, rest, rfl, updates, spared⟩
      · exact ⟨op :: before, op', after, rfl, updates, spared⟩
    · rintro ⟨_ | ⟨op'', before⟩, op', after, same, updates, spared⟩
      · cases same
        exact .inl ⟨updates, spared⟩
      · cases same
        exact .inr ⟨before, op', after, rfl, updates, spared⟩

end Roster

namespace Cursor

variable {c : Cursor} {ops : List (Operation α)}

/-- A mark is replaced by other marks only. -/
theorem status_follow_ne_valid (marked : c.status ≠ .valid) (edit : Edit α) :
    (c.follow edit).status ≠ .valid := by
  simp only [follow]
  repeat' split
  all_goals first | exact marked | simp

theorem status_followAll_ne_valid (marked : c.status ≠ .valid) (ops : List (Operation α)) :
    (c.followAll ops).status ≠ .valid := by
  induction ops generalizing c with
  | nil => exact marked
  | cons op rest ih => exact ih (status_follow_ne_valid marked op.edit)

end Cursor

/-- Once the element under a cursor was deleted, the cursor is marked, as deleted or as updated,
until its owner moves it. It is marked as updated just when an operation has replaced or updated
what the cursor stood on by then and no operation has deleted it since; so it stays marked as
deleted as long as what it came to stand on is not changed. -/
theorem deletion_mark_lasts [Element α] {copy copy' : LocalCopy α} {id : CursorId} {c : Cursor}
    {op : Operation α} {ops : List (Operation α)} (registered : copy.cursors.find? id = some c)
    (deletes : op.edit.deletesAt c.position) (runs : copy.Runs id (op :: ops) copy')
    (addressable : copy.document.Addressable (op :: ops)) :
    ∃ c', copy'.cursors.find? id = some c' ∧
      (c'.status = .deleted ∨ c'.status = .updated) ∧
      (c'.status = .updated ↔ ∃ before op' after, ops = before ++ op' :: after ∧
        op'.edit.updatesAt (c.followAll (op :: before)).position ∧
        (c.followAll (op :: before ++ [op'])).spared after) := by
  obtain ⟨⟨fits, room, allows⟩, -⟩ := Document.allows_of_applyAll
    (Roster.lists_ofSize copy.document) addressable runs.document
  have marked : (c.follow op.edit).status = .deleted := by
    rw [Roster.status_follow fits room, if_pos deletes]
  have not_updated : (c.follow op.edit).status ≠ .updated := by simp [marked]
  refine ⟨c.followAll (op :: ops), by rw [runs.cursor, registered, Option.map_some], ?_, ?_⟩
  · have not_valid : (c.followAll (op :: ops)).status ≠ .valid :=
      Cursor.status_followAll_ne_valid (by simp [marked]) ops
    cases status : (c.followAll (op :: ops)).status with
    | valid => exact absurd status not_valid
    | deleted => exact .inl rfl
    | updated => exact .inr rfl
  · rw [Cursor.followAll_cons, Roster.status_followAll_eq_updated_iff allows]
    simp only [not_updated, false_and, false_or]
    rfl

/-- An insertion and a replacement before the cursor are not marked. -/
theorem deletion_mark_lasts_elsewhere :
    let caret : CursorId := ⟨"caret", 0⟩
    let copy : LocalCopy Char := .withCaret ['a', 'b', 'c'] (.start caret 1)
    let deletion : Operation Char := ⟨.delete 1, none⟩
    let others : List (Operation Char) := [⟨.insert 0 'x', none⟩, ⟨.replace 1 'y', none⟩]
    ∃ copy', copy.Runs caret (deletion :: others) copy' ∧
      copy'.document.values = ['x', 'y', 'c'] ∧
      copy'.cursors.find? caret = some ⟨caret, 2, .deleted⟩ ∧
      ¬ ∃ before op' after, others = before ++ op' :: after ∧
        op'.edit.updatesAt ((Cursor.start caret 1).followAll (deletion :: before)).position ∧
        ((Cursor.start caret 1).followAll (deletion :: before ++ [op'])).spared after := by
  intro caret copy deletion others
  have runs : copy.Runs caret (deletion :: others) _ :=
    .apply rfl (.apply rfl (.apply rfl (.stop _)))
  refine ⟨_, runs, by decide +kernel, by decide +kernel, fun changed => ?_⟩
  obtain ⟨c', registered, -, updated⟩ := deletion_mark_lasts (c := .start caret 1)
    (by decide +kernel) (by decide +kernel) runs
    (Document.addressable_of_length (by decide +kernel))
  have deleted : c' = ⟨caret, 2, .deleted⟩ := by
    refine Option.some.inj (registered.symm.trans ?_)
    decide +kernel
  have marked := updated.mpr changed
  rw [deleted] at marked
  cases marked

/-- A replacement of the element behind the deleted one takes the mark of the deletion away. -/
theorem deletion_mark_replaced :
    let caret : CursorId := ⟨"caret", 0⟩
    let copy : LocalCopy Char := .withCaret ['a', 'b'] (.start caret 0)
    let deletion : Operation Char := ⟨.delete 0, none⟩
    let replacement : Operation Char := ⟨.replace 0 'x', none⟩
    deletion.edit.deletesAt (Cursor.start caret 0).position ∧
    (∃ copy', copy.Runs caret [deletion] copy' ∧
      copy'.cursors.find? caret = some ⟨caret, 0, .deleted⟩) ∧
    ∃ copy', copy.Runs caret [deletion, replacement] copy' ∧
      copy'.cursors.find? caret = some ⟨caret, 0, .updated⟩ := by
  intro caret copy deletion replacement
  refine ⟨by decide, ⟨_, .apply rfl (.stop _), ?_⟩, ⟨_, .apply rfl (.apply rfl (.stop _)), ?_⟩⟩
  all_goals decide +kernel

end CoEdit
