import CoEdit.Proofs.Passage
import CoEdit.Word

/-!
# What a rewriting changes

Rewritten for another one, an operation changes little, and only for a cause in the other one: an
insertion in front of it pushes it one place up, a deletion in front of it pulls it one place down,
the deletion of its element cancels it, and another update of its element cancels it or takes some
of its fields (`transform_reshaped`). What becomes of the local operation need not be studied apart,
since it is the remote one at the other end of the link (`transform_swap`).

Positions are words. Steps down are taken only from positions that are not the first, and steps up
stay inside the words as long as no position is the last word (`transformBy_eq`).
-/

namespace CoEdit

variable {α : Type} {policy : Policy} {role : Role} {r l r' l' : Operation α}

def Shape.position? : Shape → Option Nat
  | noop => none
  | insert p | update p | delete p => some p

namespace Edit

theorem position?_of_shape {e : Edit α} {s : Shape} (h : e.shape = s) :
    e.position? = s.position? := by
  subst h
  cases e <;> rfl

theorem position?_moveTo {e : Edit α} {p : Nat} (at_p : e.position? = some p) (q : Nat) :
    (e.moveTo q).position? = some q := by
  cases e with
  | noop => cases at_p
  | _ => rfl

/-- Whether an update stands against another one of its element. A replacement stands against an
entity update, and the policy decides between two of a kind. -/
def stands (policy : Policy) (role : Role) : Edit α → Edit α → Bool
  | replace .., update .. => true
  | update .., replace .. => false
  | _, _ => policy.prefersRemote role

/-- What an edit becomes when another one comes before it. `role` is the role of the side that
holds the other one: of two insertions at one position the server's keeps it. -/
inductive Reshaped (policy : Policy) (role : Role) (e other : Edit α) : Edit α → Prop where
  /-- It stays as it is where nothing is inserted or deleted in front of it, and no update of its
  element prevails over it. -/
  | kept
      (unpushed : ∀ p q, e.position? = some p → other.shape = .insert q →
        p < q ∨ p = q ∧ e.shape = .insert p ∧ role = .client)
      (unpulled : ∀ p q, e.position? = some p → other.shape = .delete q →
        p < q ∨ p = q ∧ e.shape = .insert p)
      (unbeaten : ∀ p, e.shape = .update p → other.shape = .update p → e.stands policy role other) :
      Reshaped policy role e other e
  /-- An insertion in front of it pushes it one place up. -/
  | raised {p q : Nat} (at_p : e.position? = some p) (inserts : other.shape = .insert q)
      (front : q < p ∨ q = p ∧ (e.shape = .insert p → role = .server)) :
      Reshaped policy role e other (e.moveTo (p + 1))
  /-- A deletion in front of it pulls it one place down, from a position that is not the first. -/
  | lowered {p q : Nat} (at_p : e.position? = some (p + 1)) (deletes : other.shape = .delete q)
      (front : q ≤ p) : Reshaped policy role e other (e.moveTo p)
  /-- What was deleted cannot be deleted or changed any more. -/
  | deleted {p : Nat} (refers : e.shape = .delete p ∨ e.shape = .update p)
      (deletes : other.shape = .delete p) : Reshaped policy role e other .noop
  /-- A replacement that prevails leaves nothing of another update. -/
  | replaced {p : Nat} {v : α} (updates : e.shape = .update p) (replaces : other = .replace p v)
      (beaten : e.stands policy role other = false) : Reshaped policy role e other .noop
  /-- Nothing is left of an entity update where another one that prevails writes all its fields. -/
  | emptied {p : Nat} {tag tag' : String} {delta taken : Fields}
      (updates : e = .update p tag delta) (prevails : other = .update p tag' taken)
      (beaten : e.stands policy role other = false)
      (none_left : (delta.filterKeys fun f => !taken.contains f).isEmpty) :
      Reshaped policy role e other .noop
  /-- Where some of its fields are left, it goes on writing these. -/
  | narrowed {p : Nat} {tag tag' : String} {delta taken rest : Fields}
      (updates : e = .update p tag delta) (prevails : other = .update p tag' taken)
      (beaten : e.stands policy role other = false)
      (left : rest = delta.filterKeys fun f => !taken.contains f)
      (some_left : rest.isEmpty = false) : Reshaped policy role e other (.update p tag rest)

namespace Reshaped

variable {e other e' : Edit α} {p q : Nat}

theorem of_noop (nothing : e.shape = .noop) : e.Reshaped policy role other e := by
  have nowhere (p : Nat) : e.position? ≠ some p := by
    rw [position?_of_shape nothing]
    nofun
  refine .kept ?_ ?_ ?_
  · intro p q at_p
    exact absurd at_p (nowhere p)
  · intro p q at_p
    exact absurd at_p (nowhere p)
  · intro p updates
    rw [nothing] at updates
    cases updates

/-- Edits that move nothing leave the others where they are. -/
theorem of_still (still : ∀ q, other.shape ≠ .insert q ∧ other.shape ≠ .delete q)
    (unbeaten : ∀ p, e.shape = .update p → other.shape = .update p → e.stands policy role other) :
    e.Reshaped policy role other e := by
  refine .kept ?_ ?_ unbeaten
  · intro p q _ inserts
    exact absurd inserts (still q).1
  · intro p q _ deletes
    exact absurd deletes (still q).2

/-- What happens behind an edit leaves it as it is. -/
theorem of_behind (at_p : e.position? = some p) (at_q : other.position? = some q)
    (behind : p < q ∨ p = q ∧ e.shape = .insert p ∧ (other.shape = .insert q → role = .client)) :
    e.Reshaped policy role other e := by
  refine .kept ?_ ?_ ?_
  · intro p' q' at_p' inserts
    rw [at_p] at at_p'
    rw [position?_of_shape inserts] at at_q
    cases at_p'
    cases at_q
    exact behind.imp_right fun ⟨same, enters, first⟩ => ⟨same, enters, first inserts⟩
  · intro p' q' at_p' deletes
    rw [at_p] at at_p'
    rw [position?_of_shape deletes] at at_q
    cases at_p'
    cases at_q
    exact behind.imp_right fun ⟨same, enters, _⟩ => ⟨same, enters⟩
  · intro p' ours theirs
    rw [position?_of_shape ours] at at_p
    rw [position?_of_shape theirs] at at_q
    cases at_p
    cases at_q
    rcases behind with less | ⟨_, enters, _⟩
    · exact absurd less (Nat.lt_irrefl p)
    · rw [ours] at enters
      cases enters

/-- What is deleted in front of an edit pulls it down. -/
theorem of_front (at_p : e.position? = some p) (deletes : other.shape = .delete q)
    (front : q < p) : e.Reshaped policy role other (e.moveTo (p - 1)) := by
  cases p with
  | zero => cases front
  | succ p => exact .lowered at_p deletes (Nat.le_of_lt_succ front)

theorem insert_lasts {v : α} (h : e.Reshaped policy role other e') (inserts : e = .insert p v) :
    ∃ p', e' = .insert p' v := by
  subst inserts
  cases h with
  | kept => exact ⟨p, rfl⟩
  | raised | lowered => exact ⟨_, rfl⟩
  | deleted refers => rcases refers with same | same <;> cases same
  | replaced updates | emptied updates | narrowed updates => cases updates

theorem delete_lost (h : e.Reshaped policy role other e') (deletes : e = .delete p) :
    e' = .noop ↔ other = .delete p := by
  subst deletes
  constructor
  · intro nothing
    cases h with
    | kept | raised | lowered => cases nothing
    | deleted refers deletes =>
      rcases refers with same | same <;> cases same
      exact of_shape_delete deletes
    | replaced updates | emptied updates | narrowed updates => cases updates
  · rintro rfl
    cases h with
    | kept _ unpulled => simpa [shape] using unpulled p p rfl rfl
    | raised _ inserts => cases inserts
    | lowered at_p deletes front =>
      cases at_p
      cases deletes
      exact absurd front (Nat.not_succ_le_self _)
    | deleted | replaced | emptied => rfl
    | narrowed updates => cases updates

theorem lowered_iff (h : e.Reshaped policy role other e') (at_p : e.position? = some p) :
    (∃ p' < p, e'.position? = some p') ↔ ∃ q < p, other = .delete q := by
  constructor
  · rintro ⟨p', lower, at_p'⟩
    cases h with
    | kept =>
      rw [at_p] at at_p'
      cases at_p'
      exact absurd lower (Nat.lt_irrefl p)
    | raised at_q =>
      rw [at_p] at at_q
      rw [position?_moveTo at_p] at at_p'
      cases at_q
      cases at_p'
      omega
    | lowered at_q deletes front =>
      rw [at_p] at at_q
      cases at_q
      exact ⟨_, Nat.lt_succ_of_le front, of_shape_delete deletes⟩
    | deleted | replaced | emptied => cases at_p'
    | narrowed updates =>
      subst updates
      cases at_p
      cases at_p'
      exact absurd lower (Nat.lt_irrefl p)
  · rintro ⟨q, front, rfl⟩
    cases h with
    | kept _ unpulled =>
      have behind := unpulled p q at_p rfl
      omega
    | raised _ inserts => cases inserts
    | lowered at_q =>
      rw [at_p] at at_q
      cases at_q
      exact ⟨_, Nat.lt_succ_self _, position?_moveTo at_p _⟩
    | deleted refers deletes =>
      have same : e.position? = some q := by
        cases deletes
        rcases refers with shape | shape <;> exact position?_of_shape shape
      rw [at_p] at same
      cases same
      exact absurd front (Nat.lt_irrefl p)
    | replaced _ replaces => cases replaces
    | emptied _ prevails | narrowed _ prevails => cases prevails

end Reshaped

/-- How an edit survives another one that comes before it. -/
structure Survives (policy : Policy) (role : Role) (e other e' : Edit α) : Prop where
  /-- The edit is as it was, or one place up or down, or cancelled, or without some fields, each for
  its own cause. -/
  reshaped : e.Reshaped policy role other e'
  /-- An insertion is never cancelled. -/
  insert_lasts : ∀ p v, e = .insert p v → ∃ p', e' = .insert p' v
  /-- A deletion is cancelled just by a deletion at the same position. -/
  delete_lost : ∀ p, e = .delete p → (e' = .noop ↔ other = .delete p)
  /-- An edit moves down just when something is deleted in front of it, so never from 0. -/
  lowered_iff : ∀ p, e.position? = some p →
    ((∃ p' < p, e'.position? = some p') ↔ ∃ q < p, other = .delete q)

theorem Reshaped.survives {e other e' : Edit α} (h : e.Reshaped policy role other e') :
    e.Survives policy role other e' where
  reshaped := h
  insert_lasts _ _ := h.insert_lasts
  delete_lost _ := h.delete_lost
  lowered_iff _ := h.lowered_iff

end Edit

section Table

variable {p : Nat}

/-- What is left of an entity update is the part that the other one does not write. -/
theorem without_reshaped {tag tag' : String} {delta taken : Fields}
    (ours : r.edit = .update p tag delta) (theirs : l.edit = .update p tag' taken)
    (beaten : r.edit.stands policy role l.edit = false) :
    r.edit.Reshaped policy role l.edit (r.without taken).edit := by
  simp only [Operation.without, ours] at beaten ⊢
  split
  · exact .emptied rfl theirs beaten ‹_›
  · exact .narrowed rfl theirs beaten rfl (Bool.eq_false_iff.mpr ‹_›)

theorem resolve_reshaped (hr : r.edit.shape = .update p) (hl : l.edit.shape = .update p)
    (h : policy.resolve role r l = .ok (r', l')) :
    r.edit.Reshaped policy role l.edit r'.edit := by
  have unmoved (stands : r.edit.stands policy role l.edit) :
      r.edit.Reshaped policy role l.edit r.edit :=
    .of_still (by simp [hl]) fun _ _ _ => stands
  simp only [Policy.resolve] at h
  rcases Edit.of_shape_update hr with ⟨v, er⟩ | ⟨tag, delta, er⟩ <;>
    rcases Edit.of_shape_update hl with ⟨w, el⟩ | ⟨tag', taken, el⟩ <;>
    simp only [er, el, Except.ok.injEq] at h
  · have stands : r.edit.stands policy role l.edit = policy.prefersRemote role := by
      rw [er, el]
      rfl
    split at h <;> cases h
    · exact unmoved (stands.trans ‹_›)
    · exact .replaced hr el (stands.trans (Bool.eq_false_iff.mpr ‹_›))
  · cases h
    exact unmoved (by rw [er, el]; rfl)
  · cases h
    exact .replaced hr el (by rw [er, el]; rfl)
  · have stands : r.edit.stands policy role l.edit = policy.prefersRemote role := by
      rw [er, el]
      rfl
    split at h <;> cases h
    · exact unmoved (stands.trans ‹_›)
    · exact without_reshaped er el (stands.trans (Bool.eq_false_iff.mpr ‹_›))

/-- The table of `transform`, read for the remote operation. -/
theorem transform_reshaped (h : transform policy role r l = .ok (r', l')) :
    r.edit.Reshaped policy role l.edit r'.edit := by
  simp only [transform, transformBy] at h
  cases hr : r.edit.shape <;> cases hl : l.edit.shape <;> simp only [hr, hl] at h
  case insert.insert p q =>
    have at_p := Edit.position?_of_shape hr
    split at h <;> cases h
    · rename_i ahead
      refine .of_behind at_p (Edit.position?_of_shape hl) ?_
      rcases ahead with less | ⟨same, first⟩
      · exact .inl less
      · exact .inr ⟨same, hr, fun _ => first⟩
    -- at the same position the remote insertion makes way on the server only
    · rename_i back
      obtain ⟨notAhead, notFirst⟩ := not_or.mp back
      refine .raised at_p hl ?_
      rcases Nat.lt_or_eq_of_le (Nat.le_of_not_lt notAhead) with front | same
      · exact .inl front
      · refine .inr ⟨same, fun _ => ?_⟩
        cases role with
        | client => exact absurd ⟨same.symm, rfl⟩ notFirst
        | server => rfl
  case insert.delete p q =>
    have at_p := Edit.position?_of_shape hr
    split at h <;> cases h
    · rename_i behind
      refine .of_behind at_p (Edit.position?_of_shape hl) ?_
      refine (Nat.lt_or_eq_of_le behind).imp_right fun same => ⟨same, hr, fun inserts => ?_⟩
      rw [hl] at inserts
      cases inserts
    · exact .of_front at_p hl (Nat.lt_of_not_le ‹_›)
  case update.insert p q | delete.insert p q =>
    have at_p := Edit.position?_of_shape hr
    split at h <;> cases h
    · exact .of_behind at_p (Edit.position?_of_shape hl) (.inl ‹_›)
    · refine .raised at_p hl ((Nat.lt_or_eq_of_le (Nat.le_of_not_lt ‹_›)).imp_right fun same => ?_)
      refine ⟨same, fun inserts => ?_⟩
      rw [hr] at inserts
      cases inserts
  case update.delete p q | delete.delete p q =>
    have at_p := Edit.position?_of_shape hr
    split at h
    · cases h
      exact .of_behind at_p (Edit.position?_of_shape hl) (.inl ‹_›)
    · split at h <;> cases h
      · subst q
        exact .deleted (by simp [hr]) hl
      · exact .of_front at_p hl (by omega)
  case update.update p q =>
    split at h
    · subst q
      exact resolve_reshaped hr hl h
    · rename_i apart
      cases h
      refine .of_still (by simp [hl]) fun place ours theirs => ?_
      rw [hr] at ours
      rw [hl] at theirs
      cases ours
      cases theirs
      exact absurd rfl apart
  case insert.update p q | delete.update p q =>
    have unmoved : r.edit.Reshaped policy role l.edit r.edit :=
      .of_still (by simp [hl]) (by simp [hr])
    repeat' split at h
    all_goals
      cases h
      exact unmoved
  -- one of the two does nothing
  all_goals cases h
  all_goals first
    | exact .of_noop hr
    | exact .of_still (by simp [hl]) (by simp [hl])

end Table

/-- Steps that are right where they stay inside the words are right wherever the table takes one. -/
theorem transformBy_eq {up down : Nat → Nat}
    (upward : ∀ p, p + 1 < Word.count → up p = p + 1) (downward : ∀ p, 0 < p → down p = p - 1)
    (policy : Policy) (role : Role) {r l : Operation α}
    (roomR : ∀ p, r.position? = some p → p + 1 < Word.count)
    (roomL : ∀ p, l.position? = some p → p + 1 < Word.count) :
    transformBy up down policy role r l = transform policy role r l := by
  have upR {s : Shape} {p : Nat} (hr : r.edit.shape = s) (at_p : s.position? = some p) :
      up p = p + 1 :=
    upward p (roomR p ((Edit.position?_of_shape hr).trans at_p))
  have upL {s : Shape} {p : Nat} (hl : l.edit.shape = s) (at_p : s.position? = some p) :
      up p = p + 1 :=
    upward p (roomL p ((Edit.position?_of_shape hl).trans at_p))
  -- both sides are the same table, and differ in the steps alone
  simp only [transform, transformBy]
  cases hr : r.edit.shape <;> cases hl : l.edit.shape <;> simp only
  case insert.insert p q => rw [upR hr rfl, upL hl rfl]
  case insert.update p q => rw [upL hl rfl]
  case update.insert p q => rw [upR hr rfl]
  case insert.delete p q =>
    rw [upL hl rfl]
    split
    · rfl
    · rw [downward p (by omega)]
  case delete.insert p q =>
    rw [upR hr rfl]
    split
    · rw [downward q (by omega)]
    · rfl
  case update.delete p q =>
    repeat' split
    · rfl
    · rfl
    · rw [downward p (by omega)]
  case delete.update p q =>
    split
    · rw [downward q (by omega)]
    · rfl
  case delete.delete p q =>
    repeat' split
    · rw [downward q (by omega)]
    · rfl
    · rw [downward p (by omega)]

/-- Any two operations, none of them at the last word, are rewritten for each other without an
error. Each keeps its stamp; its edit stays, moves by one place, is cancelled, or, if it is an
entity update, keeps some of its fields. An insertion is never cancelled, a deletion only by one at
the same position, and whatever moves down was not at 0. The steps never leave the words: the table
gives the same with any steps that are right inside. -/
theorem pair_reshaped (policy : Policy) (role : Role) {r l : Operation α}
    (roomR : ∀ p, r.position? = some p → p + 1 < Word.count)
    (roomL : ∀ p, l.position? = some p → p + 1 < Word.count) :
    ∃ r' l', transform policy role r l = .ok (r', l') ∧
      r'.stamp = r.stamp ∧ l'.stamp = l.stamp ∧
      r.edit.Survives policy role l.edit r'.edit ∧
      l.edit.Survives policy role.other r.edit l'.edit ∧
      ∀ up down : Nat → Nat, (∀ p, p + 1 < Word.count → up p = p + 1) →
        (∀ p, 0 < p → down p = p - 1) → transformBy up down policy role r l = .ok (r', l') := by
  obtain ⟨r', l', rewritten⟩ := transform_total policy role r l
  obtain ⟨stampR, stampL⟩ := transform_stamps rewritten
  have mirrored := transform_swap policy role rewritten
  refine ⟨r', l', rewritten, stampR, stampL, (transform_reshaped rewritten).survives,
    (transform_reshaped mirrored).survives, ?_⟩
  intro up down upward downward
  exact (transformBy_eq upward downward policy role roomR roomL).trans rewritten

/-- From the last position that can be pushed a deletion gets to the last word. -/
theorem pair_reshaped_last_step :
    let r : Operation Char := ⟨.insert (Word.count - 2) 'x', some ⟨.ofNat 1, ⟨[0]⟩⟩⟩
    let l : Operation Char := ⟨.delete (Word.count - 2), some ⟨.ofNat 2, ⟨[0]⟩⟩⟩
    (∀ p, r.position? = some p → p + 1 < Word.count) ∧
    (∀ p, l.position? = some p → p + 1 < Word.count) ∧
    ∃ r' l', transform .firstWriterWins .server r l = .ok (r', l') ∧
      l'.edit = .delete (Word.count - 1) ∧
      r'.stamp = r.stamp ∧ l'.stamp = l.stamp ∧
      r.edit.Survives .firstWriterWins .server l.edit r'.edit ∧
      l.edit.Survives .firstWriterWins .client r.edit l'.edit ∧
      ∀ up down : Nat → Nat, (∀ p, p + 1 < Word.count → up p = p + 1) →
        (∀ p, 0 < p → down p = p - 1) →
        transformBy up down .firstWriterWins .server r l = .ok (r', l') := by
  intro r l
  have roomR : ∀ p, r.position? = some p → p + 1 < Word.count := by
    rintro p ⟨⟩
    decide
  have roomL : ∀ p, l.position? = some p → p + 1 < Word.count := by
    rintro p ⟨⟩
    decide
  obtain ⟨r', l', rewritten, survive⟩ := pair_reshaped .firstWriterWins .server roomR roomL
  have pushed : transform .firstWriterWins .server r l = .ok (r, l.moveTo (Word.count - 1)) := rfl
  obtain ⟨rfl, rfl⟩ := Prod.mk.inj (Except.ok.inj (pushed.symm.trans rewritten))
  exact ⟨roomR, roomL, _, _, rewritten, rfl, survive⟩

end CoEdit
