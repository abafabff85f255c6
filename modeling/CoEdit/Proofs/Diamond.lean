import CoEdit.Proofs.Effect
import CoEdit.Transform

/-!
# The diamond of two operations

Two operations made from one document are rewritten so that both orders end in the same elements
(`transform_diamond`). A rewriting always exists, keeps the stamps and looks at nothing but the
edits; and the two roles are mirror images of each other, so that the copies of an operation that
are rewritten at the two ends of a link stay alike.
-/

namespace CoEdit

variable {α : Type}

namespace Edit

theorem of_shape_insert {e : Edit α} {p : Nat} (h : e.shape = .insert p) :
    ∃ v, e = .insert p v := by
  cases e <;> simp_all [shape]

theorem of_shape_delete {e : Edit α} {p : Nat} (h : e.shape = .delete p) : e = .delete p := by
  cases e <;> simp_all [shape]

theorem of_shape_update {e : Edit α} {p : Nat} (h : e.shape = .update p) :
    (∃ v, e = .replace p v) ∨ ∃ tag delta, e = .update p tag delta := by
  cases e <;> simp_all [shape]

theorem of_shape_noop {e : Edit α} (h : e.shape = .noop) : e = .noop := by
  cases e <;> simp_all [shape]

end Edit

/-- The role at the other end of a link. -/
def Role.other : Role → Role
  | .client => .server
  | .server => .client

@[simp] theorem Role.other_other (role : Role) : role.other.other = role := by cases role <;> rfl

namespace Operation

/-- The same edit under another stamp. -/
def restamp (op : Operation α) (stamp : Option Stamp) : Operation α := { op with stamp }

@[simp] theorem edit_restamp (op : Operation α) (stamp : Option Stamp) :
    (op.restamp stamp).edit = op.edit := rfl

theorem restamp_of_edit_eq {op op' : Operation α} (h : op.edit = op'.edit) :
    op.restamp op'.stamp = op' := by
  cases op; cases op'; cases h; rfl

variable {op : Operation α} {p : Nat}

theorem edit_moveTo_insert {v : α} (h : op.edit = .insert p v) (q : Nat) :
    (op.moveTo q).edit = .insert q v := by
  simp [moveTo, Edit.moveTo, h]

theorem edit_moveTo_delete (h : op.edit = .delete p) (q : Nat) :
    (op.moveTo q).edit = .delete q := by
  simp [moveTo, Edit.moveTo, h]

theorem shape_moveTo_update (h : op.edit.shape = .update p) (q : Nat) :
    (op.moveTo q).edit.shape = .update q := by
  rcases Edit.of_shape_update h with ⟨w, edit⟩ | ⟨tag, delta, edit⟩ <;>
    simp [moveTo, Edit.moveTo, edit, Edit.shape]

theorem without_restamp (op : Operation α) (stamp : Option Stamp) (taken : Fields) :
    (op.restamp stamp).without taken = (op.without taken).restamp stamp := by
  unfold without
  rw [edit_restamp]
  split
  · dsimp only
    split <;> rfl
  · rfl

end Operation

namespace Policy

theorem resolve_restamp (policy : Policy) (role : Role) (r l : Operation α) (s t : Option Stamp) :
    policy.resolve role (r.restamp s) (l.restamp t) =
      (policy.resolve role r l).map fun pair => (pair.1.restamp s, pair.2.restamp t) := by
  simp only [resolve]
  rw [Operation.edit_restamp, Operation.edit_restamp]
  split
  · split <;> rfl
  · split <;> simp only [Operation.without_restamp] <;> rfl
  all_goals rfl

/-- Every pair of updates is settled. -/
theorem resolve_total (policy : Policy) (role : Role) {r l : Operation α} {p q : Nat}
    (hr : r.edit.shape = .update p) (hl : l.edit.shape = .update q) :
    ∃ r' l', policy.resolve role r l = .ok (r', l') := by
  simp only [resolve]
  rcases Edit.of_shape_update hr with ⟨_, er⟩ | ⟨_, _, er⟩ <;>
    rcases Edit.of_shape_update hl with ⟨_, el⟩ | ⟨_, _, el⟩ <;>
    rw [er, el] <;> exact ⟨_, _, rfl⟩

theorem prefersRemote_other (policy : Policy) (role : Role) :
    policy.prefersRemote role.other = !policy.prefersRemote role := by
  cases policy <;> cases role <;> rfl

/-- The two ends of a link settle a pair alike. -/
theorem resolve_swap (policy : Policy) (role : Role) {r l r' l' : Operation α}
    (h : policy.resolve role r l = .ok (r', l')) :
    policy.resolve role.other l r = .ok (l', r') := by
  simp only [resolve] at h ⊢
  split at h <;> simp_all [prefersRemote_other]
  all_goals split at h <;> simp_all

end Policy

/-- Stamps are carried along, and nothing depends on them. -/
theorem transform_restamp (policy : Policy) (role : Role) (r l : Operation α)
    (s t : Option Stamp) :
    transform policy role (r.restamp s) (l.restamp t) =
      (transform policy role r l).map fun pair => (pair.1.restamp s, pair.2.restamp t) := by
  simp only [transform, transformBy]
  rw [Operation.edit_restamp, Operation.edit_restamp]
  split
  all_goals repeat' split
  all_goals first | rfl | exact policy.resolve_restamp role r l s t

/-- A rewriting always exists: whatever meets at one element is a pair of updates. -/
theorem transform_total (policy : Policy) (role : Role) (r l : Operation α) :
    ∃ r' l', transform policy role r l = .ok (r', l') := by
  simp only [transform, transformBy]
  split
  all_goals repeat' split
  all_goals first | exact ⟨_, _, rfl⟩ | exact policy.resolve_total role ‹_› ‹_›

/-- The two ends of a link rewrite a pair alike. -/
theorem transform_swap (policy : Policy) (role : Role) {r l r' l' : Operation α}
    (h : transform policy role r l = .ok (r', l')) :
    transform policy role.other l r = .ok (l', r') := by
  simp only [transform, transformBy] at h ⊢
  cases hr : r.edit.shape <;> cases hl : l.edit.shape <;> simp only [hr, hl] at h ⊢
  case insert.insert p q =>
    cases role <;> simp only [Role.other, reduceCtorEq, and_true, and_false, or_false] at h ⊢ <;>
      split at h <;> cases h <;> grind
  case update.update p q =>
    split at h
    · rw [if_pos (Eq.symm ‹_›)]
      exact policy.resolve_swap role h
    · cases h
      rw [if_neg (Ne.symm ‹_›)]
  all_goals repeat' split at h
  all_goals cases h
  all_goals grind

namespace Operation

variable [Element α] {op : Operation α} {p : Nat} {v : α} {xs ys : List α}

theorem effect?_collapsed (op : Operation α) (xs : List α) :
    op.collapsed.effect? xs = some xs := rfl

theorem effect?_insert (h : op.edit = .insert p v) :
    op.effect? xs = some ys ↔ p ≤ xs.length ∧ ys = xs.insertIdx p v := by
  simp [effect?, h, eq_comm]

theorem effect?_delete (h : op.edit = .delete p) :
    op.effect? xs = some ys ↔ p < xs.length ∧ ys = xs.eraseIdx p := by
  simp [effect?, h, eq_comm]

theorem effect?_update (h : op.edit.shape = .update p) :
    op.effect? xs = some ys ↔
      ∃ e e', xs[p]? = some e ∧ op.revise? e = some e' ∧ ys = xs.set p e' := by
  have eq : op.effect? xs = (xs[p]?.bind op.revise?).map (xs.set p) := by
    simp only [effect?]
    rcases Edit.of_shape_update h with ⟨w, edit⟩ | ⟨tag, delta, edit⟩ <;> rw [edit]
  rw [eq, Option.map_eq_some_iff]
  simp only [Option.bind_eq_some_iff]
  constructor
  · rintro ⟨e', ⟨e, he, he'⟩, rfl⟩
    exact ⟨e, e', he, he', rfl⟩
  · rintro ⟨e, e', he, he', rfl⟩
    exact ⟨e', ⟨e, he, he'⟩, rfl⟩

theorem revise?_update {tag : String} {delta : Fields} {e e' : α}
    (h : op.edit = .update p tag delta) :
    op.revise? e = some e' ↔
      op.stamp.isSome ∧ Element.Accepts e tag delta ∧ e' = Element.setFields e delta := by
  simp only [revise?, h, Option.ite_none_right_eq_some, Option.some.injEq, and_assoc,
    @eq_comm _ e']

/-- What is left of an entity update writes the fields that are not taken. -/
theorem effect?_without {tag : String} {delta taken : Fields} {e : α}
    (h : op.edit = .update p tag delta) (stamped : op.stamp.isSome)
    (at_p : xs[p]? = some e) (accepts : Element.Accepts e tag delta) :
    (op.without taken).effect? xs = some (xs.set p (Element.setEntries e
      (delta.entries.filter fun entry => entry.1 ∉ taken.keys))) := by
  let rest := delta.filterKeys fun f => !taken.contains f
  have entries : rest.entries = delta.entries.filter fun entry => entry.1 ∉ taken.keys := by
    refine List.filter_congr fun entry _ => ?_
    simp [← SortedMap.contains_eq_true_iff]
  have eq : op.without taken =
      if rest.isEmpty then op.collapsed else { op with edit := .update p tag rest } := by
    simp only [without, h, rest]
  rw [eq, ← entries]
  split
  · rename_i none_left
    obtain ⟨inside, rfl⟩ := List.getElem?_eq_some_iff.mp at_p
    rw [List.isEmpty_iff.mp none_left, effect?_collapsed]
    exact congrArg some (List.set_getElem_self inside).symm
  · rw [effect?_update rfl]
    refine ⟨e, _, at_p, (revise?_update rfl).mpr ⟨stamped, ⟨accepts.1, ?_⟩, rfl⟩, rfl⟩
    intro f known
    obtain ⟨entry, kept, rfl⟩ := List.mem_map.mp known
    exact accepts.2 _ (List.mem_map_of_mem (List.mem_filter.mp kept).1)

theorem effect?_noop (h : op.edit = .noop) : op.effect? xs = some xs := by
  simp [effect?, h]

theorem revise?_moveTo (op : Operation α) (q : Nat) : (op.moveTo q).revise? = op.revise? := by
  funext e
  simp only [revise?, moveTo]
  cases op.edit <;> rfl

end Operation

section Lists

variable {xs : List α} {p q : Nat}

theorem set_insertIdx_of_le (h : p ≤ q) (a b : α) :
    (xs.insertIdx p a).set (q + 1) b = (xs.set q b).insertIdx p a := by
  apply List.ext_getElem?
  intro i
  grind

theorem set_insertIdx_of_lt (h : q < p) (a b : α) :
    (xs.insertIdx p a).set q b = (xs.set q b).insertIdx p a := by
  apply List.ext_getElem?
  intro i
  grind

theorem eraseIdx_eraseIdx_of_lt (h : p < q) :
    (xs.eraseIdx p).eraseIdx (q - 1) = (xs.eraseIdx q).eraseIdx p := by
  apply List.ext_getElem?
  intro i
  grind

end Lists

/-- Rewritten for each other, two operations lead to the same elements in both orders, wherever
each of them has an effect. -/
def Diamond [Element α] (r l r' l' : Operation α) : Prop :=
  ∀ xs ys zs, r.effect? xs = some ys → l.effect? xs = some zs →
    ∃ ws, r'.effect? zs = some ws ∧ l'.effect? ys = some ws

namespace Diamond

open Operation

variable [Element α] {r l r' l' : Operation α} {p q : Nat} {a b : α}

theorem swap (h : Diamond r l r' l') : Diamond l r l' r' := by
  intro xs ys zs hl hr
  obtain ⟨ws, left, right⟩ := h xs zs ys hr hl
  exact ⟨ws, right, left⟩

/-- The insertion further left stays, and pushes the other one on. -/
theorem insert_insert (hr : r.edit = .insert p a) (hl : l.edit = .insert q b) (h : p ≤ q) :
    Diamond r l r (l.moveTo (q + 1)) := by
  intro xs ys zs applyR applyL
  obtain ⟨inR, rfl⟩ := (effect?_insert hr).mp applyR
  obtain ⟨inL, rfl⟩ := (effect?_insert hl).mp applyL
  refine ⟨(xs.insertIdx q b).insertIdx p a, ?_, ?_⟩
  · rw [effect?_insert hr]
    exact ⟨Nat.le_trans inR List.length_le_length_insertIdx, rfl⟩
  · rw [effect?_insert (edit_moveTo_insert hl _), List.length_insertIdx_of_le_length inR]
    exact ⟨Nat.succ_le_succ inL, (List.insertIdx_comm a b h inL).symm⟩

theorem insert_update_behind (hr : r.edit = .insert p a) (hl : l.edit.shape = .update q)
    (h : p ≤ q) : Diamond r l r (l.moveTo (q + 1)) := by
  intro xs ys zs applyR applyL
  obtain ⟨inR, rfl⟩ := (effect?_insert hr).mp applyR
  obtain ⟨e, e', at_q, revised, rfl⟩ := (effect?_update hl).mp applyL
  refine ⟨(xs.set q e').insertIdx p a, ?_, ?_⟩
  · rw [effect?_insert hr, List.length_set]
    exact ⟨inR, rfl⟩
  · rw [effect?_update (shape_moveTo_update hl _), revise?_moveTo]
    refine ⟨e, e', ?_, revised, (set_insertIdx_of_le h a e').symm⟩
    rw [List.getElem?_insertIdx_of_gt (by omega)]
    exact at_q

theorem insert_update_before (hr : r.edit = .insert p a) (hl : l.edit.shape = .update q)
    (h : q < p) : Diamond r l r l := by
  intro xs ys zs applyR applyL
  obtain ⟨inR, rfl⟩ := (effect?_insert hr).mp applyR
  obtain ⟨e, e', at_q, revised, rfl⟩ := (effect?_update hl).mp applyL
  refine ⟨(xs.set q e').insertIdx p a, ?_, ?_⟩
  · rw [effect?_insert hr, List.length_set]
    exact ⟨inR, rfl⟩
  · rw [effect?_update hl]
    refine ⟨e, e', ?_, revised, (set_insertIdx_of_lt h a e').symm⟩
    rw [List.getElem?_insertIdx_of_lt h]
    exact at_q

theorem insert_delete_behind (hr : r.edit = .insert p a) (hl : l.edit = .delete q)
    (h : p ≤ q) : Diamond r l r (l.moveTo (q + 1)) := by
  intro xs ys zs applyR applyL
  obtain ⟨inR, rfl⟩ := (effect?_insert hr).mp applyR
  obtain ⟨inL, rfl⟩ := (effect?_delete hl).mp applyL
  refine ⟨(xs.eraseIdx q).insertIdx p a, ?_, ?_⟩
  · rw [effect?_insert hr, List.length_eraseIdx_of_lt inL]
    exact ⟨by omega, rfl⟩
  · rw [effect?_delete (edit_moveTo_delete hl _), List.length_insertIdx_of_le_length inR]
    exact ⟨Nat.succ_lt_succ inL, List.insertIdx_eraseIdx_of_le inL h⟩

theorem insert_delete_before (hr : r.edit = .insert p a) (hl : l.edit = .delete q)
    (h : q < p) : Diamond r l (r.moveTo (p - 1)) l := by
  intro xs ys zs applyR applyL
  obtain ⟨inR, rfl⟩ := (effect?_insert hr).mp applyR
  obtain ⟨inL, rfl⟩ := (effect?_delete hl).mp applyL
  refine ⟨(xs.eraseIdx q).insertIdx (p - 1) a, ?_, ?_⟩
  · rw [effect?_insert (edit_moveTo_insert hr _), List.length_eraseIdx_of_lt inL]
    exact ⟨by omega, rfl⟩
  · rw [effect?_delete hl, List.length_insertIdx_of_le_length inR]
    refine ⟨Nat.lt_succ_of_lt inL, ?_⟩
    rw [List.insertIdx_eraseIdx_of_ge inL (by omega), Nat.sub_add_cancel (by omega)]

theorem update_update (hr : r.edit.shape = .update p) (hl : l.edit.shape = .update q)
    (h : p ≠ q) : Diamond r l r l := by
  intro xs ys zs applyR applyL
  obtain ⟨d, d', at_p, revisedR, rfl⟩ := (effect?_update hr).mp applyR
  obtain ⟨e, e', at_q, revisedL, rfl⟩ := (effect?_update hl).mp applyL
  refine ⟨(xs.set q e').set p d', ?_, ?_⟩
  · rw [effect?_update hr]
    exact ⟨d, d', by rw [List.getElem?_set_ne (Ne.symm h), at_p], revisedR, rfl⟩
  · rw [effect?_update hl]
    exact ⟨e, e', by rw [List.getElem?_set_ne h, at_q], revisedL, List.set_comm _ _ (Ne.symm h)⟩

theorem update_delete_behind (hr : r.edit.shape = .update p) (hl : l.edit = .delete q)
    (h : p < q) : Diamond r l r l := by
  intro xs ys zs applyR applyL
  obtain ⟨e, e', at_p, revised, rfl⟩ := (effect?_update hr).mp applyR
  obtain ⟨inL, rfl⟩ := (effect?_delete hl).mp applyL
  refine ⟨(xs.eraseIdx q).set p e', ?_, ?_⟩
  · rw [effect?_update hr]
    exact ⟨e, e', by rw [List.getElem?_eraseIdx_of_lt h, at_p], revised, rfl⟩
  · rw [effect?_delete hl, List.length_set]
    exact ⟨inL, (List.eraseIdx_set_gt h).symm⟩

theorem update_delete_before (hr : r.edit.shape = .update p) (hl : l.edit = .delete q)
    (h : q < p) : Diamond r l (r.moveTo (p - 1)) l := by
  intro xs ys zs applyR applyL
  obtain ⟨e, e', at_p, revised, rfl⟩ := (effect?_update hr).mp applyR
  obtain ⟨inL, rfl⟩ := (effect?_delete hl).mp applyL
  refine ⟨(xs.eraseIdx q).set (p - 1) e', ?_, ?_⟩
  · rw [effect?_update (shape_moveTo_update hr _), revise?_moveTo]
    refine ⟨e, e', ?_, revised, rfl⟩
    rw [List.getElem?_eraseIdx_of_ge (by omega), Nat.sub_add_cancel (by omega)]
    exact at_p
  · rw [effect?_delete hl, List.length_set]
    exact ⟨inL, (List.eraseIdx_set_lt h).symm⟩

/-- What was deleted cannot be updated any more. -/
theorem update_delete_same (hr : r.edit.shape = .update p) (hl : l.edit = .delete p) :
    Diamond r l r.collapsed l := by
  intro xs ys zs applyR applyL
  obtain ⟨e, e', at_p, revised, rfl⟩ := (effect?_update hr).mp applyR
  obtain ⟨inL, rfl⟩ := (effect?_delete hl).mp applyL
  refine ⟨xs.eraseIdx p, effect?_collapsed r _, ?_⟩
  rw [effect?_delete hl, List.length_set]
  exact ⟨inL, List.eraseIdx_set_eq.symm⟩

theorem delete_delete (hr : r.edit = .delete p) (hl : l.edit = .delete q) (h : p < q) :
    Diamond r l r (l.moveTo (q - 1)) := by
  intro xs ys zs applyR applyL
  obtain ⟨inR, rfl⟩ := (effect?_delete hr).mp applyR
  obtain ⟨inL, rfl⟩ := (effect?_delete hl).mp applyL
  refine ⟨(xs.eraseIdx q).eraseIdx p, ?_, ?_⟩
  · rw [effect?_delete hr, List.length_eraseIdx_of_lt inL]
    exact ⟨by omega, rfl⟩
  · rw [effect?_delete (edit_moveTo_delete hl _), List.length_eraseIdx_of_lt inR]
    exact ⟨by omega, (eraseIdx_eraseIdx_of_lt h).symm⟩

/-- What was deleted cannot be deleted again. -/
theorem delete_delete_same (hr : r.edit = .delete p) (hl : l.edit = .delete p) :
    Diamond r l r.collapsed l.collapsed := by
  intro xs ys zs applyR applyL
  obtain ⟨inR, rfl⟩ := (effect?_delete hr).mp applyR
  obtain ⟨inL, rfl⟩ := (effect?_delete hl).mp applyL
  exact ⟨xs.eraseIdx p, effect?_collapsed r _, effect?_collapsed l _⟩

theorem noop_left (hr : r.edit = .noop) : Diamond r l r l := by
  intro xs ys zs applyR applyL
  rw [effect?_noop hr] at applyR
  cases applyR
  exact ⟨zs, effect?_noop hr, applyL⟩

/-- An update that leaves nothing of what was there before makes the other one void. -/
theorem overwrite (hr : r.edit = .replace p a) (hl : l.edit.shape = .update p) :
    Diamond r l r l.collapsed := by
  intro xs ys zs applyR applyL
  have hr' : r.edit.shape = .update p := by rw [hr]; rfl
  have replaced : ∀ e, r.revise? e = some a := fun e => by simp [revise?, hr]
  obtain ⟨d, d', at_p, revisedR, rfl⟩ := (effect?_update hr').mp applyR
  obtain ⟨e, e', _, _, rfl⟩ := (effect?_update hl).mp applyL
  rw [replaced] at revisedR
  cases revisedR
  refine ⟨xs.set p a, ?_, effect?_collapsed l _⟩
  rw [effect?_update hr']
  refine ⟨e', a, ?_, replaced e', (List.set_set e').symm⟩
  rw [List.getElem?_set_self (List.getElem?_eq_some_iff.mp at_p).1]

/-- Of two entity updates one keeps all its fields and the other one those that are left. -/
theorem merge {tag tag' : String} {theirs ours : Fields} (hr : r.edit = .update p tag theirs)
    (hl : l.edit = .update p tag' ours) : Diamond r l r (l.without theirs) := by
  intro xs ys zs applyR applyL
  obtain ⟨e, er, at_p, revisedR, rfl⟩ := (effect?_update (by rw [hr]; rfl)).mp applyR
  obtain ⟨e', el, at_p', revisedL, rfl⟩ := (effect?_update (by rw [hl]; rfl)).mp applyL
  obtain rfl : e = e' := Option.some.inj (at_p.symm.trans at_p')
  obtain ⟨stampR, acceptsR, rfl⟩ := (revise?_update hr).mp revisedR
  obtain ⟨stampL, acceptsL, rfl⟩ := (revise?_update hl).mp revisedL
  have inside := (List.getElem?_eq_some_iff.mp at_p).1
  refine ⟨xs.set p (Element.setFields (Element.setFields e ours) theirs), ?_, ?_⟩
  · rw [effect?_update (by rw [hr]; rfl)]
    refine ⟨_, _, List.getElem?_set_self inside, ?_, (List.set_set _).symm⟩
    rw [revise?_update hr]
    exact ⟨stampR, acceptsR.setFields ours, rfl⟩
  · rw [effect?_without hl stampL (List.getElem?_set_self inside) (acceptsL.setFields theirs),
      List.set_set]
    have merged := Element.setEntries_setEntries ours.entries theirs.entries
      (Element.nodup_keys ours) e
    exact congrArg (some ∘ xs.set p) merged

end Diamond

section Convergence

variable [Element α] {policy : Policy} {role : Role} {r l r' l' : Operation α} {p : Nat}

theorem resolve_diamond (hr : r.edit.shape = .update p) (hl : l.edit.shape = .update p)
    (h : policy.resolve role r l = .ok (r', l')) : Diamond r l r' l' := by
  simp only [Policy.resolve] at h
  rcases Edit.of_shape_update hr with ⟨v, er⟩ | ⟨tag, theirs, er⟩ <;>
    rcases Edit.of_shape_update hl with ⟨w, el⟩ | ⟨tag', ours, el⟩ <;>
    simp only [er, el, Except.ok.injEq] at h
  · split at h <;> cases h
    · exact .overwrite er hl
    · exact (Diamond.overwrite el hr).swap
  · cases h
    exact .overwrite er hl
  · cases h
    exact (Diamond.overwrite el hr).swap
  · split at h <;> cases h
    · exact .merge er el
    · exact (Diamond.merge el er).swap

/-- Operations that were rewritten for each other make a diamond. -/
theorem transform_diamond (h : transform policy role r l = .ok (r', l')) :
    Diamond r l r' l' := by
  simp only [transform, transformBy] at h
  cases hr : r.edit.shape <;> cases hl : l.edit.shape <;> simp only [hr, hl] at h
  case insert.insert p q =>
    obtain ⟨a, er⟩ := Edit.of_shape_insert hr
    obtain ⟨b, el⟩ := Edit.of_shape_insert hl
    split at h <;> cases h
    · exact .insert_insert er el (by omega)
    · exact (Diamond.insert_insert el er (by omega)).swap
  case insert.update p q =>
    obtain ⟨a, er⟩ := Edit.of_shape_insert hr
    split at h <;> cases h
    · exact .insert_update_behind er hl ‹_›
    · exact .insert_update_before er hl (by omega)
  case insert.delete p q =>
    obtain ⟨a, er⟩ := Edit.of_shape_insert hr
    have el := Edit.of_shape_delete hl
    split at h <;> cases h
    · exact .insert_delete_behind er el ‹_›
    · exact .insert_delete_before er el (by omega)
  case update.insert p q =>
    obtain ⟨b, el⟩ := Edit.of_shape_insert hl
    split at h <;> cases h
    · exact (Diamond.insert_update_before el hr ‹_›).swap
    · exact (Diamond.insert_update_behind el hr (by omega)).swap
  case update.update p q =>
    split at h
    · subst q
      exact resolve_diamond hr hl h
    · cases h
      exact .update_update hr hl ‹_›
  case update.delete p q =>
    have el := Edit.of_shape_delete hl
    split at h
    · cases h
      exact .update_delete_behind hr el ‹_›
    · split at h <;> cases h
      · subst q
        exact .update_delete_same hr el
      · exact .update_delete_before hr el (by omega)
  case delete.insert p q =>
    have er := Edit.of_shape_delete hr
    obtain ⟨b, el⟩ := Edit.of_shape_insert hl
    split at h <;> cases h
    · exact (Diamond.insert_delete_before el er ‹_›).swap
    · exact (Diamond.insert_delete_behind el er (by omega)).swap
  case delete.update p q =>
    have er := Edit.of_shape_delete hr
    split at h
    · cases h
      exact (Diamond.update_delete_before hl er ‹_›).swap
    · split at h <;> cases h
      · subst q
        exact (Diamond.update_delete_same hl er).swap
      · exact (Diamond.update_delete_behind hl er (by omega)).swap
  case delete.delete p q =>
    have er := Edit.of_shape_delete hr
    have el := Edit.of_shape_delete hl
    split at h
    · cases h
      exact .delete_delete er el ‹_›
    · split at h <;> cases h
      · subst q
        exact .delete_delete_same er el
      · exact (Diamond.delete_delete el er (by omega)).swap
  all_goals cases h
  all_goals first
    | exact .noop_left (Edit.of_shape_noop hr)
    | exact (Diamond.noop_left (Edit.of_shape_noop hl)).swap

/-- Both orders of two operations that a document accepts are accepted, and leave the same
elements. -/
theorem transform_converges (policy : Policy) (role : Role) {d dr dl : Document α}
    {r l : Operation α} (hr : d.apply r = .ok dr) (hl : d.apply l = .ok dl) :
    ∃ r' l' drl dlr, transform policy role r l = .ok (r', l') ∧
      dr.apply l' = .ok drl ∧ dl.apply r' = .ok dlr ∧ drl.values = dlr.values := by
  obtain ⟨r', l', rewritten⟩ := transform_total policy role r l
  obtain ⟨xs, effectR, effectL⟩ := transform_diamond rewritten _ _ _
    (Document.effect?_of_apply hr) (Document.effect?_of_apply hl)
  obtain ⟨drl, appliedL, rfl⟩ := Document.apply_of_effect? effectL
  obtain ⟨dlr, appliedR, same⟩ := Document.apply_of_effect? effectR
  exact ⟨r', l', drl, dlr, rewritten, appliedL, appliedR, same.symm⟩

end Convergence

theorem transform_converges_updates :
    let note : Document Record :=
      Document.empty.fill [⟨"note", .ofList [("author", .null), ("title", .null)]⟩]
    let stamp : Option Stamp := some ⟨.ofNat 1, .zeroed 1⟩
    let r : Operation Record := ⟨.update 0 "note" (.ofList [("title", .bool true)]), stamp⟩
    let l : Operation Record :=
      ⟨.update 0 "note" (.ofList [("author", .bool true), ("title", .bool false)]), stamp⟩
    ∃ dr dl, note.apply r = .ok dr ∧ note.apply l = .ok dl ∧
      ∃ r' l' drl dlr, transform .firstWriterWins .server r l = .ok (r', l') ∧
        dr.apply l' = .ok drl ∧ dl.apply r' = .ok dlr ∧ drl.values = dlr.values := by
  intro note stamp r l
  obtain ⟨dr, hr⟩ : ∃ dr, note.apply r = .ok dr := ⟨_, rfl⟩
  obtain ⟨dl, hl⟩ : ∃ dl, note.apply l = .ok dl := ⟨_, rfl⟩
  exact ⟨dr, dl, hr, hl, transform_converges _ _ hr hl⟩

end CoEdit
