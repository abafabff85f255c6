import CoEdit.Proofs.Deed
import Mathlib.Data.List.InsertIdx

/-!
# Which element stands before which

Elements have no position of their own, but the documents that are shown decide, pair by pair, which
one stands first. Such decisions are collected in a relation that only grows. Where an operation is
taken past others, each document on the way but the last corner of a diamond has been seen before;
in that corner the only new pair consists of what the two sides insert, and nobody has shown these
two side by side yet (`Along.pass`).
-/

namespace CoEdit

variable {α : Type} {R R' : α → α → Prop} {xs ys zs : List α} {x y : α}

/-- Where nothing is repeated, no two elements stand in either order. -/
theorem not_sublist_swap (nodup : xs.Nodup) (h : [x, y].Sublist xs) : ¬ [y, x].Sublist xs := by
  intro swapped
  induction xs with
  | nil => cases h
  | cons z zs ih =>
    obtain ⟨absent, nodup⟩ := List.nodup_cons.mp nodup
    cases h with
    | cons _ h =>
      cases swapped with
      | cons _ swapped => exact ih nodup h swapped
      | cons_cons _ rest => exact absent (h.subset (by simp))
    | cons_cons _ rest =>
      cases swapped with
      | cons _ swapped => exact absent (swapped.subset (by simp))
      | cons_cons _ _ => exact absent (List.singleton_sublist.mp rest)

/-- Of two elements one stands first. -/
theorem sublist_or_swap (hx : x ∈ xs) (hy : y ∈ xs) (ne : x ≠ y) :
    [x, y].Sublist xs ∨ [y, x].Sublist xs := by
  induction xs with
  | nil => cases hx
  | cons z zs ih =>
    rcases List.mem_cons.mp hx with rfl | hx' <;> rcases List.mem_cons.mp hy with rfl | hy'
    · exact absurd rfl ne
    · exact .inl (.cons_cons _ (List.singleton_sublist.mpr hy'))
    · exact .inr (.cons_cons _ (List.singleton_sublist.mpr hx'))
    · exact (ih hx' hy').imp (.cons _) (.cons _)

/-- Before an element, in a list that repeats nothing, is what lies to its left. -/
theorem mem_of_sublist_cons (nodup : (xs ++ y :: ys).Nodup) (h : [x, y].Sublist (xs ++ y :: ys)) :
    x ∈ xs := by
  rcases List.mem_append.mp (h.subset List.mem_cons_self) with left | right
  · exact left
  · exfalso
    rcases List.mem_cons.mp right with rfl | right
    · exact not_sublist_swap nodup h h
    · have swapped : [y, x].Sublist (xs ++ y :: ys) :=
        ((List.singleton_sublist.mpr right).cons_cons y).trans (List.sublist_append_right ..)
      exact not_sublist_swap nodup h swapped

/-- A list decides on pairs that are still open. -/
theorem exists_order_extending (New : α → α → Prop) (asymm : ∀ x y, R x y → ¬ R y x)
    (nodup : xs.Nodup) (symm : ∀ x y, New x y → New y x) (strange : ∀ x y, New x y → ¬ R x y)
    (sorted : xs.Pairwise fun x y => R x y ∨ New x y) :
    ∃ R' : α → α → Prop, (∀ x y, R' x y → ¬ R' y x) ∧ (∀ x y, R x y → R' x y) ∧
      (∀ x y, R' x y → R x y ∨ New x y) ∧ xs.Pairwise R' := by
  refine ⟨fun x y => R x y ∨ New x y ∧ [x, y].Sublist xs, ?_, fun x y => .inl,
    fun x y => .imp_right And.left, ?_⟩
  · rintro x y (old | ⟨new, first⟩) (old' | ⟨new', second⟩)
    · exact asymm x y old old'
    · exact strange x y (symm y x new') old
    · exact strange y x (symm x y new) old'
    · exact not_sublist_swap nodup first second
  · refine List.pairwise_iff_forall_sublist.mpr fun {x y} here => ?_
    exact (List.pairwise_iff_forall_sublist.mp sorted here).imp_right fun new => ⟨new, here⟩

/-- An insertion leaves the other elements as they stand. -/
theorem pairwise_insertIdx (sorted : xs.Pairwise R) (p : Nat) (z : α) :
    (xs.insertIdx p z).Pairwise fun x y => R x y ∨ z = x ∨ z = y := by
  induction p generalizing xs with
  | zero =>
    rw [List.insertIdx_zero, List.pairwise_cons]
    exact ⟨fun _ _ => .inr (.inl rfl), sorted.imp .inl⟩
  | succ p ih =>
    cases xs with
    | nil => exact .nil
    | cons x xs =>
      obtain ⟨first, rest⟩ := List.pairwise_cons.mp sorted
      rw [List.insertIdx_succ_cons, List.pairwise_cons]
      refine ⟨fun y among => ?_, ih rest⟩
      rcases List.eq_or_mem_of_mem_insertIdx among with rfl | there
      · exact .inr (.inr rfl)
      · exact .inl (first y there)

section Meets

variable {d e : Deed α} {ds : List (Deed α)}

/-- One deed adds one of the two elements, and one of the others adds the other one. -/
def Meets (d : Deed α) (ds : List (Deed α)) (x y : α) : Prop :=
  d = .added x ∧ .added y ∈ ds ∨ d = .added y ∧ .added x ∈ ds

theorem Meets.symm (h : Meets d ds x y) : Meets d ds y x := Or.symm h

theorem Meets.cons (h : Meets d ds x y) (e : Deed α) : Meets d (e :: ds) x y := by
  rcases h with ⟨this, that⟩ | ⟨this, that⟩
  · exact .inl ⟨this, List.mem_cons_of_mem _ that⟩
  · exact .inr ⟨this, List.mem_cons_of_mem _ that⟩

theorem Meets.head (h : Meets d [e] x y) (ds : List (Deed α)) : Meets d (e :: ds) x y := by
  rcases h with ⟨this, that⟩ | ⟨this, that⟩
  · exact .inl ⟨this, List.mem_cons.mpr (.inl (List.mem_singleton.mp that))⟩
  · exact .inr ⟨this, List.mem_cons.mpr (.inl (List.mem_singleton.mp that))⟩

end Meets

section Effect

variable [Element α] {known : Set (Deed α)} {op l r l' r' : Operation α}
  {ops ops' : List (Operation α)} {d e : Deed α} {ds : List (Deed α)} {policy : Policy}
  {role : Role}

/-- All that a deed leaves open is where the element stands that it adds. -/
theorem Does.pairwise (does : Does known xs op.edit d) (effect : op.effect? xs = some ys)
    (sorted : xs.Pairwise R) :
    ys.Pairwise fun x y => R x y ∨ d = .added x ∨ d = .added y := by
  generalize edit : op.edit = form at does
  cases does with
  | nothing | gone =>
    rw [Operation.effect?_noop edit] at effect
    cases effect
    exact sorted.imp .inl
  | @added p z new =>
    obtain ⟨-, rfl⟩ := (Operation.effect?_insert edit).mp effect
    refine (pairwise_insertIdx sorted p z).imp fun {x y} => ?_
    rintro (before | rfl | rfl)
    · exact .inl before
    · exact .inr (.inl rfl)
    · exact .inr (.inr rfl)
  | @removed p z here =>
    obtain ⟨-, rfl⟩ := (Operation.effect?_delete edit).mp effect
    exact (sorted.sublist (List.eraseIdx_sublist xs p)).imp .inl

/-- What is added is there. -/
theorem Does.mem_of_added (does : Does known xs op.edit (.added x))
    (effect : op.effect? xs = some ys) : x ∈ ys := by
  generalize edit : op.edit = form at does
  cases does with
  | added new =>
    obtain ⟨inside, rfl⟩ := (Operation.effect?_insert edit).mp effect
    exact (List.mem_insertIdx inside).mpr (.inl rfl)

/-- What is told to be added was not known before. -/
theorem Tells.added_new (h : Tells known xs ops ds) (among : .added x ∈ ds) :
    .added x ∉ known := by
  induction h with
  | nil => cases among
  | cons does effect rest ih =>
    rcases List.mem_cons.mp among with rfl | later
    · generalize edit : Operation.edit _ = form at does
      cases does with
      | added new => exact new
    · exact fun before => ih later (Set.mem_insert_of_mem _ before)

/-- At the last corner of a diamond everything is decided but how the elements stand that the two
sides add. -/
theorem pairwise_corner (does : Does known xs r.edit d) (meets : Does known xs l.edit e)
    (apart : ∀ x, d = .added x → e ≠ .added x) (effectR : r.effect? xs = some ys)
    (effectL : l.effect? xs = some zs) (h : transform policy role r l = .ok (r', l'))
    (sortedR : ys.Pairwise R) (sortedL : zs.Pairwise R) :
    ∃ ws, r'.effect? zs = some ws ∧ l'.effect? ys = some ws ∧
      ws.Pairwise fun x y => R x y ∨ Meets d [e] x y := by
  obtain ⟨ws, effectR', effectL'⟩ := transform_diamond h _ _ _ effectR effectL
  have doesR := does.transform meets apart effectL h
  have doesL := meets.transform does (fun x same other => apart x other same) effectR
    (transform_swap policy role h)
  have behindL := doesR.pairwise effectR' sortedL
  have behindR := doesL.pairwise effectL' sortedR
  refine ⟨ws, effectR', effectL', (behindL.and behindR).imp fun {x y} => ?_⟩
  rintro ⟨before | here | here, before' | there | there⟩
  · exact .inl before
  · exact .inl before
  · exact .inl before
  · exact .inl before'
  · exact absurd there (apart x here)
  · exact .inr (.inl ⟨here, List.mem_singleton.mpr there.symm⟩)
  · exact .inl before'
  · exact .inr (.inr ⟨here, List.mem_singleton.mpr there.symm⟩)
  · exact absurd there (apart y here)

/-- There only what the two sides add is decided anew. -/
theorem corner_ordered (does : Does known xs r.edit d) (meets : Does known xs l.edit e)
    (apart : ∀ x, d = .added x → e ≠ .added x) (effectR : r.effect? xs = some ys)
    (effectL : l.effect? xs = some zs) (h : transform policy role r l = .ok (r', l'))
    (sortedR : ys.Pairwise R) (sortedL : zs.Pairwise R) (asymm : ∀ x y, R x y → ¬ R y x)
    (strange : ∀ x y, Meets d [e] x y → ¬ R x y) :
    ∃ (ws : List α) (R' : α → α → Prop), r'.effect? zs = some ws ∧ l'.effect? ys = some ws ∧
      (∀ x y, R' x y → ¬ R' y x) ∧ (∀ x y, R x y → R' x y) ∧
      (∀ x y, R' x y → R x y ∨ Meets d [e] x y) ∧ ws.Pairwise R' := by
  obtain ⟨ws, effectR', effectL', corner⟩ :=
    pairwise_corner does meets apart effectR effectL h sortedR sortedL
  -- nothing is repeated in the corner, for no element meets itself
  have nodup : ws.Nodup := corner.imp fun {x y} decided same => by
    subst same
    rcases decided with before | ⟨this, that⟩ | ⟨this, that⟩
    · exact asymm x x before before
    · exact apart x this (List.mem_singleton.mp that).symm
    · exact apart x this (List.mem_singleton.mp that).symm
  obtain ⟨R', asymm', grows, only, sorted⟩ := exists_order_extending (Meets d [e]) asymm nodup
    (fun x y => Meets.symm) strange corner
  exact ⟨ws, R', effectR', effectL', asymm', grows, only, sorted⟩

/-- Operations, one after the other, and every document on the way stands in the order of `R`. -/
inductive Along (R : α → α → Prop) : List α → List (Operation α) → Prop where
  | nil {xs : List α} (sorted : xs.Pairwise R) : Along R xs []
  | cons {xs ys : List α} {op : Operation α} {ops : List (Operation α)} (sorted : xs.Pairwise R)
      (effect : op.effect? xs = some ys) (rest : Along R ys ops) : Along R xs (op :: ops)

namespace Along

theorem start (h : Along R xs ops) : xs.Pairwise R := by
  cases h <;> assumption

theorem of_cons (h : Along R xs (op :: ops)) (effect : op.effect? xs = some ys) :
    Along R ys ops := by
  cases h with
  | cons sorted effect' rest =>
    obtain rfl := Option.some.inj (effect.symm.trans effect')
    exact rest

theorem last (h : Along R xs ops) (all : Operation.effects? ops xs = some ys) :
    ys.Pairwise R := by
  induction h with
  | nil sorted =>
    cases all
    exact sorted
  | cons sorted effect rest ih =>
    rw [Operation.effects?_cons, effect] at all
    exact ih all

theorem imp (h : Along R xs ops) (grows : ∀ x y, R x y → R' x y) : Along R' xs ops := by
  induction h with
  | nil sorted => exact .nil (sorted.imp (grows _ _))
  | cons sorted effect rest ih => exact .cons (sorted.imp (grows _ _)) effect ih

theorem append (h : Along R xs ops) (all : Operation.effects? ops xs = some ys)
    (effect : op.effect? ys = some zs) (sorted : zs.Pairwise R) : Along R xs (ops ++ [op]) := by
  induction h with
  | nil first =>
    cases all
    exact .cons first effect (.nil sorted)
  | cons first effect' rest ih =>
    rw [Operation.effects?_cons, effect'] at all
    exact .cons first effect' (ih all)

/-- Only the edits count. -/
theorem of_edits (h : Along R xs ops) (tells : Tells known xs ops ds)
    (same : ops'.map (·.edit) = ops.map (·.edit)) : Along R xs ops' := by
  induction h generalizing known ds ops' with
  | nil sorted =>
    rw [List.map_eq_nil_iff.mp same]
    exact .nil sorted
  | cons sorted effect rest ih =>
    obtain ⟨op', ops', rfl, first, others⟩ := List.map_eq_cons_iff.mp same
    cases tells with
    | cons does effect' tells =>
      obtain rfl := Option.some.inj (effect.symm.trans effect')
      exact .cons sorted (does.effect?_eq first ▸ effect) (ih tells others)

/-- An operation is taken past others. The order is decided for some more pairs of elements, of
which the operation adds one and the others add the other one. -/
theorem pass (h : Along R xs ops) (tells : Tells known xs ops ds)
    (asymm : ∀ x y, R x y → ¬ R y x) (does : Does known xs op.edit d)
    (apart : ∀ x, d = .added x → .added x ∉ ds) (effect : op.effect? xs = some ys)
    (sorted : ys.Pairwise R) (strange : ∀ x y, Meets d ds x y → ¬ R x y)
    (past : transformPast policy role op ops = .ok (r', ops')) :
    ∃ R' : α → α → Prop, (∀ x y, R' x y → ¬ R' y x) ∧ (∀ x y, R x y → R' x y) ∧
      (∀ x y, R' x y → R x y ∨ Meets d ds x y) ∧ Along R' ys ops' := by
  induction tells generalizing R op r' ops' ys with
  | nil known xs =>
    cases past
    exact ⟨R, asymm, fun _ _ => id, fun _ _ => .inl, .nil sorted⟩
  | @cons known xs zs l ops e ds meets effectL rest ih =>
    obtain ⟨op₁, l₁, ops₁, first, others, rfl⟩ := transformPast_cons_eq_ok.mp past
    have along := h.of_cons effectL
    have apartE : ∀ x, d = .added x → e ≠ .added x := by
      rintro x rfl rfl
      exact apart x rfl List.mem_cons_self
    have fresh : ∀ x, e = .added x → .added x ∉ ds := by
      rintro x rfl later
      exact rest.added_new later (Set.mem_insert ..)
    obtain ⟨ws, R₁, effect₁, effectL₁, asymm₁, grows₁, only₁, sorted₁⟩ :=
      corner_ordered does meets apartE effect effectL first sorted along.start asymm
        fun x y meet => strange x y (meet.head ds)
    have strange₁ : ∀ x y, Meets d ds x y → ¬ R₁ x y := by
      intro x y meet decided
      rcases only₁ x y decided with before | ⟨this, that⟩ | ⟨this, that⟩
      · exact strange x y (meet.cons e) before
      · rcases meet with ⟨-, later⟩ | ⟨-, later⟩
        · exact fresh y (List.mem_singleton.mp that).symm later
        · exact apart x this (List.mem_cons_of_mem _ later)
      · rcases meet with ⟨-, later⟩ | ⟨-, later⟩
        · exact apart y this (List.mem_cons_of_mem _ later)
        · exact fresh x (List.mem_singleton.mp that).symm later
    obtain ⟨R₂, asymm₂, grows₂, only₂, along₂⟩ := ih (along.imp grows₁) asymm₁
      (does.transform meets apartE effectL first)
      (fun x this later => apart x this (List.mem_cons_of_mem _ later)) effect₁ sorted₁ strange₁
      others
    refine ⟨R₂, asymm₂, fun x y before => grows₂ x y (grows₁ x y before), fun x y decided => ?_,
      .cons (sorted.imp fun before => grows₂ _ _ (grows₁ _ _ before)) effectL₁ along₂⟩
    rcases only₂ x y decided with decided₁ | meet
    · exact (only₁ x y decided₁).imp_right fun meet => meet.head ds
    · exact .inr (meet.cons e)

end Along

end Effect

end CoEdit
