import CoEdit.Proofs.Passage
import Mathlib.Data.List.Perm.Basic
import Mathlib.Data.Set.Insert

/-!
# What operations are about

Positions change with every transformation; what an operation does, in terms of elements, does not.
An insertion is about the element that it adds and a deletion about the one that it takes out. A
document is as it should be if it holds exactly what is known to be added and not known to be
removed (`Shows`), and an operation that does a deed keeps it so (`Shows.step`). That deeds survive
transformation is shown for one pair (`Does.transform`) and then for a queue (`Tells.pass`).
-/

namespace CoEdit

variable {α : Type}

/-- What an operation does, in terms of elements. -/
inductive Deed (α : Type) where
  | nothing
  | added (x : α)
  | removed (x : α)

/-- What an edit does to a list of elements. -/
def Edit.deed (edit : Edit α) (xs : List α) : Deed α :=
  match edit with
  | .insert _ x => .added x
  | .delete p => (xs[p]?.map .removed).getD .nothing
  | _ => .nothing

/-- The elements are those that are known to be added and not known to be removed, each once; and
what is known to be removed was added. -/
structure Shows (xs : List α) (known : Set (Deed α)) : Prop where
  nodup : xs.Nodup
  mem_iff : ∀ x, x ∈ xs ↔ .added x ∈ known ∧ .removed x ∉ known
  added : ∀ x, .removed x ∈ known → .added x ∈ known

theorem shows_nil : Shows ([] : List α) ∅ :=
  ⟨List.nodup_nil, fun x => by simp, fun x removed => by cases removed⟩

/-- Where `known` is known and `xs` is left, the edit does the deed. To take out an element that is
known to be removed there is nothing left to do. -/
inductive Does (known : Set (Deed α)) (xs : List α) : Edit α → Deed α → Prop where
  | nothing : Does known xs .noop .nothing
  | added {p : Nat} {x : α} (new : .added x ∉ known) : Does known xs (.insert p x) (.added x)
  | removed {p : Nat} {x : α} (here : xs[p]? = some x) : Does known xs (.delete p) (.removed x)
  | gone {x : α} (before : .removed x ∈ known) : Does known xs .noop (.removed x)

namespace Does

variable {known : Set (Deed α)} {xs ys zs : List α} {edit : Edit α} {d e : Deed α}

theorem isUpdate (h : Does known xs edit d) : edit.isUpdate = false := by
  cases h <;> rfl

/-- Without updates, the stamp has no part in the effect. -/
theorem effect?_eq [Element α] {op op' : Operation α} (h : Does known xs op.edit d)
    (same : op'.edit = op.edit) : op'.effect? = op.effect? := by
  funext zs
  simp only [Operation.effect?, same]
  cases edit : op.edit with
  | replace p x => exact absurd h.isUpdate (by simp [edit, Edit.isUpdate])
  | update p tag delta => exact absurd h.isUpdate (by simp [edit, Edit.isUpdate])
  | _ => rfl

/-- Any edit that a document accepts does its deed, as long as it adds nothing twice. -/
theorem of_effect? [Element α] {op : Operation α} (plain : op.edit.isUpdate = false)
    (new : ∀ p x, op.edit = .insert p x → .added x ∉ known) (effect : op.effect? xs = some ys) :
    Does known xs op.edit (op.edit.deed xs) := by
  cases edit : op.edit with
  | noop => exact .nothing
  | insert p x => exact .added (new p x edit)
  | delete p =>
    obtain ⟨inside, -⟩ := (Operation.effect?_delete edit).mp effect
    rw [Edit.deed, List.getElem?_eq_getElem inside]
    exact .removed (List.getElem?_eq_getElem inside)
  | replace p x => rw [edit] at plain; cases plain
  | update p tag delta => rw [edit] at plain; cases plain

end Does

namespace Shows

variable {known : Set (Deed α)} {xs ys : List α} {d : Deed α} {x : α}

/-- A deed that shows nowhere: nothing was done, or nothing new. -/
theorem same (h : Shows xs known) (idle : d = .nothing ∨ d ∈ known) :
    Shows xs (insert d known) := by
  rcases idle with rfl | before
  · exact ⟨h.nodup, fun y => by simpa using h.mem_iff y, fun y => by simpa using h.added y⟩
  · rwa [Set.insert_eq_of_mem before]

theorem add (h : Shows xs known) (new : .added x ∉ known) (grown : ys.Perm (x :: xs)) :
    Shows ys (insert (.added x) known) := by
  have absent : x ∉ xs := fun there => new ((h.mem_iff x).mp there).1
  have intact : .removed x ∉ known := fun gone => new (h.added x gone)
  refine ⟨grown.nodup_iff.mpr (List.nodup_cons.mpr ⟨absent, h.nodup⟩), fun y => ?_,
    fun y gone => ?_⟩
  · rw [grown.mem_iff, List.mem_cons, h.mem_iff]
    by_cases same : y = x
    · subst y
      simp [intact]
    · simp [same]
  · exact Set.mem_insert_of_mem _ (h.added y (by simpa using gone))

theorem remove (h : Shows xs known) (shrunk : (x :: ys).Perm xs) :
    Shows ys (insert (.removed x) known) := by
  obtain ⟨absent, nodup⟩ := List.nodup_cons.mp (shrunk.nodup_iff.mpr h.nodup)
  have here : x ∈ xs := shrunk.mem_iff.mp List.mem_cons_self
  refine ⟨nodup, fun y => ?_, fun y gone => ?_⟩
  · have before : y = x ∨ y ∈ ys ↔ .added y ∈ known ∧ .removed y ∉ known := by
      rw [← h.mem_iff, ← shrunk.mem_iff, List.mem_cons]
    by_cases same : y = x
    · subst y
      simp [absent]
    · simpa [same] using before
  · refine Set.mem_insert_of_mem _ ?_
    rcases gone with now | before
    · cases now
      exact ((h.mem_iff x).mp here).1
    · exact h.added y before

/-- A document stays as it should be. -/
theorem step [Element α] {op : Operation α} (h : Shows xs known) (does : Does known xs op.edit d)
    (effect : op.effect? xs = some ys) : Shows ys (insert d known) := by
  cases edit : op.edit with
  | noop =>
    rw [Operation.effect?_noop edit] at effect
    cases effect
    rw [edit] at does
    cases does with
    | nothing => exact h.same (.inl rfl)
    | gone before => exact h.same (.inr before)
  | insert p x =>
    obtain ⟨inside, rfl⟩ := (Operation.effect?_insert edit).mp effect
    rw [edit] at does
    cases does with
    | added new => exact h.add new (List.perm_insertIdx x xs inside)
  | delete p =>
    obtain ⟨inside, rfl⟩ := (Operation.effect?_delete edit).mp effect
    rw [edit] at does
    cases does with
    | removed here =>
      obtain ⟨-, rfl⟩ := List.getElem?_eq_some_iff.mp here
      exact h.remove (List.getElem_cons_eraseIdx_perm inside)
  | replace p x => exact absurd does.isUpdate (by simp [edit, Edit.isUpdate])
  | update p tag delta => exact absurd does.isUpdate (by simp [edit, Edit.isUpdate])

end Shows

section Transform

variable {policy : Policy} {role : Role} {known : Set (Deed α)} {xs ys zs : List α}
  {r l r' l' : Operation α} {d e : Deed α} {p : Nat} {x : α}

/-- An insertion goes on inserting its element. -/
theorem transform_insert (edit : r.edit = .insert p x)
    (h : transform policy role r l = .ok (r', l')) : ∃ q, r'.edit = .insert q x := by
  have moved : ∀ q, (r.moveTo q).edit = .insert q x := Operation.edit_moveTo_insert edit
  simp only [transform, transformBy, edit, Edit.shape] at h
  cases other : l.edit <;> simp only [other] at h
  case noop =>
    cases h
    exact ⟨p, edit⟩
  all_goals split at h <;> cases h
  all_goals first | exact ⟨p, edit⟩ | exact ⟨_, moved _⟩

/-- A deletion goes on deleting its element, wherever that is now. -/
theorem transform_delete [Element α] (edit : r.edit = .delete p) (here : xs[p]? = some x)
    (plain : l.edit.isUpdate = false) (effect : l.effect? xs = some zs)
    (h : transform policy role r l = .ok (r', l')) :
    r'.edit = .noop ∧ l.edit = .delete p ∨ ∃ q, r'.edit = .delete q ∧ zs[q]? = some x := by
  have moved : ∀ q, (r.moveTo q).edit = .delete q := Operation.edit_moveTo_delete edit
  simp only [transform, transformBy, edit, Edit.shape] at h
  cases other : l.edit with
  | noop =>
    rw [Operation.effect?_noop other] at effect
    cases effect
    simp only [other] at h
    cases h
    exact .inr ⟨p, edit, here⟩
  | insert q y =>
    obtain ⟨inside, rfl⟩ := (Operation.effect?_insert other).mp effect
    simp only [other] at h
    split at h <;> cases h
    · refine .inr ⟨p, edit, ?_⟩
      rw [List.getElem?_insertIdx_of_lt ‹_›, here]
    · refine .inr ⟨p + 1, moved _, ?_⟩
      rw [List.getElem?_insertIdx_of_gt (by omega)]
      exact here
  | delete q =>
    obtain ⟨inside, rfl⟩ := (Operation.effect?_delete other).mp effect
    simp only [other] at h
    split at h
    · cases h
      refine .inr ⟨p, edit, ?_⟩
      rw [List.getElem?_eraseIdx_of_lt ‹_›, here]
    · split at h <;> cases h
      · subst q
        exact .inl ⟨rfl, rfl⟩
      · refine .inr ⟨p - 1, moved _, ?_⟩
        rw [List.getElem?_eraseIdx_of_ge (by omega), Nat.sub_add_cancel (by omega), here]
  | replace q y => rw [other] at plain; cases plain
  | update q tag delta => rw [other] at plain; cases plain

/-- Past another operation, an operation still does its deed. -/
theorem Does.transform [Element α] (does : Does known xs r.edit d) (other : Does known xs l.edit e)
    (apart : ∀ x, d = .added x → e ≠ .added x) (effect : l.effect? xs = some zs)
    (h : transform policy role r l = .ok (r', l')) : Does (insert e known) zs r'.edit d := by
  generalize edit : r.edit = re at does
  cases does with
  | nothing =>
    rw [transform_noop edit h]
    exact .nothing
  | gone before =>
    rw [transform_noop edit h]
    exact .gone (Set.mem_insert_of_mem _ before)
  | added new =>
    obtain ⟨q, edit'⟩ := transform_insert edit h
    rw [edit']
    refine .added fun among => ?_
    rcases among with now | before
    · exact apart _ rfl now.symm
    · exact new before
  | @removed p x here =>
    rcases transform_delete edit here other.isUpdate effect h with ⟨gone, same⟩ | ⟨q, edit', there⟩
    · rw [gone]
      rw [same] at other
      cases other with
      | removed here' =>
        obtain rfl := Option.some.inj (here.symm.trans here')
        exact .gone (Set.mem_insert ..)
    · rw [edit']
      exact .removed there

end Transform

theorem union_cons (known : Set (Deed α)) (d : Deed α) (ds : List (Deed α)) :
    known ∪ {e | e ∈ d :: ds} = insert d known ∪ {e | e ∈ ds} := by
  ext e
  simp only [Set.mem_union, Set.mem_insert_iff, Set.mem_ofPred_eq, List.mem_cons]
  tauto

/-- Operations that do deeds, one after the other. -/
inductive Tells [Element α] :
    Set (Deed α) → List α → List (Operation α) → List (Deed α) → Prop where
  | nil (known : Set (Deed α)) (xs : List α) : Tells known xs [] []
  | cons {known : Set (Deed α)} {xs ys : List α} {op : Operation α} {ops : List (Operation α)}
      {d : Deed α} {ds : List (Deed α)} (does : Does known xs op.edit d)
      (effect : op.effect? xs = some ys) (rest : Tells (insert d known) ys ops ds) :
      Tells known xs (op :: ops) (d :: ds)

namespace Tells

variable [Element α] {policy : Policy} {role : Role} {known : Set (Deed α)} {xs ys zs : List α}
  {op op' : Operation α} {ops ops' : List (Operation α)} {d : Deed α} {ds : List (Deed α)}

/-- At the end all the deeds are known, and the document is as it should be. -/
theorem shows (h : Tells known xs ops ds) (start : Shows xs known)
    (effect : Operation.effects? ops xs = some zs) : Shows zs (known ∪ {d | d ∈ ds}) := by
  induction h with
  | nil known xs =>
    cases effect
    simpa using start
  | @cons known xs ys op ops d ds does first rest ih =>
    rw [Operation.effects?_cons, first] at effect
    rw [union_cons]
    exact ih (start.step does first) effect

/-- Only the edits tell. -/
theorem of_edits (h : Tells known xs ops ds) (same : ops'.map (·.edit) = ops.map (·.edit)) :
    Tells known xs ops' ds := by
  induction h generalizing ops' with
  | nil =>
    rw [List.map_eq_nil_iff.mp same]
    exact .nil ..
  | cons does effect rest ih =>
    obtain ⟨op', ops', rfl, first, others⟩ := List.map_eq_cons_iff.mp same
    exact .cons (first ▸ does) (does.effect?_eq first ▸ effect) (ih others)

theorem append (h : Tells known xs ops ds) (effect : Operation.effects? ops xs = some ys)
    (does : Does (known ∪ {d | d ∈ ds}) ys op.edit d) (last : op.effect? ys = some zs) :
    Tells known xs (ops ++ [op]) (ds ++ [d]) := by
  induction h with
  | nil known xs =>
    cases effect
    exact .cons (by simpa using does) last (.nil ..)
  | @cons known xs mid first ops e ds begins effect' rest ih =>
    rw [Operation.effects?_cons, effect'] at effect
    rw [union_cons] at does
    exact .cons begins effect' (ih effect does)

/-- An operation is taken past others: it does its deed behind them, and they do theirs behind
it. -/
theorem pass (h : Tells known xs ops ds) (does : Does known xs op.edit d)
    (apart : ∀ x, d = .added x → .added x ∉ ds) (effect : op.effect? xs = some ys)
    (all : Operation.effects? ops xs = some zs)
    (past : transformPast policy role op ops = .ok (op', ops')) :
    Does (known ∪ {e | e ∈ ds}) zs op'.edit d ∧ Tells (insert d known) ys ops' ds := by
  induction h generalizing op op' ops' ys with
  | nil known xs =>
    cases past
    cases all
    exact ⟨by simpa using does, .nil ..⟩
  | @cons known xs mid l ops e ds meets effectL rest ih =>
    obtain ⟨op₁, l₁, ops₁, first, others, rfl⟩ := transformPast_cons_eq_ok.mp past
    rw [Operation.effects?_cons, effectL] at all
    obtain ⟨corner, effect₁, effectL₁⟩ := transform_diamond first _ _ _ effect effectL
    have apartE : ∀ x, d = .added x → e ≠ .added x := by
      rintro x rfl rfl
      exact apart x rfl List.mem_cons_self
    have does₁ := does.transform meets apartE effectL first
    have meets₁ := meets.transform does (fun x same other => apartE x other same) effect
      (transform_swap policy role first)
    have apart' : ∀ x, d = .added x → .added x ∉ ds :=
      fun x same among => apart x same (List.mem_cons_of_mem _ among)
    obtain ⟨last, told⟩ := ih does₁ apart' effect₁ all others
    rw [Set.insert_comm] at told
    rw [union_cons]
    exact ⟨last, .cons meets₁ effectL₁ told⟩

end Tells

end CoEdit
