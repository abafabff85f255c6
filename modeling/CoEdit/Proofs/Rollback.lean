import CoEdit.Proofs.InPlace
import Mathlib.Data.List.TakeWhile

/-!
# Taking updates back

The updates of an element leave a stack of pre-images, and a rollback writes them back from the top.
Elements move when others come and go, lose their stack when they are replaced, and are updated
again after a rollback; so what a rollback should bring back is not read off the stack. It is
recorded beside the document, call by call: every update adds the slot that it finds to the stages
of its element (`Document.remember`). The stack of each slot leads back through these stages, one
pre-image for each (`Slot.Retraces`), and therefore a rollback of `n` updates ends in the stage
before the oldest of them (`rollback_restores`).

How many updates are taken back is decided from the top of the stack, too. Updates stand there in
the order in which they were applied, which need not be the order of their states: a rollback stops
at the first update that is not beyond the given state, and leaves all those below it
(`rollback_newest`).
-/

namespace CoEdit

variable {α : Type}

/-- A call that changes a document. -/
inductive DocumentCall (α : Type) where
  | fill (values : List α)
  | apply (op : Operation α)
  | rollback (position : Nat) (since : StateVector)

/-- By element, the slot as it was before each update that was not taken back, the latest first. -/
abbrev Stages (α : Type) := List (List (Slot α))

namespace Document

variable [Element α]

/-- The document after a call, whether the call succeeds or not. -/
def call (d : Document α) : DocumentCall α → Document α
  | .fill values => d.fill values
  | .apply op => (d.applyInPlace op).2
  | .rollback p since => (d.rollbackInPlace p since).2

def callAll (d : Document α) (calls : List (DocumentCall α)) : Document α := calls.foldl call d

/-- The stages after a call. A new element has none, an update adds the slot that it finds, and a
rollback that reports `n` updates takes the last `n` stages away. -/
def remember (d : Document α) (past : Stages α) : DocumentCall α → Stages α
  | .fill values => values.map fun _ => []
  | .apply op =>
    match (d.applyInPlace op).1, op.edit with
    | .error _, _ | .ok _, .noop => past
    | .ok _, .insert p _ => past.insertIdx p []
    | .ok _, .delete p => past.eraseIdx p
    | .ok _, .replace p _ => past.modify p fun _ => []
    | .ok _, .update p _ _ => past.modify p fun earlier => d.slots[p]?.toList ++ earlier
  | .rollback p since =>
    match (d.rollbackInPlace p since).1 with
    | .error _ => past
    | .ok n => past.modify p (List.drop n)

/-- The stages after some calls. -/
def rememberAll (d : Document α) (past : Stages α) : List (DocumentCall α) → Stages α
  | [] => past
  | next :: rest => (d.call next).rememberAll (d.remember past next) rest

end Document

namespace Element

variable [Element α]

/-- Written fields are undone by writing what they held. -/
theorem setEntries_setEntries_held {entries : List (String × Value)} {e : α}
    (distinct : (entries.map Prod.fst).Nodup)
    (known : ∀ f ∈ entries.map Prod.fst, (field? e f).isSome) :
    setEntries (setEntries e entries)
      (entries.map fun entry => (entry.1, (field? e entry.1).getD .null)) = e := by
  induction entries with
  | nil => rfl
  | cons entry rest ih =>
    obtain ⟨f, v⟩ := entry
    obtain ⟨fresh, distinct⟩ := List.nodup_cons.mp distinct
    obtain ⟨old, there⟩ := Option.isSome_iff_exists.mp (known f List.mem_cons_self)
    have first : setField (setEntries (setField e f v) rest) f old = setEntries e rest := by
      rw [← setEntries_setField_of_notMem fresh, setField_setField, setField_self e f old there]
    have others := ih distinct fun g among => known g (List.mem_cons_of_mem _ among)
    change setEntries (setField (setEntries (setField e f v) rest) f ((field? e f).getD .null))
      (rest.map fun entry => (entry.1, (field? e entry.1).getD .null)) = e
    rw [there, Option.getD_some, first]
    exact others

/-- After an update, writing the pre-image goes through and brings the element back. -/
theorem overwrite_held {e : α} {delta : Fields} (known : ∀ f ∈ delta.keys, (field? e f).isSome) :
    overwrite (setFields e delta) (held e delta).entries = (.ok (), e) := by
  have names : (held e delta).entries.map Prod.fst = delta.keys := SortedMap.keys_mapWithKey ..
  rw [overwrite_eq, setFields_eq]
  · exact congrArg _ (setEntries_setEntries_held (nodup_keys delta) known)
  · intro f among
    rw [names] at among
    rw [setFields_eq, isSome_field?_setEntries]
    exact known f among

end Element

/-- The update has a state beyond a count. -/
def PreImage.beyond (cutoff : Nat) (record : PreImage) : Bool :=
  decide (cutoff < record.state.get 0)

theorem PreImage.beyond_eq_false_iff {cutoff : Nat} {record : PreImage} :
    record.beyond cutoff = false ↔ record.state.get 0 ≤ cutoff := by
  rw [beyond, decide_eq_false_iff_not, Nat.not_lt]

section Lists

variable {β : Type} {holds : β → Bool} {xs : List β}

/-- Nothing that holds is left below the top of a stack just when it all stands on top. -/
theorem dropWhile_holds_iff : (∀ x ∈ xs.dropWhile holds, holds x = false) ↔
    xs.Pairwise fun upper lower => holds lower → holds upper := by
  induction xs with
  | nil => simp
  | cons x xs ih =>
    by_cases top : holds x = true
    · simp [top, ih]
    · have none_below : (∀ y ∈ xs, holds y = false) →
          xs.Pairwise fun upper lower => holds lower → holds upper := by
        intro low
        refine List.pairwise_of_forall_mem_list fun upper _ lower below high => ?_
        rw [low lower below] at high
        cases high
      simp only [Bool.not_eq_true] at top
      simp only [List.dropWhile_cons, top, Bool.false_eq_true, if_false, List.mem_cons,
        forall_eq_or_imp, true_and, List.pairwise_cons, imp_false, Bool.not_eq_true]
      exact ⟨fun low => ⟨low, none_below low⟩, fun low => low.1⟩

theorem length_takeWhile_iff : (xs.takeWhile holds).length = xs.countP holds ↔
    ∀ x ∈ xs.dropWhile holds, holds x = false := by
  have parts : xs.countP holds =
      (xs.takeWhile holds).countP holds + (xs.dropWhile holds).countP holds := by
    rw [← List.countP_append, List.takeWhile_append_dropWhile]
  have top : (xs.takeWhile holds).countP holds = (xs.takeWhile holds).length :=
    List.countP_eq_length.mpr fun x among => List.mem_takeWhile_imp among
  have low : (xs.dropWhile holds).countP holds = 0 ↔ ∀ x ∈ xs.dropWhile holds, holds x = false := by
    simp [List.countP_eq_zero]
  rw [← low, parts, top]
  omega

end Lists

namespace Slot

variable [Element α]

/-- Written back one after the other, the pre-images of a slot lead through its earlier stages. -/
inductive Retraces : Slot α → List (Slot α) → Prop where
  | fresh (v : α) : Retraces ⟨v, []⟩ []
  | updated {s : Slot α} {value : α} {record : PreImage} {earlier : List (Slot α)}
      (back : Element.overwrite value record.fields.entries = (.ok (), s.value))
      (rest : Retraces s earlier) : Retraces ⟨value, record :: s.undo⟩ (s :: earlier)

/-- How far a rollback goes down the stack: it takes away the updates beyond the cutoff that stand
on top of all others. -/
theorem undo_unwind {cutoff n : Nat} {value : α} {undo : List PreImage} {t : Slot α}
    (unwound : unwind cutoff value undo = (.ok n, t)) :
    n = (undo.takeWhile (PreImage.beyond cutoff)).length ∧
      t.undo = undo.dropWhile (PreImage.beyond cutoff) := by
  induction undo generalizing value n with
  | nil =>
    cases unwound
    exact ⟨rfl, rfl⟩
  | cons last older ih =>
    by_cases stop : last.state.get 0 ≤ cutoff
    · have low : last.beyond cutoff = false := PreImage.beyond_eq_false_iff.mpr stop
      simp only [unwind, if_pos stop] at unwound
      cases unwound
      simp [low]
    · have high : last.beyond cutoff = true := decide_eq_true (Nat.lt_of_not_le stop)
      simp only [unwind, if_neg stop] at unwound
      split at unwound
      · cases unwound
      · rename_i value' _
        rcases below : unwind cutoff value' older with ⟨result, slot⟩
        simp only [below] at unwound
        cases result with
        | error e => cases unwound
        | ok m =>
          cases unwound
          obtain ⟨count, left⟩ := ih below
          simp only [List.takeWhile_cons, List.dropWhile_cons, high, if_true, List.length_cons]
          exact ⟨congrArg _ count, left⟩

/-- A rollback never gets stuck, and ends in one of the stages. -/
theorem Retraces.unwind {s : Slot α} {earlier : List (Slot α)} (h : Retraces s earlier)
    (cutoff : Nat) :
    ∃ n t, Slot.unwind cutoff s.value s.undo = (.ok n, t) ∧
      (s :: earlier).drop n = t :: earlier.drop n ∧ Retraces t (earlier.drop n) := by
  induction h with
  | fresh v => exact ⟨0, ⟨v, []⟩, rfl, rfl, .fresh v⟩
  | @updated s value record earlier back rest ih =>
    by_cases stop : record.state.get 0 ≤ cutoff
    · exact ⟨0, ⟨value, record :: s.undo⟩, by simp only [Slot.unwind, if_pos stop], rfl,
        .updated back rest⟩
    · obtain ⟨n, t, unwound, stage, retraces⟩ := ih
      refine ⟨n + 1, t, ?_, stage, retraces⟩
      simp only [Slot.unwind, if_neg stop, back, unwound]
      rfl

end Slot

namespace Document

open Slot

variable [Element α] {d : Document α} {past : Stages α} {p : Nat}

/-- The stages belong to the slots of the document, which lead back through them. -/
structure Keeps (d : Document α) (past : Stages α) : Prop where
  length : past.length = d.slots.length
  retraces : ∀ {i : Nat} {s : Slot α} {earlier : List (Slot α)},
    d.slots[i]? = some s → past[i]? = some earlier → Retraces s earlier

namespace Keeps

theorem fill (d : Document α) (values : List α) :
    (d.fill values).Keeps (values.map fun _ => []) := by
  constructor
  · simp [Document.fill]
  · intro i s earlier at_i there
    simp only [Document.fill, List.getElem?_map, Option.map_eq_some_iff] at at_i there
    obtain ⟨v, -, rfl⟩ := at_i
    obtain ⟨_, -, rfl⟩ := there
    exact .fresh v

theorem insert (h : d.Keeps past) (p : Nat) (v : α) :
    { d with slots := d.slots.insertIdx p (Slot.fresh v) }.Keeps (past.insertIdx p []) := by
  obtain ⟨length, retraces⟩ := h
  constructor
  · simp only [List.length_insertIdx, length]
  · intro i s earlier at_i there
    rcases Nat.lt_trichotomy i p with ahead | rfl | behind
    · rw [List.getElem?_insertIdx_of_lt ahead] at at_i there
      exact retraces at_i there
    · simp only [List.getElem?_insertIdx_self, Option.ite_none_right_eq_some] at at_i there
      obtain ⟨-, ⟨⟩⟩ := at_i
      obtain ⟨-, ⟨⟩⟩ := there
      exact .fresh v
    · rw [List.getElem?_insertIdx_of_gt behind] at at_i there
      exact retraces at_i there

theorem erase (h : d.Keeps past) (p : Nat) :
    { d with slots := d.slots.eraseIdx p }.Keeps (past.eraseIdx p) := by
  obtain ⟨length, retraces⟩ := h
  constructor
  · simp only [List.length_eraseIdx, length]
  · intro i s earlier at_i there
    rcases Nat.lt_or_ge i p with ahead | behind
    · rw [List.getElem?_eraseIdx_of_lt ahead] at at_i there
      exact retraces at_i there
    · rw [List.getElem?_eraseIdx_of_ge behind] at at_i there
      exact retraces at_i there

/-- One slot changes, and its stages with it. -/
theorem change (h : d.Keeps past) {p : Nat} {s : Slot α} {stages : List (Slot α) → List (Slot α)}
    (new : ∀ earlier, past[p]? = some earlier → Retraces s (stages earlier)) :
    { d with slots := d.slots.set p s }.Keeps (past.modify p stages) := by
  obtain ⟨length, retraces⟩ := h
  constructor
  · simp only [List.length_modify, List.length_set, length]
  · intro i t earlier at_i there
    by_cases here : p = i
    · subst here
      simp only [List.getElem?_modify_eq, Option.map_eq_map, Option.map_eq_some_iff] at there
      obtain ⟨before, at_p, rfl⟩ := there
      have inside : p < d.slots.length := length ▸ (List.getElem?_eq_some_iff.mp at_p).1
      rw [List.getElem?_set_self inside] at at_i
      obtain rfl := Option.some.inj at_i
      exact new before at_p
    · rw [List.getElem?_set_ne here] at at_i
      rw [List.getElem?_modify_ne _ _ here] at there
      exact retraces at_i there

/-- What an operation does to the slots, it does to the stages. -/
theorem apply (h : d.Keeps past) (op : Operation α) :
    (d.call (.apply op)).Keeps (d.remember past (.apply op)) := by
  simp only [call, remember, d.applyInPlace_eq]
  cases applied : d.apply op with
  | error e => exact h
  | ok d' =>
    have does := apply_eq_ok_iff.mp applied
    cases edit : op.edit with simp only [InPlace.allOrNothing, edit] at does ⊢
    | noop =>
      obtain rfl := does
      exact h
    | insert p v =>
      obtain ⟨-, rfl⟩ := does
      exact h.insert p v
    | delete p =>
      obtain ⟨-, rfl⟩ := does
      exact h.erase p
    | replace p v =>
      obtain ⟨-, rfl⟩ := does
      exact h.change fun _ _ => .fresh v
    | update p tag delta =>
      obtain ⟨s, stamp, at_p, -, accepts, rfl⟩ := does
      refine h.change fun earlier there => ?_
      rw [at_p]
      exact .updated (Element.overwrite_held accepts.2) (h.retraces at_p there)

/-- A rollback inside the document succeeds, and puts an earlier stage in place of the slot. -/
theorem exists_stage (h : d.Keeps past) (inside : p < d.size) (since : StateVector) :
    ∃ s earlier n t, d.slots[p]? = some s ∧ past[p]? = some earlier ∧
      Slot.unwind (since.get 0) s.value s.undo = (.ok n, t) ∧
      d.rollbackInPlace p since = (.ok n, { d with slots := d.slots.set p t }) ∧
      (s :: earlier).drop n = t :: earlier.drop n ∧ Retraces t (earlier.drop n) := by
  have inside' : p < past.length := h.length ▸ inside
  have at_p : d.slots[p]? = some d.slots[p] := List.getElem?_eq_getElem inside
  have there : past[p]? = some past[p] := List.getElem?_eq_getElem inside'
  obtain ⟨n, t, unwound, stage, retraces⟩ := (h.retraces at_p there).unwind (since.get 0)
  refine ⟨_, _, n, t, at_p, there, unwound, ?_, stage, retraces⟩
  simp only [rollbackInPlace, getSlot_eq_ok.mpr at_p, unwound]

theorem rollback (h : d.Keeps past) (p : Nat) (since : StateVector) :
    (d.call (.rollback p since)).Keeps (d.remember past (.rollback p since)) := by
  by_cases inside : p < d.size
  · obtain ⟨s, earlier, n, t, -, there, -, done, -, retraces⟩ := h.exists_stage inside since
    simp only [call, remember, done]
    refine h.change fun earlier' there' => ?_
    obtain rfl := Option.some.inj (there.symm.trans there')
    exact retraces
  · have outside : d.slots[p]? = none := List.getElem?_eq_none (Nat.le_of_not_lt inside)
    simp only [call, remember, rollbackInPlace, getSlot, outside]
    exact h

theorem call (h : d.Keeps past) (next : DocumentCall α) :
    (d.call next).Keeps (d.remember past next) := by
  cases next with
  | fill values => exact .fill d values
  | apply op => exact h.apply op
  | rollback p since => exact h.rollback p since

theorem callAll (h : d.Keeps past) (calls : List (DocumentCall α)) :
    (d.callAll calls).Keeps (d.rememberAll past calls) := by
  induction calls generalizing d past with
  | nil => exact h
  | cons next rest ih => exact ih (h.call next)

end Keeps

theorem keeps_empty : (empty : Document α).Keeps [] := ⟨rfl, fun at_i _ => nomatch at_i⟩

end Document

open Document

/-- Whatever a document was called with, a rollback of an element inside it succeeds. If it reports
`n` updates, it puts the slot in the place of the element that the element was in before the oldest
of its last `n` updates not yet taken back, value and pre-images, and it changes nothing else. The
call that returns the document instead of changing it does the same. -/
theorem rollback_restores [Element α] (calls : List (DocumentCall α)) {p : Nat}
    (inside : p < (callAll .empty calls : Document α).size) (since : StateVector) :
    let d : Document α := callAll .empty calls
    ∃ s earlier n t, d.slots[p]? = some s ∧ (rememberAll .empty [] calls)[p]? = some earlier ∧
      d.rollbackInPlace p since = (.ok n, { d with slots := d.slots.set p t }) ∧
      d.rollback p since = .ok (n, { d with slots := d.slots.set p t }) ∧
      (s :: earlier)[n]? = some t := by
  intro d
  have keeps : d.Keeps (rememberAll .empty [] calls) := keeps_empty.callAll calls
  obtain ⟨s, earlier, n, t, at_p, there, -, done, stage, -⟩ := keeps.exists_stage inside since
  refine ⟨s, earlier, n, t, at_p, there, done, InPlace.committed_eq_ok.mpr done, ?_⟩
  rw [← List.head?_drop, stage]
  rfl

/-- A task is given a title, moves down behind another one, is finished, opened again and finished
under a new title; a rollback of both updates that are left finds the task as it was filled in. -/
theorem rollback_restores_moved :
    let task (done : Bool) (title : String) : Record :=
      ⟨"task", .ofList [("done", .bool done), ("title", .string title)]⟩
    let update (p : Nat) (state : StateVector) (delta : Fields) : DocumentCall Record :=
      .apply ⟨.update p "task" delta, some ⟨.ofNat 1, state⟩⟩
    let calls : List (DocumentCall Record) :=
      [.fill [task false "draft"], update 0 ⟨[3]⟩ (.ofList [("title", .string "plan")]),
        .apply ⟨.insert 0 (task false "other"), none⟩,
        update 1 ⟨[5]⟩ (.ofList [("done", .bool true)]), .rollback 1 ⟨[4]⟩,
        update 1 ⟨[6]⟩ (.ofList [("done", .bool true), ("title", .string "final")])]
    let d : Document Record := callAll .empty calls
    1 < d.size ∧ d.get? 1 = some (task true "final") ∧
      d.rollbackInPlace 1 ⟨[2]⟩ =
        (.ok 2, { d with slots := d.slots.set 1 (Slot.fresh (task false "draft")) }) := by
  intro task update calls d
  have inside : 1 < d.size := by decide +kernel
  obtain ⟨s, earlier, n, t, -, there, done, -, stage⟩ := rollback_restores calls inside ⟨[2]⟩
  have reported : (d.rollbackInPlace 1 ⟨[2]⟩).1 = .ok 2 := by decide +kernel
  obtain rfl : n = 2 := by
    rw [done] at reported
    exact Except.ok.inj reported
  have first : (rememberAll .empty [] calls)[1]?.bind (·[1]?) =
      some (Slot.fresh (task false "draft")) := by decide +kernel
  obtain rfl : t = Slot.fresh (task false "draft") := by
    rw [there] at first
    exact Option.some.inj (stage.symm.trans first)
  exact ⟨inside, by decide +kernel, done⟩

/-- Whatever a document was called with, a rollback of an element inside it takes back the updates
beyond the given state that were applied after every other one of the element, and no further ones.
It leaves no update beyond the state, and reports as many as there were, just when none of them was
applied before one that is not beyond the state. -/
theorem rollback_newest [Element α] (calls : List (DocumentCall α)) {p : Nat}
    (inside : p < (callAll .empty calls : Document α).size) (since : StateVector) :
    let d : Document α := callAll .empty calls
    let beyond := PreImage.beyond (since.get 0)
    ∃ s n t, d.slots[p]? = some s ∧
      d.rollbackInPlace p since = (.ok n, { d with slots := d.slots.set p t }) ∧
      n = (s.undo.takeWhile beyond).length ∧ t.undo = s.undo.dropWhile beyond ∧
      ((∀ record ∈ t.undo, record.state.get 0 ≤ since.get 0) ↔
        s.undo.Pairwise fun newer older => beyond older → beyond newer) ∧
      (n = s.undo.countP beyond ↔
        s.undo.Pairwise fun newer older => beyond older → beyond newer) := by
  intro d beyond
  have keeps : d.Keeps (rememberAll .empty [] calls) := keeps_empty.callAll calls
  obtain ⟨s, earlier, n, t, at_p, -, unwound, done, -, -⟩ := keeps.exists_stage inside since
  obtain ⟨count, left⟩ := Slot.undo_unwind unwound
  have low : (∀ record ∈ t.undo, record.state.get 0 ≤ since.get 0) ↔
      ∀ record ∈ s.undo.dropWhile beyond, beyond record = false := by
    simp only [left, PreImage.beyond_eq_false_iff, beyond]
  refine ⟨s, n, t, at_p, done, count, left, low.trans dropWhile_holds_iff, ?_⟩
  rw [count]
  exact length_takeWhile_iff.trans dropWhile_holds_iff

/-- Of three updates in the order of their states, the two beyond the first are taken back. -/
theorem rollback_newest_in_order :
    let task (done : Bool) (title : String) : Record :=
      ⟨"task", .ofList [("done", .bool done), ("title", .string title)]⟩
    let update (state : StateVector) (delta : Fields) : DocumentCall Record :=
      .apply ⟨.update 0 "task" delta, some ⟨.ofNat 1, state⟩⟩
    let calls : List (DocumentCall Record) :=
      [.fill [task false "draft"], update ⟨[1]⟩ (.ofList [("title", .string "plan")]),
        update ⟨[5]⟩ (.ofList [("done", .bool true)]),
        update ⟨[6]⟩ (.ofList [("done", .bool false), ("title", .string "final")])]
    let d : Document Record := callAll .empty calls
    0 < d.size ∧ ∃ t,
      d.rollbackInPlace 0 ⟨[2]⟩ = (.ok 2, { d with slots := d.slots.set 0 t }) ∧
        ∀ record ∈ t.undo, record.state.get 0 ≤ 2 := by
  intro task update calls d
  have inside : 0 < d.size := by decide +kernel
  obtain ⟨s, n, t, at_0, done, -, -, low, all⟩ := rollback_newest calls inside ⟨[2]⟩
  have among : s ∈ d.slots := List.mem_of_getElem? at_0
  have in_order : ∀ s ∈ d.slots, s.undo.Pairwise fun newer older =>
      PreImage.beyond 2 older → PreImage.beyond 2 newer := by decide +kernel
  have two : ∀ s ∈ d.slots, s.undo.countP (PreImage.beyond 2) = 2 := by decide +kernel
  obtain rfl : n = 2 := (all.mpr (in_order s among)).trans (two s among)
  exact ⟨inside, t, done, low.mpr (in_order s among)⟩

/-- An update made at state 5 stands below one made at state 1, and a rollback to state 2 leaves
both. -/
theorem rollback_stops_at_older :
    let task (done : Bool) (title : String) : Record :=
      ⟨"task", .ofList [("done", .bool done), ("title", .string title)]⟩
    let calls : List (DocumentCall Record) :=
      [.fill [task false "draft"],
        .apply ⟨.update 0 "task" (.ofList [("title", .string "final")]), some ⟨.ofNat 1, ⟨[5]⟩⟩⟩,
        .apply ⟨.update 0 "task" (.ofList [("done", .bool true)]), some ⟨.ofNat 2, ⟨[1]⟩⟩⟩]
    let d : Document Record := callAll .empty calls
    d.rollbackInPlace 0 ⟨[2]⟩ = (.ok 0, d) ∧
      d.slots.map (·.undo.countP (PreImage.beyond 2)) = [1] := by
  decide +kernel

end CoEdit
