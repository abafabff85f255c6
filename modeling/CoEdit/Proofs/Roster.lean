import CoEdit.Cursor
import CoEdit.Proofs.InPlace
import Mathlib.Data.List.InsertIdx
import Mathlib.Data.List.Nodup

/-!
# Elements by name

Positions shift with every insertion and deletion, so what a cursor should do is said of elements
and not of positions. A roster names the elements of a document in order. A name is given once: an
element gets it on the way in, keeps it when it is replaced or updated, and takes it along on the
way out.

What one edit does to a roster and to a cursor inside of it is one of seven things
(`Roster.Passes`), and all that is known of cursors is read off there. A cursor stays inside, and
one behind the last element stays behind it. While nothing is deleted under a cursor, it stays at
its element, and nothing gets past it: of the elements up to the cursor those that were there before
are those that are still there (`Roster.followAll_holds`).
-/

namespace CoEdit

variable {α : Type}

/-- The edit has a place in a sequence of `size` elements. -/
def Shape.Fits (size : Nat) : Shape → Prop
  | .noop => True
  | .insert p => p ≤ size
  | .update p | .delete p => p < size

namespace Edit

/-- The edit deletes what stands at a position. -/
def deletesAt (edit : Edit α) (position : Int) : Bool :=
  match edit.shape with
  | .delete p => (p : Int) = position
  | _ => false

/-- The edit replaces or updates what stands at a position. -/
def updatesAt (edit : Edit α) (position : Int) : Bool :=
  match edit.shape with
  | .update p => (p : Int) = position
  | _ => false

end Edit

namespace Cursor

/-- Follows operations that were applied one after the other. -/
def followAll (c : Cursor) (ops : List (Operation α)) : Cursor :=
  ops.foldl (fun c op => c.follow op.edit) c

/-- No operation deletes what the cursor stands on by then. -/
def spared (c : Cursor) : List (Operation α) → Bool
  | [] => true
  | op :: rest => !op.edit.deletesAt c.position && (c.follow op.edit).spared rest

@[simp] theorem followAll_nil (c : Cursor) : c.followAll ([] : List (Operation α)) = c := rfl

@[simp] theorem followAll_cons (c : Cursor) (op : Operation α) (ops : List (Operation α)) :
    c.followAll (op :: ops) = (c.follow op.edit).followAll ops := rfl

theorem followAll_append (c : Cursor) (ops more : List (Operation α)) :
    c.followAll (ops ++ more) = (c.followAll ops).followAll more :=
  List.foldl_append

end Cursor

/-- The elements of a document by name, in order, and the next name to be given. -/
structure Roster where
  names : List Nat
  next : Nat
  given : ∀ name ∈ names, name < next
  distinct : names.Nodup

namespace Roster

/-- A document whose elements are named by the positions at which they stand. -/
def ofSize (size : Nat) : Roster :=
  ⟨List.range size, size, fun _ => List.mem_range.mp, List.nodup_range⟩

/-- An element comes in. -/
def enter (r : Roster) (p : Nat) : Roster where
  names := r.names.insertIdx p r.next
  next := r.next + 1
  given name among := by
    rcases List.eq_or_mem_of_mem_insertIdx among with rfl | there
    · exact Nat.lt_succ_self _
    · exact Nat.lt_succ_of_lt (r.given name there)
  distinct := by
    have new : r.next ∉ r.names := fun there => Nat.lt_irrefl _ (r.given _ there)
    by_cases inside : p ≤ r.names.length
    · exact (List.perm_insertIdx r.next r.names inside).nodup_iff.mpr
        (List.nodup_cons.mpr ⟨new, r.distinct⟩)
    · rw [List.insertIdx_of_length_lt (Nat.lt_of_not_le inside)]
      exact r.distinct

/-- An element goes out. -/
def strike (r : Roster) (p : Nat) : Roster where
  names := r.names.eraseIdx p
  next := r.next
  given name among := r.given name ((List.eraseIdx_sublist ..).subset among)
  distinct := r.distinct.sublist (List.eraseIdx_sublist ..)

/-- The roster after an edit. -/
def follow (r : Roster) (edit : Edit α) : Roster :=
  match edit.shape with
  | .insert p => r.enter p
  | .delete p => r.strike p
  | .noop | .update _ => r

/-- The roster after some operations. -/
def followAll (r : Roster) (ops : List (Operation α)) : Roster :=
  ops.foldl (fun r op => r.follow op.edit) r

/-- The name at a position; there is none outside of the document. -/
def at? (r : Roster) (position : Int) : Option Nat :=
  if 0 ≤ position then r.names[position.toNat]? else none

/-- The element with a name is replaced or updated by an edit. -/
def revises (r : Roster) (name : Nat) (edit : Edit α) : Bool :=
  match edit.shape with
  | .update p => r.names[p]? = some name
  | _ => false

/-- The element with a name is replaced or updated by one of some operations. -/
def changes (r : Roster) (name : Nat) : List (Operation α) → Bool
  | [] => false
  | op :: rest => r.revises name op.edit || (r.follow op.edit).changes name rest

/-- The operations fit one after the other, and there are never more elements than a signed word
can count. -/
def Allows (r : Roster) : List (Operation α) → Prop
  | [] => True
  | op :: rest => op.edit.shape.Fits r.names.length ∧ r.names.length < Word.signBit ∧
      (r.follow op.edit).Allows rest

/-- The names up to a position and at it. -/
def front (r : Roster) (i : Nat) : List Nat := r.names.take (i + 1)

/-- The element at index `i` is later at `i'`, and nothing got past it: of the elements up to it,
those that were there before are those that are there still. -/
structure Holds (r : Roster) (i : Nat) (r' : Roster) (i' : Nat) : Prop where
  name : r'.names[i']? = r.names[i]?
  front : (r'.front i').filter (· ∈ r.names) = (r.front i).filter (· ∈ r'.names)

variable {r r' r'' : Roster} {c c' : Cursor} {i : Nat} {op : Operation α}
  {ops : List (Operation α)}

@[simp] theorem at?_natCast (r : Roster) (i : Nat) : r.at? (i : Int) = r.names[i]? := rfl

@[simp] theorem followAll_nil (r : Roster) : r.followAll ([] : List (Operation α)) = r := rfl

@[simp] theorem followAll_cons (r : Roster) (op : Operation α) (ops : List (Operation α)) :
    r.followAll (op :: ops) = (r.follow op.edit).followAll ops := rfl

theorem followAll_append (r : Roster) (ops more : List (Operation α)) :
    r.followAll (ops ++ more) = (r.followAll ops).followAll more :=
  List.foldl_append

theorem next_notMem (r : Roster) : r.next ∉ r.names :=
  fun there => Nat.lt_irrefl _ (r.given _ there)

theorem mem_strike {p name : Nat} :
    name ∈ (r.strike p).names ↔ name ∈ r.names ∧ r.names[p]? ≠ some name := by
  constructor
  · intro among
    obtain ⟨j, elsewhere, at_j⟩ := List.mem_eraseIdx_iff_getElem?.mp among
    refine ⟨List.mem_of_getElem? at_j, fun at_p => elsewhere ?_⟩
    have inside := (List.getElem?_eq_some_iff.mp at_j).1
    exact (List.getElem?_inj inside r.distinct).mp (at_j.trans at_p.symm)
  · rintro ⟨among, elsewhere⟩
    obtain ⟨j, at_j⟩ := List.mem_iff_getElem?.mp among
    refine List.mem_eraseIdx_iff_getElem?.mpr ⟨j, ?_, at_j⟩
    rintro rfl
    exact elsewhere at_j

/-- No name comes back: what was given before and is there after an edit was there before it. -/
theorem mem_of_mem_follow {name : Nat} (old : name < r.next)
    (among : name ∈ (r.follow op.edit).names) : name ∈ r.names := by
  simp only [follow] at among
  cases shape : op.edit.shape with simp only [shape] at among
  | noop | update p => exact among
  | insert p =>
    rcases List.eq_or_mem_of_mem_insertIdx among with rfl | there
    · exact absurd old (Nat.lt_irrefl _)
    · exact there
  | delete p => exact (mem_strike.mp among).1

theorem next_le_follow (r : Roster) (op : Operation α) : r.next ≤ (r.follow op.edit).next := by
  simp only [follow]
  cases op.edit.shape with
  | insert p => exact Nat.le_succ _
  | noop | update p | delete p => exact Nat.le_refl _

theorem next_le_followAll (r : Roster) (ops : List (Operation α)) :
    r.next ≤ (r.followAll ops).next := by
  induction ops generalizing r with
  | nil => exact Nat.le_refl _
  | cons op rest ih => exact Nat.le_trans (r.next_le_follow op) (ih _)

theorem mem_of_mem_followAll {name : Nat} (old : name < r.next)
    (among : name ∈ (r.followAll ops).names) : name ∈ r.names := by
  induction ops generalizing r with
  | nil => exact among
  | cons op rest ih =>
    exact mem_of_mem_follow old (ih (Nat.lt_of_lt_of_le old (r.next_le_follow op)) among)

/-- What an edit that fits does to a roster and to a cursor at index `i` in it. -/
inductive Passes (r : Roster) (i : Nat) (c : Cursor) : Shape → Roster → Cursor → Prop where
  | nothing : Passes r i c .noop r c
  | changesOther {p : Nat} (other : p ≠ i) : Passes r i c (.update p) r c
  | changes : Passes r i c (.update i) r { c with status := .updated }
  | entersBefore {p : Nat} (before : p ≤ i) :
      Passes r i c (.insert p) (r.enter p) { c with position := (i + 1 : Nat) }
  | entersBehind {p : Nat} (behind : i < p) (inside : p ≤ r.names.length) :
      Passes r i c (.insert p) (r.enter p) c
  | leavesBefore {p : Nat} (before : p < i) :
      Passes r i c (.delete p) (r.strike p) { c with position := (i - 1 : Nat) }
  | leavesBehind {p : Nat} (behind : i < p) (inside : p < r.names.length) :
      Passes r i c (.delete p) (r.strike p) c
  | leaves (inside : i < r.names.length) :
      Passes r i c (.delete i) (r.strike i) { c with status := .deleted }

theorem passes_follow (at_i : c.position = i) (fits : op.edit.shape.Fits r.names.length)
    (room : r.names.length < Word.signBit) :
    r.Passes i c op.edit.shape (r.follow op.edit) (c.follow op.edit) := by
  simp only [follow, Cursor.follow]
  cases shape : op.edit.shape with simp only [shape, Shape.Fits] at fits ⊢
  | noop => exact .nothing
  | insert p =>
    rw [Cursor.signed_of_lt (by omega)]
    by_cases before : p ≤ i
    · rw [if_pos (by omega), show c.position + 1 = (i + 1 : Nat) by omega]
      exact .entersBefore before
    · rw [if_neg (by omega)]
      exact .entersBehind (by omega) fits
  | delete p =>
    rw [Cursor.signed_of_lt (by omega)]
    rcases Nat.lt_trichotomy p i with before | rfl | behind
    · rw [if_pos (by omega), show c.position - 1 = (i - 1 : Nat) by omega]
      exact .leavesBefore before
    · rw [if_neg (by omega), if_pos at_i.symm]
      exact .leaves fits
    · rw [if_neg (by omega), if_neg (by omega)]
      exact .leavesBehind behind fits
  | update p =>
    rw [Cursor.signed_of_lt (by omega)]
    by_cases here : p = i
    · subst here
      rw [if_pos at_i.symm]
      exact .changes
    · rw [if_neg (by omega)]
      exact .changesOther here

section Lists

variable {β : Type} {xs : List β} {x : β} {p j : Nat}

theorem take_succ_insertIdx (before : p ≤ j) (xs : List β) (x : β) :
    (xs.insertIdx p x).take (j + 1) = (xs.take j).insertIdx p x := by
  induction p generalizing xs j with
  | zero => rfl
  | succ p ih =>
    obtain ⟨j, rfl⟩ := Nat.exists_eq_add_of_lt before
    cases xs with
    | nil => rfl
    | cons y ys => exact congrArg (y :: ·) (ih (by omega) ys)

theorem take_eraseIdx (before : p ≤ j) (xs : List β) :
    (xs.eraseIdx p).take j = (xs.take (j + 1)).eraseIdx p := by
  induction p generalizing xs j with
  | zero =>
    cases xs with
    | nil => rw [List.eraseIdx_nil, List.take_nil, List.take_nil, List.eraseIdx_nil]
    | cons y ys => rfl
  | succ p ih =>
    obtain ⟨j, rfl⟩ := Nat.exists_eq_add_of_lt before
    cases xs with
    | nil => rfl
    | cons y ys => exact congrArg (y :: ·) (ih (by omega) ys)

theorem filter_insertIdx (keep : β → Bool) (skipped : keep x = false) (p : Nat) (xs : List β) :
    (xs.insertIdx p x).filter keep = xs.filter keep := by
  induction p generalizing xs with
  | zero => exact List.filter_cons_of_neg (Bool.eq_false_iff.mp skipped)
  | succ p ih =>
    cases xs with
    | nil => rfl
    | cons y ys => simp only [List.insertIdx_succ_cons, List.filter_cons, ih]

theorem filter_mem_eq_self [DecidableEq β] {xs ys : List β} (known : xs ⊆ ys) :
    xs.filter (· ∈ ys) = xs :=
  List.filter_eq_self.mpr fun _ among => decide_eq_true (known among)

end Lists

section Steps

variable {shape : Shape}

/-- A cursor stays inside. -/
theorem Passes.inside (h : r.Passes i c shape r' c') (at_i : c.position = i)
    (inside : i ≤ r.names.length) :
    ∃ i' : Nat, c'.position = i' ∧ i' ≤ r'.names.length := by
  cases h with
  | nothing | changesOther other | changes => exact ⟨i, at_i, inside⟩
  | entersBefore before =>
    refine ⟨i + 1, rfl, ?_⟩
    rw [enter, List.length_insertIdx_of_le_length (by omega)]
    omega
  | entersBehind behind fits =>
    refine ⟨i, at_i, ?_⟩
    rw [enter, List.length_insertIdx_of_le_length fits]
    omega
  | leavesBefore before =>
    refine ⟨i - 1, rfl, ?_⟩
    rw [strike, List.length_eraseIdx_of_lt (by omega)]
    omega
  | leavesBehind behind fits =>
    refine ⟨i, at_i, ?_⟩
    rw [strike, List.length_eraseIdx_of_lt fits]
    omega
  | leaves fits =>
    refine ⟨i, at_i, ?_⟩
    rw [strike, List.length_eraseIdx_of_lt fits]
    omega

/-- Behind the last element a cursor stays behind the last element, and no edit marks it. -/
theorem Passes.atEnd (h : r.Passes r.names.length c shape r' c')
    (fits : shape.Fits r.names.length) (at_end : c.position = r.names.length) :
    c'.position = r'.names.length ∧ c'.status = c.status := by
  cases h with
  | nothing | changesOther other => exact ⟨at_end, rfl⟩
  | changes => exact absurd fits (Nat.lt_irrefl _)
  | entersBefore before =>
    rw [enter, List.length_insertIdx_of_le_length before]
    exact ⟨rfl, rfl⟩
  | entersBehind behind inside => omega
  | leavesBefore before =>
    rw [strike, List.length_eraseIdx_of_lt before]
    exact ⟨rfl, rfl⟩
  | leavesBehind behind inside => omega
  | leaves inside => omega

/-- If its element goes out, a cursor is at the one behind it. -/
theorem Passes.lost (h : r.Passes i c (.delete i) r' c') :
    c' = { c with status := .deleted } ∧ r'.names[i]? = r.names[i + 1]? := by
  cases h with
  | leavesBefore before => omega
  | leavesBehind behind inside => omega
  | leaves inside => exact ⟨rfl, List.getElem?_eraseIdx_of_ge (Nat.le_refl i)⟩

/-- Otherwise a cursor stays at its element, and is marked if that changes. -/
theorem Passes.held (h : r.Passes i c shape r' c') (at_i : c.position = i)
    (inside : i < r.names.length) (stays : shape ≠ .delete i) :
    ∃ i' : Nat, c'.position = i' ∧ r.Holds i r' i' ∧
      c'.status = if shape = .update i then .updated else c.status := by
  have known : r.front i ⊆ r.names := List.take_subset ..
  -- an edit behind the cursor leaves the front as it is, and takes none of it away
  have untouched : r'.front i = r.front i → (r'.front i).filter (· ∈ r.names) =
      (r.front i).filter (· ∈ r'.names) := by
    intro same
    have there : r.front i ⊆ r'.names := same ▸ List.take_subset ..
    rw [same, filter_mem_eq_self known, filter_mem_eq_self there]
  cases h with
  | nothing => exact ⟨i, at_i, ⟨rfl, rfl⟩, rfl⟩
  | changesOther other => exact ⟨i, at_i, ⟨rfl, rfl⟩, by simp [other]⟩
  | changes => exact ⟨i, at_i, ⟨rfl, rfl⟩, by simp⟩
  | @entersBefore p before =>
    refine ⟨i + 1, rfl, ⟨List.getElem?_insertIdx_of_gt (by omega), ?_⟩, rfl⟩
    have there : r.front i ⊆ (r.enter p).names := fun _ among =>
      List.subset_insertIdx _ _ _ (known among)
    have new : decide (r.next ∈ r.names) = false := decide_eq_false r.next_notMem
    have longer : (r.enter p).front (i + 1) = (r.front i).insertIdx p r.next :=
      take_succ_insertIdx (by omega) ..
    rw [filter_mem_eq_self there, longer, filter_insertIdx (fun name => name ∈ r.names) new,
      filter_mem_eq_self known]
  | @entersBehind p behind fits =>
    exact ⟨i, at_i, ⟨List.getElem?_insertIdx_of_lt behind,
      untouched (List.take_insertIdx_eq_take_of_le _ _ _ _ behind)⟩, rfl⟩
  | @leavesBefore p before =>
    have at_p : p < (r.front i).length := by
      simp only [front, List.length_take]
      omega
    refine ⟨i - 1, rfl, ⟨?_, ?_⟩, rfl⟩
    · rw [strike, List.getElem?_eraseIdx_of_ge (by omega), Nat.sub_add_cancel (by omega)]
    · have shorter : (r.strike p).front (i - 1) = (r.front i).eraseIdx p := by
        rw [front, strike, Nat.sub_add_cancel (by omega), take_eraseIdx (by omega)]
        rfl
      have left : ∀ name ∈ r.front i,
          decide (name ∈ (r.strike p).names) = (name != (r.front i)[p]) := by
        intro name among
        have here : r.names[p]? = some (r.front i)[p] := by
          rw [← List.getElem?_eq_getElem at_p, front, List.getElem?_take_of_lt (by omega)]
        rw [Bool.eq_iff_iff, decide_eq_true_iff, bne_iff_ne, mem_strike, here]
        exact ⟨fun h same => h.2 (congrArg some same.symm),
          fun other => ⟨known among, fun same => other (Option.some.inj same).symm⟩⟩
      have distinct : (r.front i).Nodup := r.distinct.sublist (List.take_sublist ..)
      rw [shorter, List.filter_congr left, ← distinct.erase_eq_filter, distinct.erase_getElem]
      exact filter_mem_eq_self fun _ among => known ((List.eraseIdx_sublist ..).subset among)
  | @leavesBehind p behind fits =>
    exact ⟨i, at_i, ⟨List.getElem?_eraseIdx_of_lt behind,
      untouched (List.take_eraseIdx_eq_take_of_le _ _ _ behind)⟩, rfl⟩
  | leaves inside => exact absurd rfl stays

end Steps

/-- A cursor that is inside stays inside. -/
theorem followAll_inside (allows : r.Allows ops) (at_i : c.position = i)
    (inside : i ≤ r.names.length) :
    ∃ i' : Nat, (c.followAll ops).position = i' ∧ i' ≤ (r.followAll ops).names.length := by
  induction ops generalizing r c i with
  | nil => exact ⟨i, at_i, inside⟩
  | cons op rest ih =>
    obtain ⟨fits, room, allows⟩ := allows
    obtain ⟨i', at_i', inside'⟩ := (passes_follow at_i fits room).inside at_i inside
    exact ih allows at_i' inside'

/-- A cursor behind the last element stays there. -/
theorem followAll_atEnd (allows : r.Allows ops) (at_end : c.position = r.names.length) :
    (c.followAll ops).position = (r.followAll ops).names.length ∧
      (c.followAll ops).status = c.status := by
  induction ops generalizing r c with
  | nil => exact ⟨at_end, rfl⟩
  | cons op rest ih =>
    obtain ⟨fits, room, allows⟩ := allows
    obtain ⟨at_end', status⟩ := (passes_follow at_end fits room).atEnd fits at_end
    obtain ⟨position, status'⟩ := ih allows at_end'
    exact ⟨position, status'.trans status⟩

theorem deletesAt_eq_true_iff {edit : Edit α} :
    edit.deletesAt i = true ↔ edit.shape = .delete i := by
  simp only [Edit.deletesAt]
  cases edit.shape with
  | noop | insert p | update p => simp
  | delete p =>
    rw [decide_eq_true_iff, Shape.delete.injEq]
    omega

theorem revises_eq_true_iff {edit : Edit α} {name : Nat} (at_i : r.names[i]? = some name) :
    r.revises name edit = true ↔ edit.shape = .update i := by
  simp only [revises]
  cases edit.shape with
  | noop | insert p | delete p => simp
  | update p =>
    rw [decide_eq_true_iff, Shape.update.injEq]
    constructor
    · intro at_p
      have inside := (List.getElem?_eq_some_iff.mp at_p).1
      exact (List.getElem?_inj inside r.distinct).mp (at_p.trans at_i.symm)
    · rintro rfl
      exact at_i

theorem Holds.trans {i' i'' : Nat} (h : r.Holds i r' i') (h' : r'.Holds i' r'' i'')
    (meanwhile : ∀ name ∈ r.names, name ∈ r''.names → name ∈ r'.names) : r.Holds i r'' i'' := by
  refine ⟨h'.name.trans h.name, ?_⟩
  calc (r''.front i'').filter (· ∈ r.names)
    _ = ((r''.front i'').filter (· ∈ r'.names)).filter (· ∈ r.names) := by
      rw [List.filter_filter]
      refine List.filter_congr fun name among => ?_
      have later : name ∈ r''.names := List.mem_of_mem_take among
      rw [Bool.eq_iff_iff]
      simpa using fun before => meanwhile name before later
    _ = ((r'.front i').filter (· ∈ r''.names)).filter (· ∈ r.names) := by rw [h'.front]
    _ = ((r'.front i').filter (· ∈ r.names)).filter (· ∈ r''.names) := List.filter_comm ..
    _ = ((r.front i).filter (· ∈ r'.names)).filter (· ∈ r''.names) := by rw [h.front]
    _ = (r.front i).filter (· ∈ r''.names) := by
      rw [List.filter_filter]
      refine List.filter_congr fun name among => ?_
      have before : name ∈ r.names := List.mem_of_mem_take among
      rw [Bool.eq_iff_iff]
      simpa using fun later => meanwhile name before later

/-- A cursor under which nothing is deleted stays at its element, and is marked if that changes. -/
theorem followAll_holds {name : Nat} (allows : r.Allows ops) (at_i : c.position = i)
    (at_name : r.names[i]? = some name) (spared : c.spared ops) :
    ∃ i' : Nat, (c.followAll ops).position = i' ∧ r.Holds i (r.followAll ops) i' ∧
      (c.followAll ops).status = if r.changes name ops then .updated else c.status := by
  induction ops generalizing r c i with
  | nil => exact ⟨i, at_i, ⟨rfl, rfl⟩, rfl⟩
  | cons op rest ih =>
    obtain ⟨fits, room, allows⟩ := allows
    rw [Cursor.spared, Bool.and_eq_true, Bool.not_eq_true'] at spared
    obtain ⟨first, spared⟩ := spared
    have stays : op.edit.shape ≠ .delete i := fun deletes => by
      rw [at_i, deletesAt_eq_true_iff.mpr deletes] at first
      cases first
    have inside := (List.getElem?_eq_some_iff.mp at_name).1
    obtain ⟨i', at_i', holds, status⟩ := (passes_follow at_i fits room).held at_i inside stays
    obtain ⟨i'', at_i'', holds', status'⟩ := ih allows at_i' (holds.name.trans at_name) spared
    refine ⟨i'', at_i'', holds.trans holds' ?_, ?_⟩
    · intro name' before later
      exact mem_of_mem_followAll
        (Nat.lt_of_lt_of_le (r.given _ before) (r.next_le_follow op)) later
    · rw [Cursor.followAll_cons, status', status, changes]
      by_cases now : op.edit.shape = .update i
      · simp [now, (revises_eq_true_iff at_name).mpr now]
      · simp [now, Bool.eq_false_iff.mpr (mt (revises_eq_true_iff at_name).mp now)]

/-- If its element is still there, nothing was deleted under a cursor. -/
theorem spared_of_mem {name : Nat} (allows : r.Allows ops) (at_i : c.position = i)
    (at_name : r.names[i]? = some name) (there : name ∈ (r.followAll ops).names) :
    c.spared ops := by
  induction ops generalizing r c i with
  | nil => rfl
  | cons op rest ih =>
    obtain ⟨fits, room, allows⟩ := allows
    have known := r.given name (List.mem_of_getElem? at_name)
    have next : name ∈ (r.follow op.edit).names :=
      mem_of_mem_followAll (Nat.lt_of_lt_of_le known (r.next_le_follow op)) there
    have stays : op.edit.shape ≠ .delete i := fun deletes => by
      simp only [follow, deletes] at next
      exact (mem_strike.mp next).2 at_name
    have inside := (List.getElem?_eq_some_iff.mp at_name).1
    obtain ⟨i', at_i', holds, -⟩ := (passes_follow at_i fits room).held at_i inside stays
    rw [Cursor.spared, Bool.and_eq_true, Bool.not_eq_true', at_i]
    exact ⟨Bool.eq_false_iff.mpr (mt deletesAt_eq_true_iff.mp stays),
      ih allows at_i' (holds.name.trans at_name) there⟩

/-- The names are those of the elements of a document. -/
def Lists (r : Roster) (d : Document α) : Prop := r.names.length = d.size

theorem lists_ofSize (d : Document α) : (ofSize d.size).Lists d := List.length_range

section Documents

variable [Element α] {d d' : Document α}

theorem Lists.fits (h : r.Lists d) (applied : d.apply op = .ok d') :
    op.edit.shape.Fits r.names.length := by
  have does := Document.apply_eq_ok_iff.mp applied
  rw [h]
  cases edit : op.edit with simp only [edit, Edit.shape, Shape.Fits] at does ⊢
  | insert p v | delete p | replace p v => exact does.1
  | update p tag delta =>
    obtain ⟨slot, stamp, at_p, -⟩ := does
    exact (List.getElem?_eq_some_iff.mp at_p).1

theorem Lists.apply (h : r.Lists d) (applied : d.apply op = .ok d') :
    (r.follow op.edit).Lists d' := by
  have does := Document.apply_eq_ok_iff.mp applied
  simp only [Lists, Document.size] at h ⊢
  cases edit : op.edit with simp only [edit, follow, Edit.shape] at does ⊢
  | noop =>
    subst does
    exact h
  | insert p v =>
    obtain ⟨inside, rfl⟩ := does
    rw [enter, List.length_insertIdx_of_le_length inside,
      List.length_insertIdx_of_le_length (h ▸ inside), h]
  | delete p =>
    obtain ⟨inside, rfl⟩ := does
    rw [strike, List.length_eraseIdx_of_lt inside, List.length_eraseIdx_of_lt (h ▸ inside), h]
  | replace p v =>
    obtain ⟨-, rfl⟩ := does
    rw [h, List.length_set]
  | update p tag delta =>
    obtain ⟨slot, stamp, -, -, -, rfl⟩ := does
    rw [h, List.length_set]

end Documents

end Roster

namespace Document

variable [Element α] {d d' : Document α} {op : Operation α} {ops : List (Operation α)}
  {r : Roster}

theorem applyAll_cons_eq_ok :
    d.applyAll (op :: ops) = .ok d' ↔ ∃ mid, d.apply op = .ok mid ∧ mid.applyAll ops = .ok d' := by
  simp only [applyAll, bind]
  cases d.apply op <;> simp [Except.bind]

/-- While operations are applied there are never more elements than a signed word can count, as it
is with sequences that are held in memory. -/
def Addressable (d : Document α) (ops : List (Operation α)) : Prop :=
  ∀ before d', before <+: ops → d.applyAll before = .ok d' → d'.size < Word.signBit

theorem Addressable.head (h : d.Addressable ops) : d.size < Word.signBit :=
  h [] d List.nil_prefix rfl

theorem Addressable.tail (h : d.Addressable (op :: ops)) (applied : d.apply op = .ok d') :
    d'.Addressable ops := by
  intro before last ahead all
  exact h (op :: before) last (List.cons_prefix_cons.mpr ⟨rfl, ahead⟩)
    (applyAll_cons_eq_ok.mpr ⟨d', applied, all⟩)

theorem size_apply_le (applied : d.apply op = .ok d') : d'.size ≤ d.size + 1 := by
  have does := apply_eq_ok_iff.mp applied
  simp only [size]
  cases edit : op.edit with simp only [edit] at does
  | noop =>
    subst does
    omega
  | insert p v =>
    obtain ⟨inside, rfl⟩ := does
    exact Nat.le_of_eq (List.length_insertIdx_of_le_length inside _)
  | delete p =>
    obtain ⟨inside, rfl⟩ := does
    rw [List.length_eraseIdx_of_lt inside]
    omega
  | replace p v =>
    obtain ⟨-, rfl⟩ := does
    rw [List.length_set]
    omega
  | update p tag delta =>
    obtain ⟨slot, stamp, -, -, -, rfl⟩ := does
    rw [List.length_set]
    omega

/-- An operation brings in one element at most, so it takes many of them to leave a signed word. -/
theorem addressable_of_length (room : d.size + ops.length < Word.signBit) :
    d.Addressable ops := by
  intro before last ahead applied
  have grown : last.size ≤ d.size + before.length := by
    clear ahead room
    induction before generalizing d with
    | nil =>
      cases applied
      exact Nat.le_add_right ..
    | cons op rest ih =>
      obtain ⟨mid, first, later⟩ := applyAll_cons_eq_ok.mp applied
      have one := size_apply_le first
      have others := ih later
      rw [List.length_cons]
      omega
  have shorter := ahead.length_le
  omega

/-- Operations that are applied to a document fit in its roster, and the roster stays its roster. -/
theorem allows_of_applyAll (lists : r.Lists d) (addressable : d.Addressable ops)
    (applied : d.applyAll ops = .ok d') : r.Allows ops ∧ (r.followAll ops).Lists d' := by
  induction ops generalizing d r with
  | nil =>
    cases applied
    exact ⟨trivial, lists⟩
  | cons op rest ih =>
    obtain ⟨mid, first, rest_applied⟩ := applyAll_cons_eq_ok.mp applied
    obtain ⟨allows, last⟩ := ih (lists.apply first) (addressable.tail first) rest_applied
    exact ⟨⟨lists.fits first, lists.symm ▸ addressable.head, allows⟩, last⟩

end Document

end CoEdit
