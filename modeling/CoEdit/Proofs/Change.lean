import CoEdit.Policy
import CoEdit.Proofs.FieldWrites

/-!
# Changes of one element

Several sites change one element, not knowing of one another. The server takes the changes in one
after the other, and each is settled with what the earlier ones were settled to, pair by pair
(`Change.left`). Taken together the pairs come out as the policy says for all of them (`Merges`): a
deletion wins, then the first or last replacement, then for each field the first or last update that
names it.

The step (`Standing.step`) keeps what later changes depend on: whether there is a deletion or a
replacement among the settled forms, and which fields they name. These are the same as those of the
changes themselves, though under the policy of the first writer most of the forms are stripped or
cancelled.
-/

namespace CoEdit

open Element

variable {α : Type}

/-- Of several writes in the order in which the server takes them in, the one that prevails. -/
def Policy.pick {β : Type} : Policy → List β → Option β
  | .firstWriterWins, writes => writes.head?
  | .lastWriterWins, writes => writes.getLast?

/-- Which of two writes prevails, the earlier or the later one, where there are both. -/
def Policy.prefer {β : Type} : Policy → Option β → Option β → Option β
  | .firstWriterWins, earlier, later => earlier.or later
  | .lastWriterWins, earlier, later => later.or earlier

/-- What a site does to an element. -/
inductive Change (α : Type) where
  /-- takes it out -/
  | delete
  /-- puts another one in its place -/
  | replace (value : α)
  /-- overwrites some of its fields -/
  | update (tag : String) (delta : Fields)

namespace Change

/-- The change as an edit of the element at a position. -/
def edit (i : Nat) : Change α → Edit α
  | delete => .delete i
  | replace v => .replace i v
  | update tag delta => .update i tag delta

/-- The element that is put in place of the old one. -/
def value? : Change α → Option α
  | replace v => some v
  | _ => none

/-- What is written to a field. -/
def written? (f : String) : Change α → Option Value
  | update _ delta => delta.get? f
  | _ => none

/-- What is left of a change behind another one, if anything. -/
def after (policy : Policy) : Change α → Change α → Option (Change α)
  | _, delete => none
  | delete, _ => some delete
  | replace v, replace _ => if policy = .firstWriterWins then none else some (replace v)
  | replace v, update .. => some (replace v)
  | update .., replace _ => none
  | update tag delta, update _ taken =>
    if policy = .firstWriterWins then
      let rest := delta.filterKeys fun f => !taken.contains f
      if rest.isEmpty then none else some (update tag rest)
    else some (update tag delta)

/-- What is left of a change behind several others. -/
def left (policy : Policy) (c : Change α) (forms : List (Change α)) : Option (Change α) :=
  forms.foldlM (after policy) c

/-- Whether any of the changes writes to a field. -/
def names (forms : List (Change α)) (f : String) : Bool :=
  forms.any fun form => (form.written? f).isSome

/-- An update, whatever it writes. -/
def IsUpdate (c : Change α) : Prop := ∃ tag delta, c = update tag delta

end Change

/-- What becomes of an element by all changes of it; `none` if it is gone. -/
inductive Merges [Element α] (policy : Policy) (changes : List (Change α)) (e : α) :
    Option α → Prop where
  | deleted (gone : .delete ∈ changes) : Merges policy changes e none
  | replaced {v : α} (stays : .delete ∉ changes)
      (picked : policy.pick (changes.filterMap Change.value?) = some v) :
      Merges policy changes e (some v)
  | updated {written : Fields} (stays : .delete ∉ changes)
      (kept : changes.filterMap Change.value? = [])
      (picked : ∀ f, written.get? f = policy.pick (changes.filterMap (Change.written? f)))
      (fields : ∀ f, field? (setFields e written) f = (written.get? f).or (field? e f)) :
      Merges policy changes e (some (setFields e written))

section Settling

variable {policy : Policy} {c l : Change α} {forms : List (Change α)}

theorem Policy.pick_snoc {β : Type} (policy : Policy) (writes : List β) (write : Option β) :
    policy.pick (writes ++ write.toList) = policy.prefer (policy.pick writes) write := by
  cases policy <;> cases write <;> simp [pick, prefer]

namespace Change

theorem left_cons : left policy c (l :: forms) = (after policy c l).bind (left policy · forms) :=
  rfl

/-- A change that stays as it is behind each of the others. -/
theorem left_of_forall (h : ∀ l ∈ forms, after policy c l = some c) :
    left policy c forms = some c := by
  induction forms with
  | nil => rfl
  | cons l rest ih =>
    obtain ⟨first, others⟩ := List.forall_mem_cons.mp h
    rw [left_cons, first]
    exact ih others

/-- Of a kind of change nothing is left behind one that cancels it. -/
theorem left_of_mem (Kind : Change α → Prop)
    (closed : ∀ c l c', Kind c → after policy c l = some c' → Kind c') (among : l ∈ forms)
    (cancels : ∀ c, Kind c → after policy c l = none) (kind : Kind c) :
    left policy c forms = none := by
  induction forms generalizing c with
  | nil => cases among
  | cons first rest ih =>
    rw [left_cons]
    cases form : after policy c first with
    | none => rfl
    | some c' =>
      rcases List.mem_cons.mp among with rfl | later
      · rw [cancels c kind] at form
        cases form
      · exact ih later (closed c first c' kind form)

theorem left_of_deleted (h : .delete ∈ forms) (c : Change α) : left policy c forms = none := by
  refine left_of_mem (fun _ => True) (fun _ _ _ _ _ => trivial) h (fun c _ => ?_) trivial
  cases c <;> rfl

theorem left_delete (h : .delete ∉ forms) : left policy .delete forms = some .delete := by
  refine left_of_forall fun l among => ?_
  cases l with
  | delete => exact absurd among h
  | _ => rfl

/-- The first of several replacements cancels the others if the first writer wins. -/
theorem left_replace_of_mem {v w : α} (h : .replace w ∈ forms) :
    left .firstWriterWins (.replace v) forms = none := by
  refine left_of_mem (fun c => ∃ v, c = .replace v) ?_ h ?_ ⟨v, rfl⟩
  · rintro _ l c' ⟨v, rfl⟩ form
    cases l <;> cases form
    exact ⟨v, rfl⟩
  · rintro _ ⟨v, rfl⟩
    rfl

theorem left_replace_last {v : α} (h : .delete ∉ forms) :
    left .lastWriterWins (.replace v) forms = some (.replace v) := by
  refine left_of_forall fun l among => ?_
  cases l with
  | delete => exact absurd among h
  | _ => rfl

theorem left_replace_of_updates {v : α} (h : ∀ l ∈ forms, l.IsUpdate) :
    left policy (.replace v) forms = some (.replace v) := by
  refine left_of_forall fun l among => ?_
  obtain ⟨tag, delta, rfl⟩ := h l among
  rfl

theorem after_update_isUpdate {tag : String} {delta : Fields} {c' : Change α}
    (h : after policy (.update tag delta) l = some c') : c'.IsUpdate := by
  cases l with
  | update tag' taken =>
    simp only [after] at h
    split at h
    · split at h <;> cases h
      exact ⟨_, _, rfl⟩
    · cases h
      exact ⟨_, _, rfl⟩
  | _ => cases h

theorem left_update_of_replaced {tag : String} {delta : Fields} {w : α} (h : .replace w ∈ forms) :
    left policy (.update tag delta) forms = none := by
  refine left_of_mem IsUpdate ?_ h ?_ ⟨tag, delta, rfl⟩
  · rintro _ l c' ⟨_, _, rfl⟩ form
    exact after_update_isUpdate form
  · rintro _ ⟨_, _, rfl⟩
    rfl

theorem left_update_last {tag : String} {delta : Fields} (h : ∀ l ∈ forms, l.IsUpdate) :
    left .lastWriterWins (.update tag delta) forms = some (.update tag delta) := by
  refine left_of_forall fun l among => ?_
  obtain ⟨_, _, rfl⟩ := h l among
  rfl

/-- If the first writer wins, an update keeps the fields that no earlier one names, and is cancelled
if there are none. -/
theorem left_update_first {tag : String} {delta : Fields} (h : ∀ l ∈ forms, l.IsUpdate) :
    ∃ rest : Fields, (left .firstWriterWins (.update tag delta) forms = some (.update tag rest) ∨
        left .firstWriterWins (.update tag delta) forms = none ∧ rest = .empty) ∧
      ∀ f, rest.get? f = if names forms f then none else delta.get? f := by
  induction forms generalizing delta with
  | nil => exact ⟨delta, .inl rfl, fun _ => rfl⟩
  | cons l others ih =>
    obtain ⟨⟨tag', taken, rfl⟩, updates⟩ := List.forall_mem_cons.mp h
    let mid := delta.filterKeys fun f => !taken.contains f
    have stripped (f : String) :
        mid.get? f = if (taken.get? f).isSome then none else delta.get? f := by
      rw [SortedMap.get?_filterKeys, SortedMap.contains]
      cases (taken.get? f).isSome <;> rfl
    have named (f : String) : names (Change.update tag' taken :: others : List (Change α)) f =
        ((taken.get? f).isSome || names others f) := rfl
    by_cases empty : mid.isEmpty
    · refine ⟨.empty, .inr ⟨?_, rfl⟩, fun f => ?_⟩
      · simp only [left_cons, after, if_true]
        rw [if_pos empty]
        rfl
      · have none_left : mid = .empty := SortedMap.ext (List.isEmpty_iff.mp empty)
        have absent := stripped f
        rw [none_left] at absent
        rw [named]
        cases isTaken : (taken.get? f).isSome
        · rw [isTaken] at absent
          rw [← show none = delta.get? f from absent, ite_self]
          rfl
        · rfl
    · obtain ⟨rest, form, get⟩ := @ih mid updates
      have same : left .firstWriterWins (.update tag delta) (.update tag' taken :: others) =
          left .firstWriterWins (.update tag mid) others := by
        simp only [left_cons, after, if_true]
        rw [if_neg empty]
        rfl
      refine ⟨rest, same ▸ form, fun f => ?_⟩
      rw [get f, stripped f, named]
      cases (taken.get? f).isSome <;> simp

end Change

end Settling

/-- What a change, or what is left of it, makes of the element. -/
inductive Turns [Element α] (e : α) : Option (Change α) → Option α → Prop where
  | nothing : Turns e none (some e)
  | delete : Turns e (some .delete) none
  | replace (v : α) : Turns e (some (.replace v)) (some v)
  | update {tag : String} {delta : Fields} (accepts : Accepts e tag delta) :
      Turns e (some (.update tag delta)) (some (setFields e delta))

/-- The element has been updated only, and these are the fields written so far. The settled forms
name the same fields. -/
structure Updated [Element α] (policy : Policy) (changes : List (Change α)) (e : α)
    (forms : List (Change α)) (written : Fields) : Prop where
  stays : .delete ∉ changes
  kept : changes.filterMap Change.value? = []
  picked : ∀ f, written.get? f = policy.pick (changes.filterMap (Change.written? f))
  known : ∀ f, (written.get? f).isSome → (field? e f).isSome
  told : ∀ f, Change.names forms f = (written.get? f).isSome
  bare : ∀ form ∈ forms, form.IsUpdate

/-- What has become of the element so far, together with what the settled forms tell of it to the
changes that come later. -/
inductive Standing [Element α] (policy : Policy) (changes : List (Change α)) (e : α)
    (forms : List (Change α)) : Option α → Prop where
  | deleted (gone : .delete ∈ changes) (told : .delete ∈ forms) :
      Standing policy changes e forms none
  | replaced {v w : α} (stays : .delete ∉ changes)
      (picked : policy.pick (changes.filterMap Change.value?) = some v)
      (told : .replace w ∈ forms) (bare : .delete ∉ forms) :
      Standing policy changes e forms (some v)
  | updated {written : Fields} (h : Updated policy changes e forms written) :
      Standing policy changes e forms (some (setFields e written))

/-- An update, or what is left of it, writes its fields, which the element has. -/
theorem Turns.of_update [Element α] {e : α} {tag : String} {rest : Fields}
    {form : Option (Change α)} {outcome : Option α}
    (shape : form = some (.update tag rest) ∨ form = none ∧ rest = .empty)
    (turns : Turns e form outcome) :
    outcome = some (setFields e rest) ∧ ∀ f, (rest.get? f).isSome → (field? e f).isSome := by
  rcases shape with rfl | ⟨rfl, rfl⟩
  · cases turns with
    | update accepts =>
      refine ⟨rfl, fun f named => accepts.2 f ?_⟩
      rw [← SortedMap.contains_eq_true_iff]
      exact named
  · cases turns
    exact ⟨rfl, fun f named => by cases named⟩

section Step

variable [Element α] {policy : Policy} {changes forms : List (Change α)} {c : Change α} {e e' : α}
  {outcome : Option α}

/-- One more update. -/
theorem Updated.step {written rest delta : Fields} {tag tag' : String} {form : Option (Change α)}
    (h : Updated policy changes e forms written)
    (shape : form = some (.update tag' rest) ∨ form = none ∧ rest = .empty)
    (get : ∀ f, rest.get? f =
      if policy = .firstWriterWins ∧ Change.names forms f then none else delta.get? f)
    (accepted : ∀ f, (rest.get? f).isSome → (field? (setFields e written) f).isSome) :
    Updated policy (changes ++ [.update tag delta]) e (forms ++ form.toList)
      (written.overlaid rest) := by
  refine ⟨?_, ?_, fun f => ?_, fun f named => ?_, fun f => ?_, fun l among => ?_⟩
  · rw [List.mem_append, List.mem_singleton, not_or]
    exact ⟨h.stays, nofun⟩
  · rw [List.filterMap_append, h.kept]
    rfl
  · have last : [Change.update tag delta].filterMap (Change.written? f : Change α → Option Value) =
        (delta.get? f).toList := by
      cases value : delta.get? f <;> simp [Change.written?, value]
    rw [SortedMap.get?_overlaid, List.filterMap_append, last, Policy.pick_snoc, ← h.picked, get f,
      h.told f]
    cases policy <;> cases written.get? f <;> simp [Policy.prefer]
  · rw [SortedMap.get?_overlaid, Option.isSome_or, Bool.or_eq_true] at named
    rcases named with now | before
    · rw [← isSome_field?_setEntries written.entries]
      exact accepted f now
    · exact h.known f before
  · have last : Change.names form.toList f = (rest.get? f).isSome := by
      rcases shape with rfl | ⟨rfl, rfl⟩
      · exact Bool.or_false _
      · rfl
    rw [Change.names, List.any_append, ← Change.names, h.told, ← Change.names, last,
      SortedMap.get?_overlaid, Option.isSome_or, Bool.or_comm]
  · rcases List.mem_append.mp among with before | now
    · exact h.bare l before
    · rcases shape with rfl | ⟨rfl, rfl⟩
      · exact ⟨_, _, List.mem_singleton.mp now⟩
      · cases now

namespace Standing

theorem start (policy : Policy) (e : α) : Standing policy [] e [] (some e) := by
  have untouched : Updated policy [] e [] .empty := {
    stays := List.not_mem_nil
    kept := rfl
    picked := fun _ => by cases policy <;> rfl
    known := fun _ named => by cases named
    told := fun _ => rfl
    bare := nofun }
  exact .updated untouched

/-- The outcome is as the policy says. -/
theorem merges (h : Standing policy changes e forms outcome) : Merges policy changes e outcome := by
  cases h with
  | deleted gone told => exact .deleted gone
  | replaced stays picked told bare => exact .replaced stays picked
  | @updated written h =>
    refine .updated h.stays h.kept h.picked fun f => ?_
    rw [field?_setFields]
    cases value : written.get? f with
    | none => exact Option.map_id'
    | some v =>
      obtain ⟨old, there⟩ := Option.isSome_iff_exists.mp (h.known f (by rw [value]; rfl))
      rw [there]
      rfl

/-- Where the element is gone nothing is left of any later change. -/
theorem step_deleted (h : Standing policy changes e forms none) (c : Change α) :
    c.left policy forms = none ∧ Standing policy (changes ++ [c]) e forms none := by
  cases h with
  | deleted gone told =>
    exact ⟨Change.left_of_deleted told c, .deleted (List.mem_append_left _ gone) told⟩

/-- An element that is there has not been deleted, and no form says so. -/
theorem present (h : Standing policy changes e forms (some e')) :
    .delete ∉ changes ∧ .delete ∉ forms := by
  cases h with
  | replaced stays picked told bare => exact ⟨stays, bare⟩
  | updated h =>
    refine ⟨h.stays, fun among => ?_⟩
    obtain ⟨_, _, same⟩ := h.bare _ among
    cases same

theorem step_delete (h : Standing policy changes e forms (some e'))
    (turns : Turns e' (Change.left policy .delete forms) outcome) :
    Standing policy (changes ++ [.delete]) e (forms ++ (Change.left policy .delete forms).toList)
      outcome := by
  rw [Change.left_delete h.present.2] at turns ⊢
  cases turns
  exact .deleted (List.mem_append_right _ List.mem_cons_self)
    (List.mem_append_right _ List.mem_cons_self)

theorem step_replace {v : α} (h : Standing policy changes e forms (some e'))
    (turns : Turns e' (Change.left policy (.replace v) forms) outcome) :
    Standing policy (changes ++ [.replace v]) e
      (forms ++ (Change.left policy (.replace v) forms).toList) outcome := by
  have stays : .delete ∉ changes ++ [Change.replace v] := by
    rw [List.mem_append, List.mem_singleton, not_or]
    exact ⟨h.present.1, nofun⟩
  have bare : .delete ∉ forms ++ [Change.replace v] := by
    rw [List.mem_append, List.mem_singleton, not_or]
    exact ⟨h.present.2, nofun⟩
  have values : policy.pick ((changes ++ [Change.replace v]).filterMap Change.value?) =
      policy.prefer (policy.pick (changes.filterMap Change.value?)) (some v) := by
    rw [List.filterMap_append]
    exact policy.pick_snoc _ (some v)
  cases h with
  | @replaced e' w _ picked told none_before =>
    cases policy with
    | firstWriterWins =>
      rw [Change.left_replace_of_mem told] at turns ⊢
      cases turns
      rw [picked] at values
      rw [Option.toList_none, List.append_nil]
      exact .replaced stays values told none_before
    | lastWriterWins =>
      rw [Change.left_replace_last none_before] at turns ⊢
      cases turns
      exact .replaced stays values (List.mem_append_left _ told) bare
  | updated h =>
    rw [Change.left_replace_of_updates h.bare] at turns ⊢
    cases turns
    refine .replaced stays ?_ (List.mem_append_right _ List.mem_cons_self) bare
    rw [values, h.kept]
    cases policy <;> rfl

theorem step_update {tag : String} {delta : Fields}
    (h : Standing policy changes e forms (some e'))
    (turns : Turns e' (Change.left policy (.update tag delta) forms) outcome) :
    Standing policy (changes ++ [.update tag delta]) e
      (forms ++ (Change.left policy (.update tag delta) forms).toList) outcome := by
  cases h with
  | replaced stays picked told bare =>
    rw [Change.left_update_of_replaced told] at turns ⊢
    cases turns
    rw [Option.toList_none, List.append_nil]
    refine .replaced ?_ ?_ told bare
    · rw [List.mem_append, List.mem_singleton, not_or]
      exact ⟨stays, nofun⟩
    · rw [List.filterMap_append]
      exact (congrArg policy.pick (List.append_nil _)).trans picked
  | updated h =>
    obtain ⟨rest, shape, get⟩ : ∃ rest : Fields,
        (Change.left policy (.update tag delta) forms = some (.update tag rest) ∨
          Change.left policy (.update tag delta) forms = none ∧ rest = .empty) ∧
        ∀ f, rest.get? f =
          if policy = .firstWriterWins ∧ Change.names forms f then none else delta.get? f := by
      cases policy with
      | firstWriterWins => simpa using Change.left_update_first h.bare
      | lastWriterWins => exact ⟨delta, .inl (Change.left_update_last h.bare), fun _ => rfl⟩
    obtain ⟨rfl, accepted⟩ := turns.of_update shape
    rw [← setFields_overlaid]
    exact .updated (h.step shape get accepted)

/-- One more change of an element that is there. -/
theorem step (h : Standing policy changes e forms (some e'))
    (turns : Turns e' (c.left policy forms) outcome) :
    Standing policy (changes ++ [c]) e (forms ++ (c.left policy forms).toList) outcome := by
  cases c with
  | delete => exact h.step_delete turns
  | replace v => exact h.step_replace turns
  | update tag delta => exact h.step_update turns

end Standing

end Step

end CoEdit
