import CoEdit.LocalCopy
import Mathlib.Data.List.InsertIdx

/-!
# Effects on the elements

What operations do to the elements of a document, without the pre-images that its slots keep.
Whether an operation is accepted, and which elements it leaves behind, depends on the elements
alone (`toOption_apply`), so convergence is studied on plain lists.
-/

namespace CoEdit

variable {α : Type}

namespace Element

variable [Element α]

/-- The entity has the tag and every field that an update names. -/
def Accepts (e : α) (tag : String) (delta : Fields) : Prop :=
  typeTag e = tag ∧ ∀ f ∈ delta.keys, (field? e f).isSome

instance (e : α) (tag : String) (delta : Fields) : Decidable (Accepts e tag delta) :=
  inferInstanceAs (Decidable (_ ∧ _))

/-- Overwrites fields in the order of a list of entries. -/
def setEntries (e : α) (entries : List (String × Value)) : α :=
  entries.foldl (fun e entry => setField e entry.1 entry.2) e

theorem setFields_eq (e : α) (fields : Fields) : setFields e fields = setEntries e fields.entries :=
  rfl

theorem isSome_field?_setField (e : α) (f g : String) (v : Value) :
    (field? (setField e f v) g).isSome = (field? e g).isSome := by
  rw [field?_setField]
  split
  · rw [Option.isSome_map]
  · rfl

theorem typeTag_setEntries (entries : List (String × Value)) (e : α) :
    typeTag (setEntries e entries) = typeTag e := by
  induction entries generalizing e with
  | nil => rfl
  | cons entry rest ih => exact (ih _).trans (typeTag_setField ..)

theorem isSome_field?_setEntries (entries : List (String × Value)) (e : α) (g : String) :
    (field? (setEntries e entries) g).isSome = (field? e g).isSome := by
  induction entries generalizing e with
  | nil => rfl
  | cons entry rest ih => exact (ih _).trans (isSome_field?_setField ..)

/-- An entity accepts after any update what it accepted before. -/
theorem Accepts.setFields {e : α} {tag : String} {delta : Fields} (h : Accepts e tag delta)
    (fields : Fields) : Accepts (setFields e fields) tag delta := by
  refine ⟨(typeTag_setEntries ..).trans h.1, fun f known => ?_⟩
  rw [setFields_eq, isSome_field?_setEntries]
  exact h.2 f known

/-- A write to a field that is not overwritten later can be done last. -/
theorem setEntries_setField_of_notMem {entries : List (String × Value)} {f : String}
    (h : f ∉ entries.map Prod.fst) (e : α) (v : Value) :
    setEntries (setField e f v) entries = setField (setEntries e entries) f v := by
  induction entries generalizing e with
  | nil => rfl
  | cons entry rest ih =>
    simp only [List.map_cons, List.mem_cons, not_or] at h
    change setEntries (setField (setField e f v) entry.1 entry.2) rest = _
    rw [setField_comm _ _ _ _ _ h.1]
    exact ih h.2 _

/-- A write to a field that is overwritten later leaves no trace. -/
theorem setEntries_setField_of_mem {entries : List (String × Value)} {f : String}
    (h : f ∈ entries.map Prod.fst) (e : α) (v : Value) :
    setEntries (setField e f v) entries = setEntries e entries := by
  induction entries generalizing e with
  | nil => cases h
  | cons entry rest ih =>
    change setEntries (setField (setField e f v) entry.1 entry.2) rest =
      setEntries (setField e entry.1 entry.2) rest
    by_cases hf : f = entry.1
    · rw [← hf, setField_setField]
    · rw [setField_comm _ _ _ _ _ hf]
      exact ih ((List.mem_cons.mp h).resolve_left hf) _

/-- Of two updates the later one prevails: the same comes out if the earlier one is done last and
writes only what the other one does not. -/
theorem setEntries_setEntries (earlier later : List (String × Value))
    (distinct : (earlier.map Prod.fst).Nodup) (e : α) :
    setEntries (setEntries e later)
        (earlier.filter fun entry => entry.1 ∉ later.map Prod.fst) =
      setEntries (setEntries e earlier) later := by
  induction earlier generalizing e with
  | nil => rfl
  | cons entry rest ih =>
    obtain ⟨fresh, distinct⟩ := List.nodup_cons.mp distinct
    change _ = setEntries (setEntries (setField e entry.1 entry.2) rest) later
    by_cases h : entry.1 ∈ later.map Prod.fst
    · rw [List.filter_cons_of_neg (by simpa using h), ih distinct,
        setEntries_setField_of_notMem fresh, setEntries_setField_of_mem h]
    · rw [List.filter_cons_of_pos (by simpa using h), ← ih distinct (setField e entry.1 entry.2),
        setEntries_setField_of_notMem h]
      rfl

theorem nodup_keys (fields : Fields) : fields.keys.Nodup := by
  refine List.pairwise_map.mpr (fields.ascending.imp ?_)
  intro a b lt same
  rw [same, Std.ReflOrd.compare_self] at lt
  cases lt

end Element

namespace Operation

variable [Element α]

/-- What an operation makes of the element that it changes in place. -/
def revise? (op : Operation α) (e : α) : Option α :=
  match op.edit with
  | .replace _ v => some v
  | .update _ tag delta =>
    if op.stamp.isSome ∧ Element.Accepts e tag delta then some (Element.setFields e delta) else none
  | _ => none

/-- What an operation makes of the elements of a document. -/
def effect? (op : Operation α) (xs : List α) : Option (List α) :=
  match op.edit with
  | .noop => some xs
  | .insert p v => if p ≤ xs.length then some (xs.insertIdx p v) else none
  | .delete p => if p < xs.length then some (xs.eraseIdx p) else none
  | .replace p _ | .update p _ _ => (xs[p]?.bind op.revise?).map (xs.set p)

/-- What operations make of the elements, one after the other. -/
def effects? (ops : List (Operation α)) (xs : List α) : Option (List α) :=
  ops.foldlM (fun xs op => op.effect? xs) xs

@[simp] theorem effects?_cons (op : Operation α) (ops : List (Operation α)) (xs : List α) :
    effects? (op :: ops) xs = (op.effect? xs).bind (effects? ops) := rfl

@[simp] theorem effects?_singleton (op : Operation α) (xs : List α) :
    effects? [op] xs = op.effect? xs :=
  Option.bind_fun_some _

theorem effects?_append (ops more : List (Operation α)) (xs : List α) :
    effects? (ops ++ more) xs = (effects? ops xs).bind (effects? more) :=
  List.foldlM_append

/-- The stamp matters only in so far as there is one. -/
theorem effect?_congr {op op' : Operation α} (edit : op.edit = op'.edit)
    (stamp : op.stamp.isSome = op'.stamp.isSome) : op.effect? = op'.effect? := by
  have revise : op.revise? = op'.revise? := by
    funext e
    simp only [revise?, edit, stamp]
  funext xs
  simp only [effect?, edit, revise]

end Operation

namespace Slot

variable [Element α]

/-- An update of a slot succeeds on the elements that accept it. -/
theorem update_eq (s : Slot α) (state : StateVector) (tag : String) (delta : Fields) :
    (s.update state tag delta).toOption.map (·.value) =
      if Element.Accepts s.value tag delta then some (Element.setFields s.value delta)
      else none := by
  simp only [update]
  by_cases sameTag : Element.typeTag s.value = tag
  · cases missing : delta.keys.find? fun f => (Element.field? s.value f).isNone with
    | none =>
      have all : ∀ f ∈ delta.keys, (Element.field? s.value f).isSome := by
        simpa [Option.isSome_iff_ne_none] using missing
      have accepted : Element.Accepts s.value tag delta := ⟨sameTag, all⟩
      simp [sameTag, accepted, Except.toOption]
    | some f =>
      have found := List.find?_some missing
      have known := List.mem_of_find?_eq_some missing
      have refused : ¬ Element.Accepts s.value tag delta := by
        intro h
        have there := h.2 f known
        rw [Option.isNone_iff_eq_none.mp found] at there
        cases there
      simp [sameTag, refused, Except.toOption]
  · simp [Element.Accepts, sameTag, Except.toOption]

end Slot

namespace Document

variable [Element α]

/-- Applying an operation succeeds where it has an effect on the elements, and has that effect. -/
theorem toOption_apply (d : Document α) (op : Operation α) :
    (d.apply op).toOption.map values = op.effect? d.values := by
  simp only [apply, Operation.effect?]
  cases edit : op.edit with
  | noop => rfl
  | insert p v =>
    by_cases h : p ≤ d.size
    · have h' : p ≤ d.slots.length := h
      simp [h, h', values, Except.toOption, List.map_insertIdx, Slot.fresh]
    · simp [h, d.length_values, Except.toOption]
  | delete p =>
    by_cases h : p < d.size
    · have h' : p < d.slots.length := h
      simp [h, h', values, Except.toOption, List.eraseIdx_map]
    · simp [h, d.length_values, Except.toOption]
  | replace p v =>
    by_cases h : p < d.size
    · have h' : p < d.slots.length := h
      simp [h, values, Operation.revise?, edit, Except.toOption, List.map_set, Slot.fresh,
        List.getElem?_eq_getElem h']
    · have h' : d.slots.length ≤ p := Nat.le_of_not_lt h
      simp [h, values, Except.toOption, List.getElem?_eq_none h']
  | update p tag delta =>
    simp only [getSlot, Operation.getStamp]
    cases at_p : d.slots[p]? with
    | none => simp [values, at_p, Except.toOption, bind, Except.bind]
    | some slot =>
      cases stamp : op.stamp with
      | none =>
        simp [values, at_p, Operation.revise?, edit, stamp, Except.toOption, bind, Except.bind]
      | some stamp' =>
        have revised : op.revise? slot.value =
            (slot.update stamp'.state tag delta).toOption.map (·.value) := by
          simp [Operation.revise?, edit, stamp, slot.update_eq]
        cases result : slot.update stamp'.state tag delta with
        | error e =>
          rw [result] at revised
          simp [values, at_p, revised, result, Except.toOption, bind, Except.bind]
        | ok slot' =>
          rw [result] at revised
          simp [values, at_p, revised, result, Except.toOption, bind, Except.bind, pure,
            Except.pure, List.map_set]

theorem effect?_of_apply {d d' : Document α} {op : Operation α} (h : d.apply op = .ok d') :
    op.effect? d.values = some d'.values := by
  rw [← toOption_apply, h]
  rfl

theorem apply_of_effect? {d : Document α} {op : Operation α} {xs : List α}
    (h : op.effect? d.values = some xs) : ∃ d', d.apply op = .ok d' ∧ d'.values = xs := by
  rw [← toOption_apply] at h
  cases result : d.apply op with
  | error e => simp [result, Except.toOption] at h
  | ok d' => exact ⟨d', rfl, by simpa [result, Except.toOption] using h⟩

theorem applyAll_append (d : Document α) (ops more : List (Operation α)) :
    d.applyAll (ops ++ more) = (d.applyAll ops).bind (·.applyAll more) := by
  induction ops generalizing d with
  | nil => rfl
  | cons op ops ih =>
    simp only [List.cons_append, applyAll, bind]
    cases d.apply op with
    | error e => rfl
    | ok d' => exact ih d'

theorem applyAll_snoc {d d' d'' : Document α} {ops : List (Operation α)} {op : Operation α}
    (all : d.applyAll ops = .ok d') (last : d'.apply op = .ok d'') :
    d.applyAll (ops ++ [op]) = .ok d'' := by
  rw [applyAll_append, all]
  change d'.applyAll [op] = _
  simp only [applyAll, last, bind, Except.bind]

theorem effects?_of_applyAll {d d' : Document α} {ops : List (Operation α)}
    (h : d.applyAll ops = .ok d') : Operation.effects? ops d.values = some d'.values := by
  induction ops generalizing d with
  | nil =>
    cases h
    rfl
  | cons op ops ih =>
    simp only [applyAll, bind] at h
    cases first : d.apply op with
    | error e => simp [first, Except.bind] at h
    | ok mid =>
      rw [first] at h
      rw [Operation.effects?_cons, effect?_of_apply first]
      exact ih h

theorem applyAll_of_effects? {d : Document α} {ops : List (Operation α)} {xs : List α}
    (h : Operation.effects? ops d.values = some xs) :
    ∃ d', d.applyAll ops = .ok d' ∧ d'.values = xs := by
  induction ops generalizing d with
  | nil =>
    refine ⟨d, rfl, ?_⟩
    exact Option.some.inj h
  | cons op ops ih =>
    rw [Operation.effects?_cons] at h
    obtain ⟨ys, first, rest⟩ := Option.bind_eq_some_iff.mp h
    obtain ⟨mid, applied, rfl⟩ := apply_of_effect? first
    obtain ⟨d', all, last⟩ := ih rest
    refine ⟨d', ?_, last⟩
    simp only [applyAll, bind, applied]
    exact all

end Document

namespace LocalCopy

variable [Element α] {copy copy' : LocalCopy α} {op : Operation α}

/-- The history leads from the empty document to the present one. -/
def Replays (copy : LocalCopy α) : Prop :=
  Document.empty.applyAll copy.history = .ok copy.document

theorem replays_empty (policy : Policy) : (empty policy : LocalCopy α).Replays := rfl

theorem apply_eq_ok (h : copy.apply op = .ok copy') :
    copy.document.apply op = .ok copy'.document ∧ copy'.history = copy.history ++ [op] ∧
      copy'.policy = copy.policy := by
  simp only [apply] at h
  cases applied : copy.document.apply op with
  | error e =>
    rw [applied] at h
    cases h
  | ok d =>
    rw [applied] at h
    cases h
    exact ⟨rfl, rfl, rfl⟩

theorem effect?_of_apply (h : copy.apply op = .ok copy') :
    op.effect? copy.document.values = some copy'.document.values :=
  Document.effect?_of_apply (apply_eq_ok h).1

theorem apply_of_effect? {xs : List α} (h : op.effect? copy.document.values = some xs) :
    ∃ copy', copy.apply op = .ok copy' ∧ copy'.document.values = xs := by
  obtain ⟨d, applied, values⟩ := Document.apply_of_effect? h
  refine ⟨⟨d, copy.history ++ [op], copy.cursors.follow op.edit, copy.policy⟩, ?_, values⟩
  simp only [apply]
  rw [applied]
  rfl

theorem Replays.apply (h : copy.Replays) (applied : copy.apply op = .ok copy') :
    copy'.Replays := by
  obtain ⟨document, history, -⟩ := apply_eq_ok applied
  rw [Replays, history]
  exact Document.applyAll_snoc h document

/-- What was added to the history leads from the old document to the new one. -/
theorem Replays.since (h : copy.Replays) (h' : copy'.Replays) {new : List (Operation α)}
    (history : copy'.history = copy.history ++ new) :
    copy.document.applyAll new = .ok copy'.document := by
  simp only [Replays] at h h'
  rw [history, Document.applyAll_append, h] at h'
  exact h'

/-- A replica that starts from a fill, of either kind, has the elements of the original. -/
theorem Replays.load (h : copy.Replays) (policy : Policy) (mode : FillMode)
    (state : StateVector) :
    (copy.capture mode state).state = state ∧
      ∃ copy', (empty policy).load (copy.capture mode state) = .ok copy' ∧
        copy'.document.values = copy.document.values ∧ copy'.policy = policy := by
  cases mode with
  | stateBased => exact ⟨rfl, _, rfl, Document.values_fill .., rfl⟩
  | operationBased =>
    refine ⟨rfl, ⟨copy.document, copy.history, .empty, policy⟩, ?_, rfl, rfl⟩
    simp only [Replays] at h
    simp only [capture, LocalCopy.load, h]
    rfl

/-- What holds of the server's copy all along. -/
structure Sound (policy : Policy) (copy : LocalCopy α) : Prop where
  policy_eq : copy.policy = policy
  replays : copy.Replays
  stamped : ∀ op ∈ copy.history, op.stamp.isSome

theorem Sound.start (policy : Policy) : Sound policy (empty policy : LocalCopy α) :=
  ⟨rfl, replays_empty policy, fun _ among => absurd among List.not_mem_nil⟩

theorem Sound.apply {policy : Policy} (h : copy.Sound policy) (stamped : op.stamp.isSome)
    (applied : copy.apply op = .ok copy') : copy'.Sound policy := by
  obtain ⟨-, history, policy_eq⟩ := apply_eq_ok applied
  refine ⟨policy_eq.trans h.policy_eq, h.replays.apply applied, fun op' among => ?_⟩
  rw [history] at among
  rcases List.mem_append.mp among with before | new
  · exact h.stamped op' before
  · rwa [List.mem_singleton.mp new]

end LocalCopy

end CoEdit
