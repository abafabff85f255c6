import CoEdit.Proofs.Effect

/-!
# Writes to fields

What is read from an entity after an update (`Element.field?_setFields`), and two updates after each
other as one: on top of the earlier one lie the fields of the later one
(`Element.setFields_overlaid`).
-/

namespace CoEdit

namespace SortedMap

variable {κ α : Type} [Ord κ] [Std.TransOrd κ] [Std.LawfulEqOrd κ] [DecidableEq κ]

/-- A map with all entries of another one put in, which win over its own. -/
def overlaid (m n : SortedMap κ α) : SortedMap κ α :=
  n.entries.foldl (fun m entry => m.insert entry.1 entry.2) m

theorem get?_overlaid (m n : SortedMap κ α) (k : κ) :
    (m.overlaid n).get? k = (n.get? k).or (m.get? k) := by
  obtain ⟨entries, ascending⟩ := n
  simp only [overlaid, get?]
  induction entries generalizing m with
  | nil => rfl
  | cons entry rest ih =>
    obtain ⟨first, others⟩ := List.pairwise_cons.mp ascending
    rw [List.foldl_cons, ih _ others, Entries.lookup, SortedMap.insert, Entries.lookup_insert]
    by_cases here : k = entry.1
    · subst here
      rw [Entries.lookup_eq_none_of_lt first]
      simp
    · simp [here]

end SortedMap

namespace Element

variable {α : Type} [Element α]

/-- A name before all others does not come up among them. -/
theorem notMem_of_lt {entries : List (String × Value)} {f : String}
    (h : ∀ entry ∈ entries, compare f entry.1 = .lt) : f ∉ entries.map Prod.fst := by
  intro among
  obtain ⟨entry, there, rfl⟩ := List.mem_map.mp among
  have lt := h entry there
  rw [Std.ReflOrd.compare_self] at lt
  cases lt

theorem field?_setEntries_of_notMem {entries : List (String × Value)} {f : String}
    (h : f ∉ entries.map Prod.fst) (e : α) : field? (setEntries e entries) f = field? e f := by
  induction entries generalizing e with
  | nil => rfl
  | cons entry rest ih =>
    simp only [List.map_cons, List.mem_cons, not_or] at h
    exact (ih h.2 _).trans (by rw [field?_setField, if_neg h.1])

/-- After an update a field holds what was written to it, and what it held before if nothing was. -/
theorem field?_setFields (e : α) (fields : Fields) (f : String) :
    field? (setFields e fields) f = (field? e f).map fun old => (fields.get? f).getD old := by
  obtain ⟨entries, ascending⟩ := fields
  rw [setFields_eq, SortedMap.get?]
  induction entries generalizing e with
  | nil => exact Option.map_id'.symm
  | cons entry rest ih =>
    obtain ⟨first, others⟩ := List.pairwise_cons.mp ascending
    change field? (setEntries (setField e entry.1 entry.2) rest) f = _
    by_cases here : f = entry.1
    · subst here
      rw [field?_setEntries_of_notMem (notMem_of_lt first), field?_setField, if_pos rfl,
        Entries.lookup, if_pos Std.ReflOrd.compare_self]
      rfl
    · rw [ih _ others, field?_setField, if_neg here, Entries.lookup,
        if_neg (mt Std.LawfulEqCmp.compare_eq_iff_eq.mp here)]

/-- Putting one more entry in its place amounts to writing it last. -/
theorem setEntries_insert {entries : List (String × Value)} (ascending : Ascending entries)
    (e : α) (f : String) (v : Value) :
    setEntries e (Entries.insert f v entries) = setField (setEntries e entries) f v := by
  induction entries generalizing e with
  | nil => rfl
  | cons entry rest ih =>
    obtain ⟨first, others⟩ := List.pairwise_cons.mp ascending
    unfold Entries.insert
    split
    · rename_i lt
      refine setEntries_setField_of_notMem (notMem_of_lt fun entry' among => ?_) e v
      rcases List.mem_cons.mp among with rfl | later
      · exact lt
      · exact Std.TransCmp.lt_trans lt (first entry' later)
    · rename_i eq
      obtain rfl := Std.LawfulEqCmp.compare_eq_iff_eq.mp eq
      change setEntries (setField e entry.1 v) rest =
        setField (setEntries (setField e entry.1 entry.2) rest) entry.1 v
      rw [← setEntries_setField_of_notMem (notMem_of_lt first), setField_setField]
    · exact ih others (setField e entry.1 entry.2)

/-- Two updates after each other are one. -/
theorem setFields_overlaid (e : α) (earlier later : Fields) :
    setFields e (earlier.overlaid later) = setFields (setFields e earlier) later := by
  obtain ⟨entries, _⟩ := later
  simp only [SortedMap.overlaid, setFields_eq]
  clear * -
  induction entries generalizing earlier with
  | nil => rfl
  | cons entry rest ih =>
    rw [List.foldl_cons, ih, SortedMap.insert, setEntries_insert earlier.ascending]
    rfl

end Element

end CoEdit
