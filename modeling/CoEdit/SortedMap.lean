/-!
# Sorted maps

Finite maps stored as lists of entries with strictly increasing keys. The list is determined by
the look-ups (`SortedMap.ext_get?`), so the order in which entries were put in leaves no trace.
-/

namespace CoEdit

variable {κ α β : Type} [Ord κ]

/-- Every key comes before all keys to its right. -/
def Ascending (entries : List (κ × α)) : Prop :=
  entries.Pairwise fun a b => compare a.1 b.1 = .lt

namespace Entries

/-- The value stored under a key. -/
def lookup (k : κ) : List (κ × α) → Option α
  | [] => none
  | (k', v) :: rest => if compare k k' = .eq then some v else lookup k rest

/-- Puts an entry where its key belongs; a value already stored under the key is replaced. -/
def insert (k : κ) (v : α) : List (κ × α) → List (κ × α)
  | [] => [(k, v)]
  | (k', v') :: rest =>
    match compare k k' with
    | .lt => (k, v) :: (k', v') :: rest
    | .eq => (k, v) :: rest
    | .gt => (k', v') :: insert k v rest

/-- Entries in any order, put in one after the other: a later one wins over an earlier one. -/
def sort (entries : List (κ × α)) : List (κ × α) :=
  entries.foldl (fun sorted e => insert e.1 e.2 sorted) []

theorem mem_insert {k : κ} {v : α} {e : κ × α} :
    ∀ {entries : List (κ × α)}, e ∈ insert k v entries → e = (k, v) ∨ e ∈ entries
  | [], h => by simpa [insert] using h
  | (k', v') :: rest, h => by
    unfold insert at h
    split at h
    · simpa using h
    · rcases List.mem_cons.mp h with h | h
      · exact .inl h
      · exact .inr (List.mem_cons_of_mem _ h)
    · rcases List.mem_cons.mp h with h | h
      · exact .inr (h ▸ List.mem_cons_self)
      · exact (mem_insert h).imp_right (List.mem_cons_of_mem _)

theorem ascending_insert [Std.TransOrd κ] (k : κ) (v : α) :
    ∀ {entries : List (κ × α)}, Ascending entries → Ascending (insert k v entries)
  | [], _ => List.pairwise_singleton ..
  | (k', v') :: rest, h => by
    have ⟨first, others⟩ := List.pairwise_cons.mp h
    unfold insert
    split
    · rename_i lt
      refine List.pairwise_cons.mpr ⟨fun e he => ?_, h⟩
      rcases List.mem_cons.mp he with rfl | he
      · exact lt
      · exact Std.TransCmp.lt_trans lt (first e he)
    · rename_i eq
      exact List.pairwise_cons.mpr
        ⟨fun e he => Std.TransCmp.lt_of_eq_of_lt eq (first e he), others⟩
    · rename_i gt
      refine List.pairwise_cons.mpr ⟨fun e he => ?_, ascending_insert k v others⟩
      rcases mem_insert he with rfl | he
      · exact Std.OrientedCmp.lt_of_gt gt
      · exact first e he

theorem ascending_sort [Std.TransOrd κ] (entries : List (κ × α)) : Ascending (sort entries) := by
  suffices h : ∀ sorted : List (κ × α), Ascending sorted →
      Ascending (entries.foldl (fun sorted e => insert e.1 e.2 sorted) sorted) from h [] .nil
  induction entries with
  | nil => exact fun _ h => h
  | cons e rest ih => exact fun _ h => ih _ (ascending_insert _ _ h)

theorem mem_sort {entries : List (κ × α)} {e : κ × α} (inside : e ∈ sort entries) :
    e ∈ entries := by
  suffices all : ∀ sorted rest : List (κ × α),
      e ∈ rest.foldl (fun sorted e => insert e.1 e.2 sorted) sorted → e ∈ sorted ∨ e ∈ rest from
    (all [] entries inside).resolve_left List.not_mem_nil
  intro sorted rest inside
  induction rest generalizing sorted with
  | nil => exact .inl inside
  | cons first rest ih =>
    rcases ih _ inside with early | late
    · rcases mem_insert early with rfl | early
      · exact .inr List.mem_cons_self
      · exact .inl early
    · exact .inr (List.mem_cons_of_mem _ late)

theorem length_insert_le (k : κ) (v : α) (entries : List (κ × α)) :
    (insert k v entries).length ≤ entries.length + 1 := by
  induction entries with
  | nil => exact Nat.le_refl _
  | cons first rest ih =>
    simp only [insert]
    split
    · exact Nat.le_refl _
    · exact Nat.le_succ _
    · exact Nat.succ_le_succ ih

theorem length_sort_le (entries : List (κ × α)) : (sort entries).length ≤ entries.length := by
  suffices all : ∀ sorted rest : List (κ × α),
      (rest.foldl (fun sorted e => insert e.1 e.2 sorted) sorted).length ≤
        sorted.length + rest.length by
    have bound := all [] entries
    rwa [List.length_nil, Nat.zero_add] at bound
  intro sorted rest
  induction rest generalizing sorted with
  | nil => exact Nat.le_refl _
  | cons first rest ih =>
    have inserted := length_insert_le first.1 first.2 sorted
    have later := ih (insert first.1 first.2 sorted)
    rw [List.foldl_cons, List.length_cons]
    omega

theorem insert_last [Std.OrientedOrd κ] {k : κ} {v : α} :
    ∀ {entries : List (κ × α)}, (∀ e ∈ entries, compare e.1 k = .lt) →
      insert k v entries = entries ++ [(k, v)]
  | [], _ => rfl
  | (k', v') :: rest, h => by
    have after : compare k k' = .gt := Std.OrientedCmp.gt_of_lt (h _ List.mem_cons_self)
    simp only [insert, after]
    rw [insert_last fun e he => h e (List.mem_cons_of_mem _ he), List.cons_append]

/-- Entries that are in order stay as they are. -/
theorem sort_of_ascending [Std.OrientedOrd κ] {entries : List (κ × α)} (h : Ascending entries) :
    sort entries = entries := by
  suffices all : ∀ sorted rest : List (κ × α), Ascending (sorted ++ rest) →
      rest.foldl (fun sorted e => insert e.1 e.2 sorted) sorted = sorted ++ rest from
    all [] entries h
  intro sorted rest ordered
  induction rest generalizing sorted with
  | nil => exact (List.append_nil sorted).symm
  | cons e rest ih =>
    have before : ∀ e' ∈ sorted, compare e'.1 e.1 = .lt := fun e' he' =>
      (List.pairwise_append.mp ordered).2.2 e' he' e List.mem_cons_self
    have joined : sorted ++ e :: rest = sorted ++ [e] ++ rest := by simp
    rw [List.foldl_cons, insert_last before, joined]
    exact ih _ (joined ▸ ordered)

theorem ascending_map (f : κ → α → β) {entries : List (κ × α)} (h : Ascending entries) :
    Ascending (entries.map fun e => (e.1, f e.1 e.2)) :=
  List.pairwise_map.mpr h

theorem lookup_insert [Std.TransOrd κ] [Std.LawfulEqOrd κ] [DecidableEq κ] (k l : κ) (v : α) :
    ∀ entries : List (κ × α),
      lookup l (insert k v entries) = if l = k then some v else lookup l entries
  | [] => by simp [insert, lookup]
  | (k', v') :: rest => by
    unfold insert
    split
    · simp only [lookup, Std.LawfulEqCmp.compare_eq_iff_eq]
    · rename_i eq
      have := Std.LawfulEqCmp.compare_eq_iff_eq.mp eq
      subst this
      simp only [lookup, Std.LawfulEqCmp.compare_eq_iff_eq]
      split <;> rfl
    · rename_i gt
      have ne : k ≠ k' := by rintro rfl; simp at gt
      simp only [lookup, Std.LawfulEqCmp.compare_eq_iff_eq, lookup_insert k l v rest]
      by_cases h : l = k'
      · subst h; simp [Ne.symm ne]
      · simp [h]

theorem lookup_eq_none_of_lt [Std.TransOrd κ] {k : κ} :
    ∀ {entries : List (κ × α)}, (∀ e ∈ entries, compare k e.1 = .lt) → lookup k entries = none
  | [], _ => rfl
  | (k', v') :: rest, h => by
    have first : compare k k' = .lt := h (k', v') List.mem_cons_self
    simp only [lookup, first, reduceCtorEq, if_false]
    exact lookup_eq_none_of_lt fun e he => h e (List.mem_cons_of_mem _ he)

end Entries

/-- A finite map from keys to values. -/
structure SortedMap (κ : Type) [Ord κ] (α : Type) where
  entries : List (κ × α)
  ascending : Ascending entries

namespace SortedMap

theorem ext {m n : SortedMap κ α} (h : m.entries = n.entries) : m = n := by
  cases m; cases n; cases h; rfl

instance [DecidableEq κ] [DecidableEq α] : DecidableEq (SortedMap κ α) := fun m n =>
  decidable_of_iff (m.entries = n.entries) ⟨ext, fun h => h ▸ rfl⟩

/-- The map without entries. -/
def empty : SortedMap κ α := ⟨[], .nil⟩

instance : Inhabited (SortedMap κ α) := ⟨empty⟩

def size (m : SortedMap κ α) : Nat := m.entries.length

def isEmpty (m : SortedMap κ α) : Bool := m.entries.isEmpty

def keys (m : SortedMap κ α) : List κ := m.entries.map Prod.fst

def values (m : SortedMap κ α) : List α := m.entries.map Prod.snd

def get? (m : SortedMap κ α) (k : κ) : Option α := Entries.lookup k m.entries

def contains (m : SortedMap κ α) (k : κ) : Bool := (m.get? k).isSome

/-- Stores a value under a key, in place of one already there. -/
def insert [Std.TransOrd κ] (m : SortedMap κ α) (k : κ) (v : α) : SortedMap κ α :=
  ⟨Entries.insert k v m.entries, Entries.ascending_insert k v m.ascending⟩

/-- Of several entries with one key the last one counts. -/
def ofList [Std.TransOrd κ] (entries : List (κ × α)) : SortedMap κ α :=
  ⟨Entries.sort entries, Entries.ascending_sort entries⟩

/-- Keeps the entries whose key passes the test. -/
def filterKeys (m : SortedMap κ α) (p : κ → Bool) : SortedMap κ α :=
  ⟨m.entries.filter fun e => p e.1, m.ascending.filter _⟩

/-- Takes a key out of the map. -/
def erase (m : SortedMap κ α) (k : κ) : SortedMap κ α :=
  m.filterKeys fun k' => compare k k' != .eq

/-- Changes every value, with its key in view. -/
def mapWithKey (m : SortedMap κ α) (f : κ → α → β) : SortedMap κ β :=
  ⟨m.entries.map fun e => (e.1, f e.1 e.2), Entries.ascending_map f m.ascending⟩

/-- Changes the value under a key, if there is one. -/
def adjust [DecidableEq κ] (m : SortedMap κ α) (k : κ) (f : α → α) : SortedMap κ α :=
  m.mapWithKey fun k' v => if k' = k then f v else v

theorem ofList_entries [Std.TransOrd κ] (m : SortedMap κ α) : ofList m.entries = m :=
  ext (Entries.sort_of_ascending m.ascending)

@[simp] theorem get?_empty (k : κ) : (empty : SortedMap κ α).get? k = none := rfl

@[simp] theorem keys_mapWithKey (m : SortedMap κ α) (f : κ → α → β) :
    (m.mapWithKey f).keys = m.keys := by
  simp [keys, mapWithKey, Function.comp_def]

@[simp] theorem get?_insert [Std.TransOrd κ] [Std.LawfulEqOrd κ] [DecidableEq κ]
    (m : SortedMap κ α) (k l : κ) (v : α) :
    (m.insert k v).get? l = if l = k then some v else m.get? l :=
  Entries.lookup_insert k l v m.entries

@[simp] theorem get?_mapWithKey [Std.LawfulEqOrd κ] (m : SortedMap κ α) (f : κ → α → β) (k : κ) :
    (m.mapWithKey f).get? k = (m.get? k).map (f k) := by
  obtain ⟨entries, h⟩ := m
  simp only [get?, mapWithKey]
  clear h
  induction entries with
  | nil => rfl
  | cons e rest ih =>
    by_cases h : k = e.1
    · simp [Entries.lookup, h]
    · simpa [Entries.lookup, h] using ih

@[simp] theorem get?_adjust [Std.LawfulEqOrd κ] [DecidableEq κ]
    (m : SortedMap κ α) (k l : κ) (f : α → α) :
    (m.adjust k f).get? l = if l = k then (m.get? l).map f else m.get? l := by
  by_cases h : l = k
  · subst h; simp [adjust]
  · cases hv : m.get? l <;> simp [adjust, h, hv]

@[simp] theorem get?_filterKeys [Std.LawfulEqOrd κ] [DecidableEq κ]
    (m : SortedMap κ α) (p : κ → Bool) (k : κ) :
    (m.filterKeys p).get? k = if p k then m.get? k else none := by
  obtain ⟨entries, h⟩ := m
  simp only [get?, filterKeys]
  clear h
  induction entries with
  | nil => simp [Entries.lookup]
  | cons e rest ih =>
    by_cases hp : p e.1 <;> by_cases hk : k = e.1
    · simp [hp, Entries.lookup, hk]
    · simp [hp, Entries.lookup, hk, ih]
    · subst hk; simpa [hp] using ih
    · simp [hp, Entries.lookup, hk, ih]

@[simp] theorem get?_erase [Std.LawfulEqOrd κ] [DecidableEq κ] (m : SortedMap κ α) (k l : κ) :
    (m.erase k).get? l = if l = k then none else m.get? l := by
  by_cases h : l = k
  · subst h; simp [erase]
  · simp [erase, h, Ne.symm h]

theorem contains_eq_true_iff [Std.LawfulEqOrd κ] [DecidableEq κ] (m : SortedMap κ α) (k : κ) :
    m.contains k = true ↔ k ∈ m.keys := by
  obtain ⟨entries, h⟩ := m
  simp only [contains, get?, keys]
  clear h
  induction entries with
  | nil => simp [Entries.lookup]
  | cons e rest ih => by_cases h : k = e.1 <;> simp [Entries.lookup, h, ih]

/-- A map is determined by its look-ups. -/
theorem ext_get? [Std.TransOrd κ] [Std.LawfulEqOrd κ] [DecidableEq κ] {m n : SortedMap κ α}
    (h : ∀ k, m.get? k = n.get? k) : m = n := by
  obtain ⟨xs, hx⟩ := m
  obtain ⟨ys, hy⟩ := n
  apply ext
  dsimp only [get?] at h ⊢
  have below {k l : κ} {v : α} {rest : List (κ × α)} (a : Ascending ((l, v) :: rest))
      (lt : compare k l = .lt) : Entries.lookup k ((l, v) :: rest) = none := by
    refine Entries.lookup_eq_none_of_lt fun e he => ?_
    rcases List.mem_cons.mp he with rfl | he
    · exact lt
    · exact Std.TransCmp.lt_trans lt ((List.pairwise_cons.mp a).1 e he)
  induction xs generalizing ys with
  | nil =>
    cases ys with
    | nil => rfl
    | cons y ys => simpa [Entries.lookup] using h y.1
  | cons x xs ih =>
    obtain ⟨k, v⟩ := x
    cases ys with
    | nil => simpa [Entries.lookup] using h k
    | cons y ys =>
      obtain ⟨l, w⟩ := y
      have ⟨firstX, restX⟩ := List.pairwise_cons.mp hx
      have ⟨firstY, restY⟩ := List.pairwise_cons.mp hy
      have same : k = l := by
        cases c : compare k l with
        | eq => exact Std.LawfulEqCmp.compare_eq_iff_eq.mp c
        | lt =>
          have found := h k
          rw [below hy c] at found
          simp [Entries.lookup] at found
        | gt =>
          have found := h l
          rw [below hx (Std.OrientedCmp.lt_of_gt c)] at found
          simp [Entries.lookup] at found
      subst same
      have value : v = w := by simpa [Entries.lookup] using h k
      rw [value, ih restX ys restY]
      intro j
      by_cases hj : j = k
      · subst hj
        rw [Entries.lookup_eq_none_of_lt firstX, Entries.lookup_eq_none_of_lt firstY]
      · simpa [Entries.lookup, hj] using h j

end SortedMap

end CoEdit
