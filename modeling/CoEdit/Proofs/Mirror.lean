import CoEdit.Proofs.Passage

/-!
# The two ends of a link

While a link is busy both ends hold the same two batches of operations: what the client made and
what the server took in meanwhile. The server takes the client's operations past its own, and the
client the server's past its own, so that the two go through the same grid of pairs, one along the
rows and the other along the columns, with the roles and the sides exchanged in every cell. The
copies of an operation that leave the grid at the two ends are equal, stamps included
(`ends_mirror`).
-/

namespace CoEdit

variable {α : Type} {policy : Policy} {role : Role}

/-- Takes a batch of operations, the oldest first, one by one past all those of another batch. -/
def transformAcross (policy : Policy) (role : Role) :
    List (Operation α) → List (Operation α) →
      Except SyncError (List (Operation α) × List (Operation α))
  | [], own => .ok ([], own)
  | remote :: rest, own => do
    let (remote, own) ← transformPast policy role remote own
    let (rest, own) ← transformAcross policy role rest own
    return (remote :: rest, own)

theorem transformAcross_cons_eq_ok {r : Operation α} {rs rs' ls ls' : List (Operation α)} :
    transformAcross policy role (r :: rs) ls = .ok (rs', ls') ↔
      ∃ r' mid rest, transformPast policy role r ls = .ok (r', mid) ∧
        transformAcross policy role rs mid = .ok (rest, ls') ∧ rs' = r' :: rest := by
  obtain ⟨r', mid, first⟩ := transformPast_total policy role r ls
  simp only [transformAcross, bind, Except.bind, first]
  cases others : transformAcross policy role rs mid with
  | error e => simp [others]
  | ok pair =>
    obtain ⟨rest, ls'⟩ := pair
    simp [others, pure, Except.pure, eq_comm, and_comm]

/-- With nothing to be taken past, a batch stays as it is. -/
theorem transformAcross_nil (policy : Policy) (role : Role) (rs : List (Operation α)) :
    transformAcross policy role rs [] = .ok (rs, []) := by
  induction rs with
  | nil => rfl
  | cons r rs ih => exact transformAcross_cons_eq_ok.mpr ⟨r, [], rs, rfl, ih, rfl⟩

/-- Any two batches can be taken across each other. -/
theorem transformAcross_total (policy : Policy) (role : Role) (rs ls : List (Operation α)) :
    ∃ rs' ls', transformAcross policy role rs ls = .ok (rs', ls') := by
  induction rs generalizing ls with
  | nil => exact ⟨[], ls, rfl⟩
  | cons r rs ih =>
    obtain ⟨r', mid, first⟩ := transformPast_total policy role r ls
    obtain ⟨rest, ls', others⟩ := ih mid
    exact ⟨r' :: rest, ls', transformAcross_cons_eq_ok.mpr ⟨r', mid, rest, first, others, rfl⟩⟩

/-- A batch that meets a longer one meets its first operation, and what is left of the batch meets
the others. -/
theorem transformAcross_queue_cons {l l' : Operation α} {rs mid rs' ls ls' : List (Operation α)}
    (first : transformAcross policy role rs [l] = .ok (mid, [l']))
    (others : transformAcross policy role mid ls = .ok (rs', ls')) :
    transformAcross policy role rs (l :: ls) = .ok (rs', l' :: ls') := by
  induction rs generalizing l ls mid rs' with
  | nil =>
    cases first
    cases others
    rfl
  | cons r rs ih =>
    obtain ⟨r₁, own, mid, row, below, rfl⟩ := transformAcross_cons_eq_ok.mp first
    obtain ⟨r₂, l₁, _, cell, done, rfl⟩ := transformPast_cons_eq_ok.mp row
    cases done
    obtain ⟨r', ls₁, rest, row', below', rfl⟩ := transformAcross_cons_eq_ok.mp others
    refine transformAcross_cons_eq_ok.mpr ⟨r', l₁ :: ls₁, rest, ?_, ih below below', rfl⟩
    exact transformPast_cons_eq_ok.mpr ⟨r₁, l₁, ls₁, cell, row', rfl⟩

/-- A row seen from one end is a column seen from the other. -/
theorem transformPast_mirror {a a' : Operation α} {ls ls' : List (Operation α)}
    (h : transformPast policy role a ls = .ok (a', ls')) :
    transformAcross policy role.other ls [a] = .ok (ls', [a']) := by
  induction ls generalizing a ls' with
  | nil =>
    cases h
    rfl
  | cons l ls ih =>
    obtain ⟨a₁, l', rest, cell, row, rfl⟩ := transformPast_cons_eq_ok.mp h
    refine transformAcross_cons_eq_ok.mpr ⟨l', [a₁], rest, ?_, ih row, rfl⟩
    exact transformPast_cons_eq_ok.mpr ⟨l', a₁, [], transform_swap policy role cell, rfl, rfl⟩

/-- The grid read along its rows at one end is the grid read along its columns at the other. -/
theorem transformAcross_mirror {as as' bs bs' : List (Operation α)}
    (h : transformAcross policy role as bs = .ok (as', bs')) :
    transformAcross policy role.other bs as = .ok (bs', as') := by
  induction as generalizing bs as' with
  | nil =>
    cases h
    exact transformAcross_nil ..
  | cons a as ih =>
    obtain ⟨a', mid, rest, row, others, rfl⟩ := transformAcross_cons_eq_ok.mp h
    exact transformAcross_queue_cons (transformPast_mirror row) (ih others)

/-- The server rewrites a pair of operations as the client rewrites the same pair with the sides
exchanged; and whole batches, taken across each other operation by operation, come out equal at the
two ends, in number, order, edits and stamps. -/
theorem ends_mirror (policy : Policy) :
    (∀ a b a' b' : Operation α, transform policy .server a b = .ok (a', b') ↔
      transform policy .client b a = .ok (b', a')) ∧
    ∀ made served : List (Operation α), ∃ made' served',
      transformAcross policy .server made served = .ok (made', served') ∧
        transformAcross policy .client served made = .ok (served', made') := by
  constructor
  · intro a b a' b'
    constructor
    · intro h
      exact transform_swap policy .server h
    · intro h
      exact transform_swap policy .client h
  · intro made served
    obtain ⟨made', served', across⟩ := transformAcross_total policy .server made served
    exact ⟨made', served', across, transformAcross_mirror across⟩

end CoEdit
