import CoEdit.Proofs.Round
import Mathlib.Data.List.Induction
import Mathlib.Data.List.InsertIdx
import Mathlib.Order.Monotone.Basic

/-!
# Insertions at one position

In a round of insertions each element ends up in front of the one that stood at its position, behind
whatever was inserted there before it (`inserts_gather`). An insertion that arrives is pushed up
once by each earlier one at or before its position, wherever that one has been pushed to meanwhile
(`Rebased.pushed`): pushing keeps positions in their order (`pushed_strictMono`).
-/

namespace CoEdit

open ClientAlgorithm ServerAlgorithm

variable {α : Type}

/-- The insertion of an element at a position. -/
def insertion (i : Nat × α) : Edit α := .insert i.1 i.2

/-- What is inserted at a position, in order. -/
def insertedAt (inserts : List (Nat × α)) (g : Nat) : List α :=
  (inserts.filter (·.1 = g)).map Prod.snd

/-- The elements from position `g` on: in front of each of them what is inserted there, and at the
end what is inserted at the end. -/
def gather (inserts : List (Nat × α)) (g : Nat) : List α → List α
  | [] => insertedAt inserts g
  | x :: xs => insertedAt inserts g ++ x :: gather inserts (g + 1) xs

/-- Where a position gets to by insertions, each of which pushes up what is at or behind it. -/
def pushed (inserts : List (Nat × α)) (p : Nat) : Nat :=
  p + inserts.countP (·.1 ≤ p)

section Gather

variable {inserts : List (Nat × α)} {p q g : Nat} {x y : α} {xs : List α}

theorem pushed_snoc :
    pushed (inserts ++ [(q, y)]) p = pushed inserts p + if q ≤ p then 1 else 0 := by
  simp only [pushed, List.countP_append, List.countP_singleton, decide_eq_true_eq]
  omega

/-- Positions stay apart and keep their order. -/
theorem pushed_strictMono (inserts : List (Nat × α)) : StrictMono (pushed inserts) := by
  intro p q h
  have fewer : inserts.countP (·.1 ≤ p) ≤ inserts.countP (·.1 ≤ q) := by
    refine List.countP_mono_left fun i _ low => ?_
    simp only [decide_eq_true_eq] at low ⊢
    omega
  simp only [pushed]
  omega

/-- Behind the end nothing is left that could push. -/
theorem pushed_of_all_le (h : ∀ i ∈ inserts, i.1 ≤ p) : pushed inserts p = p + inserts.length := by
  have all : inserts.countP (·.1 ≤ p) = inserts.length :=
    List.countP_eq_length.mpr fun i among => decide_eq_true (h i among)
  rw [pushed, all]

theorem insertedAt_snoc :
    insertedAt (inserts ++ [(q, y)]) g = insertedAt inserts g ++ if q = g then [y] else [] := by
  by_cases here : q = g <;> simp [insertedAt, here]

theorem gather_nil (xs : List α) (g : Nat) : gather [] g xs = xs := by
  induction xs generalizing g with
  | nil => rfl
  | cons x xs ih =>
    rw [gather, ih]
    rfl

/-- An insertion before position `g` is not seen from there on. -/
theorem gather_snoc_of_lt (h : q < g) :
    gather (inserts ++ [(q, y)]) g xs = gather inserts g xs := by
  induction xs generalizing g with
  | nil => rw [gather, gather, insertedAt_snoc, if_neg (by omega), List.append_nil]
  | cons x xs ih =>
    rw [gather, gather, insertedAt_snoc, if_neg (by omega), List.append_nil, ih (by omega)]

theorem insertIdx_append_right (as bs : List α) (n : Nat) (y : α) :
    (as ++ bs).insertIdx (as.length + n) y = as ++ bs.insertIdx n y := by
  induction as with
  | nil => rw [List.nil_append, List.nil_append, List.length_nil, Nat.zero_add]
  | cons a as ih =>
    rw [List.cons_append, List.cons_append, List.length_cons, Nat.add_right_comm,
      List.insertIdx_succ_cons, ih]

theorem length_insertedAt : (insertedAt inserts g).length = inserts.countP (·.1 = g) := by
  rw [insertedAt, List.length_map, List.countP_eq_length_filter]

/-- What is inserted from position `g` up to `q`, counted from the front. -/
theorem countP_from (h : g ≤ q) :
    inserts.countP (fun i => g ≤ i.1 ∧ i.1 ≤ q) =
      inserts.countP (·.1 = g) + inserts.countP fun i => g + 1 ≤ i.1 ∧ i.1 ≤ q := by
  induction inserts with
  | nil => rfl
  | cons i rest ih =>
    simp only [List.countP_cons, decide_eq_true_eq, ih]
    split_ifs <;> omega

/-- One more insertion goes behind all earlier ones at its position. -/
theorem insertIdx_gather (low : g ≤ q) (high : q ≤ g + xs.length) :
    (gather inserts g xs).insertIdx
        (inserts.countP (fun i => g ≤ i.1 ∧ i.1 ≤ q) + (q - g)) y =
      gather (inserts ++ [(q, y)]) g xs := by
  have none_after : inserts.countP (fun i => q + 1 ≤ i.1 ∧ i.1 ≤ q) = 0 := by
    refine List.countP_eq_zero.mpr fun i _ within => ?_
    simp only [decide_eq_true_eq] at within
    omega
  induction xs generalizing g with
  | nil =>
    obtain rfl : g = q := by
      rw [List.length_nil] at high
      omega
    rw [gather, gather, insertedAt_snoc, if_pos rfl, countP_from low, none_after, Nat.sub_self,
      Nat.add_zero, ← length_insertedAt, List.insertIdx_length_self]
  | cons x xs ih =>
    rw [gather, gather, insertedAt_snoc, countP_from low, ← length_insertedAt, Nat.add_assoc,
      insertIdx_append_right]
    rcases Nat.eq_or_lt_of_le low with rfl | beyond
    · rw [none_after, Nat.sub_self, Nat.add_zero, List.insertIdx_zero, if_pos rfl,
        gather_snoc_of_lt (Nat.lt_succ_self g), List.append_assoc]
      rfl
    · have later := ih (g := g + 1) beyond (by rw [List.length_cons] at high; omega)
      have step : q - g = (q - (g + 1)) + 1 := by omega
      rw [if_neg (by omega), List.append_nil, step, ← Nat.add_assoc, List.insertIdx_succ_cons,
        later]

/-- The same, with the position that an insertion is pushed to. -/
theorem insertIdx_pushed (high : q ≤ xs.length) :
    (gather inserts 0 xs).insertIdx (pushed inserts q) y =
      gather (inserts ++ [(q, y)]) 0 xs := by
  have all : inserts.countP (fun i => 0 ≤ i.1 ∧ i.1 ≤ q) = inserts.countP (·.1 ≤ q) :=
    List.countP_congr fun i _ => by simp
  rw [← insertIdx_gather (Nat.zero_le q) (by omega), all, pushed, Nat.sub_zero, Nat.add_comm]

end Gather

section Rebased

variable {policy : Policy} {role : Role} {inserts : List (Nat × α)} {p q : Nat} {x y : α}
  {r l r' l' form : Operation α} {ops passed : List (Operation α)} {xs ys : List α}

/-- On the server an insertion is pushed up by one at or before its position. -/
theorem transform_insertions (editR : r.edit = .insert p x) (editL : l.edit = .insert q y)
    (h : transform policy .server r l = .ok (r', l')) :
    r'.edit = .insert (p + if q ≤ p then 1 else 0) x := by
  simp only [transform, transformBy, editR, editL, Edit.shape] at h
  split at h
  · rename_i before
    cases h
    rw [if_neg (by rcases before with lt | ⟨-, client⟩ <;> [omega; cases client])]
    exact editR
  · rename_i behind
    cases h
    rw [if_pos (by omega)]
    exact Operation.edit_moveTo_insert editR (p + 1)

/-- An insertion that is taken past earlier ones is pushed up by those at or before its position. -/
theorem Rebased.pushed (h : Rebased policy (inserts.map insertion) ops)
    (edit : r.edit = .insert p x) (past : transformPast policy .server r ops = .ok (form, passed)) :
    form.edit = .insert (pushed inserts p) x := by
  induction inserts using List.reverseRecOn generalizing ops r p x form passed with
  | nil =>
    rw [h.of_nil] at past
    cases past
    exact edit
  | append_singleton inserts i ih =>
    rw [List.map_append] at h
    obtain ⟨before, op, _, _, rfl, rebased, pastI, same⟩ := h.of_snoc
    obtain ⟨m, _, _, pastBefore, pastOp, -⟩ := transformPast_append_eq_ok.mp past
    obtain ⟨r₁, _, _, one, rest, -⟩ := transformPast_cons_eq_ok.mp pastOp
    cases rest
    -- both are pushed by the same insertions before they meet
    have editM := ih rebased edit pastBefore
    have editOp := same.trans (ih rebased rfl pastI)
    rw [transform_insertions editM editOp one, pushed_snoc]
    simp only [(pushed_strictMono inserts).le_iff_le]

/-- Rebased insertions gather in front of the elements at their positions. -/
theorem Rebased.gathers [Element α] (h : Rebased policy (inserts.map insertion) ops)
    (effect : Operation.effects? ops xs = some ys) :
    (∀ i ∈ inserts, i.1 ≤ xs.length) ∧ ys.length = xs.length + inserts.length ∧
      ys = gather inserts 0 xs := by
  induction inserts using List.reverseRecOn generalizing ops ys with
  | nil =>
    rw [h.of_nil] at effect
    cases effect
    exact ⟨nofun, rfl, (gather_nil xs 0).symm⟩
  | append_singleton inserts i ih =>
    rw [List.map_append] at h
    obtain ⟨before, op, form, _, rfl, rebased, past, same⟩ := h.of_snoc
    rw [Operation.effects?_append] at effect
    obtain ⟨mid, first_effect, last_effect⟩ := Option.bind_eq_some_iff.mp effect
    rw [Operation.effects?_singleton] at last_effect
    obtain ⟨bounds, length, rfl⟩ := ih rebased first_effect
    have edit := same.trans (rebased.pushed rfl past)
    obtain ⟨inside, rfl⟩ := (Operation.effect?_insert edit).mp last_effect
    -- an insertion behind the end would have been pushed by all the others
    have high : i.1 ≤ xs.length := by
      by_contra beyond
      have far : CoEdit.pushed inserts i.1 = i.1 + inserts.length :=
        pushed_of_all_le fun j among => Nat.le_trans (bounds j among) (by omega)
      omega
    refine ⟨fun j among => ?_, ?_, insertIdx_pushed high⟩
    · rcases List.mem_append.mp among with earlier | now
      · exact bounds j earlier
      · rw [List.mem_singleton.mp now]
        exact high
    · rw [List.length_insertIdx_of_le_length inside, length, List.length_append]
      rfl

end Rebased

/-- After a round of insertions all replicas have them in front of the elements at their positions,
in the order of their arrival. -/
def Star.Gathers {S C : Type → Type} [ServerAlgorithm S] [ClientAlgorithm C] [Element α]
    (star : Star S C α) (schedule : List (Action α)) (inserts : SiteId → Option (Nat × α)) : Prop :=
  star.Settles schedule (fun site => (inserts site).map insertion)
    (gather ((Report.order (star.reports schedule)).filterMap inserts) 0
      (copy star.server).document.values)

theorem Simulation.Follows.gathers {S C : Type → Type} [ServerAlgorithm S] [ClientAlgorithm C]
    [Element α] {policy : Policy} {sim : Simulation S C α policy} {star : Star S C α}
    {gaps : SiteId → Gap α} {schedule : List (Action α)} {inserts : SiteId → Option (Nat × α)}
    (h : sim.Follows star gaps)
    (round : star.Round schedule fun site => (inserts site).map insertion) :
    star.Gathers schedule inserts := by
  obtain ⟨new, xs, rebased, effects, settles⟩ := h.round round
  rw [Star.arrivals, ← List.map_filterMap] at rebased
  obtain ⟨-, -, rfl⟩ := rebased.gathers effects
  exact settles

/-- Sites of an idle wave or jupiter star that insert one element each, not knowing of one another,
all end up with these elements where they were inserted, and where several were inserted at one
position, in the order of their arrival at the server. -/
theorem inserts_gather [Element α] (policy : Policy) (mode : FillMode)
    (past schedule : List (Action α)) (inserts : SiteId → Option (Nat × α)) :
    ((Wave.reach policy mode past).Round schedule (fun site => (inserts site).map insertion) →
      (Wave.reach policy mode past).Gathers schedule inserts) ∧
    ((Jupiter.reach policy mode past).Round schedule (fun site => (inserts site).map insertion) →
      (Jupiter.reach policy mode past).Gathers schedule inserts) := by
  obtain ⟨_, wave⟩ := (Wave.simulation policy).follows_run mode past
  obtain ⟨_, jupiter⟩ := (Jupiter.simulation policy).follows_run mode past
  exact ⟨wave.gathers, jupiter.gathers⟩

/-- Three sites and one letter, which all have. -/
def lettered (a b c : SiteId) : List (Action Char) :=
  [.join a .operationBased, .join b .stateBased, .join c .stateBased, .edit a ⟨.insert 0 'm', none⟩,
    .up a, .down a, .down b, .down c]

/-- Two insertions in front of the letter and one behind it; those of the first two sites arrive in
the other order. -/
theorem inserts_gather_three :
    let a : SiteId := .ofNat 1
    let b : SiteId := .ofNat 2
    let c : SiteId := .ofNat 3
    let inserts := fun site => if site = a then some (0, 'x') else if site = b then some (0, 'y')
      else if site = c then some (1, 'z') else none
    let schedule : List (Action Char) := [.edit a ⟨.insert 0 'x', none⟩,
      .edit b ⟨.insert 0 'y', none⟩, .edit c ⟨.insert 1 'z', none⟩, .up c, .up b, .up a,
      .down a, .down a, .down a, .down b, .down b, .down b, .down c, .down c, .down c]
    let wave := Wave.reach .firstWriterWins .stateBased (lettered a b c)
    let jupiter := Jupiter.reach .firstWriterWins .stateBased (lettered a b c)
    wave.Gathers schedule inserts ∧ jupiter.Gathers schedule inserts ∧
      (wave.run schedule).server.copy.document.values = ['y', 'x', 'm', 'z'] ∧
      (jupiter.run schedule).server.copy.document.values = ['y', 'x', 'm', 'z'] := by
  intro a b c inserts schedule wave jupiter
  have roundW : wave.Round schedule fun site => (inserts site).map insertion := by
    decide +kernel
  have roundJ : jupiter.Round schedule fun site => (inserts site).map insertion := by
    decide +kernel
  obtain ⟨gathersW, gathersJ⟩ :=
    inserts_gather .firstWriterWins .stateBased (lettered a b c) schedule inserts
  refine ⟨gathersW roundW, gathersJ roundJ, ?_, ?_⟩
  all_goals decide +kernel

end CoEdit
