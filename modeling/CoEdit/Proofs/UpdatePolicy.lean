import CoEdit.Proofs.Change
import CoEdit.Proofs.Round
import Mathlib.Data.List.Induction
import Mathlib.Data.List.ReduceOption

/-!
# One element and any number of writers

In a round in which every writer changes the same element, what the element comes to is what the
policy says for all the writers (`changes_merge`). On the way to the server's history each change is
taken past the earlier ones, and that is settling it with each of them (`transformPast_left`).
-/

namespace CoEdit

open ClientAlgorithm ServerAlgorithm Element

variable {α : Type}

/-- What is left of a change, as an edit. -/
def Change.form (i : Nat) : Option (Change α) → Edit α
  | none => .noop
  | some c => c.edit i

/-- The elements with one of them changed or gone. -/
def place (xs : List α) (i : Nat) (outcome : Option α) : List α :=
  outcome.elim (xs.eraseIdx i) (xs.set i)

section Rebased

variable {policy : Policy} {i : Nat} {c d : Change α} {r l r' l' op : Operation α}
  {ops ops' : List (Operation α)} {marks : List (Option (Change α))}

/-- What the policy of the first writer leaves of an update. -/
theorem edit_without {tag : String} {delta : Fields} (edit : r.edit = .update i tag delta)
    (tag' : String) (taken : Fields) :
    (r.without taken).edit =
      Change.form i ((Change.update tag delta).after .firstWriterWins (.update tag' taken)) := by
  simp only [Operation.without, edit, Change.after, if_true]
  split <;> rfl

/-- Two changes of one element meet on the server. -/
theorem transform_after (editR : r.edit = c.edit i) (editL : l.edit = d.edit i)
    (h : transform policy .server r l = .ok (r', l')) :
    r'.edit = Change.form i (c.after policy d) := by
  cases c <;> cases d <;> simp only [Change.edit] at editR editL <;>
    simp only [transform, transformBy, editR, editL, Edit.shape, Nat.lt_irrefl, if_false, if_true,
      Policy.resolve] at h <;>
    cases policy <;> cases h
  case update.update.firstWriterWins tag delta tag' taken => exact edit_without editR tag' taken
  all_goals first | exact editR | rfl

/-- A change is taken past what the earlier ones were settled to. -/
theorem transformPast_left (same : ops.map (·.edit) = marks.map (Change.form i))
    (edit : r.edit = c.edit i) (h : transformPast policy .server r ops = .ok (r', ops')) :
    r'.edit = Change.form i (c.left policy marks.reduceOption) := by
  induction ops generalizing marks c r ops' with
  | nil =>
    cases h
    obtain rfl := List.map_eq_nil_iff.mp same.symm
    exact edit
  | cons l ops ih =>
    obtain ⟨mark, marks, rfl, sameL, sameOps⟩ := List.map_eq_cons_iff.mp same.symm
    obtain ⟨r₁, l₁, ops₁, first, rest, -⟩ := transformPast_cons_eq_ok.mp h
    cases mark with
    | none =>
      obtain rfl : r₁ = r := transform_past_noop sameL.symm first
      rw [List.reduceOption_cons_of_none]
      exact ih sameOps.symm edit rest
    | some d =>
      have edit₁ := transform_after edit sameL.symm first
      rw [List.reduceOption_cons_of_some, Change.left_cons]
      cases form : c.after policy d with
      | none =>
        rw [form] at edit₁
        exact transformPast_noop edit₁ rest
      | some c' =>
        rw [form] at edit₁
        exact ih sameOps.symm edit₁ rest

/-- What is left of a change is done to the element at its position. -/
theorem Turns.of_effect [Element α] {xs ys : List α} {e : α} {form : Option (Change α)}
    (inside : i < xs.length) (edit : op.edit = Change.form i form)
    (effect : op.effect? (xs.set i e) = some ys) :
    ∃ outcome, Turns e form outcome ∧ ys = place xs i outcome := by
  have here : (xs.set i e)[i]? = some e := List.getElem?_set_self inside
  cases form with
  | none =>
    rw [Operation.effect?_noop edit] at effect
    cases effect
    exact ⟨_, .nothing, rfl⟩
  | some c =>
    cases c with
    | delete =>
      obtain ⟨-, rfl⟩ := (Operation.effect?_delete edit).mp effect
      exact ⟨_, .delete, List.eraseIdx_set_eq⟩
    | replace v =>
      obtain ⟨_, e', -, revised, rfl⟩ :=
        (Operation.effect?_update (p := i) (by rw [edit]; rfl)).mp effect
      simp only [Operation.revise?, edit, Change.form, Change.edit] at revised
      cases revised
      exact ⟨_, .replace v, List.set_set _⟩
    | update tag delta =>
      obtain ⟨_, e', found, revised, rfl⟩ :=
        (Operation.effect?_update (p := i) (by rw [edit]; rfl)).mp effect
      cases here.symm.trans found
      obtain ⟨-, accepts, rfl⟩ := (Operation.revise?_update edit).mp revised
      exact ⟨_, .update accepts, List.set_set _⟩

/-- Rebased changes of one element come to what the policy says. -/
theorem Rebased.standing [Element α] {changes : List (Change α)} {xs ys : List α} {e : α}
    (h : Rebased policy (changes.map (Change.edit i)) ops) (here : xs[i]? = some e)
    (effect : Operation.effects? ops xs = some ys) :
    ∃ (marks : List (Option (Change α))) (outcome : Option α),
      ops.map (·.edit) = marks.map (Change.form i) ∧
      Standing policy changes e marks.reduceOption outcome ∧ ys = place xs i outcome := by
  obtain ⟨inside, there⟩ := List.getElem?_eq_some_iff.mp here
  induction changes using List.reverseRecOn generalizing ops ys with
  | nil =>
    rw [h.of_nil] at effect ⊢
    cases effect
    refine ⟨[], some e, rfl, .start policy e, ?_⟩
    rw [← there]
    exact (List.set_getElem_self inside).symm
  | append_singleton changes c ih =>
    rw [List.map_append] at h
    obtain ⟨before, op, form, _, rfl, rebased, past, same⟩ := h.of_snoc
    rw [Operation.effects?_append] at effect
    obtain ⟨mid, first_effect, last_effect⟩ := Option.bind_eq_some_iff.mp effect
    rw [Operation.effects?_singleton] at last_effect
    obtain ⟨marks, outcome, sameOps, standing, rfl⟩ := ih rebased first_effect
    have edit := same.trans (transformPast_left sameOps rfl past)
    refine ⟨marks ++ [c.left policy marks.reduceOption], ?_⟩
    rw [List.reduceOption_append, List.reduceOption_singleton, List.map_append, List.map_append,
      sameOps, List.map_singleton, List.map_singleton, edit]
    cases outcome with
    | none =>
      obtain ⟨cancelled, stays⟩ := standing.step_deleted c
      rw [cancelled] at edit ⊢
      rw [Operation.effect?_noop edit] at last_effect
      cases last_effect
      rw [Option.toList_none, List.append_nil]
      exact ⟨none, rfl, stays, rfl⟩
    | some e' =>
      obtain ⟨outcome', turns, rfl⟩ := Turns.of_effect inside edit last_effect
      exact ⟨outcome', rfl, standing.step turns, rfl⟩

end Rebased

/-- After a round of changes of one element all replicas have what the policy makes of it, and
otherwise the elements as they were. -/
def Star.Merged {S C : Type → Type} [ServerAlgorithm S] [ClientAlgorithm C] [Element α]
    (star : Star S C α) (policy : Policy) (schedule : List (Action α)) (i : Nat)
    (changes : SiteId → Option (Change α)) : Prop :=
  ∃ e outcome, (copy star.server).document.values[i]? = some e ∧
    Merges policy ((Report.order (star.reports schedule)).filterMap changes) e outcome ∧
    star.Settles schedule (fun site => (changes site).map (Change.edit i))
      (place (copy star.server).document.values i outcome)

theorem Simulation.Follows.merges {S C : Type → Type} [ServerAlgorithm S] [ClientAlgorithm C]
    [Element α] {policy : Policy} {sim : Simulation S C α policy} {star : Star S C α}
    {gaps : SiteId → Gap α} {schedule : List (Action α)} {i : Nat}
    {changes : SiteId → Option (Change α)} (h : sim.Follows star gaps)
    (inside : i < (copy star.server).document.values.length)
    (round : star.Round schedule fun site => (changes site).map (Change.edit i)) :
    star.Merged policy schedule i changes := by
  obtain ⟨new, ys, rebased, effects, settles⟩ := h.round round
  rw [Star.arrivals, ← List.map_filterMap] at rebased
  obtain ⟨_, outcome, -, standing, rfl⟩ :=
    rebased.standing (List.getElem?_eq_getElem inside) effects
  exact ⟨_, outcome, List.getElem?_eq_getElem inside, standing.merges, settles⟩

/-- Sites of an idle wave or jupiter star that each delete, replace or update the same element, not
knowing of one another, all end up with what the policy makes of it: nothing if one of them deletes
it, or else the first or last replacement to arrive at the server, or else the element with the
first or last value written to each field. -/
theorem changes_merge [Element α] (policy : Policy) (mode : FillMode)
    (past schedule : List (Action α)) (i : Nat) (changes : SiteId → Option (Change α)) :
    (i < (Wave.reach policy mode past).server.copy.document.values.length →
      (Wave.reach policy mode past).Round schedule
        (fun site => (changes site).map (Change.edit i)) →
      (Wave.reach policy mode past).Merged policy schedule i changes) ∧
    (i < (Jupiter.reach policy mode past).server.copy.document.values.length →
      (Jupiter.reach policy mode past).Round schedule
        (fun site => (changes site).map (Change.edit i)) →
      (Jupiter.reach policy mode past).Merged policy schedule i changes) := by
  obtain ⟨_, wave⟩ := (Wave.simulation policy).follows_run mode past
  obtain ⟨_, jupiter⟩ := (Jupiter.simulation policy).follows_run mode past
  exact ⟨wave.merges, jupiter.merges⟩

/-- Three sites and one entity, which all have. -/
def catalogued (a b c : SiteId) : List (Action Record) :=
  [.join a .operationBased, .join b .stateBased, .join c .stateBased,
    .edit a ⟨.insert 0 ⟨"book", .ofList [("author", .null), ("title", .null), ("year", .null)]⟩,
      none⟩, .up a, .down a, .down b, .down c]

/-- The second update to arrive is stripped of its author by the first one, and the third one of its
title by what is left of the second. -/
theorem changes_merge_stripped :
    let a : SiteId := .ofNat 1
    let b : SiteId := .ofNat 2
    let c : SiteId := .ofNat 3
    let first : Fields := .ofList [("author", .int 1)]
    let second : Fields := .ofList [("author", .int 2), ("title", .int 2)]
    let third : Fields := .ofList [("title", .int 3), ("year", .int 3)]
    let changes := fun site => if site = c then some (.update "book" first)
      else if site = a then some (.update "book" second)
      else if site = b then some (.update "book" third) else none
    let schedule : List (Action Record) := [.edit a ⟨.update 0 "book" second, none⟩,
      .edit b ⟨.update 0 "book" third, none⟩, .edit c ⟨.update 0 "book" first, none⟩, .up c, .up a,
      .down b, .up b, .down a, .down a, .down a, .down b, .down b, .down c, .down c, .down c]
    let wave := Wave.reach .firstWriterWins .stateBased (catalogued a b c)
    let jupiter := Jupiter.reach .firstWriterWins .stateBased (catalogued a b c)
    let merged : Record :=
      ⟨"book", .ofList [("author", .int 1), ("title", .int 2), ("year", .int 3)]⟩
    wave.Merged .firstWriterWins schedule 0 changes ∧
      jupiter.Merged .firstWriterWins schedule 0 changes ∧
      (wave.run schedule).server.copy.document.values = [merged] ∧
      (jupiter.run schedule).server.copy.document.values = [merged] := by
  intro a b c first second third changes schedule wave jupiter merged
  have roundW : wave.Round schedule fun site => (changes site).map (Change.edit 0) := by
    decide +kernel
  have roundJ : jupiter.Round schedule fun site => (changes site).map (Change.edit 0) := by
    decide +kernel
  obtain ⟨mergedW, mergedJ⟩ :=
    changes_merge .firstWriterWins .stateBased (catalogued a b c) schedule 0 changes
  refine ⟨mergedW (by decide +kernel) roundW, mergedJ (by decide +kernel) roundJ, ?_, ?_⟩
  all_goals decide +kernel

end CoEdit
