import CoEdit.Proofs.Diamond

/-!
# Passing a queue

An operation that is taken past a queue makes one diamond after the other: it ends up behind the
whole queue, and the queue behind it (`transformPast_diamond`).

An end of a link that keeps what it sent takes each incoming message past the part that its sender
had not seen. `Inbound` follows a whole link of messages through such a queue, and says what happens
to the grid of transformations when either end sends one more.
-/

namespace CoEdit

variable {α : Type} {policy : Policy} {role : Role} {r r' : Operation α} {q q' : List (Operation α)}

theorem transformPast_cons_eq_ok {l : Operation α} :
    transformPast policy role r (l :: q) = .ok (r', q') ↔
      ∃ r₁ l₁ q₁, transform policy role r l = .ok (r₁, l₁) ∧
        transformPast policy role r₁ q = .ok (r', q₁) ∧ q' = l₁ :: q₁ := by
  obtain ⟨r₁, l₁, first⟩ := transform_total policy role r l
  simp only [transformPast, bind, Except.bind, first]
  cases rest : transformPast policy role r₁ q with
  | error e => simp [rest]
  | ok pair =>
    obtain ⟨r₂, q₂⟩ := pair
    simp [rest, pure, Except.pure, eq_comm]

theorem transformPast_append_eq_ok {q₁ q₂ : List (Operation α)} :
    transformPast policy role r (q₁ ++ q₂) = .ok (r', q') ↔
      ∃ m q₁' q₂', transformPast policy role r q₁ = .ok (m, q₁') ∧
        transformPast policy role m q₂ = .ok (r', q₂') ∧ q' = q₁' ++ q₂' := by
  induction q₁ generalizing r q' with
  | nil => simp [transformPast]
  | cons l q₁ ih =>
    simp only [List.cons_append, transformPast_cons_eq_ok, ih]
    constructor
    · rintro ⟨r₁, l₁, _, first, ⟨m, q₁', q₂', past₁, past₂, rfl⟩, rfl⟩
      exact ⟨m, l₁ :: q₁', q₂', ⟨r₁, l₁, q₁', first, past₁, rfl⟩, past₂, rfl⟩
    · rintro ⟨m, _, q₂', ⟨r₁, l₁, q₁', first, past₁, rfl⟩, past₂, rfl⟩
      exact ⟨r₁, l₁, q₁' ++ q₂', first, ⟨m, q₁', q₂', past₁, past₂, rfl⟩, rfl⟩

theorem transformPast_total (policy : Policy) (role : Role) (r : Operation α)
    (q : List (Operation α)) : ∃ r' q', transformPast policy role r q = .ok (r', q') := by
  induction q generalizing r with
  | nil => exact ⟨r, [], rfl⟩
  | cons l q ih =>
    obtain ⟨r₁, l₁, first⟩ := transform_total policy role r l
    obtain ⟨r', q', rest⟩ := ih r₁
    exact ⟨r', l₁ :: q', transformPast_cons_eq_ok.mpr ⟨r₁, l₁, q', first, rest, rfl⟩⟩

/-- A cancelled operation changes no other one. -/
theorem transform_past_noop {l l' : Operation α} (edit : l.edit = .noop)
    (h : transform policy role r l = .ok (r', l')) : r' = r := by
  have swapped := transform_swap policy role h
  simp only [transform, transformBy, edit, Edit.shape] at swapped
  cases swapped
  rfl

/-- A cancelled operation stays cancelled. -/
theorem transform_noop {l l' : Operation α} (edit : r.edit = .noop)
    (h : transform policy role r l = .ok (r', l')) : r'.edit = .noop := by
  simp only [transform, transformBy, edit, Edit.shape] at h
  cases h
  exact edit

theorem transformPast_noop (edit : r.edit = .noop)
    (h : transformPast policy role r q = .ok (r', q')) : r'.edit = .noop := by
  induction q generalizing r q' with
  | nil =>
    cases h
    exact edit
  | cons l q ih =>
    obtain ⟨r₁, l₁, q₁, first, rest, -⟩ := transformPast_cons_eq_ok.mp h
    exact ih (transform_noop edit first) rest

theorem transform_stamps {l l' : Operation α} (h : transform policy role r l = .ok (r', l')) :
    r'.stamp = r.stamp ∧ l'.stamp = l.stamp := by
  have restamped := transform_restamp policy role r l r.stamp l.stamp
  rw [Operation.restamp_of_edit_eq rfl, Operation.restamp_of_edit_eq rfl, h] at restamped
  obtain ⟨hr, hl⟩ := Prod.mk.inj (Except.ok.inj restamped)
  constructor
  · calc r'.stamp = (r'.restamp r.stamp).stamp := congrArg Operation.stamp hr
      _ = r.stamp := rfl
  · calc l'.stamp = (l'.restamp l.stamp).stamp := congrArg Operation.stamp hl
      _ = l.stamp := rfl

theorem transformPast_stamps (h : transformPast policy role r q = .ok (r', q')) :
    r'.stamp = r.stamp ∧ q'.map (·.stamp) = q.map (·.stamp) := by
  induction q generalizing r q' with
  | nil =>
    cases h
    exact ⟨rfl, rfl⟩
  | cons l q ih =>
    obtain ⟨r₁, l₁, q₁, first, rest, rfl⟩ := transformPast_cons_eq_ok.mp h
    obtain ⟨stampR, stampL⟩ := transform_stamps first
    obtain ⟨stampR', stampQ⟩ := ih rest
    exact ⟨stampR'.trans stampR, by rw [List.map_cons, stampL, stampQ, List.map_cons]⟩

/-- Nothing but the edits decides how operations are rewritten. -/
theorem transform_edits {l l' s m : Operation α} (h : transform policy role r l = .ok (r', l'))
    (sameR : s.edit = r.edit) (sameL : m.edit = l.edit) :
    ∃ s' m', transform policy role s m = .ok (s', m') ∧ s'.edit = r'.edit ∧ m'.edit = l'.edit := by
  have restamped := transform_restamp policy role r l s.stamp m.stamp
  rw [Operation.restamp_of_edit_eq sameR.symm, Operation.restamp_of_edit_eq sameL.symm, h]
    at restamped
  exact ⟨_, _, restamped, rfl, rfl⟩

theorem transformPast_edits {s : Operation α} {k : List (Operation α)}
    (h : transformPast policy role r q = .ok (r', q')) (sameR : s.edit = r.edit)
    (sameQ : k.map (·.edit) = q.map (·.edit)) :
    ∃ s' k', transformPast policy role s k = .ok (s', k') ∧ s'.edit = r'.edit ∧
      k'.map (·.edit) = q'.map (·.edit) := by
  induction q generalizing r q' s k with
  | nil =>
    cases h
    obtain rfl := List.map_eq_nil_iff.mp sameQ
    exact ⟨s, [], rfl, sameR, rfl⟩
  | cons l q ih =>
    obtain ⟨m, k, rfl, sameL, sameQ⟩ := List.map_eq_cons_iff.mp sameQ
    obtain ⟨r₁, l₁, q₁, first, rest, rfl⟩ := transformPast_cons_eq_ok.mp h
    obtain ⟨s₁, m₁, first', sameR₁, sameL₁⟩ := transform_edits first sameR sameL
    obtain ⟨s', k', rest', sameR', sameQ'⟩ := ih rest sameR₁ sameQ
    refine ⟨s', m₁ :: k', transformPast_cons_eq_ok.mpr ⟨s₁, m₁, k', first', rest', rfl⟩, sameR', ?_⟩
    rw [List.map_cons, sameL₁, sameQ', List.map_cons]

theorem transformPast_diamond [Element α] {xs ys zs : List α}
    (h : transformPast policy role r q = .ok (r', q')) (hr : r.effect? xs = some ys)
    (hq : Operation.effects? q xs = some zs) :
    ∃ ws, r'.effect? zs = some ws ∧ Operation.effects? q' ys = some ws := by
  induction q generalizing r q' xs ys with
  | nil =>
    cases h
    cases hq
    exact ⟨ys, hr, rfl⟩
  | cons l q ih =>
    obtain ⟨r₁, l₁, q₁, first, rest, rfl⟩ := transformPast_cons_eq_ok.mp h
    obtain ⟨mid, hl, hq⟩ := Option.bind_eq_some_iff.mp hq
    obtain ⟨corner, hr₁, hl₁⟩ := transform_diamond first _ _ _ hr hl
    obtain ⟨ws, hr', hq₁⟩ := ih rest hr₁ hq
    refine ⟨ws, hr', ?_⟩
    rw [Operation.effects?_cons, hl₁]
    exact hq₁

theorem transformPast_length (h : transformPast policy role r q = .ok (r', q')) :
    q'.length = q.length := by
  simpa using congrArg List.length (transformPast_stamps h).2

/-- The messages on a link, each with the number of operations that its sender had taken in, meet
an end that kept what it sent from number `base` on. One after the other they are taken past what
their senders had not seen, and `forms` is what becomes of them. -/
inductive Inbound (policy : Policy) (role : Role) :
    Nat → List (Operation α) → List (Operation α × Nat) → List (Operation α) → Prop where
  | nil (base : Nat) (kept : List (Operation α)) : Inbound policy role base kept [] []
  | cons {base known : Nat} {kept kept' forms : List (Operation α)}
      {messages : List (Operation α × Nat)} {m form : Operation α}
      (low : base ≤ known) (high : known ≤ base + kept.length)
      (past : transformPast policy role m (kept.drop (known - base)) = .ok (form, kept'))
      (rest : Inbound policy role known kept' messages forms) :
      Inbound policy role base kept ((m, known) :: messages) (form :: forms)

namespace Inbound

variable {base : Nat} {kept forms forms' : List (Operation α)}
  {messages : List (Operation α × Nat)}

/-- Messages keep their stamps. -/
theorem stamps (h : Inbound policy role base kept messages forms) :
    forms.map (·.stamp) = messages.map (·.1.stamp) := by
  induction h with
  | nil => rfl
  | cons low high past rest ih =>
    rw [List.map_cons, List.map_cons, ih, (transformPast_stamps past).1]

/-- A message whose sender has seen everything arrives as it is. -/
theorem send (h : Inbound policy role base kept messages forms) (m : Operation α) :
    Inbound policy role base kept (messages ++ [(m, base + kept.length)]) (forms ++ [m]) := by
  induction h with
  | nil base kept =>
    refine .cons (Nat.le_add_right ..) (Nat.le_refl _) ?_ (.nil _ [])
    rw [Nat.add_sub_cancel_left, List.drop_length]
    rfl
  | @cons base known kept kept' forms messages m' form low high past rest ih =>
    refine .cons low high past ?_
    have kept_length : known + kept'.length = base + kept.length := by
      rw [transformPast_length past, List.length_drop]
      omega
    rw [← kept_length]
    exact ih

/-- What the end sends meanwhile crosses the messages, in the forms in which they arrive. -/
theorem cross (h : Inbound policy role base kept messages forms) {b b' : Operation α}
    (past : transformPast policy role.other b forms = .ok (b', forms')) :
    Inbound policy role base (kept ++ [b]) messages forms' := by
  induction h generalizing b b' forms' with
  | nil base kept =>
    cases past
    exact .nil ..
  | @cons base known kept kept' forms messages m form low high pastM rest ih =>
    obtain ⟨b₁, form₁, forms₁, first, others, rfl⟩ := transformPast_cons_eq_ok.mp past
    have swapped : transform policy role form b = .ok (form₁, b₁) := by
      simpa using transform_swap policy role.other first
    refine .cons low (by rw [List.length_append]; omega) ?_ (ih others)
    rw [List.drop_append_of_le_length (by omega)]
    refine transformPast_append_eq_ok.mpr ⟨form, kept', [b₁], pastM, ?_, rfl⟩
    exact transformPast_cons_eq_ok.mpr ⟨form₁, b₁, [], swapped, rfl, rfl⟩

end Inbound

end CoEdit
