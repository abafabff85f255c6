import CoEdit.Proofs.Gap
import CoEdit.Proofs.Schedule
import CoEdit.Wave

/-!
# The phases of a wave client

A client has nothing under way, or waits for the server to take in the operation in flight, or waits
for its echo. The form of the operation in flight that the client keeps is neither the one on the
link nor the one in the history: it is the one that the server meets on its way from the first to
the second (`Phase.sent`), and from there on it is rewritten at the client as the server has
rewritten it (`Phase.echoing`).
-/

namespace CoEdit.Wave

variable {α : Type}

/-- None of the operations was made at the site. -/
def Foreign (site : SiteId) (ops : List (Operation α)) : Prop :=
  ∀ op ∈ ops, op.creator? ≠ some site

theorem foreign_append {site : SiteId} {ops more : List (Operation α)} :
    Foreign site (ops ++ more) ↔ Foreign site ops ∧ Foreign site more :=
  List.forall_mem_append

theorem foreign_cons {site : SiteId} {op : Operation α} {ops : List (Operation α)} :
    Foreign site (op :: ops) ↔ op.creator? ≠ some site ∧ Foreign site ops :=
  List.forall_mem_cons

/-- What a list holds at the point where it is divided goes over to the left part. -/
theorem take_succ_of_drop {β : Type} {xs rest : List β} {x : β} {n : Nat}
    (h : xs.drop n = x :: rest) :
    n + 1 ≤ xs.length ∧ xs.take (n + 1) = xs.take n ++ [x] ∧ xs.drop (n + 1) = rest := by
  have inside : n < xs.length := by
    have := congrArg List.length h
    rw [List.length_drop, List.length_cons] at this
    omega
  rw [List.drop_eq_getElem_cons inside] at h
  obtain ⟨here, later⟩ := List.cons.inj h
  exact ⟨inside, by rw [List.take_succ_eq_append_getElem inside, here], later⟩

/-- An operation that a site sent at a revision. -/
def SentAt (op : Operation α) (site : SiteId) (revision : Nat) : Prop :=
  ∃ stamp, op.stamp = some stamp ∧ stamp.creator = site ∧ stamp.state.get 0 = revision

open Operation

variable [Element α]

/-- What a client that has seen `seen` operations of the history has in flight, in its buffer and on
its link to the server, and the gap that this amounts to. -/
inductive Phase (policy : Policy) (site : SiteId) (history : List (Operation α)) (seen : Nat) :
    Option (Operation α) → List (Operation α) → List (Operation α) → Gap α → Prop where
  | idle {shared : List α} (foreign : Foreign site (history.drop seen))
      (replay : effects? (history.take seen) [] = some shared) :
      Phase policy site history seen none [] [] ⟨shared, [], history.drop seen⟩
  | sent {shared : List α} {op flying : Operation α} {buffer passed : List (Operation α)}
      {revision : Nat} (stamp : SentAt op site revision) (le : revision ≤ seen)
      (foreign : Foreign site (history.drop revision))
      (past : transformPast policy .server op ((history.drop revision).take (seen - revision)) =
        .ok (flying, passed))
      (replay : effects? (history.take seen) [] = some shared) :
      Phase policy site history seen (some flying) buffer [op]
        ⟨shared, flying :: buffer, history.drop seen⟩
  | echoing {before shared : List α} {flying echo : Operation α}
      {buffer others others' rest : List (Operation α)}
      (split : history.drop seen = others ++ echo :: rest) (own : echo.creator? = some site)
      (foreign : Foreign site (others ++ rest))
      (past : transformPast policy .server flying others = .ok (echo, others'))
      (replay : effects? (history.take seen) [] = some before)
      (effect : flying.effect? before = some shared) :
      Phase policy site history seen (some flying) buffer [] ⟨shared, buffer, others' ++ rest⟩

namespace Phase

variable {policy : Policy} {site : SiteId} {history : List (Operation α)} {seen : Nat}
  {inFlight : Option (Operation α)} {buffer up rest : List (Operation α)} {gap : Gap α}
  {op : Operation α}

/-- One more operation is seen. -/
theorem replay_succ {xs ys : List α} (next : history.drop seen = op :: rest)
    (replay : effects? (history.take seen) [] = some xs) (effect : op.effect? xs = some ys) :
    history.drop (seen + 1) = rest ∧ effects? (history.take (seen + 1)) [] = some ys := by
  obtain ⟨-, take, drop⟩ := take_succ_of_drop next
  refine ⟨drop, ?_⟩
  rw [take, effects?_append, replay, Option.bind_some, effects?_singleton]
  exact effect

theorem generate (h : Phase policy site history seen inFlight buffer up gap)
    (stamp : SentAt op site seen) :
    (inFlight = none ∧ buffer = [] ∧
      Phase policy site history seen (some op) [] (up ++ [op])
        { gap with mine := gap.mine ++ [op] }) ∨
    (∃ flying, inFlight = some flying ∧
      Phase policy site history seen inFlight (buffer ++ [op]) up
        { gap with mine := gap.mine ++ [op] }) := by
  cases h with
  | idle foreign replay =>
    have past : transformPast policy .server op ((history.drop seen).take (seen - seen)) =
        .ok (op, []) := by
      rw [Nat.sub_self, List.take_zero]
      rfl
    exact .inl ⟨rfl, rfl, .sent stamp (Nat.le_refl _) foreign past replay⟩
  | sent stamp' le foreign past replay =>
    exact .inr ⟨_, rfl, .sent stamp' le foreign past replay⟩
  | echoing split own foreign past replay effect =>
    exact .inr ⟨_, rfl, .echoing split own foreign past replay effect⟩

/-- Nothing is in flight only if nothing is under way at all. -/
theorem of_none (h : Phase policy site history seen none buffer up gap) :
    buffer = [] ∧ up = [] ∧ gap.mine = [] ∧ gap.theirs = history.drop seen ∧
      effects? (history.take seen) [] = some gap.shared := by
  cases h with
  | idle foreign replay => exact ⟨rfl, rfl, rfl, rfl, replay⟩

/-- With everything seen and nothing on the way, nothing separates the two. -/
theorem quiet (h : Phase policy site history seen inFlight buffer [] gap)
    (nothing : history.drop seen = []) : gap.mine = [] ∧ gap.theirs = [] := by
  cases h with
  | idle => exact ⟨rfl, nothing⟩
  | echoing split =>
    rw [nothing] at split
    exact absurd split.symm (List.append_ne_nil_of_right_ne_nil _ (List.cons_ne_nil _ _))

/-- The server appends an operation of another site. -/
theorem relayed (h : Phase policy site history seen inFlight buffer up gap)
    (le : seen ≤ history.length) (other : op.creator? ≠ some site) :
    Phase policy site (history ++ [op]) seen inFlight buffer up
      { gap with theirs := gap.theirs ++ [op] } := by
  have drop : ∀ {n}, n ≤ seen → (history ++ [op]).drop n = history.drop n ++ [op] :=
    fun hn => List.drop_append_of_le_length (Nat.le_trans hn le)
  have all := drop (Nat.le_refl seen)
  have take : (history ++ [op]).take seen = history.take seen := List.take_append_of_le_length le
  have alone : Foreign site [op] := foreign_cons.mpr ⟨other, fun _ h => by cases h⟩
  cases h with
  | @idle shared foreign replay =>
    change Phase policy site _ seen none [] [] ⟨shared, [], history.drop seen ++ [op]⟩
    rw [← all]
    exact .idle (all ▸ foreign_append.mpr ⟨foreign, alone⟩) (take ▸ replay)
  | @sent shared u flying _ passed revision stamp le' foreign past replay =>
    change Phase policy site _ seen (some flying) buffer [u]
      ⟨shared, flying :: buffer, history.drop seen ++ [op]⟩
    rw [← all]
    have past' : transformPast policy .server u
        (((history ++ [op]).drop revision).take (seen - revision)) = .ok (flying, passed) := by
      rw [drop le', List.take_append_of_le_length (by rw [List.length_drop]; omega)]
      exact past
    exact .sent stamp le' (drop le' ▸ foreign_append.mpr ⟨foreign, alone⟩) past' (take ▸ replay)
  | @echoing before shared flying echo _ others others' rest split own foreign past replay effect =>
    change Phase policy site _ seen (some flying) buffer []
      ⟨shared, buffer, others' ++ rest ++ [op]⟩
    rw [List.append_assoc]
    refine .echoing ?_ own ?_ past (take ▸ replay) effect
    · rw [all, split, List.append_assoc]
      rfl
    · rw [← List.append_assoc]
      exact foreign_append.mpr ⟨foreign, alone⟩

/-- The server takes in the operation in flight. -/
theorem serve {op : Operation α} (h : Phase policy site history seen inFlight buffer (op :: up) gap)
    (le : seen ≤ history.length) :
    ∃ revision flying mine echo theirs past, SentAt op site revision ∧
      revision ≤ history.length ∧ up = [] ∧ gap.mine = flying :: mine ∧
      transformPast policy .server op (history.drop revision) = .ok (echo, past) ∧
      transformPast policy .server flying gap.theirs = .ok (echo, theirs) ∧
      ∀ shared, flying.effect? gap.shared = some shared →
        Phase policy site (history ++ [echo]) seen inFlight buffer [] ⟨shared, mine, theirs⟩ := by
  cases h with
  | @sent shared _ flying _ passed revision stamp le' foreign past replay =>
    obtain ⟨echo, theirs, rest⟩ := transformPast_total policy .server flying (history.drop seen)
    have split : history.drop revision =
        (history.drop revision).take (seen - revision) ++ history.drop seen := by
      have parts := (List.take_append_drop (seen - revision) (history.drop revision)).symm
      rwa [List.drop_drop, Nat.add_sub_cancel' le'] at parts
    have whole : transformPast policy .server op (history.drop revision) =
        .ok (echo, passed ++ theirs) := by
      rw [split]
      exact transformPast_append_eq_ok.mpr ⟨flying, passed, theirs, past, rest, rfl⟩
    refine ⟨revision, flying, buffer, echo, theirs, passed ++ theirs, stamp,
      Nat.le_trans le' le, rfl, rfl, whole, rest, fun shared' effect => ?_⟩
    have own : echo.creator? = some site := by
      obtain ⟨stamp', stamped, creator, -⟩ := stamp
      rw [creator?, (transformPast_stamps whole).1, stamped, ← creator]
      rfl
    have unseen : (history ++ [echo]).drop seen = history.drop seen ++ echo :: [] :=
      List.drop_append_of_le_length le
    have others : Foreign site (history.drop seen ++ []) := by
      rw [List.append_nil]
      rw [split] at foreign
      exact (foreign_append.mp foreign).2
    have replay' : effects? ((history ++ [echo]).take seen) [] = some shared := by
      rw [List.take_append_of_le_length le]
      exact replay
    have phase : Phase policy site (history ++ [echo]) seen (some flying) buffer []
        ⟨shared', buffer, theirs ++ []⟩ := .echoing unseen own others rest replay' effect
    rwa [List.append_nil] at phase

/-- The client hears of an operation of another site, which it takes past all that is under way. -/
theorem hear {op' : Operation α} {underWay : List (Operation α)} {final : List α}
    (h : Phase policy site history seen inFlight buffer up gap)
    (next : history.drop seen = op :: rest) (other : op.creator? ≠ some site)
    (whole : effects? history [] = some final)
    (past : transformPast policy .client op (inFlight.toList ++ buffer) = .ok (op', underWay)) :
    ∃ first theirs mine, gap.theirs = first :: theirs ∧
      transformPast policy .client first gap.mine = .ok (op', mine) ∧
      ∀ shared, first.effect? gap.shared = some shared →
        Phase policy site history (seen + 1)
          (if inFlight.isSome then underWay.head? else inFlight)
          (if inFlight.isSome then underWay.tail else buffer) up ⟨shared, mine, theirs⟩ := by
  cases h with
  | @idle shared foreign replay =>
    cases past
    refine ⟨op, rest, [], next, rfl, fun shared' effect => ?_⟩
    obtain ⟨later, replay'⟩ := replay_succ next replay effect
    have foreign' : Foreign site (history.drop (seen + 1)) := by
      rw [next] at foreign
      rw [later]
      exact (foreign_cons.mp foreign).2
    have phase : Phase policy site history (seen + 1) none [] []
        ⟨shared', [], history.drop (seen + 1)⟩ := .idle foreign' replay'
    rwa [later] at phase
  | @sent shared u flying _ passed revision stamp le foreign pastU replay =>
    obtain ⟨op₁, flying', buffer', first, others, rfl⟩ := transformPast_cons_eq_ok.mp past
    have met : transform policy .server flying op = .ok (flying', op₁) := transform_swap _ _ first
    refine ⟨op, rest, flying' :: buffer', next, past, fun shared' effect => ?_⟩
    obtain ⟨later, replay'⟩ := replay_succ next replay effect
    have further : (history.drop revision).drop (seen - revision) = op :: rest := by
      rw [List.drop_drop, Nat.add_sub_cancel' le]
      exact next
    have pastU' : transformPast policy .server u
        ((history.drop revision).take (seen + 1 - revision)) = .ok (flying', passed ++ [op₁]) := by
      rw [Nat.sub_add_comm le, (take_succ_of_drop further).2.1]
      exact transformPast_append_eq_ok.mpr ⟨flying, passed, [op₁], pastU,
        transformPast_cons_eq_ok.mpr ⟨flying', op₁, [], met, rfl, rfl⟩, rfl⟩
    have phase : Phase policy site history (seen + 1) (some flying') buffer' [u]
        ⟨shared', flying' :: buffer', history.drop (seen + 1)⟩ :=
      .sent stamp (Nat.le_succ_of_le le) foreign pastU' replay'
    rwa [later] at phase
  | @echoing before shared flying echo _ others others' after split own foreign pastE replay
      effect =>
    rw [next] at split
    cases others with
    | nil =>
      obtain ⟨rfl, -⟩ := List.cons.inj split
      exact absurd own other
    | cons _ others =>
      obtain ⟨rfl, rest_eq⟩ := List.cons.inj split
      obtain ⟨flying', op₁, others', met, beyond, rfl⟩ := transformPast_cons_eq_ok.mp pastE
      obtain ⟨op₂, flying₂, buffer', first, through, rfl⟩ := transformPast_cons_eq_ok.mp past
      have same : transform policy .client op flying = .ok (op₁, flying') := transform_swap _ _ met
      obtain ⟨rfl, rfl⟩ := Prod.mk.inj (Except.ok.inj (first.symm.trans same))
      refine ⟨op₂, others' ++ after, buffer', rfl, through, fun shared' effect' => ?_⟩
      obtain ⟨before', effectOp⟩ : ∃ before', op.effect? before = some before' := by
        rw [← List.take_append_drop seen history, effects?_append, replay, next, Option.bind_some,
          effects?_cons] at whole
        obtain ⟨before', effectOp, -⟩ := Option.bind_eq_some_iff.mp whole
        exact ⟨before', effectOp⟩
      obtain ⟨corner, effectF, effectO⟩ := transform_diamond met _ _ _ effect effectOp
      obtain rfl : shared' = corner := Option.some.inj (effect'.symm.trans effectO)
      obtain ⟨later, replay'⟩ := replay_succ next replay effectOp
      exact .echoing (later.trans rest_eq) own (foreign_cons.mp foreign).2 beyond replay' effectF

/-- The client hears of its own operation, which was in flight. -/
theorem echoed (h : Phase policy site history seen inFlight buffer up gap)
    (next : history.drop seen = op :: rest) (own : op.creator? = some site) :
    up = [] ∧ gap.mine = buffer ∧ gap.theirs = rest ∧ inFlight = some op ∧
      (buffer = [] → Phase policy site history (seen + 1) none [] [] gap) ∧
      ∀ first more first', buffer = first :: more → SentAt first' site (seen + 1) →
        Phase policy site history (seen + 1) (some first') more [first']
          { gap with mine := first' :: more } := by
  cases h with
  | @idle shared foreign replay =>
    rw [next] at foreign
    exact absurd own (foreign_cons.mp foreign).1
  | @sent shared u flying _ passed revision stamp le foreign pastU replay =>
    have among : op ∈ history.drop revision := by
      have further : (history.drop revision).drop (seen - revision) = op :: rest := by
        rw [List.drop_drop, Nat.add_sub_cancel' le]
        exact next
      exact List.mem_of_mem_drop (further ▸ List.mem_cons_self)
    exact absurd own (foreign op among)
  | @echoing before shared flying echo _ others others' after split own' foreign pastE replay
      effect =>
    rw [next] at split
    cases others with
    | cons _ others =>
      obtain ⟨rfl, -⟩ := List.cons.inj split
      exact absurd own (foreign_cons.mp foreign).1
    | nil =>
      obtain ⟨rfl, rfl⟩ := List.cons.inj split
      cases pastE
      obtain ⟨later, replay'⟩ := replay_succ next replay effect
      refine ⟨rfl, rfl, rfl, rfl, ?_, ?_⟩
      · rintro rfl
        have phase : Phase policy site history (seen + 1) none [] []
            ⟨shared, [], history.drop (seen + 1)⟩ := .idle (later.symm ▸ foreign) replay'
        rwa [later] at phase
      · rintro first more first' rfl stamp
        have past : transformPast policy .server first'
            ((history.drop (seen + 1)).take (seen + 1 - (seen + 1))) = .ok (first', []) := by
          rw [Nat.sub_self, List.take_zero]
          rfl
        have phase : Phase policy site history (seen + 1) (some first') more [first']
            ⟨shared, first' :: more, history.drop (seen + 1)⟩ :=
          .sent stamp (Nat.le_refl _) (later.symm ▸ foreign) past replay'
        rwa [later] at phase

end Phase

end CoEdit.Wave
