import CoEdit.Proofs.JupiterLink

/-!
# Operations past an outgoing queue

An incoming operation tells how many of the operations in a queue its sender had taken in. Those
leave the queue, the operation is taken past the others, and the others past the operation. Nothing
that applied before is lost: from every document from which the rest of the queue and the operation
can be applied, the two ways round the square end in the same elements (`queue_passed`).
-/

namespace CoEdit

variable {α : Type}

namespace Jupiter

/-- The operation is among the first `count` that an end of a link sent. -/
def SentBefore (count : Nat) (op : Operation α) : Prop :=
  ∃ stamp ∈ op.stamp, stamp.state.get sentAxis < count

instance (count : Nat) (op : Operation α) : Decidable (SentBefore count op) :=
  inferInstanceAs (Decidable (∃ _ ∈ _, _))

/-- What is unseen of a queue of stamped operations is what was not sent before. -/
theorem unseen_eq_filter {queue : List (Operation α)} (queued : ∀ op ∈ queue, op.stamp.isSome)
    (count : Nat) : unseen queue count = queue.filter fun op => ¬ SentBefore count op := by
  apply List.filter_congr
  intro op among
  obtain ⟨stamp, stamped⟩ := Option.isSome_iff_exists.mp (queued op among)
  have before : SentBefore count op ↔ stamp.state.get sentAxis < count := by
    constructor
    · rintro ⟨stamp', same, less⟩
      obtain rfl := Option.some.inj (stamped.symm.trans same)
      exact less
    · intro less
      exact ⟨stamp, stamped, less⟩
  simp only [stamped, before, Nat.not_lt]

end Jupiter

section Squares

variable [Element α] {policy : Policy} {role : Role} {r r' : Operation α}
  {queue queue' : List (Operation α)} {d dq dr : Document α}

/-- An operation that was taken past a queue applies behind the queue, the queue applies behind the
operation, and both orders leave the same elements. -/
theorem transformPast_applies (past : transformPast policy role r queue = .ok (r', queue'))
    (all : d.applyAll queue = .ok dq) (one : d.apply r = .ok dr) :
    ∃ dqr drq, dq.apply r' = .ok dqr ∧ dr.applyAll queue' = .ok drq ∧ dqr.values = drq.values := by
  obtain ⟨xs, behind_queue, behind_one⟩ := transformPast_diamond past
    (Document.effect?_of_apply one) (Document.effects?_of_applyAll all)
  obtain ⟨dqr, applied, values⟩ := Document.apply_of_effect? behind_queue
  obtain ⟨drq, applied', values'⟩ := Document.applyAll_of_effects? behind_one
  exact ⟨dqr, drq, applied, applied', values.trans values'.symm⟩

end Squares

open Jupiter

/-- A stamped operation passes every queue of stamped operations: those that its sender had taken in
leave the queue, and no others; it is taken past the rest, and it and the rest keep their stamps.
Wherever the rest can be applied one after the other, and the operation too, each can be applied
behind the other in its new form, and both orders leave the same elements. -/
theorem queue_passed [Element α] (policy : Policy) (role : Role) {queue : List (Operation α)}
    {r : Operation α} {stamp : Stamp} (stamped : r.stamp = some stamp)
    (queued : ∀ op ∈ queue, op.stamp.isSome) :
    let kept := queue.filter fun op => ¬ SentBefore (stamp.state.get receivedAxis) op
    ∃ r' queue', passQueue policy role queue r = .ok (r', queue') ∧
      transformPast policy role r kept = .ok (r', queue') ∧
      r'.stamp = r.stamp ∧ queue'.map (·.stamp) = kept.map (·.stamp) ∧
      ∀ d dq dr : Document α, d.applyAll kept = .ok dq → d.apply r = .ok dr →
        ∃ dqr drq, dq.apply r' = .ok dqr ∧ dr.applyAll queue' = .ok drq ∧
          dqr.values = drq.values := by
  intro kept
  obtain ⟨r', queue', past⟩ := transformPast_total policy role r kept
  have passed : passQueue policy role queue r = .ok (r', queue') := by
    simp only [passQueue, Operation.getStamp, stamped, unseen_eq_filter queued, bind, Except.bind]
    exact past
  obtain ⟨same, others⟩ := transformPast_stamps past
  refine ⟨r', queue', passed, past, same, others, ?_⟩
  intro d dq dr all one
  exact transformPast_applies past all one

/-- A site has sent three operations: a letter, the deletion of another one, and one more letter. -/
def threeSent : List (Operation Char) :=
  [⟨.insert 0 'a', some ⟨.ofNat 1, ⟨[0, 0]⟩⟩⟩, ⟨.delete 1, some ⟨.ofNat 1, ⟨[1, 0]⟩⟩⟩,
    ⟨.insert 0 'x', some ⟨.ofNat 1, ⟨[2, 0]⟩⟩⟩]

/-- The other end had taken in the first of them, and deleted the same letter. -/
theorem queue_passed_deleted_twice :
    let r : Operation Char := ⟨.delete 1, some ⟨.ofNat 2, ⟨[0, 1]⟩⟩⟩
    let kept := threeSent.drop 1
    let d : Document Char := Document.empty.fill ['a', 'b', 'c']
    ∃ dq dr, d.applyAll kept = .ok dq ∧ d.apply r = .ok dr ∧
      ∃ r' queue', passQueue .firstWriterWins .client threeSent r = .ok (r', queue') ∧
        queue'.map (·.stamp) = kept.map (·.stamp) ∧
        ∃ dqr drq, dq.apply r' = .ok dqr ∧ dr.applyAll queue' = .ok drq ∧
          dqr.values = drq.values := by
  intro r kept d
  obtain ⟨dq, all⟩ : ∃ dq, d.applyAll kept = .ok dq := ⟨_, rfl⟩
  obtain ⟨dr, one⟩ : ∃ dr, d.apply r = .ok dr := ⟨_, rfl⟩
  have stamped : r.stamp = some ⟨.ofNat 2, ⟨[0, 1]⟩⟩ := rfl
  have queued : ∀ op ∈ threeSent, op.stamp.isSome := by decide
  obtain ⟨r', queue', passed, -, -, stamps, square⟩ :=
    queue_passed .firstWriterWins .client stamped queued
  have rest : (threeSent.filter fun op => ¬ SentBefore 1 op) = kept := by decide
  exact ⟨dq, dr, all, one, r', queue', passed, stamps.trans (congrArg _ rest),
    square d dq dr ((congrArg d.applyAll rest).trans all) one⟩

end CoEdit
