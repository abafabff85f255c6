import CoEdit.Jupiter
import CoEdit.Proofs.Passage

/-!
# The two ends of a jupiter link

The client and its proxy are the same machine: two counters and a queue of what was sent. Seen from
either end the queue falls in two, what the other end has taken in and what it has not, and the
counters say where. Every step of a link is a step of this kind at both ends (`Holds.send`,
`Holds.told`, `Holds.took`, `Holds.met`); neither end is ever wrong about the other.
-/

namespace CoEdit.Jupiter

variable {α : Type}

/-- The queued operations carry consecutive numbers. -/
def Numbered : Nat → List (Operation α) → Prop
  | _, [] => True
  | n, op :: rest => (∃ stamp, op.stamp = some stamp ∧ stamp.state.get sentAxis = n) ∧
    Numbered (n + 1) rest

theorem numbered_append {n : Nat} {q r : List (Operation α)} :
    Numbered n (q ++ r) ↔ Numbered n q ∧ Numbered (n + q.length) r := by
  induction q generalizing n with
  | nil => simp [Numbered]
  | cons op q ih =>
    simp only [List.cons_append, Numbered, ih, List.length_cons, and_assoc]
    rw [Nat.add_right_comm, Nat.add_assoc]

/-- Rewriting a queue leaves its numbers. -/
theorem Numbered.of_stamps {n : Nat} {q r : List (Operation α)} (h : Numbered n q)
    (same : r.map (·.stamp) = q.map (·.stamp)) : Numbered n r := by
  induction q generalizing n r with
  | nil =>
    rw [List.map_eq_nil_iff.mp same]
    trivial
  | cons op q ih =>
    obtain ⟨op', r, rfl, first, others⟩ := List.map_eq_cons_iff.mp same
    refine ⟨?_, ih h.2 others⟩
    rw [first]
    exact h.1

theorem Numbered.drop {n : Nat} {q : List (Operation α)} (h : Numbered n q) {k : Nat}
    (inside : k ≤ q.length) : Numbered (n + k) (q.drop k) := by
  rw [← List.take_append_drop k q, numbered_append, List.length_take, Nat.min_eq_left inside] at h
  exact h.2

/-- What a peer has not seen is what its count leaves of the queue. -/
theorem Numbered.unseen_eq {n : Nat} {q : List (Operation α)} (h : Numbered n q) (count : Nat) :
    unseen q count = q.drop (count - n) := by
  induction q generalizing n with
  | nil => rw [List.drop_nil]; rfl
  | cons op q ih =>
    obtain ⟨⟨stamp, stamped, number⟩, rest⟩ := h
    simp only [unseen] at ih ⊢
    by_cases new : count ≤ n
    · rw [List.filter_cons_of_pos (by simp [stamped, number, new]), ih rest,
        Nat.sub_eq_zero_of_le new, Nat.sub_eq_zero_of_le (Nat.le_succ_of_le new)]
      rfl
    · rw [List.filter_cons_of_neg (by simp [stamped, number, new]), ih rest]
      obtain ⟨k, rfl⟩ : ∃ k, count = n + 1 + k := ⟨count - (n + 1), by omega⟩
      rw [Nat.add_sub_cancel_left, Nat.add_assoc, Nat.add_sub_cancel_left, Nat.add_comm 1,
        List.drop_succ_cons]

/-- How many operations the sender of a message had taken in. -/
def known (op : Operation α) : Nat := (op.stamp.map (·.state.get receivedAxis)).getD 0

/-- Messages with what their senders knew. -/
def counted (messages : List (Operation α)) : List (Operation α × Nat) :=
  messages.map fun op => (op, known op)

theorem passQueue_eq {policy : Policy} {role : Role} {q : List (Operation α)} {n : Nat}
    {op : Operation α} (h : Numbered n q) (stamped : op.stamp.isSome) :
    passQueue policy role q op = transformPast policy role op (q.drop (known op - n)) := by
  obtain ⟨stamp, stamped⟩ := Option.isSome_iff_exists.mp stamped
  simp only [passQueue, Operation.getStamp, known, stamped, bind, Except.bind, h.unseen_eq]
  rfl

theorem passQueue_stamp {policy : Policy} {role : Role} {q q' : List (Operation α)}
    {op op' : Operation α} (h : passQueue policy role q op = .ok (op', q')) :
    op'.stamp = op.stamp := by
  simp only [passQueue] at h
  cases stamped : op.getStamp with
  | error e =>
    rw [stamped] at h
    cases h
  | ok stamp =>
    rw [stamped] at h
    exact (transformPast_stamps h).1

/-- One end of a link. Of what it sent the other end has taken in the first `taken` operations and
not yet the `fresh` ones; the messages in `inbox` are on their way, and `forms` is what they are in
the end's own document. -/
structure Holds (policy : Policy) (role : Role) (stand : Proxy α) (taken : Nat)
    (inbox fresh forms : List (Operation α)) : Prop where
  queue : ∃ base old, stand.outgoing = old ++ fresh ∧ taken = base + old.length ∧
    Numbered base (old ++ fresh) ∧ Inbound policy role base old (counted inbox) forms
  sent : stand.sent = taken + fresh.length
  stamped : ∀ op ∈ inbox, op.stamp.isSome

namespace Holds

variable {policy : Policy} {role : Role} {stand : Proxy α} {taken : Nat}
  {inbox fresh forms : List (Operation α)}

theorem start (policy : Policy) (role : Role) (n received : Nat) :
    Holds policy role (⟨n, received, []⟩ : Proxy α) n [] [] [] := by
  refine ⟨⟨n, [], rfl, rfl, trivial, .nil n []⟩, rfl, ?_⟩
  intro op h
  cases h

theorem quiet (h : Holds policy role stand taken [] fresh forms) : forms = [] := by
  obtain ⟨⟨base, old, -, -, -, inbound⟩, -, -⟩ := h
  cases inbound
  rfl

/-- The end sends an operation. -/
theorem send (h : Holds policy role stand taken inbox fresh forms) {op : Operation α}
    {stamp : Stamp} (stamped : op.stamp = some stamp)
    (number : stamp.state.get sentAxis = stand.sent) :
    Holds policy role { stand with outgoing := stand.outgoing ++ [op], sent := stand.sent + 1 }
      taken inbox (fresh ++ [op]) forms := by
  obtain ⟨⟨base, old, outgoing, count, numbered, inbound⟩, sent, known⟩ := h
  refine ⟨⟨base, old, ?_, count, ?_, inbound⟩, ?_, known⟩
  · rw [outgoing, List.append_assoc]
  · rw [← List.append_assoc, numbered_append]
    refine ⟨numbered, ⟨stamp, stamped, ?_⟩, trivial⟩
    rw [number, sent, count, List.length_append, Nat.add_assoc]
  · rw [List.length_append, List.length_singleton, ← Nat.add_assoc, ← sent]

/-- The other end sends an operation, and knows what it has taken in. -/
theorem told (h : Holds policy role stand taken inbox fresh forms) {op : Operation α}
    {stamp : Stamp} (stamped : op.stamp = some stamp)
    (count : stamp.state.get receivedAxis = taken) :
    Holds policy role stand taken (inbox ++ [op]) fresh (forms ++ [op]) := by
  obtain ⟨⟨base, old, outgoing, taken_eq, numbered, inbound⟩, sent, known_all⟩ := h
  refine ⟨⟨base, old, outgoing, taken_eq, numbered, ?_⟩, sent, ?_⟩
  · have known_eq : known op = base + old.length := by
      simp only [known, stamped, Option.map_some, Option.getD_some, count, taken_eq]
    rw [counted, List.map_append, List.map_singleton, known_eq]
    exact inbound.send op
  · intro op' among
    rcases List.mem_append.mp among with before | new
    · exact known_all op' before
    · rw [List.mem_singleton.mp new, stamped]
      rfl

/-- The end takes in the oldest message: in its own document it is the oldest of `forms`, and it is
taken past what the other end has not seen. -/
theorem took {op : Operation α}
    (h : Holds policy role stand taken (op :: inbox) fresh forms) :
    ∃ form forms', forms = form :: forms' ∧ ∀ {op' fresh'},
      transformPast policy role form fresh = .ok (op', fresh') →
        ∃ outgoing, passQueue policy role stand.outgoing op = .ok (op', outgoing) ∧
          ∀ received, Holds policy role ⟨stand.sent, received, outgoing⟩ taken inbox fresh'
            forms' := by
  obtain ⟨⟨base, old, outgoing, taken_eq, numbered, inbound⟩, sent, known_all⟩ := h
  cases inbound with
  | @cons _ _ _ old' forms' _ _ form low high past rest =>
    refine ⟨form, forms', rfl, fun {op' fresh'} through => ?_⟩
    have inside : known op - base ≤ old.length := by omega
    have passed : transformPast policy role op ((old ++ fresh).drop (known op - base)) =
        .ok (op', old' ++ fresh') := by
      rw [List.drop_append_of_le_length inside]
      exact transformPast_append_eq_ok.mpr ⟨form, old', fresh', past, through, rfl⟩
    refine ⟨old' ++ fresh', ?_, fun received => ⟨⟨known op, old', rfl, ?_, ?_, rest⟩, ?_, ?_⟩⟩
    · rw [outgoing, passQueue_eq numbered (known_all op List.mem_cons_self), passed]
    · rw [transformPast_length past, List.length_drop]
      omega
    · have within_queue : known op - base ≤ (old ++ fresh).length := by
        rw [List.length_append]
        omega
      have left := numbered.drop within_queue
      rw [Nat.add_sub_cancel' low] at left
      exact left.of_stamps (transformPast_stamps passed).2
    · rw [transformPast_length through]
      exact sent
    · exact fun op' among => known_all op' (List.mem_cons_of_mem _ among)

/-- The other end takes in the oldest operation that it had not seen. -/
theorem met {op op' : Operation α} {forms' : List (Operation α)}
    (h : Holds policy role stand taken inbox (op :: fresh) forms)
    (past : transformPast policy role.other op forms = .ok (op', forms')) :
    Holds policy role stand (taken + 1) inbox fresh forms' := by
  obtain ⟨⟨base, old, outgoing, taken_eq, numbered, inbound⟩, sent, known_all⟩ := h
  have split : old ++ op :: fresh = (old ++ [op]) ++ fresh := by simp
  refine ⟨⟨base, old ++ [op], outgoing.trans split, ?_, split ▸ numbered, inbound.cross past⟩, ?_,
    known_all⟩
  · rw [taken_eq, List.length_append, List.length_singleton, Nat.add_assoc]
  · rw [sent, List.length_cons, Nat.add_right_comm, Nat.add_assoc]

end Holds

end CoEdit.Jupiter
