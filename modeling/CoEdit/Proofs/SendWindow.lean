import CoEdit.Proofs.Refusal

/-!
# The send window of a wave client

A wave client has one operation in flight at most, and lets the others wait behind it. This is no
courtesy of the server: whatever a client is called with, and whether its calls fail or not, nothing
waits without something in flight, and what was generated, sent and acknowledged adds up
(`send_window`). The account is kept call by call (`Wave.Balances`), and the account of a run is the
sum of those of its calls.
-/

namespace CoEdit

open ClientAlgorithm

variable {α : Type}

/-- A call of a client, with the client as the call finds it. -/
structure Visit (C : Type → Type) (α : Type) where
  client : C α
  call : ClientCall α

namespace Visit

variable {C : Type → Type} [ClientAlgorithm C] [Element α]

/-- What comes of the call. -/
def outcome (visit : Visit C α) : Outcome (C α) α Unit :=
  ClientAlgorithm.call visit.client visit.call

/-- The client accepts an operation of its own, which acknowledges the one in flight. -/
def acknowledges (visit : Visit C α) : Bool :=
  match visit.call with
  | .integrate op => op.creator? = some (site visit.client) && visit.outcome.result.isOk
  | _ => false

/-- The client accepts an edit. -/
def generates (visit : Visit C α) : Bool :=
  match visit.call with
  | .generate _ => visit.outcome.result.isOk
  | _ => false

/-- Calls that are made one after the other. -/
def series (client : C α) : List (ClientCall α) → List (Visit C α)
  | [] => []
  | next :: rest => ⟨client, next⟩ :: series (ClientAlgorithm.call client next).state rest

/-- What was sent in some calls, in order. -/
def sentBy (visits : List (Visit C α)) : List (Address × Operation α) :=
  visits.flatMap (·.outcome.sent)

end Visit

theorem Outcome.sent_ofExcept {σ ρ : Type} (before : σ) (answer : Except SyncError (ρ × σ)) :
    (ofExcept before answer : Outcome σ α ρ).sent = [] := by
  cases answer <;> rfl

theorem Outcome.isOk_reply {σ ρ τ : Type} (o : Outcome σ α ρ) (r : τ) :
    (o.reply r).result.isOk = o.result.isOk := by
  simp only [reply]
  cases o.result <;> rfl

namespace Wave

variable {site : SiteId} {client : Client α}

/-- How many operations are in flight, none or one. -/
def Client.flying (client : Client α) : Nat := client.inFlight.toList.length

/-- An operation that is taken past what is under way leaves as much of it. -/
theorem past_lengths {policy : Policy} {op op' : Operation α} {underWay : List (Operation α)}
    (past : transformPast policy .client op (client.inFlight.toList ++ client.buffer) =
      .ok (op', underWay)) :
    (client.past underWay).flying = client.flying ∧
      (client.past underWay).buffer.length = client.buffer.length := by
  have length := transformPast_length past
  simp only [Client.past, Client.flying]
  cases flying : client.inFlight with
  | none => exact ⟨rfl, rfl⟩
  | some first =>
    rw [flying] at length
    cases underWay with
    | nil => cases length
    | cons first' rest => exact ⟨rfl, Nat.succ.inj length⟩

/-- The account of a step: what is sent goes in flight, what is generated goes in flight or waits,
and an acknowledgement takes one operation out. -/
structure Balances {ρ : Type} (client : Client α) (o : Outcome (Client α) α ρ)
    (acknowledged generated : Bool) : Prop where
  sent : client.flying + o.sent.length = acknowledged.toNat + o.state.flying
  generated : client.flying + client.buffer.length + generated.toNat =
    acknowledged.toNat + o.state.flying + o.state.buffer.length

/-- A silent step that leaves as much under way is balanced. -/
theorem Balances.still {ρ : Type} {o : Outcome (Client α) α ρ} (silent : o.sent = [])
    (flying : o.state.flying = client.flying)
    (buffer : o.state.buffer.length = client.buffer.length) : Balances client o false false := by
  constructor
  · rw [silent, flying]
    exact Nat.add_comm ..
  · rw [flying, buffer, Bool.toNat_false]
    omega

/-- What a step returns has nothing to do with it. -/
theorem Balances.reply {ρ τ : Type} {o : Outcome (Client α) α ρ} {acknowledged generated : Bool}
    (h : Balances client o acknowledged generated) (r : τ) :
    Balances client (o.reply r) acknowledged generated :=
  ⟨h.sent, h.generated⟩

variable [Element α]

theorem generate_balances (paced : Paced site client) (op : Operation α) :
    Balances client (generate client op) false (generate client op).result.isOk := by
  rcases generate_cases client op with ⟨e, failed⟩ | ⟨copy, -, done⟩
  · rw [failed]
    exact .still rfl rfl rfl
  · cases flying : client.inFlight with
    | none =>
      have waiting : client.buffer = [] := paced.waits flying
      rw [done, flying, waiting]
      constructor <;>
        simp [Client.flying, flying, waiting, Outcome.done, Except.isOk, Except.toBool]
    | some first =>
      rw [done, flying]
      constructor <;>
        simp [Client.flying, flying, Outcome.done, Except.isOk, Except.toBool]
      omega

omit [Element α] in
/-- The echo of the operation in flight takes it out, and sends the next one. -/
theorem acknowledge_balances (paced : Paced site client) (echo : Operation α) :
    Balances client ({ client with seen := client.seen + 1 }.acknowledge echo)
      ({ client with seen := client.seen + 1 }.acknowledge echo).result.isOk false := by
  cases flying : client.inFlight with
  | none =>
    simp only [Client.acknowledge]
    exact .still rfl (by simp only [Client.flying, flying, Outcome.fail]) rfl
  | some first =>
    cases waiting : client.buffer with
    | nil =>
      simp only [Client.acknowledge]
      constructor <;>
        simp [Client.flying, flying, waiting, Outcome.done, Except.isOk, Except.toBool]
    | cons next rest =>
      -- what waits was stamped by the client, so it can be stamped anew and sent
      have mine : next.creator? = some site :=
        paced.owned.buffer next (waiting ▸ List.mem_cons_self)
      simp only [Client.acknowledge, Operation.retag_eq_ok mine]
      constructor <;>
        simp [Client.flying, flying, waiting, Outcome.done, Except.isOk, Except.toBool]
      omega

theorem receive_balances (client : Client α) (op : Operation α) :
    Balances client (client.receive op) false false := by
  obtain ⟨op', underWay, past⟩ := transformPast_total client.copy.policy .client op
    (client.inFlight.toList ++ client.buffer)
  obtain ⟨flying, buffer⟩ := past_lengths past
  rw [receive_eq past]
  split
  · exact .still rfl flying buffer
  · exact .still rfl flying buffer

theorem integrate_balances (paced : Paced site client) (op : Operation α) :
    Balances client (integrate client op)
      (op.creator? = some client.site && (integrate client op).result.isOk) false := by
  change Balances client (client.integrate op)
    (op.creator? = some client.site && (client.integrate op).result.isOk) false
  cases stamped : op.stamp with
  | none =>
    have refused : client.integrate op = .fail .unstamped client := by
      simp only [Client.integrate, stamped]
    rw [refused, Operation.creator?, stamped]
    exact .still rfl rfl rfl
  | some stamp =>
    have made := Operation.creator?_eq stamped
    by_cases own : stamp.creator = client.site
    · have echoed : client.integrate op =
          { client with seen := client.seen + 1 }.acknowledge op := by
        simp only [Client.integrate, stamped, if_pos own]
      rw [made, own, decide_eq_true rfl, Bool.true_and, echoed]
      exact acknowledge_balances paced op
    · have foreign : ¬ some stamp.creator = some client.site := fun same =>
        own (Option.some.inj same)
      rw [made, decide_eq_false foreign, Bool.false_and, integrate_of_foreign paced made own]
      exact receive_balances client op

/-- Nothing but edits and messages is sent, or changes what is under way. -/
theorem other_balances {next : ClientCall α} (no_edit : ∀ op, next ≠ .generate op)
    (no_message : ∀ op, next ≠ .integrate op) : Balances client (call client next) false false := by
  have silent : (call client next).sent = [] := by
    cases next with
    | generate op => exact absurd rfl (no_edit op)
    | integrate op => exact absurd rfl (no_message op)
    | fill data => exact Outcome.sent_ofExcept ..
    | moveState state => exact Outcome.sent_ofExcept ..
    | register cursor => exact Outcome.sent_ofExcept ..
    | moveCursor id position => exact Outcome.sent_ofExcept ..
    | deregister id =>
      change (deregister client id).sent = []
      exact Outcome.sent_ofExcept ..
  rcases call_cases client next with ⟨op, edit⟩ | ⟨op, message⟩ | ⟨seen, copy, state⟩
  · exact absurd edit (no_edit op)
  · exact absurd message (no_message op)
  · refine .still silent ?_ ?_
    · rw [state]
      rfl
    · rw [state]

/-- Every call is balanced. -/
theorem visit_balances (paced : Paced site client) (next : ClientCall α) :
    let visit : Visit Client α := ⟨client, next⟩
    Balances client visit.outcome visit.acknowledges visit.generates := by
  cases next with
  | generate op =>
    simp only [Visit.acknowledges, Visit.generates, Visit.outcome, call, Outcome.isOk_reply]
    exact (generate_balances paced op).reply ()
  | integrate op =>
    simp only [Visit.acknowledges, Visit.generates, Visit.outcome, call, Outcome.isOk_reply]
    exact (integrate_balances paced op).reply ()
  | fill data | moveState state | register cursor | moveCursor id position | deregister id =>
    refine other_balances ?_ ?_ <;>
      · intro op same
        cases same

/-- The accounts of a run of calls add up. -/
theorem series_balances (paced : Paced site client) (calls : List (ClientCall α)) :
    let visits := Visit.series client calls
    client.flying + (Visit.sentBy visits).length =
        visits.countP (·.acknowledges) + (callAll client calls).flying ∧
      client.flying + client.buffer.length + visits.countP (·.generates) =
        visits.countP (·.acknowledges) + (callAll client calls).flying +
          (callAll client calls).buffer.length := by
  induction calls generalizing client with
  | nil => exact ⟨Nat.add_comm .., by simp [Visit.series, callAll]⟩
  | cons next rest ih =>
    -- what the first call leaves under way is what the others start with
    obtain ⟨sent, generated⟩ := visit_balances paced next
    obtain ⟨sent_later, generated_later⟩ := ih (call_paced next paced)
    have count : ∀ (p : Visit Client α → Bool) (visit : Visit Client α) later,
        (visit :: later).countP p = (p visit).toNat + later.countP p := by
      intro p visit later
      rw [List.countP_cons, Nat.add_comm]
      cases p visit <;> rfl
    have outcome : Visit.outcome ⟨client, next⟩ = call client next := rfl
    rw [outcome] at sent generated
    simp only [Visit.sentBy] at sent_later
    simp only [Visit.series, Visit.sentBy, List.flatMap_cons, List.length_append, count, callAll,
      outcome]
    constructor <;> omega

/-- A client whose operations wait behind one in flight never finds them stalled. -/
theorem not_stalled (paced : Paced site client) (op : Operation α) (stalled : SiteId) (n : Nat) :
    (integrate client op).result ≠ .error (.protocol (.stalledBuffer stalled n)) := by
  intro failed
  obtain ⟨left, refusal⟩ := Outcome.exists_reason (integrate_cases paced op)
    (fun _ _ h => h.integrate_eq paced) failed
  cases refusal with
  | unfit made foreign past refused => cases LocalCopy.ofContent_of_apply refused

end Wave

/-- Whatever a new client is called with, calls that fail included: while nothing is in flight
nothing waits, so that no operation finds a stalled buffer; every operation that was sent is
acknowledged or in flight; and every edit that was accepted is acknowledged, in flight or waiting.
-/
theorem send_window [Element α] (policy : Policy) (site : SiteId) (calls : List (ClientCall α)) :
    let client : Wave.Client α := callAll (start policy site) calls
    let visits := Visit.series (start policy site : Wave.Client α) calls
    (client.inFlight = none → client.buffer = []) ∧
    (∀ op stalled n,
      (integrate client op).result ≠ .error (.protocol (.stalledBuffer stalled n))) ∧
    (Visit.sentBy visits).length =
      visits.countP (·.acknowledges) + client.inFlight.toList.length ∧
    visits.countP (·.generates) =
      visits.countP (·.acknowledges) + client.inFlight.toList.length + client.buffer.length := by
  intro client visits
  have started := Wave.Paced.start (α := α) policy site
  have paced : Wave.Paced site client := Wave.callAll_paced started calls
  obtain ⟨sent, generated⟩ := Wave.series_balances started calls
  have idle : (start policy site : Wave.Client α).flying = 0 := rfl
  have empty : (start policy site : Wave.Client α).buffer = [] := rfl
  rw [idle, Nat.zero_add] at sent generated
  rw [empty, List.length_nil, Nat.zero_add] at generated
  exact ⟨paced.waits, Wave.not_stalled paced, sent, generated⟩

end CoEdit
