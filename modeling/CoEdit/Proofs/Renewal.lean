import CoEdit.Proofs.Replay
import CoEdit.Proofs.WaveConvergence

/-!
# Replicas without a past

A replica keeps a history and, beside each element, what updates overwrote. Neither has a part in
what it does for anybody else: whether an operation is accepted, for which reason it is refused,
what it does to the elements and what is sent would be the same had the replica started anew from
its own elements (`Oblivious`). So two clients that differ in their past only keep differing in it
only.
-/

namespace CoEdit

variable {α : Type}

/-- Two results that a function makes equal failed for one reason, or both succeeded. -/
theorem Except.cases_of_map_eq {ε β γ : Type} {f : β → γ} {x y : Except ε β}
    (same : x.map f = y.map f) :
    (∃ e, x = .error e ∧ y = .error e) ∨ ∃ a b, x = .ok a ∧ y = .ok b ∧ f a = f b := by
  cases x with
  | error e =>
    cases y with
    | error e' =>
      cases same
      exact .inl ⟨e, rfl, rfl⟩
    | ok b => cases same
  | ok a =>
    cases y with
    | error e => cases same
    | ok b => exact .inr ⟨a, b, rfl, rfl, Except.ok.inj same⟩

/-- The slot with nothing overwritten. -/
def Slot.renewed (s : Slot α) : Slot α := .fresh s.value

@[simp] theorem Slot.renewed_comp_renewed : renewed ∘ renewed = (renewed : Slot α → Slot α) := rfl

namespace Document

/-- The document with the same elements and nothing overwritten. -/
def renewed (d : Document α) : Document α := { d with slots := d.slots.map Slot.renewed }

@[simp] theorem size_renewed (d : Document α) : d.renewed.size = d.size := List.length_map ..

@[simp] theorem renewed_renewed (d : Document α) : d.renewed.renewed = d.renewed := by
  simp only [renewed, List.map_map, Slot.renewed_comp_renewed]

/-- The elements of a document, put into an empty one, are the document without its past. -/
theorem renewed_fill_values {d : Document α} (unstaged : d.lifecycle = .uninitialized) :
    (empty.fill d.values).renewed = d.renewed := by
  simp only [renewed, fill, values, List.map_map, unstaged]
  rfl

/-- Without their past documents differ in their elements only. -/
theorem renewed_eq_iff {d d' : Document α} :
    d.renewed = d'.renewed ↔ d.values = d'.values ∧ d.lifecycle = d'.lifecycle := by
  have values : d.slots.map Slot.renewed = d'.slots.map Slot.renewed ↔ d.values = d'.values := by
    constructor
    · intro same
      have same := congrArg (List.map Slot.value) same
      rwa [List.map_map, List.map_map] at same
    · intro same
      have same := congrArg (List.map Slot.fresh) same
      rwa [Document.values, Document.values, List.map_map, List.map_map] at same
  cases d
  cases d'
  simp only [renewed, mk.injEq, values, and_comm]

theorem getSlot_renewed (d : Document α) (p : Nat) :
    d.renewed.getSlot p = (d.getSlot p).map Slot.renewed := by
  simp only [getSlot, size_renewed]
  simp only [renewed, List.getElem?_map]
  cases d.slots[p]? <;> rfl

end Document

variable [Element α]

theorem Slot.update_renewed (s : Slot α) (state : StateVector) (tag : String) (delta : Fields) :
    (s.renewed.update state tag delta).map renewed = (s.update state tag delta).map renewed := by
  have value : s.renewed.value = s.value := rfl
  simp only [update, value]
  by_cases other : Element.typeTag s.value ≠ tag
  · rw [if_pos other, if_pos other]
  · rw [if_neg other, if_neg other]
    split <;> rfl

/-- Without its past a document refuses what it refuses with it, for the same reason, and what it
accepts leaves it with the same elements. -/
theorem Document.apply_renewed (d : Document α) (op : Operation α) :
    (d.renewed.apply op).map renewed = (d.apply op).map renewed := by
  simp only [apply]
  cases op.edit with
  | noop => exact congrArg Except.ok d.renewed_renewed
  | insert p v =>
    simp only [size_renewed]
    split
    · simp [Except.map, renewed, List.map_insertIdx]
    · rfl
  | delete p =>
    simp only [size_renewed]
    split
    · simp [Except.map, renewed, List.eraseIdx_map]
    · rfl
  | replace p v =>
    simp only [size_renewed]
    split
    · simp [Except.map, renewed, List.map_set]
    · rfl
  | update p tag delta =>
    simp only [bind, Except.bind, getSlot_renewed]
    cases d.getSlot p with
    | error e => rfl
    | ok slot =>
      cases op.getStamp with
      | error e => rfl
      | ok stamp =>
        simp only [Except.map]
        rcases Except.cases_of_map_eq (slot.update_renewed stamp.state tag delta) with
          ⟨e, failed, failed'⟩ | ⟨s, s', done, done', same⟩
        · rw [failed, failed']
        · rw [done, done']
          simp [pure, Except.pure, renewed, List.map_set, same]

namespace LocalCopy

/-- The copy with its past forgotten: only what a snapshot would bring, the cursors and the policy
are left. -/
def renewed (copy : LocalCopy α) : LocalCopy α :=
  { copy with document := copy.document.renewed, history := [] }

omit [Element α] in
@[simp] theorem renewed_renewed (copy : LocalCopy α) : copy.renewed.renewed = copy.renewed := by
  simp only [renewed, Document.renewed_renewed]

omit [Element α] in
/-- Copies that differ in their past show the same elements and the same cursors. -/
theorem renewed_eq_iff {copy copy' : LocalCopy α} :
    copy.renewed = copy'.renewed ↔
      (copy.document.values = copy'.document.values ∧
        copy.document.lifecycle = copy'.document.lifecycle) ∧
      copy.cursors = copy'.cursors ∧ copy.policy = copy'.policy := by
  rw [← Document.renewed_eq_iff]
  cases copy
  cases copy'
  simp only [renewed, mk.injEq, true_and]

/-- Without its past a copy refuses the same operations, and what it accepts has the same effect. -/
theorem apply_renewed (copy : LocalCopy α) (op : Operation α) :
    (copy.renewed.apply op).map renewed = (copy.apply op).map renewed := by
  have same := copy.document.apply_renewed op
  simp only [apply, renewed]
  rcases Except.cases_of_map_eq same with ⟨e, failed, failed'⟩ | ⟨d, d', done, done', same⟩
  · rw [failed, failed']
    rfl
  · rw [done, done']
    simp only [Except.map, renewed, same]

/-- A fill takes the place of the past. -/
theorem load_renewed (copy : LocalCopy α) (data : Fill α) :
    (copy.renewed.load data).map renewed = (copy.load data).map renewed := by
  cases data with
  | snapshot values state => rfl
  | replay history state =>
    simp only [load]
    cases Document.empty.applyAll history <;> rfl

/-- Fills of both kinds come down to one copy without a past. -/
theorem Replays.load_capture_renewed {copy : LocalCopy α} (replays : copy.Replays)
    (policy : Policy) (mode : FillMode) (state : StateVector) :
    ((empty policy).load (copy.capture mode state)).map renewed =
      .ok ⟨copy.document.renewed, [], .empty, policy⟩ := by
  cases mode with
  | stateBased =>
    have same := Document.renewed_fill_values (Document.lifecycle_applyAll replays)
    simp only [capture, LocalCopy.load, Except.map, renewed, empty]
    rw [same]
  | operationBased =>
    simp only [Replays] at replays
    simp only [capture, LocalCopy.load, replays]
    rfl

end LocalCopy

namespace ClientAlgorithm

variable {C : Type → Type} [ClientAlgorithm C]

omit [Element α] in
/-- The client with the past of its copy forgotten. -/
def renewed (client : C α) : C α := withCopy client (copy client).renewed

omit [Element α] in
/-- A step does to a client without its past what it does to the client. -/
def Oblivious {ρ : Type} (step : C α → Outcome (C α) α ρ) : Prop :=
  ∀ client, (step (renewed client)).within renewed = (step client).within renewed

omit [Element α] in
theorem Oblivious.reply {ρ τ : Type} {step : C α → Outcome (C α) α ρ} (h : Oblivious step)
    (r : τ) : Oblivious fun client => (step client).reply r := by
  intro client
  exact congrArg (Outcome.reply · r) (h client)

/-- The copy is a part of the client of its own, and its past plays no part in what is done. -/
structure Forgets (C : Type → Type) [ClientAlgorithm C] (α : Type) [Element α] : Prop
    extends Records C α where
  withCopy_withCopy : ∀ (client : C α) first last,
    withCopy (withCopy client first) last = withCopy client last
  state_withCopy : ∀ (client : C α) loaded, state (withCopy client loaded) = state client
  setState_withCopy : ∀ (client : C α) loaded v,
    setState (withCopy client loaded) v = (setState client v).map (withCopy · loaded)
  generate : ∀ op, Oblivious fun client : C α => generate client op
  integrate : ∀ op, Oblivious fun client : C α => integrate client op

namespace Forgets

variable (forgets : Forgets C α) (client : C α)
include forgets

theorem copy_renewed : copy (renewed client) = (copy client).renewed :=
  forgets.copy_withCopy ..

theorem renewed_withCopy (loaded : LocalCopy α) :
    renewed (withCopy client loaded) = withCopy client loaded.renewed := by
  simp only [renewed, forgets.copy_withCopy, forgets.withCopy_withCopy]

theorem map_renewed_setState (v : StateVector) :
    (setState client v).map renewed = setState (renewed client) v := by
  simp only [renewed, forgets.setState_withCopy]
  cases moved : setState client v with
  | error e => rfl
  | ok client' => simp only [Except.map, renewed, forgets.copy_setState moved]

/-- What is left of a fill when the past is forgotten. -/
theorem map_renewed_fill (data : Fill α) :
    (fill client data).map renewed =
      if data.state.size ≠ (state client).size then
        .error (.stateShape (state client).size data.state.size)
      else ((copy client).load data).map LocalCopy.renewed >>= fun loaded =>
        setState (withCopy client loaded) data.state := by
  simp only [fill]
  split
  · rfl
  · simp only [bind, Except.bind]
    cases (copy client).load data with
    | error e => rfl
    | ok loaded =>
      simp only [Except.map, ← forgets.renewed_withCopy, ← forgets.map_renewed_setState]

theorem renewed_renewed : renewed (renewed client) = renewed client := by
  simp only [renewed, forgets.copy_withCopy, forgets.withCopy_withCopy, LocalCopy.renewed_renewed]

theorem cursors_renewed : (copy (renewed client)).cursors = (copy client).cursors := by
  rw [forgets.copy_renewed]
  rfl

theorem renewed_withCursors (cursors : Cursors) :
    renewed (withCursors (renewed client) cursors) = renewed (withCursors client cursors) := by
  simp only [withCursors, forgets.renewed_withCopy, forgets.copy_renewed, LocalCopy.renewed,
    Document.renewed_renewed]
  exact forgets.withCopy_withCopy ..

/-- A fill takes the place of the past. -/
theorem oblivious_load (data : Fill α) : Oblivious fun client : C α => load client data := by
  intro client
  have same : (fill (renewed client) data).map renewed = (fill client data).map renewed := by
    have state_eq : state (renewed client) = state client := forgets.state_withCopy ..
    have put : ∀ loaded, withCopy (renewed client) loaded = withCopy client loaded :=
      fun loaded => forgets.withCopy_withCopy ..
    simp only [forgets.map_renewed_fill, forgets.copy_renewed, LocalCopy.load_renewed, state_eq,
      put]
  simp only [load]
  rcases Except.cases_of_map_eq same with ⟨e, failed, failed'⟩ | ⟨c, c', filled, filled', same⟩
  · rw [failed, failed']
    exact congrArg (Outcome.fail e) (forgets.renewed_renewed client)
  · rw [filled, filled']
    exact congrArg (Outcome.done () · []) same

theorem oblivious_moveState (v : StateVector) :
    Oblivious fun client : C α => moveState client v := by
  intro client
  simp only [moveState, ← forgets.map_renewed_setState]
  cases setState client v with
  | error e => exact congrArg (Outcome.fail e) (forgets.renewed_renewed client)
  | ok moved => exact congrArg (Outcome.done () · []) (forgets.renewed_renewed moved)

/-- Whatever is done to the cursors is done to those that are there with or without a past. -/
theorem oblivious_cursors {β ρ : Type} (change : Cursors → Except SyncError β)
    (cursors : β → Cursors) (result : β → ρ) :
    Oblivious fun client : C α => Outcome.ofExcept (α := α) client
      ((change (copy client).cursors).map fun b => (result b, withCursors client (cursors b))) := by
  intro client
  simp only [forgets.cursors_renewed]
  cases change (copy client).cursors with
  | error e => exact congrArg (Outcome.fail e) (forgets.renewed_renewed client)
  | ok b =>
    exact congrArg (Outcome.done (result b) · []) (forgets.renewed_withCursors client (cursors b))

/-- Whatever a client is asked to do, its past has no part in it. -/
theorem oblivious_call (next : ClientCall α) : Oblivious fun client : C α => call client next := by
  cases next with
  | fill data => exact forgets.oblivious_load data
  | generate op => exact (forgets.generate op).reply ()
  | integrate op => exact (forgets.integrate op).reply ()
  | moveState v => exact forgets.oblivious_moveState v
  | register cursor => exact forgets.oblivious_cursors (·.register cursor) id fun _ => ()
  | moveCursor cursor position =>
    exact forgets.oblivious_cursors (·.moveTo cursor position) id fun _ => ()
  | deregister cursor =>
    exact (forgets.oblivious_cursors (·.deregister cursor) Prod.snd Prod.fst).reply ()

end Forgets

end ClientAlgorithm

namespace Outcome

variable {C : Type → Type} [ClientAlgorithm C]

open ClientAlgorithm

/-- What most steps end in: the operation is applied, and put into the client that is left. -/
def applying (copy : LocalCopy α) (op : Operation α) (refused accepted : LocalCopy α → C α)
    (sent : List (Address × Operation α)) : Outcome (C α) α (Operation α) :=
  match copy.apply op with
  | .error e => .fail e (refused copy)
  | .ok applied => .done op (accepted applied) sent

theorem applying_renewed (copy : LocalCopy α) (op : Operation α)
    (refused accepted : LocalCopy α → C α) (sent : List (Address × Operation α))
    (refuses : ∀ copy, renewed (refused copy) = refused copy.renewed)
    (accepts : ∀ copy, renewed (accepted copy) = accepted copy.renewed) :
    (applying copy.renewed op refused accepted sent).within renewed =
      (applying copy op refused accepted sent).within renewed := by
  simp only [applying]
  rcases Except.cases_of_map_eq (copy.apply_renewed op) with
    ⟨e, failed, failed'⟩ | ⟨a, a', done, done', same⟩
  · rw [failed, failed']
    simp only [within, fail, refuses, LocalCopy.renewed_renewed]
  · rw [done, done']
    simp only [within, Outcome.done, accepts, same]

end Outcome

namespace Wave

open ClientAlgorithm

omit [Element α] in
/-- Clients that differ in their past have seen the same and have the same under way. -/
theorem Client.renewed_eq_iff {client client' : Client α} :
    renewed client = renewed client' ↔ client.site = client'.site ∧ client.seen = client'.seen ∧
      client.copy.renewed = client'.copy.renewed ∧ client.inFlight = client'.inFlight ∧
      client.buffer = client'.buffer := by
  cases client
  cases client'
  exact Eq.to_iff (Client.mk.injEq ..)

variable (op : Operation α)

theorem Client.oblivious_generate : Oblivious fun client : Client α => generate client op := by
  intro client
  change (Client.generate { client with copy := client.copy.renewed } op).within _ =
    (client.generate op).within _
  by_cases idle : client.inFlight.isNone && client.buffer.isEmpty
  · simp only [Client.generate, if_pos idle]
    exact Outcome.applying_renewed client.copy _ (fun copy => { client with copy })
      (fun copy => { client with copy, inFlight := some (op.stamped client.site client.state) }) _
      (fun _ => rfl) fun _ => rfl
  · simp only [Client.generate, if_neg idle]
    exact Outcome.applying_renewed client.copy _ (fun copy => { client with copy })
      (fun copy => { client with
        copy, buffer := client.buffer ++ [op.stamped client.site client.state] }) _
      (fun _ => rfl) fun _ => rfl

omit [Element α] in
/-- An acknowledgement does not come near the copy. -/
theorem Client.acknowledge_renewed (client : Client α) :
    ((renewed client).acknowledge op).within renewed = (client.acknowledge op).within renewed := by
  have fixed : ∀ client : Client α, renewed (renewed client) = renewed client := fun client =>
    congrArg (fun copy => { client with copy }) client.copy.renewed_renewed
  change (Client.acknowledge { client with copy := client.copy.renewed } op).within _ = _
  simp only [Client.acknowledge, Client.state]
  split
  · exact congrArg (Outcome.fail _) (fixed client)
  · exact congrArg (Outcome.done op · []) (fixed { client with inFlight := none })
  · split
    · exact congrArg (Outcome.fail _) (fixed { client with inFlight := none, buffer := _ })
    · exact congrArg (Outcome.done _ · _) (fixed { client with inFlight := some _, buffer := _ })

theorem Client.receive_renewed (client : Client α) :
    ((renewed client).receive op).within renewed = (client.receive op).within renewed := by
  obtain ⟨op', underWay, past⟩ := transformPast_total client.copy.policy .client op
    (client.inFlight.toList ++ client.buffer)
  have past' : transformPast (renewed client).copy.policy .client op
    ((renewed client).inFlight.toList ++ (renewed client).buffer) = .ok (op', underWay) := past
  rw [receive_eq past, receive_eq past']
  exact Outcome.applying_renewed client.copy op' (fun copy => { client.past underWay with copy })
    (fun copy => { client.past underWay with copy }) [] (fun _ => rfl) fun _ => rfl

theorem Client.oblivious_integrate : Oblivious fun client : Client α => integrate client op := by
  intro client
  have fixed : renewed (renewed client) = renewed client :=
    congrArg (fun copy => { client with copy }) client.copy.renewed_renewed
  have site : (renewed client).site = client.site := rfl
  have flying : (renewed client).inFlight = client.inFlight := rfl
  have waiting : (renewed client).buffer = client.buffer := rfl
  change ((renewed client).integrate op).within _ = (client.integrate op).within _
  simp only [Client.integrate, site, flying, waiting]
  split
  · exact congrArg (Outcome.fail _) fixed
  · split
    · exact Client.acknowledge_renewed op { client with seen := client.seen + 1 }
    · split
      · exact congrArg (Outcome.fail _) fixed
      · exact Client.receive_renewed op client

/-- What a wave client does is settled without its past. -/
theorem Client.forgets : Forgets Client α where
  toRecords := Client.records
  withCopy_withCopy _ _ _ := rfl
  state_withCopy _ _ := rfl
  setState_withCopy client loaded v := by
    change (client.state.copyFrom v).map _ = ((client.state.copyFrom v).map _).map _
    cases client.state.copyFrom v <;> rfl
  generate := Client.oblivious_generate
  integrate := Client.oblivious_integrate

end Wave

namespace Jupiter

open ClientAlgorithm

omit [Element α] in
/-- Clients that differ in their past have the same counters and the same queue. -/
theorem Client.renewed_eq_iff {client client' : Client α} :
    renewed client = renewed client' ↔ client.site = client'.site ∧ client.sent = client'.sent ∧
      client.received = client'.received ∧ client.copy.renewed = client'.copy.renewed ∧
      client.outgoing = client'.outgoing := by
  cases client
  cases client'
  exact Eq.to_iff (Client.mk.injEq ..)

variable (op : Operation α)

theorem Client.oblivious_generate : Oblivious fun client : Client α => generate client op := by
  intro client
  exact Outcome.applying_renewed client.copy _ (fun copy => { client with copy })
    (fun copy => { client with
      copy
      outgoing := client.outgoing ++ [op.stamped client.site client.state]
      sent := client.sent + 1 }) _ (fun _ => rfl) fun _ => rfl

theorem Client.oblivious_integrate : Oblivious fun client : Client α => integrate client op := by
  intro client
  change ((renewed client).integrate op).within _ = (client.integrate op).within _
  have queue : passQueue (renewed client).copy.policy .client (renewed client).outgoing op =
      passQueue client.copy.policy .client client.outgoing op := rfl
  simp only [Client.integrate, queue]
  cases passQueue client.copy.policy .client client.outgoing op with
  | error e =>
    exact congrArg (fun copy => Outcome.fail e { client with copy }) client.copy.renewed_renewed
  | ok passed =>
    obtain ⟨op', outgoing⟩ := passed
    exact Outcome.applying_renewed client.copy op' (fun copy => { client with copy, outgoing })
      (fun copy => { client with copy, outgoing, received := client.received + 1 }) []
      (fun _ => rfl) fun _ => rfl

/-- What a jupiter client does is settled without its past. -/
theorem Client.forgets : Forgets Client α where
  toRecords := Client.records
  withCopy_withCopy _ _ _ := rfl
  state_withCopy _ _ := rfl
  setState_withCopy client loaded v := by
    change (client.state.copyFrom v).map _ = ((client.state.copyFrom v).map _).map _
    cases client.state.copyFrom v <;> rfl
  generate := Client.oblivious_generate
  integrate := Client.oblivious_integrate

end Jupiter

end CoEdit
