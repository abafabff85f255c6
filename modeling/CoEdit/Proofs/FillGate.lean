import CoEdit.Proofs.Replay
import CoEdit.Session

/-!
# The gate of a session

A session is closed until a fill opens it. Messages and edits come in any order, and an edit that
comes too early waits, to be tried again at any time. Until the first fill that succeeds the client
is as good as new, whatever was tried; from then on there is no other fill, and whatever is done is
done to a document that contains what was loaded.
-/

namespace CoEdit

open ClientAlgorithm

variable {α : Type}

/-- What a client makes of a fill: the document that it starts with, unless the fill does not have
a state of the right size or its history cannot be replayed. -/
def Fill.unpack [Element α] (size : Nat) (data : Fill α) : Except SyncError (Document α) :=
  if data.state.size = size then data.base.applyAll data.history
  else .error (.stateShape size data.state.size)

theorem Fill.unpack_eq_ok [Element α] {size : Nat} {data : Fill α} {document : Document α}
    (unpacked : data.unpack size = .ok document) :
    data.state.size = size ∧ data.base.applyAll data.history = .ok document := by
  simp only [unpack] at unpacked
  split at unpacked
  · exact ⟨‹_›, unpacked⟩
  · cases unpacked

/-- A session, the edits that wait for its fill, the oldest first, and a record of the fills that
were loaded and the operations that were sent. -/
structure Gate (C : Type → Type) (α : Type) where
  session : Session C α
  waiting : List (LocalEdit α)
  loaded : List (Fill α)
  sent : List (Address × Operation α)

inductive GateEvent (α : Type) where
  | receive (m : Message α)
  | edit (e : LocalEdit α)
  /-- one of the edits that wait is tried again -/
  | resume (index : Nat)
  /-- cursors are registered, moved or taken out -/
  | steer (cursors : Cursors)

def GateEvent.edit? : GateEvent α → Option (LocalEdit α)
  | .edit e => some e
  | _ => none

namespace LocalCopy

variable [Element α] {copy copy' : LocalCopy α} {data : Fill α}

/-- A copy contains a fill if its history goes on from there and leads to its document. -/
structure Contains (copy : LocalCopy α) (data : Fill α) : Prop where
  history : data.history <+: copy.history
  replays : copy.ReplaysFrom data.base

theorem Advances.contains (h : copy.Advances copy') (contains : copy.Contains data) :
    copy'.Contains data := by
  refine ⟨?_, h.replaysFrom contains.replays⟩
  cases h with
  | still document history => exact history ▸ contains.history
  | applied done =>
    obtain ⟨-, history, -⟩ := apply_eq_ok done
    rw [history]
    exact contains.history.trans (List.prefix_append ..)

/-- What is loaded is the document of the fill with its history. -/
theorem load_eq (unstaged : copy.Unstaged) (data : Fill α) :
    copy.load data = (data.base.applyAll data.history).map fun document =>
      { copy with document, history := data.history } := by
  cases data with
  | snapshot values state =>
    -- a snapshot leaves the stage of the document alone, and it is still that of an empty one
    simp only [load, Fill.base, Fill.history, Document.applyAll, Document.fill, Except.map]
    rw [unstaged]
    rfl
  | replay history state => rfl

end LocalCopy

namespace ClientAlgorithm

/-- The copy of a client is a part of its own, and a client takes over any state of the right
size. -/
structure Fillable (C : Type → Type) [ClientAlgorithm C] (α : Type) [Element α] : Prop
    extends Records C α where
  withCopy_copy : ∀ client : C α, withCopy client (copy client) = client
  withCopy_withCopy : ∀ (client : C α) first last,
    withCopy (withCopy client first) last = withCopy client last
  state_withCopy : ∀ (client : C α) loaded, state (withCopy client loaded) = state client
  exists_setState : ∀ (client : C α) {v : StateVector}, v.size = (state client).size →
    ∃ client', setState client v = .ok client' ∧ state client' = v

variable {C : Type → Type} [ClientAlgorithm C] [Element α] {client : C α} {data : Fill α}

theorem fill_of_unpack_error {e : SyncError} (unstaged : (copy client).Unstaged)
    (refused : data.unpack (state client).size = .error e) : fill client data = .error e := by
  simp only [Fill.unpack] at refused
  simp only [fill, LocalCopy.load_eq unstaged]
  split at refused
  · rename_i shape
    rw [refused, if_neg (not_not_intro shape)]
    rfl
  · rename_i shape
    cases refused
    rw [if_pos shape]
    rfl

/-- A fill that can be unpacked is loaded. -/
theorem Fillable.fill_of_unpack (fillable : Fillable C α) {document : Document α}
    (unstaged : (copy client).Unstaged)
    (unpacked : data.unpack (state client).size = .ok document) :
    ∃ client', fill client data = .ok client' ∧ (copy client').document = document ∧
      (copy client').history = data.history ∧ state client' = data.state := by
  obtain ⟨shape, replayed⟩ := Fill.unpack_eq_ok unpacked
  have load := LocalCopy.load_eq unstaged data
  rw [replayed] at load
  have shape' : data.state.size = (state (withCopy client
      { copy client with document, history := data.history })).size := by
    rw [fillable.state_withCopy, shape]
  obtain ⟨client', moved, state_eq⟩ := fillable.exists_setState _ shape'
  have copy_eq := (fillable.copy_setState moved).trans (fillable.copy_withCopy ..)
  refine ⟨client', fill_eq_ok shape load moved, ?_, ?_, state_eq⟩
  · rw [copy_eq]
  · rw [copy_eq]

/-- An edit that is carried out goes on from the copy as it was. -/
theorem Records.contains_generateAll (records : Records C α)
    (contains : (copy client).Contains data) (ops : List (Operation α)) :
    (copy (generateAll client ops).state).Contains data := by
  induction ops generalizing client with
  | nil => exact contains
  | cons op rest ih =>
    have first := (records.advances_generate client op).contains contains
    simp only [generateAll]
    split
    · exact first
    · exact ih first

theorem Records.contains_edit [DecidableEq α] (records : Records C α)
    (contains : (copy client).Contains data) (e : LocalEdit α) :
    (copy (edit client e).state).Contains data := by
  have one : ∀ op, (copy (generate client op).state).Contains data := fun op =>
    (records.advances_generate client op).contains contains
  have one_if : ∀ op, (copy (generateIfOk client op).state).Contains data := by
    intro op
    cases op with
    | error e => exact contains
    | ok op => exact one op.1
  cases e with
  | perform op => exact one op
  | push v | insert i v => exact one _
  | insertAll i vs | clear => exact records.contains_generateAll contains _
  | set i v | remove i | update i delta | through cursor e => exact one_if _
  | removeValue v =>
    simp only [edit]
    split
    · exact one _
    · exact contains

end ClientAlgorithm

namespace Session

variable {C : Type → Type} [ClientAlgorithm C] [Element α] {session : Session C α}

theorem receive_operation_of_closed (closed : session.joined = false) (op : Operation α) :
    session.receive (.operation op) = .fail .notJoined session := by
  simp only [receive, integrate, closed]
  rfl

theorem receive_operation_of_joined (joined : session.joined = true) (op : Operation α) :
    session.receive (.operation op) =
      (session.atClient fun client => ClientAlgorithm.integrate client op).reply () := by
  simp only [receive, integrate, if_pos joined]

theorem receive_fill_of_joined (joined : session.joined = true) (data : Fill α) :
    session.receive (.fill data) = .fail .alreadyJoined session := by
  simp only [receive, fill, if_pos joined]

/-- The session is opened by a fill that can be unpacked, and refuses any other without a trace. -/
def Unpacks (size : Nat) (session : Session C α) (data : Fill α) : Prop :=
  match data.unpack size with
  | .error e => session.receive (.fill data) = .fail e session
  | .ok document => ∃ client : C α, session.receive (.fill data) = .done () ⟨client, true⟩ [] ∧
    (ClientAlgorithm.copy client).document = document ∧
    (ClientAlgorithm.copy client).history = data.history ∧ state client = data.state

theorem edit?_of_closed [DecidableEq α] (closed : session.joined = false) (e : LocalEdit α) :
    session.edit? e = none := by
  simp only [edit?, closed]
  rfl

theorem edit?_of_joined [DecidableEq α] (joined : session.joined = true) (e : LocalEdit α) :
    session.edit? e = some (session.atClient fun client => ClientAlgorithm.edit client e) := by
  simp only [edit?, if_pos joined]

end Session

namespace Gate

variable {C : Type → Type} [ClientAlgorithm C]

def start (policy : Policy) (site : SiteId) : Gate C α := ⟨.start policy site, [], [], []⟩

variable [Element α] [DecidableEq α]

def turn (gate : Gate C α) : GateEvent α → Gate C α
  | .receive m =>
    let o := gate.session.receive m
    { gate with
      session := o.state
      loaded := match m, o.result with
        | .fill data, .ok _ => gate.loaded ++ [data]
        | _, _ => gate.loaded
      sent := gate.sent ++ o.sent }
  | .edit e =>
    match gate.session.edit? e with
    | none => { gate with waiting := gate.waiting ++ [e] }
    | some o => { gate with session := o.state, sent := gate.sent ++ o.sent }
  | .resume index =>
    match gate.waiting[index]? with
    | none => gate
    | some e =>
      match gate.session.edit? e with
      | none => gate
      | some o =>
        { gate with
          session := o.state
          waiting := gate.waiting.eraseIdx index
          sent := gate.sent ++ o.sent }
  | .steer cursors =>
    { gate with session := { gate.session with client := withCursors gate.session.client cursors } }

def run (gate : Gate C α) : List (GateEvent α) → Gate C α
  | [] => gate
  | event :: rest => (gate.turn event).run rest

/-- A gate whose session is closed: the client is as good as new, but for its cursors, and all edits
that were made still wait. -/
structure Shut (policy : Policy) (site : SiteId) (made : List (LocalEdit α)) (gate : Gate C α) :
    Prop where
  session : ∃ cursors,
    gate.session = ⟨withCursors (ClientAlgorithm.start policy site) cursors, false⟩
  waiting : gate.waiting = made
  loaded : gate.loaded = []
  sent : gate.sent = []

/-- A gate whose session was opened by a fill. -/
structure OpenedBy (data : Fill α) (gate : Gate C α) : Prop where
  joined : gate.session.joined = true
  loaded : gate.loaded = [data]
  contains : gate.session.copy.Contains data

variable {policy : Policy} {site : SiteId} {made : List (LocalEdit α)} {gate : Gate C α}
  {data : Fill α}

omit [DecidableEq α] in
/-- What a closed session makes of a fill. -/
theorem Shut.receive_fill (fillable : Fillable C α) (shut : gate.Shut policy site made)
    (data : Fill α) :
    gate.session.Unpacks (state (ClientAlgorithm.start policy site : C α)).size data := by
  obtain ⟨cursors, session⟩ := shut.session
  have unstaged : (copy (withCursors (ClientAlgorithm.start policy site : C α) cursors)).Unstaged
      := by
    rw [withCursors, fillable.copy_withCopy, fillable.copy_start]
    rfl
  have size_eq : state (withCursors (ClientAlgorithm.start policy site : C α) cursors) =
      state (ClientAlgorithm.start policy site) := fillable.state_withCopy ..
  rw [← size_eq, session, Session.Unpacks]
  split
  · rename_i refused
    simp only [Session.receive, Session.fill, fill_of_unpack_error unstaged refused]
    rfl
  · rename_i unpacked
    obtain ⟨client, filled, loaded⟩ := fillable.fill_of_unpack unstaged unpacked
    refine ⟨client, ?_, loaded⟩
    simp only [Session.receive, Session.fill, filled]
    rfl

omit [Element α] [DecidableEq α] in
theorem Shut.not_joined (shut : gate.Shut policy site made) : gate.session.joined = false := by
  obtain ⟨cursors, session⟩ := shut.session
  rw [session]

/-- A session stays closed, with one edit more that waits if there is one, or a fill opens it. -/
theorem turn_shut (fillable : Fillable C α) (shut : gate.Shut policy site made)
    (event : GateEvent α) :
    (gate.turn event).Shut policy site (made ++ event.edit?.toList) ∨
      ∃ data document,
        data.unpack (state (ClientAlgorithm.start policy site : C α)).size = .ok document ∧
          (gate.turn event).OpenedBy data := by
  have closed := shut.not_joined
  have waits := Session.edit?_of_closed closed
  -- an event that makes no edit and does not touch the gate
  have same : gate.Shut policy site (made ++ []) := (List.append_nil made).symm ▸ shut
  cases event with
  | receive m =>
    cases m with
    | operation op =>
      refine .inl ?_
      simp only [turn, Session.receive_operation_of_closed closed, Outcome.fail, List.append_nil]
      exact same
    | fill data =>
      have answer := shut.receive_fill fillable data
      rw [Session.Unpacks] at answer
      split at answer
      · refine .inl ?_
        simp only [turn, answer, Outcome.fail, List.append_nil]
        exact same
      · rename_i document unpacked
        obtain ⟨client, loaded, document_eq, history, -⟩ := answer
        refine .inr ⟨data, document, unpacked, ?_⟩
        simp only [turn, loaded, Outcome.done]
        refine ⟨rfl, by rw [shut.loaded]; rfl, ⟨history ▸ List.prefix_refl _, ?_⟩⟩
        rw [LocalCopy.ReplaysFrom, Session.copy, history, document_eq]
        exact (Fill.unpack_eq_ok unpacked).2
  | edit e =>
    refine .inl ?_
    simp only [turn, waits]
    exact ⟨shut.session, congrArg (· ++ [e]) shut.waiting, shut.loaded, shut.sent⟩
  | resume index =>
    refine .inl ?_
    simp only [turn]
    split
    · exact same
    · simp only [waits]
      exact same
  | steer cursors =>
    refine .inl ?_
    obtain ⟨before, session⟩ := shut.session
    refine ⟨⟨cursors, ?_⟩, same.waiting, same.loaded, same.sent⟩
    simp only [turn, session, withCursors, fillable.copy_withCopy, fillable.withCopy_withCopy]

/-- A session that was opened by a fill stays open, and nothing else is loaded. -/
theorem turn_opened (records : Records C α) (opened : gate.OpenedBy data) (event : GateEvent α) :
    (gate.turn event).OpenedBy data := by
  obtain ⟨joined, loaded, contains⟩ := opened
  have carried_out := Session.edit?_of_joined joined
  cases event with
  | receive m =>
    cases m with
    | operation op =>
      simp only [turn, Session.receive_operation_of_joined joined]
      exact ⟨joined, loaded, (records.advances_integrate _ op).contains contains⟩
    | fill again =>
      simp only [turn, Session.receive_fill_of_joined joined]
      exact ⟨joined, loaded, contains⟩
  | edit e =>
    simp only [turn, carried_out]
    exact ⟨joined, loaded, records.contains_edit contains e⟩
  | resume index =>
    simp only [turn]
    split
    · exact ⟨joined, loaded, contains⟩
    · simp only [carried_out]
      exact ⟨joined, loaded, records.contains_edit contains _⟩
  | steer cursors =>
    refine ⟨joined, loaded, LocalCopy.Advances.contains ?_ contains⟩
    simp only [turn, Session.copy, withCursors, records.copy_withCopy]
    exact .still rfl rfl

theorem run_opened (records : Records C α) (opened : gate.OpenedBy data)
    (events : List (GateEvent α)) : (gate.run events).OpenedBy data := by
  induction events generalizing gate with
  | nil => exact opened
  | cons event rest ih => exact ih (turn_opened records opened event)

/-- After any events a session is closed and all edits wait, or a fill has opened it. -/
theorem run_cases (fillable : Fillable C α) (shut : gate.Shut policy site made)
    (events : List (GateEvent α)) :
    (gate.run events).Shut policy site (made ++ events.filterMap (·.edit?)) ∨
      ∃ data document,
        data.unpack (state (ClientAlgorithm.start policy site : C α)).size = .ok document ∧
          (gate.run events).OpenedBy data := by
  induction events generalizing gate made with
  | nil => exact .inl ((List.append_nil made).symm ▸ shut)
  | cons event rest ih =>
    rcases turn_shut fillable shut event with still_shut | ⟨data, document, unpacked, opened⟩
    · have issued : made ++ (event :: rest).filterMap (·.edit?) =
          made ++ event.edit?.toList ++ rest.filterMap (·.edit?) := by
        cases event <;> simp [GateEvent.edit?]
      rw [issued]
      exact ih still_shut
    · exact .inr ⟨data, document, unpacked, run_opened fillable.toRecords opened rest⟩

/-- What holds of a session after some events, whatever they were. -/
structure Kept (policy : Policy) (site : SiteId) (events : List (GateEvent α)) (gate : Gate C α) :
    Prop where
  /-- a closed session is as good as new, and nothing was sent or loaded -/
  shut : gate.session.joined = false → gate.Shut policy site (events.filterMap (·.edit?))
  /-- and it refuses operations -/
  refuses : gate.session.joined = false → ∀ op,
    gate.session.receive (.operation op) = .fail .notJoined gate.session
  /-- but every fill that can be unpacked, and no other, opens it -/
  unpacks : gate.session.joined = false → ∀ data,
    gate.session.Unpacks (state (ClientAlgorithm.start policy site : C α)).size data
  /-- an open session was opened by one fill, and whatever follows there is no other -/
  opened : gate.session.joined = true → ∃ data document,
    data.unpack (state (ClientAlgorithm.start policy site : C α)).size = .ok document ∧
      ∀ later, (gate.run later).OpenedBy data
  /-- and it refuses fills -/
  alone : gate.session.joined = true → ∀ data,
    gate.session.receive (.fill data) = .fail .alreadyJoined gate.session
  /-- while the client takes in the operations and carries out the edits -/
  takes_in : gate.session.joined = true → ∀ op, gate.session.receive (.operation op) =
    (gate.session.atClient fun client => ClientAlgorithm.integrate client op).reply ()
  carries_out : gate.session.joined = true → ∀ e, gate.session.edit? e =
    some (gate.session.atClient fun client => ClientAlgorithm.edit client e)
  /-- an edit is carried out exactly if the session is open -/
  edits : ∀ e, (gate.session.edit? e).isSome = gate.session.joined

theorem kept (fillable : Fillable C α) (policy : Policy) (site : SiteId)
    (events : List (GateEvent α)) :
    ((start policy site : Gate C α).run events).Kept policy site events := by
  have started : (start policy site : Gate C α).Shut policy site [] := by
    refine ⟨⟨(copy (ClientAlgorithm.start policy site : C α)).cursors, ?_⟩, rfl, rfl, rfl⟩
    rw [withCursors, fillable.withCopy_copy]
    rfl
  have cases := run_cases fillable started events
  generalize (start policy site : Gate C α).run events = gate at cases
  rcases cases with shut | ⟨data, document, unpacked, opened⟩
  · have closed := shut.not_joined
    have not_joined : ¬ gate.session.joined = true := by
      rw [closed]
      exact Bool.false_ne_true
    exact {
      shut := fun _ => shut
      refuses := fun _ => Session.receive_operation_of_closed closed
      unpacks := fun _ => shut.receive_fill fillable
      opened := fun joined => absurd joined not_joined
      alone := fun joined => absurd joined not_joined
      takes_in := fun joined => absurd joined not_joined
      carries_out := fun joined => absurd joined not_joined
      edits := fun e => by rw [Session.edit?_of_closed closed, closed]; rfl }
  · have joined := opened.joined
    have not_closed : ¬ gate.session.joined = false := by
      rw [joined]
      exact Bool.true_eq_false.mp
    exact {
      shut := fun closed => absurd closed not_closed
      refuses := fun closed => absurd closed not_closed
      unpacks := fun closed => absurd closed not_closed
      opened := fun _ => ⟨data, document, unpacked, run_opened fillable.toRecords opened⟩
      alone := fun _ => Session.receive_fill_of_joined joined
      takes_in := fun _ => Session.receive_operation_of_joined joined
      carries_out := fun _ => Session.edit?_of_joined joined
      edits := fun e => by rw [Session.edit?_of_joined joined, joined]; rfl }

end Gate

theorem Wave.Client.fillable [Element α] : Fillable Client α where
  toRecords := Client.records
  withCopy_copy _ := rfl
  withCopy_withCopy _ _ _ := rfl
  state_withCopy _ _ := rfl
  exists_setState client v shape := by
    refine ⟨{ client with seen := v.get 0 },
      congrArg (Except.map _) (StateVector.copyFrom_of_size shape), ?_⟩
    match v, shape with
    | ⟨[_]⟩, _ => rfl

theorem Jupiter.Client.fillable [Element α] : Fillable Client α where
  toRecords := Client.records
  withCopy_copy _ := rfl
  withCopy_withCopy _ _ _ := rfl
  state_withCopy _ _ := rfl
  exists_setState client v shape := by
    refine ⟨{ client with sent := v.get sentAxis, received := v.get receivedAxis },
      congrArg (Except.map _) (StateVector.copyFrom_of_size shape), ?_⟩
    match v, shape with
    | ⟨[_, _]⟩, _ => rfl

/-- Whatever messages come and whatever edits are made, in any order: until the first fill that can
be unpacked the client is as good as new, sends nothing, refuses all operations and lets all edits
wait, and a fill that is refused leaves it so; from then on it refuses all fills, takes in all
operations and carries out all edits, and what is edited or received goes on from the one that was
loaded. -/
theorem fill_gate [Element α] [DecidableEq α] (policy : Policy) (site : SiteId)
    (events : List (GateEvent α)) :
    ((Gate.start policy site : Gate Wave.Client α).run events).Kept policy site events ∧
    ((Gate.start policy site : Gate Jupiter.Client α).run events).Kept policy site events :=
  ⟨Gate.kept Wave.Client.fillable policy site events,
    Gate.kept Jupiter.Client.fillable policy site events⟩

end CoEdit
