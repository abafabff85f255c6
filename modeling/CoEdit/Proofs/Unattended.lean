import CoEdit.Proofs.Replay
import CoEdit.Proofs.Roster
import CoEdit.Proofs.WaveConvergence

/-!
# Unattended cursors

What comes to pass at a replica while the owner of one of its cursors does not touch it: operations
are applied to the document, and other cursors are registered, moved and taken out
(`LocalCopy.Runs`). Whatever a client is called with meanwhile, edits, messages and calls that fail
included, comes down to this, with the operations that the client has recorded
(`ClientAlgorithm.Steady.runs_callAll`); and all that becomes of the cursor is that it follows these
operations (`LocalCopy.Runs.cursor`).
-/

namespace CoEdit

open ClientAlgorithm

variable {α : Type}

namespace Cursors

variable {cs cs' : Cursors} {c : Cursor} {id other : CursorId}

/-- A registration gives no cursor another one's place. -/
theorem find?_of_register {new : Cursor} (registered : cs.find? id = some c)
    (done : cs.register new = .ok cs') : cs'.find? id = some c := by
  simp only [register] at done
  split at done <;> cases done
  simp only [find?] at registered ⊢
  rw [List.find?_append, registered, Option.some_or]

theorem find?_of_moveTo {position : Int} (done : cs.moveTo other position = .ok cs') :
    cs'.find? id = (cs.find? id).map fun c => if id = other then c.moveTo position else c := by
  simp only [moveTo] at done
  cases found : cs.get other <;> rw [found] at done <;> cases done
  have same_id : ∀ c : Cursor, (if c.id = other then c.moveTo position else c).id = c.id := by
    intro c
    split <;> rfl
  simp only [find?, List.find?_map, Function.comp_def, same_id]
  cases here : cs.all.find? fun c => c.id = id with
  | none => rfl
  | some c =>
    have its_id : c.id = id := by simpa using List.find?_some here
    simp only [Option.map_some, its_id]

theorem find?_of_deregister (elsewhere : id ≠ other)
    (done : cs.deregister other = .ok (c, cs')) : cs'.find? id = cs.find? id := by
  simp only [deregister] at done
  cases found : cs.get other <;> rw [found] at done <;> cases done
  simp only [find?, List.find?_filter]
  congr 1
  funext c
  by_cases its_id : c.id = id
  · simp [its_id, elsewhere]
  · simp [its_id]

end Cursors

namespace LocalCopy

/-- A copy that was filled in, with a cursor. -/
def withCaret (letters : List Char) (caret : Cursor) : LocalCopy Char :=
  ⟨.fill .empty letters, [], ⟨[caret]⟩, .firstWriterWins⟩

variable [Element α] {copy mid copy' : LocalCopy α} {id : CursorId} {op : Operation α}
  {ops more : List (Operation α)}

/-- What happens to a copy while nobody moves or takes out the cursor with an identifier, with the
operations that are applied. -/
inductive Runs (id : CursorId) : LocalCopy α → List (Operation α) → LocalCopy α → Prop where
  | stop (copy : LocalCopy α) : Runs id copy [] copy
  /-- other cursors are registered, moved or taken out -/
  | aside {copy mid copy' : LocalCopy α} {ops : List (Operation α)}
      (document : mid.document = copy.document) (history : mid.history = copy.history)
      (cursor : mid.cursors.find? id = copy.cursors.find? id) (rest : Runs id mid ops copy') :
      Runs id copy ops copy'
  | apply {copy mid copy' : LocalCopy α} {op : Operation α} {ops : List (Operation α)}
      (applied : copy.apply op = .ok mid) (rest : Runs id mid ops copy') :
      Runs id copy (op :: ops) copy'

theorem cursors_of_apply (applied : copy.apply op = .ok copy') :
    copy'.cursors = copy.cursors.follow op.edit := by
  simp only [LocalCopy.apply] at applied
  cases result : copy.document.apply op <;> rw [result] at applied <;> cases applied
  rfl

namespace Runs

theorem trans (h : Runs id copy ops mid) (h' : Runs id mid more copy') :
    Runs id copy (ops ++ more) copy' := by
  induction h with
  | stop copy => exact h'
  | aside document history cursor rest ih => exact .aside document history cursor (ih h')
  | apply applied rest ih => exact .apply applied (ih h')

theorem document (h : Runs id copy ops copy') :
    copy.document.applyAll ops = .ok copy'.document := by
  induction h with
  | stop copy => rfl
  | aside document history cursor rest ih => rwa [← document]
  | @apply copy mid copy' op ops applied rest ih =>
    exact Document.applyAll_cons_eq_ok.mpr ⟨mid.document, (apply_eq_ok applied).1, ih⟩

theorem history (h : Runs id copy ops copy') : copy'.history = copy.history ++ ops := by
  induction h with
  | stop copy => exact (List.append_nil _).symm
  | aside document history cursor rest ih => rwa [← history]
  | apply applied rest ih =>
    rw [ih, (apply_eq_ok applied).2.1, List.append_assoc]
    rfl

theorem cursor (h : Runs id copy ops copy') :
    copy'.cursors.find? id = (copy.cursors.find? id).map (·.followAll ops) := by
  induction h with
  | stop copy => exact Option.map_id'.symm
  | aside document history cursor rest ih => rwa [← cursor]
  | @apply copy mid copy' op ops applied rest ih =>
    rw [ih, cursors_of_apply applied, Cursors.find?_follow, Option.map_map]
    rfl

end Runs

end LocalCopy

/-- The call neither moves a cursor with an identifier nor takes it out. -/
def ClientCall.spares (id : CursorId) : ClientCall α → Bool
  | .moveCursor other _ | .deregister other => id ≠ other
  | _ => true

namespace ClientAlgorithm

variable {C : Type → Type} [ClientAlgorithm C] [Element α] {client : C α} {id : CursorId}
  {c : Cursor} {calls : List (ClientCall α)}

omit [Element α] in
/-- The operations that a client has recorded since it had a given history. -/
def since (history : History α) (client : C α) : List (Operation α) :=
  (copy client).history.drop history.length

/-- Edits and messages leave the copy of a client as it is, or apply one operation to it. -/
structure Steady (C : Type → Type) [ClientAlgorithm C] (α : Type) [Element α] : Prop
    extends Records C α where
  copy_generate : ∀ (client : C α) op, copy (generate client op).state = copy client ∨
    ∃ op', (copy client).apply op' = .ok (copy (generate client op).state)
  copy_integrate : ∀ (client : C α) op, copy (integrate client op).state = copy client ∨
    ∃ op', (copy client).apply op' = .ok (copy (integrate client op).state)

namespace Steady

variable (steady : Steady C α)
include steady

/-- A call that spares a cursor and loads no fill is a run of the copy, as far as the cursor is
concerned. -/
theorem runs_call (registered : (copy client).cursors.find? id = some c) {next : ClientCall α}
    (kept : ∀ data, next = .fill data → ∃ e, fill client data = .error e)
    (spares : next.spares id) :
    ∃ ops, (copy client).Runs id ops (copy (call client next).state) := by
  have still : ∃ ops, (copy client).Runs id ops (copy client) := ⟨[], .stop _⟩
  have steered : ∀ cursors, cursors.find? id = some c →
      ∃ ops, (copy client).Runs id ops (copy (withCursors client cursors)) := by
    intro cursors kept
    rw [withCursors, steady.copy_withCopy]
    refine ⟨[], .aside ?_ ?_ ?_ (.stop _)⟩
    · rfl
    · rfl
    · exact kept.trans registered.symm
  have moved : ∀ {copy' : LocalCopy α},
      copy' = copy client ∨ (∃ op, (copy client).apply op = .ok copy') →
        ∃ ops, (copy client).Runs id ops copy' := by
    rintro copy' (rfl | ⟨op, applied⟩)
    · exact still
    · exact ⟨[op], .apply applied (.stop _)⟩
  cases next with
  | generate op => exact moved (steady.copy_generate client op)
  | integrate op => exact moved (steady.copy_integrate client op)
  | fill data =>
    obtain ⟨e, refused⟩ := kept data rfl
    simp only [call, load, refused]
    exact still
  | moveState state =>
    simp only [call, ClientAlgorithm.moveState]
    cases set : setState client state with
    | error e => exact still
    | ok client' =>
      have same : copy client' = copy client := steady.copy_setState set
      exact same ▸ still
  | register cursor =>
    simp only [call, register]
    cases done : (copy client).cursors.register cursor with
    | error e => exact still
    | ok cursors => exact steered cursors (Cursors.find?_of_register registered done)
  | moveCursor other position =>
    simp only [call, moveCursor]
    cases done : (copy client).cursors.moveTo other position with
    | error e => exact still
    | ok cursors =>
      refine steered cursors ?_
      rw [Cursors.find?_of_moveTo done, registered, Option.map_some,
        if_neg (of_decide_eq_true spares)]
  | deregister other =>
    simp only [call, deregister, Outcome.reply]
    cases done : (copy client).cursors.deregister other with
    | error e => exact still
    | ok removed =>
      refine steered removed.2 ?_
      rw [Cursors.find?_of_deregister (of_decide_eq_true spares) done, registered]

/-- Whatever a client is called with, as long as no fill is loaded, comes down to the operations
that it records. -/
theorem runs_callAll (registered : (copy client).cursors.find? id = some c)
    (keeps : KeepsFill client calls) (spares : ∀ next ∈ calls, next.spares id) :
    (copy client).Runs id (since (copy client).history (callAll client calls))
      (copy (callAll client calls)) := by
  have some_run : ∃ ops, (copy client).Runs id ops (copy (callAll client calls)) := by
    induction calls generalizing client c with
    | nil => exact ⟨[], .stop _⟩
    | cons next rest ih =>
      obtain ⟨kept, keeps⟩ := keeps
      obtain ⟨ops, run⟩ := steady.runs_call registered kept (spares next List.mem_cons_self)
      have registered' : (copy (call client next).state).cursors.find? id =
          some (c.followAll ops) := by
        rw [run.cursor, registered, Option.map_some]
      obtain ⟨more, run'⟩ := ih registered' keeps fun call among =>
        spares call (List.mem_cons_of_mem _ among)
      exact ⟨ops ++ more, run.trans run'⟩
  obtain ⟨ops, run⟩ := some_run
  have recorded : since (copy client).history (callAll client calls) = ops := by
    rw [since, run.history, List.drop_left]
  exact recorded ▸ run

end Steady

end ClientAlgorithm

namespace Wave

theorem Client.integrate_own {client : Client α} [Element α] {op : Operation α}
    (own : op.creator? = some client.site) : (integrate client op).state.copy = client.copy := by
  obtain ⟨stamp, stamped, here⟩ := Option.map_eq_some_iff.mp own
  simp only [Client.integrate, stamped, if_pos here]
  exact Client.copy_acknowledge { client with seen := client.seen + 1 } op

variable [Element α]

theorem Client.steady : Steady Client α where
  toRecords := Client.records
  copy_generate client op := by
    change (client.generate op).state.copy = client.copy ∨
      ∃ op', client.copy.apply op' = .ok (client.generate op).state.copy
    simp only [Client.generate]
    split
    · exact .inl rfl
    · split <;> exact .inr ⟨_, ‹_›⟩
  copy_integrate client op := by
    change (client.integrate op).state.copy = client.copy ∨
      ∃ op', client.copy.apply op' = .ok (client.integrate op).state.copy
    simp only [Client.integrate]
    split
    · exact .inl rfl
    · split
      · exact .inl (Client.copy_acknowledge { client with seen := client.seen + 1 } op)
      · split
        · exact .inl rfl
        · obtain ⟨op', underWay, past⟩ := transformPast_total client.copy.policy .client op
            (client.inFlight.toList ++ client.buffer)
          rw [receive_eq past]
          split
          · exact .inl rfl
          · exact .inr ⟨_, ‹_›⟩

end Wave

theorem Jupiter.Client.steady [Element α] : Steady Jupiter.Client α where
  toRecords := Jupiter.Client.records
  copy_generate client op := by
    change (client.generate op).state.copy = client.copy ∨
      ∃ op', client.copy.apply op' = .ok (client.generate op).state.copy
    simp only [Client.generate]
    split
    · exact .inl rfl
    · exact .inr ⟨_, ‹_›⟩
  copy_integrate client op := by
    change (client.integrate op).state.copy = client.copy ∨
      ∃ op', client.copy.apply op' = .ok (client.integrate op).state.copy
    simp only [Client.integrate]
    split
    · exact .inl rfl
    · split
      · exact .inl rfl
      · exact .inr ⟨_, ‹_›⟩

end CoEdit
