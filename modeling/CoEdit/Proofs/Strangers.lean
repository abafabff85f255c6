import CoEdit.Host
import CoEdit.Proofs.Refusal
import CoEdit.Proofs.Relay

/-!
# Events of strangers

The loop of a host passes over what it can do nothing with: operations of sites that are not
registered, and changes of the membership that are none (`Host.skips`). They leave no trace, so that
the loop might as well have been given the other events alone (`Host.heeded`). Any other operation
that fails ends it, and what comes later is never looked at.
-/

namespace CoEdit

open ServerAlgorithm

variable {α : Type}

/-- A server turns away the operations of sites that are not registered, and no others for this
reason. Who is registered cannot join again, and who is not cannot leave. -/
structure ServerAlgorithm.TurnsAway (S : Type → Type) [ServerAlgorithm S] (α : Type) [Element α] :
    Prop where
  stranger : ∀ {server : S α} {op : Operation α} {site}, op.creator? = some site →
    site ∉ sites server → integrate server op = .fail (.unknownSite site) server
  known : ∀ {server : S α} {op : Operation α} {site},
    (integrate server op).result = .error (.unknownSite site) →
    op.creator? = some site ∧ site ∉ sites server
  taken : ∀ {server : S α} {site} mode, site ∈ sites server →
    addSite server site mode = .error (.siteTaken site)
  free : ∀ {server : S α} {site} mode, site ∉ sites server →
    ∃ answer, addSite server site mode = .ok answer
  absent : ∀ {server : S α} {site}, site ∉ sites server →
    removeSite server site = .error (.unknownSite site)

namespace Host

variable {S : Type → Type}

namespace Served

/-- Serves on, unless the session is over. -/
def andThen (first : Served S α) (later : Host S α → Served S α) : Served S α :=
  match first.session.result with
  | .error _ => first
  | .ok () =>
    let next := later first.session.state
    ⟨⟨next.session.result, next.session.state, first.session.sent ++ next.session.sent⟩,
      first.answers ++ next.answers⟩

/-- The same without the answers to those who could not join. -/
def admitted (served : Served S α) : Served S α :=
  { served with answers := served.answers.filter (·.isOk) }

theorem andThen_assoc (first : Served S α) (second third : Host S α → Served S α) :
    (first.andThen second).andThen third =
      first.andThen fun host => (second host).andThen third := by
  obtain ⟨⟨_ | _, state, sent⟩, answers⟩ := first
  · rfl
  · simp only [andThen]
    obtain ⟨⟨_ | _, state', sent'⟩, answers'⟩ := second state
    · rfl
    · simp only [List.append_assoc]

theorem admitted_andThen (first : Served S α) (later : Host S α → Served S α) :
    (first.andThen later).admitted = first.admitted.andThen fun host => (later host).admitted := by
  obtain ⟨⟨_ | _, state, sent⟩, answers⟩ := first
  · rfl
  · simp only [andThen, admitted, List.filter_append]

end Served

variable [ServerAlgorithm S]

/-- Whether an event is passed over: an operation of a site that is not registered, the joining of
one that is, or the departure of one that is not. -/
def skips (host : Host S α) : Event α → Bool
  | .operation op => op.creator?.any fun site => site ∉ sites host.server
  | .joined site => site ∈ sites host.server
  | .left site => site ∉ sites host.server

variable [Element α] {host : Host S α}

/-- The host after one event. -/
def after (host : Host S α) (event : Event α) : Host S α := (host.serve [event]).session.state

/-- The events that are not passed over, each judged when its turn comes. -/
def heeded (host : Host S α) : List (Event α) → List (Event α)
  | [] => []
  | event :: rest =>
    if host.skips event then (host.after event).heeded rest
    else event :: (host.after event).heeded rest

/-- What the server does with one event, with what it sends and what it answers: it takes in an
operation, adds who joins and removes who left. A change of the membership that it refuses changes
nothing. -/
def handle (host : Host S α) :
    Event α → Host S α × List (Address × Operation α) × List (Except SyncError (Fill α))
  | .operation op =>
    let o := ServerAlgorithm.integrate host.server op
    ({ host with server := o.state }, o.sent, [])
  | .joined site =>
    match addSite host.server site host.fillMode with
    | .ok (data, server) => ({ host with server }, [], [.ok data])
    | .error e => (host, [], [.error e])
  | .left site =>
    match removeSite host.server site with
    | .ok server => ({ host with server }, [], [])
    | .error _ => (host, [], [])

/-- The loop leaves every event to the server. -/
theorem serve_one (host : Host S α) (event : Event α) :
    ((host.serve [event]).session.state, (host.serve [event]).session.sent,
      (host.serve [event]).answers) = host.handle event := by
  cases event with
  | operation op =>
    simp only [serve, integrate, handle, Outcome.within]
    split <;> simp [Outcome.done]
  | joined site =>
    simp only [serve, join, handle]
    cases addSite host.server site host.fillMode <;> rfl
  | left site =>
    simp only [serve, remove, handle]
    cases removeSite host.server site <;> rfl

/-- Events are served one at a time. -/
theorem serve_cons (host : Host S α) (event : Event α) (rest : List (Event α)) :
    host.serve (event :: rest) = (host.serve [event]).andThen fun host => host.serve rest := by
  cases event with
  | operation op =>
    simp only [serve]
    cases result : (host.integrate op).result with
    | ok op' => simp [Served.andThen, Outcome.done]
    | error e => cases e <;> simp [Served.andThen, Outcome.done]
  | joined site => simp [serve, Served.andThen, Outcome.done]
  | left site => simp [serve, Served.andThen, Outcome.done]

theorem serve_append (host : Host S α) (before later : List (Event α)) :
    host.serve (before ++ later) = (host.serve before).andThen fun host => host.serve later := by
  induction before generalizing host with
  | nil => simp [serve, Served.andThen, Outcome.done]
  | cons event rest ih =>
    rw [List.cons_append, serve_cons, serve_cons host event rest, Served.andThen_assoc]
    simp only [ih]

theorem serve_snoc {before : List (Event α)} (going : (host.serve before).session.result = .ok ())
    (event : Event α) :
    let handled := (host.serve before).session.state.handle event
    (host.serve (before ++ [event])).session.state = handled.1 ∧
      (host.serve (before ++ [event])).session.sent =
        (host.serve before).session.sent ++ handled.2.1 ∧
      (host.serve (before ++ [event])).answers = (host.serve before).answers ++ handled.2.2 := by
  simp only [serve_append, Served.andThen, going, ← serve_one, and_self]

/-- What is passed over changes nothing, and gets at most a refusal for an answer. -/
theorem serve_skipped (turnsAway : TurnsAway S α) {event : Event α} (skipped : host.skips event) :
    (host.serve [event]).admitted = ⟨.done () host [], []⟩ := by
  cases event with
  | operation op =>
    obtain ⟨site, made, absent⟩ := (Option.any_eq_true _ _).mp skipped
    have refused := turnsAway.stranger made (of_decide_eq_true absent)
    simp only [serve, integrate, refused, Outcome.fail, Outcome.within]
    rfl
  | joined site =>
    have refused := turnsAway.taken host.fillMode (of_decide_eq_true skipped)
    simp only [serve, join, refused]
    rfl
  | left site =>
    have refused := turnsAway.absent (of_decide_eq_true skipped)
    simp only [serve, remove, refused]
    rfl

/-- What is not passed over is not refused an answer. -/
theorem serve_heeds (turnsAway : TurnsAway S α) {event : Event α}
    (heeds : host.skips event = false) : (host.serve [event]).admitted = host.serve [event] := by
  cases event with
  | operation op =>
    simp only [serve]
    split <;> rfl
  | joined site =>
    obtain ⟨answer, added⟩ := turnsAway.free host.fillMode (of_decide_eq_false heeds)
    simp only [serve, join, added]
    rfl
  | left site => rfl

theorem serve_heeded (turnsAway : TurnsAway S α) (host : Host S α) (events : List (Event α)) :
    host.serve (host.heeded events) = (host.serve events).admitted := by
  induction events generalizing host with
  | nil => rfl
  | cons event rest ih =>
    rw [heeded, serve_cons, Served.admitted_andThen]
    split
    · rename_i skipped
      have nothing := serve_skipped turnsAway skipped
      have same : host.after event = host := congrArg (·.session.state) nothing
      rw [nothing, same, ih]
      rfl
    · rename_i heeds
      have stays := serve_heeds turnsAway (Bool.eq_false_iff.mpr heeds)
      rw [serve_cons, stays]
      simp only [Served.andThen]
      cases (host.serve [event]).session.result with
      | error e => rfl
      | ok done =>
        have := ih (host.after event)
        rw [after] at this ⊢
        rw [this]

/-- A session is over at an operation that fails and is not passed over. -/
def EndsAt (host : Host S α) (op : Operation α) (e : SyncError) : Prop :=
  host.skips (.operation op) = false ∧ (host.integrate op).result = .error e

theorem serve_of_endsAt (turnsAway : TurnsAway S α) {op : Operation α} {e : SyncError}
    (ends : host.EndsAt op e) :
    host.serve [.operation op] =
      ⟨⟨.error e, (host.integrate op).state, (host.integrate op).sent⟩, []⟩ := by
  obtain ⟨heeds, failed⟩ := ends
  simp only [serve, failed]
  cases e with
  | unknownSite site =>
    obtain ⟨made, absent⟩ := turnsAway.known failed
    have skipped : host.skips (.operation op) = true :=
      (Option.any_eq_true _ _).mpr ⟨site, made, decide_eq_true absent⟩
    rw [heeds] at skipped
    cases skipped
  | _ => rfl

theorem endsAt_of_serve (turnsAway : TurnsAway S α) {event : Event α} {e : SyncError}
    (failed : (host.serve [event]).session.result = .error e) :
    ∃ op, event = .operation op ∧ host.EndsAt op e := by
  cases event with
  | operation op =>
    refine ⟨op, rfl, ?_, ?_⟩
    · rw [Bool.eq_false_iff]
      intro skipped
      have nothing : (host.serve [.operation op]).session.result = .ok () :=
        congrArg (·.session.result) (serve_skipped turnsAway skipped)
      rw [nothing] at failed
      cases failed
    · simp only [serve] at failed
      split at failed
      · cases failed
      · cases failed
      · cases failed
        assumption
  | joined site => cases failed
  | left site => cases failed

/-- The first operation that ends the session is the last event that has an effect. -/
theorem serve_of_ended (turnsAway : TurnsAway S α) (host : Host S α) {before : List (Event α)}
    {op : Operation α} {e : SyncError} (going : (host.serve before).session.result = .ok ())
    (ends : (host.serve before).session.state.EndsAt op e) (later : List (Event α)) :
    host.serve (before ++ .operation op :: later) =
      let last := (host.serve before).session.state.integrate op
      ⟨⟨.error e, last.state, (host.serve before).session.sent ++ last.sent⟩,
        (host.serve before).answers⟩ := by
  have last := serve_of_endsAt turnsAway ends
  rw [serve_append]
  simp only [Served.andThen, going]
  rw [serve_cons, last]
  simp only [Served.andThen, List.append_nil]

theorem ended_iff (turnsAway : TurnsAway S α) (host : Host S α) (events : List (Event α))
    (e : SyncError) : (host.serve events).session.result = .error e ↔
      ∃ before op later, events = before ++ .operation op :: later ∧
        (host.serve before).session.result = .ok () ∧
        (host.serve before).session.state.EndsAt op e := by
  constructor
  · intro failed
    induction events generalizing host with
    | nil => cases failed
    | cons event rest ih =>
      rw [serve_cons] at failed
      cases first : (host.serve [event]).session.result with
      | error e' =>
        simp only [Served.andThen, first] at failed
        cases failed
        obtain ⟨op, rfl, ends⟩ := endsAt_of_serve turnsAway first
        exact ⟨[], op, rest, rfl, rfl, ends⟩
      | ok done =>
        simp only [Served.andThen, first] at failed
        obtain ⟨before, op, later, rfl, going, ends⟩ := ih _ failed
        refine ⟨event :: before, op, later, rfl, ?_, ?_⟩
        · rw [serve_cons]
          simpa only [Served.andThen, first] using going
        · rw [serve_cons]
          simpa only [Served.andThen, first] using ends
  · rintro ⟨before, op, later, rfl, going, ends⟩
    rw [serve_of_ended turnsAway host going ends]

/-- How a host serves events: each is left to the server when its turn comes, as if those of
strangers had never come, up to the first operation that fails for another reason, and no further.
-/
structure IgnoresStrangers (host : Host S α) (events : List (Event α)) : Prop where
  handled : ∀ before event later, events = before ++ event :: later →
    (host.serve before).session.result = .ok () →
    let handled := (host.serve before).session.state.handle event
    (host.serve (before ++ [event])).session.state = handled.1 ∧
      (host.serve (before ++ [event])).session.sent =
        (host.serve before).session.sent ++ handled.2.1 ∧
      (host.serve (before ++ [event])).answers = (host.serve before).answers ++ handled.2.2
  session : (host.serve (host.heeded events)).session = (host.serve events).session
  answers : (host.serve (host.heeded events)).answers = (host.serve events).answers.filter (·.isOk)
  ended : ∀ e, (host.serve events).session.result = .error e ↔
    ∃ before op later, events = before ++ .operation op :: later ∧
      (host.serve before).session.result = .ok () ∧
      (host.serve before).session.state.EndsAt op e
  final : ∀ before op later e, events = before ++ .operation op :: later →
    (host.serve before).session.result = .ok () →
    (host.serve before).session.state.EndsAt op e →
    host.serve events =
      let last := (host.serve before).session.state.integrate op
      ⟨⟨.error e, last.state, (host.serve before).session.sent ++ last.sent⟩,
        (host.serve before).answers⟩

theorem ignoresStrangers (turnsAway : TurnsAway S α) (host : Host S α) (events : List (Event α)) :
    host.IgnoresStrangers events where
  handled _ event _ _ going := serve_snoc going event
  session := congrArg (·.session) (serve_heeded turnsAway host events)
  answers := congrArg (·.answers) (serve_heeded turnsAway host events)
  ended := ended_iff turnsAway host events
  final before op later e same going ends := by
    subst same
    exact serve_of_ended turnsAway host going ends later

end Host

theorem Wave.Server.turnsAway [Element α] : TurnsAway Wave.Server α where
  stranger {server op site} made absent := by
    obtain ⟨stamp, stamped, rfl⟩ := Option.map_eq_some_iff.mp made
    change server.integrate op = _
    simp only [Server.integrate, stamped]
    exact if_pos absent
  known {server op site} failed := by
    change (server.integrate op).result = _ at failed
    simp only [Server.integrate] at failed
    split at failed
    · cases failed
    · rename_i stamp stamped
      split at failed
      · rename_i absent
        cases failed
        exact ⟨Operation.creator?_eq stamped, absent⟩
      · split at failed
        · rename_i e refused
          cases failed
          simp only [Server.rebase, bind, Except.bind] at refused
          split at refused
          · rename_i ahead
            simp only [History.since] at ahead
            split at ahead <;> cases ahead
            cases refused
          · rename_i unseen _
            obtain ⟨op', unseen', past⟩ := transformPast_total server.copy.policy .server op unseen
            rw [past] at refused
            cases refused
        · split at failed
          · rename_i refused
            cases failed
            cases LocalCopy.ofContent_of_apply refused
          · cases failed
  taken _ there := if_pos there
  free mode absent := ⟨_, Server.addSite_of_absent absent mode⟩
  absent absent := if_neg absent

namespace Jupiter

theorem Server.notMem_sites {server : Server α} {site : SiteId} :
    site ∉ sites server ↔ server.proxies.get? site = none := by
  rw [Server.mem_sites, Option.eq_none_iff_forall_ne_some, not_exists]

theorem Server.turnsAway [Element α] : TurnsAway Server α where
  stranger made absent :=
    (Server.Refusal.stranger made (Server.notMem_sites.mp absent)).integrate_eq
  known {server op site} failed := by
    obtain ⟨left, refusal⟩ := Outcome.exists_reason (server.integrate_cases op)
      (fun _ _ refusal => refusal.integrate_eq) failed
    cases refusal with
    | stranger made absent => exact ⟨made, Server.notMem_sites.mpr absent⟩
    | unfit made found passed refused => cases LocalCopy.ofContent_of_apply refused
  taken {server site} mode there :=
    if_pos ((SortedMap.contains_eq_true_iff server.proxies site).mpr there)
  free mode absent := ⟨_, Server.addSite_of_absent (Server.contains_eq_false absent) mode⟩
  absent absent := if_neg (Bool.eq_false_iff.mp (Server.contains_eq_false absent))

end Jupiter

/-- Whatever a server has gone through and whatever events come, its loop ends in the same server
with the same result and has sent the same operations in the same order as if the operations of
sites that were not registered, the joining of those that were and the departure of those that were
not had been left out; those who were let in have had the same answers. The loop ends early at the
first other operation that fails, with its error, and what comes later has no effect. All that it
does before is what the server makes of the events: of operations by `integrate`, of changes of the
membership by `addSite` and `removeSite` (`Host.handle`). -/
theorem strangers_ignored [Element α] (events : List (Event α)) :
    (∀ host : Host Wave.Server α, host.IgnoresStrangers events) ∧
      ∀ host : Host Jupiter.Server α, host.IgnoresStrangers events :=
  ⟨fun host => Host.ignoresStrangers Wave.Server.turnsAway host events,
    fun host => Host.ignoresStrangers Jupiter.Server.turnsAway host events⟩

/-- Of two sites that have joined the first one leaves, and then both send a letter. -/
example :
    let host : Host Wave.Server Char := .start .lastWriterWins .stateBased
    let letter (site : SiteId) (c : Char) : Event Char :=
      .operation ⟨.insert 0 c, some ⟨site, ⟨[0]⟩⟩⟩
    let served := host.serve [.joined (.ofNat 1), .joined (.ofNat 2), .left (.ofNat 1),
      letter (.ofNat 1) 'a', letter (.ofNat 2) 'b']
    served.session.result = .ok () ∧ served.session.state.copy.document.values = ['b'] := by
  decide +kernel

end CoEdit
