import CoEdit.Proofs.Effect
import CoEdit.Proofs.Schedule
import CoEdit.Jupiter
import CoEdit.Wave

/-!
# Calls

A server or a client on its own, without a star around it: anybody may call it with anything, any
number of times, and calls that fail are made all the same. Whatever is called, the copy of a
replica stays as it is or one operation is applied to it and recorded (`LocalCopy.Advances`), unless
a client loads a fill.
-/

namespace CoEdit

variable {α : Type}

/-- What a server can be asked to do. -/
inductive ServerCall (α : Type) where
  | add (site : SiteId) (mode : FillMode)
  | remove (site : SiteId)
  | integrate (op : Operation α)
deriving DecidableEq

/-- What a client can be asked to do. -/
inductive ClientCall (α : Type) where
  | fill (data : Fill α)
  | generate (op : Operation α)
  | integrate (op : Operation α)
  | moveState (state : StateVector)
  | register (cursor : Cursor)
  | moveCursor (id : CursorId) (position : Int)
  | deregister (id : CursorId)

namespace LocalCopy

variable [Element α] {copy copy' : LocalCopy α}

/-- What a call can do to a copy: its document and its history stay, or an operation is applied. -/
inductive Advances (copy : LocalCopy α) : LocalCopy α → Prop where
  | still {copy' : LocalCopy α} (document : copy'.document = copy.document)
      (history : copy'.history = copy.history) : Advances copy copy'
  | applied {copy' : LocalCopy α} {op : Operation α} (done : copy.apply op = .ok copy') :
      Advances copy copy'

theorem Advances.rfl : copy.Advances copy := .still (Eq.refl _) (Eq.refl _)

/-- The history leads from a base to the present document. -/
def ReplaysFrom (base : Document α) (copy : LocalCopy α) : Prop :=
  base.applyAll copy.history = .ok copy.document

theorem Advances.replaysFrom {base : Document α} (h : copy.Advances copy')
    (replays : copy.ReplaysFrom base) : copy'.ReplaysFrom base := by
  cases h with
  | still document history => rwa [ReplaysFrom, document, history]
  | applied done =>
    obtain ⟨document, history, -⟩ := apply_eq_ok done
    rw [ReplaysFrom, history]
    exact Document.applyAll_snoc replays document

end LocalCopy

namespace ServerAlgorithm

variable {S : Type → Type} [ServerAlgorithm S] [Element α]

/-- A call as a step of the server. -/
def call (server : S α) : ServerCall α → Outcome (S α) α Unit
  | .add site mode => (Outcome.ofExcept server (addSite server site mode)).reply ()
  | .remove site => .ofExcept server ((removeSite server site).map fun server => ((), server))
  | .integrate op => (integrate server op).reply ()

/-- The server after some calls, those that fail included. -/
def callAll (server : S α) : List (ServerCall α) → S α
  | [] => server
  | next :: rest => callAll (call server next).state rest

/-- A site is added in silence, or refused. -/
theorem call_add (server : S α) (site : SiteId) (mode : FillMode) :
    (∃ e, call server (.add site mode) = .fail e server) ∨
      ∃ data server', addSite server site mode = .ok (data, server') ∧
        call server (.add site mode) = .done () server' [] := by
  simp only [call]
  cases addSite server site mode with
  | error e => exact .inl ⟨e, rfl⟩
  | ok answer => exact .inr ⟨answer.1, answer.2, rfl, rfl⟩

/-- A site is removed in silence, or there is none. -/
theorem call_remove (server : S α) (site : SiteId) :
    (∃ e, call server (.remove site) = .fail e server) ∨
      ∃ server', removeSite server site = .ok server' ∧
        call server (.remove site) = .done () server' [] := by
  simp only [call]
  cases removeSite server site with
  | error e => exact .inl ⟨e, rfl⟩
  | ok server' => exact .inr ⟨server', rfl, rfl⟩

end ServerAlgorithm

namespace ClientAlgorithm

variable {C : Type → Type} [ClientAlgorithm C] [Element α]

/-- A call as a step of the client. -/
def call (client : C α) : ClientCall α → Outcome (C α) α Unit
  | .fill data => load client data
  | .generate op => (generate client op).reply ()
  | .integrate op => (integrate client op).reply ()
  | .moveState state => ClientAlgorithm.moveState client state
  | .register cursor => ClientAlgorithm.register client cursor
  | .moveCursor id position => ClientAlgorithm.moveCursor client id position
  | .deregister id => (ClientAlgorithm.deregister client id).reply ()

/-- The client after some calls, those that fail included. -/
def callAll (client : C α) : List (ClientCall α) → C α
  | [] => client
  | next :: rest => callAll (call client next).state rest

end ClientAlgorithm

namespace ServerAlgorithm

/-- What the calls of a server do to its copy. -/
structure Records (S : Type → Type) [ServerAlgorithm S] (α : Type) [Element α] : Prop where
  copy_start : ∀ policy, copy (start policy : S α) = .empty policy
  addSite_eq : ∀ {server server' : S α} {site mode data},
    addSite server site mode = .ok (data, server') →
    data = (copy server).capture mode (state server) ∧ copy server' = copy server
  copy_removeSite : ∀ {server server' : S α} {site}, removeSite server site = .ok server' →
    copy server' = copy server
  advances_integrate : ∀ (server : S α) op,
    (copy server).Advances (copy (integrate server op).state)

variable {S : Type → Type} [ServerAlgorithm S] [Element α]

theorem Records.advances (records : Records S α) (server : S α) (next : ServerCall α) :
    (copy server).Advances (copy (call server next).state) := by
  cases next with
  | add site mode =>
    rcases call_add server site mode with ⟨e, failed⟩ | ⟨data, server', added, done⟩
    · rw [failed]
      exact .rfl
    · rw [done]
      exact (records.addSite_eq added).2 ▸ .rfl
  | remove site =>
    rcases call_remove server site with ⟨e, failed⟩ | ⟨server', removed, done⟩
    · rw [failed]
      exact .rfl
    · rw [done]
      exact records.copy_removeSite removed ▸ .rfl
  | integrate op => exact records.advances_integrate server op

theorem Records.replaysFrom (records : Records S α) {base : Document α} {server : S α}
    (replays : (copy server).ReplaysFrom base) (calls : List (ServerCall α)) :
    (copy (callAll server calls)).ReplaysFrom base := by
  induction calls generalizing server with
  | nil => exact replays
  | cons next rest ih => exact ih ((records.advances server next).replaysFrom replays)

/-- Whatever was called, the history of a server leads to its document. -/
theorem Records.replays (records : Records S α) (policy : Policy) (calls : List (ServerCall α)) :
    (copy (callAll (ServerAlgorithm.start policy : S α) calls)).Replays :=
  records.replaysFrom (records.copy_start policy ▸ LocalCopy.replays_empty policy) calls

end ServerAlgorithm

namespace ClientAlgorithm

/-- What the calls of a client do to its copy. -/
structure Records (C : Type → Type) [ClientAlgorithm C] (α : Type) [Element α] : Prop where
  copy_start : ∀ policy site, copy (start policy site : C α) = .empty policy
  copy_withCopy : ∀ (client : C α) loaded, copy (withCopy client loaded) = loaded
  copy_setState : ∀ {client client' : C α} {state}, setState client state = .ok client' →
    copy client' = copy client
  advances_generate : ∀ (client : C α) op,
    (copy client).Advances (copy (generate client op).state)
  advances_integrate : ∀ (client : C α) op,
    (copy client).Advances (copy (integrate client op).state)

variable {C : Type → Type} [ClientAlgorithm C] [Element α] {client client' : C α} {data : Fill α}

/-- A fill that succeeds is one that could be loaded. -/
theorem Records.of_fill (records : Records C α) (filled : fill client data = .ok client') :
    (copy client).load data = .ok (copy client') := by
  simp only [fill, bind, Except.bind] at filled
  split at filled
  · cases filled
  · split at filled
    · cases filled
    · rename_i loaded load
      rw [load, records.copy_setState filled, records.copy_withCopy]

/-- A call advances the copy, or it is a fill that is loaded. -/
theorem Records.advances (records : Records C α) (client : C α) (next : ClientCall α) :
    (copy client).Advances (copy (call client next).state) ∨
      ∃ data, next = .fill data ∧ fill client data = .ok (call client next).state := by
  have cursors : ∀ cursors, (copy client).Advances (copy (withCursors client cursors)) := by
    intro cursors
    rw [withCursors, records.copy_withCopy]
    exact .still rfl rfl
  cases next with
  | fill data =>
    simp only [call, load]
    cases filled : fill client data with
    | error e => exact .inl .rfl
    | ok client' => exact .inr ⟨data, rfl, filled⟩
  | generate op => exact .inl (records.advances_generate client op)
  | integrate op => exact .inl (records.advances_integrate client op)
  | moveState state =>
    simp only [call, ClientAlgorithm.moveState]
    cases moved : ClientAlgorithm.setState client state with
    | error e => exact .inl .rfl
    | ok client' => exact .inl (records.copy_setState moved ▸ .rfl)
  | register cursor =>
    simp only [call, register]
    cases (copy client).cursors.register cursor with
    | error e => exact .inl .rfl
    | ok all => exact .inl (cursors all)
  | moveCursor id position =>
    simp only [call, moveCursor]
    cases (copy client).cursors.moveTo id position with
    | error e => exact .inl .rfl
    | ok all => exact .inl (cursors all)
  | deregister id =>
    simp only [call, deregister, Outcome.reply]
    cases (copy client).cursors.deregister id with
    | error e => exact .inl .rfl
    | ok removed => exact .inl (cursors removed.2)

end ClientAlgorithm

namespace Wave

open ServerAlgorithm

variable {server server' : Server α} {site : SiteId} {mode : FillMode} {data : Fill α}

theorem Server.addSite_eq_ok (added : addSite server site mode = .ok (data, server')) :
    site ∉ server.sites ∧ data = server.copy.capture mode server.state ∧
      server' = { server with sites := server.sites ++ [site] } := by
  change Server.addSite server site mode = _ at added
  simp only [Server.addSite] at added
  split at added <;> cases added
  exact ⟨‹_›, rfl, rfl⟩

theorem Server.addSite_of_absent (absent : site ∉ server.sites) (mode : FillMode) :
    addSite server site mode = .ok (server.copy.capture mode server.state,
      { server with sites := server.sites ++ [site] }) :=
  if_neg absent

theorem Server.removeSite_eq_ok (removed : removeSite server site = .ok server') :
    server' = { server with sites := server.sites.erase site } := by
  change Server.removeSite server site = _ at removed
  simp only [Server.removeSite] at removed
  split at removed <;> cases removed
  rfl

/-- What a client has under way may change, but its copy stays. -/
theorem Client.copy_acknowledge (client : Client α) (echo : Operation α) :
    (client.acknowledge echo).state.copy = client.copy := by
  simp only [Client.acknowledge]
  split
  · rfl
  · rfl
  · split <;> rfl

variable [Element α]

/-- An operation is refused, or applied in some form and sent to all sites in this form. -/
theorem Server.integrate_cases (server : Server α) (op : Operation α) :
    (∃ e, server.integrate op = .fail e server) ∨
      ∃ op' applied, server.copy.apply op' = .ok applied ∧
        server.integrate op = .done op' { server with copy := applied }
          (server.sites.map fun site => (.site site, op')) := by
  simp only [Server.integrate]
  split
  · exact .inl ⟨_, rfl⟩
  · split
    · exact .inl ⟨_, rfl⟩
    · split
      · exact .inl ⟨_, rfl⟩
      · split
        · exact .inl ⟨_, rfl⟩
        · exact .inr ⟨_, _, ‹_›, rfl⟩

theorem Server.records : ServerAlgorithm.Records Server α where
  copy_start _ := rfl
  addSite_eq added := by
    obtain ⟨-, captured, rfl⟩ := Server.addSite_eq_ok added
    exact ⟨captured, rfl⟩
  copy_removeSite removed := by
    rw [Server.removeSite_eq_ok removed]
    rfl
  advances_integrate server op := by
    change server.copy.Advances (server.integrate op).state.copy
    rcases server.integrate_cases op with ⟨e, failed⟩ | ⟨op', applied, apply, done⟩
    · rw [failed]
      exact .rfl
    · rw [done]
      exact .applied apply

theorem Client.advances_receive (client : Client α) (op : Operation α) :
    client.copy.Advances (client.receive op).state.copy := by
  simp only [Client.receive]
  split
  · exact .rfl
  · rename_i remote underWay _
    have same : (if client.inFlight.isSome then { client with
        seen := client.seen + 1, inFlight := underWay.head?, buffer := underWay.tail }
      else { client with seen := client.seen + 1 } : Client α).copy = client.copy := by
      split <;> rfl
    split
    · exact .still (congrArg (·.document) same) (congrArg (·.history) same)
    · rename_i applied
      rw [same] at applied
      exact .applied applied

theorem Client.records : ClientAlgorithm.Records Client α where
  copy_start _ _ := rfl
  copy_withCopy _ _ := rfl
  copy_setState {client _ state} moved := by
    change (client.state.copyFrom state).map _ = _ at moved
    cases copied : client.state.copyFrom state <;> rw [copied] at moved <;> cases moved
    rfl
  advances_generate client op := by
    change client.copy.Advances (client.generate op).state.copy
    simp only [Client.generate]
    split
    · exact .rfl
    · split <;> exact .applied ‹_›
  advances_integrate client op := by
    change client.copy.Advances (client.integrate op).state.copy
    simp only [Client.integrate]
    split
    · exact .rfl
    · split
      · exact (Client.copy_acknowledge { client with seen := client.seen + 1 } op).symm ▸ .rfl
      · split
        · exact .rfl
        · exact Client.advances_receive client op

end Wave

namespace Jupiter

open ServerAlgorithm

variable {server server' : Server α} {site : SiteId} {mode : FillMode} {data : Fill α}

theorem Server.addSite_eq_ok (added : addSite server site mode = .ok (data, server')) :
    server.proxies.contains site = false ∧ data = server.copy.capture mode server.state ∧
      server' = { server with
        proxies := server.proxies.insert site (.start server.copy.history.length) } := by
  change Server.addSite server site mode = _ at added
  simp only [Server.addSite] at added
  split at added <;> cases added
  exact ⟨Bool.eq_false_iff.mpr ‹_›, rfl, rfl⟩

theorem Server.addSite_of_absent (absent : server.proxies.contains site = false)
    (mode : FillMode) :
    addSite server site mode = .ok (server.copy.capture mode server.state, { server with
      proxies := server.proxies.insert site (.start server.copy.history.length) }) :=
  if_neg (by rw [absent]; exact Bool.false_ne_true)

theorem Server.removeSite_eq_ok (removed : removeSite server site = .ok server') :
    server' = { server with proxies := server.proxies.erase site } := by
  change Server.removeSite server site = _ at removed
  simp only [Server.removeSite] at removed
  split at removed <;> cases removed
  rfl

variable [Element α]

theorem Server.records : ServerAlgorithm.Records Server α where
  copy_start _ := rfl
  addSite_eq added := by
    obtain ⟨-, captured, rfl⟩ := Server.addSite_eq_ok added
    exact ⟨captured, rfl⟩
  copy_removeSite removed := by
    rw [Server.removeSite_eq_ok removed]
    rfl
  advances_integrate server op := by
    change server.copy.Advances (server.integrate op).state.copy
    simp only [Server.integrate]
    split
    · exact .rfl
    · split
      · exact .rfl
      · split
        · exact .rfl
        · split
          · exact .rfl
          · exact .applied ‹_›

theorem Client.records : ClientAlgorithm.Records Client α where
  copy_start _ _ := rfl
  copy_withCopy _ _ := rfl
  copy_setState {client _ state} moved := by
    change (client.state.copyFrom state).map _ = _ at moved
    cases copied : client.state.copyFrom state <;> rw [copied] at moved <;> cases moved
    rfl
  advances_generate client op := by
    change client.copy.Advances (client.generate op).state.copy
    simp only [Client.generate]
    split
    · exact .rfl
    · exact .applied ‹_›
  advances_integrate client op := by
    change client.copy.Advances (client.integrate op).state.copy
    simp only [Client.integrate]
    split
    · exact .rfl
    · split
      · exact .rfl
      · exact .applied ‹_›

end Jupiter

end CoEdit
