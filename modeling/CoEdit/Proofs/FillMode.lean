import CoEdit.Proofs.Renewal

/-!
# The mode of a fill

A joining site is filled with the elements or with the history of the server, as it was told. The
fills differ in the past that the new client starts with, and a client's past has no part in what it
does, so a run of a star cannot tell which mode a site was told: each step comes to the same and
leaves the same server, the same links and clients that are the same but for their past.

Here any site may join again after it was removed, with a new client, and clients may be called with
anything, to place and move cursors for instance.
-/

namespace CoEdit

variable {α : Type}

/-- What happens next in a star, apart from the mode in which a joining site is filled. -/
inductive Turn (α : Type) where
  /-- a site registers at the server, and a new client takes its place and loads a fill -/
  | join (site : SiteId)
  | leave (site : SiteId)
  | edit (site : SiteId) (op : Operation α)
  /-- the oldest operation of a site reaches the server -/
  | up (site : SiteId)
  /-- the oldest operation for a site reaches it -/
  | down (site : SiteId)
  /-- a client is called by its user -/
  | call (site : SiteId) (next : ClientCall α)

namespace Star

open ClientAlgorithm ServerAlgorithm

variable {S C : Type → Type} [ClientAlgorithm C]

section Turns

variable [ServerAlgorithm S] [Element α]

/-- Carries out a turn; a site that joins is filled in the given mode. A delivery from an empty link
comes to nothing. -/
def turn (mode : FillMode) (star : Star S C α) :
    Turn α → Outcome (Star S C α) α (Option (Operation α))
  | .join site => ({ star with fillMode := mode }.join site).reply none
  | .leave site => (star.removeSite site).reply none
  | .edit site op => (star.edit site op).report some
  | .up site => ((star.deliverUp? site).map (·.report some)).getD (.done none star [])
  | .down site => ((star.deliverDown? site).map (·.report some)).getD (.done none star [])
  | .call site next => (star.atClient site (ClientAlgorithm.call · next)).reply none

/-- What the turns of a schedule come to, one after the other. The mode of the first one, if it is a
join, is `modes 0`, and so on. -/
def turns (star : Star S C α) (modes : Nat → FillMode) :
    List (Turn α) → List (Outcome (Star S C α) α (Option (Operation α)))
  | [] => []
  | next :: rest =>
    let first := star.turn (modes 0) next
    first :: first.state.turns (fun n => modes (n + 1)) rest

end Turns

/-- Two stars that differ in nothing but the past of their clients. What the clients still have in
common is spelled out by `Wave.Client.renewed_eq_iff` and `Jupiter.Client.renewed_eq_iff`. -/
structure Alike (star star' : Star S C α) : Prop where
  server : star.server = star'.server
  policy : star.policy = star'.policy
  clients : ∀ site, (star.clients.get? site).map renewed = (star'.clients.get? site).map renewed
  up : star.up = star'.up
  down : star.down = star'.down

end Star

namespace Outcome

variable {S C : Type → Type} [ClientAlgorithm C] {ρ τ : Type}

/-- Two steps of stars that come to the same, and differ in nothing but the past of the clients. -/
structure Alike (o o' : Outcome (Star S C α) α ρ) : Prop where
  result : o.result = o'.result
  state : o.state.Alike o'.state

theorem Alike.report {o o' : Outcome (Star S C α) α ρ} (h : o.Alike o') (f : ρ → τ) :
    (o.report f).Alike (o'.report f) :=
  ⟨congrArg (Except.map f) h.result, h.state⟩

end Outcome

namespace Star.Alike

open ClientAlgorithm ServerAlgorithm

variable {S C : Type → Type} [ClientAlgorithm C] {star star' : Star S C α} {ρ : Type}

theorem upLink (h : Alike star star') (site : SiteId) : star.upLink site = star'.upLink site := by
  simp only [Star.upLink, h.up]

theorem downLink (h : Alike star star') (site : SiteId) :
    star.downLink site = star'.downLink site := by
  simp only [Star.downLink, h.down]

theorem setUp (h : Alike star star') (site : SiteId) (ops : List (Operation α)) :
    Alike (star.setUp site ops) (star'.setUp site ops) :=
  ⟨h.server, h.policy, h.clients, congrArg (·.insert site ops) h.up, h.down⟩

theorem setDown (h : Alike star star') (site : SiteId) (ops : List (Operation α)) :
    Alike (star.setDown site ops) (star'.setDown site ops) :=
  ⟨h.server, h.policy, h.clients, h.up, congrArg (·.insert site ops) h.down⟩

theorem setServer (h : Alike star star') (server : S α) :
    Alike { star with server } { star' with server } :=
  ⟨rfl, h.policy, h.clients, h.up, h.down⟩

theorem setMode (h : Alike star star') (mode mode' : FillMode) :
    Alike { star with fillMode := mode } { star' with fillMode := mode' } :=
  ⟨h.server, h.policy, h.clients, h.up, h.down⟩

theorem setClient (h : Alike star star') (site : SiteId) {client client' : C α}
    (same : renewed client = renewed client') :
    Alike (star.setClient site client) (star'.setClient site client') := by
  refine ⟨h.server, h.policy, fun t => ?_, h.up, h.down⟩
  simp only [Star.setClient, SortedMap.get?_insert]
  split
  · exact congrArg some same
  · exact h.clients t

theorem sendUp (h : Alike star star') (site : SiteId) (sent : List (Address × Operation α)) :
    Alike (star.sendUp site sent) (star'.sendUp site sent) := by
  simp only [Star.sendUp, h.upLink]
  split
  · exact h
  · exact h.setUp site _

theorem sendDown (h : Alike star star') (sent : List (Address × Operation α)) :
    Alike (star.sendDown sent) (star'.sendDown sent) := by
  induction sent generalizing star star' with
  | nil => exact h
  | cons first rest ih =>
    obtain ⟨address, op⟩ := first
    cases address with
    | server => exact ih h
    | site t =>
      have link := h.downLink t
      have set := h.setDown t (star.downLink t ++ [op])
      exact ih (by simpa only [link] using set)

theorem atServer (h : Alike star star') (step : S α → Outcome (S α) α ρ) :
    (star.atServer step).Alike (star'.atServer step) := by
  simp only [Star.atServer, h.server]
  exact ⟨rfl, (h.setServer _).sendDown _⟩

/-- The clients at a site are both missing, or differ in their past. -/
theorem client_cases (h : Alike star star') (site : SiteId) :
    (star.clients.get? site = none ∧ star'.clients.get? site = none) ∨
      ∃ client client', star.clients.get? site = some client ∧
        star'.clients.get? site = some client' ∧ renewed client = renewed client' := by
  have there := h.clients site
  cases found : star.clients.get? site <;> cases found' : star'.clients.get? site <;>
    rw [found, found'] at there
  · exact .inl ⟨rfl, rfl⟩
  · cases there
  · cases there
  · exact .inr ⟨_, _, rfl, rfl, Option.some.inj there⟩

theorem atClient (h : Alike star star') (site : SiteId) {step : C α → Outcome (C α) α ρ}
    (oblivious : Oblivious step) : (star.atClient site step).Alike (star'.atClient site step) := by
  simp only [Star.atClient, Star.getClient]
  rcases h.client_cases site with ⟨absent, absent'⟩ | ⟨client, client', found, found', same⟩
  · simp only [absent, absent']
    exact ⟨rfl, h⟩
  · have steps : (step client).within renewed = (step client').within renewed := by
      rw [← oblivious client, ← oblivious client', same]
    have result : (step client).result = (step client').result := congrArg (·.result) steps
    have sent : (step client).sent = (step client').sent := congrArg (·.sent) steps
    have state : renewed (step client).state = renewed (step client').state :=
      congrArg (·.state) steps
    simp only [found, found', Outcome.within, result, sent]
    exact ⟨rfl, (h.setClient site state).sendUp site _⟩

end Star.Alike

namespace Star

variable {S C : Type → Type} {ρ : Type} (star : Star S C α)

theorem atServer_server (step : S α → Outcome (S α) α ρ) :
    (star.atServer step).state.server = (step star.server).state :=
  (sendDown_eq ..).1

theorem atClient_server (site : SiteId) (step : C α → Outcome (C α) α ρ) :
    (star.atClient site step).state.server = star.server := by
  simp only [atClient]
  cases star.getClient site with
  | error e => rfl
  | ok client => exact (sendUp_eq ..).1

end Star

namespace ServerAlgorithm

variable {S : Type → Type} [ServerAlgorithm S]

/-- In which mode a site asks to be filled makes no difference to the server. -/
def ModeBlind (S : Type → Type) [ServerAlgorithm S] (α : Type) : Prop :=
  ∀ (server : S α) site mode mode',
    (addSite server site mode).map Prod.snd = (addSite server site mode').map Prod.snd

end ServerAlgorithm

namespace ClientAlgorithm

variable [Element α] {C : Type → Type} [ClientAlgorithm C]

/-- A client that opens with a fill of one mode differs in its past from one that opens with the
other. -/
theorem Forgets.fill_capture (forgets : Forgets C α) {original : LocalCopy α}
    (replays : original.Replays) (policy : Policy) (site : SiteId) (mode mode' : FillMode)
    (v : StateVector) :
    (fill (start policy site : C α) (original.capture mode v)).map renewed =
      (fill (start policy site) (original.capture mode' v)).map renewed := by
  have states : ∀ mode, (original.capture mode v).state = v := fun mode =>
    (replays.load policy mode v).1
  simp only [forgets.map_renewed_fill, forgets.copy_start, replays.load_capture_renewed, states]

end ClientAlgorithm

namespace Star

open ClientAlgorithm ServerAlgorithm

variable {S C : Type → Type} [ServerAlgorithm S] [ClientAlgorithm C] [Element α]
  {star star' : Star S C α}

/-- A turn leaves the server alone, or it calls it once. -/
theorem turn_server (star : Star S C α) (mode : FillMode) (next : Turn α) :
    (star.turn mode next).state.server = star.server ∨
      ∃ next', (star.turn mode next).state.server =
        (ServerAlgorithm.call star.server next').state := by
  cases next with
  | join site =>
    refine .inr ⟨.add site mode, ?_⟩
    simp only [turn, join, addSite, atServer, ServerAlgorithm.call]
    cases ServerAlgorithm.addSite star.server site mode with
    | error e => rfl
    | ok answer =>
      simp only [Outcome.ofExcept, Outcome.within]
      cases fill (ClientAlgorithm.start star.policy site : C α) answer.1 <;> rfl
  | leave site =>
    exact .inr ⟨.remove site, star.atServer_server fun server =>
      .ofExcept server ((ServerAlgorithm.removeSite server site).map fun server => ((), server))⟩
  | edit site op => exact .inl (star.atClient_server ..)
  | up site =>
    simp only [turn, deliverUp?]
    cases star.upLink site with
    | nil => exact .inl rfl
    | cons op rest =>
      exact .inr ⟨.integrate op, (star.setUp site rest).atServer_server fun server =>
        ServerAlgorithm.integrate server op⟩
  | down site =>
    simp only [turn, deliverDown?]
    split
    · exact .inl ((star.setDown site _).atClient_server ..)
    · exact .inl rfl
  | call site next => exact .inl (star.atClient_server ..)

theorem turn_replays (records : ServerAlgorithm.Records S α) {star : Star S C α}
    (replays : (copy star.server).Replays) (mode : FillMode) (next : Turn α) :
    (copy (star.turn mode next).state.server).Replays := by
  rcases star.turn_server mode next with same | ⟨next', called⟩
  · rwa [same]
  · rw [called]
    exact (records.advances star.server next').replaysFrom replays

section Modes

variable (records : ServerAlgorithm.Records S α) (blind : ModeBlind S α) (forgets : Forgets C α)
include records blind forgets

theorem Alike.join (h : Alike star star') (replays : (copy star.server).Replays) (site : SiteId)
    {τ : Type} (r : τ) :
    ((star.join site).reply r).Alike ((star'.join site).reply r) := by
  have same := blind star.server site star.fillMode star'.fillMode
  simp only [Star.join, Star.addSite, Star.atServer, ← h.server]
  rcases Except.cases_of_map_eq same with
    ⟨e, refused, refused'⟩ | ⟨⟨data, server⟩, ⟨data', server'⟩, added, added', same⟩
  · rw [refused, refused']
    exact ⟨rfl, h⟩
  · -- the modes show in the fills, but the fills open clients that differ in their past
    obtain rfl : server = server' := same
    obtain ⟨rfl, -⟩ := records.addSite_eq added
    obtain ⟨rfl, -⟩ := records.addSite_eq added'
    have filled := forgets.fill_capture replays star.policy site star.fillMode star'.fillMode
      (ServerAlgorithm.state star.server)
    rw [added, added']
    simp only [Outcome.ofExcept, Outcome.within]
    rcases Except.cases_of_map_eq filled with ⟨e, failed, failed'⟩ | ⟨c, c', done, done', same⟩
    · rw [h.policy] at failed'
      rw [failed, failed']
      exact ⟨rfl, h.setServer server⟩
    · rw [h.policy] at done'
      rw [done, done']
      exact ⟨rfl, (((h.setServer server).setClient site same).setUp site []).setDown site []⟩

/-- One turn, with a join in any of the modes. -/
theorem Alike.turn (h : Alike star star') (replays : (copy star.server).Replays)
    (mode mode' : FillMode) (next : Turn α) :
    (star.turn mode next).Alike (star'.turn mode' next) := by
  cases next with
  | join site =>
    exact (h.setMode mode mode').join records blind forgets replays site none
  | leave site => exact (h.atServer _).report fun _ => none
  | edit site op => exact (h.atClient site (forgets.generate op)).report some
  | up site =>
    simp only [Star.turn, deliverUp?, h.upLink site]
    cases star'.upLink site with
    | nil => exact ⟨rfl, h⟩
    | cons op rest => exact ((h.setUp site rest).atServer _).report some
  | down site =>
    simp only [Star.turn, deliverDown?, h.downLink site]
    rcases h.client_cases site with ⟨absent, absent'⟩ | ⟨client, client', found, found', -⟩
    · rw [absent, absent']
      cases star'.downLink site <;> exact ⟨rfl, h⟩
    · rw [found, found']
      cases star'.downLink site with
      | nil => exact ⟨rfl, h⟩
      | cons op rest =>
        exact ((h.setDown site rest).atClient site (forgets.integrate op)).report some
  | call site next => exact (h.atClient site (forgets.oblivious_call next)).report fun _ => none

theorem Alike.turns (h : Alike star star') (replays : (copy star.server).Replays)
    (modes modes' : Nat → FillMode) (schedule : List (Turn α)) :
    List.Forall₂ Outcome.Alike (star.turns modes schedule) (star'.turns modes' schedule) := by
  induction schedule generalizing star star' modes modes' with
  | nil => exact .nil
  | cons next rest ih =>
    have first := h.turn records blind forgets replays (modes 0) (modes' 0) next
    exact .cons first (ih first.state (turn_replays records replays _ next) _ _)

end Modes

end Star

theorem Wave.Server.modeBlind : ServerAlgorithm.ModeBlind Wave.Server α := by
  intro server site mode mode'
  change (server.addSite site mode).map Prod.snd = (server.addSite site mode').map Prod.snd
  simp only [Server.addSite]
  split <;> rfl

theorem Jupiter.Server.modeBlind : ServerAlgorithm.ModeBlind Jupiter.Server α := by
  intro server site mode mode'
  change (server.addSite site mode).map Prod.snd = (server.addSite site mode').map Prod.snd
  simp only [Server.addSite]
  split <;> rfl

/-- Whatever happens in a star, the modes in which the sites are filled when they join make no
difference to what any step comes to, to the server, to the links, and to the clients except for the
past that they remember. -/
theorem fill_mode_unseen [Element α] (policy : Policy) (mode mode' : FillMode)
    (modes modes' : Nat → FillMode) (schedule : List (Turn α)) :
    List.Forall₂ Outcome.Alike
        ((Star.start policy mode : Star Wave.Server Wave.Client α).turns modes schedule)
        ((Star.start policy mode').turns modes' schedule) ∧
      List.Forall₂ Outcome.Alike
        ((Star.start policy mode : Star Jupiter.Server Jupiter.Client α).turns modes schedule)
        ((Star.start policy mode').turns modes' schedule) := by
  constructor
  · have start : (Star.start policy mode : Star Wave.Server Wave.Client α).Alike
        (Star.start policy mode') := ⟨rfl, rfl, fun _ => rfl, rfl, rfl⟩
    exact start.turns Wave.Server.records Wave.Server.modeBlind Wave.Client.forgets
      (LocalCopy.replays_empty policy) modes modes' schedule
  · have start : (Star.start policy mode : Star Jupiter.Server Jupiter.Client α).Alike
        (Star.start policy mode') := ⟨rfl, rfl, fun _ => rfl, rfl, rfl⟩
    exact start.turns Jupiter.Server.records Jupiter.Server.modeBlind Jupiter.Client.forgets
      (LocalCopy.replays_empty policy) modes modes' schedule

/-- A site enters an entity and dates it; another one joins with a cursor, dates it again, fails to
delete what is not there, and joins anew. -/
def visited (a b : SiteId) : List (Turn Record) :=
  [.join a, .edit a ⟨.insert 0 ⟨"book", .ofList [("year", .null)]⟩, none⟩,
    .edit a ⟨.update 0 "book" (.ofList [("year", .int 1)]), none⟩, .up a, .down a, .join b,
    .call b (.register (.start ⟨"c", 0⟩ 0)),
    .edit b ⟨.update 0 "book" (.ofList [("year", .int 2)]), none⟩, .edit b ⟨.delete 5, none⟩,
    .up a, .up b, .down b, .leave b, .join b]

/-- How many operations the client at a site remembers. -/
def remembered {S C : Type → Type} [ClientAlgorithm C] {ρ : Type} (site : SiteId)
    (o : Outcome (Star S C α) α ρ) : Option Nat :=
  (o.state.clients.get? site).map fun client => (ClientAlgorithm.copy client).history.length

/-- The past that the modes leave behind is not the same. -/
example :
    let b : SiteId := .ofNat 2
    let star : Star Wave.Server Wave.Client Record := .start .firstWriterWins .stateBased
    let pasts := fun mode =>
      ((star.turns (fun _ => mode) (visited (.ofNat 1) b)).map (remembered b)).drop 5
    pasts .stateBased = [some 0, some 0, some 1, some 1, some 1, some 1, some 2, some 2, some 0] ∧
      pasts .operationBased =
        [some 1, some 1, some 2, some 2, some 2, some 2, some 3, some 3, some 3] := by
  decide +kernel

end CoEdit
