import CoEdit.LocalEdit
import CoEdit.Star

/-!
# Runs of a star

A schedule is any list of actions: sites join and leave, users make edits, links deliver. What
cannot happen is passed over, namely a delivery from an empty link and a second client at a site,
so every list of actions is a schedule. Each action that succeeds leaves a report.

A site takes part in a star with its client and its two links. Actions at one site leave the seats
of the others as they are, apart from what the server sends to them.
-/

namespace CoEdit

variable {α : Type}

/-- What can happen next. -/
inductive Action (α : Type) where
  /-- a new client registers at the server and loads a fill -/
  | join (site : SiteId) (mode : FillMode)
  | leave (site : SiteId)
  | edit (site : SiteId) (op : Operation α)
  /-- the oldest operation of a site reaches the server -/
  | up (site : SiteId)
  /-- the oldest operation for a site reaches it -/
  | down (site : SiteId)
deriving DecidableEq

/-- The action leaves it open who takes part. -/
def Action.isTraffic : Action α → Bool
  | edit .. | up _ | down _ => true
  | join .. | leave _ => false

/-- Two sites write at the same time, and then all of it is delivered. -/
def crossing (a b : SiteId) (x y : Char) : List (Action Char) :=
  [.join a .operationBased, .join b .stateBased, .edit a ⟨.insert 0 x, none⟩,
    .edit b ⟨.insert 0 y, none⟩, .up a, .up b, .down a, .down b, .down a, .down b]

/-- What an action came to. Operations are reported in the form in which they were applied. -/
inductive Report (α : Type) where
  | joined (site : SiteId)
  | left (site : SiteId)
  | made (site : SiteId) (op : Operation α)
  | served (site : SiteId) (op : Operation α)
  | heard (site : SiteId) (op : Operation α)
deriving DecidableEq

/-- Who made an operation. -/
def Operation.creator? (op : Operation α) : Option SiteId := op.stamp.map (·.creator)

theorem Operation.creator?_eq {op : Operation α} {stamp : Stamp} (stamped : op.stamp = some stamp) :
    op.creator? = some stamp.creator := by
  rw [Operation.creator?, stamped, Option.map_some]

theorem Operation.stamp_ne_none {op : Operation α} {creator : SiteId}
    (made : op.creator? = some creator) : op.stamp ≠ none := by
  intro bare
  rw [Operation.creator?, bare] at made
  cases made

/-- The operations that go to a site. -/
def mailed (site : SiteId) (sent : List (Address × Operation α)) : List (Operation α) :=
  sent.filterMap fun (address, op) => if address = .site site then some op else none

theorem mailed_cons_self (site : SiteId) (op : Operation α) (sent : List (Address × Operation α)) :
    mailed site ((.site site, op) :: sent) = op :: mailed site sent :=
  List.filterMap_cons_some (if_pos rfl)

theorem mailed_cons_other {site other : SiteId} (h : other ≠ site) (op : Operation α)
    (sent : List (Address × Operation α)) :
    mailed site ((.site other, op) :: sent) = mailed site sent :=
  List.filterMap_cons_none (if_neg fun eq => h (Address.site.inj eq))

namespace Outcome

variable {σ ρ τ : Type}

/-- Turns the result of a step that succeeds into a report. -/
def report (o : Outcome σ α ρ) (f : ρ → τ) : Outcome σ α τ := ⟨o.result.map f, o.state, o.sent⟩

end Outcome

/-- The place of a site in a star: its client, and the operations under way from and to it. -/
structure Seat (C : Type → Type) (α : Type) where
  client : C α
  up : List (Operation α)
  down : List (Operation α)

namespace Star

variable {S C : Type → Type} [ServerAlgorithm S] [ClientAlgorithm C]

/-- The seat of a site, if there is a client. -/
def seat? (star : Star S C α) (site : SiteId) : Option (Seat C α) :=
  (star.clients.get? site).map fun client => ⟨client, star.upLink site, star.downLink site⟩

section Schedule

variable [Element α]

/-- Carries out an action, unless there is nothing to deliver or already a client at the site. -/
def act? (star : Star S C α) : Action α → Option (Outcome (Star S C α) α (Report α))
  | .join site mode =>
    if star.clients.contains site then none
    else some (({ star with fillMode := mode }.join site).reply (.joined site))
  | .leave site => some ((star.removeSite site).reply (.left site))
  | .edit site op => some ((star.edit site op).report (.made site))
  | .up site => (star.deliverUp? site).map (·.report (.served site))
  | .down site => (star.deliverDown? site).map (·.report (.heard site))

/-- Only where there is no client yet can one join. -/
theorem act?_join {star : Star S C α} {site : SiteId} {mode : FillMode}
    {o : Outcome (Star S C α) α (Report α)} (acted : star.act? (.join site mode) = some o) :
    star.seat? site = none ∧
      o = ({ star with fillMode := mode }.join site).reply (.joined site) := by
  simp only [act?] at acted
  split at acted
  · cases acted
  · rename_i absent
    cases acted
    exact ⟨by simpa [seat?, SortedMap.contains] using absent, rfl⟩

/-- The star after an action. -/
def after (star : Star S C α) (action : Action α) : Star S C α :=
  match star.act? action with
  | none => star
  | some o => o.state

/-- The report on an action that succeeds. -/
def report? (star : Star S C α) (action : Action α) : Option (Report α) :=
  (star.act? action).bind (·.result.toOption)

/-- The star after a schedule. -/
def run (star : Star S C α) : List (Action α) → Star S C α
  | [] => star
  | action :: rest => (star.after action).run rest

/-- The reports of a schedule, in order. -/
def reports (star : Star S C α) : List (Action α) → List (Report α)
  | [] => []
  | action :: rest => (star.report? action).toList ++ (star.after action).reports rest

end Schedule

end Star

namespace Star

variable {S C : Type → Type} (star : Star S C α) (s t : SiteId)
  (sent : List (Address × Operation α))

theorem upLink_setUp (ops : List (Operation α)) :
    (star.setUp s ops).upLink t = if t = s then ops else star.upLink t := by
  simp only [upLink, setUp, SortedMap.get?_insert]
  split <;> rfl

theorem downLink_setDown (ops : List (Operation α)) :
    (star.setDown s ops).downLink t = if t = s then ops else star.downLink t := by
  simp only [downLink, setDown, SortedMap.get?_insert]
  split <;> rfl

/-- A client's messages are added to its link, and nothing else changes. -/
theorem sendUp_eq :
    (star.sendUp s sent).server = star.server ∧ (star.sendUp s sent).policy = star.policy ∧
      (star.sendUp s sent).clients = star.clients ∧ (star.sendUp s sent).down = star.down ∧
      ∀ t, (star.sendUp s sent).upLink t =
        if t = s then star.upLink s ++ sent.map Prod.snd else star.upLink t := by
  simp only [sendUp]
  split
  · rename_i nothing
    refine ⟨rfl, rfl, rfl, rfl, fun t => ?_⟩
    rw [List.isEmpty_iff.mp nothing, List.map_nil, List.append_nil]
    split
    · rename_i h
      rw [h]
    · rfl
  · exact ⟨rfl, rfl, rfl, rfl, fun t => star.upLink_setUp s t _⟩

/-- The server's messages are added to the links to the sites, and nothing else changes. -/
theorem sendDown_eq :
    (star.sendDown sent).server = star.server ∧ (star.sendDown sent).policy = star.policy ∧
      (star.sendDown sent).clients = star.clients ∧ (star.sendDown sent).up = star.up ∧
      ∀ t, (star.sendDown sent).downLink t = star.downLink t ++ mailed t sent := by
  induction sent generalizing star with
  | nil => exact ⟨rfl, rfl, rfl, rfl, fun t => (List.append_nil _).symm⟩
  | cons first rest ih =>
    obtain ⟨address, op⟩ := first
    cases address with
    | server => exact ih star
    | site s =>
      obtain ⟨server, policy, clients, up, down⟩ := ih (star.setDown s (star.downLink s ++ [op]))
      refine ⟨server, policy, clients, up, fun t => (down t).trans ?_⟩
      rw [downLink_setDown]
      by_cases h : t = s
      · subst t
        rw [if_pos rfl, mailed_cons_self, List.append_assoc, List.singleton_append]
      · rw [if_neg h, mailed_cons_other (Ne.symm h)]

/-- Only the seat of one site changes. -/
structure Reseated (star : Star S C α) (site : SiteId) (seat : Seat C α) (star' : Star S C α) :
    Prop where
  server : star'.server = star.server
  policy : star'.policy = star.policy
  seats : ∀ t, star'.seat? t = if t = site then some seat else star.seat? t
  ups : ∀ t, star'.upLink t = if t = site then seat.up else star.upLink t

/-- The server changes, takes the oldest operation of a site off its link, and sends. -/
structure Served (star : Star S C α) (site : SiteId) (rest : List (Operation α)) (server : S α)
    (sent : List (Address × Operation α)) (star' : Star S C α) : Prop where
  server : star'.server = server
  policy : star'.policy = star.policy
  seats : ∀ t, star'.seat? t = (star.seat? t).map fun seat =>
    ⟨seat.client, if t = site then rest else seat.up, seat.down ++ mailed t sent⟩
  ups : ∀ t, star'.upLink t = if t = site then rest else star.upLink t

variable {star s t}

namespace Served

variable {star' : Star S C α} {rest : List (Operation α)} {server : S α}
  {sent : List (Address × Operation α)} {seat : Seat C α}

theorem seat_self (h : star.Served s rest server sent star') (seated : star.seat? s = some seat) :
    star'.seat? s = some ⟨seat.client, rest, seat.down ++ mailed s sent⟩ := by
  simp [h.seats, seated]

theorem seat_other (h : star.Served s rest server sent star') (other : t ≠ s)
    (seated : star.seat? t = some seat) :
    star'.seat? t = some { seat with down := seat.down ++ mailed t sent } := by
  simp [h.seats, seated, other]

end Served

theorem seat?_eq_some_iff {seat : Seat C α} :
    star.seat? s = some seat ↔ star.clients.get? s = some seat.client ∧
      star.upLink s = seat.up ∧ star.downLink s = seat.down := by
  simp only [seat?, Option.map_eq_some_iff]
  constructor
  · rintro ⟨client, h, rfl⟩
    exact ⟨h, rfl, rfl⟩
  · rintro ⟨h, up, down⟩
    refine ⟨seat.client, h, ?_⟩
    rw [up, down]

/-- A seat is put together from the client and the two links. -/
theorem seat?_eq {client : Option (C α)} {up down : List (Operation α)}
    (hc : star.clients.get? s = client) (hu : star.upLink s = up) (hd : star.downLink s = down) :
    star.seat? s = client.map fun client => ⟨client, up, down⟩ := by
  rw [← hc, ← hu, ← hd]
  rfl

theorem reseated_sendUp {seat : Seat C α} (h : star.seat? s = some seat) (client : C α)
    (sent : List (Address × Operation α)) :
    star.Reseated s ⟨client, seat.up ++ sent.map Prod.snd, seat.down⟩
      ((star.setClient s client).sendUp s sent) := by
  obtain ⟨-, up, down⟩ := seat?_eq_some_iff.mp h
  obtain ⟨server, policy, clients, downs, ups⟩ := (star.setClient s client).sendUp_eq s sent
  have ups' : ∀ t, ((star.setClient s client).sendUp s sent).upLink t =
      if t = s then seat.up ++ sent.map Prod.snd else star.upLink t := by
    intro t
    rw [ups, ← up]
    rfl
  refine ⟨server, policy, fun t => ?_, ups'⟩
  have clients' : ((star.setClient s client).sendUp s sent).clients.get? t =
      if t = s then some client else star.clients.get? t := by
    rw [clients]
    exact SortedMap.get?_insert ..
  have downs' : ((star.setClient s client).sendUp s sent).downLink t = star.downLink t := by
    simp only [downLink]
    rw [downs]
    rfl
  rw [seat?_eq clients' (ups' t) downs']
  by_cases here : t = s
  · subst t
    rw [if_pos rfl, if_pos rfl, if_pos rfl, down]
    rfl
  · rw [if_neg here, if_neg here, if_neg here]
    rfl

theorem served_sendDown (server : S α) (rest : List (Operation α))
    (sent : List (Address × Operation α)) :
    star.Served s rest server sent (({ star.setUp s rest with server }).sendDown sent) := by
  obtain ⟨server', policy, clients, up, downs⟩ :=
    ({ star.setUp s rest with server } : Star S C α).sendDown_eq sent
  have ups : ∀ t, (({ star.setUp s rest with server } : Star S C α).sendDown sent).upLink t =
      if t = s then rest else star.upLink t := by
    intro t
    simp only [upLink]
    rw [up]
    exact star.upLink_setUp s t rest
  refine ⟨server', policy, fun t => ?_, ups⟩
  rw [seat?_eq (congrArg (SortedMap.get? · t) clients) (ups t) (downs t), seat?, Option.map_map]
  rfl

theorem atClient_eq {ρ : Type} {seat : Seat C α} (h : star.seat? s = some seat)
    (step : C α → Outcome (C α) α ρ) :
    star.atClient s step = (step seat.client).within fun client =>
      (star.setClient s client).sendUp s (step seat.client).sent := by
  have found : star.getClient s = .ok seat.client := by
    simp only [getClient]
    rw [(seat?_eq_some_iff.mp h).1]
  simp only [atClient]
  rw [found]

theorem removeSite_of_ok [ServerAlgorithm S] {server : S α}
    (h : ServerAlgorithm.removeSite star.server s = .ok server) :
    star.removeSite s = .done () { star with server } [] := by
  simp only [removeSite, atServer, h]
  rfl

theorem removeSite_of_error [ServerAlgorithm S] {e : SyncError}
    (h : ServerAlgorithm.removeSite star.server s = .error e) :
    star.removeSite s = .fail e star := by
  simp only [removeSite, atServer, h]
  rfl

/-- Delivery from a site, as far as the seats go. -/
theorem deliverUp?_spec [ServerAlgorithm S] [Element α] {o : Outcome (Star S C α) α (Operation α)}
    (h : star.deliverUp? s = some o) :
    ∃ op rest, star.upLink s = op :: rest ∧
      o.result = (ServerAlgorithm.integrate star.server op).result ∧
      star.Served s rest (ServerAlgorithm.integrate star.server op).state
        (ServerAlgorithm.integrate star.server op).sent o.state := by
  simp only [deliverUp?] at h
  split at h
  · cases h
  · rename_i op rest link
    cases h
    exact ⟨op, rest, link, rfl, served_sendDown ..⟩

/-- What waits on a site's link can be delivered. -/
theorem deliverUp?_of_link [ServerAlgorithm S] [Element α] {op : Operation α}
    {rest : List (Operation α)} (link : star.upLink s = op :: rest) :
    ∃ o, star.deliverUp? s = some o ∧
      o.result = (ServerAlgorithm.integrate star.server op).result ∧
      o.state.server = (ServerAlgorithm.integrate star.server op).state := by
  have delivered : (star.deliverUp? s).isSome := by
    simp only [deliverUp?, link, Option.isSome_some]
  obtain ⟨o, delivered⟩ := Option.isSome_iff_exists.mp delivered
  obtain ⟨oldest, _, waiting, result, moved⟩ := deliverUp?_spec delivered
  obtain rfl : oldest = op := (List.cons.inj (waiting.symm.trans link)).1
  exact ⟨o, delivered, result, moved.server⟩

variable [ClientAlgorithm C]

/-- An edit, as far as the seats go. -/
theorem edit_spec [Element α] {seat : Seat C α} (h : star.seat? s = some seat)
    (op : Operation α) :
    (star.edit s op).result = (ClientAlgorithm.generate seat.client op).result ∧
      star.Reseated s ⟨(ClientAlgorithm.generate seat.client op).state,
        seat.up ++ (ClientAlgorithm.generate seat.client op).sent.map Prod.snd, seat.down⟩
        (star.edit s op).state := by
  simp only [edit]
  rw [atClient_eq h]
  exact ⟨rfl, reseated_sendUp h ..⟩

/-- Without a client there is nothing to edit. -/
theorem edit_of_vacant [Element α] (h : star.seat? s = none) (op : Operation α) :
    star.edit s op = .fail (.unknownSite s) star := by
  simp only [edit, atClient, getClient]
  rw [Option.map_eq_none_iff.mp h]

/-- Delivery to a site, as far as the seats go. -/
theorem deliverDown?_spec [Element α] {o : Outcome (Star S C α) α (Operation α)}
    (h : star.deliverDown? s = some o) :
    ∃ seat op rest, star.seat? s = some seat ∧ seat.down = op :: rest ∧
      o.result = (ClientAlgorithm.integrate seat.client op).result ∧
      star.Reseated s ⟨(ClientAlgorithm.integrate seat.client op).state,
        seat.up ++ (ClientAlgorithm.integrate seat.client op).sent.map Prod.snd, rest⟩
        o.state := by
  simp only [deliverDown?] at h
  split at h
  · rename_i op rest client link found
    cases h
    refine ⟨⟨client, star.upLink s, op :: rest⟩, op, rest,
      seat?_eq_some_iff.mpr ⟨found, rfl, link⟩, rfl, ?_⟩
    have seated : (star.setDown s rest).seat? s = some ⟨client, star.upLink s, rest⟩ := by
      refine seat?_eq_some_iff.mpr ⟨found, rfl, ?_⟩
      rw [downLink_setDown, if_pos rfl]
    simp only [clientReceive]
    rw [atClient_eq seated]
    obtain ⟨server, policy, seats, ups⟩ := reseated_sendUp seated
      (ClientAlgorithm.integrate client op).state (ClientAlgorithm.integrate client op).sent
    refine ⟨rfl, server, policy, fun t => (seats t).trans ?_, ups⟩
    split
    · rfl
    · rename_i elsewhere
      refine (seat?_eq rfl rfl ?_).trans rfl
      rw [downLink_setDown, if_neg elsewhere]
  · cases h

/-- What waits on the link to a client can be delivered. -/
theorem deliverDown?_of_link [Element α] {client : C α} {op : Operation α}
    {rest : List (Operation α)} (link : star.downLink s = op :: rest)
    (found : star.clients.get? s = some client) :
    ∃ o, star.deliverDown? s = some o ∧
      o.result = (ClientAlgorithm.integrate client op).result ∧
      o.state.clients.get? s = some (ClientAlgorithm.integrate client op).state := by
  have delivered : (star.deliverDown? s).isSome := by
    simp only [deliverDown?, link, found, Option.isSome_some]
  obtain ⟨o, delivered⟩ := Option.isSome_iff_exists.mp delivered
  obtain ⟨seat, oldest, _, seated, waiting, result, moved⟩ := deliverDown?_spec delivered
  obtain ⟨found', -, down⟩ := seat?_eq_some_iff.mp seated
  obtain rfl : client = seat.client := Option.some.inj (found.symm.trans found')
  obtain rfl : oldest = op := (List.cons.inj (waiting.symm.trans (down.symm.trans link))).1
  have there := seat?_eq_some_iff.mp ((moved.seats s).trans (if_pos rfl))
  exact ⟨o, delivered, result, there.1⟩

variable [ServerAlgorithm S]

/-- A site joins with both links empty. -/
theorem join_spec [Element α] {mode : FillMode} {data : Fill α} {server : S α} {client : C α}
    (added : ServerAlgorithm.addSite star.server s mode = .ok (data, server))
    (filled : ClientAlgorithm.fill (ClientAlgorithm.start star.policy s : C α) data = .ok client) :
    ∃ star' : Star S C α,
      ({ star with fillMode := mode } : Star S C α).join s = .done data star' [] ∧
      ({ star with server } : Star S C α).Reseated s ⟨client, [], []⟩ star' := by
  have registered : ({ star with fillMode := mode } : Star S C α).addSite s =
      .done data { star with fillMode := mode, server } [] := by
    simp only [addSite, atServer, added]
    rfl
  let filling : Star S C α := { star with fillMode := mode, server }
  let opened := ((filling.setClient s client).setUp s []).setDown s []
  have ups : ∀ t, opened.upLink t = if t = s then [] else star.upLink t :=
    fun t => filling.upLink_setUp s t []
  refine ⟨opened, ?_, rfl, rfl, fun t => ?_, ups⟩
  · simp only [join, registered, Outcome.done, filled]
    rfl
  · have clients : opened.clients.get? t = if t = s then some client else star.clients.get? t :=
      SortedMap.get?_insert ..
    have downs : opened.downLink t = if t = s then [] else star.downLink t :=
      filling.downLink_setDown s t []
    rw [seat?_eq clients (ups t) downs]
    by_cases here : t = s
    · rw [if_pos here, if_pos here, if_pos here, if_pos here]
      rfl
    · rw [if_neg here, if_neg here, if_neg here, if_neg here]
      rfl

end Star

end CoEdit
