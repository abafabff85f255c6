import CoEdit.Proofs.Gap
import CoEdit.Proofs.Schedule
import Mathlib.Logic.Function.Basic

/-!
# Simulation by gaps

A control algorithm is understood once it is said, for each registered site, which gap between the
site and the server its queues, links and counters stand for. `Simulation` collects what has to be
checked of single steps of one client or of the server; that a whole star then moves as its gaps do,
along every schedule, is shown here for all algorithms alike.
-/

namespace CoEdit

variable {α : Type}

namespace Report

/-- What a report adds to the history of the server. -/
def recorded : Report α → List (Operation α)
  | served _ op => [op]
  | _ => []

end Report

section Moves

variable [Element α]

/-- The gaps of all sites move as a report says. An operation that comes back to its site was never
part of what separates the two; the gaps of sites that are not registered mean nothing. -/
inductive Moves (policy : Policy) (members : List SiteId) (gaps : SiteId → Gap α) :
    Report α → (SiteId → Gap α) → Prop where
  | joined {site : SiteId} {gap : Gap α} (mine : gap.mine = []) (theirs : gap.theirs = []) :
      Moves policy members gaps (.joined site) (Function.update gaps site gap)
  | left {site : SiteId} : Moves policy members gaps (.left site) gaps
  | made {site : SiteId} {op : Operation α} :
      Moves policy members gaps (.made site op)
        (Function.update gaps site { gaps site with mine := (gaps site).mine ++ [op] })
  | heard {site : SiteId} {op : Operation α} {gap : Gap α} (foreign : op.creator? ≠ some site)
      (moved : (gaps site).Heard policy op gap) :
      Moves policy members gaps (.heard site op) (Function.update gaps site gap)
  | echoed {site : SiteId} {op : Operation α} {gap : Gap α} (own : op.creator? = some site)
      (shared : gap.shared = (gaps site).shared)
      (mine : gap.mine.map (·.edit) = (gaps site).mine.map (·.edit))
      (theirs : gap.theirs = (gaps site).theirs) :
      Moves policy members gaps (.heard site op) (Function.update gaps site gap)
  | served {site : SiteId} {op : Operation α} {gaps' : SiteId → Gap α} (member : site ∈ members)
      (moved : (gaps site).Served policy op (gaps' site))
      (relayed : ∀ t ∈ members, t ≠ site → ∃ relay : Operation α, relay.edit = op.edit ∧
        relay.creator? = some site ∧
        gaps' t = { gaps t with theirs := (gaps t).theirs ++ [relay] }) :
      Moves policy members gaps (.served site op) gaps'
  | outside {site : SiteId} {op : Operation α} {report : Report α} (stranger : site ∉ members)
      (reported : report = .made site op ∨ report = .heard site op) :
      Moves policy members gaps report gaps

def MovesBy (policy : Policy) (members : List SiteId) (gaps gaps' : SiteId → Gap α) :
    Except SyncError (Report α) → Prop
  | .ok report => Moves policy members gaps report gaps'
  | .error _ => gaps' = gaps

/-- The gaps move as one report after the other says. -/
inductive MovesAll (policy : Policy) (members : List SiteId) :
    (SiteId → Gap α) → List (Report α) → (SiteId → Gap α) → Prop where
  | nil (gaps : SiteId → Gap α) : MovesAll policy members gaps [] gaps
  | cons {gaps gaps₁ gaps₂ : SiteId → Gap α} {report : Report α} {rest : List (Report α)}
      (first : Moves policy members gaps report gaps₁)
      (others : MovesAll policy members gaps₁ rest gaps₂) :
      MovesAll policy members gaps (report :: rest) gaps₂

theorem MovesBy.movesAll {policy : Policy} {members : List SiteId} {gaps gaps' : SiteId → Gap α}
    {result : Except SyncError (Report α)} (h : MovesBy policy members gaps gaps' result) :
    MovesAll policy members gaps result.toOption.toList gaps' := by
  cases result with
  | error e =>
    cases h
    exact .nil gaps
  | ok report => exact .cons h (.nil gaps')

theorem MovesAll.append {policy : Policy} {members : List SiteId}
    {gaps gaps₁ gaps₂ : SiteId → Gap α} {before after : List (Report α)}
    (h : MovesAll policy members gaps before gaps₁)
    (h' : MovesAll policy members gaps₁ after gaps₂) :
    MovesAll policy members gaps (before ++ after) gaps₂ := by
  induction h with
  | nil => exact h'
  | cons first _ ih => exact .cons first (ih h')

end Moves

open ClientAlgorithm ServerAlgorithm

/-- A fill of the right shape that can be loaded opens the client. -/
theorem ClientAlgorithm.fill_eq_ok {C : Type → Type} [ClientAlgorithm C] [Element α]
    {client client' : C α} {data : Fill α} {loaded : LocalCopy α}
    (shape : data.state.size = (ClientAlgorithm.state client).size)
    (load : (copy client).load data = .ok loaded)
    (moved : setState (withCopy client loaded) data.state = .ok client') :
    fill client data = .ok client' := by
  simp only [fill, shape, load, bind, Except.bind, moved]
  exact if_neg fun differs => differs rfl

/-- How the states of a client and a server stand for a gap, and what is preserved by their
steps. -/
structure Simulation (S C : Type → Type) [ServerAlgorithm S] [ClientAlgorithm C] (α : Type)
    [Element α] (policy : Policy) where
  /-- holds of the server, whatever the sites do -/
  Sound : S α → Prop
  /-- holds of every client, registered or not -/
  Owned : SiteId → C α → Prop
  /-- the seat of a registered site stands for a gap -/
  Tracks : S α → SiteId → Seat C α → Gap α → Prop
  spans : ∀ {server site seat gap}, Tracks server site seat gap →
    gap.Spans (copy seat.client).document.values (copy server).document.values
  quiet : ∀ {server site client gap}, Tracks server site ⟨client, [], []⟩ gap →
    gap.mine = [] ∧ gap.theirs = []
  sound : ∀ {server}, Sound server → (copy server).Sound policy
  start_sound : Sound (start policy)
  start_sites : sites (start policy : S α) = []
  join : ∀ {server site} (mode : FillMode), Sound server → site ∉ sites server →
    ∃ data server' client gap, addSite server site mode = .ok (data, server') ∧
      fill (ClientAlgorithm.start policy site) data = .ok client ∧ Sound server' ∧
      Owned site client ∧ (copy server').history = (copy server).history ∧
      (∀ t, t ∈ sites server' ↔ t = site ∨ t ∈ sites server) ∧
      Tracks server' site ⟨client, [], []⟩ gap ∧
      ∀ t seat gap, t ≠ site → Tracks server t seat gap → Tracks server' t seat gap
  leave : ∀ {server server' site}, Sound server → removeSite server site = .ok server' →
    Sound server' ∧ (copy server').history = (copy server).history ∧
      (∀ t ∈ sites server, t ≠ site → t ∈ sites server') ∧
      ∀ t ∈ sites server', t ∈ sites server ∧
        ∀ seat gap, Tracks server t seat gap → Tracks server' t seat gap
  generate_owned : ∀ {site client} (op : Operation α), Owned site client →
    Owned site (generate client op).state ∧
      ∀ sent ∈ (generate client op).sent, sent.2.creator? = some site
  generate : ∀ {server site client up down gap} (op : Operation α),
    Tracks server site ⟨client, up, down⟩ gap →
    (∃ e, generate client op = .fail e client) ∨
      ∃ op', (generate client op).result = .ok op' ∧ op'.edit = op.edit ∧
        Tracks server site ⟨(generate client op).state,
          up ++ (generate client op).sent.map Prod.snd, down⟩
          { gap with mine := gap.mine ++ [op'] }
  hear_owned : ∀ {site client} (op : Operation α), Owned site client →
    Owned site (ClientAlgorithm.integrate client op).state ∧
      ∀ sent ∈ (ClientAlgorithm.integrate client op).sent, sent.2.creator? = some site
  hear : ∀ {server site client up op down gap}, Sound server →
    Tracks server site ⟨client, up, op :: down⟩ gap →
    ∃ op' gap', (ClientAlgorithm.integrate client op).result = .ok op' ∧
      (op'.creator? ≠ some site ∧ gap.Heard policy op' gap' ∨
        op'.creator? = some site ∧ gap'.shared = gap.shared ∧
          gap'.mine.map (·.edit) = gap.mine.map (·.edit) ∧ gap'.theirs = gap.theirs) ∧
      Tracks server site ⟨(ClientAlgorithm.integrate client op).state,
        up ++ (ClientAlgorithm.integrate client op).sent.map Prod.snd, down⟩ gap'
  refuse : ∀ {server site op}, Sound server → site ∉ sites server → op.creator? = some site →
    ∃ e, ServerAlgorithm.integrate server op = .fail e server
  serve : ∀ {server site client op up down gap}, Sound server → site ∈ sites server →
    op.creator? = some site → Tracks server site ⟨client, op :: up, down⟩ gap →
    ∃ op' gap', (ServerAlgorithm.integrate server op).result = .ok op' ∧
      gap.Served policy op' gap' ∧
      (copy (ServerAlgorithm.integrate server op).state).history =
        (copy server).history ++ [op'] ∧
      Sound (ServerAlgorithm.integrate server op).state ∧
      sites (ServerAlgorithm.integrate server op).state = sites server ∧
      Tracks (ServerAlgorithm.integrate server op).state site
        ⟨client, up, down ++ mailed site (ServerAlgorithm.integrate server op).sent⟩ gap' ∧
      ∀ t ∈ sites server, t ≠ site → ∃ relay : Operation α, relay.edit = op'.edit ∧
        relay.creator? = some site ∧
        ∀ seat gap, Tracks server t seat gap →
          Tracks (ServerAlgorithm.integrate server op).state t
            { seat with
              down := seat.down ++ mailed t (ServerAlgorithm.integrate server op).sent }
            { gap with theirs := gap.theirs ++ [relay] }

namespace Simulation

variable {S C : Type → Type} [ServerAlgorithm S] [ClientAlgorithm C] [Element α] {policy : Policy}
  (sim : Simulation S C α policy)

/-- A star stands for gaps. -/
structure Follows (star : Star S C α) (gaps : SiteId → Gap α) : Prop where
  policy_eq : star.policy = policy
  sound : sim.Sound star.server
  owned : ∀ site seat, star.seat? site = some seat → sim.Owned site seat.client
  signed : ∀ site, ∀ op ∈ star.upLink site, op.creator? = some site
  tracked : ∀ site ∈ sites star.server, ∃ seat, star.seat? site = some seat ∧
    sim.Tracks star.server site seat (gaps site)

/-- Where nothing is under way, a site has the elements of the server. -/
theorem settled {server : S α} {site : SiteId} {seat : Seat C α} {gap : Gap α}
    (tracks : sim.Tracks server site seat gap) (up : seat.up = []) (down : seat.down = []) :
    (copy seat.client).document.values = (copy server).document.values := by
  obtain ⟨client, _, _⟩ := seat
  cases up
  cases down
  obtain ⟨mine, theirs⟩ := sim.quiet tracks
  exact (sim.spans tracks).eq mine theirs

theorem follows_start (mode : FillMode) (gaps : SiteId → Gap α) :
    sim.Follows (.start policy mode : Star S C α) gaps := by
  refine ⟨rfl, sim.start_sound, ?_, ?_, ?_⟩
  · intro site seat h
    cases h
  · intro site op h
    cases h
  · intro site h
    change site ∈ sites (ServerAlgorithm.start policy : S α) at h
    rw [sim.start_sites] at h
    cases h

namespace Follows

variable {sim} {star star' : Star S C α} {gaps : SiteId → Gap α} {site : SiteId}

/-- A seat is replaced while the server turns into one that tracks the other seats as before. -/
theorem replace {server : S α} {seat : Seat C α} {gap : Gap α} (h : sim.Follows star gaps)
    (moved : ({ star with server } : Star S C α).Reseated site seat star')
    (sound : sim.Sound server) (owned : sim.Owned site seat.client)
    (signed : ∀ op ∈ seat.up, op.creator? = some site)
    (tracked : site ∈ sites server → sim.Tracks server site seat gap)
    (others : ∀ t ∈ sites server, t ≠ site → t ∈ sites star.server ∧
      ∀ seat gap, sim.Tracks star.server t seat gap → sim.Tracks server t seat gap) :
    sim.Follows star' (Function.update gaps site gap) := by
  have server_eq : star'.server = server := moved.server
  refine ⟨moved.policy.trans h.policy_eq, server_eq ▸ sound, ?_, ?_, ?_⟩
  · intro t seat' seated
    rw [moved.seats] at seated
    split at seated
    · rename_i here
      cases seated
      exact here ▸ owned
    · exact h.owned t seat' seated
  · intro t op sent
    rw [moved.ups] at sent
    split at sent
    · rename_i here
      exact here ▸ signed op sent
    · exact h.signed t op sent
  · intro t member
    rw [server_eq] at member
    rw [moved.seats, server_eq]
    by_cases here : t = site
    · subst t
      rw [if_pos rfl, Function.update_self]
      exact ⟨seat, rfl, tracked member⟩
    · obtain ⟨known, still⟩ := others t member here
      obtain ⟨seat', seated, tracks⟩ := h.tracked t known
      rw [if_neg here, Function.update_of_ne here]
      exact ⟨seat', seated, still seat' _ tracks⟩

theorem reseat {seat : Seat C α} {gap : Gap α} (h : sim.Follows star gaps)
    (moved : star.Reseated site seat star') (owned : sim.Owned site seat.client)
    (signed : ∀ op ∈ seat.up, op.creator? = some site)
    (tracked : site ∈ sites star.server → sim.Tracks star.server site seat gap) :
    sim.Follows star' (Function.update gaps site gap) :=
  h.replace moved h.sound owned signed tracked fun _ known _ => ⟨known, fun _ _ => id⟩

/-- What a client sends belongs to it, like what is on its link already. -/
theorem signed_append {seat : Seat C α} {sent : List (Address × Operation α)}
    (h : sim.Follows star gaps) (seated : star.seat? site = some seat)
    (new : ∀ message ∈ sent, message.2.creator? = some site) :
    ∀ op ∈ seat.up ++ sent.map Prod.snd, op.creator? = some site := by
  intro op among
  rcases List.mem_append.mp among with waiting | added
  · rw [← (Star.seat?_eq_some_iff.mp seated).2.1] at waiting
    exact h.signed site op waiting
  · obtain ⟨message, known, rfl⟩ := List.mem_map.mp added
    exact new message known

theorem reseat_stranger {seat : Seat C α} (h : sim.Follows star gaps)
    (moved : star.Reseated site seat star') (owned : sim.Owned site seat.client)
    (signed : ∀ op ∈ seat.up, op.creator? = some site) (stranger : site ∉ sites star.server) :
    sim.Follows star' gaps := by
  have tracked : site ∈ sites star.server → sim.Tracks star.server site seat (gaps site) :=
    fun member => absurd member stranger
  have kept := h.reseat moved owned signed tracked
  rwa [Function.update_eq_self] at kept

/-- An edit that is refused changes nothing, and one that is made is the site's own. -/
theorem edit (h : sim.Follows star gaps) (site : SiteId) (op : Operation α) :
    ∃ gaps', sim.Follows (star.edit site op).state gaps' ∧
      (star.edit site op).state.server = star.server ∧
      MovesBy policy (sites star.server) gaps gaps'
        ((star.edit site op).result.map (Report.made site)) := by
  cases seated : star.seat? site with
  | none =>
    rw [Star.edit_of_vacant seated]
    exact ⟨gaps, h, rfl, rfl⟩
  | some seat =>
    obtain ⟨result, moved⟩ := Star.edit_spec seated op
    obtain ⟨owned, new⟩ := sim.generate_owned op (h.owned site seat seated)
    have signed := h.signed_append seated new
    by_cases member : site ∈ sites star.server
    · obtain ⟨seat', seated', tracks⟩ := h.tracked site member
      obtain rfl : seat = seat' := Option.some.inj (seated.symm.trans seated')
      rcases sim.generate op tracks with ⟨e, failed⟩ | ⟨op', made, -, tracks'⟩
      · have still : sim.Tracks star.server site ⟨(ClientAlgorithm.generate seat.client op).state,
            seat.up ++ (ClientAlgorithm.generate seat.client op).sent.map Prod.snd, seat.down⟩
            (gaps site) := by
          rw [failed]
          simpa [Outcome.fail] using tracks
        refine ⟨_, h.reseat moved owned signed fun _ => still, moved.server, ?_⟩
        rw [result, failed]
        exact Function.update_eq_self ..
      · refine ⟨_, h.reseat moved owned signed fun _ => tracks', moved.server, ?_⟩
        rw [result, made]
        exact .made
    · refine ⟨gaps, h.reseat_stranger moved owned signed member, moved.server, ?_⟩
      cases (star.edit site op).result with
      | error e => exact rfl
      | ok op' => exact .outside member (.inl rfl)

/-- A registered site takes in what comes from the server. -/
theorem down (h : sim.Follows star gaps) {o : Outcome (Star S C α) α (Operation α)}
    (delivered : star.deliverDown? site = some o) :
    ∃ gaps', sim.Follows o.state gaps' ∧ o.state.server = star.server ∧
      (site ∈ sites star.server → ∃ op, o.result = .ok op) ∧
      MovesBy policy (sites star.server) gaps gaps' (o.result.map (Report.heard site)) := by
  obtain ⟨seat, op, rest, seated, link, result, moved⟩ := Star.deliverDown?_spec delivered
  obtain ⟨owned, new⟩ := sim.hear_owned op (h.owned site seat seated)
  have signed := h.signed_append seated new
  by_cases member : site ∈ sites star.server
  · obtain ⟨seat', seated', tracks⟩ := h.tracked site member
    obtain rfl : seat = seat' := Option.some.inj (seated.symm.trans seated')
    obtain ⟨client, up, down⟩ := seat
    cases link
    obtain ⟨op', gap', heard, change, tracks'⟩ := sim.hear h.sound tracks
    refine ⟨_, h.reseat moved owned signed fun _ => tracks', moved.server,
      fun _ => ⟨op', result.trans heard⟩, ?_⟩
    rw [result, heard]
    rcases change with ⟨foreign, heard⟩ | ⟨own, shared, mine, theirs⟩
    · exact .heard foreign heard
    · exact .echoed own shared mine theirs
  · refine ⟨gaps, h.reseat_stranger moved owned signed member, moved.server,
      fun known => absurd known member, ?_⟩
    cases o.result with
    | error e => exact rfl
    | ok op' => exact .outside member (.inr rfl)

/-- The server takes in what comes from a registered site, and refuses all else. -/
theorem up (h : sim.Follows star gaps) {o : Outcome (Star S C α) α (Operation α)}
    (delivered : star.deliverUp? site = some o) :
    ∃ gaps', sim.Follows o.state gaps' ∧ sites o.state.server = sites star.server ∧
      (site ∈ sites star.server → ∃ op, o.result = .ok op) ∧
      (copy o.state.server).history =
        (copy star.server).history ++ o.result.toOption.toList ∧
      MovesBy policy (sites star.server) gaps gaps' (o.result.map (Report.served site)) := by
  obtain ⟨op, rest, link, result, next⟩ := Star.deliverUp?_spec delivered
  have own : op.creator? = some site := h.signed site op (by rw [link]; exact List.mem_cons_self)
  have signed : ∀ t, ∀ op ∈ o.state.upLink t, op.creator? = some t := by
    intro t op' waiting
    rw [next.ups] at waiting
    split at waiting
    · rename_i here
      subst t
      exact h.signed site op' (by rw [link]; exact List.mem_cons_of_mem _ waiting)
    · exact h.signed t op' waiting
  have owned : ∀ t seat, o.state.seat? t = some seat → sim.Owned t seat.client := by
    intro t seat seated
    rw [next.seats] at seated
    obtain ⟨seat', seated', rfl⟩ := Option.map_eq_some_iff.mp seated
    exact h.owned t seat' seated'
  by_cases member : site ∈ sites star.server
  · obtain ⟨⟨client, up, down⟩, seated, tracks⟩ := h.tracked site member
    obtain rfl : op :: rest = up := link.symm.trans (Star.seat?_eq_some_iff.mp seated).2.1
    obtain ⟨op', gap', served, moved, history, sound, sites_eq, tracks', others⟩ :=
      sim.serve h.sound member own tracks
    choose! relay same signature relayed using others
    let gaps' : SiteId → Gap α := fun t =>
      if t = site then gap' else { gaps t with theirs := (gaps t).theirs ++ [relay t] }
    have at_site : gaps' site = gap' := if_pos rfl
    have elsewhere : ∀ t, t ≠ site →
        gaps' t = { gaps t with theirs := (gaps t).theirs ++ [relay t] } :=
      fun t other => if_neg other
    have moves : Moves policy (sites star.server) gaps (.served site op') gaps' :=
      .served member (at_site ▸ moved) fun t known other =>
        ⟨relay t, same t known other, signature t known other, elsewhere t other⟩
    have tracked : ∀ t ∈ sites o.state.server, ∃ seat, o.state.seat? t = some seat ∧
        sim.Tracks o.state.server t seat (gaps' t) := by
      intro t known
      rw [next.server, sites_eq] at known
      rw [next.server]
      by_cases here : t = site
      · subst t
        rw [at_site]
        exact ⟨_, next.seat_self seated, tracks'⟩
      · obtain ⟨seat, seated', tracks''⟩ := h.tracked t known
        rw [elsewhere t here]
        exact ⟨_, next.seat_other here seated', relayed t known here seat _ tracks''⟩
    refine ⟨gaps', ⟨next.policy.trans h.policy_eq, next.server ▸ sound, owned, signed, tracked⟩,
      by rw [next.server, sites_eq], fun _ => ⟨op', result.trans served⟩, ?_, ?_⟩
    · rw [next.server, history, result, served]
      rfl
    · rw [result, served]
      exact moves
  · obtain ⟨e, refused⟩ := sim.refuse h.sound member own
    rw [refused] at result next
    have server : o.state.server = star.server := next.server
    refine ⟨gaps, ⟨next.policy.trans h.policy_eq, server ▸ h.sound, owned, signed, ?_⟩,
      congrArg sites server, fun known => absurd known member, ?_, ?_⟩
    · intro t known
      rw [server] at known
      obtain ⟨seat, seated, tracks⟩ := h.tracked t known
      have other : t ≠ site := by
        rintro rfl
        exact member known
      refine ⟨seat, ?_, server ▸ tracks⟩
      rw [next.seat_other other seated]
      simp [mailed, Outcome.fail]
    · rw [server, result]
      exact (List.append_nil _).symm
    · rw [result]
      exact rfl

theorem isSome_of_member (h : sim.Follows star gaps) (member : site ∈ sites star.server) :
    (star.seat? site).isSome := by
  obtain ⟨seat, seated, -⟩ := h.tracked site member
  rw [seated]
  rfl

theorem stranger (h : sim.Follows star gaps) (vacant : star.seat? site = none) :
    site ∉ sites star.server := by
  intro member
  have seated := h.isSome_of_member member
  rw [vacant] at seated
  cases seated

/-- A site that has no client yet can always join. -/
theorem join (h : sim.Follows star gaps) (mode : FillMode) (vacant : star.seat? site = none) :
    ∃ data gaps', (({ star with fillMode := mode } : Star S C α).join site).result = .ok data ∧
      sim.Follows (({ star with fillMode := mode } : Star S C α).join site).state gaps' ∧
      (copy (({ star with fillMode := mode } : Star S C α).join site).state.server).history =
        (copy star.server).history ∧
      Moves policy (sites star.server) gaps (.joined site) gaps' ∧
      (∀ t, t ∈ sites (({ star with fillMode := mode } : Star S C α).join site).state.server ↔
        t = site ∨ t ∈ sites star.server) ∧
      ∀ t, ((({ star with fillMode := mode } : Star S C α).join site).state.seat? t).isSome ↔
        t = site ∨ (star.seat? t).isSome := by
  have stranger := h.stranger vacant
  obtain ⟨data, server', client, gap, added, filled, sound, owned, history, members, tracks,
    others⟩ := sim.join mode h.sound stranger
  obtain ⟨star', joined, moved⟩ := Star.join_spec added (h.policy_eq ▸ filled)
  obtain ⟨mine, theirs⟩ := sim.quiet tracks
  have follows : sim.Follows star' (Function.update gaps site gap) :=
    h.replace moved sound owned (fun _ among => absurd among List.not_mem_nil) (fun _ => tracks)
      fun t member other =>
        ⟨((members t).mp member).resolve_left other, fun seat gap => others t seat gap other⟩
  have server_eq : star'.server = server' := moved.server
  rw [joined]
  refine ⟨data, _, rfl, follows, server_eq ▸ history, .joined mine theirs,
    fun t => server_eq ▸ members t, fun t => ?_⟩
  simp only [Outcome.done, moved.seats]
  split
  · rename_i here
    simp only [here, Option.isSome_some, true_or]
  · rename_i other
    simp only [other, false_or]
    rfl

theorem leave (h : sim.Follows star gaps) (site : SiteId) :
    sim.Follows (star.removeSite site).state gaps ∧
      (copy (star.removeSite site).state.server).history = (copy star.server).history := by
  cases removed : removeSite star.server site with
  | error e =>
    rw [Star.removeSite_of_error removed]
    exact ⟨h, rfl⟩
  | ok server =>
    obtain ⟨sound, history, -, others⟩ := sim.leave h.sound removed
    rw [Star.removeSite_of_ok removed]
    refine ⟨⟨h.policy_eq, sound, h.owned, h.signed, fun t member => ?_⟩, history⟩
    obtain ⟨known, still⟩ := others t member
    obtain ⟨seat, seated, tracks⟩ := h.tracked t known
    exact ⟨seat, seated, still seat _ tracks⟩

/-- What comes from or goes to a registered site is accepted. -/
theorem deliveries_ok (h : sim.Follows star gaps) (member : site ∈ sites star.server) :
    (∀ o, star.deliverUp? site = some o → ∃ op, o.result = .ok op) ∧
      ∀ o, star.deliverDown? site = some o → ∃ op, o.result = .ok op := by
  constructor
  · intro o delivered
    obtain ⟨gaps', -, -, accepted, -⟩ := h.up delivered
    exact accepted member
  · intro o delivered
    obtain ⟨gaps', -, -, accepted, -⟩ := h.down delivered
    exact accepted member

/-- Every action that can happen moves the gaps. -/
theorem act? (h : sim.Follows star gaps) {action : Action α}
    {o : Outcome (Star S C α) α (Report α)} (acted : star.act? action = some o) :
    ∃ gaps', sim.Follows o.state gaps' ∧
      (copy o.state.server).history =
        (copy star.server).history ++ o.result.toOption.toList.flatMap Report.recorded ∧
      MovesBy policy (sites star.server) gaps gaps' o.result ∧
      (action.isTraffic → sites o.state.server = sites star.server ∧
        ∀ site, o.result ≠ .ok (.joined site)) := by
  cases action with
  | join site mode =>
    obtain ⟨vacant, rfl⟩ := Star.act?_join acted
    obtain ⟨data, gaps', joined, follows, history, moves, -⟩ := h.join mode vacant
    refine ⟨gaps', follows, ?_, ?_, fun traffic => by cases traffic⟩
    · simp only [Outcome.reply, joined]
      exact history.trans (List.append_nil _).symm
    · simp only [Outcome.reply, joined]
      exact moves
  | leave site =>
    cases acted
    obtain ⟨follows, history⟩ := h.leave site
    refine ⟨gaps, follows, ?_, ?_, fun traffic => by cases traffic⟩
    · simp only [Outcome.reply]
      cases (star.removeSite site).result <;> exact history.trans (List.append_nil _).symm
    · simp only [Outcome.reply]
      cases (star.removeSite site).result with
      | error e => exact rfl
      | ok _ => exact .left
  | edit site op =>
    cases acted
    obtain ⟨gaps', follows, server, moves⟩ := h.edit site op
    refine ⟨gaps', follows, ?_, moves, fun _ => ⟨congrArg sites server, fun t => ?_⟩⟩
    · simp only [Outcome.report, server]
      cases (star.edit site op).result <;> exact (List.append_nil _).symm
    · simp only [Outcome.report]
      cases (star.edit site op).result <;> simp [Except.map]
  | up site =>
    obtain ⟨o, delivered, rfl⟩ := Option.map_eq_some_iff.mp acted
    obtain ⟨gaps', follows, members, -, history, moves⟩ := h.up delivered
    refine ⟨gaps', follows, ?_, moves, fun _ => ⟨members, fun t => ?_⟩⟩
    · simp only [Outcome.report, history]
      cases o.result <;> rfl
    · simp only [Outcome.report]
      cases o.result <;> simp [Except.map]
  | down site =>
    obtain ⟨o, delivered, rfl⟩ := Option.map_eq_some_iff.mp acted
    obtain ⟨gaps', follows, server, -, moves⟩ := h.down delivered
    refine ⟨gaps', follows, ?_, moves, fun _ => ⟨congrArg sites server, fun t => ?_⟩⟩
    · simp only [Outcome.report, server]
      cases o.result <;> exact (List.append_nil _).symm
    · simp only [Outcome.report]
      cases o.result <;> simp [Except.map]

theorem after (h : sim.Follows star gaps) (action : Action α) :
    ∃ gaps', sim.Follows (star.after action) gaps' ∧
      (copy (star.after action).server).history =
        (copy star.server).history ++ (star.report? action).toList.flatMap Report.recorded ∧
      MovesAll policy (sites star.server) gaps (star.report? action).toList gaps' ∧
      (action.isTraffic → sites (star.after action).server = sites star.server ∧
        ∀ site, star.report? action ≠ some (.joined site)) := by
  simp only [Star.after, Star.report?]
  cases acted : star.act? action with
  | none => exact ⟨gaps, h, (List.append_nil _).symm, .nil gaps, fun _ => ⟨rfl, nofun⟩⟩
  | some o =>
    obtain ⟨gaps', follows, history, moves, traffic⟩ := h.act? acted
    refine ⟨gaps', follows, history, moves.movesAll, fun is_traffic => ?_⟩
    obtain ⟨members, stays⟩ := traffic is_traffic
    refine ⟨members, fun site joined => stays site ?_⟩
    cases result : o.result with
    | error e => simp [result, Except.toOption] at joined
    | ok report => simpa [result, Except.toOption] using joined

/-- Whatever the schedule, the star stands for gaps all along. -/
theorem run (h : sim.Follows star gaps) (schedule : List (Action α)) :
    ∃ gaps', sim.Follows (star.run schedule) gaps' := by
  induction schedule generalizing star gaps with
  | nil => exact ⟨gaps, h⟩
  | cons action rest ih =>
    obtain ⟨gaps₁, first, -⟩ := h.after action
    exact ih first

/-- As long as nobody comes or goes, the gaps tell all that happens at the server. -/
theorem traffic (h : sim.Follows star gaps) {schedule : List (Action α)}
    (traffic : ∀ action ∈ schedule, action.isTraffic) :
    ∃ gaps', sim.Follows (star.run schedule) gaps' ∧
      (copy (star.run schedule).server).history =
        (copy star.server).history ++ (star.reports schedule).flatMap Report.recorded ∧
      MovesAll policy (sites star.server) gaps (star.reports schedule) gaps' ∧
      ∀ site, .joined site ∉ star.reports schedule := by
  induction schedule generalizing star gaps with
  | nil => exact ⟨gaps, h, (List.append_nil _).symm, .nil gaps, fun _ => List.not_mem_nil⟩
  | cons action rest ih =>
    obtain ⟨first, others⟩ := List.forall_mem_cons.mp traffic
    obtain ⟨gaps₁, follows, history, moves, stays⟩ := h.after action
    obtain ⟨members, nobody⟩ := stays first
    obtain ⟨gaps₂, follows', history', moves', nobody'⟩ := ih follows others
    rw [members] at moves'
    refine ⟨gaps₂, follows', ?_, moves.append moves', fun site joined => ?_⟩
    · exact history'.trans (by rw [history, List.append_assoc, ← List.flatMap_append]; rfl)
    · rcases List.mem_append.mp joined with now | later
      · exact nobody site (Option.mem_toList.mp now)
      · exact nobody' site later

end Follows

/-- Every star that a schedule leads to stands for gaps. -/
theorem follows_run (mode : FillMode) (schedule : List (Action α)) :
    ∃ gaps, sim.Follows ((Star.start policy mode : Star S C α).run schedule) gaps :=
  (sim.follows_start mode fun _ => ⟨[], [], []⟩).run schedule

end Simulation

end CoEdit
