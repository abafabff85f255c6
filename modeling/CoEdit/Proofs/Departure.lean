import CoEdit.Proofs.Membership
import CoEdit.Proofs.Relay

/-!
# Sites that have left

A site that leaves keeps its client and its links. It takes in what is still on its way, as if the
server had stopped when the site left, and goes on with its edits, though the server refuses them.
So its gap is that between the site and the server as it was then, and a star stands for the gaps of
all its sites (`Simulation.Watches`), whether they have left or not.
-/

namespace CoEdit

open ClientAlgorithm ServerAlgorithm

variable {α : Type} [Element α]

/-- The gaps of all sites with a seat move as a report says. A site that has left goes on as if the
server had stopped. -/
inductive Stirs (policy : Policy) (seated member : SiteId → Prop) (gaps : SiteId → Gap α) :
    Report α → (SiteId → Gap α) → Prop where
  | joined {site : SiteId} {gap : Gap α} (absent : ¬ seated site) (mine : gap.mine = [])
      (theirs : gap.theirs = []) :
      Stirs policy seated member gaps (.joined site) (Function.update gaps site gap)
  | left {site : SiteId} : Stirs policy seated member gaps (.left site) gaps
  | made {site : SiteId} {op : Operation α} (present : seated site) :
      Stirs policy seated member gaps (.made site op)
        (Function.update gaps site { gaps site with mine := (gaps site).mine ++ [op] })
  | heard {site : SiteId} {op : Operation α} {gap : Gap α} (present : seated site)
      (foreign : op.creator? ≠ some site) (moved : (gaps site).Heard policy op gap) :
      Stirs policy seated member gaps (.heard site op) (Function.update gaps site gap)
  | echoed {site : SiteId} {op : Operation α} {gap : Gap α} (present : seated site)
      (own : op.creator? = some site)
      (mine : gap.mine.map (·.edit) = (gaps site).mine.map (·.edit))
      (theirs : gap.theirs = (gaps site).theirs) :
      Stirs policy seated member gaps (.heard site op) (Function.update gaps site gap)
  | served {site : SiteId} {op : Operation α} {gaps' : SiteId → Gap α} (known : member site)
      (moved : (gaps site).Served policy op (gaps' site))
      (relayed : ∀ t, member t → t ≠ site → ∃ relay : Operation α, relay.edit = op.edit ∧
        relay.creator? = some site ∧
        gaps' t = { gaps t with theirs := (gaps t).theirs ++ [relay] })
      (gone : ∀ t, ¬ member t → gaps' t = gaps t) :
      Stirs policy seated member gaps (.served site op) gaps'

/-- A step that fails leaves the gaps as they are. -/
def StirsBy (policy : Policy) (seated member : SiteId → Prop) (gaps gaps' : SiteId → Gap α) :
    Except SyncError (Report α) → Prop
  | .ok report => Stirs policy seated member gaps report gaps'
  | .error _ => gaps' = gaps

namespace Simulation

variable {S C : Type → Type} [ServerAlgorithm S] [ClientAlgorithm C] {policy : Policy}
  (sim : Simulation S C α policy)

/-- The seat of a site goes with a server and a link to it: those of the star, or, when the site has
left, the server as it was then and the link as it would be if the server still took in anything. -/
def Shadowed (star : Star S C α) (site : SiteId) (seat : Seat C α) (gap : Gap α) : Prop :=
  ∃ server up, sim.Sound server ∧ sim.Tracks server site ⟨seat.client, up, seat.down⟩ gap ∧
    (site ∈ sites star.server → server = star.server ∧ up = seat.up)

/-- The star stands for gaps, also at sites that have left. -/
structure Watches (star : Star S C α) (gaps : SiteId → Gap α) : Prop where
  follows : sim.Follows star gaps
  shadow : ∀ site seat, star.seat? site = some seat → sim.Shadowed star site seat (gaps site)

namespace Watches

variable {sim} {star star' : Star S C α} {gaps : SiteId → Gap α} {site : SiteId}

theorem reseat {seat : Seat C α} {gap : Gap α} (h : sim.Watches star gaps)
    (moved : star.Reseated site seat star') (owned : sim.Owned site seat.client)
    (signed : ∀ op ∈ seat.up, op.creator? = some site) (here : sim.Shadowed star site seat gap) :
    sim.Watches star' (Function.update gaps site gap) := by
  have server : star'.server = star.server := moved.server
  constructor
  · refine h.follows.reseat moved owned signed fun member => ?_
    obtain ⟨server', up, -, tracks, same⟩ := here
    obtain ⟨rfl, rfl⟩ := same member
    exact tracks
  · intro t seat' seated
    rw [moved.seats] at seated
    rw [Shadowed, server, Function.update_apply]
    split at seated
    · rename_i same
      cases seated
      rw [if_pos same, same]
      exact here
    · rename_i other
      rw [if_neg other]
      exact h.shadow t seat' seated

/-- A site makes an edit, whether it has left or not. -/
theorem edit (h : sim.Watches star gaps) (site : SiteId) (op : Operation α) :
    ∃ gaps', sim.Watches (star.edit site op).state gaps' ∧
      StirsBy policy (fun t => (star.seat? t).isSome) (· ∈ sites star.server) gaps gaps'
        ((star.edit site op).result.map (Report.made site)) := by
  cases seated : star.seat? site with
  | none =>
    rw [Star.edit_of_vacant seated]
    exact ⟨gaps, h, rfl⟩
  | some seat =>
    obtain ⟨result, moved⟩ := Star.edit_spec seated op
    obtain ⟨owned, new⟩ := sim.generate_owned op (h.follows.owned site seat seated)
    have signed := h.follows.signed_append seated new
    obtain ⟨server, up, sound, tracks, same⟩ := h.shadow site seat seated
    rcases sim.generate op tracks with ⟨e, failed⟩ | ⟨op', made, -, tracks'⟩
    · have here : sim.Shadowed star site ⟨(ClientAlgorithm.generate seat.client op).state,
          seat.up ++ (ClientAlgorithm.generate seat.client op).sent.map Prod.snd, seat.down⟩
          (gaps site) := by
        rw [failed]
        exact ⟨server, up, sound, tracks, fun member =>
          ⟨(same member).1, (same member).2.trans (List.append_nil _).symm⟩⟩
      refine ⟨_, h.reseat moved owned signed here, ?_⟩
      rw [result, failed]
      exact Function.update_eq_self ..
    · refine ⟨_, h.reseat moved owned signed ⟨server, _, sound, tracks', ?_⟩, ?_⟩
      · intro member
        exact ⟨(same member).1, congrArg (· ++ _) (same member).2⟩
      · rw [result, made]
        exact .made (by rw [seated]; rfl)

/-- A site takes in what is on the link to it, whether it has left or not. -/
theorem down (h : sim.Watches star gaps) {o : Outcome (Star S C α) α (Operation α)}
    (delivered : star.deliverDown? site = some o) :
    ∃ gaps', sim.Watches o.state gaps' ∧
      StirsBy policy (fun t => (star.seat? t).isSome) (· ∈ sites star.server) gaps gaps'
        (o.result.map (Report.heard site)) := by
  obtain ⟨seat, op, rest, seated, link, result, moved⟩ := Star.deliverDown?_spec delivered
  obtain ⟨owned, new⟩ := sim.hear_owned op (h.follows.owned site seat seated)
  have signed := h.follows.signed_append seated new
  have present : (star.seat? site).isSome := by
    rw [seated]
    rfl
  obtain ⟨server, up, sound, tracks, same⟩ := h.shadow site seat seated
  rw [link] at tracks
  obtain ⟨op', gap', heard, change, tracks'⟩ := sim.hear sound tracks
  refine ⟨_, h.reseat moved owned signed ⟨server, _, sound, tracks', ?_⟩, ?_⟩
  · intro member
    exact ⟨(same member).1, congrArg (· ++ _) (same member).2⟩
  · rw [result, heard]
    rcases change with ⟨foreign, heard⟩ | ⟨own, -, mine, theirs⟩
    · exact .heard present foreign heard
    · exact .echoed present own mine theirs

omit [ServerAlgorithm S] [ClientAlgorithm C] [Element α] in
/-- At a seat that the server sends nothing to, only the link to the server can have changed. -/
theorem shadow_served {seat seat' : Seat C α} {t : SiteId} {rest : List (Operation α)}
    {server : S α} {sent : List (Address × Operation α)}
    (moved : star.Served site rest server sent star') (silent : mailed t sent = [])
    (seated : star.seat? t = some seat) (seated' : star'.seat? t = some seat') :
    seat'.client = seat.client ∧ seat'.down = seat.down ∧ (t ≠ site → seat'.up = seat.up) := by
  rw [moved.seats, seated] at seated'
  cases seated'
  refine ⟨rfl, ?_, fun other => if_neg other⟩
  rw [silent]
  exact List.append_nil _

/-- The server takes in what comes from a registered site, and refuses all else. -/
theorem up (h : sim.Watches star gaps) (discreet : sim.Discreet)
    {o : Outcome (Star S C α) α (Operation α)} (delivered : star.deliverUp? site = some o) :
    ∃ gaps', sim.Watches o.state gaps' ∧
      StirsBy policy (fun t => (star.seat? t).isSome) (· ∈ sites star.server) gaps gaps'
        (o.result.map (Report.served site)) := by
  obtain ⟨op, rest, link, result, next⟩ := Star.deliverUp?_spec delivered
  obtain ⟨gaps₁, follows, members, accepted, -, moves⟩ := h.follows.up delivered
  have silent : ∀ t, t ∉ sites star.server →
      mailed t (ServerAlgorithm.integrate star.server op).sent = [] :=
    fun t stranger => discreet h.follows.sound stranger op
  have before : ∀ {t seat'}, o.state.seat? t = some seat' → ∃ seat, star.seat? t = some seat := by
    intro t seat' seated'
    rw [next.seats] at seated'
    obtain ⟨seat, seated, -⟩ := Option.map_eq_some_iff.mp seated'
    exact ⟨seat, seated⟩
  by_cases member : site ∈ sites star.server
  · obtain ⟨op', accepted⟩ := accepted member
    let gaps₂ : SiteId → Gap α := fun t => if t ∈ sites star.server then gaps₁ t else gaps t
    have known : ∀ t ∈ sites star.server, gaps₂ t = gaps₁ t := fun t there => if_pos there
    have gone : ∀ t, t ∉ sites star.server → gaps₂ t = gaps t := fun t stranger => if_neg stranger
    refine ⟨gaps₂, ⟨⟨follows.policy_eq, follows.sound, follows.owned, follows.signed, ?_⟩, ?_⟩, ?_⟩
    · intro t there
      rw [known t (members ▸ there)]
      exact follows.tracked t there
    · intro t seat' seated'
      by_cases there : t ∈ sites star.server
      · obtain ⟨seat'', seated'', tracks⟩ := follows.tracked t (members ▸ there)
        obtain rfl := Option.some.inj (seated'.symm.trans seated'')
        rw [known t there]
        exact ⟨o.state.server, seat'.up, follows.sound, tracks, fun _ => ⟨rfl, rfl⟩⟩
      · obtain ⟨seat, seated⟩ := before seated'
        obtain ⟨client, down, -⟩ := shadow_served next (silent t there) seated seated'
        obtain ⟨server, up, sound, tracks, -⟩ := h.shadow t seat seated
        rw [gone t there]
        refine ⟨server, up, sound, ?_, fun now => absurd (members ▸ now) there⟩
        rw [client, down]
        exact tracks
    · rw [accepted] at moves ⊢
      cases moves with
      | served _ moved relayed =>
        refine .served member (known site member ▸ moved) (fun t there other => ?_) gone
        rw [known t there]
        exact relayed t there other
      | outside _ reported => rcases reported with same | same <;> cases same
  · obtain ⟨e, refused⟩ := sim.refuse h.follows.sound member
      (h.follows.signed site op (by rw [link]; exact List.mem_cons_self))
    rw [refused] at result next
    rw [result] at moves ⊢
    refine ⟨gaps, ⟨moves ▸ follows, ?_⟩, rfl⟩
    intro t seat' seated'
    obtain ⟨seat, seated⟩ := before seated'
    obtain ⟨client, down, still⟩ := shadow_served next rfl seated seated'
    obtain ⟨server, up, sound, tracks, same⟩ := h.shadow t seat seated
    refine ⟨server, up, sound, ?_, fun there => ?_⟩
    · rw [client, down]
      exact tracks
    · rw [members] at there
      have other : t ≠ site := by
        rintro rfl
        exact member there
      rw [still other, next.server]
      exact same there

/-- A site that joins is level with the server. -/
theorem join (h : sim.Watches star gaps) (mode : FillMode) (vacant : star.seat? site = none) :
    ∃ data gaps', (({ star with fillMode := mode } : Star S C α).join site).result = .ok data ∧
      sim.Watches (({ star with fillMode := mode } : Star S C α).join site).state gaps' ∧
      Stirs policy (fun t => (star.seat? t).isSome) (· ∈ sites star.server) gaps (.joined site)
        gaps' := by
  have stranger := h.follows.stranger vacant
  obtain ⟨data, server', client, gap, added, filled, sound, owned, -, members, tracks, others⟩ :=
    sim.join mode h.follows.sound stranger
  obtain ⟨star', joined, moved⟩ := Star.join_spec added (h.follows.policy_eq ▸ filled)
  obtain ⟨mine, theirs⟩ := sim.quiet tracks
  have follows : sim.Follows star' (Function.update gaps site gap) :=
    h.follows.replace moved sound owned (fun _ among => absurd among List.not_mem_nil)
      (fun _ => tracks) fun t member other =>
        ⟨((members t).mp member).resolve_left other, fun seat gap => others t seat gap other⟩
  have server_eq : star'.server = server' := moved.server
  have absent : ¬ (star.seat? site).isSome := by
    rw [vacant]
    exact Bool.false_ne_true
  rw [joined]
  refine ⟨data, _, rfl, ⟨follows, ?_⟩, .joined absent mine theirs⟩
  intro t seat seated
  change star'.seat? t = some seat at seated
  change sim.Shadowed star' t seat _
  rw [moved.seats] at seated
  rw [Shadowed, server_eq, Function.update_apply]
  split at seated
  · rename_i here
    cases seated
    rw [if_pos here, here]
    exact ⟨server', [], sound, tracks, fun _ => ⟨rfl, rfl⟩⟩
  · rename_i other
    rw [if_neg other]
    obtain ⟨server, up, sound', tracks', same⟩ := h.shadow t seat seated
    by_cases member : t ∈ sites star.server
    · obtain ⟨rfl, rfl⟩ := same member
      exact ⟨server', seat.up, sound, others t _ _ other tracks', fun _ => ⟨rfl, rfl⟩⟩
    · exact ⟨server, up, sound', tracks',
        fun now => absurd (((members t).mp now).resolve_left other) member⟩

/-- For a site that leaves, the server stays as it is now. -/
theorem leave (h : sim.Watches star gaps) (site : SiteId) :
    sim.Watches (star.removeSite site).state gaps := by
  refine ⟨(h.follows.leave site).1, ?_⟩
  cases removed : removeSite star.server site with
  | error e =>
    rw [Star.removeSite_of_error removed]
    exact h.shadow
  | ok server' =>
    obtain ⟨sound, -, -, others⟩ := sim.leave h.follows.sound removed
    rw [Star.removeSite_of_ok removed]
    intro t seat seated
    obtain ⟨server, up, sound', tracks, same⟩ := h.shadow t seat seated
    by_cases stays : t ∈ sites server'
    · obtain ⟨member, still⟩ := others t stays
      obtain ⟨rfl, rfl⟩ := same member
      exact ⟨server', seat.up, sound, still _ _ tracks, fun _ => ⟨rfl, rfl⟩⟩
    · exact ⟨server, up, sound', tracks, fun now => absurd now stays⟩

/-- Every action that can happen stirs the gaps. -/
theorem act? (h : sim.Watches star gaps) (discreet : sim.Discreet) {action : Action α}
    {o : Outcome (Star S C α) α (Report α)} (acted : star.act? action = some o) :
    ∃ gaps', sim.Watches o.state gaps' ∧
      StirsBy policy (fun t => (star.seat? t).isSome) (· ∈ sites star.server) gaps gaps'
        o.result := by
  cases action with
  | join site mode =>
    obtain ⟨vacant, rfl⟩ := Star.act?_join acted
    obtain ⟨data, gaps', joined, watches, stirs⟩ := h.join mode vacant
    refine ⟨gaps', watches, ?_⟩
    simp only [Outcome.reply, joined]
    exact stirs
  | leave site =>
    cases acted
    refine ⟨gaps, h.leave site, ?_⟩
    simp only [Outcome.reply]
    cases (star.removeSite site).result with
    | error e => exact rfl
    | ok _ => exact .left
  | edit site op =>
    cases acted
    exact h.edit site op
  | up site =>
    obtain ⟨o, delivered, rfl⟩ := Option.map_eq_some_iff.mp acted
    exact h.up discreet delivered
  | down site =>
    obtain ⟨o, delivered, rfl⟩ := Option.map_eq_some_iff.mp acted
    exact h.down delivered

end Watches

end Simulation

end CoEdit
