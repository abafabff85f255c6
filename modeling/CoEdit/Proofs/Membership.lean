import CoEdit.Proofs.Simulation

/-!
# Who takes part

A client comes to a site with the site's registration and stays. So a site with a client is
registered as long as it has not left (`Simulation.registered_run`).
-/

namespace CoEdit

open ServerAlgorithm

/-- A step reports nothing but what its results are turned into. -/
theorem Outcome.report_ne_ok {σ α ρ τ : Type} (o : Outcome σ α ρ) {f : ρ → τ} {t : τ}
    (h : ∀ r, f r ≠ t) : (o.report f).result ≠ .ok t := by
  simp only [Outcome.report]
  cases o.result with
  | error e =>
    intro same
    cases same
  | ok r => exact fun same => h r (Except.ok.inj same)

namespace Star

variable {S C : Type → Type} {α : Type}

/-- A site that has a client is registered. -/
def Enrolled [ServerAlgorithm S] (star : Star S C α) (site : SiteId) : Prop :=
  (star.seat? site).isSome → site ∈ sites star.server

variable {star star' : Star S C α} {site : SiteId}

/-- A seat that is replaced was there before. -/
theorem Reseated.isSome_iff {seat old : Seat C α} (h : star.Reseated site seat star')
    (seated : star.seat? site = some old) (t : SiteId) :
    (star'.seat? t).isSome ↔ (star.seat? t).isSome := by
  rw [h.seats]
  split
  · rename_i here
    rw [here, seated]
    exact ⟨fun _ => rfl, fun _ => rfl⟩
  · exact Iff.rfl

theorem Served.isSome_iff {rest : List (Operation α)} {server : S α}
    {sent : List (Address × Operation α)} (h : star.Served site rest server sent star')
    (t : SiteId) : (star'.seat? t).isSome ↔ (star.seat? t).isSome := by
  rw [h.seats, Option.isSome_map]

/-- Who is there when an action is carried out, and who is there afterwards. -/
structure Attends [ServerAlgorithm S] (star : Star S C α) (action : Action α)
    (o : Outcome (Star S C α) α (Report α)) : Prop where
  seats : ∀ t, (o.state.seat? t).isSome ↔ o.result = .ok (.joined t) ∨ (star.seat? t).isSome
  known : ∀ t, t ∈ sites o.state.server → o.result = .ok (.joined t) ∨ t ∈ sites star.server
  newcomer : ∀ t, o.result = .ok (.joined t) → star.seat? t = none ∧ t ∈ sites o.state.server
  maker : ∀ t op, o.result = .ok (.made t op) → (star.seat? t).isSome
  leaver : ∀ t, o.result = .ok (.left t) → action = .leave t
  stay : ∀ t ∈ sites star.server, o.result ≠ .ok (.left t) → t ∈ sites o.state.server

namespace Attends

variable [ServerAlgorithm S] {action : Action α} {o : Outcome (Star S C α) α (Report α)}

theorem absent (h : star.Attends action o) {t : SiteId} (vacant : o.state.seat? t = none) :
    star.seat? t = none := by
  rw [← Option.not_isSome_iff_eq_none] at vacant ⊢
  exact fun seated => vacant ((h.seats t).mpr (.inr seated))

theorem registered (h : star.Attends action o) {report : Report α} (result : o.result = .ok report)
    {t : SiteId} (nobody : report ≠ .joined t) (member : t ∈ sites o.state.server) :
    t ∈ sites star.server :=
  (h.known t member).resolve_left fun new => nobody (Except.ok.inj (result.symm.trans new))

end Attends

/-- An edit or a delivery leaves it at who is there. -/
theorem Attends.of_traffic [ServerAlgorithm S] {action : Action α}
    {o : Outcome (Star S C α) α (Report α)}
    (nobody : ∀ t, o.result ≠ .ok (.joined t) ∧ o.result ≠ .ok (.left t))
    (members : sites o.state.server = sites star.server)
    (seats : ∀ t, (o.state.seat? t).isSome ↔ (star.seat? t).isSome)
    (maker : ∀ t op, o.result = .ok (.made t op) → (star.seat? t).isSome) :
    star.Attends action o := by
  refine ⟨fun t => ?_, fun t known => ?_, fun t new => absurd new (nobody t).1, maker,
    fun t gone => absurd gone (nobody t).2, fun t known _ => ?_⟩
  · rw [or_iff_right (nobody t).1]
    exact seats t
  · exact .inr (members ▸ known)
  · rw [members]
    exact known

end Star

namespace Simulation.Follows

variable {S C : Type → Type} [ServerAlgorithm S] [ClientAlgorithm C] {α : Type} [Element α]
  {policy : Policy} {sim : Simulation S C α policy} {star : Star S C α} {gaps : SiteId → Gap α}

/-- A site comes with its client, and the others stay. -/
theorem join_attends (h : sim.Follows star gaps) {site : SiteId} (mode : FillMode)
    (vacant : star.seat? site = none) :
    star.Attends (.join site mode)
      (({ star with fillMode := mode }.join site).reply (.joined site)) := by
  obtain ⟨data, _, joined, -, -, -, members, seats⟩ := h.join mode vacant
  have result : ∀ report, ((({ star with fillMode := mode } : Star S C α).join site).reply
      (Report.joined site : Report α)).result = .ok report ↔ report = .joined site := by
    intro report
    simp only [Outcome.reply, joined, Except.map, Except.ok.injEq]
    exact eq_comm
  have newcomer : ∀ t, ((({ star with fillMode := mode } : Star S C α).join site).reply
      (Report.joined site : Report α)).result = .ok (.joined t) ↔ t = site := by
    intro t
    rw [result, Report.joined.injEq]
  constructor
  · intro t
    rw [newcomer]
    exact seats t
  · intro t
    rw [newcomer]
    exact (members t).mp
  · intro t here
    rw [(newcomer t).mp here]
    exact ⟨vacant, (members site).mpr (.inl rfl)⟩
  · intro t op made
    cases (result _).mp made
  · intro t gone
    cases (result _).mp gone
  · intro t known _
    exact (members t).mpr (.inr known)

/-- A site goes from the server only; its client stays. -/
theorem leave_attends (h : sim.Follows star gaps) (site : SiteId) :
    star.Attends (.leave site) ((star.removeSite site).reply (.left site)) := by
  cases removed : removeSite star.server site with
  | error e =>
    rw [Star.removeSite_of_error removed]
    have failed : ∀ report, ((Outcome.fail e star : Outcome (Star S C α) α Unit).reply
        (Report.left site : Report α)).result ≠ .ok report := by
      intro report same
      cases same
    exact .of_traffic (fun t => ⟨failed _, failed _⟩) rfl (fun t => Iff.rfl)
      fun t op made => absurd made (failed _)
  | ok server =>
    obtain ⟨-, -, stay, others⟩ := sim.leave h.sound removed
    rw [Star.removeSite_of_ok removed]
    constructor
    · intro t
      simp only [Outcome.reply, Outcome.done, Except.map, Except.ok.injEq, reduceCtorEq, false_or]
      rfl
    · exact fun t known => .inr (others t known).1
    · intro t new
      cases new
    · intro t op made
      cases made
    · intro t gone
      cases gone
      rfl
    · intro t known other
      refine stay t known fun same => other ?_
      rw [same]
      rfl

theorem edit_attends (h : sim.Follows star gaps) (site : SiteId) (op : Operation α) :
    star.Attends (.edit site op) ((star.edit site op).report (.made site)) := by
  obtain ⟨_, -, server, -⟩ := h.edit site op
  have nobody : ∀ t, ((star.edit site op).report (Report.made site)).result ≠ .ok (.joined t) ∧
      ((star.edit site op).report (Report.made site)).result ≠ .ok (.left t) := fun t =>
    ⟨(star.edit site op).report_ne_ok nofun, (star.edit site op).report_ne_ok nofun⟩
  cases seated : star.seat? site with
  | none =>
    rw [Star.edit_of_vacant seated] at nobody ⊢
    exact .of_traffic nobody rfl (fun _ => Iff.rfl) nofun
  | some seat =>
    refine .of_traffic nobody (congrArg sites server)
      ((Star.edit_spec seated op).2.isSome_iff seated) fun t op' made => ?_
    -- whoever has made something has a seat
    by_cases here : t = site
    · rw [here, seated]
      rfl
    · refine absurd made ((star.edit site op).report_ne_ok fun op'' same => here ?_)
      exact (Report.made.inj same).1.symm

theorem up_attends (h : sim.Follows star gaps) {site : SiteId}
    {o : Outcome (Star S C α) α (Operation α)} (delivered : star.deliverUp? site = some o) :
    star.Attends (.up site) (o.report (.served site)) := by
  obtain ⟨_, -, members, -⟩ := h.up delivered
  obtain ⟨_, _, -, -, served⟩ := Star.deliverUp?_spec delivered
  exact .of_traffic (fun t => ⟨o.report_ne_ok nofun, o.report_ne_ok nofun⟩) members
    served.isSome_iff fun t op made => absurd made (o.report_ne_ok nofun)

theorem down_attends (h : sim.Follows star gaps) {site : SiteId}
    {o : Outcome (Star S C α) α (Operation α)} (delivered : star.deliverDown? site = some o) :
    star.Attends (.down site) (o.report (.heard site)) := by
  obtain ⟨_, -, server, -⟩ := h.down delivered
  obtain ⟨seat, _, _, seated, -, -, reseated⟩ := Star.deliverDown?_spec delivered
  exact .of_traffic (fun t => ⟨o.report_ne_ok nofun, o.report_ne_ok nofun⟩) (congrArg sites server)
    (reseated.isSome_iff seated) fun t op made => absurd made (o.report_ne_ok nofun)

/-- Sites come by joining and go by leaving. -/
theorem act?_attends (h : sim.Follows star gaps) {action : Action α}
    {o : Outcome (Star S C α) α (Report α)} (acted : star.act? action = some o) :
    star.Attends action o := by
  cases action with
  | join site mode =>
    obtain ⟨vacant, rfl⟩ := Star.act?_join acted
    exact h.join_attends mode vacant
  | leave site =>
    cases acted
    exact h.leave_attends site
  | edit site op =>
    cases acted
    exact h.edit_attends site op
  | up site =>
    obtain ⟨o, delivered, rfl⟩ := Option.map_eq_some_iff.mp acted
    exact h.up_attends delivered
  | down site =>
    obtain ⟨o, delivered, rfl⟩ := Option.map_eq_some_iff.mp acted
    exact h.down_attends delivered

theorem enrolled_after (h : sim.Follows star gaps) {action : Action α} {site : SiteId}
    (stays : action ≠ .leave site) (enrolled : star.Enrolled site) :
    (star.after action).Enrolled site := by
  simp only [Star.after]
  cases acted : star.act? action with
  | none => exact enrolled
  | some o =>
    have attends := h.act?_attends acted
    intro seated
    rcases (attends.seats site).mp seated with new | before
    · exact (attends.newcomer site new).2
    · exact attends.stay site (enrolled before) fun gone => stays (attends.leaver site gone)

end Simulation.Follows

namespace Simulation

variable {S C : Type → Type} [ServerAlgorithm S] [ClientAlgorithm C] {α : Type} [Element α]
  {policy : Policy} (sim : Simulation S C α policy)

include sim in
/-- In a star that a schedule leads to, every client at a site that has not left is registered. -/
theorem enrolled_run (mode : FillMode) {schedule : List (Action α)} {site : SiteId}
    (stays : .leave site ∉ schedule) :
    ((Star.start policy mode : Star S C α).run schedule).Enrolled site := by
  suffices general : ∀ (star : Star S C α) (gaps : SiteId → Gap α), sim.Follows star gaps →
      star.Enrolled site → (star.run schedule).Enrolled site from
    general _ _ (sim.follows_start mode fun _ => ⟨[], [], []⟩) fun seated => by cases seated
  induction schedule with
  | nil => exact fun _ _ _ enrolled => enrolled
  | cons action rest ih =>
    intro star gaps h enrolled
    obtain ⟨here, later⟩ := List.ne_and_not_mem_of_not_mem_cons stays
    obtain ⟨gaps', follows, -⟩ := h.after action
    exact ih later _ gaps' follows (h.enrolled_after (Ne.symm here) enrolled)

/-- A client at a site that has not left is tracked. -/
theorem tracked_run (mode : FillMode) {schedule : List (Action α)} {site : SiteId} {client : C α}
    (stays : .leave site ∉ schedule)
    (found : ((Star.start policy mode : Star S C α).run schedule).clients.get? site =
      some client) :
    let star := (Star.start policy mode : Star S C α).run schedule
    site ∈ sites star.server ∧ sim.Sound star.server ∧
      (∀ op ∈ star.upLink site, op.creator? = some site) ∧
      ∃ gap, sim.Tracks star.server site ⟨client, star.upLink site, star.downLink site⟩ gap := by
  intro star
  have seated : star.seat? site = some ⟨client, star.upLink site, star.downLink site⟩ :=
    Star.seat?_eq_some_iff.mpr ⟨found, rfl, rfl⟩
  have member : site ∈ sites star.server :=
    sim.enrolled_run mode stays (by rw [seated]; rfl)
  obtain ⟨gaps, follows⟩ := sim.follows_run mode schedule
  obtain ⟨seat, seated', tracks⟩ := follows.tracked site member
  obtain rfl := Option.some.inj (seated.symm.trans seated')
  exact ⟨member, follows.sound, follows.signed site, gaps site, tracks⟩

end Simulation

end CoEdit
