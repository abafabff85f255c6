import CoEdit.Proofs.Membership
import Mathlib.Data.List.Forall2

/-!
# The trail of a site

What a site has made is to be found in three places, the older the farther away: in the history of
the server, on the link to it, and with a client that waits for an echo in the buffer. This is the
trail of the site. An edit adds to its end, and no other step loses, doubles or exchanges any of it
(`Carries.step`), though operations are rewritten on the way. What has to be checked of an algorithm
for this is collected in `Simulation.Carries`.
-/

namespace CoEdit

open ClientAlgorithm ServerAlgorithm

variable {α : Type}

/-- What is related entry by entry to lists in the middle is related from end to end. -/
theorem forall₂_comp {β γ δ : Type} {R : β → γ → Prop} {S : γ → δ → Prop} {T : β → δ → Prop}
    {as : List β} {bs : List γ} {cs : List δ} (first : List.Forall₂ R as bs)
    (second : List.Forall₂ S bs cs) (comp : ∀ a b c, R a b → S b c → T a c) :
    List.Forall₂ T as cs := by
  induction first generalizing cs with
  | nil =>
    cases second
    exact .nil
  | cons here _ ih =>
    cases second with
    | cons there others => exact .cons (comp _ _ _ here there) (ih others)

/-- What an operation is turned into on its way: it is transformed, or stamped anew. -/
inductive Becomes (policy : Policy) : Operation α → Operation α → Prop where
  | same (op : Operation α) : Becomes policy op op
  | transformed {op r r' l l' : Operation α} {role : Role} (before : Becomes policy op r)
      (past : transform policy role r l = .ok (r', l')) : Becomes policy op r'
  | stamped {op r r' : Operation α} (before : Becomes policy op r) (edit : r'.edit = r.edit)
      (creator : r'.creator? = r.creator?) : Becomes policy op r'

namespace Becomes

variable {policy : Policy} {role : Role} {op r r' s : Operation α} {q q' : List (Operation α)}

theorem trans (h : Becomes policy op r) (h' : Becomes policy r s) : Becomes policy op s := by
  induction h' with
  | same => exact h
  | transformed _ past ih => exact ih.transformed past
  | stamped _ edit creator ih => exact ih.stamped edit creator

/-- An operation stays that of its site. -/
theorem creator_eq (h : Becomes policy op r) : r.creator? = op.creator? := by
  induction h with
  | same => rfl
  | transformed _ past ih =>
    refine Eq.trans ?_ ih
    rw [Operation.creator?, (transform_stamps past).1]
    rfl
  | stamped _ _ creator ih => exact creator.trans ih

/-- An operation that is taken past a queue is transformed, and so is all that is in the queue. -/
theorem of_transformPast (h : transformPast policy role r q = .ok (r', q')) :
    Becomes policy r r' ∧ List.Forall₂ (Becomes policy) q q' := by
  induction q generalizing r q' with
  | nil =>
    cases h
    exact ⟨.same _, .nil⟩
  | cons l q ih =>
    obtain ⟨r₁, l₁, q₁, first, rest, rfl⟩ := transformPast_cons_eq_ok.mp h
    obtain ⟨behind, others⟩ := ih rest
    have here : Becomes policy r r₁ := .transformed (.same r) first
    exact ⟨here.trans behind, .cons (.transformed (.same l) (transform_swap _ _ first)) others⟩

end Becomes

/-- Those of some operations that a site created. -/
def createdBy (site : SiteId) (ops : List (Operation α)) : List (Operation α) :=
  ops.filter (·.creator? = some site)

section CreatedBy

variable {site : SiteId} {op : Operation α} {ops more : List (Operation α)}

theorem createdBy_append :
    createdBy site (ops ++ more) = createdBy site ops ++ createdBy site more :=
  List.filter_append ..

theorem createdBy_cons_own (own : op.creator? = some site) :
    createdBy site (op :: ops) = op :: createdBy site ops :=
  List.filter_cons_of_pos (decide_eq_true own)

theorem createdBy_eq_nil (foreign : ∀ op ∈ ops, op.creator? ≠ some site) :
    createdBy site ops = [] :=
  List.filter_eq_nil_iff.mpr fun op among => by simpa using foreign op among

end CreatedBy

namespace Report

/-- The operation that was made, if the site made it. -/
def own? (site : SiteId) : Report α → Option (Operation α)
  | made s op => if s = site then some op else none
  | _ => none

/-- All that a site made, in order. -/
def madeBy (site : SiteId) (reports : List (Report α)) : List (Operation α) :=
  reports.filterMap (own? site)

end Report

namespace Star

variable {S C : Type → Type} [ClientAlgorithm C] {star star' : Star S C α} {site t : SiteId}

/-- What a site has made that the server has not taken in yet, the oldest first. -/
def unserved (star : Star S C α) (site : SiteId) : List (Operation α) :=
  (star.seat? site).elim [] fun seat => seat.up ++ waiting seat.client

theorem unserved_of_seat {seat : Seat C α} (seated : star.seat? site = some seat) :
    star.unserved site = seat.up ++ waiting seat.client := by
  rw [unserved, seated]
  rfl

theorem unserved_of_vacant (vacant : star.seat? site = none) : star.unserved site = [] := by
  rw [unserved, vacant]
  rfl

/-- What the server takes in, and sends, is no matter to the sites that it does not come from. -/
theorem Served.unserved_eq {rest : List (Operation α)} {server : S α}
    {sent : List (Address × Operation α)} (h : star.Served t rest server sent star')
    (apart : star.seat? site = none ∨ site ≠ t) : star'.unserved site = star.unserved site := by
  simp only [unserved, h.seats]
  cases seated : star.seat? site with
  | none => rfl
  | some seat =>
    have other : site ≠ t := apart.resolve_left (by rw [seated]; exact Option.some_ne_none seat)
    simp only [Option.map_some, Option.elim, if_neg other]

variable [ServerAlgorithm S]

/-- What a site has made, the oldest first. -/
def trail (star : Star S C α) (site : SiteId) : List (Operation α) :=
  createdBy site (copy star.server).history ++ star.unserved site

/-- At the end of a schedule, what the history of the server has of a site, what is on the link from
it and what still waits there is, one after the other, what the site has made, as far as `Rel`
says. -/
def DeliversOnce [Element α] (start : Star S C α) (Rel : Operation α → Operation α → Prop)
    (schedule : List (Action α)) (site : SiteId) : Prop :=
  let star := start.run schedule
  ∀ client, star.clients.get? site = some client →
    List.Forall₂ Rel (Report.madeBy site (start.reports schedule))
      (createdBy site (copy star.server).history ++ star.upLink site ++ waiting client)

end Star

/-- Operations are not lost, doubled or exchanged by single steps, and `Rel` relates what was made
to what it is turned into. -/
structure Simulation.Carries {S C : Type → Type} [ServerAlgorithm S] [ClientAlgorithm C]
    [Element α] {policy : Policy} (sim : Simulation S C α policy)
    (Rel : Operation α → Operation α → Prop) : Prop where
  refl : ∀ op, Rel op op
  trans : ∀ {a b c}, Rel a b → Rel b c → Rel a c
  creator : ∀ {a b}, Rel a b → b.creator? = a.creator?
  opened : ∀ {site data} {client : C α},
    fill (ClientAlgorithm.start policy site) data = .ok client → waiting client = []
  generate : ∀ (client : C α) (op : Operation α),
    (∃ e, ClientAlgorithm.generate client op = .fail e client) ∨
      ∃ op', (ClientAlgorithm.generate client op).result = .ok op' ∧
        (ClientAlgorithm.generate client op).sent.map Prod.snd ++
          waiting (ClientAlgorithm.generate client op).state = waiting client ++ [op']
  hear : ∀ {server site client up op down gap},
    sim.Tracks server site ⟨client, up, op :: down⟩ gap →
    List.Forall₂ Rel (waiting client)
      ((ClientAlgorithm.integrate client op).sent.map Prod.snd ++
        waiting (ClientAlgorithm.integrate client op).state)
  serve : ∀ {server op op'}, sim.Sound server →
    (ServerAlgorithm.integrate server op).result = .ok op' → Rel op op'

namespace Simulation.Carries

variable {S C : Type → Type} [ServerAlgorithm S] [ClientAlgorithm C] [Element α] {policy : Policy}
  {sim : Simulation S C α policy} {Rel : Operation α → Operation α → Prop} {star : Star S C α}
  {gaps : SiteId → Gap α} {site : SiteId}

theorem same (h : sim.Carries Rel) (ops : List (Operation α)) : List.Forall₂ Rel ops ops :=
  List.forall₂_same.mpr fun op _ => h.refl op

/-- Where nothing is served, made or sent, nothing is moved. -/
theorem still (h : sim.Carries Rel) {star' : Star S C α}
    (history : (copy star'.server).history = (copy star.server).history)
    (unserved : star'.unserved site = star.unserved site) :
    List.Forall₂ Rel (star.trail site) (star'.trail site) := by
  rw [Star.trail, Star.trail, history, unserved]
  exact h.same _

/-- A site joins with nothing made. -/
theorem join (h : sim.Carries Rel) (follows : sim.Follows star gaps) {t : SiteId} (mode : FillMode)
    (vacant : star.seat? t = none) :
    List.Forall₂ Rel (star.trail site)
      ((({ star with fillMode := mode } : Star S C α).join t).state.trail site) := by
  have stranger := follows.stranger vacant
  obtain ⟨data, server', client, gap, added, filled, -, -, history, -⟩ :=
    sim.join mode follows.sound stranger
  obtain ⟨star', joined, moved⟩ := Star.join_spec added (follows.policy_eq ▸ filled)
  have server_eq : star'.server = server' := moved.server
  rw [joined]
  change List.Forall₂ Rel _ (star'.trail site)
  refine h.still (server_eq ▸ history) ?_
  by_cases here : site = t
  · subst t
    have there := (moved.seats site).trans (if_pos rfl)
    rw [Star.unserved_of_seat there, Star.unserved_of_vacant vacant]
    exact h.opened filled
  · simp only [Star.unserved, moved.seats, if_neg here]
    rfl

/-- An edit is added at the end. -/
theorem edit (h : sim.Carries Rel) (t : SiteId) (op : Operation α) :
    List.Forall₂ Rel
      (star.trail site ++
        Report.madeBy site ((star.edit t op).result.map (Report.made t)).toOption.toList)
      ((star.edit t op).state.trail site) := by
  cases seated : star.seat? t with
  | none =>
    rw [Star.edit_of_vacant seated]
    change List.Forall₂ Rel (star.trail site ++ []) _
    rw [List.append_nil]
    exact h.same _
  | some seat =>
    obtain ⟨result, moved⟩ := Star.edit_spec seated op
    have history : (copy (star.edit t op).state.server).history = (copy star.server).history := by
      rw [moved.server]
    by_cases here : site = t
    · subst t
      have there := Star.unserved_of_seat ((moved.seats site).trans (if_pos rfl))
      have before := Star.unserved_of_seat seated
      rcases h.generate seat.client op with ⟨e, failed⟩ | ⟨op', made, grown⟩
      · rw [failed] at there result
        rw [result]
        change List.Forall₂ Rel (star.trail site ++ []) _
        rw [List.append_nil]
        refine h.still history ((there.trans ?_).trans before.symm)
        change (seat.up ++ []) ++ waiting seat.client = _
        rw [List.append_nil]
      · have longer : (star.edit site op).state.trail site = star.trail site ++ [op'] := by
          rw [Star.trail, Star.trail, history, there, before, List.append_assoc, List.append_assoc,
            List.append_assoc]
          exact congrArg _ (congrArg _ grown)
        have new : Report.madeBy site
            ((star.edit site op).result.map (Report.made site)).toOption.toList = [op'] := by
          rw [result, made]
          exact List.filterMap_cons_some (if_pos rfl)
        rw [new, longer]
        exact h.same _
    · have nothing : Report.madeBy site
          ((star.edit t op).result.map (Report.made t)).toOption.toList = [] := by
        cases (star.edit t op).result with
        | error e => rfl
        | ok op' => exact List.filterMap_cons_none (if_neg (Ne.symm here))
      rw [nothing, List.append_nil]
      refine h.still history ?_
      simp only [Star.unserved, moved.seats, if_neg here]

/-- What a site hears rewrites what waits there. -/
theorem down (h : sim.Carries Rel) (follows : sim.Follows star gaps) (enrolled : star.Enrolled site)
    {t : SiteId} {o : Outcome (Star S C α) α (Operation α)}
    (delivered : star.deliverDown? t = some o) :
    List.Forall₂ Rel (star.trail site) (o.state.trail site) := by
  obtain ⟨seat, op, rest, seated, link, -, moved⟩ := Star.deliverDown?_spec delivered
  have history : (copy o.state.server).history = (copy star.server).history := by
    rw [moved.server]
  by_cases here : site = t
  · subst t
    have there := Star.unserved_of_seat ((moved.seats site).trans (if_pos rfl))
    obtain ⟨seat', seated', tracks⟩ := follows.tracked site (enrolled (by rw [seated]; rfl))
    obtain rfl := Option.some.inj (seated.symm.trans seated')
    obtain ⟨client, up, down⟩ := seat
    cases link
    rw [Star.trail, Star.trail, history, there, Star.unserved_of_seat seated, List.append_assoc]
    exact List.rel_append (h.same _) (List.rel_append (h.same _) (h.hear tracks))
  · refine h.still history ?_
    simp only [Star.unserved, moved.seats, if_neg here]

/-- What the server takes in goes over from the link to the history. -/
theorem up (h : sim.Carries Rel) (follows : sim.Follows star gaps) (enrolled : star.Enrolled site)
    {t : SiteId} {o : Outcome (Star S C α) α (Operation α)}
    (delivered : star.deliverUp? t = some o) :
    List.Forall₂ Rel (star.trail site) (o.state.trail site) := by
  obtain ⟨op, rest, link, result, next⟩ := Star.deliverUp?_spec delivered
  have own : op.creator? = some t :=
    follows.signed t op (by rw [link]; exact List.mem_cons_self)
  by_cases member : t ∈ sites star.server
  · obtain ⟨⟨client, up, down⟩, seated, tracks⟩ := follows.tracked t member
    obtain rfl : op :: rest = up := link.symm.trans (Star.seat?_eq_some_iff.mp seated).2.1
    obtain ⟨op', -, served, -, history, -⟩ := sim.serve follows.sound member own tracks
    have rel := h.serve follows.sound served
    have own' : op'.creator? = some t := (h.creator rel).trans own
    have history' : (copy o.state.server).history = (copy star.server).history ++ [op'] := by
      rw [next.server, history]
    by_cases here : site = t
    · subst t
      have there := Star.unserved_of_seat (next.seat_self seated)
      have mine : createdBy site [op'] = [op'] := createdBy_cons_own own'
      rw [Star.trail, Star.trail, history', there, Star.unserved_of_seat seated,
        createdBy_append, mine, List.append_assoc]
      exact List.rel_append (h.same _) (.cons rel (h.same _))
    · have foreign : createdBy site [op'] = [] := createdBy_eq_nil fun op among => by
        rw [List.mem_singleton.mp among, own']
        exact fun same => here (Option.some.inj same).symm
      rw [Star.trail, Star.trail, history', next.unserved_eq (.inr here), createdBy_append,
        foreign, List.append_nil]
      exact h.same _
  · obtain ⟨e, refused⟩ := sim.refuse follows.sound member own
    rw [refused] at next
    refine h.still (by rw [next.server]; rfl) (next.unserved_eq ?_)
    by_cases here : site = t
    · subst t
      refine .inl (Option.not_isSome_iff_eq_none.mp fun seated => ?_)
      exact member (enrolled seated)
    · exact .inr here

omit [Element α] in
/-- Whatever else is reported, only what is made counts. -/
theorem reported {ρ : Type} (o : Outcome (Star S C α) α ρ) (f : ρ → Report α)
    (foreign : ∀ r, (f r).own? site = none)
    (moved : List.Forall₂ Rel (star.trail site) (o.state.trail site)) :
    List.Forall₂ Rel (star.trail site ++ Report.madeBy site (o.report f).result.toOption.toList)
      ((o.report f).state.trail site) := by
  have nothing : Report.madeBy site (o.report f).result.toOption.toList = [] := by
    simp only [Outcome.report]
    cases o.result with
    | error e => rfl
    | ok r => exact List.filterMap_cons_none (foreign r)
  rw [nothing, List.append_nil]
  exact moved

theorem act? (h : sim.Carries Rel) (follows : sim.Follows star gaps)
    (enrolled : star.Enrolled site) {action : Action α} {o : Outcome (Star S C α) α (Report α)}
    (acted : star.act? action = some o) :
    List.Forall₂ Rel (star.trail site ++ Report.madeBy site o.result.toOption.toList)
      (o.state.trail site) := by
  cases action with
  | join t mode =>
    obtain ⟨vacant, rfl⟩ := Star.act?_join acted
    exact reported _ (fun _ => .joined t) (fun _ => rfl) (h.join follows mode vacant)
  | leave t =>
    cases acted
    refine reported (star.removeSite t) (fun _ => .left t) (fun _ => rfl)
      (h.still (follows.leave t).2 ?_)
    cases removed : removeSite star.server t with
    | error e => rw [Star.removeSite_of_error removed]; rfl
    | ok server => rw [Star.removeSite_of_ok removed]; rfl
  | edit t op =>
    cases acted
    exact h.edit t op
  | up t =>
    obtain ⟨o, delivered, rfl⟩ := Option.map_eq_some_iff.mp acted
    exact reported o (.served t) (fun _ => rfl) (h.up follows enrolled delivered)
  | down t =>
    obtain ⟨o, delivered, rfl⟩ := Option.map_eq_some_iff.mp acted
    exact reported o (.heard t) (fun _ => rfl) (h.down follows enrolled delivered)

/-- One step: what was made and what is made now is all there. -/
theorem step (h : sim.Carries Rel) (follows : sim.Follows star gaps) (enrolled : star.Enrolled site)
    (action : Action α) :
    List.Forall₂ Rel (star.trail site ++ Report.madeBy site (star.report? action).toList)
      ((star.after action).trail site) := by
  simp only [Star.after, Star.report?]
  cases acted : star.act? action with
  | none =>
    change List.Forall₂ Rel (star.trail site ++ []) (star.trail site)
    rw [List.append_nil]
    exact h.same _
  | some o => exact h.act? follows enrolled acted

/-- Along every schedule in which the site does not leave. -/
theorem run (h : sim.Carries Rel) (follows : sim.Follows star gaps) (enrolled : star.Enrolled site)
    {schedule : List (Action α)} (stays : .leave site ∉ schedule) :
    List.Forall₂ Rel (star.trail site ++ Report.madeBy site (star.reports schedule))
      ((star.run schedule).trail site) := by
  induction schedule generalizing star gaps with
  | nil =>
    change List.Forall₂ Rel (star.trail site ++ []) (star.trail site)
    rw [List.append_nil]
    exact h.same _
  | cons action rest ih =>
    obtain ⟨here, later⟩ := List.ne_and_not_mem_of_not_mem_cons stays
    obtain ⟨gaps', follows', -⟩ := follows.after action
    have first := h.step follows enrolled action
    have others := ih follows' (follows.enrolled_after (Ne.symm here) enrolled) later
    rw [Star.reports, Report.madeBy, List.filterMap_append, ← List.append_assoc]
    exact forall₂_comp (List.rel_append first (h.same _)) others fun _ _ _ => h.trans

/-- From the start on, all that a site has made is in the history, on the link or waiting. -/
theorem delivers (h : sim.Carries Rel) (mode : FillMode) {schedule : List (Action α)}
    (blank : (copy (ServerAlgorithm.start policy : S α)).history = [])
    (stays : .leave site ∉ schedule) :
    (Star.start policy mode : Star S C α).DeliversOnce Rel schedule site := by
  intro client found
  let star := (Star.start policy mode : Star S C α).run schedule
  have all := h.run (sim.follows_start mode fun _ => ⟨[], [], []⟩)
    (fun seated => by cases seated) stays
  have nothing : (Star.start policy mode : Star S C α).trail site = [] := by
    change createdBy site (copy (ServerAlgorithm.start policy : S α)).history ++ [] = []
    rw [blank]
    rfl
  have seated : star.seat? site = some ⟨client, star.upLink site, star.downLink site⟩ :=
    Star.seat?_eq_some_iff.mpr ⟨found, rfl, rfl⟩
  rw [nothing, List.nil_append, Star.trail, Star.unserved_of_seat seated,
    ← List.append_assoc] at all
  exact all

end Simulation.Carries

end CoEdit
