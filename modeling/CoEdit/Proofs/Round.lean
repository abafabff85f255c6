import CoEdit.Proofs.Agreement

/-!
# One write of each site

In a round some sites of an idle star write once each, none knowing of the others, and then all that
is on the links is delivered. What the server's history gains is then determined by the order in
which the writes arrive: each of them is taken past all that came before (`Rebased`). After the
round all replicas show what the server shows, so it is enough to say what that is
(`Simulation.Follows.round`).
-/

namespace CoEdit

open ClientAlgorithm ServerAlgorithm

variable {α : Type}

namespace Star

variable {S C : Type → Type} [ServerAlgorithm S] [ClientAlgorithm C]

/-- All links of registered sites are empty. -/
def Idle (star : Star S C α) : Prop :=
  ∀ site ∈ sites star.server, star.upLink site = [] ∧ star.downLink site = []

variable [Element α]

/-- From an idle star to an idle star: some sites write once each, before they hear of one another,
and everything is delivered. -/
structure Round (star : Star S C α) (schedule : List (Action α))
    (writes : SiteId → Option (Edit α)) : Prop where
  idle : star.Idle
  traffic : ∀ action ∈ schedule, action.isTraffic
  once : ∀ site ∈ sites star.server,
    Report.edits site 0 (star.reports schedule) = (writes site).toList.map fun edit => (edit, 0)
  settled : ∀ site ∈ sites star.server,
    (star.run schedule).upLink site = [] ∧ (star.run schedule).downLink site = []

instance (star : Star S C α) (schedule : List (Action α)) (writes : SiteId → Option (Edit α))
    [DecidableEq α] : Decidable (star.Round schedule writes) :=
  decidable_of_iff ((∀ site ∈ sites star.server, star.upLink site = [] ∧ star.downLink site = []) ∧
      (∀ action ∈ schedule, action.isTraffic) ∧
      (∀ site ∈ sites star.server, Report.edits site 0 (star.reports schedule) =
        (writes site).toList.map fun edit => (edit, 0)) ∧
      ∀ site ∈ sites star.server,
        (star.run schedule).upLink site = [] ∧ (star.run schedule).downLink site = [])
    ⟨fun ⟨idle, traffic, once, settled⟩ => ⟨idle, traffic, once, settled⟩,
      fun ⟨idle, traffic, once, settled⟩ => ⟨idle, traffic, once, settled⟩⟩

/-- The writes in the order in which the server takes them in. -/
def arrivals (star : Star S C α) (schedule : List (Action α))
    (writes : SiteId → Option (Edit α)) : List (Edit α) :=
  (Report.order (star.reports schedule)).filterMap writes

/-- Each write arrives once, and the server and all registered sites end up with the elements. -/
structure Settles (star : Star S C α) (schedule : List (Action α))
    (writes : SiteId → Option (Edit α)) (xs : List α) : Prop where
  nodup : (Report.order (star.reports schedule)).Nodup
  arrives : ∀ site, site ∈ Report.order (star.reports schedule) ↔
    site ∈ sites star.server ∧ (writes site).isSome
  server : (copy (star.run schedule).server).document.values = xs
  clients : ∀ site ∈ sites star.server, ∃ client,
    (star.run schedule).clients.get? site = some client ∧ (copy client).document.values = xs

end Star

/-- Operations that come from edits of one document: each edit is taken past the operations before
it. -/
inductive Rebased (policy : Policy) : List (Edit α) → List (Operation α) → Prop where
  | nil : Rebased policy [] []
  | snoc {edits : List (Edit α)} {ops passed : List (Operation α)} {edit : Edit α}
      {op form : Operation α} (before : Rebased policy edits ops)
      (past : transformPast policy .server ⟨edit, none⟩ ops = .ok (form, passed))
      (same : op.edit = form.edit) : Rebased policy (edits ++ [edit]) (ops ++ [op])

namespace Rebased

variable {policy : Policy} {edits : List (Edit α)} {edit : Edit α} {ops ops' : List (Operation α)}

theorem of_nil (h : Rebased policy [] ops) : ops = [] := by
  generalize none_left : ([] : List (Edit α)) = es at h
  cases h with
  | nil => rfl
  | snoc => simp at none_left

theorem of_snoc (h : Rebased policy (edits ++ [edit]) ops) :
    ∃ before op form passed, ops = before ++ [op] ∧ Rebased policy edits before ∧
      transformPast policy .server ⟨edit, none⟩ before = .ok (form, passed) ∧
      op.edit = form.edit := by
  generalize all : edits ++ [edit] = es at h
  cases h with
  | nil => simp at all
  | snoc before past same =>
    obtain ⟨rfl, rfl⟩ := List.append_singleton_inj.mp all
    exact ⟨_, _, _, _, rfl, before, past, same⟩

/-- Only the edits of the operations count. -/
theorem of_edits (h : Rebased policy edits ops) (same : ops'.map (·.edit) = ops.map (·.edit)) :
    Rebased policy edits ops' := by
  induction h generalizing ops' with
  | nil =>
    rw [List.map_eq_nil_iff.mp same]
    exact .nil
  | snoc before past last ih =>
    rw [List.map_append] at same
    obtain ⟨first, rest, rfl, sameFirst, sameRest⟩ := List.map_eq_append_iff.mp same
    obtain ⟨op', rest', rfl, sameOp, none_left⟩ := List.map_eq_cons_iff.mp sameRest
    obtain rfl := List.map_eq_nil_iff.mp none_left
    obtain ⟨form', passed', past', sameForm, -⟩ := transformPast_edits past rfl sameFirst
    exact .snoc (ih sameFirst) past' (sameOp.trans (last.trans sameForm.symm))

end Rebased

namespace Ledger

/-- The ledger of a round in which some sites have been served: their writes are in the history, and
for the others the whole history waits. -/
structure Serves (policy : Policy) (writes : SiteId → Option (Edit α)) (done : List SiteId)
    (ledger : Ledger α) : Prop where
  rebased : Rebased policy (done.filterMap writes) ledger.history
  nodup : done.Nodup
  wrote : ∀ site ∈ done, (writes site).isSome
  served : ∀ site ∈ done, (ledger.desks site).served = 1
  waits : ∀ site, site ∉ done → ledger.desks site = ⟨0, ledger.history, 0⟩

namespace Serves

variable {policy : Policy} {writes : SiteId → Option (Edit α)} {done order : List SiteId}
  {ledger ledger' : Ledger α} {site : SiteId}

theorem start (policy : Policy) (writes : SiteId → Option (Edit α)) :
    Serves policy writes [] start :=
  ⟨.nil, .nil, nofun, nofun, fun _ _ => rfl⟩

/-- One more site is served. -/
theorem serve (h : Serves policy writes done ledger)
    (served : serve? policy (fun site => (writes site).toList.map fun edit => (edit, 0)) ledger
      site = some ledger') : Serves policy writes (done ++ [site]) ledger' := by
  simp only [serve?] at served
  split at served
  · cases served
  · rename_i edit known next
    -- who has been served has nothing left, so the site has all the history before it
    have new : site ∉ done := by
      intro before
      rw [h.served site before] at next
      cases write : writes site <;> rw [write] at next <;> cases next
    rw [h.waits site new] at served next
    obtain ⟨write, rfl⟩ : writes site = some edit ∧ known = 0 := by
      cases write : writes site with
      | none =>
        rw [write] at next
        cases next
      | some e =>
        rw [write] at next
        cases next
        exact ⟨rfl, rfl⟩
    split at served
    · cases served
    · rename_i op passed past
      cases served
      refine ⟨?_, ?_, fun t among => ?_, fun t among => ?_, fun t absent => ?_⟩
      · rw [List.filterMap_append, List.filterMap_cons_some write]
        exact .snoc h.rebased past rfl
      · refine List.nodup_append.mpr ⟨h.nodup, List.pairwise_singleton .., fun s before t now => ?_⟩
        rw [List.mem_singleton.mp now]
        rintro rfl
        exact new before
      · rcases List.mem_append.mp among with before | now
        · exact h.wrote t before
        · rw [List.mem_singleton.mp now, write]
          rfl
      · by_cases here : t = site
        · simp only [if_pos here]
        · have before : t ∈ done :=
            (List.mem_append.mp among).resolve_right fun now => here (List.mem_singleton.mp now)
          simp only [if_neg here]
          exact h.served t before
      · rw [List.mem_append, List.mem_singleton, not_or] at absent
        simp only [if_neg absent.2]
        rw [h.waits t absent.1]

theorem serveAll (h : Serves policy writes done ledger)
    (served : serveAll? policy (fun site => (writes site).toList.map fun edit => (edit, 0)) ledger
      order = some ledger') : Serves policy writes (done ++ order) ledger' := by
  induction order generalizing done ledger with
  | nil =>
    cases served
    rw [List.append_nil]
    exact h
  | cons site rest ih =>
    obtain ⟨ledger₁, first, others⟩ := Option.bind_eq_some_iff.mp served
    have all := ih (h.serve first) others
    rwa [List.append_assoc] at all

end Serves

end Ledger

/-- Where a site has nothing beyond the common document, no edit of it waits. -/
theorem Desk.Aligned.waiting_eq_nil {policy : Policy} {desk : Desk α} {heard : Nat}
    {waiting : List (Edit α × Nat)} {gap : Gap α} (h : desk.Aligned policy heard waiting gap)
    (mine : gap.mine = []) : waiting = [] := by
  obtain ⟨old, new, forms, -, -, -, inbound, sameForms⟩ := h
  rw [mine] at sameForms
  have stamps := inbound.stamps
  rw [List.map_eq_nil_iff.mp sameForms] at stamps
  exact List.map_eq_nil_iff.mp (List.map_eq_nil_iff.mp stamps.symm)

/-- The server takes operations in from registered sites only. -/
theorem MovesAll.mem_order [Element α] {policy : Policy} {members : List SiteId}
    {gaps gaps' : SiteId → Gap α} {reports : List (Report α)} {site : SiteId}
    (h : MovesAll policy members gaps reports gaps') (among : site ∈ Report.order reports) :
    site ∈ members := by
  obtain ⟨report, reported, from_site⟩ := List.mem_filterMap.mp among
  induction h with
  | nil => cases reported
  | cons first others ih =>
    rcases List.mem_cons.mp reported with rfl | later
    · cases first with
      | served member moved relayed =>
        cases from_site
        exact member
      | outside stranger made_or_heard =>
        rcases made_or_heard with rfl | rfl <;> cases from_site
      | _ => cases from_site
    · exact ih (List.mem_filterMap.mpr ⟨report, later, from_site⟩) later

namespace Simulation.Follows

variable {S C : Type → Type} [ServerAlgorithm S] [ClientAlgorithm C] [Element α] {policy : Policy}
  {sim : Simulation S C α policy} {star : Star S C α} {gaps : SiteId → Gap α}
  {schedule : List (Action α)} {writes : SiteId → Option (Edit α)}

/-- Edits and deliveries leave the members as they are. -/
theorem sites_traffic (h : sim.Follows star gaps)
    (traffic : ∀ action ∈ schedule, action.isTraffic) :
    sites (star.run schedule).server = sites star.server := by
  induction schedule generalizing star gaps with
  | nil => rfl
  | cons action rest ih =>
    obtain ⟨first, others⟩ := List.forall_mem_cons.mp traffic
    obtain ⟨gaps₁, follows, -, -, stays⟩ := h.after action
    exact (ih follows others).trans (stays first).1

/-- After a round all replicas show the elements that the writes, each rebased on those that arrived
before it, make of the elements at the beginning. -/
theorem round (h : sim.Follows star gaps) (round : star.Round schedule writes) :
    ∃ new xs, Rebased policy (star.arrivals schedule writes) new ∧
      Operation.effects? new (copy star.server).document.values = some xs ∧
      star.Settles schedule writes xs := by
  obtain ⟨gaps', follows, history, moves, nobody⟩ := h.traffic round.traffic
  obtain ⟨ledger, new, count, served, ledger_history, same, agrees⟩ :=
    (h.ledger_start round.idle round.once).run moves nobody
  have serves := (Ledger.Serves.start policy writes).serveAll served
  rw [List.nil_append] at serves
  have replayed := (sim.sound h.sound).replays.since (sim.sound follows.sound).replays history
  have members := h.sites_traffic round.traffic
  have quiet : ∀ site ∈ sites star.server, ∃ client,
      (star.run schedule).clients.get? site = some client ∧ (gaps' site).mine = [] ∧
        (copy client).document.values =
          (copy (star.run schedule).server).document.values := by
    intro site member
    obtain ⟨⟨client, up, down⟩, seated, tracks⟩ := follows.tracked site (members ▸ member)
    obtain ⟨found, rfl, rfl⟩ := Star.seat?_eq_some_iff.mp seated
    obtain ⟨noneUp, noneDown⟩ := round.settled site member
    have same_elements := sim.settled tracks noneUp noneDown
    change sim.Tracks _ site ⟨client, (star.run schedule).upLink site,
      (star.run schedule).downLink site⟩ _ at tracks
    rw [noneUp, noneDown] at tracks
    exact ⟨client, found, (sim.quiet tracks).1, same_elements⟩
  refine ⟨_, _, serves.rebased.of_edits ?_, Document.effects?_of_applyAll replayed, serves.nodup,
    fun site => ⟨fun among => ⟨moves.mem_order among, serves.wrote site among⟩, ?_⟩, rfl,
    fun site member => ?_⟩
  · rw [ledger_history, ← same]
    rfl
  · rintro ⟨member, wrote⟩
    by_contra absent
    obtain ⟨client, -, mine, -⟩ := quiet site member
    obtain ⟨waiting, left, aligned⟩ := agrees site member
    obtain ⟨edit, write⟩ := Option.isSome_iff_exists.mp wrote
    simp only [aligned.waiting_eq_nil mine, serves.waits site absent, write] at left
    cases left
  · obtain ⟨client, found, -, same_elements⟩ := quiet site member
    exact ⟨client, found, same_elements⟩

end Simulation.Follows

end CoEdit
