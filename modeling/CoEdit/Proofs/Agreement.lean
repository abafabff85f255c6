import CoEdit.Proofs.JupiterConvergence
import CoEdit.Proofs.Undated
import CoEdit.Proofs.WaveConvergence

/-!
# Wave and jupiter agree

What the server makes of the sites' edits can be told without clients, links and queues on both
sides: keep for each site what was sent to it, drop what the site had heard of when it made an edit,
and take the edit past the rest. `Ledger` does this from three things only, which edits each site
made, how much of the others it had heard by then, and in which order the server took them in.
Both algorithms come to what the ledger says, so they come to the same.
-/

namespace CoEdit

variable {α : Type}

/-- What is kept for a site: what was sent to it from number `base` on, and how many of its own
edits were taken in. -/
structure Desk (α : Type) where
  base : Nat
  queue : List (Operation α)
  served : Nat

/-- The server, as far as the edits of the sites determine it. -/
structure Ledger (α : Type) where
  desks : SiteId → Desk α
  history : List (Operation α)

namespace Ledger

def start : Ledger α := ⟨fun _ => ⟨0, [], 0⟩, []⟩

/-- Takes in the next edit of a site; `made` lists the edits of each site with the number of
operations of others that it had heard by then. -/
def serve? (policy : Policy) (made : SiteId → List (Edit α × Nat)) (ledger : Ledger α)
    (site : SiteId) : Option (Ledger α) :=
  let desk := ledger.desks site
  match (made site)[desk.served]? with
  | none => none
  | some (edit, known) =>
    match transformPast policy .server ⟨edit, none⟩ (desk.queue.drop (known - desk.base)) with
    | .error _ => none
    | .ok (op, queue) =>
      some {
        desks := fun t =>
          if t = site then ⟨known, queue, desk.served + 1⟩
          else { ledger.desks t with queue := (ledger.desks t).queue ++ [op] }
        history := ledger.history ++ [op] }

/-- Takes in edits in the order in which their sites are listed. -/
def serveAll? (policy : Policy) (made : SiteId → List (Edit α × Nat)) (ledger : Ledger α)
    (order : List SiteId) : Option (Ledger α) :=
  order.foldlM (serve? policy made) ledger

end Ledger

namespace Report

/-- The site whose operation the server took in. -/
def server? : Report α → Option SiteId
  | served site _ => some site
  | _ => none

/-- An edit that the site made, with a count. -/
def madeAt (site : SiteId) (count : Nat) : Report α → List (Edit α × Nat)
  | made s op => if s = site then [(op.edit, count)] else []
  | _ => []

/-- How many operations of others the site heard. -/
def heardAt (site : SiteId) : Report α → Nat
  | heard s op => if s = site ∧ op.creator? ≠ some site then 1 else 0
  | _ => 0

/-- The edits that a site made, each with the number of operations of others that it had heard
before. -/
def edits (site : SiteId) : Nat → List (Report α) → List (Edit α × Nat)
  | _, [] => []
  | count, report :: rest =>
    report.madeAt site count ++ edits site (count + report.heardAt site) rest

/-- The sites whose operations the server took in, in order. Links deliver in order, so the k-th
entry of a site is its k-th edit. -/
def order (reports : List (Report α)) : List SiteId := reports.filterMap server?

end Report

/-- Edits without stamps, as messages that tell what their sender had heard. -/
def messages (entries : List (Edit α × Nat)) : List (Operation α × Nat) :=
  entries.map fun entry => (⟨entry.1, none⟩, entry.2)

/-- A desk that is right about a site: what it keeps falls into what the site has heard and what it
has not, and the edits that wait become what the site has beyond the common document. -/
def Desk.Aligned (policy : Policy) (desk : Desk α) (heard : Nat) (waiting : List (Edit α × Nat))
    (gap : Gap α) : Prop :=
  ∃ old new forms, desk.queue = old ++ new ∧ heard = desk.base + old.length ∧
    new.map (·.edit) = gap.theirs.map (·.edit) ∧
    Inbound policy .server desk.base old (messages waiting) forms ∧
    forms.map (·.edit) = gap.mine.map (·.edit)

namespace Desk.Aligned

variable {policy : Policy} {desk : Desk α} {heard : Nat} {waiting : List (Edit α × Nat)}
  {gap gap' : Gap α} {op : Operation α}

theorem start (policy : Policy) {gap : Gap α} (mine : gap.mine = []) (theirs : gap.theirs = []) :
    Aligned policy (⟨0, [], 0⟩ : Desk α) 0 [] gap := by
  refine ⟨[], [], [], rfl, rfl, ?_, .nil 0 [], ?_⟩
  · rw [theirs]
  · rw [mine]

theorem of_edits (h : Aligned policy desk heard waiting gap)
    (mine : gap'.mine.map (·.edit) = gap.mine.map (·.edit))
    (theirs : gap'.theirs = gap.theirs) : Aligned policy desk heard waiting gap' := by
  obtain ⟨old, new, forms, queue, count, sameNew, inbound, sameForms⟩ := h
  exact ⟨old, new, forms, queue, count, theirs ▸ sameNew, inbound, sameForms.trans mine.symm⟩

theorem made (h : Aligned policy desk heard waiting gap) (mine : gap'.mine = gap.mine ++ [op])
    (theirs : gap'.theirs = gap.theirs) :
    Aligned policy desk heard (waiting ++ [(op.edit, heard)]) gap' := by
  obtain ⟨old, new, forms, queue, rfl, sameNew, inbound, sameForms⟩ := h
  refine ⟨old, new, forms ++ [⟨op.edit, none⟩], queue, rfl, theirs ▸ sameNew, ?_, ?_⟩
  · rw [messages, List.map_append]
    exact inbound.send ⟨op.edit, none⟩
  · rw [mine, List.map_append, List.map_append, sameForms]
    rfl

theorem relayed (h : Aligned policy desk heard waiting gap) {op' : Operation α}
    (same : op'.edit = op.edit) :
    Aligned policy { desk with queue := desk.queue ++ [op] } heard waiting
      { gap with theirs := gap.theirs ++ [op'] } := by
  obtain ⟨old, new, forms, queue, count, sameNew, inbound, sameForms⟩ := h
  refine ⟨old, new ++ [op], forms, ?_, count, ?_, inbound, sameForms⟩
  · rw [queue, List.append_assoc]
  · rw [List.map_append, List.map_append, sameNew, List.map_singleton, List.map_singleton, same]

theorem heard_one [Element α] (h : Aligned policy desk heard waiting gap)
    (moved : gap.Heard policy op gap') :
    Aligned policy desk (heard + 1) waiting gap' := by
  obtain ⟨old, new, forms, queue, rfl, sameNew, inbound, sameForms⟩ := h
  obtain ⟨b, oldest, -, past⟩ := moved
  rw [oldest] at sameNew
  obtain ⟨n, new, rfl, sameN, sameNew⟩ := List.map_eq_cons_iff.mp sameNew
  obtain ⟨n', forms', past', -, sameForms'⟩ := transformPast_edits past sameN sameForms
  refine ⟨old ++ [n], new, forms', ?_, ?_, sameNew, inbound.cross past', sameForms'⟩
  · rw [queue, List.append_assoc]
    rfl
  · rw [List.length_append, List.length_singleton, Nat.add_assoc]

/-- The oldest edit that waits comes out as the oldest operation of the site does. -/
theorem served_one [Element α] (h : Aligned policy desk heard waiting gap)
    (moved : gap.Served policy op gap') :
    ∃ edit known rest op' queue, waiting = (edit, known) :: rest ∧
      transformPast policy .server ⟨edit, none⟩ (desk.queue.drop (known - desk.base)) =
        .ok (op', queue) ∧ op'.edit = op.edit ∧
      Aligned policy ⟨known, queue, desk.served + 1⟩ heard rest gap' := by
  obtain ⟨old, new, forms, queue, rfl, sameNew, inbound, sameForms⟩ := h
  obtain ⟨a, oldest, -, past⟩ := moved
  rw [oldest] at sameForms
  obtain ⟨form, forms, rfl, sameA, sameForms⟩ := List.map_eq_cons_iff.mp sameForms
  obtain ⟨op', new', past', sameOp, sameNew'⟩ := transformPast_edits past sameA sameNew
  cases waiting with
  | nil => cases inbound
  | cons entry rest =>
    obtain ⟨edit, known⟩ := entry
    cases inbound with
    | @cons _ _ _ old' _ _ _ _ low high pastOld inbound =>
      refine ⟨edit, known, rest, op', old' ++ new', rfl, ?_, sameOp,
        old', new', forms, rfl, ?_, sameNew', inbound, sameForms⟩
      · rw [queue, List.drop_append_of_le_length (by omega)]
        exact transformPast_append_eq_ok.mpr ⟨form, old', new', pastOld, past', rfl⟩
      · change desk.base + old.length = known + old'.length
        rw [transformPast_length pastOld, List.length_drop]
        omega

end Desk.Aligned

namespace Ledger

variable {policy : Policy} {members : List SiteId} {made : SiteId → List (Edit α × Nat)}
  {ledger : Ledger α} {gaps gaps' : SiteId → Gap α} {count : SiteId → Nat}
  {report : Report α} {rest : List (Report α)}

/-- The ledger is right about every site, with some reports still to come. -/
def Agrees (policy : Policy) (members : List SiteId) (made : SiteId → List (Edit α × Nat))
    (ledger : Ledger α) (gaps : SiteId → Gap α) (count : SiteId → Nat)
    (reports : List (Report α)) : Prop :=
  ∀ site ∈ members, ∃ waiting,
    (made site).drop (ledger.desks site).served =
      waiting ++ Report.edits site (count site) reports ∧
    (ledger.desks site).Aligned policy (count site) waiting (gaps site)

theorem Agrees.pass (h : Agrees policy members made ledger gaps count (report :: rest))
    (silent : report.server? = none) (unrecorded : report.recorded = [])
    (moved : ∀ site ∈ members, ∀ waiting,
      (ledger.desks site).Aligned policy (count site) waiting (gaps site) →
      (ledger.desks site).Aligned policy (count site + report.heardAt site)
        (waiting ++ report.madeAt site (count site)) (gaps' site)) :
    ∃ ledger' new, serveAll? policy made ledger report.server?.toList = some ledger' ∧
      ledger'.history = ledger.history ++ new ∧
      new.map (·.edit) = report.recorded.map (·.edit) ∧
      Agrees policy members made ledger' gaps'
        (fun site => count site + report.heardAt site) rest := by
  rw [silent, unrecorded]
  refine ⟨ledger, [], rfl, (List.append_nil _).symm, rfl, fun site member => ?_⟩
  obtain ⟨waiting, left, aligned⟩ := h site member
  refine ⟨waiting ++ report.madeAt site (count site), ?_, moved site member waiting aligned⟩
  rw [left, Report.edits, List.append_assoc]

/-- The server takes in an operation of one site. -/
theorem Agrees.serve [Element α] {site : SiteId} {op : Operation α}
    (h : Agrees policy members made ledger gaps count (.served site op :: rest))
    (member : site ∈ members) (moved : (gaps site).Served policy op (gaps' site))
    (relayed : ∀ t ∈ members, t ≠ site → ∃ relay : Operation α, relay.edit = op.edit ∧
      relay.creator? = some site ∧
      gaps' t = { gaps t with theirs := (gaps t).theirs ++ [relay] }) :
    ∃ ledger' op', serve? policy made ledger site = some ledger' ∧ op'.edit = op.edit ∧
      ledger'.history = ledger.history ++ [op'] ∧
      Agrees policy members made ledger' gaps' count rest := by
  obtain ⟨_, left, aligned⟩ := h site member
  obtain ⟨edit, known, waiting, op', queue, rfl, past, same, aligned'⟩ := aligned.served_one moved
  have next : (made site)[(ledger.desks site).served]? = some (edit, known) := by
    rw [← List.head?_drop, left]
    rfl
  let ledger' : Ledger α :=
    { desks := fun t =>
        if t = site then ⟨known, queue, (ledger.desks site).served + 1⟩
        else { ledger.desks t with queue := (ledger.desks t).queue ++ [op'] }
      history := ledger.history ++ [op'] }
  have served : serve? policy made ledger site = some ledger' := by
    simp only [serve?, next, past]
    rfl
  refine ⟨ledger', op', served, same, rfl, fun t known' => ?_⟩
  by_cases here : t = site
  · subst t
    have desk : ledger'.desks site = ⟨known, queue, (ledger.desks site).served + 1⟩ := if_pos rfl
    rw [desk]
    refine ⟨waiting, ?_, aligned'⟩
    rw [← List.drop_drop, left]
    rfl
  · have desk : ledger'.desks t =
        { ledger.desks t with queue := (ledger.desks t).queue ++ [op'] } := if_neg here
    obtain ⟨waiting', left', aligned''⟩ := h t known'
    obtain ⟨relay, same', -, gap_eq⟩ := relayed t known' here
    rw [desk, gap_eq]
    exact ⟨waiting', left', aligned''.relayed (same'.trans same.symm)⟩

theorem Agrees.step [Element α]
    (h : Agrees policy members made ledger gaps count (report :: rest))
    (moved : Moves policy members gaps report gaps') (nobody : ∀ site, report ≠ .joined site) :
    ∃ ledger' new, serveAll? policy made ledger report.server?.toList = some ledger' ∧
      ledger'.history = ledger.history ++ new ∧
      new.map (·.edit) = report.recorded.map (·.edit) ∧
      Agrees policy members made ledger' gaps'
        (fun site => count site + report.heardAt site) rest := by
  cases moved with
  | joined mine theirs => exact absurd rfl (nobody _)
  | left =>
    refine h.pass rfl rfl fun t known waiting aligned => ?_
    simpa [Report.madeAt, Report.heardAt] using aligned
  | @made site op =>
    refine h.pass rfl rfl fun t known waiting aligned => ?_
    by_cases here : t = site
    · subst t
      simp only [Report.madeAt, Report.heardAt, if_pos, Function.update_self]
      exact aligned.made rfl rfl
    · simpa [Report.madeAt, Report.heardAt, here, Ne.symm here] using aligned
  | @heard site op gap foreign moved =>
    refine h.pass rfl rfl fun t known waiting aligned => ?_
    by_cases here : t = site
    · subst t
      have one : (Report.heard site op).heardAt site = 1 := if_pos ⟨rfl, foreign⟩
      have none_made : (Report.heard site op).madeAt site (count site) = [] := rfl
      rw [one, none_made, List.append_nil, Function.update_self]
      exact aligned.heard_one moved
    · simpa [Report.madeAt, Report.heardAt, here, Ne.symm here] using aligned
  | @echoed site op gap own _ mine theirs =>
    refine h.pass rfl rfl fun t known waiting aligned => ?_
    by_cases here : t = site
    · subst t
      simpa [Report.madeAt, Report.heardAt, own] using aligned.of_edits mine theirs
    · simpa [Report.madeAt, Report.heardAt, here, Ne.symm here] using aligned
  | @outside site op _ stranger reported =>
    have other : ∀ t ∈ members, site ≠ t := by
      rintro t known rfl
      exact stranger known
    rcases reported with rfl | rfl
    all_goals
      refine h.pass rfl rfl fun t known waiting aligned => ?_
      simpa [Report.madeAt, Report.heardAt, other t known] using aligned
  | @served site op _ member moved relayed =>
    obtain ⟨ledger', op', served, same, history, agrees⟩ := h.serve member moved relayed
    refine ⟨ledger', [op'], ?_, history, ?_, agrees⟩
    · change (serve? policy made ledger site).bind some = _
      rw [served]
      rfl
    · change [op'.edit] = [op.edit]
      rw [same]

theorem serveAll?_append {ledger₁ ledger₂ : Ledger α} {order more : List SiteId}
    (h : serveAll? policy made ledger order = some ledger₁)
    (h' : serveAll? policy made ledger₁ more = some ledger₂) :
    serveAll? policy made ledger (order ++ more) = some ledger₂ := by
  simp only [serveAll?] at h h' ⊢
  rw [List.foldlM_append, h]
  exact h'

theorem Agrees.run [Element α] {reports : List (Report α)}
    (h : Agrees policy members made ledger gaps count reports)
    (moved : MovesAll policy members gaps reports gaps')
    (nobody : ∀ site, .joined site ∉ reports) :
    ∃ ledger' new count', serveAll? policy made ledger (Report.order reports) = some ledger' ∧
      ledger'.history = ledger.history ++ new ∧
      new.map (·.edit) = (reports.flatMap Report.recorded).map (·.edit) ∧
      Agrees policy members made ledger' gaps' count' [] := by
  induction moved generalizing ledger count with
  | nil => exact ⟨ledger, [], count, rfl, (List.append_nil _).symm, rfl, h⟩
  | @cons gaps gaps₁ gaps₂ report rest first others ih =>
    have here : ∀ site, report ≠ .joined site := by
      rintro site rfl
      exact nobody site List.mem_cons_self
    obtain ⟨ledger₁, new₁, served, history, same, agrees⟩ := h.step first here
    obtain ⟨ledger₂, new₂, count₂, served', history', same', agrees'⟩ :=
      ih agrees fun site joined => nobody site (List.mem_cons_of_mem _ joined)
    refine ⟨ledger₂, new₁ ++ new₂, count₂, ?_, ?_, ?_, agrees'⟩
    · have order : Report.order (report :: rest) =
          report.server?.toList ++ Report.order rest := by
        simp only [Report.order]
        cases server : report.server? with
        | none => rw [List.filterMap_cons_none server]; rfl
        | some site => rw [List.filterMap_cons_some server]; rfl
      rw [order]
      exact serveAll?_append served served'
    · rw [history', history, List.append_assoc]
    · rw [List.flatMap_cons, List.map_append, List.map_append, same, same']

end Ledger

namespace Simulation

open ClientAlgorithm ServerAlgorithm

variable {S C : Type → Type} [ServerAlgorithm S] [ClientAlgorithm C] [Element α] {policy : Policy}
  {sim : Simulation S C α policy} {star : Star S C α} {gaps : SiteId → Gap α}

/-- In an idle star a ledger begins that is right about every site. -/
theorem Follows.ledger_start (h : sim.Follows star gaps)
    (idle : ∀ site ∈ sites star.server, star.upLink site = [] ∧ star.downLink site = [])
    {reports : List (Report α)} {made : SiteId → List (Edit α × Nat)}
    (edits : ∀ site ∈ sites star.server, Report.edits site 0 reports = made site) :
    Ledger.start.Agrees policy (sites star.server) made gaps (fun _ => 0) reports := by
  intro site member
  obtain ⟨⟨client, up, down⟩, seated, tracks⟩ := h.tracked site member
  obtain ⟨-, rfl, rfl⟩ := Star.seat?_eq_some_iff.mp seated
  obtain ⟨noneUp, noneDown⟩ := idle site member
  change sim.Tracks star.server site ⟨client, star.upLink site, star.downLink site⟩ _ at tracks
  rw [noneUp, noneDown] at tracks
  obtain ⟨mine, theirs⟩ := sim.quiet tracks
  exact ⟨[], (edits site member).symm, .start policy mine theirs⟩

/-- From an idle star on, the server's history grows as the ledger says. -/
theorem Follows.ledger (h : sim.Follows star gaps)
    (idle : ∀ site ∈ sites star.server, star.upLink site = [] ∧ star.downLink site = [])
    {schedule : List (Action α)} (traffic : ∀ action ∈ schedule, action.isTraffic)
    {made : SiteId → List (Edit α × Nat)}
    (edits : ∀ site ∈ sites star.server,
      Report.edits site 0 (star.reports schedule) = made site) :
    ∃ ledger new,
      Ledger.start.serveAll? policy made (Report.order (star.reports schedule)) = some ledger ∧
      (copy (star.run schedule).server).history = (copy star.server).history ++ new ∧
      new.map (·.edit) = ledger.history.map (·.edit) ∧
      (copy star.server).document.applyAll new =
        .ok (copy (star.run schedule).server).document := by
  obtain ⟨gaps', follows, history, moves, nobody⟩ := h.traffic traffic
  obtain ⟨ledger, new, -, served, ledger_history, same, -⟩ :=
    (h.ledger_start idle edits).run moves nobody
  refine ⟨ledger, _, served, history, ?_,
    (sim.sound h.sound).replays.since (sim.sound follows.sound).replays history⟩
  rw [ledger_history, ← same]
  rfl

end Simulation

/-- A wave star and a jupiter star that start idle from the same document, at whose sites the same
edits are made with the same knowledge of the others, and whose servers take them in in the same
order, add the same edits to their histories and end in the same document. The dates of updates are
left out, for the two algorithms count in different ways. -/
theorem wave_jupiter_agree [Element α] (policy : Policy) (mode mode' : FillMode)
    (past past' schedule schedule' : List (Action α)) :
    let wave := Wave.reach policy mode past
    let jupiter := Jupiter.reach policy mode' past'
    (∀ site, site ∈ wave.server.sites ↔ site ∈ jupiter.server.proxies.keys) →
    (∀ site ∈ wave.server.sites, wave.upLink site = [] ∧ wave.downLink site = [] ∧
      jupiter.upLink site = [] ∧ jupiter.downLink site = []) →
    wave.server.copy.document.undated = jupiter.server.copy.document.undated →
    (∀ action ∈ schedule ++ schedule', action.isTraffic) →
    (∀ site ∈ wave.server.sites, Report.edits site 0 (wave.reports schedule) =
      Report.edits site 0 (jupiter.reports schedule')) →
    Report.order (wave.reports schedule) = Report.order (jupiter.reports schedule') →
    ∃ new new', (wave.run schedule).server.copy.history = wave.server.copy.history ++ new ∧
      (jupiter.run schedule').server.copy.history = jupiter.server.copy.history ++ new' ∧
      new.map (·.edit) = new'.map (·.edit) ∧
      (wave.run schedule).server.copy.document.undated =
        (jupiter.run schedule').server.copy.document.undated := by
  intro wave jupiter members idle document traffic edits order
  obtain ⟨gaps, follows⟩ := (Wave.simulation policy).follows_run mode past
  obtain ⟨gaps', follows'⟩ := (Jupiter.simulation policy).follows_run mode' past'
  obtain ⟨traffic, traffic'⟩ := List.forall_mem_append.mp traffic
  obtain ⟨ledger, new, served, history, same, applied⟩ :=
    follows.ledger (fun site member => ⟨(idle site member).1, (idle site member).2.1⟩) traffic
      edits
  obtain ⟨ledger', new', served', history', same', applied'⟩ :=
    follows'.ledger
      (fun site member => (idle site ((members site).mpr member)).2.2) traffic' fun _ _ => rfl
  obtain rfl : ledger = ledger' := Option.some.inj (served.symm.trans (order ▸ served'))
  have equal := same.trans same'.symm
  exact ⟨new, new', history, history', equal,
    Document.undated_of_applyAll document equal applied applied'⟩

/-- The second edit of the first site waits at a wave client and is rewritten there; with jupiter it
travels at once. -/
theorem wave_jupiter_agree_waiting :
    let a : SiteId := .ofNat 1
    let b : SiteId := .ofNat 2
    let past : List (Action Char) := [.join a .operationBased, .join b .stateBased]
    let edits : List (Action Char) := [.edit a ⟨.insert 0 'x', none⟩,
      .edit a ⟨.insert 1 'z', none⟩, .edit b ⟨.insert 0 'y', none⟩, .up a, .up b]
    let schedule := edits ++ [.down a, .up a]
    let schedule' := edits ++ [.up a]
    ∃ new new', ((Wave.reach .lastWriterWins .stateBased past).run schedule).server.copy.history =
        (Wave.reach .lastWriterWins .stateBased past).server.copy.history ++ new ∧
      ((Jupiter.reach .lastWriterWins .stateBased past).run schedule').server.copy.history =
        (Jupiter.reach .lastWriterWins .stateBased past).server.copy.history ++ new' ∧
      new.map (·.edit) = new'.map (·.edit) ∧
      ((Wave.reach .lastWriterWins .stateBased past).run schedule).server.copy.document.undated =
        ((Jupiter.reach .lastWriterWins .stateBased past).run
          schedule').server.copy.document.undated := by
  intro a b past edits schedule schedule'
  have members : (Wave.reach .lastWriterWins .stateBased past).server.sites =
      (Jupiter.reach .lastWriterWins .stateBased past).server.proxies.keys := by decide +kernel
  refine wave_jupiter_agree .lastWriterWins .stateBased .stateBased past past schedule schedule'
    ?_ ?_ ?_ ?_ ?_ ?_
  · intro site
    rw [members]
  all_goals decide +kernel

end CoEdit
