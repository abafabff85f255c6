import CoEdit.Proofs.Chronicle
import CoEdit.Proofs.JupiterConvergence
import CoEdit.Proofs.Membership
import CoEdit.Proofs.WaveConvergence

/-!
# Conservation of elements

As long as sites only insert and delete, and never insert the same thing twice, every document holds
exactly the elements that its replica knows to be added and does not know to be removed
(`elements_conserved`). The chronicle of a star says who knows what, and `Keeps` that each gap is
accounted for; that is preserved by every step (`Keeps.note`), for any algorithm with a simulation.
-/

namespace CoEdit

open ClientAlgorithm ServerAlgorithm

variable {α : Type}

namespace Report

def inserted? : Report α → Option α
  | made _ ⟨.insert _ x, _⟩ => some x
  | _ => none

/-- No element is changed in place by what is made. -/
def isPlain : Report α → Bool
  | made _ op => !op.edit.isUpdate
  | _ => true

end Report

/-- What is made are insertions and deletions, and no element is inserted twice. -/
structure Distinct (reports : List (Report α)) : Prop where
  plain : ∀ report ∈ reports, report.isPlain
  nodup : (reports.filterMap Report.inserted?).Nodup

instance [DecidableEq α] (reports : List (Report α)) : Decidable (Distinct reports) :=
  decidable_of_iff ((∀ report ∈ reports, report.isPlain) ∧
      (reports.filterMap Report.inserted?).Nodup)
    ⟨fun ⟨plain, nodup⟩ => ⟨plain, nodup⟩, fun ⟨plain, nodup⟩ => ⟨plain, nodup⟩⟩

namespace Star

variable {S C : Type → Type} [ServerAlgorithm S] [ClientAlgorithm C]

/-- The elements at a site. -/
def elements (star : Star S C α) (site : SiteId) : List α :=
  ((star.clients.get? site).map fun client => (copy client).document.values).getD []

variable [Element α]

def chronicle (star : Star S C α) (c : Chronicle α) : List (Action α) → Chronicle α
  | [] => c
  | action :: rest =>
    (star.after action).chronicle ((star.report? action).elim c (c.note star.elements)) rest

/-- At the end of a schedule the server, and every site that has not left, shows what it knows. -/
def Conserves (start : Star S C α) (schedule : List (Action α)) : Prop :=
  let star := start.run schedule
  let c := start.chronicle .empty schedule
  Shows (copy star.server).document.values (known c.deeds c.server) ∧
    ∀ site client, .leave site ∉ schedule → star.clients.get? site = some client →
      Shows (copy client).document.values (known c.deeds (c.client site))

end Star

theorem Edit.deed_eq_added {edit : Edit α} {xs : List α} {x : α} (h : edit.deed xs = .added x) :
    ∃ p, edit = .insert p x := by
  cases edit with
  | insert p y =>
    cases h
    exact ⟨p, rfl⟩
  | delete p =>
    simp only [Edit.deed] at h
    cases at_p : xs[p]? <;> rw [at_p] at h <;> cases h
  | _ => cases h

namespace Chronicle

variable {c : Chronicle α} {elements : SiteId → List α} {report : Report α} {site : SiteId}

/-- What a site hears of is not done by it, nor is anybody else concerned. -/
theorem note_heard (c : Chronicle α) (elements : SiteId → List α) (site : SiteId)
    (op : Operation α) :
    (c.note elements (.heard site op)).deeds = c.deeds ∧
      (c.note elements (.heard site op)).server = c.server ∧
      (∀ t, t ≠ site → (c.note elements (.heard site op)).client t = c.client t) ∧
      ∀ creator, op.creator? = some creator → (c.note elements (.heard site op)).client site =
        if creator = site then c.client site else oneMore (c.client site) creator := by
  simp only [note]
  cases op.creator? with
  | none => exact ⟨rfl, rfl, fun t other => rfl, nofun⟩
  | some creator =>
    dsimp only
    split
    · refine ⟨rfl, rfl, fun t other => rfl, fun creator' same => ?_⟩
      cases same
      rw [if_pos ‹_›]
    · refine ⟨rfl, rfl, fun t other => Function.update_of_ne other .., fun creator' same => ?_⟩
      cases same
      rw [if_neg ‹_›]
      exact Function.update_self ..

/-- Nothing is noted to be added but what is inserted. -/
theorem added_of_note {x : α} (h : .added x ∈ (c.note elements report).deeds site) :
    .added x ∈ c.deeds site ∨ report.inserted? = some x := by
  cases report with
  | joined t => exact .inl h
  | left t => exact .inl h
  | served t op => exact .inl h
  | heard t op =>
    rw [(c.note_heard _ _ op).1] at h
    exact .inl h
  | made t op =>
    simp only [note] at h
    by_cases here : site = t
    · subst site
      rw [Function.update_self, List.mem_append, List.mem_singleton] at h
      refine h.imp_right fun new => ?_
      obtain ⟨edit, stamp⟩ := op
      obtain ⟨p, rfl⟩ := Edit.deed_eq_added new.symm
      rfl
    · rw [Function.update_of_ne here] at h
      exact .inl h

/-- Sites stay apart when a new element is inserted. -/
theorem apart_made {op : Operation α} (apart : Apart c.deeds)
    (fresh : ∀ x, (Report.made site op).inserted? = some x → ∀ s, .added x ∉ c.deeds s) :
    Apart (c.note elements (.made site op)).deeds := by
  have only_here : ∀ s x, .added x ∈ (c.note elements (.made site op)).deeds s →
      .added x ∈ c.deeds s ∨ s = site ∧ ∀ t, .added x ∉ c.deeds t := by
    intro s x among
    rcases added_of_note among with before | new
    · exact .inl before
    · by_cases here : s = site
      · exact .inr ⟨here, fresh x new⟩
      · simp only [note, Function.update_of_ne here] at among
        exact .inl among
  intro s t x atS atT
  rcases only_here s x atS with beforeS | ⟨rfl, newS⟩ <;>
    rcases only_here t x atT with beforeT | ⟨rfl, newT⟩
  · exact apart s t x beforeS beforeT
  · exact absurd beforeS (newT s)
  · exact absurd beforeT (newS t)
  · rfl

end Chronicle

/-- Of insertions that are all different and new, the first is new, and the others are all different
and new after it. -/
theorem Distinct.of_cons {S C : Type → Type} [ServerAlgorithm S] [ClientAlgorithm C] [Element α]
    {star : Star S C α} {action : Action α} {rest : List (Action α)} {c : Chronicle α}
    {elements : SiteId → List α} (distinct : Distinct (star.reports (action :: rest)))
    (fresh : ∀ x ∈ (star.reports (action :: rest)).filterMap Report.inserted?,
      ∀ s, .added x ∉ c.deeds s) :
    (∀ report, star.report? action = some report → report.isPlain) ∧
      (∀ x, (star.report? action).bind Report.inserted? = some x → ∀ s, .added x ∉ c.deeds s) ∧
      Distinct ((star.after action).reports rest) ∧
      ∀ x ∈ ((star.after action).reports rest).filterMap Report.inserted?,
        ∀ s, .added x ∉ ((star.report? action).elim c (c.note elements)).deeds s := by
  obtain ⟨plain, nodup⟩ := distinct
  simp only [Star.reports, List.filterMap_append] at plain nodup fresh
  obtain ⟨-, nodup', separate⟩ := List.nodup_append.mp nodup
  have now : ∀ x, (star.report? action).bind Report.inserted? = some x →
      x ∈ (star.report? action).toList.filterMap Report.inserted? := by
    intro x inserted
    obtain ⟨report, reported, inserted⟩ := Option.bind_eq_some_iff.mp inserted
    exact List.mem_filterMap.mpr ⟨report, Option.mem_toList.mpr reported, inserted⟩
  refine ⟨fun report now => plain report (List.mem_append_left _ (Option.mem_toList.mpr now)),
    fun x inserted => fresh x (List.mem_append_left _ (now x inserted)),
    ⟨fun report later => plain report (List.mem_append_right _ later), nodup'⟩,
    fun x later s among => ?_⟩
  cases reported : star.report? action with
  | none =>
    rw [reported] at among
    exact fresh x (List.mem_append_right _ later) s among
  | some report =>
    rw [reported] at among
    rcases Chronicle.added_of_note among with before | new
    · exact fresh x (List.mem_append_right _ later) s before
    · exact separate x (now x (by rw [reported]; exact new)) x later rfl

section Keeps

variable {S C : Type → Type} [ServerAlgorithm S] [ClientAlgorithm C] [Element α] {policy : Policy}

/-- A star stands for gaps that a chronicle accounts for. -/
structure Keeps (sim : Simulation S C α policy) (star : Star S C α) (gaps : SiteId → Gap α)
    (c : Chronicle α) : Prop where
  follows : sim.Follows star gaps
  apart : Apart c.deeds
  bounded : ∀ s, c.server s ≤ (c.deeds s).length
  vacant : ∀ s, star.seat? s = none → c.deeds s = []
  server : Shows (copy star.server).document.values (known c.deeds c.server)
  accounts : ∀ s ∈ sites star.server, Accounts c.deeds c.server (c.client s) s (gaps s)

variable {sim : Simulation S C α policy} {star star' : Star S C α} {gaps gaps' : SiteId → Gap α}
  {c : Chronicle α} {site : SiteId}

/-- The gap of a registered site spans what the site and the server show. -/
theorem Simulation.Follows.spans (h : sim.Follows star gaps) (member : site ∈ sites star.server) :
    (gaps site).Spans (star.elements site) (copy star.server).document.values := by
  obtain ⟨seat, seated, tracks⟩ := h.tracked site member
  have shown : star.elements site = (copy seat.client).document.values := by
    simp only [Star.elements, (Star.seat?_eq_some_iff.mp seated).1, Option.map_some,
      Option.getD_some]
  rw [shown]
  exact sim.spans tracks

theorem keeps_start (sim : Simulation S C α policy) (mode : FillMode) (gaps : SiteId → Gap α)
    (blank : (copy (ServerAlgorithm.start policy : S α)).document.values = []) :
    Keeps sim (.start policy mode : Star S C α) gaps .empty := by
  have nothing : known (fun _ => []) (fun _ => 0) = (∅ : Set (Deed α)) := by
    ext d
    simp [known]
  refine ⟨sim.follows_start mode gaps, fun _ _ _ among => absurd among List.not_mem_nil,
    fun s => Nat.le_refl _, fun s _ => rfl, ?_,
    fun s member => ?_⟩
  · rw [Chronicle.empty, nothing]
    change Shows (copy (ServerAlgorithm.start policy : S α)).document.values ∅
    rw [blank]
    exact shows_nil
  · change s ∈ sites (ServerAlgorithm.start policy : S α) at member
    rw [sim.start_sites] at member
    cases member

namespace Keeps

/-- As long as nothing is served, the server's document stays. -/
theorem document_same (h : Keeps sim star gaps c) (follows : sim.Follows star' gaps')
    (history : (copy star'.server).history = (copy star.server).history) :
    (copy star'.server).document.values = (copy star.server).document.values := by
  have same := (sim.sound h.follows.sound).replays.since (sim.sound follows.sound).replays
    (history.trans (List.append_nil _).symm)
  exact (congrArg Document.values (Except.ok.inj same)).symm

/-- The accounts of all sites are kept when one of them moves. -/
theorem update {deeds : SiteId → List (Deed α)} {server : SiteId → Nat}
    {client : SiteId → SiteId → Nat} {gap : Gap α} {t : SiteId}
    (here : t = site → Accounts deeds server (client site) site gap)
    (elsewhere : t ≠ site → Accounts deeds server (client t) t (gaps t)) :
    Accounts deeds server (client t) t (Function.update gaps site gap t) := by
  by_cases same : t = site
  · subst t
    rw [Function.update_self]
    exact here rfl
  · rw [Function.update_of_ne same]
    exact elsewhere same

variable {action : Action α} {o : Outcome (Star S C α) α (Report α)} {op : Operation α}

theorem joined {gap : Gap α} (h : Keeps sim star gaps c) (attends : star.Attends action o)
    (follows : sim.Follows o.state (Function.update gaps site gap))
    (history : (copy o.state.server).history = (copy star.server).history)
    (result : o.result = .ok (.joined site)) (mine : gap.mine = []) (theirs : gap.theirs = []) :
    Keeps sim o.state (Function.update gaps site gap) (c.note star.elements (.joined site)) := by
  obtain ⟨newcomer, member⟩ := attends.newcomer site result
  have same := h.document_same follows history
  have shown := follows.spans member
  rw [Function.update_self] at shown
  have shared : gap.shared = (copy star.server).document.values := by
    obtain ⟨-, server⟩ := shown
    rw [theirs] at server
    exact (Option.some.inj server).trans same
  have new : c.deeds site = [] := h.vacant site newcomer
  have unknown : c.server site = 0 := by
    have := h.bounded site
    rwa [new, List.length_nil, Nat.le_zero] at this
  refine ⟨follows, h.apart, h.bounded, fun t vacant => h.vacant t (attends.absent vacant), ?_,
    fun t registered => update (fun here => ?_) fun elsewhere => ?_⟩
  · rw [same]
    exact h.server
  · simp only [Chronicle.note, Function.update_self]
    exact .join new unknown mine theirs (shared ▸ h.server)
  · simp only [Chronicle.note, Function.update_of_ne elsewhere]
    refine h.accounts t (attends.registered result (fun same => elsewhere ?_) registered)
    cases same
    rfl

/-- A site does something; whether it is registered does not matter to the others. -/
theorem made (h : Keeps sim star gaps c) (attends : star.Attends action o)
    (follows : sim.Follows o.state gaps')
    (history : (copy o.state.server).history = (copy star.server).history)
    (result : o.result = .ok (.made site op)) (plain : (Report.made site op).isPlain)
    (fresh : ∀ x, (Report.made site op).inserted? = some x → ∀ s, .added x ∉ c.deeds s)
    (moved : site ∈ sites star.server →
      gaps' site = { gaps site with mine := (gaps site).mine ++ [op] })
    (others : ∀ t, t ≠ site → gaps' t = gaps t) :
    Keeps sim o.state gaps' (c.note star.elements (.made site op)) := by
  have seated := attends.maker site op result
  refine ⟨follows, Chronicle.apart_made h.apart fresh, fun s => ?_, fun t vacant => ?_, ?_,
    fun t registered => ?_⟩
  · simp only [Chronicle.note]
    by_cases here : s = site
    · subst s
      rw [Function.update_self, List.length_append]
      exact Nat.le_trans (h.bounded site) (Nat.le_add_right ..)
    · rw [Function.update_of_ne here]
      exact h.bounded s
  · have before := attends.absent vacant
    have other : t ≠ site := by
      rintro rfl
      rw [before] at seated
      cases seated
    simp only [Chronicle.note, Function.update_of_ne other]
    exact h.vacant t before
  · rw [h.document_same follows history]
    simp only [Chronicle.note]
    rw [known_made (h.bounded site)]
    exact h.server
  · have member := attends.registered result nofun registered
    simp only [Chronicle.note]
    by_cases here : t = site
    · subst t
      have before := h.follows.spans member
      have after := follows.spans registered
      have accounts := h.accounts site member
      rw [moved member] at after ⊢
      have effect := before.made_last after
      rw [Function.update_self]
      have plain : op.edit.isUpdate = false := by simpa [Report.isPlain] using plain
      refine accounts.made before.1 (.of_effect? plain (fun p x edit among => ?_) effect) effect
      obtain ⟨s, among⟩ := among
      refine fresh x ?_ s (List.mem_of_mem_take among)
      obtain ⟨_, stamp⟩ := op
      cases edit
      rfl
    · rw [others t here, Function.update_of_ne here]
      exact (h.accounts t member).made_elsewhere (Ne.symm here) (h.bounded site)

/-- A site hears of an operation, or it is an operation of its own that comes back. -/
theorem heard (h : Keeps sim star gaps c) (attends : star.Attends action o)
    (follows : sim.Follows o.state gaps')
    (history : (copy o.state.server).history = (copy star.server).history)
    (result : o.result = .ok (.heard site op))
    (moved : site ∈ sites star.server → Accounts c.deeds c.server
      ((c.note star.elements (.heard site op)).client site) site (gaps' site))
    (others : ∀ t, t ≠ site → gaps' t = gaps t) :
    Keeps sim o.state gaps' (c.note star.elements (.heard site op)) := by
  obtain ⟨deeds, server, clients, -⟩ := c.note_heard star.elements site op
  refine ⟨follows, deeds ▸ h.apart, fun s => ?_, fun t vacant => ?_, ?_, fun t registered => ?_⟩
  · rw [deeds, server]
    exact h.bounded s
  · rw [deeds]
    exact h.vacant t (attends.absent vacant)
  · rw [deeds, server, h.document_same follows history]
    exact h.server
  · have member := attends.registered result nofun registered
    rw [deeds, server]
    by_cases here : t = site
    · subst t
      exact moved member
    · rw [clients t here, others t here]
      exact h.accounts t member

/-- The server takes in an operation. -/
theorem served (h : Keeps sim star gaps c) (attends : star.Attends action o)
    (follows : sim.Follows o.state gaps') (result : o.result = .ok (.served site op))
    (stays : site ∈ sites o.state.server) (moved : (gaps site).Served policy op (gaps' site))
    (relayed : ∀ t ∈ sites star.server, t ≠ site → ∃ relay : Operation α, relay.edit = op.edit ∧
      relay.creator? = some site ∧
      gaps' t = { gaps t with theirs := (gaps t).theirs ++ [relay] }) :
    Keeps sim o.state gaps' (c.note star.elements (.served site op)) := by
  have member := attends.registered result nofun stays
  obtain ⟨d, there, does, here⟩ :=
    (h.accounts site member).served h.apart (h.follows.spans member).2 moved
  obtain ⟨inside, -⟩ := List.getElem?_eq_some_iff.mp there
  refine ⟨follows, h.apart, fun s => ?_, fun t vacant => h.vacant t (attends.absent vacant),
    here.server_shows (follows.spans stays).2, fun t registered => ?_⟩
  · by_cases same : s = site
    · subst s
      simp only [Chronicle.note, oneMore_self]
      exact inside
    · simp only [Chronicle.note, oneMore_of_ne _ same]
      exact h.bounded s
  · by_cases same : t = site
    · subst t
      exact here
    · have known := attends.registered result nofun registered
      obtain ⟨relay, edit, signed, gap_eq⟩ := relayed t known same
      have before := h.follows.spans known
      have after := follows.spans registered
      rw [gap_eq] at after ⊢
      exact (h.accounts t known).relayed (Ne.symm same) there before.2 (edit ▸ does)
        (before.relayed_last after) signed

/-- Nothing happened that anybody learns from. -/
theorem idle (h : Keeps sim star gaps c) (attends : star.Attends action o)
    (follows : sim.Follows o.state gaps)
    (history : (copy o.state.server).history = (copy star.server).history)
    (nobody : ∀ t, o.result ≠ .ok (.joined t)) : Keeps sim o.state gaps c := by
  refine ⟨follows, h.apart, h.bounded, fun t vacant => h.vacant t (attends.absent vacant), ?_,
    fun t registered => h.accounts t ((attends.known t registered).resolve_left (nobody t))⟩
  rw [h.document_same follows history]
  exact h.server

/-- Whatever is reported, the chronicle goes on accounting for the gaps. -/
theorem note {report : Report α} (h : Keeps sim star gaps c) (attends : star.Attends action o)
    (follows : sim.Follows o.state gaps')
    (history : (copy o.state.server).history = (copy star.server).history ++ report.recorded)
    (result : o.result = .ok report) (moves : Moves policy (sites star.server) gaps report gaps')
    (plain : report.isPlain)
    (fresh : ∀ x, report.inserted? = some x → ∀ s, .added x ∉ c.deeds s) :
    Keeps sim o.state gaps' (c.note star.elements report) := by
  have silent : report.recorded = [] →
      (copy o.state.server).history = (copy star.server).history := by
    intro none_new
    rw [history, none_new, List.append_nil]
  cases moves with
  | joined mine theirs => exact h.joined attends follows (silent rfl) result mine theirs
  | left =>
    refine h.idle attends follows (silent rfl) fun t joined => ?_
    cases result.symm.trans joined
  | made =>
    exact h.made attends follows (silent rfl) result plain fresh
      (fun _ => Function.update_self ..) fun t other => Function.update_of_ne other ..
  | @heard site op gap foreign moved =>
    refine h.heard attends follows (silent rfl) result (fun member => ?_)
      fun t other => Function.update_of_ne other ..
    obtain ⟨creator, signed, other, accounts⟩ :=
      (h.accounts site member).heard h.apart (h.follows.spans member).1 moved
    rw [(c.note_heard _ site op).2.2.2 creator signed, if_neg other, Function.update_self]
    exact accounts
  | @echoed site op gap own shared mine theirs =>
    refine h.heard attends follows (silent rfl) result (fun member => ?_)
      fun t other => Function.update_of_ne other ..
    rw [(c.note_heard _ site op).2.2.2 site own, if_pos rfl, Function.update_self]
    exact (h.accounts site member).echoed shared mine theirs
  | @served site op _ member moved relayed =>
    refine h.served attends follows result (attends.stay site member fun left => ?_) moved relayed
    cases result.symm.trans left
  | @outside site op _ stranger reported =>
    rcases reported with rfl | rfl
    · exact h.made attends follows (silent rfl) result plain fresh
        (fun member => absurd member stranger) fun _ _ => rfl
    · exact h.heard attends follows (silent rfl) result (fun member => absurd member stranger)
        fun _ _ => rfl

theorem after (h : Keeps sim star gaps c) (action : Action α)
    (plain : ∀ report, star.report? action = some report → report.isPlain)
    (fresh : ∀ x, (star.report? action).bind Report.inserted? = some x →
      ∀ s, .added x ∉ c.deeds s) :
    ∃ gaps', Keeps sim (star.after action) gaps'
      ((star.report? action).elim c (c.note star.elements)) := by
  simp only [Star.after, Star.report?] at plain fresh ⊢
  cases acted : star.act? action with
  | none => exact ⟨gaps, h⟩
  | some o =>
    have attends := h.follows.act?_attends acted
    obtain ⟨gaps', follows, history, moves, -⟩ := h.follows.act? acted
    rw [acted] at plain fresh
    refine ⟨gaps', ?_⟩
    cases result : o.result with
    | error e =>
      rw [result] at history moves
      obtain rfl : gaps' = gaps := moves
      simp only [Option.bind_some, result, Except.toOption, Option.elim_none]
      refine h.idle attends follows (history.trans (List.append_nil _)) fun t joined => ?_
      cases result.symm.trans joined
    | ok report =>
      rw [result] at history moves
      simp only [result, Option.bind_some, Except.toOption, Option.elim_some] at plain fresh ⊢
      refine h.note attends follows (history.trans ?_) result moves (plain report rfl) fresh
      exact congrArg _ (List.append_nil _)

/-- Along every schedule whose insertions are all different, the chronicle accounts for the
gaps. -/
theorem run (h : Keeps sim star gaps c) (schedule : List (Action α))
    (distinct : Distinct (star.reports schedule))
    (fresh : ∀ x ∈ (star.reports schedule).filterMap Report.inserted?, ∀ s, .added x ∉ c.deeds s) :
    ∃ gaps', Keeps sim (star.run schedule) gaps' (star.chronicle c schedule) := by
  induction schedule generalizing star gaps c with
  | nil => exact ⟨gaps, h⟩
  | cons action rest ih =>
    obtain ⟨plain, new, distinct', fresh'⟩ := distinct.of_cons fresh
    obtain ⟨gaps', h'⟩ := h.after action plain new
    exact ih h' distinct' fresh'

end Keeps

/-- In a star of any algorithm with a simulation, all documents show what their replicas know. -/
theorem Simulation.conserves (sim : Simulation S C α policy) (mode : FillMode)
    (schedule : List (Action α))
    (blank : (copy (ServerAlgorithm.start policy : S α)).document.values = [])
    (distinct : Distinct ((Star.start policy mode : Star S C α).reports schedule)) :
    (Star.start policy mode : Star S C α).Conserves schedule := by
  obtain ⟨gaps, keeps⟩ := (keeps_start sim mode (fun _ => ⟨[], [], []⟩) blank).run schedule
    distinct fun x _ s among => List.not_mem_nil among
  refine ⟨keeps.server, fun site client stays found => ?_⟩
  have seated : (((Star.start policy mode : Star S C α).run schedule).seat? site).isSome := by
    rw [Star.seat?, found]
    rfl
  have member := sim.enrolled_run mode stays seated
  have shown := (keeps.follows.spans member).1
  simp only [Star.elements, found, Option.map_some, Option.getD_some] at shown
  exact (keeps.accounts site member).client_shows shown

end Keeps

/-- In every wave or jupiter star whose sites only insert and delete, and insert each element once,
the documents of the server and of all sites that have not left hold exactly the elements whose
insertion they know and whose deletion they do not, each once. -/
theorem elements_conserved [Element α] (policy : Policy) (mode : FillMode)
    (schedule : List (Action α)) :
    (Distinct ((Star.start policy mode : Star Wave.Server Wave.Client α).reports schedule) →
      (Star.start policy mode : Star Wave.Server Wave.Client α).Conserves schedule) ∧
    (Distinct ((Star.start policy mode : Star Jupiter.Server Jupiter.Client α).reports schedule) →
      (Star.start policy mode : Star Jupiter.Server Jupiter.Client α).Conserves schedule) :=
  ⟨(Wave.simulation policy).conserves mode schedule rfl,
    (Jupiter.simulation policy).conserves mode schedule rfl⟩

/-- Both sites delete the same letter while another one is inserted before it. -/
def deletingTwice (a b : SiteId) : List (Action Char) :=
  [.join a .operationBased, .join b .stateBased, .edit a ⟨.insert 0 'x', none⟩, .up a, .down a,
    .down b, .edit a ⟨.delete 0, none⟩, .edit b ⟨.insert 0 'y', none⟩, .edit b ⟨.delete 1, none⟩,
    .up b, .down a, .up a, .down b, .down b, .up b]

theorem elements_conserved_deleted_twice :
    let schedule := deletingTwice (.ofNat 1) (.ofNat 2)
    let wave : Star Wave.Server Wave.Client Char := .start .firstWriterWins .stateBased
    let jupiter : Star Jupiter.Server Jupiter.Client Char := .start .firstWriterWins .stateBased
    wave.Conserves schedule ∧ (wave.run schedule).server.copy.document.values = ['y'] ∧
      jupiter.Conserves schedule ∧ (jupiter.run schedule).server.copy.document.values = ['y'] := by
  intro schedule wave jupiter
  have distinctW : Distinct (wave.reports schedule) := by decide +kernel
  have distinctJ : Distinct (jupiter.reports schedule) := by decide +kernel
  obtain ⟨conservesW, conservesJ⟩ := elements_conserved .firstWriterWins .stateBased schedule
  exact ⟨conservesW distinctW, by decide +kernel, conservesJ distinctJ, by decide +kernel⟩

end CoEdit
