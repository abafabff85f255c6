import CoEdit.Proofs.Recording

/-!
# Causality

Nothing in the operations says what their sites knew. That an edit reaches nobody before those that
its site knew follows from the order of the links, from the server's history, and from a fill being
taken in one step with the registration.
-/

namespace CoEdit

open ClientAlgorithm ServerAlgorithm EditId

variable {α : Type}

namespace Journal

/-- An operation of the server tells of an edit, and names its site. -/
def Heralds (journal : Journal α) (policy : Policy) (id : EditId) (op : Operation α) : Prop :=
  op.creator? = some id.site ∧ journal.Genuine policy id op

theorem Heralds.becomes {journal : Journal α} {policy : Policy} {id : EditId}
    {op op' : Operation α} (h : journal.Heralds policy id op) (later : Becomes policy op op') :
    journal.Heralds policy id op' :=
  ⟨later.creator_eq.trans h.1, h.2.becomes later⟩

/-- The journal is that of the gaps: what is on the way to a site, or on the way from it, tells of
edits that are on the way, and so does all that the server or a site has applied. -/
structure Covers (journal : Journal α) (policy : Policy) (seated member : SiteId → Prop)
    (gaps : SiteId → Gap α) (news : SiteId → List EditId) : Prop where
  orderly : journal.Orderly seated member news
  theirs : ∀ t, seated t → List.Forall₂ (journal.Heralds policy) (news t) (gaps t).theirs
  mine : ∀ t, seated t → List.Forall₂ (fun entry edit => Rewrites policy entry.1 edit)
    ((journal.made t).drop (count t journal.ids)) ((gaps t).mine.map (·.edit))
  log : ∀ entry ∈ journal.log, journal.Genuine policy entry.1 entry.2
  applied : ∀ t, ∀ entry ∈ journal.applied t, journal.Genuine policy entry.1 entry.2

namespace Covers

variable {journal : Journal α} {policy : Policy} {seated member : SiteId → Prop}
  {gaps gaps' : SiteId → Gap α} {news : SiteId → List EditId} {site : SiteId} {op : Operation α}
  {gap : Gap α}

theorem blank (policy : Policy) (gaps : SiteId → Gap α) (news : SiteId → List EditId) :
    (Journal.blank : Journal α).Covers policy (fun _ => False) (fun _ => False) gaps news where
  orderly := .blank news
  theirs _ present := present.elim
  mine _ present := present.elim
  log _ among := by cases among
  applied _ _ among := by cases among

theorem mono (h : journal.Covers policy seated member gaps news) {seated' member' : SiteId → Prop}
    (seats : ∀ t, seated' t ↔ seated t) (fewer : ∀ t, member' t → member t) :
    journal.Covers policy seated' member' gaps news :=
  { h with
    orderly := h.orderly.mono seats fewer
    theirs := fun t present => h.theirs t ((seats t).mp present)
    mine := fun t present => h.mine t ((seats t).mp present) }

theorem joined (h : journal.Covers policy seated member gaps news) (absent : ¬ seated site)
    (mine : gap.mine = []) (theirs : gap.theirs = []) :
    (journal.note (.joined site)).Covers policy (fun t => t = site ∨ seated t)
      (fun t => t = site ∨ member t) (Function.update gaps site gap)
      (Function.update news site []) := by
  refine ⟨h.orderly.joined absent, ?_, ?_, h.log, ?_⟩
  · intro t present
    rw [Function.update_apply, Function.update_apply]
    split
    · rw [theirs]
      exact .nil
    · rename_i other
      exact h.theirs t (present.resolve_left other)
  · intro t present
    rw [Function.update_apply]
    split
    · rename_i here
      have nothing : (journal.note (.joined site)).made t = [] :=
        (h.orderly.sites t).made_of_vacant (here ▸ absent)
      rw [nothing, mine, List.drop_nil]
      exact .nil
    · rename_i other
      exact h.mine t (present.resolve_left other)
  · intro t entry among
    simp only [note, Function.update_apply] at among
    split at among
    · cases among
    · exact h.applied t entry among

theorem made (h : journal.Covers policy seated member gaps news) (present : seated site) :
    (journal.note (.made site op)).Covers policy seated member
      (Function.update gaps site { gaps site with mine := (gaps site).mine ++ [op] }) news := by
  have grows : ∀ t, journal.made t <+: (journal.note (.made site op)).made t := by
    intro t
    rw [Orderly.made_made]
    split
    · rename_i here
      rw [here]
      exact List.prefix_append ..
    · exact List.prefix_rfl
  refine ⟨h.orderly.made present, ?_, ?_, fun entry among => (h.log entry among).grow grows, ?_⟩
  · intro t there
    have same : (Function.update gaps site
        { gaps site with mine := (gaps site).mine ++ [op] } t).theirs = (gaps t).theirs := by
      rw [Function.update_apply]
      split
      · rename_i here
        rw [here]
      · rfl
    rw [same]
    exact (h.theirs t there).imp fun id op ⟨signed, genuine⟩ => ⟨signed, genuine.grow grows⟩
  · intro t there
    change List.Forall₂ _ (((journal.note (.made site op)).made t).drop (count t journal.ids)) _
    rw [Orderly.made_made, Function.update_apply]
    split
    · rename_i here
      rw [here, List.drop_append_of_le_length (h.orderly.sites site).unserved, List.map_append]
      exact List.rel_append (h.mine site present) (.cons (.self policy op) .nil)
    · exact h.mine t there
  · intro t entry among
    simp only [note, Function.update_apply] at among
    split at among
    · rename_i here
      rcases List.mem_append.mp among with earlier | last
      · exact (h.applied site entry earlier).grow grows
      · rw [List.mem_singleton.mp last]
        refine ⟨op, journal.known site, ?_, .self policy op⟩
        rw [Orderly.made_made, if_pos rfl]
        exact List.getElem?_concat_length
    · exact (h.applied t entry among).grow grows

variable [Element α]

/-- What is heard tells of the edit that comes next. -/
theorem heard (h : journal.Covers policy seated member gaps news) (present : seated site)
    (moved : (gaps site).Heard policy op gap) :
    ∃ news', (journal.note (.heard site op)).Covers policy seated member
      (Function.update gaps site gap) news' := by
  obtain ⟨b, oldest, -, past⟩ := moved
  have theirs := h.theirs site present
  rw [oldest] at theirs
  generalize coming : news site = ids at theirs
  cases theirs with
  | @cons id _ rest _ herald others =>
    obtain ⟨becomes, rewritten⟩ := Becomes.of_transformPast past
    obtain ⟨signed, genuine⟩ := herald.becomes becomes
    obtain ⟨other, -, next⟩ := h.orderly.next_eq present coming
    have orderly := h.orderly.heard present coming signed
    rw [Orderly.note_heard signed other] at orderly ⊢
    refine ⟨_, orderly, ?_, ?_, h.log, ?_⟩
    · intro t there
      rw [Function.update_apply, Function.update_apply]
      split
      · exact others
      · exact h.theirs t there
    · intro t there
      rw [Function.update_apply]
      split
      · rename_i here
        rw [here]
        have before := h.mine site present
        rw [List.forall₂_map_right_iff] at before ⊢
        exact forall₂_comp before rewritten fun _ _ _ => Rewrites.becomes
      · exact h.mine t there
    · intro t entry among
      simp only [Function.update_apply] at among
      split at among
      · rcases List.mem_append.mp among with earlier | last
        · exact h.applied site entry earlier
        · rw [List.mem_singleton.mp last, ← next]
          exact genuine
      · exact h.applied t entry among

omit [Element α] in
/-- An echo tells nothing new. -/
theorem echoed (h : journal.Covers policy seated member gaps news) (own : op.creator? = some site)
    (mine : gap.mine.map (·.edit) = (gaps site).mine.map (·.edit))
    (theirs : gap.theirs = (gaps site).theirs) :
    (journal.note (.heard site op)).Covers policy seated member (Function.update gaps site gap)
      news := by
  have same : journal.note (.heard site op) = journal := by
    simp only [note, own, if_true]
  rw [same]
  refine ⟨h.orderly, fun t there => ?_, fun t there => ?_, h.log, h.applied⟩
  · rw [Function.update_apply]
    split
    · rename_i here
      rw [theirs, here]
      exact h.theirs site (here ▸ there)
    · exact h.theirs t there
  · rw [Function.update_apply]
    split
    · rename_i here
      rw [mine, here]
      exact h.mine site (here ▸ there)
    · exact h.mine t there

/-- What the server takes in tells of the next edit of the site, and so does what it relays. -/
theorem served (h : journal.Covers policy seated member gaps news) (present : seated site)
    (known : member site) (moved : (gaps site).Served policy op (gaps' site))
    (relayed : ∀ t, member t → t ≠ site → ∃ relay : Operation α, relay.edit = op.edit ∧
      relay.creator? = some site ∧
      gaps' t = { gaps t with theirs := (gaps t).theirs ++ [relay] })
    (gone : ∀ t, ¬ member t → gaps' t = gaps t) :
    ∃ news', (journal.note (.served site op)).Covers policy seated member gaps' news' := by
  classical
  obtain ⟨a, oldest, -, past⟩ := moved
  have mine := h.mine site present
  rw [oldest, List.map_cons] at mine
  generalize left : (journal.made site).drop (count site journal.ids) = entries at mine
  cases mine with
  | @cons entry _ rest _ rewrites others =>
    have more : count site journal.ids < (journal.made site).length := by
      by_contra none
      rw [List.drop_eq_nil_of_le (Nat.le_of_not_lt none)] at left
      cases left
    rw [List.drop_eq_getElem_cons more] at left
    obtain ⟨first, later⟩ := List.cons.inj left
    obtain ⟨becomes, rewritten⟩ := Becomes.of_transformPast past
    have genuine : journal.Genuine policy (.next journal.ids site) op :=
      ⟨entry.1, entry.2, List.getElem?_eq_some_iff.mpr ⟨more, first⟩, rewrites.becomes becomes⟩
    have ids : (journal.note (.served site op)).ids = journal.ids ++ [.next journal.ids site] :=
      List.map_append
    let news' : SiteId → List EditId := fun t =>
      if member t ∧ t ≠ site then news t ++ [.next journal.ids site] else news t
    have told : ∀ t, member t → t ≠ site → news' t = news t ++ [.next journal.ids site] :=
      fun t there other => if_pos ⟨there, other⟩
    have self : news' site = news site := if_neg fun other => other.2 rfl
    have silent : ∀ t, ¬ member t → news' t = news t := fun t stranger =>
      if_neg fun there => stranger there.1
    refine ⟨news', h.orderly.served known more self told silent, ?_, ?_, ?_, h.applied⟩
    · intro t there
      by_cases here : t = site
      · subst here
        rw [self]
        exact forall₂_comp (h.theirs t there) rewritten fun _ _ _ => Heralds.becomes
      · by_cases among : member t
        · obtain ⟨relay, edit, signed, longer⟩ := relayed t among here
          have herald : journal.Heralds policy (.next journal.ids site) relay :=
            ⟨signed, genuine.of_edit edit⟩
          rw [told t among here, longer]
          exact List.rel_append (h.theirs t there) (.cons herald .nil)
        · rw [silent t among, gone t among]
          exact h.theirs t there
    · intro t there
      rw [ids]
      by_cases here : t = site
      · subst here
        rw [count_snoc_self]
        exact later ▸ others
      · rw [count_snoc_other (Ne.symm here)]
        have same : (gaps' t).mine = (gaps t).mine := by
          by_cases among : member t
          · obtain ⟨relay, -, -, longer⟩ := relayed t among here
            rw [longer]
          · rw [gone t among]
        rw [same]
        exact h.mine t there
    · intro entry' among
      rcases List.mem_append.mp among with earlier | last
      · exact h.log entry' earlier
      · rw [List.mem_singleton.mp last]
        exact genuine

/-- The journal goes on as the gaps do. -/
theorem stir {report : Report α} (h : journal.Covers policy seated member gaps news)
    (stirs : Stirs policy seated member gaps report gaps') (staffed : ∀ t, member t → seated t)
    {seated' member' : SiteId → Prop} (seats : ∀ t, seated' t ↔ report = .joined t ∨ seated t)
    (fewer : ∀ t, member' t → report = .joined t ∨ member t) :
    ∃ news', (journal.note report).Covers policy seated' member' gaps' news' := by
  have stay : (∀ t, report ≠ .joined t) → ∀ {journal' : Journal α},
      (∃ news', journal'.Covers policy seated member gaps' news') →
        ∃ news', journal'.Covers policy seated' member' gaps' news' :=
    fun nobody _ ⟨news', covers⟩ => ⟨news', covers.mono
      (fun t => (seats t).trans (or_iff_right (nobody t)))
      fun t there => (fewer t there).resolve_left (nobody t)⟩
  cases stirs with
  | @joined site gap absent mine theirs =>
    have new : ∀ t, (.joined site : Report α) = .joined t ↔ t = site := by
      intro t
      rw [Report.joined.injEq]
      exact eq_comm
    refine ⟨_, (h.joined absent mine theirs).mono (fun t => ?_) fun t there => ?_⟩
    · rw [seats, new]
    · rw [← new]
      exact fewer t there
  | left => exact stay (fun t => nofun) ⟨news, h⟩
  | made present => exact stay (fun t => nofun) ⟨news, h.made present⟩
  | heard present foreign moved => exact stay (fun t => nofun) (h.heard present moved)
  | echoed present own mine theirs =>
    exact stay (fun t => nofun) ⟨news, h.echoed own mine theirs⟩
  | @served site _ _ known moved relayed gone =>
    exact stay (fun t => nofun) (h.served (staffed site known) known moved relayed gone)

end Covers

/-- No edit is known anywhere without all that its site knew when it was made, and where both came
one by one, what was known came first. -/
structure Causal (journal : Journal α) : Prop where
  distinct : journal.ids.Nodup ∧ ∀ t, (journal.known t).Nodup
  served : ∀ a b, journal.Before a b → b ∈ journal.ids → List.Sublist [a, b] journal.ids
  known : ∀ t a b, journal.Before a b → b ∈ journal.known t → a ∈ journal.known t
  applied : ∀ t a b, journal.Before a b → a ∈ (journal.applied t).map Prod.fst →
    b ∈ (journal.applied t).map Prod.fst → List.Sublist [a, b] ((journal.applied t).map Prod.fst)

theorem Orderly.causal {journal : Journal α} {seated member : SiteId → Prop}
    {news : SiteId → List EditId} (h : journal.Orderly seated member news) : journal.Causal := by
  refine ⟨⟨h.log.nodup, fun t => (h.sites t).known.nodup⟩, h.leads_log, ?_, ?_⟩
  · intro t a b before among
    exact (h.leads_known t a b before among).subset List.mem_cons_self
  · intro t a b before first second
    have tail : ((journal.applied t).map Prod.fst).Sublist (journal.known t) :=
      List.sublist_append_right ..
    have ordered := h.leads_known t a b before (tail.subset second)
    have apart : a ≠ b := by
      rintro rfl
      exact not_sublist_swap (h.sites t).known.nodup ordered ordered
    refine (sublist_or_swap first second apart).resolve_right fun swapped => ?_
    exact not_sublist_swap (h.sites t).known.nodup ordered (swapped.trans tail)

end Journal

namespace Star

variable {S C : Type → Type} [ServerAlgorithm S] [ClientAlgorithm C] [Element α]

/-- The journal of a schedule. -/
def journal (start : Star S C α) (schedule : List (Action α)) : Journal α :=
  (start.reports schedule).foldl .note .blank

/-- At the end of a schedule the journal says what the replicas have recorded, each entry is what
became of an operation that was made, and nothing is known before what its site knew. -/
structure KeepsCausality (policy : Policy) (start : Star S C α) (schedule : List (Action α)) :
    Prop where
  recorded : (start.run schedule).Recorded (start.journal schedule)
  genuine : ∀ entry, (entry ∈ (start.journal schedule).log ∨
    ∃ t, entry ∈ (start.journal schedule).applied t) →
      (start.journal schedule).Genuine policy entry.1 entry.2
  causal : (start.journal schedule).Causal

end Star

namespace Simulation

variable {S C : Type → Type} [ServerAlgorithm S] [ClientAlgorithm C] [Element α] {policy : Policy}
  (sim : Simulation S C α policy)

/-- The journal is that of the star. -/
structure Accounts (star : Star S C α) (journal : Journal α) : Prop where
  recorded : star.Recorded journal
  covers : ∃ gaps news, sim.Watches star gaps ∧
    journal.Covers policy (fun t => (star.seat? t).isSome) (· ∈ sites star.server) gaps news

namespace Accounts

variable {sim} {star : Star S C α} {journal : Journal α}

theorem start (records : sim.Records) (mode : FillMode) :
    sim.Accounts (.start policy mode : Star S C α) .blank := by
  constructor
  · constructor
    · change (copy (ServerAlgorithm.start policy : S α)).history = []
      rw [records.server.copy_start]
      rfl
    · intro entry among
      cases among
    · intro t
      exact List.prefix_rfl
    · intro t seat seated
      cases seated
  · refine ⟨fun _ => ⟨[], [], []⟩, fun _ => [], ⟨sim.follows_start mode _, ?_⟩,
      (Journal.Covers.blank policy _ _).mono ?_ ?_⟩
    · intro t seat seated
      cases seated
    · intro t
      exact iff_of_false Bool.false_ne_true id
    · intro t among
      change t ∈ sites (ServerAlgorithm.start policy : S α) at among
      rw [sim.start_sites] at among
      cases among

theorem act? (h : sim.Accounts star journal) (discreet : sim.Discreet) (records : sim.Records)
    {action : Action α} {o : Outcome (Star S C α) α (Report α)}
    (acted : star.act? action = some o) :
    sim.Accounts o.state (o.result.toOption.toList.foldl .note journal) := by
  obtain ⟨gaps, news, watches, covers⟩ := h.covers
  obtain ⟨gaps', watches', stirs⟩ := watches.act? discreet acted
  have attends := watches.follows.act?_attends acted
  refine ⟨h.recorded.act? records watches acted, gaps', ?_⟩
  cases result : o.result with
  | error e =>
    rw [result] at stirs
    cases stirs
    refine ⟨news, watches', covers.mono (fun t => ?_) fun t known => ?_⟩
    · rw [attends.seats, result, or_iff_right nofun]
    · exact (attends.known t known).resolve_left (by rw [result]; nofun)
  | ok report =>
    rw [result] at stirs
    have same : ∀ t, o.result = .ok (.joined t) ↔ report = .joined t := by
      intro t
      rw [result, Except.ok.injEq]
    obtain ⟨news', covers'⟩ := covers.stir stirs (fun t => watches.follows.isSome_of_member)
      (fun t => (attends.seats t).trans (or_congr_left (same t)))
      fun t known => (attends.known t known).imp_left (same t).mp
    exact ⟨news', watches', covers'⟩

theorem run (h : sim.Accounts star journal) (discreet : sim.Discreet) (records : sim.Records)
    (schedule : List (Action α)) :
    sim.Accounts (star.run schedule) ((star.reports schedule).foldl .note journal) := by
  induction schedule generalizing star journal with
  | nil => exact h
  | cons action rest ih =>
    rw [Star.reports, List.foldl_append]
    refine ih ?_
    simp only [Star.after, Star.report?]
    cases acted : star.act? action with
    | none => exact h
    | some o => exact h.act? discreet records acted

end Accounts

/-- Along every schedule causality is kept. -/
theorem keepsCausality (discreet : sim.Discreet) (records : sim.Records) (mode : FillMode)
    (schedule : List (Action α)) :
    (.start policy mode : Star S C α).KeepsCausality policy schedule := by
  obtain ⟨recorded, gaps, news, -, covers⟩ :=
    (Accounts.start records mode).run discreet records schedule
  refine ⟨recorded, fun entry among => ?_, covers.orderly.causal⟩
  rcases among with logged | ⟨t, applied⟩
  · exact covers.log entry logged
  · exact covers.applied t entry applied

end Simulation

/-- In every wave or jupiter star, at the server and at every site, whether it has left or not, an
edit is known only together with all that its site knew when it was made, and is applied after it.
-/
theorem causality_preserved [Element α] (policy : Policy) (mode : FillMode)
    (schedule : List (Action α)) :
    (.start policy mode : Star Wave.Server Wave.Client α).KeepsCausality policy schedule ∧
      (.start policy mode : Star Jupiter.Server Jupiter.Client α).KeepsCausality policy
        schedule := by
  constructor
  · exact (Wave.simulation policy).keepsCausality (Wave.discreet policy) (Wave.records policy) mode
      schedule
  · exact (Jupiter.simulation policy).keepsCausality (Jupiter.discreet policy)
      (Jupiter.records policy) mode schedule

/-- The second site answers what the first one wrote, and the first one answers that. The third site
joins when the first answer is on its way. -/
def answers (a b c : SiteId) : List (Action Char) :=
  [.join a .stateBased, .join b .stateBased, .edit a ⟨.insert 0 'x', none⟩, .up a, .down b,
    .edit b ⟨.insert 1 'y', none⟩, .join c .operationBased, .up b, .down a, .down a,
    .edit a ⟨.insert 2 'z', none⟩, .up a, .down c, .down c]

theorem causality_preserved_answers :
    let a : SiteId := .ofNat 1
    let b : SiteId := .ofNat 2
    let c : SiteId := .ofNat 3
    let schedule := answers a b c
    let wave : Star Wave.Server Wave.Client Char := .start .lastWriterWins .stateBased
    let jupiter : Star Jupiter.Server Jupiter.Client Char := .start .lastWriterWins .stateBased
    wave.KeepsCausality .lastWriterWins schedule ∧
      jupiter.KeepsCausality .lastWriterWins schedule ∧
      ∀ journal ∈ [wave.journal schedule, jupiter.journal schedule],
        journal.Before ⟨a, 0⟩ ⟨b, 0⟩ ∧ journal.Before ⟨b, 0⟩ ⟨a, 1⟩ ∧
          journal.filled c = [⟨a, 0⟩] ∧ (journal.applied c).map Prod.fst = [⟨b, 0⟩, ⟨a, 1⟩] := by
  intro a b c schedule wave jupiter
  obtain ⟨keptW, keptJ⟩ := causality_preserved .lastWriterWins .stateBased schedule
  refine ⟨keptW, keptJ, ?_⟩
  decide +kernel

end CoEdit
