import CoEdit.Proofs.Knowledge

/-!
# Order agreement

As long as sites only insert and delete, and never insert the same thing twice, no two elements are
ever seen to swap: whatever the server and the sites show, at whatever moments, two elements that
are in both documents stand in the same order in both (`order_agrees`).

Along a schedule a relation is built up that orders every document shown so far (`Orders`). It grows
where a document brings two elements together for the first time. What makes this possible is that
it says nothing of an element that a site has not sent yet and one that this site has not heard of
(`Decides.strange`): only such pairs are decided when the two sides of a gap meet.
-/

namespace CoEdit

open ClientAlgorithm ServerAlgorithm

variable {α : Type}

namespace Star

variable {S C : Type → Type} [ServerAlgorithm S] [ClientAlgorithm C]

/-- The server or a registered site shows these elements. -/
def Shown (star : Star S C α) (xs : List α) : Prop :=
  xs = (copy star.server).document.values ∨ ∃ site ∈ sites star.server, xs = star.elements site

variable [Element α]

/-- The server, or a site that has not left, shows these elements at the end of a schedule. -/
def Displays (start : Star S C α) (schedule : List (Action α)) (xs : List α) : Prop :=
  xs = (copy (start.run schedule).server).document.values ∨
    ∃ site client, .leave site ∉ schedule ∧
      (start.run schedule).clients.get? site = some client ∧ xs = (copy client).document.values

/-- Of whatever is displayed at two moments of a schedule, two elements that are in both documents
stand in the same order. -/
def KeepsOrder (start : Star S C α) (schedule : List (Action α)) : Prop :=
  ∀ before before', before <+: schedule → before' <+: schedule →
    ∀ xs ys, start.Displays before xs → start.Displays before' ys →
      ∀ x y, [x, y].Sublist xs → x ∈ ys → y ∈ ys → [x, y].Sublist ys

end Star

/-- No pair is decided both ways, none with an element that nobody has added, and none of an
element that a site has still to send and one that this site has not heard of. -/
structure Decides (members : List SiteId) (c : Chronicle α) (R : α → α → Prop) : Prop where
  asymm : ∀ x y, R x y → ¬ R y x
  noted : ∀ x y, R x y ∨ R y x → ∃ s, .added x ∈ c.deeds s
  met : ∀ s ∈ members, ∀ x y, R x y ∨ R y x → .added x ∈ (c.deeds s).drop (c.server s) →
    .added y ∈ known c.deeds (c.client s)

namespace Decides

variable {members members' : List SiteId} {c : Chronicle α} {R : α → α → Prop} {site : SiteId}
  {x y : α}

theorem strange (h : Decides members c R) (member : site ∈ members)
    (pending : .added x ∈ (c.deeds site).drop (c.server site))
    (unknown : .added y ∉ known c.deeds (c.client site)) : ¬ R x y ∧ ¬ R y x :=
  ⟨fun before => unknown (h.met site member x y (.inl before) pending),
    fun after => unknown (h.met site member x y (.inr after) pending)⟩

/-- What happens does not touch the pairs that are decided. -/
theorem note {report : Report α} (h : Decides members c R) (elements : SiteId → List α)
    (bounded : ∀ s, c.server s ≤ (c.deeds s).length)
    (vacant : ∀ s, report = .joined s → c.deeds s = [])
    (known_before : ∀ s ∈ members', report = .joined s ∨ s ∈ members)
    (fresh : ∀ x, report.inserted? = some x → ∀ s, .added x ∉ c.deeds s) :
    Decides members' (c.note elements report) R := by
  refine ⟨h.asymm, fun x y decided => ?_, fun s member x y decided pending => ?_⟩
  · obtain ⟨s, there⟩ := h.noted x y decided
    exact ⟨s, (c.prefix_note elements report s).subset there⟩
  · obtain ⟨t, there⟩ := h.noted x y decided
    have before : .added x ∈ (c.deeds s).drop (c.server s) :=
      (Chronicle.pending_of_note bounded pending).resolve_right fun new => fresh x new t there
    have old : report ≠ .joined s := by
      intro new
      rw [vacant s new, List.drop_nil] at before
      cases before
    exact known_mono (c.prefix_note elements report) (c.client_le_note elements old)
      (h.met s ((known_before s member).resolve_left old) x y decided before)

end Decides

section Crossing

variable [Element α] {policy : Policy} {deeds : SiteId → List (Deed α)}
  {server server' client client' : SiteId → Nat} {site : SiteId} {gap gap' : Gap α}
  {op : Operation α} {R R' : α → α → Prop}

/-- The documents between what a site and the server have in common and what either of them shows
stand in order. -/
def Gap.Ordered (R : α → α → Prop) (gap : Gap α) : Prop :=
  Along R gap.shared gap.mine ∧ Along R gap.shared gap.theirs

theorem Gap.Ordered.imp (h : gap.Ordered R) (grows : ∀ x y, R x y → R' x y) : gap.Ordered R' :=
  ⟨h.1.imp grows, h.2.imp grows⟩

/-- When a site makes an operation, pairs are decided that it shows side by side then. -/
theorem Gap.Ordered.made {noted : Set (Deed α)} {xs ys : List α} {d : Deed α}
    (h : gap.Ordered R) (asymm : ∀ x y, R x y → ¬ R y x)
    (before : Operation.effects? gap.mine gap.shared = some xs) (does : Does noted xs op.edit d)
    (effect : op.effect? xs = some ys) (nodup : ys.Nodup)
    (strange : ∀ x y, d = .added x → ¬ R x y ∧ ¬ R y x) :
    ∃ R' : α → α → Prop, (∀ x y, R' x y → ¬ R' y x) ∧ (∀ x y, R x y → R' x y) ∧
      (∀ x y, R' x y → R x y ∨ x ∈ ys ∧ y ∈ ys) ∧
      ({ gap with mine := gap.mine ++ [op] } : Gap α).Ordered R' := by
  obtain ⟨mine, theirs⟩ := h
  have sorted := List.Pairwise.and_mem.mp (does.pairwise effect (mine.last before))
  obtain ⟨R', asymm', grows, only, sorted'⟩ := exists_order_extending
    (fun x y => (d = .added x ∨ d = .added y) ∧ x ∈ ys ∧ y ∈ ys) asymm nodup
    (fun x y new => ⟨new.1.symm, new.2.symm⟩)
    (fun x y new => new.1.elim (fun adds => (strange x y adds).1) fun adds => (strange y x adds).2)
    (sorted.imp fun pair => pair.2.2.imp_right fun adds => ⟨adds, pair.1, pair.2.1⟩)
  exact ⟨R', asymm', grows, fun x y decided => (only x y decided).imp_right And.right,
    (mine.imp grows).append before effect sorted', theirs.imp grows⟩

namespace Accounts

/-- When a site hears of an operation, pairs are decided of which it knows both elements then. -/
theorem heard_ordered (h : Accounts deeds server client site gap) (apart : Apart deeds)
    (after : Accounts deeds server client' site gap') (ordered : gap.Ordered R)
    (asymm : ∀ x y, R x y → ¬ R y x)
    (strange : ∀ x y, .added x ∈ (deeds site).drop (server site) →
      .added y ∉ known deeds client → ¬ R x y ∧ ¬ R y x)
    (moved : gap.Heard policy op gap') :
    ∃ R' : α → α → Prop, (∀ x y, R' x y → ¬ R' y x) ∧ (∀ x y, R x y → R' x y) ∧
      (∀ x y, R' x y → R x y ∨
        .added x ∈ known deeds client' ∧ .added y ∈ known deeds client') ∧
      gap'.Ordered R' := by
  obtain ⟨b, oldest, first, past⟩ := moved
  obtain ⟨news, all, -, tells⟩ := h.theirs
  obtain ⟨mine, theirs⟩ := ordered
  rw [oldest] at theirs
  have others := theirs.of_cons first
  have unknown : ∀ x, .added x ∈ news.map Prod.snd → .added x ∉ known deeds client :=
    fun x => h.news_unknown apart all tells
  rw [oldest] at tells
  generalize news.map Prod.snd = ds at tells unknown
  cases tells with
  | @cons _ _ _ _ _ d ds does first' rest =>
    have new : ∀ x, d = .added x → .added x ∉ known deeds client :=
      fun x same => unknown x (same ▸ List.mem_cons_self)
    have undecided : ∀ x y, Meets d ((deeds site).drop (server site)) x y → ¬ R x y := by
      rintro x y (⟨this, that⟩ | ⟨this, that⟩)
      · exact (strange y x that (new x this)).2
      · exact (strange x y that (new y this)).1
    obtain ⟨R', asymm', grows, only, along⟩ := mine.pass h.mine asymm does
      (fun x same pending => new x same (h.known_of_pending pending)) first others.start undecided
      past
    refine ⟨R', asymm', grows, fun x y decided => (only x y decided).imp_right fun meet => ?_,
      along, others.imp grows⟩
    have arrived : ∀ x, d = .added x → .added x ∈ known deeds client' := by
      rintro x rfl
      have there := (after.shared.mem_iff x).mp (does.mem_of_added first)
      exact known_le (fun s => Nat.min_le_right ..) there.1
    rcases meet with ⟨this, that⟩ | ⟨this, that⟩
    · exact ⟨arrived x this, after.known_of_pending that⟩
    · exact ⟨after.known_of_pending that, arrived y this⟩

/-- When the server takes in an operation, pairs are decided of which it knows both elements
then. -/
theorem served_ordered (h : Accounts deeds server client site gap) (apart : Apart deeds)
    (after : Accounts deeds server' client site gap') (more : ∀ s, server s ≤ server' s)
    (ordered : gap.Ordered R) (asymm : ∀ x y, R x y → ¬ R y x)
    (strange : ∀ x y, .added x ∈ (deeds site).drop (server site) →
      .added y ∉ known deeds client → ¬ R x y ∧ ¬ R y x)
    (moved : gap.Served policy op gap') :
    ∃ R' : α → α → Prop, (∀ x y, R' x y → ¬ R' y x) ∧ (∀ x y, R x y → R' x y) ∧
      (∀ x y, R' x y → R x y ∨
        .added x ∈ known deeds server' ∧ .added y ∈ known deeds server') ∧
      gap'.Ordered R' := by
  obtain ⟨a, oldest, first, past⟩ := moved
  obtain ⟨news, all, -, tells⟩ := h.theirs
  obtain ⟨mine, theirs⟩ := ordered
  rw [oldest] at mine
  have others := mine.of_cons first
  have unknown : ∀ x, .added x ∈ news.map Prod.snd → .added x ∉ known deeds client :=
    fun x => h.news_unknown apart all tells
  have unsent : ∀ x, .added x ∈ (deeds site).drop (server site) → .added x ∉ known deeds server :=
    fun x => h.pending_unknown apart
  have sends := h.mine
  rw [oldest] at sends
  generalize (deeds site).drop (server site) = pending at sends strange unsent
  cases sends with
  | @cons _ _ _ _ _ d ds does first' rest =>
    have sent : ∀ x, d = .added x → .added x ∈ d :: ds :=
      fun x same => same ▸ List.mem_cons_self
    have undecided : ∀ x y, Meets d (news.map Prod.snd) x y → ¬ R x y := by
      rintro x y (⟨this, that⟩ | ⟨this, that⟩)
      · exact (strange x y (sent x this) (unknown y that)).1
      · exact (strange y x (sent y this) (unknown x that)).2
    obtain ⟨R', asymm', grows, only, along⟩ := theirs.pass tells asymm does
      (fun x same new => unsent x (sent x same) (all.known_of_mem new)) first others.start undecided
      past
    refine ⟨R', asymm', grows, fun x y decided => (only x y decided).imp_right fun meet => ?_,
      others.imp grows, along⟩
    have arrived : ∀ x, d = .added x → .added x ∈ known deeds server' := by
      rintro x rfl
      have there := (after.shared.mem_iff x).mp (does.mem_of_added first)
      exact known_le (fun s => Nat.min_le_left ..) there.1
    have before : ∀ y, .added y ∈ news.map Prod.snd → .added y ∈ known deeds server' :=
      fun y new => known_le more (all.known_of_mem new)
    rcases meet with ⟨this, that⟩ | ⟨this, that⟩
    · exact ⟨arrived x this, before y that⟩
    · exact ⟨before x that, arrived y this⟩

end Accounts

end Crossing

section Orders

variable {S C : Type → Type} [ServerAlgorithm S] [ClientAlgorithm C] [Element α] {policy : Policy}
  {sim : Simulation S C α policy} {star star' : Star S C α} {gaps gaps' : SiteId → Gap α}
  {c c' : Chronicle α} {R R' : α → α → Prop} {site : SiteId} {x y : α}

/-- Pairs are decided of which some replica knows both elements. -/
theorem Decides.extend (h : Decides (sites star.server) c R) (keeps : Keeps sim star gaps c)
    (asymm : ∀ x y, R' x y → ¬ R' y x)
    (only : ∀ x y, R' x y → R x y ∨ c.Together (sites star.server) x y) :
    Decides (sites star.server) c R' := by
  have either : ∀ x y, R' x y ∨ R' y x →
      (R x y ∨ R y x) ∨ c.Together (sites star.server) x y := by
    rintro x y (decided | decided)
    · exact (only x y decided).imp_left .inl
    · exact (only y x decided).imp .inr .symm
  refine ⟨asymm, fun x y decided => ?_, fun s member x y decided pending => ?_⟩
  · rcases either x y decided with before | together
    · exact h.noted x y before
    · exact together.noted
  · rcases either x y decided with before | ⟨t, elsewhere, hx, hy⟩ | ⟨hx, -⟩
    · exact h.met s member x y before pending
    · have unsent := (keeps.accounts s member).pending_unknown keeps.apart pending
      have own := ((keeps.accounts t elsewhere).known_server_or_pending hx).resolve_left unsent
      obtain rfl := keeps.apart _ _ x (List.mem_of_mem_drop pending) (List.mem_of_mem_drop own)
      exact hy
    · exact absurd hx ((keeps.accounts s member).pending_unknown keeps.apart pending)

/-- All that the replicas of a star show stands in the order of `R`. -/
structure Orders (sim : Simulation S C α policy) (star : Star S C α) (gaps : SiteId → Gap α)
    (c : Chronicle α) (R : α → α → Prop) : Prop where
  keeps : Keeps sim star gaps c
  decides : Decides (sites star.server) c R
  server : (copy star.server).document.values.Pairwise R
  ordered : ∀ s ∈ sites star.server, (gaps s).Ordered R

namespace Orders

variable {action : Action α} {o : Outcome (Star S C α) α (Report α)} {op : Operation α}

theorem shown {xs : List α} (h : Orders sim star gaps c R) (shown : star.Shown xs) :
    xs.Pairwise R := by
  rcases shown with rfl | ⟨site, member, rfl⟩
  · exact h.server
  · exact (h.ordered site member).1.last (h.keeps.follows.spans member).1

/-- Nothing new is shown. -/
theorem silent (h : Orders sim star gaps c R) (keeps : Keeps sim star' gaps' c')
    (decides : Decides (sites star'.server) c' R)
    (history : (copy star'.server).history = (copy star.server).history)
    (ordered : ∀ s ∈ sites star'.server, (gaps' s).Ordered R) :
    Orders sim star' gaps' c' R := by
  refine ⟨keeps, decides, ?_, ordered⟩
  rw [h.keeps.document_same keeps.follows history]
  exact h.server

/-- Nothing new is shown, though a gap is another one. -/
theorem silent_update {gap : Gap α} (h : Orders sim star gaps c R)
    (keeps : Keeps sim star' (Function.update gaps site gap) c')
    (decides : Decides (sites star'.server) c' R)
    (history : (copy star'.server).history = (copy star.server).history)
    (others : ∀ s ∈ sites star'.server, s ≠ site → (gaps s).Ordered R)
    (here : site ∈ sites star'.server → gap.Ordered R) :
    Orders sim star' (Function.update gaps site gap) c' R := by
  refine h.silent keeps decides history fun s member => ?_
  by_cases same : s = site
  · subst s
    rw [Function.update_self]
    exact here member
  · rw [Function.update_of_ne same]
    exact others s member same

/-- Pairs are decided in one gap only, of which some replica knows both elements. -/
theorem grown {gap : Gap α} (h : Orders sim star gaps c R)
    (keeps : Keeps sim star' (Function.update gaps site gap) c')
    (decides : Decides (sites star'.server) c' R)
    (history : (copy star'.server).history = (copy star.server).history)
    (still : ∀ t ∈ sites star'.server, t ∈ sites star.server) (asymm : ∀ x y, R' x y → ¬ R' y x)
    (grows : ∀ x y, R x y → R' x y)
    (only : ∀ x y, R' x y → R x y ∨ c'.Together (sites star'.server) x y)
    (ordered : gap.Ordered R') :
    Orders sim star' (Function.update gaps site gap) c' R' := by
  refine ⟨keeps, decides.extend keeps asymm only, ?_, fun t known => ?_⟩
  · rw [h.keeps.document_same keeps.follows history]
    exact h.server.imp (grows _ _)
  · by_cases here : t = site
    · subst t
      rw [Function.update_self]
      exact ordered
    · rw [Function.update_of_ne here]
      exact (h.ordered t (still t known)).imp grows

/-- A site makes an operation: what it adds is now shown beside all that the site shows. -/
theorem made (h : Orders sim star gaps c R)
    (keeps : Keeps sim star'
      (Function.update gaps site { gaps site with mine := (gaps site).mine ++ [op] }) c')
    (decides : Decides (sites star'.server) c' R)
    (history : (copy star'.server).history = (copy star.server).history)
    (still : ∀ t ∈ sites star'.server, t ∈ sites star.server) (member : site ∈ sites star'.server)
    (plain : (Report.made site op).isPlain)
    (fresh : ∀ x, (Report.made site op).inserted? = some x → ∀ s, .added x ∉ c.deeds s) :
    ∃ R' : α → α → Prop, (∀ x y, R x y → R' x y) ∧
      Orders sim star'
        (Function.update gaps site { gaps site with mine := (gaps site).mine ++ [op] }) c' R' := by
  have before := h.keeps.follows.spans (still site member)
  have after := keeps.follows.spans member
  have shows_here := keeps.accounts site member
  rw [Function.update_self] at after shows_here
  have effect := before.made_last after
  have shown := shows_here.client_shows after.1
  have isnt_there : ∀ x, op.edit.deed (star.elements site) = .added x →
      ∀ s, .added x ∉ c.deeds s := by
    intro x adds
    obtain ⟨edit, stamp⟩ := op
    obtain ⟨p, rfl⟩ := Edit.deed_eq_added adds
    exact fresh x rfl
  have does : Does (known c.deeds (c.client site)) (star.elements site) op.edit
      (op.edit.deed (star.elements site)) := by
    refine .of_effect? (by simpa [Report.isPlain] using plain) (fun p x edit among => ?_) effect
    obtain ⟨s, among⟩ := among
    exact isnt_there x (by rw [edit]; rfl) s (List.mem_of_mem_take among)
  have apart : ∀ x y, op.edit.deed (star.elements site) = .added x → ¬ R x y ∧ ¬ R y x := by
    intro x y adds
    constructor <;> intro decided
    · obtain ⟨s, there⟩ := h.decides.noted x y (.inl decided)
      exact isnt_there x adds s there
    · obtain ⟨s, there⟩ := h.decides.noted x y (.inr decided)
      exact isnt_there x adds s there
  obtain ⟨R', asymm, grows, only, ordered⟩ :=
    (h.ordered site (still site member)).made h.decides.asymm before.1 does effect shown.nodup apart
  refine ⟨R', grows, h.grown keeps decides history still asymm grows
    (fun x y decided => ?_) ordered⟩
  refine (only x y decided).imp_right fun new => .inl ⟨site, member, ?_, ?_⟩
  · exact ((shown.mem_iff x).mp new.1).1
  · exact ((shown.mem_iff y).mp new.2).1

/-- A site hears of an operation of another one. -/
theorem heard {gap : Gap α} (h : Orders sim star gaps c R)
    (keeps : Keeps sim star' (Function.update gaps site gap)
      (c.note star.elements (.heard site op)))
    (decides : Decides (sites star'.server) (c.note star.elements (.heard site op)) R)
    (history : (copy star'.server).history = (copy star.server).history)
    (still : ∀ t ∈ sites star'.server, t ∈ sites star.server) (member : site ∈ sites star'.server)
    (moved : (gaps site).Heard policy op gap) :
    ∃ R' : α → α → Prop, (∀ x y, R x y → R' x y) ∧
      Orders sim star' (Function.update gaps site gap)
        (c.note star.elements (.heard site op)) R' := by
  obtain ⟨deeds, server, -, -⟩ := c.note_heard star.elements site op
  have after := keeps.accounts site member
  rw [deeds, server, Function.update_self] at after
  obtain ⟨R', asymm, grows, only, ordered⟩ :=
    (h.keeps.accounts site (still site member)).heard_ordered h.keeps.apart after
      (h.ordered site (still site member)) h.decides.asymm
      (fun x y => h.decides.strange (still site member)) moved
  refine ⟨R', grows, h.grown keeps decides history still asymm grows
    (fun x y decided => ?_) ordered⟩
  refine (only x y decided).imp_right fun both_known => .inl ⟨site, member, ?_⟩
  rw [deeds]
  exact both_known

/-- The server takes in an operation, and sends it to the other sites. -/
theorem served (h : Orders sim star gaps c R)
    (keeps : Keeps sim star' gaps' (c.note star.elements (.served site op)))
    (decides : Decides (sites star'.server) (c.note star.elements (.served site op)) R)
    (still : ∀ t ∈ sites star'.server, t ∈ sites star.server) (member : site ∈ sites star'.server)
    (moved : (gaps site).Served policy op (gaps' site))
    (relayed : ∀ t ∈ sites star.server, t ≠ site → ∃ relay : Operation α, relay.edit = op.edit ∧
      relay.creator? = some site ∧
      gaps' t = { gaps t with theirs := (gaps t).theirs ++ [relay] }) :
    ∃ R' : α → α → Prop, (∀ x y, R x y → R' x y) ∧
      Orders sim star' gaps' (c.note star.elements (.served site op)) R' := by
  obtain ⟨R', asymm, grows, only, ordered⟩ :=
    (h.keeps.accounts site (still site member)).served_ordered h.keeps.apart
      (keeps.accounts site member) (le_oneMore c.server site)
      (h.ordered site (still site member)) h.decides.asymm
      (fun x y => h.decides.strange (still site member)) moved
  have sorted : (copy star'.server).document.values.Pairwise R' :=
    ordered.2.last (keeps.follows.spans member).2
  refine ⟨R', grows, keeps, decides.extend keeps asymm fun x y decided => ?_, sorted,
    fun t known => ?_⟩
  · exact (only x y decided).imp_right .inr
  · by_cases here : t = site
    · subst t
      exact ordered
    · obtain ⟨relay, -, -, gap_eq⟩ := relayed t (still t known) here
      have before := h.keeps.follows.spans (still t known)
      have after := keeps.follows.spans known
      obtain ⟨mine, theirs⟩ := (h.ordered t (still t known)).imp grows
      rw [gap_eq] at after ⊢
      exact ⟨mine, theirs.append before.2 (before.relayed_last after) sorted⟩

/-- Whatever is reported, all that is shown goes on standing in one order. -/
theorem note {report : Report α} (h : Orders sim star gaps c R) (attends : star.Attends action o)
    (follows : sim.Follows o.state gaps')
    (history : (copy o.state.server).history = (copy star.server).history ++ report.recorded)
    (result : o.result = .ok report) (moves : Moves policy (sites star.server) gaps report gaps')
    (plain : report.isPlain)
    (fresh : ∀ x, report.inserted? = some x → ∀ s, .added x ∉ c.deeds s) :
    ∃ R' : α → α → Prop, (∀ x y, R x y → R' x y) ∧
      Orders sim o.state gaps' (c.note star.elements report) R' := by
  have keeps := h.keeps.note attends follows history result moves plain fresh
  have came : ∀ s, o.result = .ok (.joined s) → report = .joined s :=
    fun s new => Except.ok.inj (result.symm.trans new)
  have decides : Decides (sites o.state.server) (c.note star.elements report) R :=
    h.decides.note star.elements h.keeps.bounded
      (fun s new => h.keeps.vacant s (attends.newcomer s (result.trans (by rw [new]))).1)
      (fun s member => (attends.known s member).imp_left (came s)) fresh
  have same : report.recorded = [] →
      (copy o.state.server).history = (copy star.server).history := by
    intro none_new
    rw [history, none_new, List.append_nil]
  have unmoved : ∀ s ∈ sites o.state.server, report ≠ .joined s → (gaps s).Ordered R :=
    fun s member old => h.ordered s
      ((attends.known s member).resolve_left fun new => old (came s new))
  have still : (∀ s, report ≠ .joined s) → ∀ s ∈ sites o.state.server, s ∈ sites star.server :=
    fun nobody s member => attends.registered result (nobody s) member
  cases moves with
  | @joined site gap mine theirs =>
    refine ⟨R, fun _ _ => id, h.silent_update keeps decides (same rfl)
      (fun s member other => unmoved s member fun new => other (Report.joined.inj new).symm)
      fun member => ?_⟩
    -- the newcomer has the server's document
    obtain ⟨-, shown⟩ := follows.spans member
    rw [Function.update_self, theirs] at shown
    obtain shared : gap.shared = (copy o.state.server).document.values := Option.some.inj shown
    have sorted : gap.shared.Pairwise R := by
      rw [shared, h.keeps.document_same follows (same rfl)]
      exact h.server
    exact ⟨mine ▸ .nil sorted, theirs ▸ .nil sorted⟩
  | left => exact ⟨R, fun _ _ => id, h.silent keeps decides (same rfl)
      fun s member => unmoved s member nofun⟩
  | @made site op =>
    by_cases member : site ∈ sites o.state.server
    · exact h.made keeps decides (same rfl) (still nofun) member plain fresh
    · exact ⟨R, fun _ _ => id, h.silent_update keeps decides (same rfl)
        (fun s known _ => unmoved s known nofun) fun here => absurd here member⟩
  | @heard site op gap foreign moved =>
    by_cases member : site ∈ sites o.state.server
    · exact h.heard keeps decides (same rfl) (still nofun) member moved
    · exact ⟨R, fun _ _ => id, h.silent_update keeps decides (same rfl)
        (fun s known _ => unmoved s known nofun) fun here => absurd here member⟩
  | @echoed site op gap own shared mine theirs =>
    refine ⟨R, fun _ _ => id, h.silent_update keeps decides (same rfl)
      (fun s known _ => unmoved s known nofun) fun member => ?_⟩
    obtain ⟨before, others⟩ := unmoved site member nofun
    have tells := (h.keeps.accounts site (still nofun site member)).mine
    exact ⟨shared ▸ before.of_edits tells mine, shared ▸ theirs ▸ others⟩
  | @served site op _ member moved relayed =>
    refine h.served keeps decides (still nofun) (attends.stay site member fun left => ?_) moved
      relayed
    cases result.symm.trans left
  | @outside site op _ stranger reported =>
    refine ⟨R, fun _ _ => id, h.silent keeps decides ?_ fun s member => ?_⟩
    · rcases reported with rfl | rfl <;> exact same rfl
    · rcases reported with rfl | rfl <;> exact unmoved s member nofun

theorem after (h : Orders sim star gaps c R) (action : Action α)
    (plain : ∀ report, star.report? action = some report → report.isPlain)
    (fresh : ∀ x, (star.report? action).bind Report.inserted? = some x →
      ∀ s, .added x ∉ c.deeds s) :
    ∃ (gaps' : SiteId → Gap α) (R' : α → α → Prop), (∀ x y, R x y → R' x y) ∧
      Orders sim (star.after action) gaps' ((star.report? action).elim c (c.note star.elements))
        R' := by
  simp only [Star.after, Star.report?] at plain fresh ⊢
  cases acted : star.act? action with
  | none => exact ⟨gaps, R, fun _ _ => id, h⟩
  | some o =>
    have attends := h.keeps.follows.act?_attends acted
    obtain ⟨gaps', follows, history, moves, -⟩ := h.keeps.follows.act? acted
    rw [acted] at plain fresh
    refine ⟨gaps', ?_⟩
    cases result : o.result with
    | error e =>
      rw [result] at history moves
      obtain rfl : gaps' = gaps := moves
      simp only [Option.bind_some, result, Except.toOption, Option.elim_none]
      have nobody : ∀ t, o.result ≠ .ok (.joined t) := by
        intro t joined
        cases result.symm.trans joined
      have same := history.trans (List.append_nil _)
      have still : ∀ s ∈ sites o.state.server, s ∈ sites star.server :=
        fun s member => (attends.known s member).resolve_left (nobody s)
      exact ⟨R, fun _ _ => id, h.silent (h.keeps.idle attends follows same nobody)
        ⟨h.decides.asymm, h.decides.noted, fun s member => h.decides.met s (still s member)⟩ same
        fun s member => h.ordered s (still s member)⟩
    | ok report =>
      rw [result] at history moves
      simp only [result, Option.bind_some, Except.toOption, Option.elim_some] at plain fresh ⊢
      refine h.note attends follows (history.trans ?_) result moves (plain report rfl) fresh
      exact congrArg _ (List.append_nil _)

/-- Along every schedule whose insertions are all different there is one order for all that is
shown. -/
theorem run (h : Orders sim star gaps c R) (schedule : List (Action α))
    (distinct : Distinct (star.reports schedule))
    (fresh : ∀ x ∈ (star.reports schedule).filterMap Report.inserted?, ∀ s, .added x ∉ c.deeds s) :
    ∃ R' : α → α → Prop, (∀ x y, R x y → R' x y) ∧ (∀ x y, R' x y → ¬ R' y x) ∧
      ∀ before, before <+: schedule → ∀ xs, (star.run before).Shown xs → xs.Pairwise R' := by
  induction schedule generalizing star gaps c R with
  | nil =>
    refine ⟨R, fun _ _ => id, h.decides.asymm, fun before none_done xs shown => ?_⟩
    rw [List.prefix_nil.mp none_done] at shown
    exact h.shown shown
  | cons action rest ih =>
    obtain ⟨plain, new, distinct', fresh'⟩ := distinct.of_cons fresh
    obtain ⟨gaps', R₁, grows₁, h'⟩ := h.after action plain new
    obtain ⟨R₂, grows₂, asymm, sorted⟩ := ih h' distinct' fresh'
    refine ⟨R₂, fun x y decided => grows₂ x y (grows₁ x y decided), asymm,
      fun before part xs shown => ?_⟩
    rcases List.prefix_cons_iff.mp part with rfl | ⟨done, rfl, part'⟩
    · exact (h.shown shown).imp fun decided => grows₂ _ _ (grows₁ _ _ decided)
    · exact sorted done part' xs shown

end Orders

/-- In a star of any algorithm with a simulation, no two elements are seen to swap. -/
theorem Simulation.keepsOrder (sim : Simulation S C α policy) (mode : FillMode)
    (schedule : List (Action α))
    (blank : (copy (ServerAlgorithm.start policy : S α)).document.values = [])
    (distinct : Distinct ((Star.start policy mode : Star S C α).reports schedule)) :
    (Star.start policy mode : Star S C α).KeepsOrder schedule := by
  let start : Star S C α := .start policy mode
  have orders : Orders sim start (fun _ => ⟨[], [], []⟩) .empty fun _ _ => False := by
    refine ⟨keeps_start sim mode _ blank, ⟨nofun, nofun, nofun⟩, ?_, fun s member => ?_⟩
    · change (copy (ServerAlgorithm.start policy : S α)).document.values.Pairwise _
      rw [blank]
      exact .nil
    · change s ∈ sites (ServerAlgorithm.start policy : S α) at member
      rw [sim.start_sites] at member
      cases member
  obtain ⟨R, -, asymm, sorted⟩ := orders.run schedule distinct
    fun x _ s among => List.not_mem_nil among
  have sorted : ∀ before, before <+: schedule → ∀ xs, start.Displays before xs →
      xs.Pairwise R := by
    rintro before part xs (rfl | ⟨site, client, stays, found, rfl⟩)
    · exact sorted before part _ (.inl rfl)
    · refine sorted before part _ (.inr ⟨site, ?_, ?_⟩)
      · refine sim.enrolled_run mode stays ?_
        rw [Star.seat?, found]
        rfl
      · simp only [Star.elements, found, Option.map_some, Option.getD_some]
  intro before before' part part' xs ys shown shown' x y first hx hy
  have decided := List.pairwise_iff_forall_sublist.mp (sorted before part xs shown) first
  have ne : x ≠ y := by
    rintro rfl
    exact asymm x x decided decided
  refine (sublist_or_swap hx hy ne).resolve_right fun swapped => ?_
  exact asymm x y decided
    (List.pairwise_iff_forall_sublist.mp (sorted before' part' ys shown') swapped)

end Orders

/-- In every wave or jupiter star whose sites only insert and delete, and insert each element once,
no two elements are ever seen to swap. -/
theorem order_agrees [Element α] (policy : Policy) (mode : FillMode) (schedule : List (Action α)) :
    (Distinct ((Star.start policy mode : Star Wave.Server Wave.Client α).reports schedule) →
      (Star.start policy mode : Star Wave.Server Wave.Client α).KeepsOrder schedule) ∧
    (Distinct ((Star.start policy mode : Star Jupiter.Server Jupiter.Client α).reports schedule) →
      (Star.start policy mode : Star Jupiter.Server Jupiter.Client α).KeepsOrder schedule) :=
  ⟨(Wave.simulation policy).keepsOrder mode schedule rfl,
    (Jupiter.simulation policy).keepsOrder mode schedule rfl⟩

/-- While one site deletes the letter between them, two others insert before and behind it; the
server shows all three letters before it takes in the deletion. -/
def separated (a b c : SiteId) : List (Action Char) :=
  [.join a .operationBased, .join b .stateBased, .join c .stateBased, .edit a ⟨.insert 0 'm', none⟩,
    .up a, .down a, .down b, .down c, .edit a ⟨.delete 0, none⟩, .edit b ⟨.insert 0 'x', none⟩,
    .edit c ⟨.insert 1 'y', none⟩, .up c, .up b]

theorem order_agrees_separated :
    let a : SiteId := .ofNat 1
    let schedule := separated a (.ofNat 2) (.ofNat 3)
    let later := schedule ++ [.down a, .down a]
    let wave : Star Wave.Server Wave.Client Char := .start .firstWriterWins .stateBased
    let jupiter : Star Jupiter.Server Jupiter.Client Char := .start .firstWriterWins .stateBased
    wave.KeepsOrder later ∧ jupiter.KeepsOrder later ∧
      (wave.run schedule).server.copy.document.values = ['x', 'm', 'y'] ∧
      (wave.run later).elements a = ['x', 'y'] ∧
      (jupiter.run schedule).server.copy.document.values = ['x', 'm', 'y'] ∧
      (jupiter.run later).elements a = ['x', 'y'] := by
  intro a schedule later wave jupiter
  have distinctW : Distinct (wave.reports later) := by decide +kernel
  have distinctJ : Distinct (jupiter.reports later) := by decide +kernel
  obtain ⟨orderW, orderJ⟩ := order_agrees .firstWriterWins .stateBased later
  refine ⟨orderW distinctW, orderJ distinctJ, ?_, ?_, ?_, ?_⟩
  all_goals decide +kernel

end CoEdit
