import CoEdit.Proofs.Precedence
import CoEdit.Proofs.Trail
import Mathlib.Data.List.Nodup
import Mathlib.Logic.Function.Basic

/-!
# Journals

Operations change on their way, and nothing in them tells one edit from another. So a journal keeps
account beside the star: an edit is known by its site and its number among the edits of that site
(`EditId`), and since nothing overtakes on a link, the next operation of a site that turns up
anywhere is its next edit. For each edit the journal records what its site knew when it was made.

The journal is in order (`Journal.Orderly`) if the server and the sites have lists of edits without
holes, every site has a part of what the server has beside its own edits, and no list has an edit
without, and before, everything that its site knew.
-/

namespace CoEdit

variable {α : Type}

/-- An edit: its site, and how many edits the site had made before. -/
structure EditId where
  site : SiteId
  number : Nat
deriving DecidableEq

namespace EditId

variable {site t : SiteId} {ids more : List EditId} {id : EditId}

/-- How many of some edits are a site's. -/
def count (site : SiteId) (ids : List EditId) : Nat := ids.countP (·.site = site)

/-- The next edit of a site after some edits. -/
def next (ids : List EditId) (site : SiteId) : EditId := ⟨site, count site ids⟩

/-- The edits of other sites. -/
def foreign (site : SiteId) (ids : List EditId) : List EditId := ids.filter (·.site ≠ site)

theorem count_append : count site (ids ++ more) = count site ids + count site more :=
  List.countP_append

theorem count_snoc_self : count site (ids ++ [next ids site]) = count site ids + 1 := by
  rw [count_append]
  simp [count, next]

theorem count_snoc_other (other : id.site ≠ site) : count site (ids ++ [id]) = count site ids := by
  rw [count_append]
  simp [count, other]

theorem foreign_append : foreign site (ids ++ more) = foreign site ids ++ foreign site more :=
  List.filter_append ..

theorem foreign_snoc_self : foreign site (ids ++ [next ids site]) = foreign site ids := by
  rw [foreign_append]
  simp [foreign, next]

theorem foreign_snoc_other (other : id.site ≠ site) :
    foreign site (ids ++ [id]) = foreign site ids ++ [id] := by
  rw [foreign_append]
  simp [foreign, other]

theorem mem_foreign : id ∈ foreign site ids ↔ id ∈ ids ∧ id.site ≠ site := by
  simp [foreign]

theorem count_foreign (other : t ≠ site) : count t (foreign site ids) = count t ids := by
  rw [count, foreign, List.countP_filter]
  refine List.countP_congr fun id _ => ?_
  simp only [Bool.and_eq_true, decide_eq_true_eq]
  exact ⟨And.left, fun h => ⟨h, h ▸ other⟩⟩

/-- The edits of each site are there from its first one on, in the order in which they were made. -/
inductive Counted : List EditId → Prop where
  | nil : Counted []
  | snoc {ids : List EditId} (before : Counted ids) (site : SiteId) :
      Counted (ids ++ [next ids site])

namespace Counted

theorem mem_iff (h : Counted ids) : id ∈ ids ↔ id.number < count id.site ids := by
  induction h with
  | nil => simp [count]
  | @snoc ids before site ih =>
    rw [List.mem_append, ih, List.mem_singleton]
    by_cases same : id.site = site
    · subst same
      rw [count_snoc_self]
      constructor
      · rintro (earlier | last)
        · omega
        · have number : id.number = count id.site ids := congrArg EditId.number last
          omega
      · intro le
        rcases Nat.lt_succ_iff_lt_or_eq.mp le with earlier | last
        · exact .inl earlier
        · exact .inr (by cases id; simp_all [next])
    · rw [count_snoc_other (Ne.symm same)]
      refine ⟨fun h => h.resolve_right ?_, .inl⟩
      rintro rfl
      exact same rfl

theorem next_notMem (h : Counted ids) (site : SiteId) : next ids site ∉ ids := by
  rw [h.mem_iff]
  exact Nat.lt_irrefl _

theorem nodup (h : Counted ids) : ids.Nodup := by
  induction h with
  | nil => exact List.nodup_nil
  | snoc before site ih =>
    exact (List.perm_append_singleton ..).nodup_iff.mpr
      (List.nodup_cons.mpr ⟨before.next_notMem site, ih⟩)

theorem of_append (h : Counted (ids ++ more)) : Counted ids := by
  generalize all : ids ++ more = whole at h
  induction h generalizing more with
  | nil =>
    rw [(List.append_eq_nil_iff.mp all).1]
    exact .nil
  | @snoc whole before site ih =>
    rcases List.eq_nil_or_concat more with rfl | ⟨more, last, rfl⟩
    · rw [List.append_nil] at all
      exact all ▸ .snoc before site
    · rw [List.concat_eq_append, ← List.append_assoc] at all
      exact ih (List.append_inj' all rfl).1

/-- The last edit is the next one after those before it. -/
theorem last_eq (h : Counted (ids ++ [id])) : id = next ids id.site := by
  generalize all : ids ++ [id] = whole at h
  cases h with
  | nil => simp at all
  | @snoc before _ site =>
    obtain ⟨rfl, last⟩ := List.append_inj' all rfl
    obtain rfl := List.singleton_inj.mp last
    rfl

/-- Without the edits of one site, those of the others are still all there. -/
theorem foreign (h : Counted ids) (site : SiteId) : Counted (foreign site ids) := by
  induction h with
  | nil => exact .nil
  | @snoc ids before t ih =>
    by_cases own : t = site
    · subst own
      rw [foreign_snoc_self]
      exact ih
    · rw [foreign_snoc_other own]
      have same : next ids t = next (EditId.foreign site ids) t := by
        rw [next, next, count_foreign own]
      exact same ▸ .snoc ih t

end Counted

end EditId

/-- What the edit of an operation may become on the way. -/
def Rewrites (policy : Policy) (op : Operation α) (edit : Edit α) : Prop :=
  ∃ form, Becomes policy op form ∧ form.edit = edit

theorem Rewrites.self (policy : Policy) (op : Operation α) : Rewrites policy op op.edit :=
  ⟨op, .same op, rfl⟩

theorem Rewrites.becomes {policy : Policy} {op r r' : Operation α} (h : Rewrites policy op r.edit)
    (later : Becomes policy r r') : Rewrites policy op r'.edit := by
  induction later with
  | same => exact h
  | transformed _ past ih =>
    obtain ⟨form, becomes, same⟩ := ih
    obtain ⟨form', _, past', edit, -⟩ := transform_edits past same rfl
    exact ⟨form', becomes.transformed past', edit⟩
  | stamped _ edit _ ih => exact edit.symm ▸ ih

open EditId

/-- An account of a star: what each site made, with what it knew at the time; the history of the
server; and what each site has from its fill and what it applied since, its own edits among it. -/
structure Journal (α : Type) where
  made : SiteId → List (Operation α × List EditId)
  log : List (EditId × Operation α)
  filled : SiteId → List EditId
  applied : SiteId → List (EditId × Operation α)

namespace Journal

/-- Nothing has happened. -/
def blank : Journal α := ⟨fun _ => [], [], fun _ => [], fun _ => []⟩

/-- The edits that the server has. -/
def ids (journal : Journal α) : List EditId := journal.log.map Prod.fst

/-- The edits that a site knows, in the order in which it came to know them. -/
def known (journal : Journal α) (site : SiteId) : List EditId :=
  journal.filled site ++ (journal.applied site).map Prod.fst

/-- Adds what is reported. What a site hears of itself is an echo and nothing new. -/
def note (journal : Journal α) : Report α → Journal α
  | .joined site =>
    { journal with
      filled := Function.update journal.filled site journal.ids
      applied := Function.update journal.applied site [] }
  | .left _ => journal
  | .made site op =>
    { journal with
      made := Function.update journal.made site (journal.made site ++ [(op, journal.known site)])
      applied := Function.update journal.applied site
        (journal.applied site ++ [(⟨site, (journal.made site).length⟩, op)]) }
  | .served site op => { journal with log := journal.log ++ [(.next journal.ids site, op)] }
  | .heard site op =>
    match op.creator? with
    | none => journal
    | some creator =>
      if creator = site then journal
      else
        { journal with
          applied := Function.update journal.applied site
            (journal.applied site ++ [(.next (journal.known site) creator, op)]) }

/-- The site of the second edit knew the first one when it made the second. -/
def Before (journal : Journal α) (a b : EditId) : Prop :=
  ∃ op context, (journal.made b.site)[b.number]? = some (op, context) ∧ a ∈ context

instance (journal : Journal α) (a b : EditId) : Decidable (journal.Before a b) :=
  match found : (journal.made b.site)[b.number]? with
  | none => .isFalse fun ⟨_, _, made, _⟩ => by
      rw [found] at made
      cases made
  | some (op, context) => decidable_of_iff (a ∈ context)
      ⟨fun among => ⟨op, context, found, among⟩, fun ⟨_, _, made, among⟩ => by
        rw [found] at made
        cases made
        exact among⟩

/-- No edit stands there without all that its site knew, nor before it. -/
def Leads (journal : Journal α) (ids : List EditId) : Prop :=
  ∀ a b, journal.Before a b → b ∈ ids → List.Sublist [a, b] ids

/-- An operation stands for an edit: it is what became of the operation that the site made. -/
def Genuine (journal : Journal α) (policy : Policy) (id : EditId) (op : Operation α) : Prop :=
  ∃ original context, (journal.made id.site)[id.number]? = some (original, context) ∧
    Rewrites policy original op.edit

namespace Genuine

variable {journal journal' : Journal α} {policy : Policy} {id : EditId} {op op' : Operation α}

theorem becomes (h : journal.Genuine policy id op) (later : Becomes policy op op') :
    journal.Genuine policy id op' := by
  obtain ⟨original, context, made, rewrites⟩ := h
  exact ⟨original, context, made, rewrites.becomes later⟩

/-- Only the edit counts. -/
theorem of_edit (h : journal.Genuine policy id op) (same : op'.edit = op.edit) :
    journal.Genuine policy id op' := by
  obtain ⟨original, context, made, rewrites⟩ := h
  exact ⟨original, context, made, same ▸ rewrites⟩

/-- Nobody takes back what he has made. -/
theorem grow (h : journal.Genuine policy id op) (grows : ∀ t, journal.made t <+: journal'.made t) :
    journal'.Genuine policy id op := by
  obtain ⟨original, context, made, rewrites⟩ := h
  obtain ⟨more, longer⟩ := grows id.site
  refine ⟨original, context, ?_, rewrites⟩
  rw [← longer, List.getElem?_append_left (List.getElem?_eq_some_iff.mp made).1]
  exact made

end Genuine

/-- A site knows the edits without holes, and its own ones are those that it made. The server has no
more of them, and what is on its way to the site, `news`, is what it has of the others beyond the
site, or had when the site left. What the site knew when it made an edit is what it knew first. -/
structure KeepsUp (journal : Journal α) (t : SiteId) (seated member : Prop) (news : List EditId) :
    Prop where
  known : Counted (journal.known t)
  vacant : ¬ seated → journal.known t = []
  own : count t (journal.known t) = (journal.made t).length
  unserved : count t journal.ids ≤ (journal.made t).length
  ahead : seated → foreign t (journal.known t) ++ news <+: foreign t journal.ids
  level : member → foreign t (journal.known t) ++ news = foreign t journal.ids
  context : ∀ {i op context}, (journal.made t)[i]? = some (op, context) →
    context <+: journal.known t ∧ count t context = i

/-- The journal is in order. Of the sites with a seat some are members; all others have left. -/
structure Orderly (journal : Journal α) (seated member : SiteId → Prop)
    (news : SiteId → List EditId) : Prop where
  log : Counted journal.ids
  sites : ∀ t, journal.KeepsUp t (seated t) (member t) (news t)
  leads_log : journal.Leads journal.ids
  leads_known : ∀ t, journal.Leads (journal.known t)

theorem Leads.snoc {journal : Journal α} {ids : List EditId} {id : EditId}
    (h : journal.Leads ids) (all : ∀ a, journal.Before a id → a ∈ ids) :
    journal.Leads (ids ++ [id]) := by
  intro a b before among
  rcases List.mem_append.mp among with earlier | last
  · exact (h a b before earlier).trans (List.sublist_append_left ..)
  · obtain rfl := List.mem_singleton.mp last
    exact (List.singleton_sublist.mpr (all a before)).append (List.Sublist.refl [b])

namespace KeepsUp

variable {journal journal' : Journal α} {t : SiteId} {seated member : Prop} {news : List EditId}

/-- Where there is no seat, nothing has been made. -/
theorem made_of_vacant (h : journal.KeepsUp t seated member news) (absent : ¬ seated) :
    journal.made t = [] := by
  rw [← List.length_eq_zero_iff, ← h.own, h.vacant absent]
  rfl

/-- What the site has of others, the server has, too. -/
theorem count_le (h : journal.KeepsUp t seated member news) {site : SiteId} (other : site ≠ t) :
    count site (journal.known t) ≤ count site journal.ids := by
  by_cases present : seated
  · have part : (foreign t (journal.known t)).Sublist (foreign t journal.ids) :=
      (List.prefix_append ..).sublist.trans (h.ahead present).sublist
    calc count site (journal.known t)
      _ = count site (foreign t (journal.known t)) := (count_foreign other).symm
      _ ≤ count site (foreign t journal.ids) := part.countP_le
      _ = count site journal.ids := count_foreign other
  · rw [h.vacant present]
    exact Nat.zero_le _

/-- Whether there is a seat is the same, and the site may not be a member any more. -/
theorem mono (h : journal.KeepsUp t seated member news) {seated' member' : Prop}
    (seats : seated' ↔ seated) (fewer : member' → member) :
    journal.KeepsUp t seated' member' news :=
  { h with
    vacant := fun absent => h.vacant (mt seats.mpr absent)
    ahead := fun present => h.ahead (seats.mp present)
    level := fun present => h.level (fewer present) }

/-- What happens at other sites is no matter to the site. -/
theorem same (h : journal.KeepsUp t seated member news) (known : journal'.known t = journal.known t)
    (made : journal'.made t = journal.made t) (ids : journal'.ids = journal.ids) :
    journal'.KeepsUp t seated member news := by
  constructor
  · rw [known]
    exact h.known
  · rw [known]
    exact h.vacant
  · rw [known, made]
    exact h.own
  · rw [made, ids]
    exact h.unserved
  · rw [known, ids]
    exact h.ahead
  · rw [known, ids]
    exact h.level
  · intro i op context
    rw [known, made]
    exact h.context

end KeepsUp

namespace Orderly

variable {journal : Journal α} {seated member : SiteId → Prop} {news : SiteId → List EditId}
  {t site : SiteId} {op : Operation α} {id : EditId}

theorem blank (news : SiteId → List EditId) :
    (Journal.blank : Journal α).Orderly (fun _ => False) (fun _ => False) news where
  log := .nil
  sites _ :=
    { known := .nil
      vacant := fun _ => rfl
      own := rfl
      unserved := Nat.le_refl _
      ahead := False.elim
      level := False.elim
      context := fun made => by cases made }
  leads_log _ _ _ among := by cases among
  leads_known _ _ _ _ among := by cases among

theorem mono (h : journal.Orderly seated member news) {seated' member' : SiteId → Prop}
    (seats : ∀ t, seated' t ↔ seated t) (fewer : ∀ t, member' t → member t) :
    journal.Orderly seated' member' news :=
  { h with sites := fun t => (h.sites t).mono (seats t) (fewer t) }

/-- Nobody knows of an edit that has not been made. -/
theorem made_of_mem (h : journal.Orderly seated member news) (among : id ∈ journal.known t) :
    id.number < (journal.made id.site).length := by
  have counted := (h.sites t).known.mem_iff.mp among
  by_cases own : id.site = t
  · subst own
    rw [← (h.sites id.site).own]
    exact counted
  · calc id.number
      _ < count id.site (journal.known t) := counted
      _ ≤ count id.site journal.ids := (h.sites t).count_le own
      _ ≤ (journal.made id.site).length := (h.sites id.site).unserved

theorem made_of_mem_log (h : journal.Orderly seated member news) (among : id ∈ journal.ids) :
    id.number < (journal.made id.site).length :=
  Nat.lt_of_lt_of_le (h.log.mem_iff.mp among) (h.sites id.site).unserved

section Joined

theorem known_joined (journal : Journal α) (site t : SiteId) :
    (journal.note (.joined site)).known t = if t = site then journal.ids else journal.known t := by
  simp only [note, Journal.known, Function.update_apply]
  split
  · exact List.append_nil _
  · rfl

/-- A site that joins knows what the server has. -/
theorem joined (h : journal.Orderly seated member news) (absent : ¬ seated site) :
    (journal.note (.joined site)).Orderly (fun t => t = site ∨ seated t)
      (fun t => t = site ∨ member t) (Function.update news site []) := by
  have nothing : journal.made site = [] := (h.sites site).made_of_vacant absent
  have known : (journal.note (.joined site)).known site = journal.ids :=
    (known_joined ..).trans (if_pos rfl)
  have level : foreign site journal.ids ++ [] = foreign site journal.ids := List.append_nil _
  refine ⟨h.log, fun t => ?_, h.leads_log, fun t => ?_⟩
  · by_cases here : t = site
    · subst here
      rw [Function.update_self]
      constructor
      · rw [known]
        exact h.log
      · exact fun out => absurd (.inl rfl) out
      · have le := (h.sites t).unserved
        rw [nothing] at le
        rw [known]
        exact (Nat.le_zero.mp le).trans (congrArg List.length nothing).symm
      · exact (h.sites t).unserved
      · rw [known]
        exact fun _ => ⟨[], (List.append_nil _).trans level⟩
      · rw [known]
        exact fun _ => level
      · intro i op context made
        have nobody : (journal.made t)[i]? = some (op, context) := made
        rw [nothing] at nobody
        cases nobody
    · rw [Function.update_of_ne here]
      have before := (h.sites t).mono (or_iff_right here) (or_iff_right here).mp
      exact before.same ((known_joined ..).trans (if_neg here)) rfl rfl
  · rw [known_joined]
    split
    · exact h.leads_log
    · exact h.leads_known t

end Joined

section Made

theorem known_made (journal : Journal α) (site t : SiteId) (op : Operation α) :
    (journal.note (.made site op)).known t = if t = site
      then journal.known site ++ [⟨site, (journal.made site).length⟩] else journal.known t := by
  simp only [note, Journal.known, Function.update_apply]
  split
  · rename_i here
    rw [here, List.map_append, ← List.append_assoc]
    rfl
  · rfl

theorem made_made (journal : Journal α) (site t : SiteId) (op : Operation α) :
    (journal.note (.made site op)).made t = if t = site
      then journal.made site ++ [(op, journal.known site)] else journal.made t := by
  simp only [note, Function.update_apply]

/-- What was known of the edits that were there already does not change. -/
theorem before_of_made (old : id.number < (journal.made id.site).length) {a : EditId}
    (before : (journal.note (.made site op)).Before a id) : journal.Before a id := by
  obtain ⟨op', context, made, among⟩ := before
  refine ⟨op', context, ?_, among⟩
  rw [made_made] at made
  split at made
  · rename_i here
    rw [here] at old ⊢
    rwa [List.getElem?_append_left old] at made
  · exact made

/-- The site that makes an edit knows it at once. -/
theorem keepsUp_made (h : journal.KeepsUp site (seated site) (member site) (news site))
    (present : seated site) :
    (journal.note (.made site op)).KeepsUp site (seated site) (member site) (news site) := by
  have known : (journal.note (.made site op)).known site =
      journal.known site ++ [.next (journal.known site) site] := by
    rw [known_made, if_pos rfl, EditId.next, h.own]
  have made : (journal.note (.made site op)).made site =
      journal.made site ++ [(op, journal.known site)] := by
    rw [made_made, if_pos rfl]
  constructor
  · rw [known]
    exact .snoc h.known site
  · exact fun absent => absurd present absent
  · rw [known, made, count_snoc_self, h.own, List.length_append, List.length_singleton]
  · rw [made, List.length_append]
    exact Nat.le_add_right_of_le h.unserved
  · rw [known, foreign_snoc_self]
    exact h.ahead
  · rw [known, foreign_snoc_self]
    exact h.level
  · intro i op' context there
    rw [made] at there
    rw [known]
    rcases Nat.lt_or_ge i (journal.made site).length with earlier | last
    · rw [List.getElem?_append_left earlier] at there
      obtain ⟨before, number⟩ := h.context there
      exact ⟨before.trans (List.prefix_append ..), number⟩
    · rw [List.getElem?_append_right last] at there
      obtain ⟨index, eq⟩ := List.getElem?_eq_some_iff.mp there
      rw [List.length_singleton] at index
      rw [List.getElem_singleton] at eq
      obtain ⟨-, rfl⟩ := Prod.mk.inj eq
      refine ⟨List.prefix_append .., h.own.trans ?_⟩
      omega

theorem made (h : journal.Orderly seated member news) (present : seated site) :
    (journal.note (.made site op)).Orderly seated member news := by
  have old : ∀ {ids : List EditId},
      (∀ id ∈ ids, id.number < (journal.made id.site).length) → journal.Leads ids →
        (journal.note (.made site op)).Leads ids :=
    fun made leads a b before among => leads a b (before_of_made (made b among) before) among
  refine ⟨h.log, fun t => ?_, old (fun id => h.made_of_mem_log) h.leads_log, fun t => ?_⟩
  · by_cases here : t = site
    · subst here
      exact keepsUp_made (h.sites t) present
    · exact (h.sites t).same ((known_made ..).trans (if_neg here))
        ((made_made ..).trans (if_neg here)) rfl
  · have before := old (fun id => h.made_of_mem) (h.leads_known t)
    rw [known_made]
    split
    · rename_i here
      subst here
      refine before.snoc fun a ⟨op', context, made, among⟩ => ?_
      rw [made_made, if_pos rfl, List.getElem?_concat_length] at made
      cases made
      exact among
    · exact before

end Made

section Served

theorem ids_served (journal : Journal α) (site : SiteId) (op : Operation α) :
    (journal.note (.served site op)).ids = journal.ids ++ [.next journal.ids site] :=
  List.map_append

/-- All that the site of the next edit knew is at the server: its own edits have come the same way
before, and those of others it had from the server. -/
theorem known_to_server (h : journal.Orderly seated member news) (present : member site)
    {a : EditId} (before : journal.Before a (.next journal.ids site)) : a ∈ journal.ids := by
  obtain ⟨op, context, made, among⟩ := before
  obtain ⟨⟨rest, split⟩, number⟩ := (h.sites site).context made
  by_cases mine : a.site = site
  · have counted : Counted context := .of_append (split ▸ (h.sites site).known)
    have all : count site context = count site journal.ids := number
    have earlier := counted.mem_iff.mp among
    rw [mine, all] at earlier
    rw [h.log.mem_iff, mine]
    exact earlier
  · have there : a ∈ foreign site (journal.known site) :=
      mem_foreign.mpr ⟨split ▸ List.mem_append_left _ among, mine⟩
    exact (mem_foreign.mp ((h.sites site).level present ▸ List.mem_append_left _ there)).1

/-- The server takes in the next edit of a member, and relays it to the other members. -/
theorem served (h : journal.Orderly seated member news) (present : member site)
    (more : count site journal.ids < (journal.made site).length) {news' : SiteId → List EditId}
    (own : news' site = news site)
    (others : ∀ t, member t → t ≠ site → news' t = news t ++ [.next journal.ids site])
    (gone : ∀ t, ¬ member t → news' t = news t) :
    (journal.note (.served site op)).Orderly seated member news' := by
  have ids := ids_served journal site op
  refine ⟨?_, fun t => ?_, ?_, h.leads_known⟩
  · rw [ids]
    exact .snoc h.log site
  · have before := h.sites t
    refine ⟨before.known, before.vacant, before.own, ?_, ?_, ?_, before.context⟩
    all_goals
      rw [ids]
      by_cases here : t = site
    · rw [here, count_snoc_self]
      exact more
    · rw [count_snoc_other (Ne.symm here)]
      exact before.unserved
    · subst here
      rw [foreign_snoc_self, own]
      exact before.ahead
    · rw [foreign_snoc_other (Ne.symm here)]
      intro there
      by_cases known : member t
      · rw [others t known here, ← List.append_assoc]
        exact before.level known ▸ List.prefix_rfl
      · rw [gone t known]
        exact (before.ahead there).trans (List.prefix_append ..)
    · subst here
      rw [foreign_snoc_self, own]
      exact before.level
    · rw [foreign_snoc_other (Ne.symm here)]
      intro known
      rw [others t known here, ← List.append_assoc]
      exact congrArg (· ++ _) (before.level known)
  · rw [ids]
    exact h.leads_log.snoc fun a => h.known_to_server present

end Served

section Heard

theorem note_heard {journal : Journal α} {creator : SiteId} (signed : op.creator? = some creator)
    (other : creator ≠ site) :
    journal.note (.heard site op) = { journal with
      applied := Function.update journal.applied site
        (journal.applied site ++ [(.next (journal.known site) creator, op)]) } := by
  simp only [note, signed, if_neg other]

theorem known_heard {journal : Journal α} {creator : SiteId} (signed : op.creator? = some creator)
    (other : creator ≠ site) (t : SiteId) :
    (journal.note (.heard site op)).known t = if t = site
      then journal.known site ++ [.next (journal.known site) creator] else journal.known t := by
  simp only [note_heard signed other, Journal.known, Function.update_apply]
  split
  · rename_i here
    rw [here, List.map_append, ← List.append_assoc]
    rfl
  · rfl

/-- What comes to a site next is the next edit of its maker. -/
theorem next_eq (h : journal.Orderly seated member news) (present : seated site)
    {rest : List EditId} (coming : news site = id :: rest) :
    id.site ≠ site ∧ id ∈ journal.ids ∧ id = .next (journal.known site) id.site := by
  have ahead := (h.sites site).ahead present
  rw [coming] at ahead
  have there : id ∈ foreign site journal.ids :=
    ahead.subset (List.mem_append_right _ List.mem_cons_self)
  obtain ⟨among, other⟩ := mem_foreign.mp there
  refine ⟨other, among, ?_⟩
  obtain ⟨more, split⟩ := ahead
  have counted := h.log.foreign site
  rw [← split, ← List.singleton_append, ← List.append_assoc, List.append_assoc] at counted
  rw [EditId.next, ← count_foreign other]
  exact counted.of_append.last_eq

/-- All that the maker of what comes next knew is at the site: what the site made itself, and what
came from the server before. -/
theorem known_to_site (h : journal.Orderly seated member news) (present : seated site)
    {rest : List EditId} (coming : news site = id :: rest) {a : EditId}
    (before : journal.Before a id) : a ∈ journal.known site := by
  obtain ⟨other, among, -⟩ := h.next_eq present coming
  have ordered := h.leads_log a id before among
  by_cases mine : a.site = site
  · have made := h.made_of_mem_log (ordered.subset List.mem_cons_self)
    rw [(h.sites site).known.mem_iff, mine, (h.sites site).own]
    rwa [mine] at made
  · have nodup := (h.log.foreign site).nodup
    have kept : List.Sublist [a, id] (foreign site journal.ids) := by
      have filtered := ordered.filter (·.site ≠ site)
      rwa [List.filter_cons_of_pos (by simpa using mine),
        List.filter_cons_of_pos (by simpa using other)] at filtered
    obtain ⟨more, ahead⟩ := (h.sites site).ahead present
    rw [coming, List.append_assoc, List.cons_append] at ahead
    rw [← ahead] at nodup kept
    exact (mem_foreign.mp (mem_of_sublist_cons nodup kept)).1

/-- A site takes in what comes next. -/
theorem heard (h : journal.Orderly seated member news) (present : seated site)
    {rest : List EditId} (coming : news site = id :: rest) (signed : op.creator? = some id.site) :
    (journal.note (.heard site op)).Orderly seated member (Function.update news site rest) := by
  obtain ⟨other, -, next⟩ := h.next_eq present coming
  have known : ∀ t, (journal.note (.heard site op)).known t =
      if t = site then journal.known site ++ [id] else journal.known t := by
    intro t
    rw [known_heard signed other, ← next]
  have split : foreign site (journal.known site ++ [id]) ++ rest =
      foreign site (journal.known site) ++ news site := by
    rw [foreign_snoc_other other, coming, List.append_assoc, List.singleton_append]
  rw [note_heard signed other] at known ⊢
  refine ⟨h.log, fun t => ?_, h.leads_log, fun t => ?_⟩
  · have before := h.sites t
    by_cases here : t = site
    · subst here
      have now := (known t).trans (if_pos rfl)
      rw [Function.update_self]
      constructor
      · rw [now]
        exact next ▸ .snoc before.known id.site
      · exact fun absent => absurd present absent
      · rw [now, count_snoc_other other]
        exact before.own
      · exact before.unserved
      · rw [now, split]
        exact before.ahead
      · rw [now, split]
        exact before.level
      · intro i op' context made
        rw [now]
        obtain ⟨first, number⟩ := before.context made
        exact ⟨first.trans (List.prefix_append ..), number⟩
    · rw [Function.update_of_ne here]
      exact before.same ((known t).trans (if_neg here)) rfl rfl
  · rw [known]
    split
    · exact (h.leads_known site).snoc fun a => h.known_to_site present coming
    · exact h.leads_known t

end Heard

end Orderly

end Journal

end CoEdit
