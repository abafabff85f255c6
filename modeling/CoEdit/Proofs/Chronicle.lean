import CoEdit.Proofs.Deed
import CoEdit.Proofs.Gap
import CoEdit.Proofs.Schedule
import Mathlib.Logic.Function.Basic

/-!
# Who knows which deeds

Beside a star a chronicle is kept, which nothing in the star reads: the deeds of every site, and how
many of them the server and each site know. Links deliver in order, so a number is enough to say
which ones. `Accounts` says what the gap of a site has to do with it: the common document shows what
both know, the operations of either side tell what only that side knows.
-/

namespace CoEdit

variable {α : Type}

/-- The deeds of every site and who knows them. -/
structure Chronicle (α : Type) where
  /-- the deeds of a site, the oldest first -/
  deeds : SiteId → List (Deed α)
  /-- how many deeds of a site the server knows -/
  server : SiteId → Nat
  /-- how many deeds of another site, or of its own, a site knows -/
  client : SiteId → SiteId → Nat

/-- What is known to one that knows so many deeds of each site. -/
def known (deeds : SiteId → List (Deed α)) (count : SiteId → Nat) : Set (Deed α) :=
  {d | ∃ site, d ∈ (deeds site).take (count site)}

/-- One more deed of a site. -/
def oneMore (count : SiteId → Nat) (site : SiteId) : SiteId → Nat :=
  Function.update count site (count site + 1)

@[simp] theorem oneMore_self (count : SiteId → Nat) (site : SiteId) :
    oneMore count site site = count site + 1 :=
  Function.update_self ..

theorem oneMore_of_ne (count : SiteId → Nat) {site other : SiteId} (h : other ≠ site) :
    oneMore count site other = count other :=
  Function.update_of_ne h ..

namespace Chronicle

/-- Nothing has been done yet. -/
def empty : Chronicle α := ⟨fun _ => [], fun _ => 0, fun _ _ => 0⟩

/-- Notes down a report, given the elements at each site before. A site that joins knows what the
server knows, and one that hears an operation of another site knows one more deed of that site; an
operation of its own it knew already. -/
def note (c : Chronicle α) (elements : SiteId → List α) : Report α → Chronicle α
  | .joined site => { c with client := Function.update c.client site c.server }
  | .left _ => c
  | .made site op => { c with
      deeds := Function.update c.deeds site (c.deeds site ++ [op.edit.deed (elements site)])
      client := Function.update c.client site (oneMore (c.client site) site) }
  | .served site _ => { c with server := oneMore c.server site }
  | .heard site op =>
    match op.creator? with
    | none => c
    | some creator =>
      if creator = site then c
      else { c with client := Function.update c.client site (oneMore (c.client site) creator) }

end Chronicle

/-- No two sites add the same element. -/
def Apart (deeds : SiteId → List (Deed α)) : Prop :=
  ∀ s t x, .added x ∈ deeds s → .added x ∈ deeds t → s = t

section Known

variable {deeds : SiteId → List (Deed α)} {count count' server client : SiteId → Nat}
  {site : SiteId} {d : Deed α}

theorem known_oneMore (next : (deeds site)[count site]? = some d) :
    known deeds (oneMore count site) = insert d (known deeds count) := by
  ext e
  have split : ∀ s, e ∈ (deeds s).take (oneMore count site s) ↔
      s = site ∧ e = d ∨ e ∈ (deeds s).take (count s) := by
    intro s
    by_cases here : s = site
    · subst s
      rw [oneMore_self, List.take_add_one, next]
      simp [or_comm]
    · rw [oneMore_of_ne _ here]
      simp [here]
  simp only [known, Set.mem_insert_iff, Set.mem_ofPred_eq, split]
  constructor
  · rintro ⟨s, ⟨rfl, new⟩ | before⟩
    · exact .inl new
    · exact .inr ⟨s, before⟩
  · rintro (new | ⟨s, before⟩)
    · exact ⟨site, .inl ⟨rfl, new⟩⟩
    · exact ⟨s, .inr before⟩

/-- New deeds are not known to those that do not count them. -/
theorem known_made (bounded : count site ≤ (deeds site).length) :
    known (Function.update deeds site (deeds site ++ [d])) count = known deeds count := by
  ext e
  refine exists_congr fun s => ?_
  by_cases here : s = site
  · subst s
    rw [Function.update_self, List.take_append_of_le_length bounded]
  · rw [Function.update_of_ne here]

/-- What both of two know. -/
def both (server client : SiteId → Nat) (site : SiteId) : Nat := min (server site) (client site)

theorem both_comm (server client : SiteId → Nat) : both server client = both client server :=
  funext fun _ => Nat.min_comm ..

/-- One of two learns what the other one knows. -/
theorem both_oneMore_of_lt (h : client site < server site) :
    both server (oneMore client site) = oneMore (both server client) site := by
  funext s
  by_cases here : s = site
  · subst s
    simp only [both, oneMore_self]
    omega
  · simp only [both, oneMore_of_ne _ here]

/-- One of two learns what the other one does not know. -/
theorem both_oneMore_of_le (h : server site ≤ client site) :
    both server (oneMore client site) = both server client := by
  funext s
  by_cases here : s = site
  · subst s
    simp only [both, oneMore_self]
    omega
  · simp only [both, oneMore_of_ne _ here]

/-- A site knows all its own deeds, and of the others none that the server does not know. -/
theorem known_client (own : client site = (deeds site).length)
    (behind : ∀ s, s ≠ site → client s ≤ server s)
    (bounded : server site ≤ (deeds site).length) :
    known deeds (both server client) ∪ {d | d ∈ (deeds site).drop (server site)} =
      known deeds client := by
  ext d
  have at_site : d ∈ (deeds site).take (both server client site) ∨
      d ∈ (deeds site).drop (server site) ↔ d ∈ (deeds site).take (client site) := by
    rw [both, own, Nat.min_eq_left bounded, List.take_length, ← List.mem_append,
      List.take_append_drop]
  have elsewhere : ∀ s, s ≠ site →
      (d ∈ (deeds s).take (both server client s) ↔ d ∈ (deeds s).take (client s)) := by
    intro s other
    rw [both, Nat.min_eq_right (behind s other)]
  constructor
  · rintro (⟨s, among⟩ | own)
    · by_cases here : s = site
      · subst s
        exact ⟨site, at_site.mp (.inl among)⟩
      · exact ⟨s, (elsewhere s here).mp among⟩
    · exact ⟨site, at_site.mp (.inr own)⟩
  · rintro ⟨s, among⟩
    by_cases here : s = site
    · subst s
      exact (at_site.mpr among).imp_left fun before => ⟨site, before⟩
    · exact .inl ⟨s, (elsewhere s here).mpr among⟩

end Known

/-- Deeds of one site among deeds with their sites. -/
def ofSite (site : SiteId) (news : List (SiteId × Deed α)) : List (Deed α) :=
  (news.filter (·.1 = site)).map Prod.snd

section News

variable {deeds : SiteId → List (Deed α)} {server client : SiteId → Nat} {site other : SiteId}
  {d : Deed α} {news : List (SiteId × Deed α)}

theorem ofSite_cons_self : ofSite site ((site, d) :: news) = d :: ofSite site news := by
  simp [ofSite]

theorem ofSite_cons_other (h : other ≠ site) :
    ofSite site ((other, d) :: news) = ofSite site news := by
  simp [ofSite, h]

theorem ofSite_append (more : List (SiteId × Deed α)) :
    ofSite site (news ++ more) = ofSite site news ++ ofSite site more := by
  simp [ofSite]

theorem mem_ofSite_iff : d ∈ news.map Prod.snd ↔ ∃ site, d ∈ ofSite site news := by
  simp [ofSite]

/-- What the server knows and a site does not. -/
def News (deeds : SiteId → List (Deed α)) (server client : SiteId → Nat)
    (news : List (SiteId × Deed α)) : Prop :=
  ∀ s, ofSite s news = ((deeds s).take (server s)).drop (client s)

namespace News

theorem mem_deeds (h : News deeds server client news) (among : d ∈ ofSite site news) :
    d ∈ deeds site := by
  rw [h] at among
  exact List.mem_of_mem_take (List.mem_of_mem_drop among)

/-- No site hears its own news. -/
theorem own (h : News deeds server client news) (all : client site = (deeds site).length) :
    ofSite site news = [] := by
  rw [h, all, List.drop_eq_nil_iff, List.length_take]
  exact Nat.min_le_right ..

/-- With the news, a site would know what the server knows. -/
theorem known_server (h : News deeds server client news) :
    known deeds (both server client) ∪ {d | d ∈ news.map Prod.snd} = known deeds server := by
  ext d
  have split : ∀ s, d ∈ (deeds s).take (both server client s) ∨ d ∈ ofSite s news ↔
      d ∈ (deeds s).take (server s) := by
    intro s
    rw [h, both, Nat.min_comm, ← List.take_take, ← List.mem_append, List.take_append_drop]
  simp only [known, Set.mem_union, Set.mem_ofPred_eq, mem_ofSite_iff, ← exists_or, split]

/-- The oldest news is the next deed that the site gets to know. -/
theorem heard (h : News deeds server client ((other, d) :: news)) :
    client other < server other ∧
      known deeds (both server (oneMore client other)) =
        insert d (known deeds (both server client)) ∧
      News deeds server (oneMore client other) news := by
  have next : ((deeds other).take (server other)).drop (client other) = d :: ofSite other news := by
    rw [← h, ofSite_cons_self]
  have there : ((deeds other).take (server other))[client other]? = some d := by
    rw [← List.head?_drop, next]
    rfl
  have known_there : client other < server other := by
    by_contra beyond
    rw [List.getElem?_take, if_neg beyond] at there
    cases there
  rw [List.getElem?_take, if_pos known_there] at there
  have least : both server client other = client other := Nat.min_eq_right known_there.le
  refine ⟨known_there, ?_, fun s => ?_⟩
  · rw [both_oneMore_of_lt known_there]
    exact known_oneMore (least ▸ there)
  · by_cases here : s = other
    · subst s
      rw [oneMore_self, ← List.tail_drop, next]
      rfl
    · rw [oneMore_of_ne _ here, ← h, ofSite_cons_other (Ne.symm here)]

/-- What the server gets to know is news to all other sites. -/
theorem served (h : News deeds server client news) (there : (deeds other)[server other]? = some d)
    (behind : client other ≤ server other) :
    News deeds (oneMore server other) client (news ++ [(other, d)]) := by
  obtain ⟨inside, -⟩ := List.getElem?_eq_some_iff.mp there
  intro s
  rw [ofSite_append]
  by_cases here : s = other
  · subst s
    rw [h, ofSite_cons_self, oneMore_self, List.take_add_one, there,
      List.drop_append_of_le_length (by rw [List.length_take]; omega)]
    rfl
  · rw [h, ofSite_cons_other (Ne.symm here), oneMore_of_ne _ here]
    exact List.append_nil _

/-- What a site does is no news before the server knows it. -/
theorem made (h : News deeds server client news) (bounded : server other ≤ (deeds other).length) :
    News (Function.update deeds other (deeds other ++ [d])) server client news := by
  intro s
  by_cases here : s = other
  · subst s
    rw [Function.update_self, List.take_append_of_le_length bounded]
    exact h other
  · rw [Function.update_of_ne here]
    exact h s

end News

end News

/-- Operations with the same stamps were made by the same sites. -/
theorem map_creator? {ops ops' : List (Operation α)}
    (same : ops'.map (·.stamp) = ops.map (·.stamp)) :
    ops'.map (·.creator?) = ops.map (·.creator?) := by
  have eq := congrArg (List.map (Option.map Stamp.creator)) same
  rwa [List.map_map, List.map_map] at eq

/-- What the gap of a registered site has to do with deeds. -/
structure Accounts [Element α] (deeds : SiteId → List (Deed α)) (server client : SiteId → Nat)
    (site : SiteId) (gap : Gap α) : Prop where
  own : client site = (deeds site).length
  behind : ∀ s, s ≠ site → client s ≤ server s
  bounded : server site ≤ (deeds site).length
  shared : Shows gap.shared (known deeds (both server client))
  mine : Tells (known deeds (both server client)) gap.shared gap.mine
    ((deeds site).drop (server site))
  theirs : ∃ news, News deeds server client news ∧
    gap.theirs.map (·.creator?) = news.map (fun new => some new.1) ∧
    Tells (known deeds (both server client)) gap.shared gap.theirs (news.map Prod.snd)

namespace Accounts

variable [Element α] {policy : Policy} {deeds : SiteId → List (Deed α)}
  {server client : SiteId → Nat} {site other : SiteId} {gap gap' : Gap α} {xs ys : List α}
  {op : Operation α} {d : Deed α}

theorem client_shows (h : Accounts deeds server client site gap)
    (effect : Operation.effects? gap.mine gap.shared = some xs) :
    Shows xs (known deeds client) := by
  rw [← known_client h.own h.behind h.bounded]
  exact h.mine.shows h.shared effect

theorem server_shows (h : Accounts deeds server client site gap)
    (effect : Operation.effects? gap.theirs gap.shared = some xs) :
    Shows xs (known deeds server) := by
  obtain ⟨news, all, -, tells⟩ := h.theirs
  rw [← all.known_server]
  exact tells.shows h.shared effect

/-- A site that has done nothing yet joins. -/
theorem join (new : deeds site = []) (unknown : server site = 0) (mine : gap.mine = [])
    (theirs : gap.theirs = []) (shows_server : Shows gap.shared (known deeds server)) :
    Accounts deeds server server site gap := by
  have all : both server server = server := funext fun s => Nat.min_self _
  refine ⟨by rw [new, unknown]; rfl, fun s _ => Nat.le_refl _, by rw [unknown]; exact Nat.zero_le _,
    all.symm ▸ shows_server, ?_, [], ?_, by rw [theirs]; rfl, ?_⟩
  · rw [mine, new, List.drop_nil]
    exact .nil ..
  · exact fun s => (List.drop_eq_nil_iff.mpr (List.length_take_le ..)).symm
  · rw [theirs]
    exact .nil ..

/-- The site does something. -/
theorem made (h : Accounts deeds server client site gap)
    (effect : Operation.effects? gap.mine gap.shared = some xs)
    (does : Does (known deeds client) xs op.edit d) (last : op.effect? xs = some ys) :
    Accounts (Function.update deeds site (deeds site ++ [d])) server (oneMore client site) site
      { gap with mine := gap.mine ++ [op] } := by
  have same : both server (oneMore client site) = both server client :=
    both_oneMore_of_le (h.own ▸ h.bounded)
  have unseen : known (Function.update deeds site (deeds site ++ [d])) (both server client) =
      known deeds (both server client) :=
    known_made (Nat.le_trans (Nat.min_le_left ..) h.bounded)
  obtain ⟨news, all, creators, tells⟩ := h.theirs
  refine ⟨?_, fun s elsewhere => ?_, ?_, ?_, ?_, news, fun s => ?_, creators, ?_⟩
  · rw [oneMore_self, Function.update_self, h.own, List.length_append]
    rfl
  · rw [oneMore_of_ne _ elsewhere]
    exact h.behind s elsewhere
  · rw [Function.update_self, List.length_append]
    exact Nat.le_trans h.bounded (Nat.le_add_right ..)
  · rw [same, unseen]
    exact h.shared
  · rw [same, unseen, Function.update_self, List.drop_append_of_le_length h.bounded]
    rw [← known_client h.own h.behind h.bounded] at does
    exact h.mine.append effect does last
  · by_cases here : s = site
    · subst s
      rw [all.own h.own, oneMore_self, Function.update_self,
        List.take_append_of_le_length h.bounded]
      exact (List.drop_eq_nil_iff.mpr (by rw [List.length_take, h.own]; omega)).symm
    · rw [oneMore_of_ne _ here, Function.update_of_ne here]
      exact all s
  · rw [same, unseen]
    exact tells

/-- Another site does something. -/
theorem made_elsewhere (h : Accounts deeds server client site gap) (elsewhere : other ≠ site)
    (bounded : server other ≤ (deeds other).length) :
    Accounts (Function.update deeds other (deeds other ++ [d])) server client site gap := by
  have unseen : known (Function.update deeds other (deeds other ++ [d])) (both server client) =
      known deeds (both server client) :=
    known_made (Nat.le_trans (Nat.min_le_left ..) bounded)
  have same : Function.update deeds other (deeds other ++ [d]) site = deeds site :=
    Function.update_of_ne (Ne.symm elsewhere) ..
  obtain ⟨news, all, creators, tells⟩ := h.theirs
  refine ⟨?_, h.behind, ?_, ?_, ?_, news, all.made bounded, creators, ?_⟩
  · rw [same]
    exact h.own
  · rw [same]
    exact h.bounded
  · rw [unseen]
    exact h.shared
  · rw [unseen, same]
    exact h.mine
  · rw [unseen]
    exact tells

/-- The site hears of the next deed of another one. -/
theorem heard (h : Accounts deeds server client site gap) (apart : Apart deeds)
    (effect : Operation.effects? gap.mine gap.shared = some xs)
    (moved : gap.Heard policy op gap') :
    ∃ creator, op.creator? = some creator ∧ creator ≠ site ∧
      Accounts deeds server (oneMore client creator) site gap' := by
  obtain ⟨b, oldest, first, past⟩ := moved
  obtain ⟨news, all, creators, tells⟩ := h.theirs
  rw [oldest] at creators tells
  cases news with
  | nil => cases creators
  | cons new news =>
    obtain ⟨creator, d⟩ := new
    obtain ⟨made_by, others⟩ := List.cons.inj creators
    cases tells with
    | cons does first' rest =>
      obtain rfl := Option.some.inj (first.symm.trans first')
      have among : d ∈ ofSite creator ((creator, d) :: news) := by
        rw [ofSite_cons_self]
        exact List.mem_cons_self
      have foreign : creator ≠ site := by
        rintro rfl
        rw [all.own h.own] at among
        cases among
      have signed : op.creator? = some creator := by
        rw [Operation.creator?, (transformPast_stamps past).1]
        exact made_by
      have alone : ∀ x, d = .added x → .added x ∉ (deeds site).drop (server site) := by
        rintro x rfl own
        exact foreign (apart _ _ x (all.mem_deeds among) (List.mem_of_mem_drop own))
      obtain ⟨-, mine⟩ := h.mine.pass does alone first effect past
      obtain ⟨within_reach, learned, all'⟩ := all.heard
      refine ⟨creator, signed, foreign, ?_, fun s elsewhere => ?_, h.bounded, ?_, ?_, news, all',
        others, ?_⟩
      · rw [oneMore_of_ne _ (Ne.symm foreign)]
        exact h.own
      · by_cases here : s = creator
        · subst s
          rw [oneMore_self]
          exact within_reach
        · rw [oneMore_of_ne _ here]
          exact h.behind s elsewhere
      · rw [learned]
        exact h.shared.step does first
      · rw [learned]
        exact mine
      · rw [learned]
        exact rest

/-- The server takes in the site's next deed. -/
theorem served (h : Accounts deeds server client site gap) (apart : Apart deeds)
    (effect : Operation.effects? gap.theirs gap.shared = some xs)
    (moved : gap.Served policy op gap') :
    ∃ d, (deeds site)[server site]? = some d ∧ Does (known deeds server) xs op.edit d ∧
      Accounts deeds (oneMore server site) client site gap' := by
  obtain ⟨a, oldest, first, past⟩ := moved
  obtain ⟨news, all, creators, tells⟩ := h.theirs
  have mine := h.mine
  rw [oldest] at mine
  generalize pending : (deeds site).drop (server site) = ds at mine
  cases mine with
  | @cons _ _ _ _ _ d ds does first' rest =>
    obtain rfl := Option.some.inj (first.symm.trans first')
    have there : (deeds site)[server site]? = some d := by
      rw [← List.head?_drop, pending]
      rfl
    obtain ⟨inside, -⟩ := List.getElem?_eq_some_iff.mp there
    have alone : ∀ x, d = .added x → .added x ∉ news.map Prod.snd := by
      rintro x rfl among
      obtain ⟨s, among⟩ := mem_ofSite_iff.mp among
      obtain rfl := apart _ _ x (List.mem_of_getElem? there) (all.mem_deeds among)
      rw [all.own h.own] at among
      cases among
    obtain ⟨last, theirs⟩ := tells.pass does alone first effect past
    rw [all.known_server] at last
    have least : both client server site = server site := Nat.min_eq_right (h.own ▸ h.bounded)
    have learned : known deeds (both (oneMore server site) client) =
        insert d (known deeds (both server client)) := by
      rw [both_comm, both_oneMore_of_lt (h.own ▸ inside), both_comm server client]
      exact known_oneMore (least.symm ▸ there)
    refine ⟨d, there, last, h.own, fun s elsewhere => ?_, ?_, ?_, ?_, news, fun s => ?_, ?_, ?_⟩
    · rw [oneMore_of_ne _ elsewhere]
      exact h.behind s elsewhere
    · rw [oneMore_self]
      exact inside
    · rw [learned]
      exact h.shared.step does first
    · rw [learned, oneMore_self, ← List.tail_drop, pending]
      exact rest
    · by_cases here : s = site
      · subst s
        rw [all.own h.own, h.own]
        exact (List.drop_eq_nil_iff.mpr (List.length_take_le' ..)).symm
      · rw [oneMore_of_ne _ here]
        exact all s
    · rw [← creators]
      exact map_creator? (transformPast_stamps past).2
    · rw [learned]
      exact theirs

/-- The server takes in the next deed of another site. -/
theorem relayed (h : Accounts deeds server client site gap) (elsewhere : other ≠ site)
    (there : (deeds other)[server other]? = some d)
    (effect : Operation.effects? gap.theirs gap.shared = some xs)
    (does : Does (known deeds server) xs op.edit d) (last : op.effect? xs = some ys)
    (signed : op.creator? = some other) :
    Accounts deeds (oneMore server other) client site
      { gap with theirs := gap.theirs ++ [op] } := by
  obtain ⟨news, all, creators, tells⟩ := h.theirs
  have behind := h.behind other elsewhere
  have still : oneMore server other site = server site := oneMore_of_ne _ (Ne.symm elsewhere)
  have same : both (oneMore server other) client = both server client := by
    rw [both_comm, both_oneMore_of_le behind, both_comm]
  refine ⟨h.own, fun s away => ?_, still.symm ▸ h.bounded, ?_, ?_, _, all.served there behind, ?_,
    ?_⟩
  · refine Nat.le_trans (h.behind s away) ?_
    by_cases here : s = other
    · subst s
      rw [oneMore_self]
      exact Nat.le_succ _
    · rw [oneMore_of_ne _ here]
  · rw [same]
    exact h.shared
  · rw [same, still]
    exact h.mine
  · rw [List.map_append, List.map_append, creators, List.map_singleton, signed]
    rfl
  · rw [same, List.map_append]
    rw [← all.known_server] at does
    exact tells.append effect does last

/-- An operation that comes back changes nothing. -/
theorem echoed (h : Accounts deeds server client site gap) (shared : gap'.shared = gap.shared)
    (mine : gap'.mine.map (·.edit) = gap.mine.map (·.edit)) (theirs : gap'.theirs = gap.theirs) :
    Accounts deeds server client site gap' := by
  refine ⟨h.own, h.behind, h.bounded, shared ▸ h.shared, ?_, ?_⟩
  · rw [shared]
    exact h.mine.of_edits mine
  · rw [shared, theirs]
    exact h.theirs

end Accounts

end CoEdit
