import CoEdit.Proofs.Delivery
import CoEdit.Proofs.Relay
import Mathlib.Algebra.Ring.Nat
import Mathlib.Data.List.Nodup

/-!
# The links drain

When nobody edits, joins or leaves any more, what is on the links can only be delivered. A delivery
to the server is answered with messages to the sites, and a wave client that hears its echo sends
what waited in its buffer, so the links may well get longer. What gets shorter is the load of the
star (`Star.load`): a message for a site counts once, and an operation that has still to go up
counts as many times as it will be delivered. Every delivery takes one off it (`lowers_up`,
`lowers_down`).
-/

namespace CoEdit

open ClientAlgorithm ServerAlgorithm

variable {α : Type}

namespace SortedMap

variable {κ β : Type} [Ord κ] [Std.TransOrd κ]

/-- What the values of a map weigh together. -/
def total (m : SortedMap κ β) (weight : β → Nat) : Nat := (m.values.map weight).sum

/-- A new value takes the place of the one that was there. -/
theorem total_insert (m : SortedMap κ β) (k : κ) (v : β) (weight : β → Nat) :
    (m.insert k v).total weight + ((m.get? k).map weight).getD 0 = m.total weight + weight v := by
  obtain ⟨entries, ascending⟩ := m
  simp only [total, values, insert, get?]
  induction entries with
  | nil => simp [Entries.insert, Entries.lookup]
  | cons entry rest ih =>
    obtain ⟨k', v'⟩ := entry
    obtain ⟨first, others⟩ := List.pairwise_cons.mp ascending
    have ih := ih others
    unfold Entries.insert
    split
    · rename_i lt
      have absent : Entries.lookup k ((k', v') :: rest) = none := by
        refine Entries.lookup_eq_none_of_lt fun e among => ?_
        rcases List.mem_cons.mp among with rfl | among
        · exact lt
        · exact Std.TransCmp.lt_trans lt (first e among)
      rw [absent]
      simp only [List.map_cons, List.sum_cons, Option.map_none, Option.getD_none]
      omega
    · rename_i eq
      simp only [Entries.lookup, eq, if_true, List.map_cons, List.sum_cons, Option.map_some,
        Option.getD_some]
      omega
    · rename_i gt
      have later : Entries.lookup k ((k', v') :: rest) = Entries.lookup k rest := by
        simp [Entries.lookup, gt]
      rw [later]
      simp only [List.map_cons, List.sum_cons]
      omega

/-- Every value is stored under some key. -/
theorem exists_get?_of_mem {m : SortedMap κ β} {v : β} (among : v ∈ m.values) :
    ∃ k, m.get? k = some v := by
  obtain ⟨entries, ascending⟩ := m
  simp only [values, get?] at among ⊢
  induction entries with
  | nil => cases among
  | cons entry rest ih =>
    obtain ⟨k', v'⟩ := entry
    obtain ⟨first, others⟩ := List.pairwise_cons.mp ascending
    rcases List.mem_cons.mp among with rfl | later
    · exact ⟨k', by simp [Entries.lookup]⟩
    · obtain ⟨k, found⟩ := ih others later
      refine ⟨k, ?_⟩
      have differs : compare k k' ≠ .eq := by
        intro same
        have absent : Entries.lookup k rest = none := Entries.lookup_eq_none_of_lt fun e among =>
          Std.TransCmp.lt_of_eq_of_lt same (first e among)
        rw [absent] at found
        cases found
      simp only [Entries.lookup, if_neg differs]
      exact found

theorem total_eq_zero {m : SortedMap κ β} {weight : β → Nat}
    (light : ∀ k v, m.get? k = some v → weight v = 0) : m.total weight = 0 := by
  refine List.sum_eq_zero_iff_forall_eq_nat.mpr fun n among => ?_
  obtain ⟨v, stored, rfl⟩ := List.mem_map.mp among
  obtain ⟨k, found⟩ := exists_get?_of_mem stored
  exact light k v found

variable [Std.LawfulEqOrd κ]

omit [Std.TransOrd κ] in
theorem nodup_keys (m : SortedMap κ β) : m.keys.Nodup := by
  refine List.pairwise_map.mpr (m.ascending.imp ?_)
  intro a b lt same
  rw [same, Std.ReflOrd.compare_self] at lt
  cases lt

omit [Std.TransOrd κ] in
theorem length_erase [DecidableEq κ] (m : SortedMap κ β) {k : κ} (there : k ∈ m.keys) :
    (m.erase k).entries.length + 1 = m.keys.length := by
  have once : m.keys.count k = 1 := List.count_eq_one_of_mem m.nodup_keys there
  have all := m.entries.length_eq_countP_add_countP fun entry => entry.1 = k
  have here : m.entries.countP (fun entry => entry.1 = k) = m.keys.count k := by
    rw [List.count_eq_countP, keys, List.countP_map]
    exact List.countP_congr fun entry _ => by simp
  rw [entries_erase, ← List.countP_eq_length_filter, keys, List.length_map, all, here, once,
    Nat.add_comm]
  simp

end SortedMap

namespace Star

section Links

variable {S C : Type → Type} (star : Star S C α) (site t : SiteId)
  (sent : List (Address × Operation α))

theorem total_setUp (ops : List (Operation α)) :
    (star.setUp site ops).up.total List.length + (star.upLink site).length =
      star.up.total List.length + ops.length := by
  rw [← star.up.total_insert site ops List.length, upLink]
  cases star.up.get? site <;> rfl

theorem total_setDown (ops : List (Operation α)) :
    (star.setDown site ops).down.total List.length + (star.downLink site).length =
      star.down.total List.length + ops.length := by
  rw [← star.down.total_insert site ops List.length, downLink]
  cases star.down.get? site <;> rfl

/-- What a client sends is added to what is on its way up. -/
theorem total_sendUp :
    (star.sendUp site sent).up.total List.length = star.up.total List.length + sent.length := by
  simp only [sendUp]
  split
  · rename_i nothing
    rw [List.isEmpty_iff.mp nothing]
    rfl
  · have moved := star.total_setUp site (star.upLink site ++ sent.map Prod.snd)
    rw [List.length_append, List.length_map] at moved
    omega

/-- What the server sends to sites is added to what is on its way down. -/
theorem total_sendDown :
    (star.sendDown sent).down.total List.length =
      star.down.total List.length + sent.countP (·.1 ≠ .server) := by
  induction sent generalizing star with
  | nil => rfl
  | cons first rest ih =>
    obtain ⟨address, op⟩ := first
    cases address with
    | server => exact ih star
    | site s =>
      have moved := star.total_setDown s (star.downLink s ++ [op])
      have later := ih (star.setDown s (star.downLink s ++ [op]))
      rw [List.length_append, List.length_singleton] at moved
      rw [List.countP_cons_of_pos (by simp)]
      change ((star.setDown s (star.downLink s ++ [op])).sendDown rest).down.total _ = _
      omega

end Links

section Load

variable {S C : Type → Type} [ClientAlgorithm C]

/-- What may still happen on the links, if what goes up is delivered `copies` times. -/
def load (star : Star S C α) (copies : Nat) : Nat :=
  star.down.total List.length + star.upwardLoad * copies

theorem upwardLoad_eq (star : Star S C α) :
    star.upwardLoad =
      star.up.total List.length + star.clients.total fun c => (waiting c).length := by
  rw [upwardLoad, List.length_flatten, List.length_flatMap]
  rfl

variable [Element α]

theorem deliverDown?_eq {star : Star S C α} {site : SiteId}
    {o : Outcome (Star S C α) α (Operation α)} (h : star.deliverDown? site = some o) :
    ∃ client op rest, star.clients.get? site = some client ∧ star.downLink site = op :: rest ∧
      o.state = ((star.setDown site rest).setClient site
        (ClientAlgorithm.integrate client op).state).sendUp site
          (ClientAlgorithm.integrate client op).sent := by
  simp only [deliverDown?] at h
  split at h
  · rename_i op rest client link found
    cases h
    refine ⟨client, op, rest, found, link, ?_⟩
    have found' : (star.setDown site rest).clients.get? site = some client := found
    simp only [clientReceive, atClient, getClient, found']
    rfl
  · cases h

end Load

variable {S C : Type → Type} [ServerAlgorithm S] [Element α]

theorem deliverUp?_eq {star : Star S C α} {site : SiteId}
    {o : Outcome (Star S C α) α (Operation α)} (h : star.deliverUp? site = some o) :
    ∃ op rest, star.upLink site = op :: rest ∧
      o.state = ({ star.setUp site rest with
        server := (ServerAlgorithm.integrate star.server op).state } : Star S C α).sendDown
          (ServerAlgorithm.integrate star.server op).sent := by
  simp only [deliverUp?] at h
  split at h
  · cases h
  · rename_i op rest link
    cases h
    exact ⟨op, rest, link, rfl⟩

variable [ClientAlgorithm C]

/-- What reaches the server has no longer to go up. -/
theorem upwardLoad_up {star : Star S C α} {site : SiteId}
    {o : Outcome (Star S C α) α (Operation α)} (delivered : star.deliverUp? site = some o) :
    o.state.upwardLoad + 1 = star.upwardLoad := by
  obtain ⟨op, rest, link, eq⟩ := deliverUp?_eq delivered
  obtain ⟨-, -, clients, up, -⟩ := ({ star.setUp site rest with
    server := (ServerAlgorithm.integrate star.server op).state } : Star S C α).sendDown_eq
      (ServerAlgorithm.integrate star.server op).sent
  have ups := star.total_setUp site rest
  rw [link, List.length_cons] at ups
  rw [eq, upwardLoad_eq, upwardLoad_eq, clients, up]
  change (star.setUp site rest).up.total List.length +
    star.clients.total (fun c => (waiting c).length) + 1 = _
  omega

/-- A number of deliveries, one after the other. -/
inductive Delivers : Star S C α → Nat → Star S C α → Prop where
  | none (star : Star S C α) : Delivers star 0 star
  | up {star star' : Star S C α} {site : SiteId} {o : Outcome (Star S C α) α (Operation α)}
      {n : Nat} (now : star.deliverUp? site = some o) (later : Delivers o.state n star') :
      Delivers star (n + 1) star'
  | down {star star' : Star S C α} {site : SiteId} {o : Outcome (Star S C α) α (Operation α)}
      {n : Nat} (now : star.deliverDown? site = some o) (later : Delivers o.state n star') :
      Delivers star (n + 1) star'

/-- There is nothing to deliver. -/
def Stuck (star : Star S C α) : Prop :=
  ∀ site, star.deliverUp? site = none ∧ star.deliverDown? site = none

/-- Deliveries come to an end, always after the same number of them and with all links empty. -/
structure DrainsIn (star : Star S C α) (deliveries : Nat) : Prop where
  bounded : ∀ {n star'}, star.Delivers n star' → n ≤ deliveries
  goes_on : ∀ {n star'}, star.Delivers n star' → ∃ m final, star'.Delivers m final ∧ final.Stuck
  exact : ∀ {n final}, star.Delivers n final → final.Stuck →
    n = deliveries ∧ final.up.values.flatten = [] ∧ final.down.values.flatten = []

theorem after_up {star : Star S C α} {site : SiteId} {o : Outcome (Star S C α) α (Operation α)}
    (delivered : star.deliverUp? site = some o) : star.after (.up site) = o.state := by
  simp only [after, act?, delivered, Option.map_some]
  rfl

theorem after_down {star : Star S C α} {site : SiteId} {o : Outcome (Star S C α) α (Operation α)}
    (delivered : star.deliverDown? site = some o) : star.after (.down site) = o.state := by
  simp only [after, act?, delivered, Option.map_some]
  rfl

/-- Where a star is not stuck, there is a delivery to go on with. -/
theorem exists_delivery {star : Star S C α} (moves : ¬ star.Stuck) :
    ∃ next, star.Delivers 1 next ∧ ∀ {n final}, next.Delivers n final →
      star.Delivers (n + 1) final := by
  simp only [Stuck, not_forall, not_and_or] at moves
  obtain ⟨site, up | down⟩ := moves
  · obtain ⟨o, delivered⟩ := Option.ne_none_iff_exists'.mp up
    exact ⟨o.state, .up delivered (.none _), .up delivered⟩
  · obtain ⟨o, delivered⟩ := Option.ne_none_iff_exists'.mp down
    exact ⟨o.state, .down delivered (.none _), .down delivered⟩

omit [ClientAlgorithm C] in
/-- A delivery to the server shortens one link to it, and what the server sends goes down. -/
theorem deliverUp?_links {star : Star S C α} {site : SiteId}
    {o : Outcome (Star S C α) α (Operation α)} (delivered : star.deliverUp? site = some o) :
    ∃ op rest, star.upLink site = op :: rest ∧
      (∀ t, o.state.upLink t = if t = site then rest else star.upLink t) ∧
      ∀ t, o.state.downLink t =
        star.downLink t ++ mailed t (ServerAlgorithm.integrate star.server op).sent := by
  obtain ⟨op, rest, link, eq⟩ := deliverUp?_eq delivered
  obtain ⟨-, -, -, up, downs⟩ := ({ star.setUp site rest with
    server := (ServerAlgorithm.integrate star.server op).state } : Star S C α).sendDown_eq
      (ServerAlgorithm.integrate star.server op).sent
  refine ⟨op, rest, link, fun t => ?_, fun t => ?_⟩
  · rw [eq, upLink, up]
    exact star.upLink_setUp site t rest
  · rw [eq, downs]
    rfl

omit [ServerAlgorithm S] in
/-- A delivery to a client shortens the link to it, and what the client sends goes up. -/
theorem deliverDown?_links {star : Star S C α} {site : SiteId}
    {o : Outcome (Star S C α) α (Operation α)} (delivered : star.deliverDown? site = some o) :
    (star.seat? site).isSome ∧ ∃ op rest, star.downLink site = op :: rest ∧
      (∀ t, o.state.downLink t = if t = site then rest else star.downLink t) ∧
      ∀ t, t ≠ site → o.state.upLink t = star.upLink t := by
  obtain ⟨client, op, rest, found, link, eq⟩ := deliverDown?_eq delivered
  obtain ⟨-, -, -, down, ups⟩ := sendUp_eq
    ((star.setDown site rest).setClient site (ClientAlgorithm.integrate client op).state) site
    (ClientAlgorithm.integrate client op).sent
  refine ⟨?_, op, rest, link, fun t => ?_, fun t elsewhere => ?_⟩
  · rw [seat?, found]
    rfl
  · rw [eq, downLink, down]
    exact star.downLink_setDown site t rest
  · rw [eq, ups, if_neg elsewhere]
    rfl

/-- How the links of a site come to be filled: its client sends, or the server sends to it. -/
structure FilledFrom (star : Star S C α) (t : SiteId) (star' : Star S C α) : Prop where
  up : star'.upLink t ≠ [] → star.upLink t ≠ [] ∨ (star.seat? t).isSome
  down : star'.downLink t ≠ [] → star.downLink t ≠ [] ∨
    ∃ op, mailed t (ServerAlgorithm.integrate star.server op).sent ≠ []

section FilledFrom

variable {star : Star S C α} {site : SiteId}

omit [ClientAlgorithm C] in
theorem addSite_fills (star : Star S C α) (site t : SiteId) :
    star.FilledFrom t (star.addSite site).state := by
  simp only [addSite, atServer]
  cases ServerAlgorithm.addSite star.server site star.fillMode <;> exact ⟨.inl, .inl⟩

/-- A site that joins finds its links empty, and the others stay as they are. -/
theorem join_fills (star : Star S C α) (site t : SiteId) :
    star.FilledFrom t (star.join site).state := by
  have added := star.addSite_fills site t
  simp only [join]
  split
  · exact ⟨.inl, .inl⟩
  · split
    · exact added
    · rename_i data _ client _
      let filled := (star.addSite site).state.setClient site client
      change star.FilledFrom t ((filled.setUp site []).setDown site [])
      constructor
      · intro busy
        have busy : (filled.setUp site []).upLink t ≠ [] := busy
        rw [upLink_setUp] at busy
        split at busy
        · exact absurd rfl busy
        · exact added.up busy
      · intro busy
        rw [downLink_setDown] at busy
        split at busy
        · exact absurd rfl busy
        · exact added.down busy

omit [ClientAlgorithm C] in
theorem removeSite_fills (star : Star S C α) (site t : SiteId) :
    star.FilledFrom t (star.removeSite site).state := by
  cases removed : ServerAlgorithm.removeSite star.server site with
  | error e =>
    rw [removeSite_of_error removed]
    exact ⟨.inl, .inl⟩
  | ok server =>
    rw [removeSite_of_ok removed]
    exact ⟨.inl, .inl⟩

theorem edit_fills (star : Star S C α) (site : SiteId) (op : Operation α) (t : SiteId) :
    star.FilledFrom t (star.edit site op).state := by
  cases seated : star.seat? site with
  | none =>
    rw [edit_of_vacant seated]
    exact ⟨.inl, .inl⟩
  | some seat =>
    have down : (star.edit site op).state.down = star.down := by
      simp only [edit]
      rw [atClient_eq seated]
      exact (sendUp_eq ..).2.2.2.1
    constructor
    · intro busy
      rw [(edit_spec seated op).2.ups] at busy
      split at busy
      · rename_i here
        exact .inr (by rw [here, seated]; rfl)
      · exact .inl busy
    · intro busy
      rw [downLink, down] at busy
      exact .inl busy

omit [ClientAlgorithm C] in
theorem deliverUp?_fills {o : Outcome (Star S C α) α (Operation α)}
    (delivered : star.deliverUp? site = some o) (t : SiteId) : star.FilledFrom t o.state := by
  obtain ⟨op, rest, link, ups, downs⟩ := deliverUp?_links delivered
  constructor
  · intro busy
    rw [ups] at busy
    split at busy
    · rename_i here
      exact .inl (by rw [here, link]; exact List.cons_ne_nil _ _)
    · exact .inl busy
  · intro busy
    rw [downs] at busy
    by_cases empty : star.downLink t = []
    · rw [empty, List.nil_append] at busy
      exact .inr ⟨op, busy⟩
    · exact .inl empty

theorem deliverDown?_fills {o : Outcome (Star S C α) α (Operation α)}
    (delivered : star.deliverDown? site = some o) (t : SiteId) : star.FilledFrom t o.state := by
  obtain ⟨seated, op, rest, link, downs, ups⟩ := deliverDown?_links delivered
  constructor
  · intro busy
    by_cases here : t = site
    · exact .inr (here ▸ seated)
    · rw [ups t here] at busy
      exact .inl busy
  · intro busy
    rw [downs] at busy
    split at busy
    · rename_i here
      exact .inl (by rw [here, link]; exact List.cons_ne_nil _ _)
    · exact .inl busy

theorem act?_fills {action : Action α} {o : Outcome (Star S C α) α (Report α)}
    (acted : star.act? action = some o) (t : SiteId) : star.FilledFrom t o.state := by
  cases action with
  | join site mode =>
    obtain ⟨-, rfl⟩ := act?_join acted
    obtain ⟨up, down⟩ := ({ star with fillMode := mode } : Star S C α).join_fills site t
    exact ⟨up, down⟩
  | leave site =>
    cases acted
    exact star.removeSite_fills site t
  | edit site op =>
    cases acted
    exact star.edit_fills site op t
  | up site =>
    obtain ⟨o, delivered, rfl⟩ := Option.map_eq_some_iff.mp acted
    exact deliverUp?_fills delivered t
  | down site =>
    obtain ⟨o, delivered, rfl⟩ := Option.map_eq_some_iff.mp acted
    exact deliverDown?_fills delivered t

end FilledFrom

/-- Wherever something is on a link there is a client, and all clients are registered. -/
structure Staffed (star : Star S C α) : Prop where
  enrolled : ∀ site, star.Enrolled site
  up : ∀ site, star.upLink site ≠ [] → (star.seat? site).isSome
  down : ∀ site, star.downLink site ≠ [] → (star.seat? site).isSome

end Star

/-- A star that a schedule leads to on which nobody leaves. -/
structure Simulation.Manned {S C : Type → Type} [ServerAlgorithm S] [ClientAlgorithm C]
    [Element α] {policy : Policy} (sim : Simulation S C α policy) (star : Star S C α) : Prop where
  follows : ∃ gaps, sim.Follows star gaps
  staffed : star.Staffed

/-- What the messages of a server amount to: it sends to registered sites only, and to all of them
or, where nothing is echoed, to all but one. A client with empty links has nothing to wait for. -/
structure Simulation.Spreads {S C : Type → Type} [ServerAlgorithm S] [ClientAlgorithm C]
    [Element α] {policy : Policy} (sim : Simulation S C α policy) (echoes : Nat) : Prop where
  discreet : sim.Discreet
  posted : ∀ {server op op'}, sim.Sound server →
    (ServerAlgorithm.integrate server op).result = .ok op' →
      (ServerAlgorithm.integrate server op).sent.countP (·.1 ≠ .server) + 1 =
        (sites server).length + echoes
  rests : ∀ {server site client gap}, sim.Tracks server site ⟨client, [], []⟩ gap →
    waiting client = []

namespace Simulation.Spreads

variable {S C : Type → Type} [ServerAlgorithm S] [ClientAlgorithm C] [Element α] {policy : Policy}
  {sim : Simulation S C α policy} {echoes : Nat} {Rel : Operation α → Operation α → Prop}
  {star : Star S C α} {site : SiteId}

/-- Who joins finds empty links, and the server sends to nobody who has not joined. -/
theorem manned_after (h : sim.Spreads echoes) (manned : sim.Manned star) {action : Action α}
    (stays : ∀ site, action ≠ .leave site) : sim.Manned (star.after action) := by
  obtain ⟨⟨gaps, follows⟩, staffed⟩ := manned
  obtain ⟨gaps', follows', -⟩ := follows.after action
  have enrolled : ∀ site, (star.after action).Enrolled site := fun site =>
    follows.enrolled_after (stays site) (staffed.enrolled site)
  refine ⟨⟨gaps', follows'⟩, ?_⟩
  simp only [Star.after] at enrolled ⊢
  cases acted : star.act? action with
  | none => exact staffed
  | some o =>
    rw [acted] at enrolled
    have attends := follows.act?_attends acted
    refine ⟨enrolled, fun t busy => ?_, fun t busy => ?_⟩
    · refine (attends.seats t).mpr (.inr ?_)
      exact ((Star.act?_fills acted t).up busy).elim (staffed.up t) id
    · refine (attends.seats t).mpr (.inr ?_)
      rcases (Star.act?_fills acted t).down busy with before | ⟨op, sent⟩
      · exact staffed.down t before
      · have member : t ∈ sites star.server := by
          by_contra stranger
          exact sent (h.discreet follows.sound stranger op)
        obtain ⟨seat, seated, -⟩ := follows.tracked t member
        rw [seated]
        rfl

/-- As long as nobody leaves, every link has its client at the end. -/
theorem manned_run (h : sim.Spreads echoes) (mode : FillMode) {schedule : List (Action α)}
    (stays : ∀ site, .leave site ∉ schedule) :
    sim.Manned ((Star.start policy mode : Star S C α).run schedule) := by
  suffices general : ∀ star : Star S C α, sim.Manned star → sim.Manned (star.run schedule) by
    refine general _ ⟨⟨_, sim.follows_start mode fun _ => ⟨[], [], []⟩⟩, ?_, ?_, ?_⟩
    · intro site seated
      cases seated
    · intro site busy
      exact absurd rfl busy
    · intro site busy
      exact absurd rfl busy
  induction schedule with
  | nil => exact fun _ manned => manned
  | cons action rest ih =>
    intro star manned
    have here : ∀ site, action ≠ .leave site := fun site same =>
      stays site (same ▸ List.mem_cons_self)
    exact ih (fun site later => stays site (List.mem_cons_of_mem _ later)) _
      (h.manned_after manned here)

/-- A delivery to the server finds everybody there, and leaves everybody there. -/
theorem up_manned (h : sim.Spreads echoes) (manned : sim.Manned star)
    {o : Outcome (Star S C α) α (Operation α)} (delivered : star.deliverUp? site = some o) :
    site ∈ sites star.server ∧ sim.Manned o.state ∧ sites o.state.server = sites star.server := by
  obtain ⟨op, rest, link, -⟩ := Star.deliverUp?_links delivered
  obtain ⟨gaps, follows⟩ := manned.follows
  obtain ⟨gaps', -, members, -⟩ := follows.up delivered
  have busy : star.upLink site ≠ [] := by
    rw [link]
    exact List.cons_ne_nil _ _
  refine ⟨manned.staffed.enrolled site (manned.staffed.up site busy), ?_, members⟩
  rw [← Star.after_up delivered]
  exact h.manned_after manned nofun

theorem down_manned (h : sim.Spreads echoes) (manned : sim.Manned star)
    {o : Outcome (Star S C α) α (Operation α)} (delivered : star.deliverDown? site = some o) :
    site ∈ sites star.server ∧ sim.Manned o.state ∧ sites o.state.server = sites star.server := by
  obtain ⟨seated, -⟩ := Star.deliverDown?_links delivered
  obtain ⟨gaps, follows⟩ := manned.follows
  obtain ⟨gaps', -, server, -⟩ := follows.down delivered
  refine ⟨manned.staffed.enrolled site seated, ?_, congrArg sites server⟩
  rw [← Star.after_down delivered]
  exact h.manned_after manned nofun

/-- A delivery to the server takes one off the load: what it takes from the links it gives back, but
for one. -/
theorem lowers_up (h : sim.Spreads echoes) (manned : sim.Manned star)
    {o : Outcome (Star S C α) α (Operation α)} (delivered : star.deliverUp? site = some o) :
    o.state.load ((sites star.server).length + echoes) + 1 =
      star.load ((sites star.server).length + echoes) := by
  obtain ⟨member, -⟩ := h.up_manned manned delivered
  obtain ⟨gaps, follows⟩ := manned.follows
  obtain ⟨op, rest, link, eq⟩ := Star.deliverUp?_eq delivered
  obtain ⟨⟨client, up, down⟩, seated, tracks⟩ := follows.tracked site member
  obtain rfl : op :: rest = up := link.symm.trans (Star.seat?_eq_some_iff.mp seated).2.1
  have own : op.creator? = some site :=
    follows.signed site op (by rw [link]; exact List.mem_cons_self)
  obtain ⟨op', _, served, -⟩ := sim.serve follows.sound member own tracks
  have posted := h.posted follows.sound served
  have more : o.state.down.total List.length = star.down.total List.length +
      (ServerAlgorithm.integrate star.server op).sent.countP (·.1 ≠ .server) := by
    rw [eq]
    exact Star.total_sendDown ..
  simp only [Star.load]
  rw [more, ← Star.upwardLoad_up delivered, Nat.add_mul, Nat.one_mul]
  omega

/-- What a client sends as it hears of something, it had waiting. -/
theorem upwardLoad_down (carries : sim.Carries Rel) (manned : sim.Manned star)
    {o : Outcome (Star S C α) α (Operation α)} (delivered : star.deliverDown? site = some o) :
    o.state.upwardLoad = star.upwardLoad := by
  obtain ⟨gaps, follows⟩ := manned.follows
  obtain ⟨client, op, rest, found, link, eq⟩ := Star.deliverDown?_eq delivered
  have seated : star.seat? site = some ⟨client, star.upLink site, op :: rest⟩ :=
    Star.seat?_eq_some_iff.mpr ⟨found, rfl, link⟩
  obtain ⟨seat, seated', tracks⟩ :=
    follows.tracked site (manned.staffed.enrolled site (by rw [seated]; rfl))
  obtain rfl := Option.some.inj (seated.symm.trans seated')
  have passed := (carries.hear tracks).length_eq
  rw [List.length_append, List.length_map] at passed
  let next := (star.setDown site rest).setClient site (ClientAlgorithm.integrate client op).state
  obtain ⟨-, -, clients, -⟩ := next.sendUp_eq site (ClientAlgorithm.integrate client op).sent
  have ups := next.total_sendUp site (ClientAlgorithm.integrate client op).sent
  have waits := star.clients.total_insert site (ClientAlgorithm.integrate client op).state
    fun c => (waiting c).length
  rw [found, Option.map_some, Option.getD_some] at waits
  rw [eq, Star.upwardLoad_eq, Star.upwardLoad_eq, clients, ups]
  change star.up.total List.length + _ +
    (star.clients.insert site _).total (fun c => (waiting c).length) = _
  omega

/-- A delivery to a client takes one off the load. -/
theorem lowers_down (carries : sim.Carries Rel) (manned : sim.Manned star)
    {o : Outcome (Star S C α) α (Operation α)} (delivered : star.deliverDown? site = some o)
    (copies : Nat) : o.state.load copies + 1 = star.load copies := by
  obtain ⟨client, op, rest, -, link, eq⟩ := Star.deliverDown?_eq delivered
  obtain ⟨-, -, -, down, -⟩ := Star.sendUp_eq
    ((star.setDown site rest).setClient site (ClientAlgorithm.integrate client op).state) site
    (ClientAlgorithm.integrate client op).sent
  have downs := star.total_setDown site rest
  rw [link, List.length_cons] at downs
  have fewer : o.state.down.total List.length + 1 = star.down.total List.length := by
    rw [eq, down]
    change (star.setDown site rest).down.total List.length + 1 = _
    omega
  simp only [Star.load]
  rw [upwardLoad_down carries manned delivered]
  omega

/-- Deliveries leave a star with its members, and take one off its load each. -/
theorem delivers_load (h : sim.Spreads echoes) (carries : sim.Carries Rel)
    (manned : sim.Manned star) {n : Nat} {star' : Star S C α} (delivers : star.Delivers n star') :
    sim.Manned star' ∧ star'.load ((sites star'.server).length + echoes) + n =
      star.load ((sites star.server).length + echoes) := by
  induction delivers with
  | none => exact ⟨manned, rfl⟩
  | @up star star' site o n now later ih =>
    obtain ⟨-, manned', members⟩ := h.up_manned manned now
    obtain ⟨manned'', load⟩ := ih manned'
    have lower := h.lowers_up manned now
    rw [members] at load
    exact ⟨manned'', by omega⟩
  | @down star star' site o n now later ih =>
    obtain ⟨-, manned', members⟩ := h.down_manned manned now
    obtain ⟨manned'', load⟩ := ih manned'
    have lower := lowers_down carries manned now ((sites star.server).length + echoes)
    rw [members] at load
    exact ⟨manned'', by omega⟩

omit [Element α] in
theorem total_length_eq_zero {links : SortedMap SiteId (List (Operation α))}
    (empty : ∀ site, (links.get? site).getD [] = []) : links.total List.length = 0 := by
  refine SortedMap.total_eq_zero fun site ops found => ?_
  have nothing := empty site
  rw [found] at nothing
  exact congrArg List.length nothing

/-- Where nothing can be delivered there is nothing on the links. -/
theorem stuck_links (staffed : star.Staffed) (stuck : star.Stuck) (site : SiteId) :
    star.upLink site = [] ∧ star.downLink site = [] := by
  constructor
  · cases link : star.upLink site with
    | nil => rfl
    | cons op rest =>
      obtain ⟨o, delivered, -⟩ := Star.deliverUp?_of_link link
      rw [(stuck site).1] at delivered
      cases delivered
  · cases link : star.downLink site with
    | nil => rfl
    | cons op rest =>
      have seated := staffed.down site (by rw [link]; exact List.cons_ne_nil _ _)
      obtain ⟨seat, seated⟩ := Option.isSome_iff_exists.mp seated
      obtain ⟨o, delivered, -⟩ :=
        Star.deliverDown?_of_link link (Star.seat?_eq_some_iff.mp seated).1
      rw [(stuck site).2] at delivered
      cases delivered

theorem stuck_tracks (manned : sim.Manned star) (stuck : star.Stuck) {client : C α}
    (found : star.clients.get? site = some client) :
    ∃ gap, sim.Tracks star.server site ⟨client, [], []⟩ gap := by
  obtain ⟨gaps, follows⟩ := manned.follows
  obtain ⟨up, down⟩ := stuck_links manned.staffed stuck site
  have seated : star.seat? site = some ⟨client, [], []⟩ :=
    Star.seat?_eq_some_iff.mpr ⟨found, up, down⟩
  obtain ⟨seat, seated', tracks⟩ :=
    follows.tracked site (manned.staffed.enrolled site (by rw [seated]; rfl))
  obtain rfl := Option.some.inj (seated.symm.trans seated')
  exact ⟨gaps site, tracks⟩

/-- Where nothing can be delivered there is no load. -/
theorem stuck_load (h : sim.Spreads echoes) (manned : sim.Manned star) (stuck : star.Stuck) :
    star.up.total List.length = 0 ∧ star.down.total List.length = 0 ∧ star.upwardLoad = 0 := by
  have up := total_length_eq_zero fun site => (stuck_links manned.staffed stuck site).1
  have down := total_length_eq_zero fun site => (stuck_links manned.staffed stuck site).2
  have clients : star.clients.total (fun c => (waiting c).length) = 0 := by
    refine SortedMap.total_eq_zero fun site client found => ?_
    obtain ⟨gap, tracks⟩ := stuck_tracks manned stuck found
    rw [h.rests tracks]
    rfl
  refine ⟨up, down, ?_⟩
  rw [Star.upwardLoad_eq, up, clients]

/-- A star can always be brought to rest by deliveries. -/
theorem exists_stuck (h : sim.Spreads echoes) (carries : sim.Carries Rel)
    (manned : sim.Manned star) : ∃ m final, star.Delivers m final ∧ final.Stuck := by
  induction load : star.load ((sites star.server).length + echoes) using Nat.strongRecOn
    generalizing star with
  | ind n ih =>
    by_cases stuck : star.Stuck
    · exact ⟨0, star, .none star, stuck⟩
    · obtain ⟨next, delivers, prepend⟩ := Star.exists_delivery stuck
      obtain ⟨manned', lower⟩ := h.delivers_load carries manned delivers
      obtain ⟨m, final, later, stuck⟩ := ih _ (by omega) manned' rfl
      exact ⟨m + 1, final, prepend later, stuck⟩

/-- The number of deliveries that are left is the load of the star. -/
theorem drains (h : sim.Spreads echoes) (carries : sim.Carries Rel) (manned : sim.Manned star) :
    star.DrainsIn (star.load ((sites star.server).length + echoes)) := by
  constructor
  · intro n star' delivers
    obtain ⟨-, load⟩ := h.delivers_load carries manned delivers
    omega
  · intro n star' delivers
    obtain ⟨manned', -⟩ := h.delivers_load carries manned delivers
    exact h.exists_stuck carries manned'
  · intro n final delivers stuck
    obtain ⟨manned', load⟩ := h.delivers_load carries manned delivers
    obtain ⟨up, down, upward⟩ := h.stuck_load manned' stuck
    have nothing : final.load ((sites final.server).length + echoes) = 0 := by
      rw [Star.load, down, upward, Nat.zero_mul]
    refine ⟨by omega, ?_, ?_⟩
    · exact List.length_eq_zero_iff.mp ((List.length_flatten ..).trans up)
    · exact List.length_eq_zero_iff.mp ((List.length_flatten ..).trans down)

end Simulation.Spreads

namespace Wave

variable [Element α] {policy : Policy}

/-- With everything seen and nothing on the way, a client has nothing under way. -/
theorem Phase.at_rest {site : SiteId} {history : List (Operation α)} {seen : Nat}
    {inFlight : Option (Operation α)} {buffer : List (Operation α)} {gap : Gap α}
    (h : Phase policy site history seen inFlight buffer [] gap)
    (nothing : history.drop seen = []) : inFlight = none ∧ buffer = [] := by
  cases h with
  | idle => exact ⟨rfl, rfl⟩
  | echoing split =>
    rw [nothing] at split
    exact absurd split.symm (List.append_ne_nil_of_right_ne_nil _ (List.cons_ne_nil _ _))

/-- The server sends an operation to all sites. -/
theorem spreads (policy : Policy) : (simulation (α := α) policy).Spreads 1 where
  discreet := discreet policy
  posted {server op op'} _ served := by
    change (server.integrate op).result = _ at served
    change (server.integrate op).sent.countP _ + 1 = server.sites.length + 1
    rcases server.integrate_cases op with ⟨e, failed⟩ | ⟨op'', applied, -, done⟩
    · rw [failed] at served
      cases served
    · rw [done]
      simp [Outcome.done, List.countP_map, Function.comp_def]
  rests tracks := (tracks.phase.at_rest tracks.down.symm).2

/-- Where nothing can be delivered, no client has anything under way. -/
theorem at_rest {star : Star Server Client α} {site : SiteId} {client : Client α}
    (manned : (simulation (α := α) policy).Manned star) (stuck : star.Stuck)
    (found : star.clients.get? site = some client) :
    client.inFlight = none ∧ client.buffer = [] := by
  obtain ⟨gap, tracks⟩ := Simulation.Spreads.stuck_tracks manned stuck found
  exact tracks.phase.at_rest tracks.down.symm

end Wave

namespace Jupiter

variable [Element α] {policy : Policy}

/-- The server sends an operation to all sites but the one that it comes from. -/
theorem spreads (policy : Policy) : (simulation (α := α) policy).Spreads 0 where
  discreet := discreet policy
  posted {server op op'} _ served := by
    change (server.integrate op).result = _ at served
    change (server.integrate op).sent.countP _ + 1 = server.proxies.keys.length
    obtain ⟨proxies, creator, keys, member, sent⟩ := Server.integrate_sent served
    rw [sent, ← keys, ← proxies.length_erase (keys ▸ member)]
    simp [Server.relays, List.countP_map, Function.comp_def]
  rests _ := rfl

end Jupiter

/-- When nobody has left, deliveries come to an end, and however they are chosen there are as many
of them: one for each message on its way to a site, and for each operation that has still to go up
one to the server and one to every site that it is sent to. In the end all links are empty, and no
wave client has anything under way. -/
theorem network_drains [Element α] (policy : Policy) (mode : FillMode) (schedule : List (Action α))
    (stays : ∀ site, .leave site ∉ schedule) :
    (let star := Wave.reach policy mode schedule
      let down := star.down.values.flatten.length
      let up := star.up.values.flatten.length
      let buffered := (star.clients.values.flatMap (·.buffer)).length
      star.DrainsIn (down + (up + buffered) * (1 + star.server.sites.length)) ∧
        ∀ n final, star.Delivers n final → final.Stuck → ∀ site client,
          final.clients.get? site = some client → client.inFlight = none ∧ client.buffer = []) ∧
    (let star := Jupiter.reach policy mode schedule
      let down := star.down.values.flatten.length
      let up := star.up.values.flatten.length
      star.DrainsIn (down + up * star.server.proxies.keys.length)) := by
  constructor
  · intro star down up buffered
    have manned := (Wave.spreads policy).manned_run mode stays
    constructor
    · have drains := (Wave.spreads policy).drains (Wave.carries policy) manned
      have load : star.load (star.server.sites.length + 1) =
          down + (up + buffered) * (1 + star.server.sites.length) := by
        rw [Star.load, Nat.add_comm 1, SortedMap.total, ← List.length_flatten]
        rfl
      exact load ▸ drains
    · intro n final delivers stuck site client found
      obtain ⟨manned', -⟩ :=
        (Wave.spreads policy).delivers_load (Wave.carries policy) manned delivers
      exact Wave.at_rest manned' stuck found
  · intro star down up
    have manned := (Jupiter.spreads policy).manned_run mode stays
    have drains := (Jupiter.spreads policy).drains (Jupiter.carries policy) manned
    have nobody : (star.clients.values.flatMap fun c => waiting c).length = 0 := by
      rw [List.length_flatMap]
      exact List.sum_eq_zero_iff_forall_eq_nat.mpr fun n among => by
        obtain ⟨c, -, rfl⟩ := List.mem_map.mp among
        rfl
    have load : star.load (star.server.proxies.keys.length + 0) =
        down + up * star.server.proxies.keys.length := by
      rw [Star.load, SortedMap.total, ← List.length_flatten, Star.upwardLoad, nobody]
      rfl
    exact load ▸ drains

/-- One site writes three letters and the other one a letter. The first of the three has reached the
server, and with wave the other two wait. -/
def spelled (a b : SiteId) : List (Action Char) :=
  [.join a .operationBased, .join b .stateBased, .edit a ⟨.insert 0 'x', none⟩,
    .edit a ⟨.insert 1 'y', none⟩, .edit a ⟨.insert 2 'z', none⟩, .edit b ⟨.insert 0 'w', none⟩,
    .up a]

theorem network_drains_spelled :
    let schedule := spelled (.ofNat 1) (.ofNat 2)
    (Wave.reach .firstWriterWins .stateBased schedule).DrainsIn 11 ∧
      (Jupiter.reach .firstWriterWins .stateBased schedule).DrainsIn 7 := by
  intro schedule
  have stays : ∀ site, .leave site ∉ schedule := by
    intro site
    simp [schedule, spelled]
  obtain ⟨⟨wave, -⟩, jupiter⟩ := network_drains .firstWriterWins .stateBased schedule stays
  have loadW : ∀ star, star = Wave.reach .firstWriterWins .stateBased schedule →
      star.down.values.flatten.length +
        (star.up.values.flatten.length + (star.clients.values.flatMap (·.buffer)).length) *
          (1 + star.server.sites.length) = 11 := by
    rintro _ rfl
    decide +kernel
  have loadJ : ∀ star, star = Jupiter.reach .firstWriterWins .stateBased schedule →
      star.down.values.flatten.length +
        star.up.values.flatten.length * star.server.proxies.keys.length = 7 := by
    rintro _ rfl
    decide +kernel
  exact ⟨loadW _ rfl ▸ wave, loadJ _ rfl ▸ jupiter⟩

end CoEdit
