import CoEdit.Proofs.Calls
import CoEdit.Proofs.JupiterConvergence
import CoEdit.Proofs.Trail
import CoEdit.Proofs.WaveConvergence

/-!
# What a server sends to a site

From the moment a site is registered, it is sent the history of the server from there on, without a
gap and in order. With wave it gets every entry as it stands in the history, its own ones included.
With jupiter it gets the entries of other sites under the counters of its proxy, and these count
what has been sent to the site and what has been taken in from it (`RelaysTo`).
-/

namespace CoEdit

open ServerAlgorithm

variable {α : Type}

theorem SortedMap.entries_erase {κ β : Type} [Ord κ] [Std.LawfulEqOrd κ] [DecidableEq κ]
    (m : SortedMap κ β) (k : κ) : (m.erase k).entries = m.entries.filter (·.1 ≠ k) := by
  simp only [SortedMap.erase, SortedMap.filterKeys]
  refine List.filter_congr fun entry _ => ?_
  by_cases here : k = entry.1
  · simp [here]
  · simp [here, Ne.symm here]

/-- Those of some operations that a site did not create. -/
def notBy (site : SiteId) (ops : List (Operation α)) : List (Operation α) :=
  ops.filter (·.creator? ≠ some site)

section NotBy

variable {site : SiteId} {op : Operation α} {ops : List (Operation α)}

theorem notBy_cons_own (own : op.creator? = some site) : notBy site (op :: ops) = notBy site ops :=
  List.filter_cons_of_neg (by simpa using own)

theorem notBy_cons_foreign (foreign : op.creator? ≠ some site) :
    notBy site (op :: ops) = op :: notBy site ops :=
  List.filter_cons_of_pos (decide_eq_true foreign)

theorem createdBy_cons_foreign (foreign : op.creator? ≠ some site) :
    createdBy site (op :: ops) = createdBy site ops :=
  List.filter_cons_of_neg (by simpa using foreign)

end NotBy

/-- One message at most to each site looks the same whatever the order of the messages. -/
theorem mailed_eq_of_perm {site : SiteId} {sent sent' : List (Address × Operation α)}
    (any : sent'.Perm sent) (few : (mailed site sent).length ≤ 1) :
    mailed site sent' = mailed site sent := by
  have same : (mailed site sent').Perm (mailed site sent) := any.filterMap _
  match alone : mailed site sent with
  | [] => exact List.perm_nil.mp (alone ▸ same)
  | [op] => exact List.perm_singleton.mp (alone ▸ same)
  | _ :: _ :: _ =>
    rw [alone] at few
    simp at few

theorem mailed_append (site : SiteId) (sent more : List (Address × Operation α)) :
    mailed site (sent ++ more) = mailed site sent ++ mailed site more :=
  List.filterMap_append ..

/-- The relays of the entries that a site did not create, under two counters: the first counts what
is relayed to the site, and the second what was taken in from it. -/
structure RelaysTo (site : SiteId) (sent received : Nat) (entries relays : List (Operation α)) :
    Prop where
  length : relays.length = (notBy site entries).length
  relayed : ∀ {earlier op later}, entries = earlier ++ op :: later → op.creator? ≠ some site →
    ∃ relay, relays[(notBy site earlier).length]? = some relay ∧
      op.retag ⟨[sent + (notBy site earlier).length,
        received + (createdBy site earlier).length]⟩ = .ok relay

namespace RelaysTo

variable {site creator : SiteId} {sent received : Nat} {op : Operation α}
  {entries relays : List (Operation α)}

theorem nil : RelaysTo site sent received ([] : List (Operation α)) [] := by
  refine ⟨rfl, fun split => ?_⟩
  simp at split

theorem own (h : RelaysTo site sent (received + 1) entries relays)
    (own : op.creator? = some site) : RelaysTo site sent received (op :: entries) relays := by
  refine ⟨by rw [notBy_cons_own own]; exact h.length, ?_⟩
  intro earlier op' later split foreign
  cases earlier with
  | nil =>
    obtain ⟨rfl, -⟩ := List.cons.inj split
    exact absurd own foreign
  | cons first earlier =>
    obtain ⟨rfl, others⟩ := List.cons.inj split
    obtain ⟨relay, there, eq⟩ := h.relayed others foreign
    rw [notBy_cons_own own, createdBy_cons_own own, List.length_cons, Nat.add_comm _ 1,
      ← Nat.add_assoc]
    exact ⟨relay, there, eq⟩

theorem foreign (h : RelaysTo site (sent + 1) received entries relays)
    (creator_eq : op.creator? = some creator) (other : creator ≠ site) :
    RelaysTo site sent received (op :: entries)
      (op.stamped creator ⟨[sent, received]⟩ :: relays) := by
  have foreign : op.creator? ≠ some site := by
    rw [creator_eq]
    exact fun same => other (Option.some.inj same)
  refine ⟨by rw [notBy_cons_foreign foreign, List.length_cons, List.length_cons, h.length], ?_⟩
  intro earlier op' later split foreign'
  cases earlier with
  | nil =>
    obtain ⟨rfl, -⟩ := List.cons.inj split
    exact ⟨_, rfl, Operation.retag_eq_ok creator_eq _⟩
  | cons first earlier =>
    obtain ⟨rfl, others⟩ := List.cons.inj split
    obtain ⟨relay, there, eq⟩ := h.relayed others foreign'
    rw [notBy_cons_foreign foreign, createdBy_cons_foreign foreign, List.length_cons,
      Nat.add_comm _ 1, ← Nat.add_assoc]
    exact ⟨relay, by rw [Nat.add_comm 1]; exact there, eq⟩

end RelaysTo

variable [Element α]

/-- The content of a fill is what a history leads to. -/
def Fill.Reflects (history : History α) : Fill α → Prop
  | snapshot values _ =>
    ∃ document, Document.empty.applyAll history = .ok document ∧ values = document.values
  | replay entries _ => entries = history

theorem LocalCopy.Replays.reflects {copy : LocalCopy α} (h : copy.Replays) (mode : FillMode)
    (state : StateVector) : (copy.capture mode state).Reflects copy.history := by
  cases mode with
  | stateBased => exact ⟨copy.document, h, rfl⟩
  | operationBased => exact Eq.refl _

namespace ServerAlgorithm

variable {S : Type → Type} [ServerAlgorithm S]

/-- What a server sends when it is called. The messages of one call leave in any order. -/
inductive Mailing : S α → List (ServerCall α) → List (Address × Operation α) → Prop where
  | nil (server : S α) : Mailing server [] []
  | cons {server : S α} {next : ServerCall α} {rest : List (ServerCall α)}
      {sent more : List (Address × Operation α)} (now : sent.Perm (call server next).sent)
      (later : Mailing (call server next).state rest more) :
      Mailing server (next :: rest) (sent ++ more)

/-- What a server sends when it is called, in the order in which it names the sites. -/
def sentAll (server : S α) : List (ServerCall α) → List (Address × Operation α)
  | [] => []
  | next :: rest => (call server next).sent ++ sentAll (call server next).state rest

theorem mailing_sentAll (server : S α) (calls : List (ServerCall α)) :
    Mailing server calls (sentAll server calls) := by
  induction calls generalizing server with
  | nil => exact .nil server
  | cons next rest ih => exact .cons (.refl _) (ih _)

/-- The call is no operation that the server refuses. -/
def accepts (server : S α) : ServerCall α → Bool
  | .integrate op => (integrate server op).result.isOk
  | _ => true

/-- The server refuses no operation that it is given. -/
def NoneRefused (server : S α) : List (ServerCall α) → Prop
  | [] => True
  | next :: rest => accepts server next ∧ NoneRefused (call server next).state rest

instance decidableNoneRefused :
    ∀ (server : S α) (calls : List (ServerCall α)), Decidable (NoneRefused server calls)
  | _, [] => .isTrue trivial
  | server, next :: rest =>
    @instDecidableAnd _ _ _ (decidableNoneRefused (call server next).state rest)

end ServerAlgorithm

/-- The server sends nothing to sites that are not registered. -/
def Simulation.Discreet {S C : Type → Type} [ServerAlgorithm S] [ClientAlgorithm C]
    {policy : Policy} (sim : Simulation S C α policy) : Prop :=
  ∀ {server site}, sim.Sound server → site ∉ sites server → ∀ op,
    mailed site (integrate server op).sent = []

namespace Wave

variable {server : Server α} {site : SiteId} {next : ServerCall α}

omit [Element α] in
theorem Server.distinct_add (distinct : server.sites.Nodup) (absent : site ∉ server.sites) :
    (server.sites ++ [site]).Nodup :=
  (List.perm_append_singleton ..).nodup_iff.mpr (List.nodup_cons.mpr ⟨absent, distinct⟩)

/-- No site is registered twice. -/
theorem Server.distinct_call (distinct : server.sites.Nodup) (next : ServerCall α) :
    (call server next).state.sites.Nodup := by
  cases next with
  | add t mode =>
    rcases call_add server t mode with ⟨e, failed⟩ | ⟨data, server', added, done⟩
    · rw [failed]
      exact distinct
    · obtain ⟨absent, -, rfl⟩ := Server.addSite_eq_ok added
      rw [done]
      exact Server.distinct_add distinct absent
  | remove t =>
    rcases call_remove server t with ⟨e, failed⟩ | ⟨server', removed, done⟩
    · rw [failed]
      exact distinct
    · rw [done, Server.removeSite_eq_ok removed]
      exact distinct.erase t
  | integrate op =>
    change (server.integrate op).state.sites.Nodup
    rcases server.integrate_cases op with ⟨e, failed⟩ | ⟨op', applied, -, done⟩
    · rw [failed]
      exact distinct
    · rw [done]
      exact distinct

theorem Server.distinct_callAll (distinct : server.sites.Nodup) (calls : List (ServerCall α)) :
    (callAll server calls).sites.Nodup := by
  induction calls generalizing server with
  | nil => exact distinct
  | cons next rest ih => exact ih (Server.distinct_call distinct next)

/-- A call sends to a registered site what it adds to the history, and the site stays. -/
theorem Server.call_relays (distinct : server.sites.Nodup) (member : site ∈ server.sites)
    (stays : next ≠ .remove site) :
    site ∈ (call server next).state.sites ∧
      (call server next).state.copy.history =
        server.copy.history ++ mailed site (call server next).sent ∧
      (mailed site (call server next).sent).length ≤ 1 := by
  have silent : server.copy.history = server.copy.history ++ mailed site [] :=
    (List.append_nil _).symm
  cases next with
  | add t mode =>
    rcases call_add server t mode with ⟨e, failed⟩ | ⟨data, server', added, done⟩
    · rw [failed]
      exact ⟨member, silent, Nat.zero_le _⟩
    · obtain ⟨-, -, rfl⟩ := Server.addSite_eq_ok added
      rw [done]
      exact ⟨List.mem_append_left _ member, silent, Nat.zero_le _⟩
  | remove t =>
    have other : site ≠ t := fun same => stays (congrArg _ same.symm)
    rcases call_remove server t with ⟨e, failed⟩ | ⟨server', removed, done⟩
    · rw [failed]
      exact ⟨member, silent, Nat.zero_le _⟩
    · rw [done, Server.removeSite_eq_ok removed]
      exact ⟨(List.mem_erase_of_ne other).mpr member, silent, Nat.zero_le _⟩
  | integrate op =>
    change site ∈ (server.integrate op).state.sites ∧ (server.integrate op).state.copy.history =
      server.copy.history ++ mailed site (server.integrate op).sent ∧
        (mailed site (server.integrate op).sent).length ≤ 1
    rcases server.integrate_cases op with ⟨e, failed⟩ | ⟨op', applied, apply, done⟩
    · rw [failed]
      exact ⟨member, silent, Nat.zero_le _⟩
    · have mail := mailed_to_all distinct op' site
      rw [if_pos member] at mail
      simp only [done, Outcome.done, mail]
      exact ⟨member, (LocalCopy.apply_eq_ok apply).2.1, Nat.le_refl _⟩

theorem discreet (policy : Policy) : (simulation (α := α) policy).Discreet := by
  intro server site _ stranger op
  change mailed site (server.integrate op).sent = []
  rcases server.integrate_cases op with ⟨e, failed⟩ | ⟨op', applied, -, done⟩
  · rw [failed]
    rfl
  · rw [done]
    refine List.filterMap_eq_nil_iff.mpr fun message among => ?_
    obtain ⟨t, member, rfl⟩ := List.mem_map.mp among
    refine if_neg fun same => stranger ?_
    rwa [← Address.site.inj same]

/-- A registered site is sent all that is added to the history. -/
theorem Server.mailed_eq (distinct : server.sites.Nodup) (member : site ∈ server.sites)
    {calls : List (ServerCall α)} (stays : .remove site ∉ calls)
    {mail : List (Address × Operation α)} (mailing : Mailing server calls mail) :
    (callAll server calls).copy.history = server.copy.history ++ mailed site mail := by
  induction mailing with
  | nil => exact (List.append_nil _).symm
  | @cons server next rest sent more now later ih =>
    obtain ⟨here, others⟩ := List.ne_and_not_mem_of_not_mem_cons stays
    obtain ⟨still, history, few⟩ := Server.call_relays distinct member (Ne.symm here)
    have all := ih (Server.distinct_call distinct next) still others
    rw [mailed_append, mailed_eq_of_perm now few, ← List.append_assoc, ← history]
    exact all

end Wave

namespace Jupiter

variable {server : Server α} {site : SiteId} {next : ServerCall α}

/-- What it takes for an operation to be taken in. -/
theorem Server.integrate_eq_ok {op op' : Operation α}
    (served : (server.integrate op).result = .ok op') :
    ∃ stamp proxy outgoing applied, op.stamp = some stamp ∧
      server.proxies.get? stamp.creator = some proxy ∧
      passQueue server.copy.policy .server proxy.outgoing op = .ok (op', outgoing) ∧
      server.copy.apply op' = .ok applied := by
  simp only [Server.integrate] at served
  split at served
  · cases served
  · rename_i stamp stamped
    split at served
    · cases served
    · rename_i proxy found
      simp only [Proxy.integrate] at served
      cases passed : passQueue server.copy.policy .server proxy.outgoing op with
      | error e =>
        rw [passed] at served
        cases served
      | ok pair =>
        rw [passed] at served
        simp only [Except.map] at served
        split at served
        · cases served
        · rename_i applied apply
          cases served
          exact ⟨stamp, proxy, pair.2, applied, stamped, found, passed, apply⟩

/-- What an operation that is taken in does to the history, the counters and the links. -/
theorem Server.integrate_relays {op op' : Operation α}
    (served : (server.integrate op).result = .ok op') :
    ∃ creator proxy outgoing, op'.creator? = some creator ∧
      (server.integrate op).state.copy.history = server.copy.history ++ [op'] ∧
      server.proxies.get? creator = some proxy ∧
      (∀ t, (server.integrate op).state.proxies.get? t =
        if t = creator then some ⟨proxy.sent, proxy.received + 1, outgoing⟩
        else (server.proxies.get? t).map (·.relay creator op')) ∧
      ∀ t, mailed t (server.integrate op).sent =
        if t = creator then []
        else ((server.proxies.get? t).map (·.relayed creator op')).toList := by
  obtain ⟨stamp, proxy, outgoing, applied, stamped, found, passed, apply⟩ :=
    Server.integrate_eq_ok served
  obtain ⟨server', sent, done, copy_eq, proxies, -, mail⟩ := integrate_eq stamped found passed apply
  have creator : op'.creator? = some stamp.creator := by
    rw [Operation.creator?, passQueue_stamp passed, stamped]
    rfl
  rw [done]
  refine ⟨stamp.creator, proxy, outgoing, creator, ?_, found, proxies, mail⟩
  exact (congrArg (·.history) copy_eq).trans (LocalCopy.apply_eq_ok apply).2.1

/-- What is sent are the relays of the proxies that are there. -/
theorem Server.integrate_sent {op op' : Operation α}
    (served : (server.integrate op).result = .ok op') :
    ∃ (proxies : SortedMap SiteId (Proxy α)) (creator : SiteId),
      proxies.keys = server.proxies.keys ∧ creator ∈ server.proxies.keys ∧
        (server.integrate op).sent = Server.relays proxies creator op' := by
  obtain ⟨stamp, proxy, outgoing, applied, stamped, found, passed, apply⟩ :=
    Server.integrate_eq_ok served
  have next : proxy.integrate server.copy.policy op =
      .ok (op', ⟨proxy.sent, proxy.received + 1, outgoing⟩) := by
    simp only [Proxy.integrate, passed]
    rfl
  let proxies := server.proxies.adjust stamp.creator
    fun _ => ⟨proxy.sent, proxy.received + 1, outgoing⟩
  refine ⟨proxies, stamp.creator, SortedMap.keys_mapWithKey ..,
    Server.mem_sites.mpr ⟨proxy, found⟩, ?_⟩
  simp only [Server.integrate, stamped, found, next, apply]
  rfl

/-- A message that is refused is not passed on. -/
theorem Server.integrate_refused {op : Operation α} {e : SyncError}
    (refused : (server.integrate op).result = .error e) : (server.integrate op).sent = [] := by
  simp only [Server.integrate] at refused ⊢
  repeat' split at refused
  all_goals simp_all [Outcome.fail, Outcome.done]

theorem discreet (policy : Policy) : (simulation (α := α) policy).Discreet := by
  intro server site _ stranger op
  change mailed site (server.integrate op).sent = []
  cases result : (server.integrate op).result with
  | error e =>
    rw [Server.integrate_refused result]
    rfl
  | ok op' =>
    obtain ⟨creator, -, -, -, -, -, -, mail⟩ := Server.integrate_relays result
    have absent : server.proxies.get? site = none := by
      rw [← Option.not_isSome_iff_eq_none]
      exact fun found => stranger ((SortedMap.contains_eq_true_iff ..).mp found)
    rw [mail, absent]
    split <;> rfl

/-- How a call moves the two counters of a proxy, with what is added to the history and what is sent
to the site. -/
inductive Counts (site : SiteId) (proxy proxy' : Proxy α) :
    List (Operation α) → List (Operation α) → Prop where
  | still (sent : proxy'.sent = proxy.sent) (received : proxy'.received = proxy.received) :
      Counts site proxy proxy' [] []
  | own {op : Operation α} (own : op.creator? = some site) (sent : proxy'.sent = proxy.sent)
      (received : proxy'.received = proxy.received + 1) : Counts site proxy proxy' [op] []
  | foreign {op : Operation α} {creator : SiteId} (creator_eq : op.creator? = some creator)
      (other : creator ≠ site) (sent : proxy'.sent = proxy.sent + 1)
      (received : proxy'.received = proxy.received) :
      Counts site proxy proxy' [op] [proxy.relayed creator op]

omit [Element α] in
theorem Counts.length_le {proxy proxy' : Proxy α} {entries relays : List (Operation α)}
    (h : Counts site proxy proxy' entries relays) : relays.length ≤ 1 := by
  cases h with
  | still => exact Nat.zero_le _
  | own => exact Nat.zero_le _
  | foreign => exact Nat.le_refl _

/-- A call that the server does not refuse sends to a registered site what it adds to the history,
or counts it as the site's own. -/
theorem Server.call_counts {proxy : Proxy α} (found : server.proxies.get? site = some proxy)
    (stays : next ≠ .remove site)
    (accepted : accepts server next) :
    ∃ proxy' entries, (call server next).state.proxies.get? site = some proxy' ∧
      (call server next).state.copy.history = server.copy.history ++ entries ∧
      Counts site proxy proxy' entries (mailed site (call server next).sent) := by
  have silent : server.copy.history = server.copy.history ++ [] := (List.append_nil _).symm
  cases next with
  | add t mode =>
    rcases call_add server t mode with ⟨e, failed⟩ | ⟨data, server', added, done⟩
    · rw [failed]
      exact ⟨proxy, [], found, silent, .still rfl rfl⟩
    · obtain ⟨absent, -, rfl⟩ := Server.addSite_eq_ok added
      have other : site ≠ t := by
        rintro rfl
        rw [SortedMap.contains, found] at absent
        cases absent
      rw [done]
      refine ⟨proxy, [], ?_, silent, .still rfl rfl⟩
      change (server.proxies.insert t _).get? site = some proxy
      rw [SortedMap.get?_insert, if_neg other]
      exact found
  | remove t =>
    have other : site ≠ t := fun same => stays (congrArg _ same.symm)
    rcases call_remove server t with ⟨e, failed⟩ | ⟨server', removed, done⟩
    · rw [failed]
      exact ⟨proxy, [], found, silent, .still rfl rfl⟩
    · rw [done, Server.removeSite_eq_ok removed]
      refine ⟨proxy, [], ?_, silent, .still rfl rfl⟩
      change (server.proxies.erase t).get? site = some proxy
      rw [SortedMap.get?_erase, if_neg other]
      exact found
  | integrate op =>
    obtain ⟨op', served⟩ : ∃ op', (server.integrate op).result = .ok op' := by
      change (server.integrate op).result.isOk = true at accepted
      cases result : (server.integrate op).result with
      | error e =>
        rw [result] at accepted
        cases accepted
      | ok op' => exact ⟨op', rfl⟩
    obtain ⟨creator, sender, outgoing, creator_eq, history, there, proxies, mail⟩ :=
      Server.integrate_relays served
    change ∃ proxy' entries, (server.integrate op).state.proxies.get? site = some proxy' ∧
      (server.integrate op).state.copy.history = server.copy.history ++ entries ∧
      Counts site proxy proxy' entries (mailed site (server.integrate op).sent)
    rw [proxies, mail, found]
    by_cases here : site = creator
    · subst here
      obtain rfl : proxy = sender := Option.some.inj (found.symm.trans there)
      rw [if_pos rfl, if_pos rfl]
      exact ⟨_, [op'], rfl, history, .own creator_eq rfl rfl⟩
    · rw [if_neg here, if_neg here]
      exact ⟨_, [op'], rfl, history, .foreign creator_eq (Ne.symm here) rfl rfl⟩

/-- A registered site is sent what other sites add to the history, under the counters of its
proxy. -/
theorem Server.relays_to {proxy : Proxy α} (found : server.proxies.get? site = some proxy)
    {calls : List (ServerCall α)} (stays : .remove site ∉ calls) (served : NoneRefused server calls)
    {mail : List (Address × Operation α)} (mailing : Mailing server calls mail) :
    ∃ entries, (callAll server calls).copy.history = server.copy.history ++ entries ∧
      RelaysTo site proxy.sent proxy.received entries (mailed site mail) := by
  induction mailing generalizing proxy with
  | nil => exact ⟨[], (List.append_nil _).symm, .nil⟩
  | @cons server next rest sent more now later ih =>
    obtain ⟨here, others⟩ := List.ne_and_not_mem_of_not_mem_cons stays
    obtain ⟨accepted, served⟩ := served
    obtain ⟨proxy', added, found', history, counts⟩ :=
      Server.call_counts found (Ne.symm here) accepted
    obtain ⟨entries, history', relays⟩ := ih found' others served
    have first : mailed site sent = mailed site (call server next).sent :=
      mailed_eq_of_perm now counts.length_le
    refine ⟨added ++ entries, ?_, ?_⟩
    · rw [← List.append_assoc, ← history]
      exact history'
    rw [mailed_append, first]
    generalize mailed site (call server next).sent = relay at counts
    cases counts with
    | still sent received => exact sent ▸ received ▸ relays
    | own own sent received => exact .own (sent ▸ received ▸ relays) own
    | foreign creator_eq other sent received =>
      exact .foreign (sent ▸ received ▸ relays) creator_eq other

omit [Element α] in
/-- The entries of a proxy map in the order in which they happen to come: each proxy but that of the
creator relays the operation. Returned are the proxies afterwards and what is sent. -/
def relayEach (creator : SiteId) (op : Operation α) :
    List (SiteId × Proxy α) → List (SiteId × Proxy α) × List (Address × Operation α)
  | [] => ([], [])
  | (site, proxy) :: rest =>
    let (others, sent) := relayEach creator op rest
    if site = creator then ((site, proxy) :: others, sent)
    else ((site, proxy.relay creator op) :: others, (.site site, proxy.relayed creator op) :: sent)

omit [Element α] in
theorem relayEach_eq (creator : SiteId) (op : Operation α) (order : List (SiteId × Proxy α)) :
    relayEach creator op order =
      (order.map fun entry =>
        (entry.1, if entry.1 = creator then entry.2 else entry.2.relay creator op),
      (order.filter (·.1 ≠ creator)).map fun entry =>
        (.site entry.1, entry.2.relayed creator op)) := by
  induction order with
  | nil => rfl
  | cons entry rest ih =>
    obtain ⟨site, proxy⟩ := entry
    by_cases here : site = creator <;> simp [relayEach, ih, here]

omit [Element α] in
/-- In whatever order a proxy map is gone through, its proxies become the same and the same messages
are sent. -/
theorem relayEach_perm (creator : SiteId) (op : Operation α) (proxies : SortedMap SiteId (Proxy α))
    {order : List (SiteId × Proxy α)} (any : order.Perm proxies.entries) :
    (relayEach creator op order).1.Perm
        (proxies.mapWithKey fun site proxy =>
          if site = creator then proxy else proxy.relay creator op).entries ∧
      (relayEach creator op order).2.Perm (Server.relays proxies creator op) := by
  rw [relayEach_eq]
  refine ⟨any.map _, ?_⟩
  rw [Server.relays, SortedMap.entries_erase]
  exact (any.filter _).map _

end Jupiter

/-- A site joins after some calls and is not removed by later ones. Its fill shows the history up to
there, and what is sent to it is the history from there on: all of it with wave, whether or not the
server refuses some operations; with jupiter, where it refuses none, the entries of other sites,
each under the numbers of those that were sent to the site and taken in from it before. It does not
matter in which order jupiter goes through its proxies. -/
theorem relay_gap_free (policy : Policy) (before after : List (ServerCall α)) (site : SiteId)
    (mode : FillMode) (data : Fill α) (mail : List (Address × Operation α))
    (stays : .remove site ∉ after) :
    (let server := callAll (start policy : Wave.Server α) before
      ∀ joined, addSite server site mode = .ok (data, joined) → Mailing joined after mail →
        let history := (callAll joined after).copy.history
        let since := server.copy.history.length
        data.Reflects (history.take since) ∧ data.state = ⟨[since]⟩ ∧
          mailed site mail = history.drop since) ∧
    (let server := callAll (start policy : Jupiter.Server α) before
      ∀ joined, addSite server site mode = .ok (data, joined) → Mailing joined after mail →
        NoneRefused joined after →
          let history := (callAll joined after).copy.history
          let since := server.copy.history.length
          data.Reflects (history.take since) ∧ data.state = ⟨[0, since]⟩ ∧
            RelaysTo site since 0 (history.drop since) (mailed site mail)) ∧
    ∀ (creator : SiteId) (op : Operation α) (proxies : SortedMap SiteId (Jupiter.Proxy α)) order,
      order.Perm proxies.entries →
        (Jupiter.relayEach creator op order).1.Perm
            (proxies.mapWithKey fun site proxy =>
              if site = creator then proxy else proxy.relay creator op).entries ∧
          (Jupiter.relayEach creator op order).2.Perm
            (Jupiter.Server.relays proxies creator op) := by
  refine ⟨?_, ?_, fun creator op proxies order => Jupiter.relayEach_perm creator op proxies⟩
  · intro server joined added mailing history since
    have replays : server.copy.Replays := Wave.Server.records.replays policy before
    have distinct : server.sites.Nodup := Wave.Server.distinct_callAll List.nodup_nil before
    obtain ⟨absent, captured, rfl⟩ := Wave.Server.addSite_eq_ok added
    have grown : history = server.copy.history ++ mailed site mail :=
      Wave.Server.mailed_eq (Wave.Server.distinct_add distinct absent)
        (List.mem_append_right _ List.mem_cons_self) stays mailing
    rw [grown, List.take_left, List.drop_left, captured]
    exact ⟨replays.reflects mode _, (replays.load policy mode _).1, rfl⟩
  · intro server joined added mailing served history since
    have replays : server.copy.Replays := Jupiter.Server.records.replays policy before
    obtain ⟨-, captured, rfl⟩ := Jupiter.Server.addSite_eq_ok added
    have there : (server.proxies.insert site (.start since)).get? site = some (.start since) := by
      rw [SortedMap.get?_insert, if_pos rfl]
    obtain ⟨entries, grown, relays⟩ := Jupiter.Server.relays_to there stays served mailing
    have history_eq : history = server.copy.history ++ entries := grown
    rw [history_eq, List.take_left, List.drop_left, captured]
    exact ⟨replays.reflects mode _, (replays.load policy mode _).1, relays⟩

/-- What happens once the second site is there: an insertion that it has not seen, its own deletion
of a letter, which leaves nothing of the next one to do, and an insertion by a third site, which
comes when the first one is gone. -/
def passing (a b c : SiteId) (state : Nat → Nat → Nat → StateVector) : List (ServerCall Char) :=
  [.integrate ⟨.insert 0 'y', some ⟨a, state 1 1 0⟩⟩, .integrate ⟨.delete 0, some ⟨b, state 1 0 1⟩⟩,
    .integrate ⟨.delete 1, some ⟨a, state 2 2 0⟩⟩, .remove a, .add c .stateBased,
    .integrate ⟨.insert 0 'z', some ⟨c, state 4 0 4⟩⟩]

theorem relay_gap_free_passing :
    let a : SiteId := .ofNat 1
    let b : SiteId := .ofNat 2
    let before := fun state : StateVector => ([.add a .stateBased,
      .integrate ⟨.insert 0 'x', some ⟨a, state⟩⟩] : List (ServerCall Char))
    let wave : Wave.Server Char := callAll (start .firstWriterWins) (before ⟨[0]⟩)
    let jupiter : Jupiter.Server Char := callAll (start .firstWriterWins) (before ⟨[0, 0]⟩)
    let afterW := passing a b (.ofNat 3) (fun revision _ _ => ⟨[revision]⟩) ++
      [.integrate ⟨.delete 9, some ⟨b, ⟨[4]⟩⟩⟩]
    let afterJ := passing a b (.ofNat 3) fun _ sent received => ⟨[sent, received]⟩
    (∃ data joined, addSite wave b .stateBased = .ok (data, joined) ∧
      data.Reflects ((callAll joined afterW).copy.history.take 1) ∧
      mailed b (sentAll joined afterW) = (callAll joined afterW).copy.history.drop 1 ∧
      (mailed b (sentAll joined afterW)).map (·.edit) =
        [.insert 0 'y', .delete 1, .noop, .insert 0 'z']) ∧
    ∃ data joined, addSite jupiter b .operationBased = .ok (data, joined) ∧
      data.Reflects ((callAll joined afterJ).copy.history.take 1) ∧
      RelaysTo b 1 0 ((callAll joined afterJ).copy.history.drop 1)
        (mailed b (sentAll joined afterJ)) ∧
      (mailed b (sentAll joined afterJ)).map (fun op => (op.edit, op.stamp.map (·.state))) =
        [(.insert 0 'y', some ⟨[1, 0]⟩), (.noop, some ⟨[2, 1]⟩),
          (.insert 0 'z', some ⟨[3, 1]⟩)] := by
  intro a b before wave jupiter afterW afterJ
  constructor
  · have absent : b ∉ wave.sites := by decide +kernel
    have added := Wave.Server.addSite_of_absent absent .stateBased
    obtain ⟨relays, -, -⟩ := relay_gap_free .firstWriterWins (before ⟨[0]⟩) afterW b .stateBased _ _
      (by decide +kernel)
    obtain ⟨reflects, -, mail⟩ := relays _ added (mailing_sentAll ..)
    exact ⟨_, _, added, reflects, mail, by decide +kernel⟩
  · have absent : jupiter.proxies.contains b = false := by decide +kernel
    have added := Jupiter.Server.addSite_of_absent absent .operationBased
    obtain ⟨-, relays, -⟩ := relay_gap_free .firstWriterWins (before ⟨[0, 0]⟩) afterJ b
      .operationBased _ _ (by decide +kernel)
    obtain ⟨reflects, -, mail⟩ := relays _ added (mailing_sentAll ..) (by decide +kernel)
    exact ⟨_, _, added, reflects, mail, by decide +kernel⟩

end CoEdit
