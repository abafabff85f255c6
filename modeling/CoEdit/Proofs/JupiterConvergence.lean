import CoEdit.Proofs.JupiterLink
import CoEdit.Proofs.Simulation

/-!
# Convergence of jupiter

A seat is tracked if its link holds at both ends: what the client keeps for the server is what the
site has beyond the common document, and what the proxy keeps for the client is what the server has.
-/

namespace CoEdit

open ClientAlgorithm ServerAlgorithm

variable {α : Type}

/-- Each entry of a map is mailed to the site that it is stored under. -/
theorem mailed_entries {β : Type} (m : SortedMap SiteId β) (f : β → Operation α) (t : SiteId) :
    mailed t (m.entries.map fun entry => (.site entry.1, f entry.2)) =
      ((m.get? t).map f).toList := by
  obtain ⟨entries, ascending⟩ := m
  simp only [SortedMap.get?]
  induction entries with
  | nil => rfl
  | cons entry rest ih =>
    obtain ⟨k, v⟩ := entry
    obtain ⟨first, others⟩ := List.pairwise_cons.mp ascending
    by_cases here : t = k
    · subst t
      have none_left : Entries.lookup k rest = none := Entries.lookup_eq_none_of_lt first
      rw [List.map_cons, mailed_cons_self, ih others, none_left, Entries.lookup,
        if_pos (Std.LawfulEqCmp.compare_eq_iff_eq.mpr rfl)]
      rfl
    · rw [List.map_cons, mailed_cons_other (Ne.symm here), ih others, Entries.lookup,
        if_neg (mt Std.LawfulEqCmp.compare_eq_iff_eq.mp here)]

namespace Jupiter

/-- The client's end of its link. -/
def Client.stand (c : Client α) : Proxy α := ⟨c.sent, c.received, c.outgoing⟩

theorem Server.mem_sites {server : Server α} {site : SiteId} :
    site ∈ sites server ↔ ∃ proxy, server.proxies.get? site = some proxy := by
  change site ∈ server.proxies.keys ↔ _
  rw [← SortedMap.contains_eq_true_iff, SortedMap.contains, Option.isSome_iff_exists]

theorem Server.contains_eq_false {server : Server α} {site : SiteId} (h : site ∉ sites server) :
    server.proxies.contains site = false := by
  rw [Bool.eq_false_iff]
  intro found
  exact h ((SortedMap.contains_eq_true_iff ..).mp found)

theorem mailed_relays (proxies : SortedMap SiteId (Proxy α)) (creator : SiteId)
    (op : Operation α) (t : SiteId) :
    mailed t (Server.relays proxies creator op) =
      if t = creator then []
      else ((proxies.get? t).map fun proxy => proxy.relayed creator op).toList := by
  have eq := mailed_entries (proxies.erase creator) (fun proxy => proxy.relayed creator op) t
  rw [SortedMap.get?_erase] at eq
  refine eq.trans ?_
  split <;> rfl

variable [Element α]

/-- What holds of the server and the seat of a registered site. -/
structure Tracks (policy : Policy) (server : Server α) (site : SiteId) (seat : Seat Client α)
    (gap : Gap α) : Prop where
  site_eq : seat.client.site = site
  policy_eq : seat.client.copy.policy = policy
  link : ∃ proxy, server.proxies.get? site = some proxy ∧
    Holds policy .client seat.client.stand proxy.received seat.down gap.mine gap.theirs ∧
    Holds policy .server proxy seat.client.received seat.up gap.theirs gap.mine
  foreign : ∀ op ∈ seat.down, op.creator? ≠ some site
  spans : gap.Spans seat.client.copy.document.values server.copy.document.values

variable {policy : Policy} {server : Server α} {site : SiteId} {seat : Seat Client α}
  {gap : Gap α} {client : Client α}

theorem fill_start (site : SiteId) (sound : server.copy.Sound policy) (mode : FillMode) :
    ∃ loaded, loaded.document.values = server.copy.document.values ∧ loaded.policy = policy ∧
      fill (Client.start policy site : Client α) (server.copy.capture mode server.state) =
        .ok ⟨site, 0, server.copy.history.length, loaded, []⟩ := by
  obtain ⟨state, loaded, load, values, policy_eq⟩ := sound.replays.load policy mode server.state
  exact ⟨loaded, values, policy_eq, fill_eq_ok (by rw [state]; rfl) load (by rw [state]; rfl)⟩

theorem tracks_join (sound : server.copy.Sound policy) (mode : FillMode)
    (stranger : site ∉ sites server) :
    ∃ data server' client gap, addSite server site mode = .ok (data, server') ∧
      fill (ClientAlgorithm.start policy site) data = .ok client ∧ server'.copy.Sound policy ∧
      client.site = site ∧ (copy server').history = (copy server).history ∧
      (∀ t, t ∈ sites server' ↔ t = site ∨ t ∈ sites server) ∧
      Tracks policy server' site ⟨client, [], []⟩ gap ∧
      ∀ t seat gap, t ≠ site → Tracks policy server t seat gap →
        Tracks policy server' t seat gap := by
  obtain ⟨loaded, values, policy_eq, filled⟩ := fill_start site sound mode
  let joined : Server α :=
    { server with proxies := server.proxies.insert site (.start server.copy.history.length) }
  have added : addSite server site mode =
      .ok (server.copy.capture mode server.state, joined) :=
    if_neg (by rw [Server.contains_eq_false stranger]; exact Bool.false_ne_true)
  have here : joined.proxies.get? site = some (.start server.copy.history.length) := by
    rw [SortedMap.get?_insert, if_pos rfl]
  have elsewhere : ∀ t, t ≠ site → joined.proxies.get? t = server.proxies.get? t := by
    intro t other
    rw [SortedMap.get?_insert, if_neg other]
  refine ⟨_, joined, _, ⟨loaded.document.values, [], []⟩, added, filled, sound, rfl, rfl,
    fun t => ?_, ?_, ?_⟩
  · rw [Server.mem_sites, Server.mem_sites]
    by_cases new : t = site
    · subst t
      exact ⟨fun _ => .inl rfl, fun _ => ⟨_, here⟩⟩
    · rw [elsewhere t new]
      exact ⟨.inr, fun h => h.resolve_left new⟩
  · refine ⟨rfl, policy_eq, ⟨_, here, .start .., .start ..⟩, ?_, rfl, congrArg some values⟩
    intro op waiting
    cases waiting
  · intro t seat gap other tracks
    obtain ⟨site_eq, policy_eq, ⟨proxy, found, link⟩, foreign, spans⟩ := tracks
    exact ⟨site_eq, policy_eq, ⟨proxy, (elsewhere t other).trans found, link⟩, foreign, spans⟩

theorem tracks_leave (sound : server.copy.Sound policy) {server' : Server α}
    (removed : removeSite server site = .ok server') :
    server'.copy.Sound policy ∧ (copy server').history = (copy server).history ∧
      (∀ t ∈ sites server, t ≠ site → t ∈ sites server') ∧
      ∀ t ∈ sites server', t ∈ sites server ∧
        ∀ seat gap, Tracks policy server t seat gap → Tracks policy server' t seat gap := by
  change Server.removeSite server site = _ at removed
  simp only [Server.removeSite] at removed
  split at removed <;> cases removed
  refine ⟨sound, rfl, fun t member other => ?_, fun t member => ?_⟩
  · obtain ⟨proxy, found⟩ := Server.mem_sites.mp member
    refine Server.mem_sites.mpr ⟨proxy, ?_⟩
    rw [SortedMap.get?_erase, if_neg other]
    exact found
  obtain ⟨proxy, found⟩ := Server.mem_sites.mp member
  have still : server.proxies.get? t = some proxy := by
    rw [SortedMap.get?_erase] at found
    split at found
    · cases found
    · exact found
  refine ⟨Server.mem_sites.mpr ⟨proxy, still⟩, fun seat gap tracks => ?_⟩
  obtain ⟨site_eq, policy_eq, ⟨proxy', found', link⟩, foreign, spans⟩ := tracks
  obtain rfl : proxy = proxy' := Option.some.inj (still.symm.trans found')
  exact ⟨site_eq, policy_eq, ⟨proxy, found, link⟩, foreign, spans⟩

theorem generate_cases (client : Client α) (op : Operation α) :
    (∃ e, generate client op = .fail e client) ∨
      ∃ applied, client.copy.apply (op.stamped client.site client.state) = .ok applied ∧
        generate client op = .done (op.stamped client.site client.state)
          { client with
            copy := applied
            outgoing := client.outgoing ++ [op.stamped client.site client.state]
            sent := client.sent + 1 }
          [(.server, op.stamped client.site client.state)] := by
  change (∃ e, client.generate op = .fail e client) ∨ ∃ applied, _ ∧ client.generate op = _
  simp only [Client.generate]
  cases applied : client.copy.apply (op.stamped client.site client.state) with
  | error e => exact .inl ⟨e, rfl⟩
  | ok copy => exact .inr ⟨copy, rfl, rfl⟩

theorem generate_owned (op : Operation α) (own : client.site = site) :
    (generate client op).state.site = site ∧
      ∀ sent ∈ (generate client op).sent, sent.2.creator? = some site := by
  rcases generate_cases client op with ⟨e, failed⟩ | ⟨applied, -, done⟩
  · rw [failed]
    exact ⟨own, fun sent h => by cases h⟩
  · rw [done]
    refine ⟨own, fun sent h => ?_⟩
    rw [List.mem_singleton.mp h, ← own]
    rfl

theorem tracks_generate {up down : List (Operation α)} (op : Operation α)
    (tracks : Tracks policy server site ⟨client, up, down⟩ gap) :
    (∃ e, generate client op = .fail e client) ∨
      ∃ op', (generate client op).result = .ok op' ∧ op'.edit = op.edit ∧
        Tracks policy server site ⟨(generate client op).state,
          up ++ (generate client op).sent.map Prod.snd, down⟩
          { gap with mine := gap.mine ++ [op'] } := by
  obtain ⟨site_eq, policy_eq, ⟨proxy, found, ours, others⟩, foreign, spans⟩ := tracks
  refine (generate_cases client op).imp_right fun ⟨applied, apply, done⟩ => ?_
  rw [done]
  refine ⟨_, rfl, rfl, site_eq, (LocalCopy.apply_eq_ok apply).2.2.trans policy_eq,
    ⟨proxy, found, ?_, ?_⟩, foreign, spans.made (LocalCopy.effect?_of_apply apply)⟩
  · exact ours.send rfl rfl
  · exact others.told rfl rfl

theorem integrate_owned (op : Operation α) (own : client.site = site) :
    (ClientAlgorithm.integrate client op).state.site = site ∧
      ∀ sent ∈ (ClientAlgorithm.integrate client op).sent, sent.2.creator? = some site := by
  change (client.integrate op).state.site = site ∧ ∀ sent ∈ (client.integrate op).sent, _
  unfold Client.integrate
  split
  · exact ⟨own, fun sent h => by cases h⟩
  · dsimp only
    split <;> exact ⟨own, fun sent h => by cases h⟩

theorem tracks_hear {up down : List (Operation α)} {op : Operation α}
    (tracks : Tracks policy server site ⟨client, up, op :: down⟩ gap) :
    ∃ op' gap', (ClientAlgorithm.integrate client op).result = .ok op' ∧
      op'.creator? ≠ some site ∧ gap.Heard policy op' gap' ∧
      Tracks policy server site ⟨(ClientAlgorithm.integrate client op).state,
        up ++ (ClientAlgorithm.integrate client op).sent.map Prod.snd, down⟩ gap' := by
  obtain ⟨site_eq, policy_eq, ⟨proxy, found, ours, others⟩, foreign, spans⟩ := tracks
  obtain ⟨form, theirs, split, took⟩ := ours.took
  obtain ⟨op', mine, past⟩ := transformPast_total policy .client form gap.mine
  obtain ⟨outgoing, passed, ours'⟩ := took past
  obtain ⟨shared, here, first, effect, spans'⟩ := spans.heard split past
  obtain ⟨applied, apply, rfl⟩ := LocalCopy.apply_of_effect? effect
  have others' : Holds policy .server proxy (client.received + 1) up theirs mine :=
    Holds.met (split ▸ others) past
  have done : ClientAlgorithm.integrate client op =
      .done op' { client with outgoing, copy := applied, received := client.received + 1 } [] := by
    have passed' : passQueue client.copy.policy .client client.outgoing op = .ok (op', outgoing) :=
      policy_eq ▸ passed
    change client.integrate op = _
    simp only [Client.integrate, passed', apply]
  have creator : op'.creator? = op.creator? := by
    rw [Operation.creator?, passQueue_stamp passed]
    rfl
  rw [done]
  refine ⟨op', ⟨shared, mine, theirs⟩, rfl, ?_, ⟨form, split, first, past⟩, site_eq,
    (LocalCopy.apply_eq_ok apply).2.2.trans policy_eq, ⟨proxy, found, ours' _, ?_⟩, ?_, spans'⟩
  · rw [creator]
    exact foreign op List.mem_cons_self
  · change Holds policy .server proxy (client.received + 1) (up ++ []) theirs mine
    rw [List.append_nil]
    exact others'
  · exact fun op' among => foreign op' (List.mem_cons_of_mem _ among)

theorem refuse (op : Operation α) (stranger : site ∉ sites server)
    (own : op.creator? = some site) :
    ∃ e, ServerAlgorithm.integrate server op = .fail e server := by
  obtain ⟨stamp, stamped, rfl⟩ := Option.map_eq_some_iff.mp own
  have absent : server.proxies.get? stamp.creator = none := by
    cases found : server.proxies.get? stamp.creator with
    | none => rfl
    | some proxy => exact absurd (Server.mem_sites.mpr ⟨proxy, found⟩) stranger
  refine ⟨.unknownSite stamp.creator, ?_⟩
  change server.integrate op = _
  simp only [Server.integrate, stamped, absent]

/-- What the server becomes and sends when it takes in an operation. -/
theorem integrate_eq {op op' : Operation α} {stamp : Stamp} {proxy : Proxy α}
    {outgoing : List (Operation α)} {applied : LocalCopy α} (stamped : op.stamp = some stamp)
    (found : server.proxies.get? stamp.creator = some proxy)
    (passed : passQueue server.copy.policy .server proxy.outgoing op = .ok (op', outgoing))
    (apply : server.copy.apply op' = .ok applied) :
    ∃ server' sent, server.integrate op = .done op' server' sent ∧ server'.copy = applied ∧
      (∀ t, server'.proxies.get? t =
        if t = stamp.creator then some ⟨proxy.sent, proxy.received + 1, outgoing⟩
        else (server.proxies.get? t).map (·.relay stamp.creator op')) ∧
      server'.proxies.keys = server.proxies.keys ∧
      ∀ t, mailed t sent = if t = stamp.creator then []
        else ((server.proxies.get? t).map (·.relayed stamp.creator op')).toList := by
  have next : proxy.integrate server.copy.policy op =
      .ok (op', ⟨proxy.sent, proxy.received + 1, outgoing⟩) := by
    simp only [Proxy.integrate, passed]
    rfl
  let proxies := server.proxies.adjust stamp.creator
    fun _ => ⟨proxy.sent, proxy.received + 1, outgoing⟩
  refine ⟨⟨applied, proxies.mapWithKey fun site proxy =>
      if site = stamp.creator then proxy else proxy.relay stamp.creator op'⟩,
    Server.relays proxies stamp.creator op', ?_, rfl, fun t => ?_, ?_, fun t => ?_⟩
  · simp only [Server.integrate, stamped, found, next, apply]
    rfl
  · rw [SortedMap.get?_mapWithKey, SortedMap.get?_adjust]
    by_cases here : t = stamp.creator
    · subst t
      rw [if_pos rfl, if_pos rfl, found]
      simp
    · rw [if_neg here, if_neg here]
      simp [here]
  · rw [SortedMap.keys_mapWithKey]
    exact SortedMap.keys_mapWithKey ..
  · rw [mailed_relays, SortedMap.get?_adjust]
    split <;> rfl

theorem tracks_serve {up down : List (Operation α)} {op : Operation α}
    (sound : server.copy.Sound policy) (own : op.creator? = some site)
    (tracks : Tracks policy server site ⟨client, op :: up, down⟩ gap) :
    ∃ op' gap', (ServerAlgorithm.integrate server op).result = .ok op' ∧
      gap.Served policy op' gap' ∧
      (copy (ServerAlgorithm.integrate server op).state).history =
        (copy server).history ++ [op'] ∧
      (copy (ServerAlgorithm.integrate server op).state).Sound policy ∧
      sites (ServerAlgorithm.integrate server op).state = sites server ∧
      Tracks policy (ServerAlgorithm.integrate server op).state site
        ⟨client, up, down ++ mailed site (ServerAlgorithm.integrate server op).sent⟩ gap' ∧
      ∀ t ∈ sites server, t ≠ site → ∃ relay : Operation α, relay.edit = op'.edit ∧
        relay.creator? = some site ∧
        ∀ seat gap, Tracks policy server t seat gap →
          Tracks policy (ServerAlgorithm.integrate server op).state t
            { seat with
              down := seat.down ++ mailed t (ServerAlgorithm.integrate server op).sent }
            { gap with theirs := gap.theirs ++ [relay] } := by
  obtain ⟨site_eq, policy_eq, ⟨proxy, found, ours, others⟩, foreign, spans⟩ := tracks
  obtain ⟨form, mine, split, took⟩ := others.took
  obtain ⟨op', theirs, past⟩ := transformPast_total policy .server form gap.theirs
  obtain ⟨outgoing, passed, others'⟩ := took past
  obtain ⟨shared, there, first, effect, spans'⟩ := spans.served split past
  obtain ⟨applied, apply, rfl⟩ := LocalCopy.apply_of_effect? effect
  obtain ⟨-, history, -⟩ := LocalCopy.apply_eq_ok apply
  have ours' : Holds policy .client client.stand (proxy.received + 1) down mine theirs :=
    Holds.met (split ▸ ours) past
  obtain ⟨stamp, stamped, rfl⟩ := Option.map_eq_some_iff.mp own
  have passed' : passQueue server.copy.policy .server proxy.outgoing op = .ok (op', outgoing) :=
    sound.policy_eq ▸ passed
  obtain ⟨server', sent, done, rfl, proxies, keys, mail⟩ :=
    integrate_eq stamped found passed' apply
  have done' : ServerAlgorithm.integrate server op = .done op' server' sent := done
  have stamped' : op'.stamp.isSome := by
    rw [passQueue_stamp passed, stamped]
    rfl
  rw [done']
  refine ⟨op', ⟨shared, mine, theirs⟩, rfl, ⟨form, split, first, past⟩, history,
    sound.apply stamped' apply, keys, ?_, ?_⟩
  · have nothing : mailed stamp.creator sent = [] := by rw [mail, if_pos rfl]
    have there := (proxies stamp.creator).trans (if_pos rfl)
    refine ⟨site_eq, policy_eq, ⟨_, there, ?_, others' _⟩, ?_, spans'⟩
    · change Holds policy .client client.stand _ (down ++ mailed stamp.creator sent) mine theirs
      rw [nothing, List.append_nil]
      exact ours'
    · change ∀ op ∈ down ++ mailed stamp.creator sent, _
      rw [nothing, List.append_nil]
      exact foreign
  · intro t member other
    obtain ⟨proxy', found'⟩ := Server.mem_sites.mp member
    have added : mailed t sent = [proxy'.relayed stamp.creator op'] := by
      rw [mail, if_neg other, found']
      rfl
    have there : server'.proxies.get? t = some (proxy'.relay stamp.creator op') := by
      rw [proxies, if_neg other, found']
      rfl
    refine ⟨proxy'.relayed stamp.creator op', rfl, rfl, fun seat gap' tracks' => ?_⟩
    obtain ⟨site_eq', policy_eq', ⟨proxy₁, found₁, ours₁, others₁⟩, foreign', spans₁⟩ := tracks'
    obtain rfl : proxy' = proxy₁ := Option.some.inj (found'.symm.trans found₁)
    refine ⟨site_eq', policy_eq', ⟨_, there, ?_, others₁.send rfl rfl⟩, ?_, ?_⟩
    · change Holds policy .client seat.client.stand proxy'.received (seat.down ++ mailed t sent) _ _
      rw [added]
      exact ours₁.told rfl rfl
    · change ∀ op ∈ seat.down ++ mailed t sent, _
      rw [added]
      intro op'' among
      rcases List.mem_append.mp among with waiting | new
      · exact foreign' op'' waiting
      · rw [List.mem_singleton.mp new]
        exact fun same => other (Option.some.inj same).symm
    · have same : (proxy'.relayed stamp.creator op').effect? = op'.effect? :=
        Operation.effect?_congr rfl stamped'.symm
      exact spans₁.relayed (same ▸ effect)

/-- The simulation of a jupiter star. -/
def simulation (policy : Policy) : Simulation Server Client α policy where
  Sound server := server.copy.Sound policy
  Owned site client := client.site = site
  Tracks := Tracks policy
  spans tracks := tracks.spans
  quiet := by
    rintro server site client gap ⟨-, -, ⟨proxy, -, ours, others⟩, -, -⟩
    exact ⟨others.quiet, ours.quiet⟩
  sound sound := sound
  start_sound := .start policy
  start_sites := rfl
  join mode sound stranger := tracks_join sound mode stranger
  leave sound removed := tracks_leave sound removed
  generate_owned := generate_owned
  generate := tracks_generate
  hear_owned := integrate_owned
  hear _ tracks := by
    obtain ⟨op', gap', heard, foreign, moved, tracks'⟩ := tracks_hear tracks
    exact ⟨op', gap', heard, .inl ⟨foreign, moved⟩, tracks'⟩
  refuse _ stranger own := refuse _ stranger own
  serve sound _ own tracks := tracks_serve sound own tracks

/-- The jupiter star that a schedule leads to. -/
def reach (policy : Policy) (mode : FillMode) (schedule : List (Action α)) : Star Server Client α :=
  (Star.start policy mode).run schedule

end Jupiter

/-- Whatever happened in a jupiter star, no delivery from or to a registered site fails, and a site
with nothing under way has the elements of the server. -/
theorem jupiter_converges [Element α] (policy : Policy) (mode : FillMode)
    (schedule : List (Action α)) (site : SiteId) :
    let star := Jupiter.reach policy mode schedule
    site ∈ star.server.proxies.keys →
      (∀ o, star.deliverUp? site = some o → ∃ op, o.result = .ok op) ∧
      (∀ o, star.deliverDown? site = some o → ∃ op, o.result = .ok op) ∧
      ∃ client, star.clients.get? site = some client ∧
        (star.upLink site = [] → star.downLink site = [] →
          client.copy.document.values = star.server.copy.document.values) := by
  intro star member
  obtain ⟨gaps, follows⟩ := (Jupiter.simulation policy).follows_run mode schedule
  obtain ⟨seat, seated, tracks⟩ := follows.tracked site member
  obtain ⟨found, up, down⟩ := Star.seat?_eq_some_iff.mp seated
  obtain ⟨ups, downs⟩ := follows.deliveries_ok member
  refine ⟨ups, downs, seat.client, found, fun noneUp noneDown => ?_⟩
  exact (Jupiter.simulation policy).settled tracks (up.symm.trans noneUp) (down.symm.trans noneDown)

theorem jupiter_converges_crossing :
    let star := Jupiter.reach .firstWriterWins .stateBased (crossing (.ofNat 1) (.ofNat 2) 'x' 'y')
    (.ofNat 1) ∈ star.server.proxies.keys ∧ star.upLink (.ofNat 1) = [] ∧
      star.downLink (.ofNat 1) = [] ∧ ∃ client, star.clients.get? (.ofNat 1) = some client ∧
        client.copy.document.values = star.server.copy.document.values := by
  intro star
  have member : (.ofNat 1) ∈ star.server.proxies.keys := by decide +kernel
  have up : star.upLink (.ofNat 1) = [] := by decide +kernel
  have down : star.downLink (.ofNat 1) = [] := by decide +kernel
  obtain ⟨-, -, client, found, same⟩ := jupiter_converges _ _ _ _ member
  exact ⟨member, up, down, client, found, same up down⟩

end CoEdit
