import CoEdit.Proofs.Simulation
import CoEdit.Proofs.WavePhase

/-!
# Convergence of wave

A seat is tracked if its client is in one of the three phases and the link to it holds the part of
the server's history that it has not seen.
-/

namespace CoEdit

open ClientAlgorithm ServerAlgorithm

variable {α : Type}

/-- What goes to each of some sites comes to each of them once. -/
theorem mailed_to_all {sites : List SiteId} (distinct : sites.Nodup) (op : Operation α)
    (t : SiteId) :
    mailed t (sites.map fun site => (.site site, op)) = if t ∈ sites then [op] else [] := by
  induction sites with
  | nil => rfl
  | cons site rest ih =>
    obtain ⟨fresh, distinct⟩ := List.nodup_cons.mp distinct
    by_cases here : t = site
    · subst t
      rw [List.map_cons, mailed_cons_self, ih distinct, if_neg fresh, if_pos List.mem_cons_self]
    · rw [List.map_cons, mailed_cons_other (Ne.symm here), ih distinct]
      simp only [List.mem_cons, here, false_or]

namespace Operation

/-- A change of revision keeps the edit and the creator. -/
theorem retag_eq_ok {op : Operation α} {site : SiteId} (own : op.creator? = some site)
    (state : StateVector) : op.retag state = .ok (op.stamped site state) := by
  obtain ⟨stamp, stamped, rfl⟩ := Option.map_eq_some_iff.mp own
  simp only [retag, getStamp, stamped]
  rfl

end Operation

namespace Wave

/-- What holds of every client: it sends under its own name only. -/
structure Owned (site : SiteId) (client : Client α) : Prop where
  site_eq : client.site = site
  buffer : ∀ op ∈ client.buffer, op.creator? = some site

theorem acknowledge_owned {site : SiteId} {client : Client α} (op : Operation α)
    (own : Owned site client) :
    Owned site (client.acknowledge op).state ∧
      ∀ sent ∈ (client.acknowledge op).sent, sent.2.creator? = some site := by
  simp only [Client.acknowledge]
  split
  · exact ⟨own, fun sent h => by cases h⟩
  · exact ⟨⟨own.site_eq, own.buffer⟩, fun sent h => by cases h⟩
  · rename_i next rest flying waiting
    have kept : ∀ op ∈ rest, op.creator? = some site := fun op among =>
      own.buffer op (waiting ▸ List.mem_cons_of_mem _ among)
    have mine : next.creator? = some site := own.buffer next (waiting ▸ List.mem_cons_self)
    rw [Operation.retag_eq_ok mine]
    refine ⟨⟨own.site_eq, kept⟩, fun sent h => ?_⟩
    rw [List.mem_singleton.mp h]
    rfl

variable [Element α]

/-- What holds of the server alone. -/
structure Sound (policy : Policy) (server : Server α) : Prop where
  copy : server.copy.Sound policy
  distinct : server.sites.Nodup

/-- What holds of the server and the seat of a registered site. -/
structure Tracks (policy : Policy) (server : Server α) (site : SiteId) (seat : Seat Client α)
    (gap : Gap α) : Prop where
  owned : Owned site seat.client
  policy_eq : seat.client.copy.policy = policy
  seen_le : seat.client.seen ≤ server.copy.history.length
  down : seat.down = server.copy.history.drop seat.client.seen
  phase : Phase policy site server.copy.history seat.client.seen seat.client.inFlight
    seat.client.buffer seat.up gap
  spans : gap.Spans seat.client.copy.document.values server.copy.document.values

variable {policy : Policy} {server : Server α} {site : SiteId} {gap : Gap α} {client : Client α}

theorem Sound.whole (sound : Sound policy server) :
    Operation.effects? server.copy.history [] = some server.copy.document.values :=
  Document.effects?_of_applyAll sound.copy.replays

theorem tracks_join (sound : Sound policy server) (mode : FillMode)
    (stranger : site ∉ sites server) :
    ∃ data server' client gap, addSite server site mode = .ok (data, server') ∧
      fill (ClientAlgorithm.start policy site) data = .ok client ∧ Sound policy server' ∧
      Owned site client ∧ (copy server').history = (copy server).history ∧
      (∀ t, t ∈ sites server' ↔ t = site ∨ t ∈ sites server) ∧
      Tracks policy server' site ⟨client, [], []⟩ gap ∧
      ∀ t seat gap, t ≠ site → Tracks policy server t seat gap →
        Tracks policy server' t seat gap := by
  obtain ⟨state, loaded, load, values, policy_eq⟩ :=
    sound.copy.replays.load policy mode server.state
  have absent : site ∉ server.sites := stranger
  let joined : Server α := { server with sites := server.sites ++ [site] }
  let client : Client α := ⟨site, server.copy.history.length, loaded, none, []⟩
  have owned : Owned site client := ⟨rfl, fun op h => by cases h⟩
  have none_left : server.copy.history.drop server.copy.history.length = [] := List.drop_length
  have phase : Phase policy site server.copy.history server.copy.history.length none [] []
      ⟨server.copy.document.values, [], server.copy.history.drop server.copy.history.length⟩ := by
    refine .idle ?_ ?_
    · rw [none_left]
      exact fun op h => by cases h
    · rw [List.take_length]
      exact sound.whole
  rw [none_left] at phase
  have added : addSite server site mode = .ok (server.copy.capture mode server.state, joined) :=
    if_neg absent
  have filled : fill (ClientAlgorithm.start policy site) (server.copy.capture mode server.state) =
      .ok client := fill_eq_ok (by rw [state]; rfl) load (by rw [state]; rfl)
  have distinct : (server.sites ++ [site]).Nodup := by
    rw [List.nodup_append]
    refine ⟨sound.distinct, List.pairwise_singleton .., fun s known t new => ?_⟩
    rintro rfl
    rw [List.mem_singleton] at new
    exact absent (new ▸ known)
  refine ⟨_, joined, client, ⟨server.copy.document.values, [], []⟩, added, filled,
    ⟨sound.copy, distinct⟩, owned, rfl, fun t => ?_, ?_, ?_⟩
  · change t ∈ server.sites ++ [site] ↔ _
    rw [List.mem_append, List.mem_singleton, or_comm]
    rfl
  · exact ⟨owned, policy_eq, Nat.le_refl _, none_left.symm, phase, congrArg some values.symm, rfl⟩
  · intro t seat gap other tracks
    exact ⟨tracks.owned, tracks.policy_eq, tracks.seen_le, tracks.down, tracks.phase, tracks.spans⟩

theorem tracks_leave (sound : Sound policy server) {server' : Server α}
    (removed : removeSite server site = .ok server') :
    Sound policy server' ∧ (copy server').history = (copy server).history ∧
      (∀ t ∈ sites server, t ≠ site → t ∈ sites server') ∧
      ∀ t ∈ sites server', t ∈ sites server ∧
        ∀ seat gap, Tracks policy server t seat gap → Tracks policy server' t seat gap := by
  change Server.removeSite server site = _ at removed
  simp only [Server.removeSite] at removed
  split at removed <;> cases removed
  refine ⟨⟨sound.copy, sound.distinct.erase _⟩, rfl,
    fun t member other => (List.mem_erase_of_ne other).mpr member,
    fun t member => ⟨List.mem_of_mem_erase member, fun seat gap tracks => ?_⟩⟩
  exact ⟨tracks.owned, tracks.policy_eq, tracks.seen_le, tracks.down, tracks.phase, tracks.spans⟩

theorem generate_cases (client : Client α) (op : Operation α) :
    (∃ e, generate client op = .fail e client) ∨
      ∃ applied, client.copy.apply (op.stamped client.site client.state) = .ok applied ∧
        generate client op =
          if client.inFlight.isNone && client.buffer.isEmpty then
            .done (op.stamped client.site client.state)
              { client with
                copy := applied, inFlight := some (op.stamped client.site client.state) }
              [(.server, op.stamped client.site client.state)]
          else
            .done (op.stamped client.site client.state)
              { client with
                copy := applied
                buffer := client.buffer ++ [op.stamped client.site client.state] } [] := by
  change (∃ e, client.generate op = .fail e client) ∨ ∃ applied, _ ∧ client.generate op = _
  simp only [Client.generate]
  cases applied : client.copy.apply (op.stamped client.site client.state) with
  | error e => exact .inl ⟨e, rfl⟩
  | ok copy => exact .inr ⟨copy, rfl, rfl⟩

theorem generate_owned (op : Operation α) (own : Owned site client) :
    Owned site (generate client op).state ∧
      ∀ sent ∈ (generate client op).sent, sent.2.creator? = some site := by
  have creator : (op.stamped client.site client.state).creator? = some site := by
    rw [← own.site_eq]
    rfl
  rcases generate_cases client op with ⟨e, failed⟩ | ⟨applied, -, done⟩
  · rw [failed]
    exact ⟨own, fun sent h => by cases h⟩
  · rw [done]
    split
    · refine ⟨⟨own.site_eq, own.buffer⟩, fun sent h => ?_⟩
      rw [List.mem_singleton.mp h]
      exact creator
    · refine ⟨⟨own.site_eq, fun op' among => ?_⟩, fun sent h => by cases h⟩
      rcases List.mem_append.mp among with before | new
      · exact own.buffer op' before
      · rw [List.mem_singleton.mp new]
        exact creator

theorem tracks_generate {up down : List (Operation α)} (op : Operation α)
    (tracks : Tracks policy server site ⟨client, up, down⟩ gap) :
    (∃ e, generate client op = .fail e client) ∨
      ∃ op', (generate client op).result = .ok op' ∧ op'.edit = op.edit ∧
        Tracks policy server site ⟨(generate client op).state,
          up ++ (generate client op).sent.map Prod.snd, down⟩
          { gap with mine := gap.mine ++ [op'] } := by
  have owned := (generate_owned op tracks.owned).1
  obtain ⟨own, policy_eq, seen_le, link, phase, spans⟩ := tracks
  refine (generate_cases client op).imp_right fun ⟨applied, apply, done⟩ => ?_
  rw [done] at owned ⊢
  have stamp : SentAt (op.stamped client.site client.state) site client.seen :=
    ⟨_, rfl, own.site_eq, rfl⟩
  have policy_eq' := (LocalCopy.apply_eq_ok apply).2.2.trans policy_eq
  have spans' := spans.made (LocalCopy.effect?_of_apply apply)
  rcases phase.generate stamp with ⟨idle, empty, phase'⟩ | ⟨flying, busy, phase'⟩
  · have chance : (client.inFlight.isNone && client.buffer.isEmpty) = true := by
      rw [show client.inFlight = none from idle, show client.buffer = [] from empty]
      rfl
    rw [if_pos chance] at owned ⊢
    refine ⟨_, rfl, rfl, owned, policy_eq', seen_le, link, ?_, spans'⟩
    change Phase policy site server.copy.history client.seen _ client.buffer _ _
    rw [show client.buffer = [] from empty]
    exact phase'
  · have none_left : (client.inFlight.isNone && client.buffer.isEmpty) = false := by
      rw [show client.inFlight = some flying from busy]
      rfl
    rw [if_neg (by rw [none_left]; exact Bool.false_ne_true)] at owned ⊢
    refine ⟨_, rfl, rfl, owned, policy_eq', seen_le, link, ?_, spans'⟩
    change Phase policy site server.copy.history client.seen client.inFlight _ (up ++ []) _
    rw [List.append_nil]
    exact phase'

/-- The client with one more operation seen and what is under way rewritten. -/
def Client.past (client : Client α) (underWay : List (Operation α)) : Client α :=
  { client with
    seen := client.seen + 1
    inFlight := if client.inFlight.isSome then underWay.head? else client.inFlight
    buffer := if client.inFlight.isSome then underWay.tail else client.buffer }

theorem receive_eq {op op' : Operation α} {underWay : List (Operation α)}
    (past : transformPast client.copy.policy .client op (client.inFlight.toList ++ client.buffer) =
      .ok (op', underWay)) :
    client.receive op = match client.copy.apply op' with
      | .error e => .fail e (client.past underWay)
      | .ok applied => .done op' { client.past underWay with copy := applied } [] := by
  simp only [Client.receive, past]
  simp only [Client.past]
  cases flying : client.inFlight with
  | none => rfl
  | some f => rfl

theorem receive_owned (op : Operation α) (own : Owned site client) :
    Owned site (client.receive op).state ∧ (client.receive op).sent = [] := by
  obtain ⟨op', underWay, past⟩ := transformPast_total client.copy.policy .client op
    (client.inFlight.toList ++ client.buffer)
  have kept : ∀ op ∈ (client.past underWay).buffer, op.creator? = some site := by
    simp only [Client.past]
    cases flying : client.inFlight with
    | none => exact own.buffer
    | some f =>
      rw [flying] at past
      -- the stamps of the buffer are those of its old operations
      have stamps : underWay.map (·.stamp) = (f :: client.buffer).map (·.stamp) :=
        (transformPast_stamps past).2
      obtain ⟨f', rest, rfl, -, others⟩ := List.map_eq_cons_iff.mp stamps
      intro op among
      have known : op.stamp ∈ client.buffer.map (·.stamp) := others ▸ List.mem_map_of_mem among
      obtain ⟨op', among', same⟩ := List.mem_map.mp known
      rw [Operation.creator?, ← same]
      exact own.buffer op' among'
  rw [receive_eq past]
  split <;> exact ⟨⟨own.site_eq, kept⟩, rfl⟩

theorem integrate_owned (op : Operation α) (own : Owned site client) :
    Owned site (ClientAlgorithm.integrate client op).state ∧
      ∀ sent ∈ (ClientAlgorithm.integrate client op).sent, sent.2.creator? = some site := by
  change Owned site (client.integrate op).state ∧ ∀ sent ∈ (client.integrate op).sent, _
  simp only [Client.integrate]
  split
  · exact ⟨own, fun sent h => by cases h⟩
  · split
    · exact acknowledge_owned op ⟨own.site_eq, own.buffer⟩
    · split
      · exact ⟨own, fun sent h => by cases h⟩
      · obtain ⟨owned, nothing⟩ := receive_owned op own
        refine ⟨owned, fun sent h => ?_⟩
        rw [nothing] at h
        cases h

/-- An operation of another site comes in. -/
theorem tracks_hear_foreign {up down : List (Operation α)} {op : Operation α}
    (sound : Sound policy server) (tracks : Tracks policy server site ⟨client, up, op :: down⟩ gap)
    (foreign : op.creator? ≠ some site) :
    ∃ op' gap', (ClientAlgorithm.integrate client op).result = .ok op' ∧
      op'.creator? ≠ some site ∧ gap.Heard policy op' gap' ∧
      Tracks policy server site ⟨(ClientAlgorithm.integrate client op).state,
        up ++ (ClientAlgorithm.integrate client op).sent.map Prod.snd, down⟩ gap' := by
  have owned := (integrate_owned op tracks.owned).1
  obtain ⟨own, policy_eq, seen_le, link, phase, spans⟩ := tracks
  have next : server.copy.history.drop client.seen = op :: down := link.symm
  obtain ⟨op', underWay, past⟩ := transformPast_total policy .client op
    (client.inFlight.toList ++ client.buffer)
  obtain ⟨first, theirs, mine, split, past', hear⟩ := phase.hear next foreign sound.whole past
  obtain ⟨shared, here, effect, effect', spans'⟩ := spans.heard split past'
  obtain ⟨applied, apply, rfl⟩ := LocalCopy.apply_of_effect? effect'
  obtain ⟨stamp, stamped⟩ : ∃ stamp, op.stamp = some stamp :=
    Option.isSome_iff_exists.mp
      (sound.copy.stamped op (List.mem_of_mem_drop (next ▸ List.mem_cons_self)))
  have other : stamp.creator ≠ client.site := by
    rw [own.site_eq]
    rintro rfl
    exact foreign (by rw [Operation.creator?, stamped]; rfl)
  have active : (client.inFlight.isNone && !client.buffer.isEmpty) = false := by
    cases flying : client.inFlight with
    | some f => rfl
    | none =>
      change Phase policy site _ client.seen client.inFlight client.buffer up gap at phase
      rw [flying] at phase
      rw [phase.of_none.1]
      rfl
  have done : ClientAlgorithm.integrate client op =
      .done op' { client.past underWay with copy := applied } [] := by
    change client.integrate op = _
    have received := receive_eq (policy_eq.symm ▸ past)
    rw [apply] at received
    simp only [Client.integrate, stamped, if_neg other, active]
    exact received
  rw [done] at owned ⊢
  refine ⟨op', ⟨shared, mine, theirs⟩, rfl, ?_, ⟨first, split, effect, past'⟩, owned,
    (LocalCopy.apply_eq_ok apply).2.2.trans policy_eq, ?_, ?_, ?_, spans'⟩
  · rw [Operation.creator?, (transformPast_stamps past).1]
    exact foreign
  · exact (take_succ_of_drop next).1
  · exact (take_succ_of_drop next).2.2.symm
  · change Phase policy site _ (client.seen + 1) (client.past underWay).inFlight
      (client.past underWay).buffer (up ++ []) _
    rw [List.append_nil]
    exact hear shared effect

/-- The echo of the operation in flight comes in. -/
theorem tracks_hear_own {up down : List (Operation α)} {op : Operation α}
    (tracks : Tracks policy server site ⟨client, up, op :: down⟩ gap)
    (own : op.creator? = some site) :
    ∃ gap', (ClientAlgorithm.integrate client op).result = .ok op ∧ gap'.shared = gap.shared ∧
      gap'.mine.map (·.edit) = gap.mine.map (·.edit) ∧ gap'.theirs = gap.theirs ∧
      Tracks policy server site ⟨(ClientAlgorithm.integrate client op).state,
        up ++ (ClientAlgorithm.integrate client op).sent.map Prod.snd, down⟩ gap' := by
  have owned := (integrate_owned op tracks.owned).1
  obtain ⟨own', policy_eq, seen_le, link, phase, spans⟩ := tracks
  have next : server.copy.history.drop client.seen = op :: down := link.symm
  obtain ⟨seen_le', -, later⟩ := take_succ_of_drop next
  obtain ⟨stamp, stamped, creator⟩ := Option.map_eq_some_iff.mp own
  have mine : stamp.creator = client.site := creator.trans own'.site_eq.symm
  obtain ⟨rfl, gap_mine, gap_theirs, flying, last, more⟩ := phase.echoed next own
  have flying' : client.inFlight = some op := flying
  have done : ClientAlgorithm.integrate client op =
      { client with seen := client.seen + 1 }.acknowledge op := by
    change client.integrate op = _
    simp only [Client.integrate, stamped, if_pos mine]
  cases waiting : client.buffer with
  | nil =>
    have ended : ClientAlgorithm.integrate client op =
        .done op { client with seen := client.seen + 1, inFlight := none } [] := by
      rw [done]
      simp only [Client.acknowledge, flying', waiting]
    rw [ended] at owned ⊢
    refine ⟨gap, rfl, rfl, rfl, rfl, owned, policy_eq, seen_le', later.symm, ?_, spans⟩
    change Phase policy site _ (client.seen + 1) none client.buffer [] gap
    rw [waiting]
    exact last waiting
  | cons first rest =>
    have first_own : first.creator? = some site := own'.buffer first (waiting ▸ List.mem_cons_self)
    have promoted : ClientAlgorithm.integrate client op =
        .done op { client with
            seen := client.seen + 1
            inFlight := some (first.stamped site ⟨[client.seen + 1]⟩)
            buffer := rest }
          [(.server, first.stamped site ⟨[client.seen + 1]⟩)] := by
      rw [done]
      simp only [Client.acknowledge, flying', waiting, Operation.retag_eq_ok first_own]
      rfl
    rw [promoted] at owned ⊢
    have sent : SentAt (first.stamped site ⟨[client.seen + 1]⟩) site (client.seen + 1) :=
      ⟨_, rfl, rfl, rfl⟩
    have phase' := more first rest _ waiting sent
    let gap' : Gap α := { gap with mine := first.stamped site ⟨[client.seen + 1]⟩ :: rest }
    refine ⟨gap', rfl, rfl, ?_, rfl, owned, policy_eq, seen_le', later.symm, phase', ?_⟩
    · rw [gap_mine, waiting]
      rfl
    · obtain ⟨stamp', stamped', -⟩ := Option.map_eq_some_iff.mp first_own
      have same : (first.stamped site ⟨[client.seen + 1]⟩).effect? = first.effect? :=
        Operation.effect?_congr rfl (by rw [stamped']; rfl)
      obtain ⟨site_part, server_part⟩ := spans
      rw [gap_mine, waiting] at site_part
      refine ⟨?_, server_part⟩
      rw [Operation.effects?_cons, same]
      exact site_part

theorem refuse (op : Operation α) (stranger : site ∉ sites server)
    (own : op.creator? = some site) :
    ∃ e, ServerAlgorithm.integrate server op = .fail e server := by
  obtain ⟨stamp, stamped, rfl⟩ := Option.map_eq_some_iff.mp own
  have absent : stamp.creator ∉ server.sites := stranger
  refine ⟨.unknownSite stamp.creator, ?_⟩
  change server.integrate op = _
  simp only [Server.integrate, stamped, if_pos absent]

theorem tracks_serve {up down : List (Operation α)} {op : Operation α}
    (sound : Sound policy server) (member : site ∈ sites server)
    (tracks : Tracks policy server site ⟨client, op :: up, down⟩ gap) :
    ∃ op' gap', (ServerAlgorithm.integrate server op).result = .ok op' ∧
      gap.Served policy op' gap' ∧
      (copy (ServerAlgorithm.integrate server op).state).history =
        (copy server).history ++ [op'] ∧
      Sound policy (ServerAlgorithm.integrate server op).state ∧
      sites (ServerAlgorithm.integrate server op).state = sites server ∧
      Tracks policy (ServerAlgorithm.integrate server op).state site
        ⟨client, up, down ++ mailed site (ServerAlgorithm.integrate server op).sent⟩ gap' ∧
      ∀ t ∈ sites server, t ≠ site → ∃ relay : Operation α, relay.edit = op'.edit ∧
        relay.creator? = some site ∧
        ∀ seat gap, Tracks policy server t seat gap →
          Tracks policy (ServerAlgorithm.integrate server op).state t
            { seat with
              down := seat.down ++ mailed t (ServerAlgorithm.integrate server op).sent }
            { gap with theirs := gap.theirs ++ [relay] } := by
  obtain ⟨own', policy_eq, seen_le, link, phase, spans⟩ := tracks
  obtain ⟨revision, flying, mine, echo, theirs, past, ⟨stamp, stamped, creator, state⟩, within,
    rfl, split, rebased, past', serve⟩ := phase.serve seen_le
  obtain ⟨shared, there, effect, effect', spans'⟩ := spans.served split past'
  obtain ⟨applied, apply, rfl⟩ := LocalCopy.apply_of_effect? effect'
  obtain ⟨-, history, -⟩ := LocalCopy.apply_eq_ok apply
  have same_stamp : echo.stamp = some stamp := (transformPast_stamps rebased).1.trans stamped
  have done : ServerAlgorithm.integrate server op = .done echo { server with copy := applied }
      (server.sites.map fun site => (.site site, echo)) := by
    have known : ¬ stamp.creator ∉ server.sites := by
      rw [creator]
      exact not_not_intro member
    have since : server.copy.history.since revision = .ok (server.copy.history.drop revision) :=
      if_pos within
    have rebase : server.rebase op (stamp.state.get 0) = .ok echo := by
      simp only [Server.rebase, state, since, bind, Except.bind, sound.copy.policy_eq, rebased]
      rfl
    change server.integrate op = _
    simp only [Server.integrate, stamped, if_neg known, rebase, apply]
  have mail : ∀ t ∈ server.sites, mailed t (server.sites.map fun site => (.site site, echo)) =
      [echo] := by
    intro t known
    rw [mailed_to_all sound.distinct, if_pos known]
  rw [done]
  refine ⟨echo, ⟨shared, mine, theirs⟩, rfl, ⟨flying, split, effect, past'⟩, history,
    ⟨sound.copy.apply (by rw [same_stamp]; rfl) apply, sound.distinct⟩, rfl, ?_, ?_⟩
  · refine ⟨own', policy_eq, ?_, ?_, ?_, spans'⟩
    · change client.seen ≤ applied.history.length
      rw [history, List.length_append]
      exact Nat.le_add_right_of_le seen_le
    · change down ++ mailed site (server.sites.map fun site => (.site site, echo)) =
        applied.history.drop client.seen
      rw [mail site member, history, List.drop_append_of_le_length seen_le, ← link]
    · change Phase policy site applied.history client.seen client.inFlight client.buffer [] _
      rw [history]
      exact serve shared effect
  · intro t known other
    refine ⟨echo, rfl, ?_, fun seat gap' tracks' => ?_⟩
    · rw [Operation.creator?, same_stamp, ← creator]
      rfl
    have foreign : echo.creator? ≠ some t := by
      rw [Operation.creator?, same_stamp]
      rintro same
      exact other ((Option.some.inj same).symm.trans creator)
    refine ⟨tracks'.owned, tracks'.policy_eq, ?_, ?_, ?_, tracks'.spans.relayed effect'⟩
    · change seat.client.seen ≤ applied.history.length
      rw [history, List.length_append]
      exact Nat.le_add_right_of_le tracks'.seen_le
    · change seat.down ++ mailed t (server.sites.map fun site => (.site site, echo)) =
        applied.history.drop seat.client.seen
      rw [mail t known, history, List.drop_append_of_le_length tracks'.seen_le, ← tracks'.down]
    · change Phase policy t applied.history seat.client.seen _ _ _ _
      rw [history]
      exact tracks'.phase.relayed tracks'.seen_le foreign

/-- The simulation of a wave star. -/
def simulation (policy : Policy) : Simulation Server Client α policy where
  Sound := Sound policy
  Owned := Owned
  Tracks := Tracks policy
  spans tracks := tracks.spans
  quiet tracks := tracks.phase.quiet tracks.down.symm
  sound sound := sound.copy
  start_sound := ⟨.start policy, .nil⟩
  start_sites := rfl
  join mode sound stranger := tracks_join sound mode stranger
  leave sound removed := tracks_leave sound removed
  generate_owned := generate_owned
  generate := tracks_generate
  hear_owned := integrate_owned
  hear {_ site _ _ op _ _} sound tracks := by
    by_cases own : op.creator? = some site
    · obtain ⟨gap', heard, shared, mine, theirs, tracks'⟩ := tracks_hear_own tracks own
      exact ⟨op, gap', heard, .inr ⟨own, shared, mine, theirs⟩, tracks'⟩
    · obtain ⟨op', gap', heard, foreign, moved, tracks'⟩ := tracks_hear_foreign sound tracks own
      exact ⟨op', gap', heard, .inl ⟨foreign, moved⟩, tracks'⟩
  refuse _ stranger own := refuse _ stranger own
  serve sound member _ tracks := tracks_serve sound member tracks

/-- The wave star that a schedule leads to. -/
def reach (policy : Policy) (mode : FillMode) (schedule : List (Action α)) : Star Server Client α :=
  (Star.start policy mode).run schedule

end Wave

/-- Whatever happened in a wave star, no delivery from or to a registered site fails, a site with
nothing in flight has the elements that the part of the history it has seen leads to, and one with
nothing under way those of the server. -/
theorem wave_converges [Element α] (policy : Policy) (mode : FillMode)
    (schedule : List (Action α)) (site : SiteId) :
    let star := Wave.reach policy mode schedule
    site ∈ star.server.sites →
      (∀ o, star.deliverUp? site = some o → ∃ op, o.result = .ok op) ∧
      (∀ o, star.deliverDown? site = some o → ∃ op, o.result = .ok op) ∧
      ∃ client, star.clients.get? site = some client ∧
        (client.inFlight = none → ∃ d,
          Document.empty.applyAll (star.server.copy.history.take (client.state.get 0)) = .ok d ∧
            client.copy.document.values = d.values) ∧
        (star.upLink site = [] → star.downLink site = [] →
          client.copy.document.values = star.server.copy.document.values) := by
  intro star member
  obtain ⟨gaps, follows⟩ := (Wave.simulation policy).follows_run mode schedule
  obtain ⟨⟨client, up, down⟩, seated, tracks⟩ := follows.tracked site member
  obtain ⟨found, links⟩ := Star.seat?_eq_some_iff.mp seated
  obtain ⟨ups, downs⟩ := follows.deliveries_ok member
  refine ⟨ups, downs, client, found, fun grounded => ?_, fun noneUp noneDown => ?_⟩
  · have phase : Wave.Phase policy site star.server.copy.history client.seen client.inFlight
        client.buffer up (gaps site) := tracks.phase
    rw [grounded] at phase
    obtain ⟨-, -, mine, -, replay⟩ := phase.of_none
    obtain ⟨d, applied, values⟩ := Document.applyAll_of_effects? (d := .empty) replay
    have here := tracks.spans.1
    rw [mine] at here
    exact ⟨d, applied, (Option.some.inj here).symm.trans values.symm⟩
  · exact (Wave.simulation policy).settled tracks (links.1.symm.trans noneUp)
      (links.2.symm.trans noneDown)

theorem wave_converges_crossing :
    let star := Wave.reach .firstWriterWins .stateBased (crossing (.ofNat 1) (.ofNat 2) 'x' 'y')
    (.ofNat 1) ∈ star.server.sites ∧ star.upLink (.ofNat 1) = [] ∧
      star.downLink (.ofNat 1) = [] ∧ ∃ client, star.clients.get? (.ofNat 1) = some client ∧
        client.copy.document.values = star.server.copy.document.values := by
  intro star
  have member : (.ofNat 1) ∈ star.server.sites := by decide +kernel
  have up : star.upLink (.ofNat 1) = [] := by decide +kernel
  have down : star.downLink (.ofNat 1) = [] := by decide +kernel
  obtain ⟨-, -, client, found, -, same⟩ := wave_converges _ _ _ _ member
  exact ⟨member, up, down, client, found, same up down⟩

end CoEdit
