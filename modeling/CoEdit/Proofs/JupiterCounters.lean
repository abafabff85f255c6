import CoEdit.Proofs.JupiterConvergence
import CoEdit.Proofs.Membership

/-!
# The counters of a jupiter link

The two ends of a link count for themselves, and each prunes its queue by what the other end last
said of itself. That they never disagree is read off `Holds`: the counters differ by what is under
way, and pruning leaves what the sender had not taken in, no more and no less
(`jupiter_links_in_step`).
-/

namespace CoEdit

namespace Jupiter

variable {α : Type} {queue kept link : List (Operation α)} {first last sent taken : Nat}

def tag? (op : Operation α) : Option Nat := op.stamp.map (·.state.get sentAxis)

/-- The operations were sent under the numbers from `first` on up to `last`, which is excluded. -/
def Tagged (first last : Nat) (queue : List (Operation α)) : Prop :=
  first ≤ last ∧ queue.map tag? = (List.range' first (last - first)).map some

/-- An end that has sent `sent` operations keeps the newest of them, among them all that are still
on the link. -/
structure InStep (sent : Nat) (queue link : List (Operation α)) : Prop where
  tagged : ∃ first, Tagged first sent queue
  covers : ∃ seen, queue.map (·.stamp) = seen ++ link.map (·.stamp)

/-- An end that takes in `op` keeps what it sent from the number on that `op` reports: pruning
singles it out, and rewriting leaves its stamps. -/
def Pruned (sent : Nat) (queue kept : List (Operation α)) (op : Operation α) : Prop :=
  ∃ stamp, op.stamp = some stamp ∧
    Tagged (stamp.state.get receivedAxis) sent (unseen queue (stamp.state.get receivedAxis)) ∧
    kept.map (·.stamp) = (unseen queue (stamp.state.get receivedAxis)).map (·.stamp)

theorem Numbered.tagged (h : Numbered first queue) :
    Tagged first (first + queue.length) queue := by
  refine ⟨Nat.le_add_right .., ?_⟩
  rw [Nat.add_sub_cancel_left]
  induction queue generalizing first with
  | nil => rfl
  | cons op queue ih =>
    obtain ⟨⟨stamp, stamped, number⟩, rest⟩ := h
    rw [List.map_cons, ih rest, List.length_cons, List.range'_succ, List.map_cons]
    simp only [tag?, stamped, Option.map_some, number]

namespace Holds

variable {policy : Policy} {role : Role} {stand : Proxy α} {inbox fresh forms : List (Operation α)}
  {op op' : Operation α}

/-- What arrives keeps its stamps on the way. -/
theorem forms_stamps (h : Holds policy role stand taken inbox fresh forms) :
    forms.map (·.stamp) = inbox.map (·.stamp) := by
  obtain ⟨⟨base, old, -, -, -, inbound⟩, -, -⟩ := h
  rw [inbound.stamps, counted, List.map_map]
  rfl

/-- The numbers of the queue end with the newest one that was given. -/
theorem queue_tagged (h : Holds policy role stand taken inbox fresh forms) :
    ∃ first, Tagged first stand.sent stand.outgoing := by
  obtain ⟨⟨base, old, outgoing, count, numbered, -⟩, sent, -⟩ := h
  have all : stand.sent = base + (old ++ fresh).length := by
    rw [sent, count, List.length_append, Nat.add_assoc]
  rw [outgoing, all]
  exact ⟨base, numbered.tagged⟩

/-- The end keeps all that the other end has yet to take in. -/
theorem in_step (h : Holds policy role stand taken inbox fresh forms)
    (under_way : fresh.map (·.stamp) = link.map (·.stamp)) :
    stand.sent = taken + link.length ∧ InStep stand.sent stand.outgoing link := by
  have same_length : fresh.length = link.length := by
    simpa using congrArg List.length under_way
  refine ⟨same_length ▸ h.sent, h.queue_tagged, ?_⟩
  obtain ⟨⟨base, old, outgoing, -⟩, -, -⟩ := h
  refine ⟨old.map (·.stamp), ?_⟩
  rw [outgoing, List.map_append, under_way]

/-- The oldest message on its way tells what of the queue its sender has not seen. -/
theorem pruned (h : Holds policy role stand taken (op :: inbox) fresh forms)
    (passed : passQueue policy role stand.outgoing op = .ok (op', kept)) :
    Pruned stand.sent stand.outgoing kept op := by
  obtain ⟨⟨base, old, outgoing, count, numbered, inbound⟩, sent, stamped⟩ := h
  obtain ⟨stamp, stamped⟩ := Option.isSome_iff_exists.mp (stamped op List.mem_cons_self)
  have reported : stamp.state.get receivedAxis = known op := by
    simp only [known, stamped, Option.map_some, Option.getD_some]
  cases inbound with
  | cons low high =>
    rw [← outgoing] at numbered
    have all : stand.outgoing.length = old.length + fresh.length := by
      rw [outgoing, List.length_append]
    have left : unseen stand.outgoing (known op) = stand.outgoing.drop (known op - base) :=
      numbered.unseen_eq _
    refine ⟨stamp, stamped, ?_, ?_⟩
    · have inside : known op - base ≤ stand.outgoing.length := by omega
      have numbers := (numbered.drop inside).tagged
      have start : base + (known op - base) = known op := Nat.add_sub_cancel' low
      have stop : known op + (stand.outgoing.drop (known op - base)).length = stand.sent := by
        rw [List.length_drop]
        omega
      rw [start, stop] at numbers
      rw [reported, left]
      exact numbers
    · have through : transformPast policy role op (unseen stand.outgoing (known op)) =
          .ok (op', kept) := by
        rw [left, ← passQueue_eq numbered (by rw [stamped]; rfl)]
        exact passed
      rw [reported]
      exact (transformPast_stamps through).2

end Holds

variable [Element α]

/-- The client's queue is rewritten whether or not the operation can be applied. -/
theorem Client.integrate_outgoing {client : Client α} {op op' : Operation α}
    (passed : passQueue client.copy.policy .client client.outgoing op = .ok (op', kept)) :
    (client.integrate op).state.outgoing = kept ∧
      (client.integrate op).state.sent = client.sent := by
  simp only [Client.integrate, passed]
  split <;> exact ⟨rfl, rfl⟩

/-- So is the proxy's. -/
theorem Server.integrate_outgoing {server : Server α} {op op' : Operation α} {stamp : Stamp}
    {proxy : Proxy α} (stamped : op.stamp = some stamp)
    (found : server.proxies.get? stamp.creator = some proxy)
    (passed : passQueue server.copy.policy .server proxy.outgoing op = .ok (op', kept)) :
    ∃ proxy', (server.integrate op).state.proxies.get? stamp.creator = some proxy' ∧
      proxy'.outgoing = kept ∧ proxy'.sent = proxy.sent := by
  have next : proxy.integrate server.copy.policy op =
      .ok (op', ⟨proxy.sent, proxy.received + 1, kept⟩) := by
    simp only [Proxy.integrate, passed]
    rfl
  refine ⟨⟨proxy.sent, proxy.received + 1, kept⟩, ?_, rfl, rfl⟩
  simp only [Server.integrate, stamped, found, next]
  split <;> simp [Outcome.fail, Outcome.done, SortedMap.get?_mapWithKey, SortedMap.get?_adjust,
    found]

end Jupiter

/-- In every jupiter star, the two ends of the link of a site that has not left agree: their
counters differ by what is under way, the numbers in either queue run up to the newest one given,
and with each operation that an end takes in it keeps exactly what the sender had not. -/
theorem jupiter_links_in_step {α : Type} [Element α] (policy : Policy) (mode : FillMode)
    (schedule : List (Action α)) (site : SiteId) (client : Jupiter.Client α) :
    let star := Jupiter.reach policy mode schedule
    .leave site ∉ schedule → star.clients.get? site = some client →
      ∃ proxy, star.server.proxies.get? site = some proxy ∧
        client.sent = proxy.received + (star.upLink site).length ∧
        proxy.sent = client.received + (star.downLink site).length ∧
        Jupiter.InStep client.sent client.outgoing (star.upLink site) ∧
        Jupiter.InStep proxy.sent proxy.outgoing (star.downLink site) ∧
        (∀ op rest, star.downLink site = op :: rest → ∃ o client',
          star.deliverDown? site = some o ∧ o.state.clients.get? site = some client' ∧
          client'.sent = client.sent ∧
          Jupiter.Pruned client.sent client.outgoing client'.outgoing op) ∧
        ∀ op rest, star.upLink site = op :: rest → ∃ o proxy',
          star.deliverUp? site = some o ∧ o.state.server.proxies.get? site = some proxy' ∧
          proxy'.sent = proxy.sent ∧
          Jupiter.Pruned proxy.sent proxy.outgoing proxy'.outgoing op := by
  intro star stays found
  obtain ⟨-, sound, signed, gap, tracks⟩ :=
    (Jupiter.simulation policy).tracked_run mode stays found
  change star.server.copy.Sound policy at sound
  change Jupiter.Tracks policy star.server site
    ⟨client, star.upLink site, star.downLink site⟩ gap at tracks
  obtain ⟨-, policy_eq, ⟨proxy, registered, ours, others⟩, -, -⟩ := tracks
  obtain ⟨sentUp, upwards⟩ := ours.in_step others.forms_stamps
  obtain ⟨sentDown, downwards⟩ := others.in_step ours.forms_stamps
  refine ⟨proxy, registered, sentUp, sentDown, upwards, downwards, fun op rest link => ?_,
    fun op rest link => ?_⟩
  · rw [link] at ours
    obtain ⟨form, theirs, -, took⟩ := ours.took
    obtain ⟨op', mine, past⟩ := transformPast_total policy .client form gap.mine
    obtain ⟨kept, passed, -⟩ := took past
    obtain ⟨outgoing, sent⟩ := Jupiter.Client.integrate_outgoing (policy_eq ▸ passed)
    obtain ⟨o, delivered, -, there⟩ := Star.deliverDown?_of_link link found
    refine ⟨o, _, delivered, there, sent, ?_⟩
    change Jupiter.Pruned client.sent client.outgoing (client.integrate op).state.outgoing op
    rw [outgoing]
    exact ours.pruned passed
  · rw [link] at others
    obtain ⟨form, mine, -, took⟩ := others.took
    obtain ⟨op', theirs, past⟩ := transformPast_total policy .server form gap.theirs
    obtain ⟨kept, passed, -⟩ := took past
    have own : op.creator? = some site := signed op (link ▸ List.mem_cons_self)
    obtain ⟨stamp, stamped, rfl⟩ := Option.map_eq_some_iff.mp own
    obtain ⟨proxy', registered', outgoing, sent⟩ := Jupiter.Server.integrate_outgoing stamped
      registered (sound.policy_eq ▸ passed)
    obtain ⟨o, delivered, -, next⟩ := Star.deliverUp?_of_link link
    refine ⟨o, proxy', delivered, ?_, sent, ?_⟩
    · rw [next]
      exact registered'
    · rw [outgoing]
      exact others.pruned passed

/-- The second site joins when there is one operation already, so that its counters and those of
its proxy start apart. It writes twice before the first site's next letter reaches it. -/
def joiningLate (a b : SiteId) : List (Action Char) :=
  [.join a .operationBased, .edit a ⟨.insert 0 'w', none⟩, .up a, .join b .stateBased,
    .edit b ⟨.insert 1 'x', none⟩, .edit b ⟨.insert 2 'y', none⟩, .edit a ⟨.insert 0 'z', none⟩,
    .up a]

theorem jupiter_links_in_step_late :
    let star := Jupiter.reach .firstWriterWins .stateBased (joiningLate (.ofNat 1) (.ofNat 2))
    ∃ client proxy, star.clients.get? (.ofNat 2) = some client ∧
      star.server.proxies.get? (.ofNat 2) = some proxy ∧
      (star.upLink (.ofNat 2)).length = 2 ∧ client.sent = proxy.received + 2 ∧
      (star.downLink (.ofNat 2)).length = 1 ∧ proxy.sent = client.received + 1 ∧
      ∃ op o client', star.downLink (.ofNat 2) = [op] ∧
        star.deliverDown? (.ofNat 2) = some o ∧ o.state.clients.get? (.ofNat 2) = some client' ∧
        Jupiter.Pruned client.sent client.outgoing client'.outgoing op := by
  intro star
  have joined : (star.clients.get? (.ofNat 2)).isSome := by decide +kernel
  obtain ⟨client, found⟩ := Option.isSome_iff_exists.mp joined
  have up : (star.upLink (.ofNat 2)).length = 2 := by decide +kernel
  have down : (star.downLink (.ofNat 2)).length = 1 := by decide +kernel
  obtain ⟨op, link⟩ := List.length_eq_one_iff.mp down
  obtain ⟨proxy, registered, sentUp, sentDown, -, -, pruned, -⟩ :=
    jupiter_links_in_step _ _ _ _ _ (by simp [joiningLate]) found
  obtain ⟨o, client', delivered, there, -, kept⟩ := pruned op [] link
  exact ⟨client, proxy, found, registered, up, up ▸ sentUp, down, down ▸ sentDown, op, o, client',
    link, delivered, there, kept⟩

end CoEdit
