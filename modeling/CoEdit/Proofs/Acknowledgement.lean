import CoEdit.Proofs.Membership
import CoEdit.Proofs.WaveConvergence

/-!
# Acknowledgement of wave operations

A wave client takes whatever comes back under its own name for the echo of its operation in flight
and never compares the two. It need not: the two were rewritten at the two ends of the link, and
they are equal, stamp and all (`wave_echo_matches`).
-/

namespace CoEdit

open ClientAlgorithm

variable {α : Type} [Element α]

namespace Wave

/-- What is on the link to the server was sent at a revision behind which there is no operation of
the site. -/
theorem Phase.up_foreign {policy : Policy} {site : SiteId} {history : List (Operation α)}
    {seen : Nat} {inFlight : Option (Operation α)} {buffer up : List (Operation α)} {gap : Gap α}
    {op : Operation α} (h : Phase policy site history seen inFlight buffer (op :: up) gap) :
    ∃ revision ≤ seen, SentAt op site revision ∧ Foreign site (history.drop revision) := by
  cases h with
  | sent stamp le foreign past replay => exact ⟨_, le, stamp, foreign⟩

variable {policy : Policy} {server : Server α} {site : SiteId} {client : Client α} {gap : Gap α}
  {up down rest : List (Operation α)} {op : Operation α}

/-- What comes back is the operation in flight, and the next one in the history. -/
theorem Tracks.echo (tracks : Tracks policy server site ⟨client, up, op :: rest⟩ gap)
    (own : op.creator? = some site) :
    client.inFlight = some op ∧ server.copy.history[client.seen]? = some op := by
  have next : server.copy.history.drop client.seen = op :: rest := tracks.down.symm
  obtain ⟨-, -, -, flying, -⟩ := tracks.phase.echoed next own
  refine ⟨flying, ?_⟩
  rw [← List.head?_drop, next]
  rfl

/-- The server takes an operation past operations of others only. -/
theorem Tracks.unseen_foreign (tracks : Tracks policy server site ⟨client, op :: rest, down⟩ gap) :
    ∃ stamp unseen, op.stamp = some stamp ∧ stamp.creator = site ∧
      server.copy.history.since (stamp.state.get 0) = .ok unseen ∧
      ∀ entry ∈ unseen, entry.creator? ≠ some site := by
  obtain ⟨revision, le, ⟨stamp, stamped, creator, rfl⟩, foreign⟩ := tracks.phase.up_foreign
  exact ⟨stamp, _, stamped, creator, if_pos (Nat.le_trans le tracks.seen_le), foreign⟩

end Wave

/-- In every wave star, what a client that has not left takes in under its own name is accepted, is
equal to what it has in flight after all its rewriting, and is what the server made of it; and the
server takes an operation past entries of other sites only. -/
theorem wave_echo_matches (policy : Policy) (mode : FillMode) (schedule : List (Action α))
    (site : SiteId) (client : Wave.Client α) :
    let star := Wave.reach policy mode schedule
    .leave site ∉ schedule → star.clients.get? site = some client →
      (∀ echo rest, star.downLink site = echo :: rest → echo.creator? = some site →
        client.inFlight = some echo ∧
        star.server.copy.history[client.seen]? = some echo ∧
        ∃ o, star.deliverDown? site = some o ∧ o.result = .ok echo) ∧
      ∀ op rest, star.upLink site = op :: rest →
        ∃ stamp unseen, op.stamp = some stamp ∧ stamp.creator = site ∧
          star.server.copy.history.since (stamp.state.get 0) = .ok unseen ∧
          ∀ entry ∈ unseen, entry.creator? ≠ some site := by
  intro star stays found
  obtain ⟨-, -, -, gap, tracks⟩ := (Wave.simulation policy).tracked_run mode stays found
  change Wave.Tracks policy star.server site ⟨client, star.upLink site, star.downLink site⟩ gap
    at tracks
  refine ⟨fun echo rest link own => ?_, fun op rest link => ?_⟩
  · obtain ⟨o, delivered, result, -⟩ := Star.deliverDown?_of_link link found
    rw [link] at tracks
    obtain ⟨flying, recorded⟩ := tracks.echo own
    obtain ⟨_, heard, -⟩ := Wave.tracks_hear_own tracks own
    exact ⟨flying, recorded, o, delivered, result.trans heard⟩
  · rw [link] at tracks
    exact tracks.unseen_foreign

/-- The first site's letter is in flight when that of the second site overtakes it: the copy at the
client and the one at the server are both moved on. The second site writes again at once, and its
next letter meets none of its own at the server. -/
def overtaking (a b : SiteId) : List (Action Char) :=
  [.join a .operationBased, .join b .stateBased, .edit a ⟨.insert 0 'x', none⟩,
    .edit b ⟨.insert 0 'y', none⟩, .up b, .down b, .edit b ⟨.insert 1 'z', none⟩, .up a, .down a]

/-- The echo and the late letter of `overtaking`, each at the end of its link. -/
theorem wave_echo_matches_overtaken :
    let star := Wave.reach .lastWriterWins .stateBased (overtaking (.ofNat 1) (.ofNat 2))
    (∃ client, star.clients.get? (.ofNat 1) = some client ∧
      client.inFlight = some ⟨.insert 1 'x', some ⟨.ofNat 1, ⟨[0]⟩⟩⟩) ∧
      ∃ (stamp : Stamp) (unseen : History Char), stamp.creator = .ofNat 2 ∧
        star.server.copy.history.since (stamp.state.get 0) = .ok unseen ∧
        ∀ entry ∈ unseen, entry.creator? ≠ some (.ofNat 2) := by
  intro star
  have joined : ∀ site ∈ [SiteId.ofNat 1, .ofNat 2], (star.clients.get? site).isSome := by
    decide +kernel
  obtain ⟨first, atFirst⟩ := Option.isSome_iff_exists.mp (joined (.ofNat 1) (by simp))
  obtain ⟨second, atSecond⟩ := Option.isSome_iff_exists.mp (joined (.ofNat 2) (by simp))
  have down : star.downLink (.ofNat 1) = [⟨.insert 1 'x', some ⟨.ofNat 1, ⟨[0]⟩⟩⟩] := by
    decide +kernel
  have up : star.upLink (.ofNat 2) = [⟨.insert 1 'z', some ⟨.ofNat 2, ⟨[1]⟩⟩⟩] := by
    decide +kernel
  obtain ⟨echoed, -⟩ := wave_echo_matches _ _ _ _ _ (by simp [overtaking]) atFirst
  obtain ⟨-, foreign⟩ := wave_echo_matches _ _ _ _ _ (by simp [overtaking]) atSecond
  obtain ⟨stamp, unseen, -, creator, since, others⟩ := foreign _ _ up
  exact ⟨⟨first, atFirst, (echoed _ _ down rfl).1⟩, stamp, unseen, creator, since, others⟩

end CoEdit
