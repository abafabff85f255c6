import CoEdit.Proofs.JupiterConvergence
import CoEdit.Proofs.Trail
import CoEdit.Proofs.WaveConvergence

/-!
# Every edit arrives once, and in order

With wave what waits in the buffer is rewritten by each operation that the client hears of, and
stamped anew when it is sent; with jupiter nothing waits. A wave client has an operation in flight
as long as there is one on its link, or an echo of it on the way back (`Wave.Phase.one_in_flight`).
-/

namespace CoEdit

open ClientAlgorithm ServerAlgorithm

variable {α : Type}

namespace Wave

variable {policy : Policy} {site : SiteId} {client : Client α}

/-- An acknowledgement sends the next operation of the buffer. -/
theorem acknowledge_waiting (op : Operation α) (own : Owned site client) :
    List.Forall₂ (Becomes policy) client.buffer
      ((client.acknowledge op).sent.map Prod.snd ++ (client.acknowledge op).state.buffer) := by
  have same : ∀ ops : List (Operation α), List.Forall₂ (Becomes policy) ops ops :=
    fun ops => List.forall₂_same.mpr fun op _ => .same op
  simp only [Client.acknowledge]
  split
  · exact same _
  · rename_i flying waiting
    rw [waiting]
    exact .nil
  · rename_i next rest flying waiting
    have mine : next.creator? = some site := own.buffer next (waiting ▸ List.mem_cons_self)
    rw [Operation.retag_eq_ok mine, waiting]
    exact .cons (.stamped (.same next) rfl mine.symm) (same rest)

variable [Element α]

/-- An operation of another site rewrites the buffer. -/
theorem receive_waiting (op : Operation α) (policy_eq : client.copy.policy = policy) :
    List.Forall₂ (Becomes policy) client.buffer
      ((client.receive op).sent.map Prod.snd ++ (client.receive op).state.buffer) := by
  obtain ⟨op', underWay, past⟩ := transformPast_total client.copy.policy .client op
    (client.inFlight.toList ++ client.buffer)
  have kept : List.Forall₂ (Becomes policy) client.buffer (client.past underWay).buffer := by
    simp only [Client.past]
    cases flying : client.inFlight with
    | none => exact List.forall₂_same.mpr fun op _ => .same op
    | some f =>
      rw [flying, policy_eq] at past
      cases (Becomes.of_transformPast past).2 with
      | cons _ rest => exact rest
  rw [receive_eq past]
  split <;> exact kept

theorem integrate_waiting (op : Operation α) (own : Owned site client)
    (policy_eq : client.copy.policy = policy) :
    List.Forall₂ (Becomes policy) client.buffer
      ((client.integrate op).sent.map Prod.snd ++ (client.integrate op).state.buffer) := by
  simp only [Client.integrate]
  split
  · exact List.forall₂_same.mpr fun op _ => .same op
  · split
    · have own' : Owned site { client with seen := client.seen + 1 } := ⟨own.site_eq, own.buffer⟩
      exact acknowledge_waiting op own'
    · split
      · exact List.forall₂_same.mpr fun op _ => .same op
      · exact receive_waiting op policy_eq

theorem opened_waiting {data : Fill α}
    (filled : fill (ClientAlgorithm.start policy site) data = .ok client) : client.buffer = [] := by
  simp only [fill, bind, Except.bind] at filled
  split at filled
  · cases filled
  · split at filled
    · cases filled
    · change Except.map _ _ = _ at filled
      generalize StateVector.copyFrom _ _ = copied at filled
      cases copied <;> cases filled
      rfl

omit [Element α] in
theorem rebase_becomes {server : Server α} {op form : Operation α} {revision : Nat}
    (h : server.rebase op revision = .ok form) : Becomes server.copy.policy op form := by
  simp only [Server.rebase, bind, Except.bind] at h
  split at h
  · cases h
  · rename_i unseen _
    obtain ⟨r, q, past⟩ := transformPast_total server.copy.policy .server op unseen
    rw [past] at h
    cases h
    exact (Becomes.of_transformPast past).1

theorem serve_becomes {server : Server α} {op op' : Operation α} (sound : Sound policy server)
    (served : (server.integrate op).result = .ok op') : Becomes policy op op' := by
  simp only [Server.integrate] at served
  split at served
  · cases served
  · split at served
    · cases served
    · split at served
      · cases served
      · rename_i form rebased
        split at served <;> cases served
        exact sound.copy.policy_eq ▸ rebase_becomes rebased

/-- What waits at a wave client is rewritten and stamped anew. -/
theorem carries (policy : Policy) :
    (simulation (α := α) policy).Carries (Becomes policy) where
  refl := .same
  trans := .trans
  creator := Becomes.creator_eq
  opened := opened_waiting
  generate client op := by
    refine (generate_cases client op).imp_right fun ⟨applied, _, done⟩ => ?_
    rw [done]
    split
    · rename_i chance
      obtain ⟨-, empty⟩ := Bool.and_eq_true_iff.mp chance
      have nothing : waiting client = [] := List.isEmpty_iff.mp empty
      rw [nothing]
      exact ⟨_, rfl, congrArg _ nothing⟩
    · exact ⟨_, rfl, rfl⟩
  hear tracks := integrate_waiting _ tracks.owned tracks.policy_eq
  serve := serve_becomes

/-- A client has an operation in flight as long as there is one on its link, or an echo of it on the
way back. -/
theorem Phase.one_in_flight {history : List (Operation α)} {seen : Nat}
    {inFlight : Option (Operation α)} {buffer up : List (Operation α)} {gap : Gap α}
    (h : Phase policy site history seen inFlight buffer up gap) :
    (up ++ createdBy site (history.drop seen)).length =
      inFlight.toList.length := by
  cases h with
  | idle foreign replay =>
    rw [createdBy_eq_nil foreign]
    rfl
  | @sent _ _ _ _ _ revision stamp le foreign past replay =>
    have later : Foreign site (history.drop seen) :=
      fun op among => foreign op (List.drop_subset_drop_left _ le among)
    rw [createdBy_eq_nil later]
    rfl
  | echoing split own foreign past replay effect =>
    obtain ⟨others, rest⟩ := foreign_append.mp foreign
    rw [split, createdBy_append, createdBy_eq_nil others, createdBy_cons_own own,
      createdBy_eq_nil rest]
    rfl

end Wave

namespace Jupiter

variable {policy : Policy} [Element α]

omit [Element α] in
theorem passQueue_becomes {role : Role} {queue q : List (Operation α)} {op form : Operation α}
    (h : passQueue policy role queue op = .ok (form, q)) : Becomes policy op form := by
  simp only [passQueue, bind, Except.bind] at h
  split at h
  · cases h
  · exact (Becomes.of_transformPast h).1

theorem serve_becomes {server : Server α} {op op' : Operation α}
    (policy_eq : server.copy.policy = policy) (served : (server.integrate op).result = .ok op') :
    Becomes policy op op' ∧ op'.stamp = op.stamp := by
  simp only [Server.integrate] at served
  split at served
  · cases served
  · split at served
    · cases served
    · split at served
      · cases served
      · rename_i proxy _ _ form proxy' passed
        split at served <;> cases served
        simp only [Proxy.integrate] at passed
        cases queue : passQueue server.copy.policy .server proxy.outgoing op with
        | error e =>
          rw [queue] at passed
          cases passed
        | ok pair =>
          rw [queue] at passed
          cases passed
          exact ⟨policy_eq ▸ passQueue_becomes queue, passQueue_stamp queue⟩

/-- Nothing waits at a jupiter client, and what is under way keeps its stamp. -/
theorem carries (policy : Policy) :
    (simulation (α := α) policy).Carries fun op op' => Becomes policy op op' ∧ op'.stamp = op.stamp
    where
  refl op := ⟨.same op, rfl⟩
  trans first second := ⟨first.1.trans second.1, second.2.trans first.2⟩
  creator rel := rel.1.creator_eq
  opened _ := rfl
  generate client op := by
    refine (generate_cases client op).imp_right fun ⟨applied, _, done⟩ => ?_
    rw [done]
    exact ⟨_, rfl, rfl⟩
  hear {_ _ client _ op _ _} _ := by
    have silent : (ClientAlgorithm.integrate client op).sent = [] := by
      change (client.integrate op).sent = []
      simp only [Client.integrate]
      split
      · rfl
      · split <;> rfl
    rw [silent]
    exact .nil
  serve sound served := serve_becomes sound.policy_eq served

end Jupiter

/-- At every site that has not left, in every wave or jupiter star, each edit is delivered once and
in order; in jupiter it keeps its stamp. A wave client has an operation in flight if and only if
there is one on its link or an echo on the way back, and then it is one only. -/
theorem edits_arrive_once [Element α] (policy : Policy) (mode : FillMode)
    (schedule : List (Action α)) (site : SiteId) (stays : .leave site ∉ schedule) :
    (Star.start policy mode : Star Wave.Server Wave.Client α).DeliversOnce (Becomes policy)
      schedule site ∧
    (∀ client, (Wave.reach policy mode schedule).clients.get? site = some client →
      ((Wave.reach policy mode schedule).upLink site ++
        createdBy site ((Wave.reach policy mode schedule).downLink site)).length =
          client.inFlight.toList.length) ∧
    (Star.start policy mode : Star Jupiter.Server Jupiter.Client α).DeliversOnce
      (fun op op' => Becomes policy op op' ∧ op'.stamp = op.stamp) schedule site := by
  refine ⟨(Wave.carries policy).delivers mode rfl stays, fun client found => ?_,
    (Jupiter.carries policy).delivers mode rfl stays⟩
  obtain ⟨-, -, -, gap, tracks⟩ := (Wave.simulation policy).tracked_run mode stays found
  have link : (Wave.reach policy mode schedule).downLink site =
      (Wave.reach policy mode schedule).server.copy.history.drop client.seen := tracks.down
  rw [link]
  exact tracks.phase.one_in_flight

/-- The second edit of the first site waits while the other site deletes the letter that it is
about, is sent when there is nothing left of it, and the last one waits behind it. -/
def collapsed (a b : SiteId) : List (Action Char) :=
  [.join a .operationBased, .join b .stateBased, .edit a ⟨.insert 0 'x', none⟩, .up a, .down a,
    .down b, .edit b ⟨.delete 0, none⟩, .up b, .edit a ⟨.insert 1 'y', none⟩,
    .edit a ⟨.delete 0, none⟩, .down a, .up a, .down a, .edit a ⟨.insert 1 'z', none⟩]

theorem edits_arrive_once_collapsed :
    let a : SiteId := .ofNat 1
    let schedule := collapsed a (.ofNat 2)
    let wave : Star Wave.Server Wave.Client Char := .start .firstWriterWins .stateBased
    let jupiter : Star Jupiter.Server Jupiter.Client Char := .start .firstWriterWins .stateBased
    wave.DeliversOnce (Becomes .firstWriterWins) schedule a ∧
      ((wave.run schedule).upLink a).map (·.edit) = [.noop] ∧
      ((wave.run schedule).clients.get? a).map (·.buffer.map (·.edit)) = some [.insert 1 'z'] ∧
      jupiter.DeliversOnce (fun op op' => Becomes .firstWriterWins op op' ∧ op'.stamp = op.stamp)
        schedule a ∧
      (Report.madeBy a (jupiter.reports schedule)).length = 4 := by
  intro a schedule wave jupiter
  have stays : .leave a ∉ schedule := by decide +kernel
  obtain ⟨onceW, -, onceJ⟩ := edits_arrive_once .firstWriterWins .stateBased schedule a stays
  refine ⟨onceW, ?_, ?_, onceJ, ?_⟩
  all_goals decide +kernel

end CoEdit
