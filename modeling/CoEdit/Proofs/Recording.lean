import CoEdit.Proofs.Delivery
import CoEdit.Proofs.Departure
import CoEdit.Proofs.Journal

/-!
# Journals and histories

The journal of a star is kept from its reports. That it is not made up is seen from the histories of
the replicas: the log is what the server has recorded, and what a site has recorded is what the
journal says it has applied, behind what its fill brought with it (`Star.Recorded`).
-/

namespace CoEdit

open ClientAlgorithm ServerAlgorithm

variable {α : Type}

/-- What is reported has been recorded, unless a site hears of itself. -/
structure Simulation.Records {S C : Type → Type} [ServerAlgorithm S] [ClientAlgorithm C]
    [Element α] {policy : Policy} (sim : Simulation S C α policy) : Prop where
  server : ServerAlgorithm.Records S α
  client : ClientAlgorithm.Records C α
  generate : ∀ {site client op op'}, sim.Owned site client →
    (ClientAlgorithm.generate client op).result = .ok op' → op'.creator? = some site ∧
      (copy (ClientAlgorithm.generate client op).state).history = (copy client).history ++ [op']
  hear : ∀ {server site client up op down gap op'},
    sim.Tracks server site ⟨client, up, op :: down⟩ gap →
    (ClientAlgorithm.integrate client op).result = .ok op' →
      ∃ creator, op'.creator? = some creator ∧
        (copy (ClientAlgorithm.integrate client op).state).history =
          (copy client).history ++ if creator = site then [] else [op']
  serve : ∀ {server op op'}, sim.Sound server →
    (ServerAlgorithm.integrate server op).result = .ok op' → op'.creator? = op.creator?

/-- A fill brings the history of the server with it, or none. -/
theorem LocalCopy.load_capture [Element α] {copy loaded : LocalCopy α} {policy : Policy}
    {mode : FillMode} {state : StateVector}
    (load : (LocalCopy.empty policy).load (copy.capture mode state) = .ok loaded) :
    loaded.history = [] ∨ loaded.history = copy.history := by
  cases mode with
  | stateBased =>
    cases load
    exact .inl rfl
  | operationBased =>
    simp only [capture, LocalCopy.load] at load
    cases replayed : Document.empty.applyAll copy.history with
    | error e =>
      rw [replayed] at load
      cases load
    | ok document =>
      rw [replayed] at load
      cases load
      exact .inr rfl

namespace Journal

/-- The site of each edit is the one that its operation names. -/
def Signs (entries : List (EditId × Operation α)) : Prop :=
  ∀ entry ∈ entries, entry.2.creator? = some entry.1.site

theorem Signs.snoc {entries : List (EditId × Operation α)} {id : EditId} {op : Operation α}
    (h : Signs entries) (signed : op.creator? = some id.site) : Signs (entries ++ [(id, op)]) := by
  intro entry among
  rcases List.mem_append.mp among with earlier | last
  · exact h entry earlier
  · rw [List.mem_singleton.mp last]
    exact signed

/-- What a site has recorded is what it has applied, behind what its fill brought with it: that part
of the history of the server which was there at the time, or nothing. -/
def Tells (journal : Journal α) (site : SiteId) (served history : History α) : Prop :=
  Signs (journal.applied site) ∧
    ∃ brought, (brought = [] ∨ brought = served.take (journal.filled site).length) ∧
      history = brought ++ (journal.applied site).map Prod.snd

variable {journal journal' : Journal α} {site : SiteId} {served history : History α}
  {op : Operation α} {id : EditId}

theorem Tells.snoc (h : journal.Tells site served history)
    (filled : journal'.filled site = journal.filled site)
    (applied : journal'.applied site = journal.applied site ++ [(id, op)])
    (signed : op.creator? = some id.site) : journal'.Tells site served (history ++ [op]) := by
  obtain ⟨signs, brought, fill, rfl⟩ := h
  refine ⟨applied ▸ signs.snoc signed, brought, filled ▸ fill, ?_⟩
  rw [applied, List.map_append, List.append_assoc]
  rfl

/-- What the server takes in later is not part of the fill. -/
theorem Tells.serve (h : journal.Tells site served history)
    (le : (journal.filled site).length ≤ served.length) (op : Operation α) :
    journal.Tells site (served ++ [op]) history := by
  obtain ⟨signs, brought, fill, same⟩ := h
  refine ⟨signs, brought, fill.imp_right fun eq => ?_, same⟩
  rw [eq, List.take_append_of_le_length le]

end Journal

namespace Star

variable {S C : Type → Type} [ServerAlgorithm S] [ClientAlgorithm C]

/-- The journal says what the replicas have recorded. -/
structure Recorded (star : Star S C α) (journal : Journal α) : Prop where
  log : (copy star.server).history = journal.log.map Prod.snd
  signed : Journal.Signs journal.log
  filled : ∀ t, journal.filled t <+: journal.ids
  applied : ∀ t seat, star.seat? t = some seat →
    journal.Tells t (copy star.server).history (copy seat.client).history

namespace Recorded

variable {star star' : Star S C α} {journal journal' : Journal α} {site : SiteId}

theorem filled_le (h : star.Recorded journal) (t : SiteId) :
    (journal.filled t).length ≤ (copy star.server).history.length := by
  rw [h.log, List.length_map, ← List.length_map (f := Prod.fst)]
  exact (h.filled t).length_le

/-- One site records something, and the others stay as they are. -/
theorem reseat {seat : Seat C α} (h : star.Recorded journal) (moved : star.Reseated site seat star')
    (log : journal'.log = journal.log) (filled : journal'.filled site <+: journal.ids)
    (others : ∀ t, t ≠ site →
      journal'.filled t = journal.filled t ∧ journal'.applied t = journal.applied t)
    (here : journal'.Tells site (copy star.server).history (copy seat.client).history) :
    star'.Recorded journal' := by
  have ids : journal'.ids = journal.ids := congrArg (List.map Prod.fst) log
  constructor
  · rw [moved.server, log]
    exact h.log
  · rw [log]
    exact h.signed
  · intro t
    rw [ids]
    by_cases same : t = site
    · rw [same]
      exact filled
    · rw [(others t same).1]
      exact h.filled t
  · intro t seat' seated
    rw [moved.seats] at seated
    rw [moved.server]
    split at seated
    · rename_i same
      cases seated
      rw [same]
      exact here
    · rename_i other
      have before := h.applied t seat' seated
      obtain ⟨filled, applied⟩ := others t other
      rw [Journal.Tells, ← filled, ← applied] at before
      exact before

variable [Element α] {policy : Policy} {sim : Simulation S C α policy} {gaps : SiteId → Gap α}

theorem edit (h : star.Recorded journal) (records : sim.Records) (watches : sim.Watches star gaps)
    (site : SiteId) (op : Operation α) :
    (star.edit site op).state.Recorded
      (((star.edit site op).result.map (Report.made site)).toOption.toList.foldl .note
        journal) := by
  cases seated : star.seat? site with
  | none =>
    rw [Star.edit_of_vacant seated]
    exact h
  | some seat =>
    obtain ⟨result, moved⟩ := Star.edit_spec seated op
    obtain ⟨server, up, -, tracks, -⟩ := watches.shadow site seat seated
    have before := h.applied site seat seated
    rcases sim.generate op tracks with ⟨e, failed⟩ | ⟨op', made, -, -⟩
    · rw [result, failed]
      refine h.reseat moved rfl (h.filled site) (fun _ _ => ⟨rfl, rfl⟩) ?_
      rw [failed]
      exact before
    · rw [result, made]
      refine h.reseat moved rfl (h.filled site)
        (fun t other => ⟨rfl, Function.update_of_ne other ..⟩) ?_
      obtain ⟨signed, history⟩ := records.generate (watches.follows.owned site seat seated) made
      rw [history]
      exact before.snoc rfl (Function.update_self ..) signed

theorem down (h : star.Recorded journal) (records : sim.Records) (watches : sim.Watches star gaps)
    {o : Outcome (Star S C α) α (Operation α)} (delivered : star.deliverDown? site = some o) :
    o.state.Recorded ((o.result.map (Report.heard site)).toOption.toList.foldl .note journal) := by
  obtain ⟨seat, op, rest, seated, link, result, moved⟩ := Star.deliverDown?_spec delivered
  obtain ⟨server, up, sound, tracks, -⟩ := watches.shadow site seat seated
  rw [link] at tracks
  obtain ⟨op', -, heard, -⟩ := sim.hear sound tracks
  obtain ⟨creator, signed, history⟩ := records.hear tracks heard
  have before := h.applied site seat seated
  rw [result, heard]
  change o.state.Recorded (journal.note (.heard site op'))
  by_cases own : creator = site
  · have echo : journal.note (.heard site op') = journal := by
      simp only [Journal.note, signed, if_pos own]
    rw [echo]
    refine h.reseat moved rfl (h.filled site) (fun _ _ => ⟨rfl, rfl⟩) ?_
    rw [history, if_pos own, List.append_nil]
    exact before
  · rw [Journal.Orderly.note_heard signed own]
    refine h.reseat moved rfl (h.filled site)
      (fun t other => ⟨rfl, Function.update_of_ne other ..⟩) ?_
    rw [history, if_neg own]
    exact before.snoc rfl (Function.update_self ..) signed

theorem up (h : star.Recorded journal) (records : sim.Records) (follows : sim.Follows star gaps)
    {o : Outcome (Star S C α) α (Operation α)} (delivered : star.deliverUp? site = some o) :
    o.state.Recorded ((o.result.map (Report.served site)).toOption.toList.foldl .note journal) := by
  obtain ⟨op, _, link, served, next⟩ := Star.deliverUp?_spec delivered
  obtain ⟨-, -, -, -, history, -⟩ := follows.up delivered
  have applied : ∀ t seat', o.state.seat? t = some seat' →
      journal.Tells t (copy star.server).history (copy seat'.client).history := by
    intro t seat' seated'
    rw [next.seats] at seated'
    obtain ⟨seat, seated, rfl⟩ := Option.map_eq_some_iff.mp seated'
    exact h.applied t seat seated
  cases result : o.result with
  | error e =>
    rw [result] at history
    have still : (copy o.state.server).history = (copy star.server).history :=
      history.trans (List.append_nil _)
    refine ⟨still.trans h.log, h.signed, h.filled, ?_⟩
    rw [still]
    exact applied
  | ok op' =>
    rw [result] at history
    have more : (copy o.state.server).history = (copy star.server).history ++ [op'] := history
    have signed : op'.creator? = some site :=
      (records.serve follows.sound (served ▸ result)).trans
        (follows.signed site op (by rw [link]; exact List.mem_cons_self))
    refine ⟨?_, h.signed.snoc signed, fun t => ?_, fun t seat' seated' => ?_⟩
    · change _ = List.map Prod.snd (journal.log ++ [(_, op')])
      rw [more, h.log, List.map_append]
      rfl
    · change _ <+: List.map Prod.fst (journal.log ++ _)
      rw [List.map_append]
      exact (h.filled t).trans (List.prefix_append ..)
    · rw [more]
      exact (applied t seat' seated').serve (h.filled_le t) op'

theorem join (h : star.Recorded journal) (records : sim.Records) (follows : sim.Follows star gaps)
    (mode : FillMode) (vacant : star.seat? site = none) :
    (({ star with fillMode := mode } : Star S C α).join site).state.Recorded
      (journal.note (.joined site)) := by
  have stranger := follows.stranger vacant
  obtain ⟨data, server', client, _, added, filled, -⟩ := sim.join mode follows.sound stranger
  obtain ⟨star', joined, moved⟩ := Star.join_spec added (follows.policy_eq ▸ filled)
  obtain ⟨captured, copy_eq⟩ := records.server.addSite_eq added
  have loaded := records.client.of_fill filled
  rw [records.client.copy_start, captured] at loaded
  have same : (copy server').history = (copy star.server).history := by
    rw [copy_eq]
  have registered : ({ star with server := server' } : Star S C α).Recorded journal :=
    ⟨same.trans h.log, h.signed, h.filled,
      fun t seat seated => same.symm ▸ h.applied t seat seated⟩
  have whole : (copy server').history.take journal.ids.length = (copy server').history := by
    rw [same, h.log, List.take_of_length_le]
    simp only [Journal.ids, List.length_map, Nat.le_refl]
  have filling : (journal.note (.joined site)).filled site = journal.ids :=
    Function.update_self ..
  have nothing : (journal.note (.joined site)).applied site = [] := Function.update_self ..
  rw [joined]
  refine registered.reseat moved rfl (filling ▸ List.prefix_rfl) (fun t other =>
    ⟨Function.update_of_ne other .., Function.update_of_ne other ..⟩)
    ⟨fun _ among => ?_, (copy client).history, ?_, ?_⟩
  · rw [nothing] at among
    cases among
  · rw [filling, whole, same]
    exact LocalCopy.load_capture loaded
  · rw [nothing]
    exact (List.append_nil _).symm

/-- Every action that can happen is written down as it is recorded. -/
theorem act? (h : star.Recorded journal) (records : sim.Records) (watches : sim.Watches star gaps)
    {action : Action α} {o : Outcome (Star S C α) α (Report α)}
    (acted : star.act? action = some o) :
    o.state.Recorded (o.result.toOption.toList.foldl .note journal) := by
  cases action with
  | join site mode =>
    obtain ⟨vacant, rfl⟩ := Star.act?_join acted
    obtain ⟨data, _, joined, -⟩ := watches.follows.join mode vacant
    simp only [Outcome.reply, joined]
    exact h.join records watches.follows mode vacant
  | leave site =>
    cases acted
    simp only [Outcome.reply]
    cases removed : ServerAlgorithm.removeSite star.server site with
    | error e =>
      rw [Star.removeSite_of_error removed]
      exact h
    | ok server' =>
      rw [Star.removeSite_of_ok removed]
      have same : (copy server').history = (copy star.server).history := by
        rw [records.server.copy_removeSite removed]
      exact ⟨same.trans h.log, h.signed, h.filled,
        fun t seat seated => same.symm ▸ h.applied t seat seated⟩
  | edit site op =>
    cases acted
    exact h.edit records watches site op
  | up site =>
    obtain ⟨o, delivered, rfl⟩ := Option.map_eq_some_iff.mp acted
    exact h.up records watches.follows delivered
  | down site =>
    obtain ⟨o, delivered, rfl⟩ := Option.map_eq_some_iff.mp acted
    exact h.down records watches delivered

end Recorded

end Star

variable [Element α]

namespace Wave

variable {client : Client α} {site : SiteId} {op op' : Operation α}

omit [Element α] in
theorem Client.acknowledge_eq_ok (done : (client.acknowledge op).result = .ok op') : op' = op := by
  simp only [Client.acknowledge] at done
  split at done
  · cases done
  · cases done
    rfl
  · split at done <;> cases done
    rfl

theorem Client.receive_eq_ok (done : (client.receive op).result = .ok op') :
    op'.creator? = op.creator? ∧
      (client.receive op).state.copy.history = client.copy.history ++ [op'] := by
  obtain ⟨form, underWay, past⟩ := transformPast_total client.copy.policy .client op
    (client.inFlight.toList ++ client.buffer)
  rw [receive_eq past] at done ⊢
  split at done
  · cases done
  · rename_i applied
    cases done
    exact ⟨(Becomes.of_transformPast past).1.creator_eq, (LocalCopy.apply_eq_ok applied).2.1⟩

theorem records (policy : Policy) : (simulation (α := α) policy).Records where
  server := Server.records
  client := Client.records
  generate {_ client op op'} own made := by
    rcases generate_cases client op with ⟨e, failed⟩ | ⟨applied, apply, done⟩
    · rw [failed] at made
      cases made
    · rw [done] at made ⊢
      have signed : (op.stamped client.site client.state).creator? = some _ :=
        congrArg some own.site_eq
      revert made
      split <;> intro made <;> cases made <;>
        exact ⟨signed, (LocalCopy.apply_eq_ok apply).2.1⟩
  hear {_ site client _ op _ _ op'} tracks heard := by
    have own : client.site = site := tracks.owned.site_eq
    change (client.integrate op).result = .ok op' at heard
    change ∃ creator, _ ∧ (client.integrate op).state.copy.history = _
    simp only [Client.integrate, own] at heard ⊢
    split at heard
    · cases heard
    · rename_i stamp stamped
      have signed : op.creator? = some stamp.creator := by
        rw [Operation.creator?, stamped]
        rfl
      refine ⟨stamp.creator, ?_⟩
      split at heard
      · rename_i echo
        rw [Client.acknowledge_eq_ok heard, if_pos echo, if_pos echo, Client.copy_acknowledge,
          List.append_nil]
        exact ⟨signed, rfl⟩
      · rename_i other
        split at heard
        · cases heard
        · rename_i flowing
          obtain ⟨creator, history⟩ := Client.receive_eq_ok heard
          rw [if_neg other, if_neg other, if_neg flowing]
          exact ⟨creator.trans signed, history⟩
  serve sound served := (serve_becomes sound served).creator_eq

end Wave

namespace Jupiter

theorem records (policy : Policy) : (simulation (α := α) policy).Records where
  server := Server.records
  client := Client.records
  generate {_ client op op'} own made := by
    rcases generate_cases client op with ⟨e, failed⟩ | ⟨applied, apply, done⟩
    · rw [failed] at made
      cases made
    · rw [done] at made ⊢
      cases made
      exact ⟨congrArg some own, (LocalCopy.apply_eq_ok apply).2.1⟩
  hear {_ site client _ op _ _ op'} tracks heard := by
    have foreign : op.creator? ≠ some site := tracks.foreign op List.mem_cons_self
    change (client.integrate op).result = .ok op' at heard
    change ∃ creator, _ ∧ (client.integrate op).state.copy.history = _
    simp only [Client.integrate] at heard ⊢
    split at heard
    · cases heard
    · rename_i form outgoing passed
      split at heard
      · cases heard
      · rename_i applied apply
        cases heard
        cases stamped : op.stamp with
        | none => simp [passQueue, Operation.getStamp, stamped, bind, Except.bind] at passed
        | some stamp =>
          have signed : op'.creator? = some stamp.creator := by
            rw [Operation.creator?, passQueue_stamp passed, stamped]
            rfl
          have other : stamp.creator ≠ site := by
            rintro rfl
            exact foreign (by rw [Operation.creator?, stamped]; rfl)
          refine ⟨stamp.creator, signed, ?_⟩
          rw [if_neg other]
          exact (LocalCopy.apply_eq_ok apply).2.1
  serve sound served := (serve_becomes sound.policy_eq served).1.creator_eq

end Jupiter

end CoEdit
