import CoEdit.Proofs.Drain

/-!
# Stars settle

A star is settled in rounds. A round empties the links to the server, site by site, and then the
links from it. What a client sends as it hears its echo waits for the next round, so only the first
round can deliver to the sites alone; each later one takes something up or is the last. The rounds
are therefore no more than the operations that have still to go up, and two.
-/

namespace CoEdit

open ClientAlgorithm ServerAlgorithm

variable {α : Type} [Element α] {S C : Type → Type} [ServerAlgorithm S] [ClientAlgorithm C]

namespace Star

variable {star next final : Star S C α} {m n : Nat}

theorem Delivers.trans (first : star.Delivers m next) (later : next.Delivers n final) :
    star.Delivers (m + n) final := by
  induction first with
  | none => rwa [Nat.zero_add]
  | up now _ ih =>
    rw [Nat.add_right_comm]
    exact .up now (ih later)
  | down now _ ih =>
    rw [Nat.add_right_comm]
    exact .down now (ih later)

theorem Delivers.eq_of_zero (delivers : star.Delivers 0 final) : final = star := by
  cases delivers
  rfl

theorem Stuck.eq_zero (stuck : star.Stuck) (delivers : star.Delivers n final) : n = 0 := by
  cases delivers with
  | none => rfl
  | @up _ _ site _ _ now =>
    rw [(stuck site).1] at now
    cases now
  | @down _ _ site _ _ now =>
    rw [(stuck site).2] at now
    cases now

theorem stuck_of_empty (up : ∀ site, star.upLink site = [])
    (down : ∀ site, star.downLink site = []) : star.Stuck := by
  intro site
  simp only [deliverUp?, deliverDown?, up site, down site, and_self]

end Star

namespace Simulation

variable {policy : Policy} (sim : Simulation S C α policy)

/-- Some deliveries in a star with its members, `ups` of them to the server. All are counted, and
none fails. -/
structure Settles (s s' : Star S C α × Star.Tally) (ups downs : Nat) : Prop where
  delivers : s.1.Delivers (ups + downs) s'.1
  tally : s'.2 = ⟨s.2.delivered + (ups + downs), s.2.errors⟩
  upward : s'.1.upwardLoad + ups = s.1.upwardLoad
  seats : ∀ t, (s'.1.seat? t).isSome ↔ (s.1.seat? t).isSome
  manned : sim.Manned s'.1

/-- A direction of delivery, given by one link of every site. A delivery takes one operation off the
link of its site, and puts none on any link of the same direction. -/
structure Way (step : SiteId → Star S C α → Option (Outcome (Star S C α) α (Operation α)))
    (link : Star S C α → SiteId → List (Operation α)) (up down : Nat) : Prop where
  takes : ∀ {s : Star S C α × Star.Tally} {site op rest}, sim.Manned s.1 →
    link s.1 site = op :: rest →
      ∃ o, step site s.1 = some o ∧ sim.Settles s (o.state, s.2.count o.result) up down ∧
        ∀ t, link o.state t = if t = site then rest else link s.1 t

variable {sim} {s s' s'' : Star S C α × Star.Tally} {ups downs ups' downs' : Nat}

theorem Settles.refl (manned : sim.Manned s.1) : sim.Settles s s 0 0 :=
  ⟨.none _, rfl, rfl, fun _ => Iff.rfl, manned⟩

theorem Settles.trans (first : sim.Settles s s' ups downs)
    (later : sim.Settles s' s'' ups' downs') :
    sim.Settles s s'' (ups + ups') (downs + downs') := by
  have sum : ups + ups' + (downs + downs') = ups + downs + (ups' + downs') := by omega
  refine ⟨sum ▸ first.delivers.trans later.delivers, ?_, ?_, ?_, later.manned⟩
  · rw [later.tally, first.tally, sum, Nat.add_assoc]
  · rw [← first.upward, ← later.upward]
    omega
  · intro t
    exact (later.seats t).trans (first.seats t)

namespace Way

variable {step : SiteId → Star S C α → Option (Outcome (Star S C α) α (Operation α))}
  {link : Star S C α → SiteId → List (Operation α)} {up down : Nat}

/-- As many deliveries as there are operations on a link empty it. -/
theorem deliver (way : sim.Way step link up down) (site : SiteId) (manned : sim.Manned s.1) :
    let n := (link s.1 site).length
    sim.Settles s (Star.deliver (step site) n s) (up * n) (down * n) ∧
      ∀ t, link (Star.deliver (step site) n s).1 t = if t = site then [] else link s.1 t := by
  induction waiting : link s.1 site generalizing s with
  | nil =>
    refine ⟨.refl manned, fun t => ?_⟩
    split
    · rename_i here
      rw [here]
      exact waiting
    · rfl
  | cons op rest ih =>
    obtain ⟨o, taken, first, links⟩ := way.takes manned waiting
    have left : link o.state site = rest := (links site).trans (if_pos rfl)
    obtain ⟨later, empty⟩ := ih first.manned left
    have on : Star.deliver (step site) (op :: rest).length s =
        Star.deliver (step site) rest.length (o.state, s.2.count o.result) := by
      obtain ⟨star, tally⟩ := s
      simp only [List.length_cons, Star.deliver, taken]
    simp only [on]
    refine ⟨?_, fun t => ?_⟩
    · have both := first.trans later
      rwa [Nat.add_comm up, Nat.add_comm down, ← Nat.mul_succ, ← Nat.mul_succ] at both
    · rw [empty t]
      split
      · rfl
      · rw [links t, if_neg ‹_›]

/-- One site after the other, all links of one direction are emptied. -/
theorem sweep (way : sim.Way step link up down) (manned : sim.Manned s.1)
    (sites : List SiteId) :
    let swept := sites.foldl (fun s site => Star.deliver (step site) (link s.1 site).length s) s
    ∃ n, sim.Settles s swept (up * n) (down * n) ∧
      ∀ t, link swept.1 t = if t ∈ sites then [] else link s.1 t := by
  induction sites generalizing s with
  | nil => exact ⟨0, .refl manned, fun t => (if_neg List.not_mem_nil).symm⟩
  | cons site rest ih =>
    obtain ⟨first, empty⟩ := way.deliver site manned
    obtain ⟨n, later, emptied⟩ := ih first.manned
    refine ⟨(link s.1 site).length + n, ?_, fun t => ?_⟩
    · rw [Nat.mul_add, Nat.mul_add]
      exact first.trans later
    · refine (emptied t).trans ?_
      rw [empty t]
      by_cases among : t ∈ rest
      · rw [if_pos among, if_pos (List.mem_cons_of_mem _ among)]
      · simp only [if_neg among, List.mem_cons, or_iff_left among]

end Way

namespace Spreads

variable {echoes : Nat} {Rel : Operation α → Operation α → Prop} {star : Star S C α}

theorem up_way (h : sim.Spreads echoes) :
    sim.Way (fun site star => star.deliverUp? site) Star.upLink 1 0 := by
  constructor
  intro s site op rest manned link
  obtain ⟨o, delivered, -⟩ := Star.deliverUp?_of_link link
  obtain ⟨op', rest', link', ups, -⟩ := Star.deliverUp?_links delivered
  obtain ⟨rfl, rfl⟩ := List.cons.inj (link.symm.trans link')
  obtain ⟨_, _, -, -, served⟩ := Star.deliverUp?_spec delivered
  obtain ⟨member, manned', -⟩ := h.up_manned manned delivered
  obtain ⟨gaps, follows⟩ := manned.follows
  obtain ⟨op', accepted⟩ := (follows.deliveries_ok member).1 o delivered
  refine ⟨o, delivered, ⟨.up delivered (.none _), ?_, Star.upwardLoad_up delivered,
    served.isSome_iff, manned'⟩, ups⟩
  rw [accepted]
  rfl

theorem down_way (h : sim.Spreads echoes) (carries : sim.Carries Rel) :
    sim.Way (fun site star => star.deliverDown? site) Star.downLink 0 1 := by
  constructor
  intro s site op rest manned link
  have busy : s.1.downLink site ≠ [] := by
    rw [link]
    exact List.cons_ne_nil _ _
  obtain ⟨seat, seated⟩ := Option.isSome_iff_exists.mp (manned.staffed.down site busy)
  obtain ⟨o, delivered, -⟩ :=
    Star.deliverDown?_of_link link (Star.seat?_eq_some_iff.mp seated).1
  obtain ⟨-, op', rest', link', downs, -⟩ := Star.deliverDown?_links delivered
  obtain ⟨rfl, rfl⟩ := List.cons.inj (link.symm.trans link')
  obtain ⟨_, _, _, seated', -, -, reseated⟩ := Star.deliverDown?_spec delivered
  obtain ⟨member, manned', -⟩ := h.down_manned manned delivered
  obtain ⟨gaps, follows⟩ := manned.follows
  obtain ⟨op', accepted⟩ := (follows.deliveries_ok member).2 o delivered
  refine ⟨o, delivered, ⟨.down delivered (.none _), ?_, upwardLoad_down carries manned delivered,
    reseated.isSome_iff seated', manned'⟩, downs⟩
  rw [accepted]
  rfl

/-- After a round nothing is on its way to a site, and if it took nothing up there was nothing. -/
theorem round_settles (h : sim.Spreads echoes) (carries : sim.Carries Rel)
    (manned : sim.Manned s.1) :
    ∃ ups downs, sim.Settles s (Star.round s) ups downs ∧
      (∀ t, (Star.round s).1.downLink t = []) ∧ (ups = 0 → ∀ t, s.1.upLink t = []) := by
  obtain ⟨ups, rise, up⟩ := h.up_way.sweep manned s.1.clients.keys
  obtain ⟨downs, fall, down⟩ := (h.down_way carries).sweep rise.manned s.1.clients.keys
  -- only at sites with a client is anything on a link
  have there : ∀ t, (s.1.seat? t).isSome → t ∈ s.1.clients.keys := by
    intro t seated
    rw [Star.seat?, Option.isSome_map] at seated
    exact (SortedMap.contains_eq_true_iff ..).mp seated
  refine ⟨ups, downs, ?_, fun t => ?_, fun nothing t => ?_⟩
  · have whole := rise.trans fall
    simp only [Nat.one_mul, Nat.zero_mul, Nat.zero_add, Nat.add_zero] at whole
    exact whole
  · refine (down t).trans ?_
    split
    · rfl
    · rename_i absent
      by_contra busy
      exact absent (there t ((rise.seats t).mp (rise.manned.staffed.down t busy)))
  · subst nothing
    by_contra busy
    have same := up t
    rw [Star.Delivers.eq_of_zero rise.delivers, if_pos (there t (manned.staffed.up t busy))] at same
    exact busy same

/-- Rounds go on until the star is stuck. The first may find something on its way to the sites. -/
theorem rounds_settle (h : sim.Spreads echoes) (carries : sim.Carries Rel) {n : Nat}
    (manned : sim.Manned s.1)
    (fuel : s.1.upwardLoad + 1 < n ∨ s.1.upwardLoad < n ∧ ∀ t, s.1.downLink t = []) :
    ∃ ups downs, sim.Settles s (Star.rounds n s) ups downs ∧ (Star.rounds n s).1.Stuck := by
  induction n generalizing s with
  | zero => omega
  | succ n ih =>
    obtain ⟨ups, downs, settles, quiet, nothing_up⟩ := h.round_settles carries manned
    simp only [Star.rounds]
    have counted := congrArg Star.Tally.delivered settles.tally
    dsimp only at counted
    split
    · rename_i idle
      obtain ⟨rfl, rfl⟩ : ups = 0 ∧ downs = 0 := by omega
      refine ⟨0, 0, settles, ?_⟩
      have same := Star.Delivers.eq_of_zero settles.delivers
      exact Star.stuck_of_empty (same ▸ nothing_up rfl) quiet
    · rename_i busy
      have upward := settles.upward
      have enough : (Star.round s).1.upwardLoad < n := by
        rcases fuel with plenty | ⟨enough, quiet'⟩
        · omega
        · -- with nothing on its way to the sites, the round took something up
          have rises : ups ≠ 0 := by
            intro none_up
            have stuck := Star.stuck_of_empty (nothing_up none_up) quiet'
            have idle := stuck.eq_zero settles.delivers
            omega
          omega
      obtain ⟨ups', downs', later, stuck⟩ := ih settles.manned (.inr ⟨enough, quiet⟩)
      exact ⟨_, _, settles.trans later, stuck⟩

/-- Settling makes all deliveries that are left. -/
theorem settle_drains (h : sim.Spreads echoes) (carries : sim.Carries Rel)
    (manned : sim.Manned star) :
    star.settle.2 = ⟨star.load ((sites star.server).length + echoes), []⟩ ∧
      sim.Manned star.settle.1 ∧ star.settle.1.Stuck ∧
      star.settle.1.up.values.flatten = [] ∧ star.settle.1.down.values.flatten = [] := by
  have fuel : star.upwardLoad + 1 < star.upwardLoad + 2 := Nat.lt_succ_self _
  obtain ⟨ups, downs, settles, stuck⟩ :=
    h.rounds_settle carries (s := (star, ⟨0, []⟩)) manned (.inl fuel)
  obtain ⟨all, up, down⟩ := (h.drains carries manned).exact settles.delivers stuck
  refine ⟨?_, settles.manned, stuck, up, down⟩
  rw [← all, ← Nat.zero_add (ups + downs)]
  exact settles.tally

end Spreads

end Simulation

/-- As long as nobody leaves, settling makes every delivery that is left, none of them fails, and
nothing is left on the links. No wave client has anything under way then. -/
theorem settle_leaves_nothing (policy : Policy) (mode : FillMode) (schedule : List (Action α))
    (stays : ∀ site, .leave site ∉ schedule) :
    (let star := Wave.reach policy mode schedule
      let (settled, tally) := star.settle
      tally = ⟨star.load (star.server.sites.length + 1), []⟩ ∧
        settled.up.values.flatten = [] ∧ settled.down.values.flatten = [] ∧
        ∀ site client, settled.clients.get? site = some client →
          client.inFlight = none ∧ client.buffer = []) ∧
    (let star := Jupiter.reach policy mode schedule
      let (settled, tally) := star.settle
      tally = ⟨star.load star.server.proxies.keys.length, []⟩ ∧
        settled.up.values.flatten = [] ∧ settled.down.values.flatten = []) := by
  constructor
  · obtain ⟨tally, manned, stuck, up, down⟩ := (Wave.spreads policy).settle_drains
      (Wave.carries policy) ((Wave.spreads policy).manned_run mode stays)
    exact ⟨tally, up, down, fun site client found => Wave.at_rest manned stuck found⟩
  · obtain ⟨tally, -, -, up, down⟩ := (Jupiter.spreads policy).settle_drains
      (Jupiter.carries policy) ((Jupiter.spreads policy).manned_run mode stays)
    exact ⟨tally, up, down⟩

end CoEdit
