import CoEdit.Proofs.Passage

/-!
# The gap between a site and the server

A site and the server have some operations in common. Beyond these each of them has operations of
its own that the other one has not seen yet. The gap holds both lists, as they apply to the common
document, and is narrowed from either side: the oldest operation of one side is taken past all of
the other. Whatever an algorithm keeps in its queues, this is what it has to work out.
-/

namespace CoEdit

variable {α : Type}

/-- What a site and the server have in common, and what each of them has beyond it. -/
structure Gap (α : Type) where
  /-- the elements of the common document -/
  shared : List α
  /-- operations of the site that the server has not taken in -/
  mine : List (Operation α)
  /-- operations of the server that the site has not taken in -/
  theirs : List (Operation α)

namespace Gap

variable [Element α] {gap gap' : Gap α} {policy : Policy} {op op' : Operation α}

/-- The site takes in the oldest operation of the server, in the form `op`. -/
def Heard (policy : Policy) (gap : Gap α) (op : Operation α) (gap' : Gap α) : Prop :=
  ∃ b, gap.theirs = b :: gap'.theirs ∧ b.effect? gap.shared = some gap'.shared ∧
    transformPast policy .client b gap.mine = .ok (op, gap'.mine)

/-- The server takes in the oldest operation of the site, in the form `op`. -/
def Served (policy : Policy) (gap : Gap α) (op : Operation α) (gap' : Gap α) : Prop :=
  ∃ a, gap.mine = a :: gap'.mine ∧ a.effect? gap.shared = some gap'.shared ∧
    transformPast policy .server a gap.theirs = .ok (op, gap'.theirs)

/-- From the common document the site got to the one, and the server to the other. -/
def Spans (gap : Gap α) (here there : List α) : Prop :=
  Operation.effects? gap.mine gap.shared = some here ∧
    Operation.effects? gap.theirs gap.shared = some there

variable {here here' there there' : List α}

theorem Spans.eq (h : gap.Spans here there) (mine : gap.mine = []) (theirs : gap.theirs = []) :
    here = there := by
  obtain ⟨site, server⟩ := h
  rw [mine] at site
  rw [theirs] at server
  exact Option.some.inj (site.symm.trans server)

theorem Spans.made (h : gap.Spans here there) (effect : op.effect? here = some here') :
    Spans { gap with mine := gap.mine ++ [op] } here' there := by
  refine ⟨?_, h.2⟩
  rw [Operation.effects?_append, h.1, Option.bind_some, Operation.effects?_singleton]
  exact effect

/-- What was made last leads from what the site showed to what it shows. -/
theorem Spans.made_last (h : gap.Spans here there)
    (h' : Spans { gap with mine := gap.mine ++ [op] } here' there') :
    op.effect? here = some here' := by
  have all := h'.1
  rwa [Operation.effects?_append, h.1, Option.bind_some, Operation.effects?_singleton] at all

theorem Spans.relayed_last (h : gap.Spans here there)
    (h' : Spans { gap with theirs := gap.theirs ++ [op] } here' there') :
    op.effect? there = some there' := by
  have all := h'.2
  rwa [Operation.effects?_append, h.2, Option.bind_some, Operation.effects?_singleton] at all

theorem Spans.relayed (h : gap.Spans here there) (effect : op.effect? there = some there') :
    Spans { gap with theirs := gap.theirs ++ [op] } here there' := by
  refine ⟨h.1, ?_⟩
  rw [Operation.effects?_append, h.2, Option.bind_some, Operation.effects?_singleton]
  exact effect

theorem Spans.heard {b b' : Operation α} {theirs mine' : List (Operation α)}
    (h : gap.Spans here there) (oldest : gap.theirs = b :: theirs)
    (past : transformPast policy .client b gap.mine = .ok (b', mine')) :
    ∃ shared here', b.effect? gap.shared = some shared ∧ b'.effect? here = some here' ∧
      Spans ⟨shared, mine', theirs⟩ here' there := by
  obtain ⟨site, server⟩ := h
  rw [oldest] at server
  obtain ⟨shared, first, others⟩ := Option.bind_eq_some_iff.mp server
  obtain ⟨here', applied, mine⟩ := transformPast_diamond past first site
  exact ⟨shared, here', first, applied, mine, others⟩

theorem Spans.served {a a' : Operation α} {mine theirs' : List (Operation α)}
    (h : gap.Spans here there) (oldest : gap.mine = a :: mine)
    (past : transformPast policy .server a gap.theirs = .ok (a', theirs')) :
    ∃ shared there', a.effect? gap.shared = some shared ∧ a'.effect? there = some there' ∧
      Spans ⟨shared, mine, theirs'⟩ here there' := by
  obtain ⟨site, server⟩ := h
  rw [oldest] at site
  obtain ⟨shared, first, others⟩ := Option.bind_eq_some_iff.mp site
  obtain ⟨there', applied, theirs⟩ := transformPast_diamond past first server
  exact ⟨shared, there', first, applied, others, theirs⟩

end Gap

end CoEdit
