import CoEdit.Proofs.Conservation
import CoEdit.Proofs.Precedence

/-!
# What is known where

What a site knows the server knows too, or the site did it itself; and an element that is still on
its way is unknown where it goes. These are consequences of the accounts of one gap. Along a
schedule knowledge only grows (`Chronicle.prefix_note`, `server_le_note`, `client_le_note`).
-/

namespace CoEdit

variable {α : Type}

section Known

variable {deeds deeds' : SiteId → List (Deed α)} {count count' server client : SiteId → Nat}
  {site : SiteId} {d : Deed α} {x y : α}

/-- Those who know more know what others know. -/
theorem known_mono (longer : ∀ s, deeds s <+: deeds' s) (more : ∀ s, count s ≤ count' s)
    (h : d ∈ known deeds count) : d ∈ known deeds' count' := by
  obtain ⟨s, among⟩ := h
  have first : (deeds s).take (count s) <+: (deeds' s).take (count' s) :=
    List.prefix_take_iff.mpr ⟨(List.take_prefix ..).trans (longer s),
      (List.length_take_le ..).trans (more s)⟩
  exact ⟨s, first.subset among⟩

theorem known_le (more : ∀ s, count s ≤ count' s) (h : d ∈ known deeds count) :
    d ∈ known deeds count' :=
  known_mono (fun _ => List.prefix_rfl) more h

theorem le_oneMore (count : SiteId → Nat) (site : SiteId) : count ≤ oneMore count site :=
  le_update_self_iff.mpr (Nat.le_succ _)

theorem News.known_of_mem {news : List (SiteId × Deed α)} (all : News deeds server client news)
    (new : d ∈ news.map Prod.snd) : d ∈ known deeds server := by
  rw [← all.known_server]
  exact .inr new

namespace Accounts

variable [Element α] {gap : Gap α} {news : List (SiteId × Deed α)} {a b : Operation α}
  {rest : List (Operation α)}

/-- A site knows nothing but what the server knows and what it has done since. -/
theorem known_server_or_pending (h : Accounts deeds server client site gap)
    (known_here : d ∈ known deeds client) :
    d ∈ known deeds server ∨ d ∈ (deeds site).drop (server site) := by
  rw [← known_client h.own h.behind h.bounded] at known_here
  exact known_here.imp_left (known_le fun s => Nat.min_le_left ..)

theorem known_of_pending (h : Accounts deeds server client site gap)
    (pending : d ∈ (deeds site).drop (server site)) : d ∈ known deeds client := by
  rw [← known_client h.own h.behind h.bounded]
  exact .inr pending

/-- The server does not know of an element that is still on its way to it. -/
theorem pending_unknown (h : Accounts deeds server client site gap) (apart : Apart deeds)
    (pending : .added x ∈ (deeds site).drop (server site)) : .added x ∉ known deeds server := by
  rintro ⟨s, among⟩
  obtain rfl := apart _ _ x (List.mem_of_mem_take among) (List.mem_of_mem_drop pending)
  refine h.mine.added_new pending ⟨s, ?_⟩
  rwa [both, h.own, Nat.min_eq_left h.bounded]

/-- A site does not know of an element that is still on its way to it. -/
theorem news_unknown (h : Accounts deeds server client site gap) (apart : Apart deeds)
    (all : News deeds server client news)
    (tells : Tells (known deeds (both server client)) gap.shared gap.theirs (news.map Prod.snd))
    (new : .added x ∈ news.map Prod.snd) : .added x ∉ known deeds client := by
  rintro ⟨s, among⟩
  obtain ⟨t, here⟩ := mem_ofSite_iff.mp new
  obtain rfl := apart _ _ x (List.mem_of_mem_take among) (all.mem_deeds here)
  have foreign : s ≠ site := by
    rintro rfl
    rw [all.own h.own] at here
    cases here
  refine tells.added_new new ⟨s, ?_⟩
  rwa [both, Nat.min_eq_right (h.behind s foreign)]

end Accounts

end Known

namespace Chronicle

variable {c : Chronicle α} {elements : SiteId → List α} {report : Report α} {x y : α}

/-- At most one deed is added, by the site that makes an operation. -/
theorem deeds_note (c : Chronicle α) (elements : SiteId → List α) (report : Report α) (s : SiteId) :
    (c.note elements report).deeds s = c.deeds s ∨ ∃ op, report = .made s op ∧
      (c.note elements report).deeds s = c.deeds s ++ [op.edit.deed (elements s)] := by
  cases report with
  | joined t => exact .inl rfl
  | left t => exact .inl rfl
  | served t op => exact .inl rfl
  | heard t op =>
    rw [(c.note_heard elements t op).1]
    exact .inl rfl
  | made t op =>
    simp only [note]
    by_cases here : s = t
    · subst s
      rw [Function.update_self]
      exact .inr ⟨op, rfl, rfl⟩
    · rw [Function.update_of_ne here]
      exact .inl rfl

theorem prefix_note (c : Chronicle α) (elements : SiteId → List α) (report : Report α)
    (s : SiteId) : c.deeds s <+: (c.note elements report).deeds s := by
  rcases c.deeds_note elements report s with same | ⟨op, -, longer⟩
  · exact same.symm ▸ List.prefix_rfl
  · rw [longer]
    exact List.prefix_append ..

theorem server_le_note (c : Chronicle α) (elements : SiteId → List α) (report : Report α)
    (s : SiteId) : c.server s ≤ (c.note elements report).server s := by
  cases report with
  | joined t => exact Nat.le_refl _
  | left t => exact Nat.le_refl _
  | made t op => exact Nat.le_refl _
  | heard t op => rw [(c.note_heard elements t op).2.1]
  | served t op => exact le_oneMore c.server t s

/-- A site does not forget, unless it starts anew. -/
theorem client_le_note (c : Chronicle α) (elements : SiteId → List α) {report : Report α}
    {s : SiteId} (old : report ≠ .joined s) :
    c.client s ≤ (c.note elements report).client s := by
  have more : ∀ t u, c.client s ≤ Function.update c.client t (oneMore (c.client t) u) s :=
    fun t u => (le_update_self_iff.mpr (le_oneMore (c.client t) u) : c.client ≤ _) s
  cases report with
  | left u => exact le_refl _
  | served u op => exact le_refl _
  | joined u =>
    simp only [note]
    rw [Function.update_of_ne fun same => old (congrArg Report.joined same.symm)]
  | made u op => exact more u u
  | heard u op =>
    simp only [note]
    split
    · exact le_refl _
    · split
      · exact le_refl _
      · exact more u _

/-- What is still on its way to the server was so before, or is inserted just now. -/
theorem pending_of_note (bounded : ∀ s, c.server s ≤ (c.deeds s).length) {s : SiteId}
    (pending : .added x ∈ ((c.note elements report).deeds s).drop
      ((c.note elements report).server s)) :
    .added x ∈ (c.deeds s).drop (c.server s) ∨ report.inserted? = some x := by
  have pending := List.drop_subset_drop_left _ (c.server_le_note elements report s) pending
  rcases c.deeds_note elements report s with same | ⟨op, rfl, longer⟩
  · rw [same] at pending
    exact .inl pending
  · rw [longer, List.drop_append_of_le_length (bounded s), List.mem_append,
      List.mem_singleton] at pending
    refine pending.imp_right fun new => ?_
    obtain ⟨edit, stamp⟩ := op
    obtain ⟨p, rfl⟩ := Edit.deed_eq_added new.symm
    rfl

/-- There is a replica that knows both elements. -/
def Together (c : Chronicle α) (members : List SiteId) (x y : α) : Prop :=
  (∃ s ∈ members, .added x ∈ known c.deeds (c.client s) ∧ .added y ∈ known c.deeds (c.client s)) ∨
    .added x ∈ known c.deeds c.server ∧ .added y ∈ known c.deeds c.server

theorem Together.symm {members : List SiteId} (h : c.Together members x y) :
    c.Together members y x := by
  rcases h with ⟨s, member, hx, hy⟩ | ⟨hx, hy⟩
  · exact .inl ⟨s, member, hy, hx⟩
  · exact .inr ⟨hy, hx⟩

theorem Together.noted {members : List SiteId} (h : c.Together members x y) :
    ∃ s, .added x ∈ c.deeds s := by
  rcases h with ⟨s, -, ⟨t, hx⟩, -⟩ | ⟨⟨t, hx⟩, -⟩
  · exact ⟨t, List.mem_of_mem_take hx⟩
  · exact ⟨t, List.mem_of_mem_take hx⟩

end Chronicle

end CoEdit
