import CoEdit.Jupiter
import CoEdit.Proofs.CursorMoves

/-!
# Scans

A cursor is led to the head of a document and then forward, element by element, until there is none,
and between any two steps the client is called with edits and messages. Whatever comes in and goes
out around the cursor, the elements that it has come by are those up to where it stands
(`Roster.Covers`): so what was there all the time is returned once, in the order of the document
(`scan_stable`).
-/

namespace CoEdit

open ClientAlgorithm

variable {α : Type}

namespace Roster

variable {r r' : Roster} {i i' old name : Nat} {seen : List Nat}

/-- What a cursor at index `i` has seen on its way from the head: no element twice, those that are
still there in their order, and of the elements up to the cursor all that were there at the start,
whose names are below `old`. -/
structure Covers (old : Nat) (r : Roster) (i : Nat) (seen : List Nat) : Prop where
  once : seen.Nodup
  given : ∀ name ∈ seen, name < r.next
  ordered : (seen.filter (· ∈ r.names)).Sublist (r.front i)
  complete : ∀ name ∈ r.front i, name < old → name ∈ seen
  grown : old ≤ r.next

theorem front_zero (at_head : r.names[0]? = some name) : r.front 0 = [name] := by
  rw [front, List.take_add_one, at_head]
  rfl

theorem front_succ (at_next : r.names[i + 1]? = some name) :
    r.front (i + 1) = r.front i ++ [name] := by
  rw [front, List.take_add_one, at_next]
  rfl

theorem covers_head (at_head : r.names[0]? = some name) : r.Covers r.next 0 [name] := by
  have front := front_zero at_head
  refine ⟨List.nodup_singleton name, ?_, front ▸ List.filter_sublist, ?_, Nat.le_refl _⟩
  · intro other among
    rw [List.mem_singleton.mp among]
    exact r.given name (List.mem_of_getElem? at_head)
  · intro other among _
    rwa [front] at among

theorem Covers.onward (h : r.Covers old i seen) (at_next : r.names[i + 1]? = some name) :
    r.Covers old (i + 1) (seen ++ [name]) := by
  have there : name ∈ r.names := List.mem_of_getElem? at_next
  -- it is behind the cursor, and what was seen and is there still is not
  have new : name ∉ r.front i := by
    have distinct : (r.front (i + 1)).Nodup := r.distinct.sublist (List.take_sublist ..)
    rw [front_succ at_next] at distinct
    exact fun among => (List.nodup_append.mp distinct).2.2 _ among _ List.mem_cons_self rfl
  refine ⟨?_, ?_, ?_, ?_, h.grown⟩
  · refine List.nodup_append.mpr ⟨h.once, List.nodup_singleton _, ?_⟩
    rintro other among _ here rfl
    rw [List.mem_singleton.mp here] at among
    exact new (h.ordered.subset (List.mem_filter.mpr ⟨among, decide_eq_true there⟩))
  · intro other among
    rcases List.mem_append.mp among with earlier | here
    · exact h.given other earlier
    · rw [List.mem_singleton.mp here]
      exact r.given name there
  · rw [List.filter_append, front_succ at_next]
    exact h.ordered.append List.filter_sublist
  · rw [front_succ at_next]
    intro other among below
    rcases List.mem_append.mp among with earlier | here
    · exact List.mem_append_left _ (h.complete other earlier below)
    · exact List.mem_append_right _ here

/-- Nothing gets past a resting cursor. -/
theorem Covers.rest (h : r.Covers old i seen) (holds : r.Holds i r' i') (later : r.next ≤ r'.next)
    (gone : ∀ name < r.next, name ∈ r'.names → name ∈ r.names) : r'.Covers old i' seen := by
  refine ⟨h.once, fun name among => Nat.lt_of_lt_of_le (h.given name among) later, ?_, ?_,
    Nat.le_trans h.grown later⟩
  · -- names do not come back, so what was seen and is there now was there before the rest
    have still : seen.filter (· ∈ r'.names) =
        (seen.filter (· ∈ r.names)).filter (· ∈ r'.names) := by
      rw [List.filter_filter]
      refine List.filter_congr fun name among => ?_
      rw [Bool.eq_iff_iff]
      simpa using gone name (h.given name among)
    rw [still]
    calc (seen.filter (· ∈ r.names)).filter (· ∈ r'.names)
      List.Sublist _ ((r.front i).filter (· ∈ r'.names)) := h.ordered.filter _
      List.Sublist _ ((r'.front i').filter (· ∈ r.names)) := by rw [holds.front]
      List.Sublist _ (r'.front i') := List.filter_sublist
  · intro name among below
    have there : name ∈ r.names :=
      gone name (Nat.lt_of_lt_of_le below h.grown) (List.mem_of_mem_take among)
    have front : name ∈ (r'.front i').filter (· ∈ r.names) :=
      List.mem_filter.mpr ⟨among, decide_eq_true there⟩
    rw [holds.front] at front
    exact h.complete name (List.mem_filter.mp front).1 below

end Roster

/-- An element that was returned, with the position of the cursor, the document and the names of its
elements at that time. -/
structure Sighting (α : Type) where
  value : α
  position : Int
  document : Document α
  roster : Roster

/-- What was returned is the element with a name. -/
def Sighting.Shows (s : Sighting α) (name : Nat) : Prop :=
  s.roster.at? s.position = some name ∧ s.document.get? s.position.toNat = some s.value

/-- Some names are those of elements that a scan has returned from a document: none twice, all that
were there from the start to the end, and in the order of the document. -/
structure Roster.Swept (start r : Roster) (seen : List Nat) : Prop where
  once : seen.Nodup
  complete : ∀ name ∈ start.names, name ∈ r.names → name ∈ seen
  ordered : (seen.filter (· ∈ r.names)).Sublist r.names

theorem Roster.Covers.swept {start r : Roster} {i : Nat} {seen : List Nat}
    (h : r.Covers start.next i seen) (at_end : r.names.length ≤ i + 1) : start.Swept r seen := by
  have all : r.front i = r.names := List.take_of_length_le at_end
  refine ⟨h.once, fun name early late => ?_, all ▸ h.ordered⟩
  exact h.complete name (all ▸ late) (start.given name early)

namespace ClientAlgorithm

variable {C : Type → Type} [ClientAlgorithm C] [Element α] {client rested next last : C α}
  {id : CursorId} {c : Cursor} {r r' : Roster} {i : Nat} {ops : List (Operation α)}

/-- While a cursor rests, its client is called with anything but a fill, a move of the cursor and
its removal, and records operations, none of which deletes what the cursor stands on by then. -/
structure Rests (id : CursorId) (client : C α) (ops : List (Operation α)) (rested : C α) :
    Prop where
  called : ∃ calls, rested = callAll client calls ∧ KeepsFill client calls ∧
    ∀ next ∈ calls, next.spares id
  recorded : ops = since (copy client).history rested
  addressable : (copy client).document.Addressable ops
  spared : ∀ c, (copy client).cursors.find? id = some c → c.spared ops

/-- A cursor that stands at an element is moved forward again and again, with rests in between,
until there is no element. -/
inductive Scan (id : CursorId) : Roster → C α → List (Sighting α) → Roster → C α → Prop where
  | ended {r : Roster} {client rested last : C α} {ops : List (Operation α)}
      (rests : Rests id client ops rested)
      (none_left : navigate rested id .forward = .done none last []) :
      Scan id r client [] (r.followAll ops) last
  | onward {r r' : Roster} {client rested next last : C α} {ops : List (Operation α)}
      {value : α} {c : Cursor} {sightings : List (Sighting α)} (rests : Rests id client ops rested)
      (found : navigate rested id .forward = .done (some value) next [])
      (registered : (copy next).cursors.find? id = some c)
      (rest : Scan id (r.followAll ops) next sightings r' last) :
      Scan id r client (⟨value, c.position, (copy next).document, r.followAll ops⟩ :: sightings)
        r' last

/-- A scan from the head of a document to its end. The elements that are there at first are named
by their positions. -/
inductive FullScan (id : CursorId) : C α → List (Sighting α) → Roster → C α → Prop where
  | head {client next last : C α} {value : α} {c : Cursor} {sightings : List (Sighting α)}
      {r : Roster} (found : navigate client id .toHead = .done (some value) next [])
      (registered : (copy next).cursors.find? id = some c)
      (rest : Scan id (.ofSize (copy client).document.size) next sightings r last) :
      FullScan id client
        (⟨value, c.position, (copy next).document, .ofSize (copy client).document.size⟩ ::
          sightings) r last

/-- A cursor stands at index `i` in the document of a client. -/
structure Stands (id : CursorId) (client : C α) (r : Roster) (i : Nat) : Prop where
  lists : r.Lists (copy client).document
  inside : i < r.names.length
  cursor : ∃ c, (copy client).cursors.find? id = some c ∧ c.position = i

/-- What a move of a cursor returns, and where the cursor is then. -/
theorem Records.navigate_eq_done (records : Records C α)
    (registered : (copy client).cursors.find? id = some c) (move : Move) :
    ∃ next, navigate client id move = .done ((copy client).reached move c.position) next [] ∧
      (copy next).document = (copy client).document ∧
      (copy next).cursors.find? id =
        some (c.moveTo (move.destination c.position (copy client).document.size)) := by
  obtain ⟨mid, moved, same, -, steered⟩ := LocalCopy.navigate_eq_ok registered move
  refine ⟨withCopy client mid, ?_, ?_, ?_⟩
  · simp only [navigate, moved]
    rfl
  · rw [records.copy_withCopy, same]
  · rw [records.copy_withCopy, steered]

/-- A rest that is short enough for a signed word. -/
theorem rests_of_calls {calls : List (ClientCall α)}
    (keeps : KeepsFill client calls) (spares : ∀ next ∈ calls, next.spares id)
    (room : (copy client).document.size +
      (since (copy client).history (callAll client calls)).length < Word.signBit)
    (spared : ∀ c ∈ (copy client).cursors.find? id,
      c.spared (since (copy client).history (callAll client calls))) :
    Rests id client (since (copy client).history (callAll client calls))
      (callAll client calls) where
  called := ⟨calls, rfl, keeps, spares⟩
  recorded := rfl
  addressable := Document.addressable_of_length room
  spared := spared

theorem rests_nothing (room : (copy client).document.size < Word.signBit) :
    Rests id client [] client where
  called := ⟨[], rfl, trivial, nofun⟩
  recorded := List.drop_length.symm
  addressable := Document.addressable_of_length room
  spared _ _ := rfl

omit [Element α] in
/-- A move sends nothing. -/
theorem navigate_eq_done {move : Move} {found : Option α}
    (ok : (navigate client id move).result = .ok found) :
    navigate client id move = .done found (navigate client id move).state [] := by
  rw [Outcome.done, ← ok]
  simp only [navigate]
  cases (copy client).navigate id move <;> rfl

omit [Element α] in
theorem exists_of_navigate {move : Move} {found : Option α}
    (done : navigate client id move = .done found next []) :
    ∃ c, (copy client).cursors.find? id = some c := by
  cases registered : (copy client).cursors.find? id with
  | some c => exact ⟨c, rfl⟩
  | none =>
    simp only [navigate, LocalCopy.navigate, Cursors.get, registered] at done
    cases done

/-- A move that returns an element leads to it. -/
theorem Records.arrives (records : Records C α) (lists : r.Lists (copy client).document)
    (registered : (copy client).cursors.find? id = some c) (move : Move)
    (elsewhere : move ≠ .toTail)
    (leads : move.destination c.position (copy client).document.size = i) {value : α}
    (found : navigate client id move = .done (some value) next []) :
    Stands id next r i ∧ ∃ name, r.names[i]? = some name ∧
      ∀ c', (copy next).cursors.find? id = some c' →
        Sighting.Shows ⟨value, c'.position, (copy next).document, r⟩ name := by
  obtain ⟨next', moved, same, steered⟩ := records.navigate_eq_done registered move
  simp only [moved, Outcome.done, Outcome.mk.injEq, Except.ok.injEq] at found
  obtain ⟨reached, rfl, -⟩ := found
  rw [LocalCopy.reached, if_neg elsewhere, leads] at reached
  have inside : i < r.names.length := by
    have there := (LocalCopy.elementAt_isSome (copy client) i).mp (by rw [reached]; rfl)
    rw [lists]
    omega
  rw [leads] at steered
  refine ⟨⟨same ▸ lists, inside, _, steered, rfl⟩, _, List.getElem?_eq_getElem inside, ?_⟩
  intro c' registered'
  cases steered.symm.trans registered'
  refine ⟨List.getElem?_eq_getElem inside, ?_⟩
  rw [same]
  exact reached

namespace Steady

variable (steady : Steady C α)
include steady

/-- A cursor at an element is at it when it has rested, and nothing got past it. -/
theorem stands_of_rests (stands : Stands id client r i) (rests : Rests id client ops rested) :
    ∃ i', Stands id rested (r.followAll ops) i' ∧ r.Holds i (r.followAll ops) i' := by
  obtain ⟨c, registered, at_i⟩ := stands.cursor
  obtain ⟨calls, rfl, keeps, spares⟩ := rests.called
  have runs := steady.runs_callAll registered keeps spares
  rw [← rests.recorded] at runs
  obtain ⟨allows, lists⟩ :=
    Document.allows_of_applyAll stands.lists rests.addressable runs.document
  have at_name := List.getElem?_eq_getElem stands.inside
  obtain ⟨i', at_i', holds, -⟩ :=
    Roster.followAll_holds allows at_i at_name (rests.spared c registered)
  refine ⟨i', ⟨lists, ?_, c.followAll ops, ?_, at_i'⟩, holds⟩
  · exact (List.getElem?_eq_some_iff.mp (holds.name.trans at_name)).1
  · rw [runs.cursor, registered, Option.map_some]

/-- A scan goes on to cover all elements. -/
theorem covers_of_scan {old : Nat} {seen : List Nat} {sightings : List (Sighting α)}
    (scan : Scan id r client sightings r' last) (stands : Stands id client r i)
    (covers : r.Covers old i seen) :
    r'.Lists (copy last).document ∧ ∃ names i', List.Forall₂ Sighting.Shows sightings names ∧
      r'.Covers old i' (seen ++ names) ∧ r'.names.length ≤ i' + 1 := by
  -- what the cursor has come by before a rest it has come by after it
  have rested_covers : ∀ {r : Roster} {i i' : Nat} {seen : List Nat} {ops : List (Operation α)},
      r.Covers old i seen → r.Holds i (r.followAll ops) i' →
        (r.followAll ops).Covers old i' seen := by
    intro r i i' seen ops covers holds
    exact covers.rest holds (r.next_le_followAll ops) fun _ => Roster.mem_of_mem_followAll
  induction scan generalizing i seen with
  | @ended r client rested last ops rests none_left =>
    obtain ⟨i', stands', holds⟩ := steady.stands_of_rests stands rests
    obtain ⟨c, registered, at_i'⟩ := stands'.cursor
    obtain ⟨next, moved, same, -⟩ := steady.navigate_eq_done registered .forward
    simp only [moved, Outcome.done, Outcome.mk.injEq, Except.ok.injEq] at none_left
    obtain ⟨reached, rfl, -⟩ := none_left
    refine ⟨same ▸ stands'.lists, [], i', .nil, ?_, ?_⟩
    · rw [List.append_nil]
      exact rested_covers covers holds
    · rw [LocalCopy.reached, if_neg (by decide), Move.destination, at_i'] at reached
      have outside := mt (LocalCopy.elementAt_isSome (copy rested) (i' + 1)).mpr
        (by rw [reached]; exact Bool.false_ne_true)
      rw [stands'.lists]
      omega
  | @onward r r' client rested next last ops value c' sightings rests found registered' rest ih =>
    obtain ⟨i', stands', holds⟩ := steady.stands_of_rests stands rests
    obtain ⟨c, registered, at_i'⟩ := stands'.cursor
    obtain ⟨arrived, name, at_next, shows⟩ := steady.arrives stands'.lists registered
      .forward (by decide) (i := i' + 1) (by rw [at_i']; rfl) found
    obtain ⟨lists, names, i'', all_shown, covers', at_end⟩ :=
      ih arrived ((rested_covers covers holds).onward at_next)
    refine ⟨lists, name :: names, i'', .cons (shows c' registered') all_shown, ?_, at_end⟩
    rwa [List.append_assoc] at covers'

/-- A full scan returns elements that it sweeps. -/
theorem swept_of_fullScan {sightings : List (Sighting α)}
    (scan : FullScan id client sightings r last) :
    r.Lists (copy last).document ∧ ∃ names, List.Forall₂ Sighting.Shows sightings names ∧
      (Roster.ofSize (copy client).document.size).Swept r names := by
  cases scan with
  | head found registered' rest =>
    obtain ⟨c, registered⟩ := exists_of_navigate found
    obtain ⟨arrived, name, at_head, shows⟩ := steady.arrives
      (Roster.lists_ofSize (copy client).document) registered .toHead (by decide) (i := 0) rfl found
    obtain ⟨lists, names, i, all_shown, covers, at_end⟩ :=
      steady.covers_of_scan rest arrived (Roster.covers_head at_head)
    exact ⟨lists, name :: names, .cons (shows _ registered') all_shown, covers.swept at_end⟩

end Steady

end ClientAlgorithm

/-- When a cursor is led to the head of a document and forward until there is no element, and no
operation in between deletes what it stands on: every element is returned at most once, every one
that is there from the start to the end is, and in the order of the document, whatever the client is
called with meanwhile. -/
theorem scan_stable [Element α] (id : CursorId) (sightings : List (Sighting α)) (r : Roster) :
    (∀ client last : Wave.Client α, FullScan id client sightings r last →
      r.Lists last.copy.document ∧ ∃ names, List.Forall₂ Sighting.Shows sightings names ∧
        (Roster.ofSize client.copy.document.size).Swept r names) ∧
    ∀ client last : Jupiter.Client α, FullScan id client sightings r last →
      r.Lists last.copy.document ∧ ∃ names, List.Forall₂ Sighting.Shows sightings names ∧
        (Roster.ofSize client.copy.document.size).Swept r names :=
  ⟨fun _ _ => Wave.Client.steady.swept_of_fullScan,
    fun _ _ => Jupiter.Client.steady.swept_of_fullScan⟩

/-- A client with one element and a cursor. -/
def withOne {C : Type → Type} [ClientAlgorithm C] (caret : CursorId) (state : StateVector) :
    C Char :=
  callAll (start .firstWriterWins (.ofNat 1))
    [.fill (.snapshot ['a'] state), .register (.start caret 1)]

/-- The client enters an element before the cursor, hears that another site has entered one behind
it, and deletes its own one again. -/
def entersBoth (state : StateVector) : List (ClientCall Char) :=
  [.generate ⟨.insert 0 'x', none⟩, .integrate ⟨.insert 1 'b', some ⟨.ofNat 2, state⟩⟩,
    .generate ⟨.delete 0, none⟩]

/-- A scan returns the element that came in behind the cursor as well. -/
theorem scan_stable_entered :
    let caret : CursorId := ⟨"caret", 0⟩
    let enters (C : Type → Type) [ClientAlgorithm C] (state : StateVector) : Prop :=
      let client : C Char := withOne caret state
      ∃ (last : C Char) (sightings : List (Sighting Char)) (r : Roster),
        FullScan caret client sightings r last ∧ sightings.map (·.value) = ['a', 'b'] ∧
        r.names = [0, 2] ∧ ∃ names, List.Forall₂ Sighting.Shows sightings names ∧
          (Roster.ofSize (copy client).document.size).Swept r names
    enters Wave.Client ⟨[0]⟩ ∧ enters Jupiter.Client ⟨[0, 0]⟩ := by
  intro caret enters
  constructor
  · let client : Wave.Client Char := withOne caret ⟨[0]⟩
    let head := (navigate client caret .toHead).state
    let rested := callAll head (entersBoth ⟨[0]⟩)
    let second := (navigate rested caret .forward).state
    have at_a : navigate client caret .toHead = .done (some 'a') head [] :=
      navigate_eq_done (by decide +kernel)
    have at_b : navigate rested caret .forward = .done (some 'b') second [] :=
      navigate_eq_done (by decide +kernel)
    have at_end : navigate second caret .forward = .done none _ [] :=
      navigate_eq_done (by decide +kernel)
    have rests : Rests caret head (since head.copy.history rested) rested :=
      rests_of_calls ⟨nofun, nofun, nofun, trivial⟩ (by decide +kernel) (by decide +kernel)
        (by decide +kernel)
    have scan : FullScan caret client _ _ _ :=
      .head (c := ⟨caret, 0, .valid⟩) at_a (by decide +kernel)
        (.onward (c := ⟨caret, 1, .valid⟩) rests at_b (by decide +kernel)
          (.ended (rests_nothing (by decide +kernel)) at_end))
    exact ⟨_, _, _, scan, rfl, by decide +kernel, ((scan_stable caret _ _).1 client _ scan).2⟩
  · let client : Jupiter.Client Char := withOne caret ⟨[0, 0]⟩
    let head := (navigate client caret .toHead).state
    let rested := callAll head (entersBoth ⟨[0, 0]⟩)
    let second := (navigate rested caret .forward).state
    have at_a : navigate client caret .toHead = .done (some 'a') head [] :=
      navigate_eq_done (by decide +kernel)
    have at_b : navigate rested caret .forward = .done (some 'b') second [] :=
      navigate_eq_done (by decide +kernel)
    have at_end : navigate second caret .forward = .done none _ [] :=
      navigate_eq_done (by decide +kernel)
    have rests : Rests caret head (since head.copy.history rested) rested :=
      rests_of_calls ⟨nofun, nofun, nofun, trivial⟩ (by decide +kernel) (by decide +kernel)
        (by decide +kernel)
    have scan : FullScan caret client _ _ _ :=
      .head (c := ⟨caret, 0, .valid⟩) at_a (by decide +kernel)
        (.onward (c := ⟨caret, 1, .valid⟩) rests at_b (by decide +kernel)
          (.ended (rests_nothing (by decide +kernel)) at_end))
    exact ⟨_, _, _, scan, rfl, by decide +kernel, ((scan_stable caret _ _).2 client _ scan).2⟩

end CoEdit
