import CoEdit.Proofs.FillGate
import CoEdit.Proofs.InPlace

/-!
# A document as a plain list

A document that is edited by index and by value behaves as a plain list does (`ListCall.onList`),
whatever is under way: each call returns what the list's call returns and leaves what it leaves, and
a call whose index is out of range leaves the replica alone. Several operations may be generated for
one call; if the first of them is possible then so are the others, so that no call stops half way.
-/

namespace CoEdit

open ClientAlgorithm

variable {α : Type}

/-- A call of a list that is shared. -/
inductive ListCall (α : Type) where
  | push (value : α)
  | insert (index : Nat) (value : α)
  | insertAll (index : Nat) (values : List α)
  | set (index : Nat) (value : α)
  | remove (index : Nat)
  | removeValue (value : α)
  | clear

namespace ListCall

/-- The call as an edit of a document. -/
def toEdit : ListCall α → LocalEdit α
  | push v => .push v
  | insert i v => .insert i v
  | insertAll i vs => .insertAll i vs
  | set i v => .set i v
  | remove i => .remove i
  | removeValue v => .removeValue v
  | clear => .clear

/-- What the call returns on a plain list and what it makes of it, or that the index is out of
range. -/
def onList [DecidableEq α] (xs : List α) : ListCall α → Except SyncError (Reply α × List α)
  | push v => .ok (.done, xs ++ [v])
  | insert i v =>
    if i ≤ xs.length then .ok (.done, xs.insertIdx i v)
    else .error (.positionOutOfRange i xs.length)
  | insertAll i vs =>
    if vs = [] ∨ i ≤ xs.length then .ok (.done, xs.take i ++ vs ++ xs.drop i)
    else .error (.positionOutOfRange i xs.length)
  | set i v =>
    match xs[i]? with
    | some old => .ok (.element old, xs.set i v)
    | none => .error (.positionOutOfRange i xs.length)
  | remove i =>
    match xs[i]? with
    | some old => .ok (.element old, xs.eraseIdx i)
    | none => .error (.positionOutOfRange i xs.length)
  | removeValue v => .ok (.found (v ∈ xs), xs.erase v)
  | clear => .ok (.done, [])

/-- What calls make of a plain list, one after the other; those that fail make nothing of it. -/
def allOnList [DecidableEq α] (xs : List α) : List (ListCall α) → List α
  | [] => xs
  | call :: rest =>
    match call.onList xs with
    | .ok (_, ys) => allOnList ys rest
    | .error _ => allOnList xs rest

end ListCall

namespace Document

variable {d : Document α} {i : Nat}

theorem getElement_of_some {v : α} (there : d.values[i]? = some v) : d.getElement i = .ok v := by
  rw [values, List.getElem?_map] at there
  obtain ⟨slot, at_i, rfl⟩ := Option.map_eq_some_iff.mp there
  simp only [getElement, getSlot, at_i]
  rfl

theorem getElement_of_none (beyond : d.values[i]? = none) :
    d.getElement i = .error (.positionOutOfRange i d.values.length) := by
  rw [values, List.getElem?_map] at beyond
  have at_i := Option.map_eq_none_iff.mp beyond
  simp only [getElement, getSlot, at_i, length_values]
  rfl

variable [DecidableEq α] {v : α}

/-- To take out the element that is found first is to erase the value. -/
theorem erase_of_indexOf?_some (found : d.indexOf? v = some i) :
    i < d.values.length ∧ v ∈ d.values ∧ d.values.erase v = d.values.eraseIdx i := by
  obtain ⟨inside, same, -⟩ := List.findIdx?_eq_some_iff_getElem.mp found
  have at_i : d.values[i] = v := of_decide_eq_true same
  refine ⟨inside, at_i ▸ List.getElem_mem inside, ?_⟩
  have erased := @List.eraseP_eq_eraseIdx _ d.values (· = v)
  rw [show d.values.findIdx? (· = v) = some i from found] at erased
  rw [List.erase_eq_eraseP']
  exact erased

theorem notMem_of_indexOf?_none (missing : d.indexOf? v = none) : v ∉ d.values := by
  intro there
  exact absurd rfl (of_decide_eq_false (List.findIdx?_eq_none_iff.mp missing v there))

end Document

namespace ClientAlgorithm

/-- A client generates what its document accepts, whatever it has under way, and refuses all else
without a trace. -/
structure Generates (C : Type → Type) [ClientAlgorithm C] (α : Type) [Element α] : Prop where
  accepts : ∀ (client : C α) (op : Operation α) {applied},
    (copy client).apply (op.stamped (site client) (state client)) = .ok applied →
    ∃ op' client' sent, generate client op = .done op' client' sent ∧ copy client' = applied
  refuses : ∀ (client : C α) (op : Operation α) {e},
    (copy client).apply (op.stamped (site client) (state client)) = .error e →
    generate client op = .fail e client

variable {C : Type → Type} [ClientAlgorithm C]

/-- The elements of a client's document. -/
def values (client : C α) : List α := (copy client).document.values

/-- A step that succeeds with a reply and leaves a document with the given elements. -/
def Leaves {ρ : Type} (o : Outcome (C α) α ρ) (r : ρ) (xs : List α) : Prop :=
  o.result = .ok r ∧ values o.state = xs

variable [Element α] {client : C α} {xs ys : List α}

theorem Leaves.generateAll_nil : Leaves (generateAll client []) () (values client) := ⟨rfl, rfl⟩

/-- The first operation is generated, then the others. -/
theorem Leaves.generateAll_cons {op op' : Operation α} {rest : List (Operation α)}
    (first : Leaves (generate client op) op' xs)
    (others : ∀ client' : C α, values client' = xs → Leaves (generateAll client' rest) () ys) :
    Leaves (generateAll client (op :: rest)) () ys := by
  obtain ⟨made, left⟩ := first
  have later := others _ left
  simp only [generateAll, made]
  exact later

omit [Element α] in
theorem Leaves.reply {ρ τ : Type} {o : Outcome (C α) α ρ} {r : ρ} (h : Leaves o r xs) (t : τ) :
    Leaves (o.reply t) t xs := by
  obtain ⟨result, left⟩ := h
  refine ⟨?_, left⟩
  simp only [Outcome.reply, result, Except.map]

namespace Generates

variable (generates : Generates C α)
include generates

/-- What has an effect on the elements is generated and has this effect. -/
theorem leaves {op : Operation α}
    (effect : (op.stamped (site client) (state client)).effect? (values client) = some xs) :
    ∃ op', Leaves (generate client op) op' xs := by
  obtain ⟨applied, apply, left⟩ := LocalCopy.apply_of_effect? effect
  obtain ⟨op', client', sent, done, copied⟩ := generates.accepts client op apply
  refine ⟨op', ?_, ?_⟩
  · rw [done]
    rfl
  · rw [done, ← left, ← copied]
    rfl

theorem insert {i : Nat} (inside : i ≤ (values client).length) (v : α) :
    ∃ op', Leaves (generate client ⟨.insert i v, none⟩) op' ((values client).insertIdx i v) :=
  generates.leaves (if_pos inside)

theorem delete {i : Nat} (inside : i < (values client).length) :
    ∃ op', Leaves (generate client ⟨.delete i, none⟩) op' ((values client).eraseIdx i) :=
  generates.leaves (if_pos inside)

theorem replace {i : Nat} (inside : i < (values client).length) (v : α) :
    ∃ op', Leaves (generate client ⟨.replace i v, none⟩) op' ((values client).set i v) := by
  refine generates.leaves ?_
  simp only [Operation.effect?, Operation.edit_stamped, List.getElem?_eq_getElem inside]
  rfl

theorem insert_beyond {i : Nat} (outside : (values client).length < i) (v : α) :
    generate client ⟨.insert i v, none⟩ =
      .fail (.positionOutOfRange i (values client).length) client := by
  refine generates.refuses client _ ?_
  have beyond : ¬ i ≤ (copy client).document.size := by
    rw [← Document.length_values]
    exact Nat.not_le_of_lt outside
  simp only [LocalCopy.apply, Document.apply, Operation.edit_stamped, if_neg beyond]
  rw [← Document.length_values]
  rfl

/-- Several elements are put in one behind the other; there is room for each of them if there is for
the first. -/
theorem insertAll {front back : List α} (split : values client = front ++ back) (vs : List α) :
    Leaves (generateAll client (vs.zipIdx front.length |>.map fun (v, p) => ⟨.insert p v, none⟩)) ()
      (front ++ vs ++ back) := by
  induction vs generalizing client front with
  | nil =>
    rw [List.append_nil, ← split]
    exact .generateAll_nil
  | cons v rest ih =>
    have inside : front.length ≤ (values client).length := by simp [split]
    obtain ⟨op', first⟩ := generates.insert inside v
    refine first.generateAll_cons fun client' left => ?_
    have split' : values client' = (front ++ [v]) ++ back := by
      rw [left, split, insertIdx_eq_take_drop (by simp)]
      simp
    have others := ih split'
    rw [List.length_append, List.length_singleton, List.append_assoc front [v] rest] at others
    exact others

/-- A document is emptied from the front. -/
theorem deleteAll {n : Nat} (all : (values client).length = n) :
    Leaves (generateAll client (List.replicate n ⟨.delete 0, none⟩)) () [] := by
  induction n generalizing client with
  | zero => exact List.eq_nil_of_length_eq_zero all ▸ .generateAll_nil
  | succ n ih =>
    obtain ⟨op', first⟩ := generates.delete (all ▸ Nat.succ_pos n : 0 < (values client).length)
    refine first.generateAll_cons fun client' left => ih ?_
    rw [left, List.length_eraseIdx_of_lt (by omega), all]
    rfl

end Generates

/-- A step agrees with a call of a plain list: if it succeeds it returns and leaves the same, and if
it fails it fails in the same way and without a trace. -/
def Agrees {ρ : Type} (client : C α) (o : Outcome (C α) α ρ) : Except SyncError (ρ × List α) → Prop
  | .ok (r, xs) => Leaves o r xs
  | .error e => o = .fail e client

/-- An edit of the element at an index. -/
theorem agrees_of_made {i : Nat} {edit : Edit α}
    (made : i < (values client).length → ∃ op', Leaves (generate client ⟨edit, none⟩) op' xs) :
    Agrees client
      (generateIfOk client ((copy client).document.getElement i |>.map fun old =>
        (⟨edit, none⟩, .element old)))
      (match (values client)[i]? with
        | some old => .ok (.element old, xs)
        | none => .error (.positionOutOfRange i (values client).length)) := by
  cases at_i : (values client)[i]? with
  | none =>
    rw [Document.getElement_of_none at_i]
    rfl
  | some old =>
    obtain ⟨op', done⟩ := made (List.getElem?_eq_some_iff.mp at_i).1
    rw [Document.getElement_of_some at_i]
    exact done.reply _

theorem Generates.edit_agrees [DecidableEq α] (generates : Generates C α) (client : C α)
    (call : ListCall α) :
    Agrees client (edit client call.toEdit) (call.onList (values client)) := by
  cases call with
  | push v =>
    obtain ⟨op', done⟩ := generates.insert (Nat.le_refl (values client).length) v
    rw [List.insertIdx_length_self, values, Document.length_values] at done
    exact done.reply _
  | insert i v =>
    simp only [ListCall.onList]
    split
    · obtain ⟨op', done⟩ := generates.insert ‹_› v
      exact done.reply _
    · have refused := generates.insert_beyond (Nat.lt_of_not_le ‹_›) v
      simp only [ListCall.toEdit, edit, generateFor, refused]
      rfl
  | insertAll i vs =>
    simp only [ListCall.onList]
    split
    · rename_i possible
      rcases possible with rfl | inside
      · rw [List.append_nil, List.take_append_drop]
        exact Leaves.generateAll_nil.reply _
      · have done := generates.insertAll (List.take_append_drop i (values client)).symm vs
        rw [List.length_take, Nat.min_eq_left inside] at done
        exact done.reply _
    · rename_i impossible
      obtain ⟨some_there, outside⟩ := not_or.mp impossible
      obtain ⟨v, rest, rfl⟩ := List.exists_cons_of_ne_nil some_there
      have refused := generates.insert_beyond (Nat.lt_of_not_le outside) v
      simp only [ListCall.toEdit, edit, List.zipIdx_cons, List.map_cons, generateAll, refused]
      rfl
  | set i v => exact agrees_of_made fun inside => generates.replace inside v
  | remove i => exact agrees_of_made fun inside => generates.delete inside
  | removeValue v =>
    simp only [ListCall.toEdit, edit, ListCall.onList]
    cases found : (copy client).document.indexOf? v with
    | some i =>
      obtain ⟨inside, there, same⟩ := Document.erase_of_indexOf?_some found
      obtain ⟨op', done⟩ := generates.delete inside
      rw [values, same, decide_eq_true there]
      exact done.reply _
    | none =>
      have missing := Document.notMem_of_indexOf?_none found
      rw [values, List.erase_of_not_mem missing, decide_eq_false missing]
      exact ⟨rfl, rfl⟩
  | clear =>
    have done := generates.deleteAll (Eq.refl (values client).length)
    rw [values, Document.length_values] at done
    exact done.reply _

end ClientAlgorithm

theorem Wave.Client.generates [Element α] : Generates Wave.Client α where
  accepts client op applied apply := by
    change client.copy.apply (op.stamped client.site client.state) = .ok applied at apply
    change ∃ op' client' sent, client.generate op = .done op' client' sent ∧ client'.copy = applied
    simp only [Client.generate, apply]
    split <;> exact ⟨_, _, _, rfl, rfl⟩
  refuses client op e apply := by
    change client.copy.apply (op.stamped client.site client.state) = .error e at apply
    change client.generate op = .fail e client
    simp only [Client.generate, apply]

theorem Jupiter.Client.generates [Element α] : Generates Jupiter.Client α where
  accepts client op applied apply := by
    change client.copy.apply (op.stamped client.site client.state) = .ok applied at apply
    change ∃ op' client' sent, client.generate op = .done op' client' sent ∧ client'.copy = applied
    simp only [Client.generate, apply]
    exact ⟨_, _, _, rfl, rfl⟩
  refuses client op e apply := by
    change client.copy.apply (op.stamped client.site client.state) = .error e at apply
    change client.generate op = .fail e client
    simp only [Client.generate, apply]

/-! ## Sessions -/

namespace Session

variable {C : Type → Type} [ClientAlgorithm C]

/-- The elements of a session's document. -/
def values (session : Session C α) : List α := session.copy.document.values

variable [Element α] [DecidableEq α]

/-- The session after some calls, those that fail included. -/
def afterCalls (session : Session C α) : List (ListCall α) → Session C α
  | [] => session
  | call :: rest =>
    match session.edit? call.toEdit with
    | some o => o.state.afterCalls rest
    | none => session.afterCalls rest

/-- The session stands where a plain list stands after the same calls, and the next call does to it
what it does to the list; if the list's call fails, nothing changes and nothing is sent. -/
structure ActsAsList (session : Session C α) (calls : List (ListCall α)) : Prop where
  joined : (session.afterCalls calls).joined = true
  values : (session.afterCalls calls).values = ListCall.allOnList session.values calls
  next : ∀ call : ListCall α, ∃ o, (session.afterCalls calls).edit? call.toEdit = some o ∧
    (∀ r xs, call.onList (session.afterCalls calls).values = .ok (r, xs) →
      o.result = .ok r ∧ o.state.values = xs) ∧
    ∀ e, call.onList (session.afterCalls calls).values = .error e →
      o = .fail e (session.afterCalls calls)

variable {session : Session C α}

/-- One call. -/
theorem edit?_agrees (generates : Generates C α) (joined : session.joined = true)
    (call : ListCall α) : ∃ o, session.edit? call.toEdit = some o ∧ o.state.joined = true ∧
      (∀ r xs, call.onList session.values = .ok (r, xs) →
        o.result = .ok r ∧ o.state.values = xs) ∧
      ∀ e, call.onList session.values = .error e → o = .fail e session := by
  have agrees := generates.edit_agrees session.client call
  refine ⟨_, edit?_of_joined joined call.toEdit, joined, fun r xs listed => ?_, fun e refused => ?_⟩
  · change call.onList (ClientAlgorithm.values session.client) = _ at listed
    rw [listed] at agrees
    exact agrees
  · change call.onList (ClientAlgorithm.values session.client) = _ at refused
    rw [refused] at agrees
    have failed : ClientAlgorithm.edit session.client call.toEdit = .fail e session.client := agrees
    simp only [atClient, failed]
    rfl

theorem actsAsList (generates : Generates C α) (joined : session.joined = true)
    (calls : List (ListCall α)) : session.ActsAsList calls := by
  have stands : (session.afterCalls calls).joined = true ∧
      (session.afterCalls calls).values = ListCall.allOnList session.values calls := by
    induction calls generalizing session with
    | nil => exact ⟨joined, rfl⟩
    | cons call rest ih =>
      obtain ⟨o, made, still, done, failed⟩ := edit?_agrees generates joined call
      simp only [afterCalls, made, ListCall.allOnList]
      cases listed : call.onList session.values with
      | ok answer =>
        obtain ⟨-, left⟩ := done answer.1 answer.2 listed
        have later := ih still
        rw [left] at later
        exact later
      | error e =>
        rw [failed e listed]
        exact ih joined
  refine ⟨stands.1, stands.2, fun call => ?_⟩
  obtain ⟨o, made, -, done, failed⟩ := edit?_agrees generates stands.1 call
  exact ⟨o, made, done, failed⟩

end Session

/-- Whatever a replica that has joined has under way, and whatever calls are made one after the
other: its elements are those of the plain list after these calls, the next call succeeds exactly if
the list's does, returning the same and leaving the same elements, and a call that fails leaves the
whole replica alone and sends nothing. -/
theorem acts_as_list [Element α] [DecidableEq α] (calls : List (ListCall α)) :
    (∀ session : Session Wave.Client α, session.joined = true → session.ActsAsList calls) ∧
      ∀ session : Session Jupiter.Client α, session.joined = true → session.ActsAsList calls :=
  ⟨fun _ joined => Session.actsAsList Wave.Client.generates joined calls,
    fun _ joined => Session.actsAsList Jupiter.Client.generates joined calls⟩

/-- A wave session with two letters, both of them under way. -/
def typing : Session Wave.Client Char :=
  let alone : Session Wave.Client Char := .start .lastWriterWins (.ofNat 1)
  (alone.fill (.snapshot [] ⟨[0]⟩)).state.afterCalls [.push 'a', .push 'b']

theorem acts_as_list_typing :
    typing.joined = true ∧ typing.client.inFlight.isSome ∧ typing.client.buffer.length = 1 ∧
      let calls : List (ListCall Char) :=
        [.insertAll 1 ['x', 'a', 'y'], .removeValue 'a', .set 9 'z']
      (typing.afterCalls calls).values = ['x', 'a', 'y', 'b'] ∧
      ∃ o, (typing.afterCalls calls).edit? (.insertAll 5 ['p', 'q']) = some o ∧
        o = .fail (.positionOutOfRange 5 4) (typing.afterCalls calls) := by
  have joined : typing.joined = true := by decide +kernel
  refine ⟨joined, by decide +kernel, by decide +kernel, ?_⟩
  intro calls
  obtain ⟨-, values, next⟩ := (acts_as_list calls).1 typing joined
  have listed : ListCall.allOnList typing.values calls = ['x', 'a', 'y', 'b'] := by decide +kernel
  rw [listed] at values
  obtain ⟨o, made, -, failed⟩ := next (.insertAll 5 ['p', 'q'])
  refine ⟨values, o, made, failed _ ?_⟩
  rw [values]
  rfl

end CoEdit
