import CoEdit.Proofs.Replay
import CoEdit.Proofs.WaveConvergence

/-!
# What a refusal leaves behind

A replica that refuses an operation sends nothing, and its document, its history and its cursors
stay as they are. The bookkeeping of an operation is done before the document has a say, however,
and is not undone: a wave client has counted the operation and rewritten what it has under way, a
jupiter client has rewritten its queue, and a jupiter server has counted it for the sender and
rewritten the queue of the sender's proxy. Only an operation that is turned down before that leaves
no trace.

`Refusal` lists the reasons for which a replica refuses an operation, each with what is left; the
lists are complete, and each reason is one.
-/

namespace CoEdit

open ClientAlgorithm

variable {α : Type}

/-- A step that succeeds, or fails for one of some reasons, fails for no other reason. -/
theorem Outcome.exists_reason {σ ρ : Type} {o : Outcome σ α ρ} {reason : SyncError → σ → Prop}
    (settled : (∃ r state sent, o = .done r state sent) ∨ ∃ e left, reason e left)
    (fails : ∀ e left, reason e left → o = .fail e left) {e : SyncError}
    (failed : o.result = .error e) : ∃ left, reason e left := by
  rcases settled with ⟨r, state, sent, done⟩ | ⟨e', left, h⟩
  · rw [done] at failed
    cases failed
  · rw [fails e' left h] at failed
    cases failed
    exact ⟨left, h⟩

/-- The reasons for which a document refuses an operation. -/
def SyncError.ofContent : SyncError → Bool
  | .positionOutOfRange .. | .unstamped | .wrongTag .. | .unknownField .. => true
  | _ => false

/-- A document refuses an operation for its content, never for its maker or a breach of protocol. -/
theorem Document.ofContent_of_apply [Element α] {d : Document α} {op : Operation α} {e : SyncError}
    (failed : d.apply op = .error e) : e.ofContent = true := by
  simp only [apply, getSlot, Operation.getStamp, Slot.update, bind, Except.bind, pure,
    Except.pure] at failed
  repeat' split at failed
  all_goals grind [SyncError.ofContent]

theorem LocalCopy.ofContent_of_apply [Element α] {copy : LocalCopy α} {op : Operation α}
    {e : SyncError} (failed : copy.apply op = .error e) : e.ofContent = true := by
  simp only [apply] at failed
  cases applied : copy.document.apply op with
  | error e' =>
    rw [applied] at failed
    cases failed
    exact Document.ofContent_of_apply applied
  | ok document =>
    rw [applied] at failed
    cases failed

namespace Wave

variable {site : SiteId} {client : Client α}

/-- What holds of a client that is called with anything: it sends under its own name, and nothing
waits unless something is in flight. -/
structure Paced (site : SiteId) (client : Client α) : Prop where
  owned : Owned site client
  waits : client.inFlight = none → client.buffer = []

theorem Paced.start (policy : Policy) (site : SiteId) :
    Paced site (ClientAlgorithm.start policy site : Client α) :=
  ⟨⟨rfl, nofun⟩, fun _ => rfl⟩

/-- The copy and the count have nothing to do with it. -/
theorem Paced.recount (h : Paced site client) (seen : Nat) (copy : LocalCopy α) :
    Paced site { client with seen, copy } :=
  ⟨⟨h.owned.site_eq, h.owned.buffer⟩, h.waits⟩

theorem setState_cases (client : Client α) (v : StateVector) :
    (∃ e, setState client v = .error e) ∨ ∃ seen, setState client v = .ok { client with seen } := by
  change (∃ e, (client.state.copyFrom v).map _ = _) ∨ ∃ seen, (client.state.copyFrom v).map _ = _
  cases client.state.copyFrom v with
  | error e => exact .inl ⟨e, rfl⟩
  | ok w => exact .inr ⟨w.get 0, rfl⟩

variable [Element α]

/-- Only edits and messages change what is under way. -/
theorem call_cases (client : Client α) (next : ClientCall α) :
    (∃ op, next = .generate op) ∨ (∃ op, next = .integrate op) ∨
      ∃ seen copy, (call client next).state = { client with seen, copy } := by
  have still : ∃ seen copy, client = { client with seen, copy } := ⟨client.seen, client.copy, rfl⟩
  have recursored : ∀ cursors, ∃ seen copy, withCursors client cursors =
      { client with seen, copy } := fun cursors => ⟨_, { client.copy with cursors }, rfl⟩
  cases next with
  | generate op => exact .inl ⟨op, rfl⟩
  | integrate op => exact .inr (.inl ⟨op, rfl⟩)
  | fill data =>
    refine .inr (.inr ?_)
    simp only [call, load]
    cases filled : fill client data with
    | error e => exact still
    | ok client' =>
      simp only [fill, bind, Except.bind] at filled
      split at filled
      · cases filled
      · split at filled
        · cases filled
        · rename_i loaded _
          rcases setState_cases (withCopy client loaded) data.state with
            ⟨e, refused⟩ | ⟨seen, moved⟩
          · rw [refused] at filled
            cases filled
          · obtain rfl := Except.ok.inj (filled.symm.trans moved)
            exact ⟨seen, loaded, rfl⟩
  | moveState v =>
    refine .inr (.inr ?_)
    simp only [call, moveState]
    rcases setState_cases client v with ⟨e, refused⟩ | ⟨seen, moved⟩
    · rw [refused]
      exact still
    · rw [moved]
      exact ⟨seen, client.copy, rfl⟩
  | register cursor =>
    refine .inr (.inr ?_)
    simp only [call, register]
    cases (copy client).cursors.register cursor with
    | error e => exact still
    | ok cursors => exact recursored cursors
  | moveCursor cursor position =>
    refine .inr (.inr ?_)
    simp only [call, moveCursor]
    cases (copy client).cursors.moveTo cursor position with
    | error e => exact still
    | ok cursors => exact recursored cursors
  | deregister cursor =>
    refine .inr (.inr ?_)
    simp only [call, deregister]
    cases (copy client).cursors.deregister cursor with
    | error e => exact still
    | ok removed => exact recursored removed.2

theorem generate_paced (op : Operation α) (h : Paced site client) :
    Paced site (generate client op).state := by
  refine ⟨(generate_owned op h.owned).1, ?_⟩
  rcases generate_cases client op with ⟨e, failed⟩ | ⟨applied, -, done⟩
  · rw [failed]
    exact h.waits
  · rw [done]
    split
    · intro nothing
      cases nothing
    · rename_i busy
      intro nothing
      have idle : client.inFlight = none := nothing
      rw [idle, h.waits idle] at busy
      exact absurd rfl busy

omit [Element α] in
/-- What a message finds under way is still one operation in flight and the others behind it. -/
theorem past_waits (h : Paced site client) (underWay : List (Operation α)) :
    (client.past underWay).inFlight = none → (client.past underWay).buffer = [] := by
  simp only [Client.past]
  cases flying : client.inFlight with
  | none => exact fun _ => h.waits flying
  | some first =>
    -- the first one that comes back is in flight again, so with none there is nothing to wait
    intro nothing
    have none_left : underWay = [] := List.head?_eq_none_iff.mp nothing
    rw [none_left]
    rfl

theorem integrate_paced (op : Operation α) (h : Paced site client) :
    Paced site (integrate client op).state := by
  refine ⟨(integrate_owned op h.owned).1, ?_⟩
  change (client.integrate op).state.inFlight = none → (client.integrate op).state.buffer = []
  simp only [Client.integrate]
  split
  · exact h.waits
  · split
    · simp only [Client.acknowledge]
      split
      · exact h.waits
      · rename_i none_waits
        intro
        exact none_waits
      · rename_i next rest flying waiting
        have mine : next.creator? = some site := h.owned.buffer next (waiting ▸ List.mem_cons_self)
        rw [Operation.retag_eq_ok mine]
        intro nothing
        cases nothing
    · split
      · exact h.waits
      · obtain ⟨op', underWay, past⟩ := transformPast_total client.copy.policy .client op
          (client.inFlight.toList ++ client.buffer)
        rw [receive_eq past]
        split <;> exact past_waits h underWay

theorem call_paced (next : ClientCall α) (h : Paced site client) :
    Paced site (call client next).state := by
  rcases call_cases client next with ⟨op, rfl⟩ | ⟨op, rfl⟩ | ⟨seen, copy, state⟩
  · exact generate_paced op h
  · exact integrate_paced op h
  · rw [state]
    exact h.recount seen copy

theorem callAll_paced (h : Paced site client) (calls : List (ClientCall α)) :
    Paced site (callAll client calls) := by
  induction calls generalizing client with
  | nil => exact h
  | cons next rest ih => exact ih (call_paced next h)

/-- Why a client refuses an operation, and what it is left with. -/
inductive Client.Refusal (client : Client α) (op : Operation α) : SyncError → Client α → Prop where
  | unstamped (bare : op.stamp = none) : Refusal client op .unstamped client
  | unasked (own : op.creator? = some client.site) (idle : client.inFlight = none) :
      Refusal client op (.protocol (.nothingInFlight client.site))
        { client with seen := client.seen + 1 }
  | unfit {creator : SiteId} {e : SyncError} {op' : Operation α} {underWay : List (Operation α)}
      (made : op.creator? = some creator) (foreign : creator ≠ client.site)
      (past : transformPast client.copy.policy .client op
        (client.inFlight.toList ++ client.buffer) = .ok (op', underWay))
      (refused : client.copy.apply op' = .error e) : Refusal client op e (client.past underWay)

/-- An operation of another site is always taken past what is under way. -/
theorem integrate_of_foreign (paced : Paced site client) {op : Operation α} {creator : SiteId}
    (made : op.creator? = some creator) (foreign : creator ≠ client.site) :
    client.integrate op = client.receive op := by
  obtain ⟨stamp, stamped, rfl⟩ := Option.map_eq_some_iff.mp made
  have moving : (client.inFlight.isNone && !client.buffer.isEmpty) = false := by
    cases flying : client.inFlight with
    | some first => rfl
    | none =>
      rw [paced.waits flying]
      rfl
  simp only [Client.integrate, stamped, if_neg foreign, moving]
  rfl

theorem Client.Refusal.integrate_eq (paced : Paced site client) {op : Operation α} {e : SyncError}
    {left : Client α} (h : client.Refusal op e left) : client.integrate op = .fail e left := by
  cases h with
  | unstamped bare => simp only [Client.integrate, bare]
  | unasked own idle =>
    obtain ⟨stamp, stamped, here⟩ := Option.map_eq_some_iff.mp own
    simp only [Client.integrate, stamped, if_pos here, Client.acknowledge, idle]
  | unfit made foreign past refused =>
    simp only [integrate_of_foreign paced made foreign, receive_eq past, refused]

/-- An operation is taken in, or it is refused for one of the three reasons. -/
theorem integrate_cases (paced : Paced site client) (op : Operation α) :
    (∃ op' left sent, client.integrate op = .done op' left sent) ∨
      ∃ e left, client.Refusal op e left := by
  cases stamped : op.stamp with
  | none => exact .inr ⟨_, _, .unstamped stamped⟩
  | some stamp =>
    have made := Operation.creator?_eq stamped
    by_cases own : stamp.creator = client.site
    · cases flying : client.inFlight with
      | none => exact .inr ⟨_, _, .unasked (own ▸ made) flying⟩
      | some first =>
        refine .inl ?_
        simp only [Client.integrate, stamped, if_pos own, Client.acknowledge, flying]
        cases waiting : client.buffer with
        | nil => exact ⟨_, _, _, rfl⟩
        | cons next rest =>
          -- what waits was stamped by the client, so it can be stamped anew and sent
          have mine : next.creator? = some site :=
            paced.owned.buffer next (waiting ▸ List.mem_cons_self)
          simp only [Operation.retag_eq_ok mine]
          exact ⟨_, _, _, rfl⟩
    · obtain ⟨op', underWay, past⟩ := transformPast_total client.copy.policy .client op
        (client.inFlight.toList ++ client.buffer)
      cases applied : client.copy.apply op' with
      | error e => exact .inr ⟨e, _, .unfit made own past applied⟩
      | ok copy =>
        simp only [integrate_of_foreign paced made own, receive_eq past, applied]
        exact .inl ⟨_, _, _, rfl⟩

/-- A refusal touches neither the copy nor the name of the client, and no part of it at all exactly
if the operation has no stamp. -/
theorem Client.Refusal.left_eq {op : Operation α} {e : SyncError} {left : Client α}
    (h : client.Refusal op e left) :
    left.copy = client.copy ∧ left.site = client.site ∧ (left = client ↔ op.stamp = none) := by
  have counts : ∀ {left : Client α}, left.seen = client.seen + 1 → left ≠ client := by
    rintro left counted rfl
    omega
  cases h with
  | unstamped bare => exact ⟨rfl, rfl, fun _ => bare, fun _ => rfl⟩
  | unasked own idle =>
    refine ⟨rfl, rfl, ?_⟩
    constructor
    · intro same
      exact absurd same (counts rfl)
    · intro bare
      exact absurd bare (Operation.stamp_ne_none own)
  | unfit made foreign past refused =>
    refine ⟨rfl, rfl, ?_⟩
    constructor
    · intro same
      exact absurd same (counts rfl)
    · intro bare
      exact absurd bare (Operation.stamp_ne_none made)

end Wave

namespace Jupiter

/-- A queue lets every stamped operation pass. -/
theorem passQueue_total (policy : Policy) (role : Role) (queue : List (Operation α))
    {op : Operation α} (stamped : op.stamp.isSome) :
    ∃ op' kept, passQueue policy role queue op = .ok (op', kept) := by
  obtain ⟨stamp, stamped⟩ := Option.isSome_iff_exists.mp stamped
  simp only [passQueue, Operation.getStamp, stamped]
  exact transformPast_total policy role op _

variable [Element α]

/-- Why a client refuses an operation, and what it is left with. -/
inductive Client.Refusal (client : Client α) (op : Operation α) : SyncError → Client α → Prop where
  | unstamped (bare : op.stamp = none) : Refusal client op .unstamped client
  | unfit {e : SyncError} {op' : Operation α} {outgoing : List (Operation α)}
      (passed : passQueue client.copy.policy .client client.outgoing op = .ok (op', outgoing))
      (refused : client.copy.apply op' = .error e) :
      Refusal client op e { client with outgoing }

theorem Client.Refusal.integrate_eq {client left : Client α} {op : Operation α} {e : SyncError}
    (h : client.Refusal op e left) : client.integrate op = .fail e left := by
  cases h with
  | unstamped bare =>
    simp only [Client.integrate, passQueue, Operation.getStamp, bare]
    rfl
  | unfit passed refused => simp only [Client.integrate, passed, refused]

theorem Client.integrate_cases (client : Client α) (op : Operation α) :
    (∃ op' left sent, client.integrate op = .done op' left sent) ∨
      ∃ e left, client.Refusal op e left := by
  cases stamped : op.stamp with
  | none => exact .inr ⟨_, _, .unstamped stamped⟩
  | some stamp =>
    obtain ⟨op', kept, passed⟩ := passQueue_total client.copy.policy .client client.outgoing
      (Option.isSome_of_eq_some stamped)
    cases applied : client.copy.apply op' with
    | error e => exact .inr ⟨e, _, .unfit passed applied⟩
    | ok copy =>
      simp only [Client.integrate, passed, applied]
      exact .inl ⟨_, _, _, rfl⟩

/-- A refusal touches nothing but the queue, and not even this if the operation has no stamp or
nothing is queued. -/
theorem Client.Refusal.left_eq {client left : Client α} {op : Operation α} {e : SyncError}
    (h : client.Refusal op e left) :
    left = { client with outgoing := left.outgoing } ∧
      (op.stamp = none ∨ client.outgoing = [] → left = client) := by
  cases h with
  | unstamped bare => exact ⟨rfl, fun _ => rfl⟩
  | unfit passed refused =>
    refine ⟨rfl, ?_⟩
    rintro (bare | idle)
    · simp only [passQueue, Operation.getStamp, bare] at passed
      cases passed
    · simp only [passQueue, idle] at passed
      cases stamped : op.getStamp with
      | error e =>
        rw [stamped] at passed
        cases passed
      | ok stamp =>
        rw [stamped] at passed
        cases passed
        exact congrArg (fun outgoing => { client with outgoing }) idle.symm

/-- Why a server refuses an operation, and what it is left with. -/
inductive Server.Refusal (server : Server α) (op : Operation α) : SyncError → Server α → Prop where
  | unstamped (bare : op.stamp = none) : Refusal server op .unstamped server
  | stranger {creator : SiteId} (made : op.creator? = some creator)
      (absent : server.proxies.get? creator = none) :
      Refusal server op (.unknownSite creator) server
  | unfit {creator : SiteId} {proxy : Proxy α} {e : SyncError} {op' : Operation α}
      {outgoing : List (Operation α)} (made : op.creator? = some creator)
      (found : server.proxies.get? creator = some proxy)
      (passed : passQueue server.copy.policy .server proxy.outgoing op = .ok (op', outgoing))
      (refused : server.copy.apply op' = .error e) :
      Refusal server op e { server with
        proxies := server.proxies.adjust creator fun _ =>
          ⟨proxy.sent, proxy.received + 1, outgoing⟩ }

theorem Server.Refusal.integrate_eq {server left : Server α} {op : Operation α} {e : SyncError}
    (h : server.Refusal op e left) : server.integrate op = .fail e left := by
  cases h with
  | unstamped bare => simp only [Server.integrate, bare]
  | stranger made absent =>
    obtain ⟨stamp, stamped, rfl⟩ := Option.map_eq_some_iff.mp made
    simp only [Server.integrate, stamped, absent]
  | unfit made found passed refused =>
    obtain ⟨stamp, stamped, rfl⟩ := Option.map_eq_some_iff.mp made
    simp only [Server.integrate, stamped, found, Proxy.integrate, passed, Except.map, refused]

theorem Server.integrate_cases (server : Server α) (op : Operation α) :
    (∃ op' left sent, server.integrate op = .done op' left sent) ∨
      ∃ e left, server.Refusal op e left := by
  cases stamped : op.stamp with
  | none => exact .inr ⟨_, _, .unstamped stamped⟩
  | some stamp =>
    have made := Operation.creator?_eq stamped
    cases found : server.proxies.get? stamp.creator with
    | none => exact .inr ⟨_, _, .stranger made found⟩
    | some proxy =>
      obtain ⟨op', outgoing, passed⟩ := passQueue_total server.copy.policy .server proxy.outgoing
        (Option.isSome_of_eq_some stamped)
      cases applied : server.copy.apply op' with
      | error e => exact .inr ⟨e, _, .unfit made found passed applied⟩
      | ok copy =>
        simp only [Server.integrate, stamped, found, Proxy.integrate, passed, Except.map, applied]
        exact .inl ⟨_, _, _, rfl⟩

/-- A refusal leaves the copy, the registered sites and the proxies of all sites but the sender. The
sender's proxy, if there is one, has counted the operation. -/
theorem Server.Refusal.left_eq {server left : Server α} {op : Operation α} {e : SyncError}
    (h : server.Refusal op e left) :
    left.copy = server.copy ∧ left.proxies.keys = server.proxies.keys ∧
      (∀ t, op.creator? ≠ some t → left.proxies.get? t = server.proxies.get? t) ∧
      (left = server ↔ ∀ t, op.creator? = some t → server.proxies.get? t = none) := by
  cases h with
  | unstamped bare =>
    refine ⟨rfl, rfl, fun _ _ => rfl, fun _ t made => ?_, fun _ => rfl⟩
    exact absurd bare (Operation.stamp_ne_none made)
  | @stranger creator made absent =>
    refine ⟨rfl, rfl, fun _ _ => rfl, fun _ t made' => ?_, fun _ => rfl⟩
    rwa [← Option.some.inj (made.symm.trans made')]
  | @unfit creator proxy _ _ outgoing made found passed refused =>
    refine ⟨rfl, SortedMap.keys_mapWithKey .., fun t other => ?_, fun same => ?_, fun absent => ?_⟩
    · have elsewhere : t ≠ creator := by
        rintro rfl
        exact other made
      rw [SortedMap.get?_adjust, if_neg elsewhere]
    · have counted := congrArg (fun server => server.proxies.get? creator) same
      simp only [SortedMap.get?_adjust, if_pos, found, Option.map_some] at counted
      have received : proxy.received + 1 = proxy.received :=
        congrArg Proxy.received (Option.some.inj counted)
      omega
    · rw [absent creator made] at found
      cases found

end Jupiter

/-- Whatever a wave client was called with before, an operation that it refuses is unstamped, an
echo that it does not wait for, or one that its document does not accept once it is taken past what
is under way. Nothing is sent, and the document, the history and the cursors stay; but in the latter
two cases the operation has been counted, and in the last one what is under way is rewritten for a
document that has taken it in. -/
theorem wave_client_refuses (policy : Policy) (site : SiteId) (calls : List (ClientCall α))
    [Element α] (op : Operation α) :
    let client : Wave.Client α := callAll (start policy site) calls
    (∀ e, (integrate client op).result = .error e → ∃ left, client.Refusal op e left) ∧
      ∀ e left, client.Refusal op e left → integrate client op = .fail e left ∧
        left.copy = client.copy ∧ left.site = client.site ∧ (left = client ↔ op.stamp = none) := by
  intro client
  have paced : Wave.Paced site client := Wave.callAll_paced (Wave.Paced.start policy site) calls
  have fails : ∀ e left, client.Refusal op e left → integrate client op = .fail e left :=
    fun _ _ refusal => refusal.integrate_eq paced
  constructor
  · intro e failed
    exact Outcome.exists_reason (Wave.integrate_cases paced op) fails failed
  · intro e left refusal
    exact ⟨fails e left refusal, refusal.left_eq⟩

/-- A site opens with a task and retitles it. -/
def retitling : List (ClientCall Record) :=
  [.fill (.snapshot [⟨"task", .ofList [("title", .string "a")]⟩] ⟨[0]⟩),
    .generate ⟨.update 0 "task" (.ofList [("title", .string "b")]), none⟩]

/-- Another site retitles the task too, and sets a field that the task does not have. -/
def overreaching : Operation Record :=
  ⟨.update 0 "task" (.ofList [("done", .bool true), ("title", .string "c")]),
    some ⟨.ofNat 2, ⟨[0]⟩⟩⟩

theorem wave_client_refuses_unknown_field :
    let client : Wave.Client Record := callAll (start .firstWriterWins (.ofNat 1)) retitling
    (integrate client overreaching).result = .error (.unknownField "task" "done") ∧
      ∃ left, client.Refusal overreaching (.unknownField "task" "done") left ∧
        integrate client overreaching = .fail (.unknownField "task" "done") left ∧
        left.copy = client.copy ∧ left ≠ client := by
  intro client
  obtain ⟨reasons, leaves⟩ :=
    wave_client_refuses .firstWriterWins (.ofNat 1) retitling overreaching
  have failed : (integrate client overreaching).result = .error (.unknownField "task" "done") := by
    decide +kernel
  obtain ⟨left, refusal⟩ := reasons _ failed
  obtain ⟨fails, copy, -, untouched⟩ := leaves _ left refusal
  exact ⟨failed, left, refusal, fails, copy, fun same => absurd (untouched.mp same) nofun⟩

/-- The refused operation is counted, and the title of the site is given up for it. -/
theorem wave_refusal_leaves_trace :
    let client : Wave.Client Record := callAll (start .firstWriterWins (.ofNat 1)) retitling
    (integrate client overreaching).result = .error (.unknownField "task" "done") ∧
      client.seen = 0 ∧ (integrate client overreaching).state.seen = 1 ∧
      client.inFlight.map (·.edit) =
        some (.update 0 "task" (.ofList [("title", .string "b")])) ∧
      (integrate client overreaching).state.inFlight.map (·.edit) = some .noop := by
  decide +kernel

/-- A jupiter client refuses an operation that is unstamped or that its document does not accept
once it is taken past the queue; a server also one of a site that is not registered. Nothing is
sent, and the document, the history, the cursors, the registered sites and the proxies of all but
the sender stay. But what the document did not accept has gone through the queue, which is
rewritten, and is counted by the sender's proxy. -/
theorem jupiter_refuses [Element α] (client : Jupiter.Client α) (server : Jupiter.Server α)
    (op : Operation α) :
    ((∀ e, (integrate client op).result = .error e → ∃ left, client.Refusal op e left) ∧
      ∀ e left, client.Refusal op e left → integrate client op = .fail e left ∧
        left = { client with outgoing := left.outgoing } ∧
        (op.stamp = none ∨ client.outgoing = [] → left = client)) ∧
    (∀ e, (ServerAlgorithm.integrate server op).result = .error e →
      ∃ left, server.Refusal op e left) ∧
    ∀ e left, server.Refusal op e left → ServerAlgorithm.integrate server op = .fail e left ∧
      left.copy = server.copy ∧ left.proxies.keys = server.proxies.keys ∧
      (∀ t, op.creator? ≠ some t → left.proxies.get? t = server.proxies.get? t) ∧
      (left = server ↔ ∀ t, op.creator? = some t → server.proxies.get? t = none) := by
  refine ⟨⟨?_, ?_⟩, ?_, ?_⟩
  · intro e failed
    exact Outcome.exists_reason (client.integrate_cases op) (fun _ _ h => h.integrate_eq) failed
  · intro e left refusal
    exact ⟨refusal.integrate_eq, refusal.left_eq⟩
  · intro e failed
    exact Outcome.exists_reason (server.integrate_cases op) (fun _ _ h => h.integrate_eq) failed
  · intro e left refusal
    exact ⟨refusal.integrate_eq, refusal.left_eq⟩

/-- A client that has one letter on its way. -/
def spelling : Jupiter.Client Char :=
  callAll (start .firstWriterWins (.ofNat 1))
    [.fill (.snapshot [] ⟨[0, 0]⟩), .generate ⟨.insert 0 'x', none⟩]

/-- A server that has registered one site. -/
def attending : Jupiter.Server Char :=
  ServerAlgorithm.callAll (ServerAlgorithm.start .firstWriterWins) [.add (.ofNat 1) .stateBased]

/-- The deletion of a letter that nobody has, by a site with given counters. -/
def astray (site : Nat) (sent received : Nat) : Operation Char :=
  ⟨.delete 5, some ⟨.ofNat site, ⟨[sent, received]⟩⟩⟩

theorem jupiter_refuses_out_of_range :
    (∃ e left, spelling.Refusal (astray 2 0 1) e left ∧
      integrate spelling (astray 2 0 1) = .fail e left ∧ left.copy = spelling.copy) ∧
    ∃ e left, attending.Refusal (astray 1 0 0) e left ∧
      ServerAlgorithm.integrate attending (astray 1 0 0) = .fail e left ∧
      left.copy = attending.copy ∧ left ≠ attending := by
  constructor
  · obtain ⟨⟨reasons, leaves⟩, -⟩ := jupiter_refuses spelling attending (astray 2 0 1)
    have failed : (integrate spelling (astray 2 0 1)).result =
        .error (.positionOutOfRange 5 1) := by
      decide +kernel
    obtain ⟨left, refusal⟩ := reasons _ failed
    obtain ⟨fails, rest, -⟩ := leaves _ left refusal
    exact ⟨_, left, refusal, fails, by rw [rest]⟩
  · obtain ⟨-, reasons, leaves⟩ := jupiter_refuses spelling attending (astray 1 0 0)
    have failed : (ServerAlgorithm.integrate attending (astray 1 0 0)).result =
        .error (.positionOutOfRange 5 0) := by
      decide +kernel
    obtain ⟨left, refusal⟩ := reasons _ failed
    obtain ⟨fails, copy, -, -, untouched⟩ := leaves _ left refusal
    refine ⟨_, left, refusal, fails, copy, fun same => ?_⟩
    have registered : attending.proxies.get? (.ofNat 1) ≠ none := by decide +kernel
    exact registered (untouched.mp same (.ofNat 1) rfl)

/-- The client has dropped its letter from the queue, and the proxy has counted the deletion. -/
theorem jupiter_refusal_leaves_trace :
    (integrate spelling (astray 2 0 1)).result = .error (.positionOutOfRange 5 1) ∧
      spelling.outgoing.length = 1 ∧ (integrate spelling (astray 2 0 1)).state.outgoing = [] ∧
    (ServerAlgorithm.integrate attending (astray 1 0 0)).result =
        .error (.positionOutOfRange 5 0) ∧
      (attending.proxies.get? (.ofNat 1)).map (·.received) = some 0 ∧
      ((ServerAlgorithm.integrate attending (astray 1 0 0)).state.proxies.get? (.ofNat 1)).map
        (·.received) = some 1 := by
  decide +kernel

end CoEdit
