import CoEdit.Proofs.Drain
import CoEdit.Proofs.Refusal
import CoEdit.Proofs.Relay

/-!
# Commits

A server takes an operation in as a whole or not at all. Either the operation enters the history in
the form in which it changes the document, under the stamp that it came with, and goes out once to
everybody who is registered (`LocalCopy.Commits`), or the document, the history and the cursors stay
as they are and nothing goes out. Who is registered is a matter of the calls before (`registered`).
-/

namespace CoEdit

open ServerAlgorithm

variable {α : Type}

/-- Who is registered after a call, in the order of joining. -/
def ServerCall.enroll (sites : List SiteId) : ServerCall α → List SiteId
  | .add site _ => if site ∈ sites then sites else sites ++ [site]
  | .remove site => sites.erase site
  | .integrate _ => sites

/-- Who is registered after some calls, in the order of joining. -/
def registered (calls : List (ServerCall α)) : List SiteId := calls.foldl ServerCall.enroll []

/-- All that a copy becomes when an operation is taken in, in a form of its own. -/
structure LocalCopy.Commits [Element α] (before : LocalCopy α) (op op' : Operation α)
    (after : LocalCopy α) : Prop where
  stamp : op'.stamp = op.stamp
  document : before.document.apply op' = .ok after.document
  history : after.history = before.history ++ [op']
  cursors : after.cursors = before.cursors.follow op'.edit
  policy : after.policy = before.policy

variable [Element α]

theorem LocalCopy.Commits.of_apply {before after : LocalCopy α} {op op' : Operation α}
    (stamp : op'.stamp = op.stamp) (applied : before.apply op' = .ok after) :
    before.Commits op op' after := by
  simp only [apply] at applied
  cases document : before.document.apply op' with
  | error e =>
    rw [document] at applied
    cases applied
  | ok d =>
    rw [document] at applied
    cases applied
    exact ⟨stamp, document, rfl, rfl, rfl⟩

namespace Wave

variable {server : Server α}

theorem sites_call (server : Server α) (next : ServerCall α) :
    (call server next).state.sites = next.enroll server.sites := by
  cases next with
  | add site mode =>
    simp only [ServerCall.enroll]
    by_cases known : site ∈ server.sites
    · have refused : addSite server site mode = .error (.siteTaken site) := if_pos known
      rw [if_pos known]
      simp only [call, refused]
      rfl
    · rw [if_neg known]
      have added : addSite server site mode = .ok (_, _) := Server.addSite_of_absent known mode
      simp only [call, added]
      rfl
  | remove site =>
    by_cases known : site ∈ server.sites
    · have removed : removeSite server site =
          .ok { server with sites := server.sites.erase site } := if_pos known
      simp only [call, removed]
      rfl
    · have refused : removeSite server site = .error (.unknownSite site) := if_neg known
      simp only [call, refused]
      exact (List.erase_of_not_mem known).symm
  | integrate op =>
    change (server.integrate op).state.sites = server.sites
    rcases server.integrate_cases op with ⟨e, failed⟩ | ⟨op', applied, -, done⟩
    · rw [failed]
      rfl
    · rw [done]
      rfl

/-- The registered sites are known from the calls. -/
theorem sites_callAll (server : Server α) (calls : List (ServerCall α)) :
    (callAll server calls).sites = calls.foldl ServerCall.enroll server.sites := by
  induction calls generalizing server with
  | nil => rfl
  | cons next rest ih => rw [callAll, ih, sites_call, List.foldl_cons]

theorem nodup_enroll {sites : List SiteId} (distinct : sites.Nodup) (next : ServerCall α) :
    (next.enroll sites).Nodup := by
  have moved := sites_call ⟨.empty .firstWriterWins, sites⟩ next
  rw [← moved]
  exact Server.distinct_call distinct next

theorem nodup_registered (calls : List (ServerCall α)) : (registered calls).Nodup := by
  have moved : (callAll (start .firstWriterWins : Server α) calls).sites = registered calls :=
    sites_callAll _ calls
  rw [← moved]
  exact Server.distinct_callAll List.nodup_nil calls

omit [Element α] in
theorem rebase_stamp {op op' : Operation α} {revision : Nat}
    (rebased : server.rebase op revision = .ok op') : op'.stamp = op.stamp := by
  simp only [Server.rebase, bind, Except.bind] at rebased
  split at rebased
  · cases rebased
  · split at rebased
    · cases rebased
    · rename_i past
      cases rebased
      exact (transformPast_stamps past).1

theorem integrate_commits {op op' : Operation α} (served : (server.integrate op).result = .ok op') :
    ∃ server', server.integrate op = .done op' server' (server.sites.map fun t => (.site t, op')) ∧
      server'.sites = server.sites ∧ server.copy.Commits op op' server'.copy := by
  simp only [Server.integrate] at served ⊢
  split at served
  · cases served
  · split at served
    · cases served
    · rename_i known
      split at served
      · cases served
      · rename_i rebased
        split at served
        · cases served
        · rename_i applied
          cases served
          simp only [if_neg known]
          exact ⟨_, rfl, rfl, .of_apply (rebase_stamp rebased) applied⟩

end Wave

namespace Jupiter

variable {server : Server α}

omit [Element α] in
theorem mem_keys_iff {proxies : SortedMap SiteId (Proxy α)} {site : SiteId} :
    site ∈ proxies.keys ↔ (proxies.get? site).isSome := by
  rw [← SortedMap.contains_eq_true_iff]
  rfl

omit [Element α] in
theorem mem_keys_insert {proxies : SortedMap SiteId (Proxy α)} {site t : SiteId}
    (proxy : Proxy α) : t ∈ (proxies.insert site proxy).keys ↔ t ∈ proxies.keys ∨ t = site := by
  rw [mem_keys_iff, mem_keys_iff, SortedMap.get?_insert]
  by_cases here : t = site <;> simp [here]

omit [Element α] in
theorem mem_keys_erase {proxies : SortedMap SiteId (Proxy α)} {site t : SiteId} :
    t ∈ (proxies.erase site).keys ↔ t ≠ site ∧ t ∈ proxies.keys := by
  rw [mem_keys_iff, mem_keys_iff, SortedMap.get?_erase]
  by_cases here : t = site <;> simp [here]

/-- Operations register nobody and remove nobody. -/
theorem keys_integrate (server : Server α) (op : Operation α) :
    (server.integrate op).state.proxies.keys = server.proxies.keys := by
  cases result : (server.integrate op).result with
  | error e =>
    obtain ⟨left, refusal⟩ := Outcome.exists_reason (server.integrate_cases op)
      (fun _ _ refusal => refusal.integrate_eq) result
    rw [refusal.integrate_eq]
    exact refusal.left_eq.2.1
  | ok op' =>
    obtain ⟨stamp, proxy, outgoing, applied, stamped, found, passed, apply⟩ :=
      Server.integrate_eq_ok result
    obtain ⟨server', sent, done, -, -, keys, -⟩ := integrate_eq stamped found passed apply
    rw [done]
    exact keys

theorem mem_keys_call {sites : List SiteId} (distinct : sites.Nodup)
    (same : ∀ t, t ∈ server.proxies.keys ↔ t ∈ sites) (next : ServerCall α) (t : SiteId) :
    t ∈ (call server next).state.proxies.keys ↔ t ∈ next.enroll sites := by
  cases next with
  | add site mode =>
    simp only [ServerCall.enroll]
    by_cases known : site ∈ sites
    · have taken : server.proxies.contains site = true :=
        (SortedMap.contains_eq_true_iff ..).mpr ((same site).mpr known)
      have refused : addSite server site mode = .error (.siteTaken site) := if_pos taken
      rw [if_pos known]
      simp only [call, refused]
      exact same t
    · have absent : server.proxies.contains site = false :=
        Server.contains_eq_false fun there => known ((same site).mp there)
      have added : addSite server site mode = .ok (_, _) := Server.addSite_of_absent absent mode
      rw [if_neg known]
      simp only [call, added]
      rw [List.mem_append, List.mem_singleton, ← same]
      exact mem_keys_insert _
  | remove site =>
    simp only [ServerCall.enroll, distinct.mem_erase_iff, ← same]
    cases known : server.proxies.contains site with
    | true =>
      have removed : removeSite server site =
          .ok { server with proxies := server.proxies.erase site } := if_pos known
      simp only [call, removed]
      exact mem_keys_erase
    | false =>
      have refused : removeSite server site = .error (.unknownSite site) :=
        if_neg (Bool.eq_false_iff.mp known)
      simp only [call, refused]
      change t ∈ server.proxies.keys ↔ _
      refine ⟨fun there => ⟨?_, there⟩, And.right⟩
      rintro rfl
      exact Bool.eq_false_iff.mp known ((SortedMap.contains_eq_true_iff ..).mpr there)
  | integrate op =>
    change t ∈ (server.integrate op).state.proxies.keys ↔ t ∈ sites
    rw [keys_integrate]
    exact same t

/-- The registered sites are known from the calls. -/
theorem keys_perm_registered (policy : Policy) (calls : List (ServerCall α)) :
    (callAll (start policy : Server α) calls).proxies.keys.Perm (registered calls) := by
  -- the proxies are kept by site and not in the order of joining: only who is there is compared
  have all : ∀ (server : Server α) (sites : List SiteId),
      (∀ t, t ∈ server.proxies.keys ↔ t ∈ sites) → sites.Nodup →
        ∀ t, t ∈ (callAll server calls).proxies.keys ↔ t ∈ calls.foldl ServerCall.enroll sites := by
    induction calls with
    | nil => exact fun _ _ same _ => same
    | cons next rest ih =>
      intro server sites same distinct
      exact ih _ _ (mem_keys_call distinct same next) (Wave.nodup_enroll distinct next)
  exact (List.perm_ext_iff_of_nodup (SortedMap.nodup_keys _) (Wave.nodup_registered calls)).mpr
    (all (start policy) [] (fun t => Iff.rfl) List.nodup_nil)

theorem integrate_commits {op op' : Operation α} (served : (server.integrate op).result = .ok op') :
    ∃ creator proxies server', op.creator? = some creator ∧ creator ∈ server.proxies.keys ∧
      proxies.keys = server.proxies.keys ∧
      server.integrate op = .done op' server' (Server.relays proxies creator op') ∧
      server.copy.Commits op op' server'.copy := by
  obtain ⟨stamp, proxy, outgoing, applied, stamped, found, passed, apply⟩ :=
    Server.integrate_eq_ok served
  have made := Operation.creator?_eq stamped
  let proxies := server.proxies.adjust stamp.creator
    fun _ => ⟨proxy.sent, proxy.received + 1, outgoing⟩
  let server' : Server α := ⟨applied, proxies.mapWithKey fun site proxy =>
    if site = stamp.creator then proxy else proxy.relay stamp.creator op'⟩
  refine ⟨stamp.creator, proxies, server', made, Server.mem_sites.mpr ⟨proxy, found⟩,
    SortedMap.keys_mapWithKey .., ?_, .of_apply (passQueue_stamp passed) apply⟩
  simp only [Server.integrate, stamped, found, Proxy.integrate, passed, Except.map, apply]
  rfl

omit [Element α] in
/-- Relays go to the registered sites but the creator. -/
theorem relays_perm {proxies : SortedMap SiteId (Proxy α)} {sites : List SiteId}
    (registered : proxies.keys.Perm sites) (creator : SiteId) (op : Operation α) :
    ((Server.relays proxies creator op).map Prod.fst).Perm
      ((sites.erase creator).map Address.site) := by
  have distinct : sites.Nodup := registered.nodup (SortedMap.nodup_keys _)
  have addresses : (Server.relays proxies creator op).map Prod.fst =
      (proxies.erase creator).keys.map Address.site := by
    simp only [Server.relays, SortedMap.keys, List.map_map]
    rfl
  have others : (proxies.erase creator).keys.Perm (sites.erase creator) := by
    refine (List.perm_ext_iff_of_nodup (SortedMap.nodup_keys _) (distinct.erase _)).mpr fun t => ?_
    rw [distinct.mem_erase_iff, ← registered.mem_iff]
    exact mem_keys_erase
  rw [addresses]
  exact others.map _

omit [Element α] in
/-- Each of them carries the edit, under the name of its creator. -/
theorem relays_edit {proxies : SortedMap SiteId (Proxy α)} {creator : SiteId} {op : Operation α}
    {message : Address × Operation α} (among : message ∈ Server.relays proxies creator op) :
    message.2.edit = op.edit ∧ message.2.creator? = some creator := by
  obtain ⟨entry, -, rfl⟩ := List.mem_map.mp among
  exact ⟨rfl, rfl⟩

end Jupiter

/-- Whatever a server was called with before, an operation that it refuses sends nothing and leaves
the document, the history, the cursors and the registered sites as they are; with wave it leaves the
whole server, and with jupiter all proxies but the sender's. An operation that it takes in is
recorded and applied under the stamp that it came with, and goes out to every registered site once:
with wave in the order in which they joined, with jupiter to all but its creator. -/
theorem server_commits (policy : Policy) (calls : List (ServerCall α)) (op : Operation α) :
    (registered calls).Nodup ∧
    (let server := callAll (start policy : Wave.Server α) calls;
      server.sites = registered calls ∧
      (∀ e, (integrate server op).result = .error e → integrate server op = .fail e server) ∧
      ∀ op', (integrate server op).result = .ok op' →
        ∃ server', integrate server op =
            .done op' server' ((registered calls).map fun t => (.site t, op')) ∧
          server'.sites = registered calls ∧ server.copy.Commits op op' server'.copy) ∧
    (let server := callAll (start policy : Jupiter.Server α) calls;
      server.proxies.keys.Perm (registered calls) ∧
      (∀ e, (integrate server op).result = .error e →
        ∃ left, integrate server op = .fail e left ∧ left.copy = server.copy ∧
          left.proxies.keys = server.proxies.keys ∧
          ∀ t, op.creator? ≠ some t → left.proxies.get? t = server.proxies.get? t) ∧
      ∀ op', (integrate server op).result = .ok op' →
        ∃ creator server' sent, op.creator? = some creator ∧ creator ∈ registered calls ∧
          integrate server op = .done op' server' sent ∧
          server'.proxies.keys = server.proxies.keys ∧ server.copy.Commits op op' server'.copy ∧
          (sent.map Prod.fst).Perm (((registered calls).erase creator).map Address.site) ∧
          ∀ message ∈ sent, message.2.edit = op'.edit ∧ message.2.creator? = some creator) := by
  refine ⟨Wave.nodup_registered calls, ?_, ?_⟩
  · intro server
    have sites : server.sites = registered calls := Wave.sites_callAll _ calls
    refine ⟨sites, ?_, ?_⟩
    · intro e refused
      change (server.integrate op).result = .error e at refused
      change server.integrate op = .fail e server
      rcases server.integrate_cases op with ⟨e', failed⟩ | ⟨op', applied, -, done⟩
      · rw [failed] at refused ⊢
        cases refused
        rfl
      · rw [done] at refused
        cases refused
    · intro op' served
      rw [← sites]
      exact Wave.integrate_commits served
  · intro server
    have sites : server.proxies.keys.Perm (registered calls) :=
      Jupiter.keys_perm_registered policy calls
    refine ⟨sites, ?_, ?_⟩
    · intro e refused
      obtain ⟨left, refusal⟩ := Outcome.exists_reason (server.integrate_cases op)
        (fun _ _ refusal => refusal.integrate_eq) refused
      obtain ⟨copy, keys, others, -⟩ := refusal.left_eq
      exact ⟨left, refusal.integrate_eq, copy, keys, others⟩
    · intro op' served
      obtain ⟨creator, proxies, server', made, known, keys, done, commits⟩ :=
        Jupiter.integrate_commits served
      have same := Jupiter.keys_integrate server op
      rw [done] at same
      exact ⟨creator, server', _, made, sites.mem_iff.mp known, done, same, commits,
        Jupiter.relays_perm (keys ▸ sites) creator op', fun _ => Jupiter.relays_edit⟩

/-- Two sites are there, and the first one has entered a letter. -/
def entering (a b : SiteId) : List (ServerCall Char) :=
  [.add a .stateBased, .add b .operationBased,
    .integrate ⟨.insert 0 'x', some ⟨a, ⟨[0, 0]⟩⟩⟩]

/-- At the same time the second site enters another one, or deletes one that is not there. -/
theorem server_commits_second_letter :
    let a : SiteId := .ofNat 1
    let b : SiteId := .ofNat 2
    let wave : Wave.Server Char := callAll (start .firstWriterWins) (entering a b)
    let jupiter : Jupiter.Server Char := callAll (start .firstWriterWins) (entering a b)
    let letter : Operation Char := ⟨.insert 0 'y', some ⟨b, ⟨[0, 0]⟩⟩⟩
    let missing : Operation Char := ⟨.delete 5, some ⟨b, ⟨[0, 0]⟩⟩⟩
    let form : Operation Char := ⟨.insert 1 'y', some ⟨b, ⟨[0, 0]⟩⟩⟩
    ((∃ server', integrate wave letter = .done form server' [(.site a, form), (.site b, form)] ∧
        wave.copy.Commits letter form server'.copy) ∧
      integrate wave missing = .fail (.positionOutOfRange 6 1) wave) ∧
    (∃ server' sent, integrate jupiter letter = .done form server' sent ∧
        (sent.map Prod.fst).Perm [.site a] ∧ jupiter.copy.Commits letter form server'.copy) ∧
      ∃ left, integrate jupiter missing = .fail (.positionOutOfRange 6 1) left ∧
        left.copy = jupiter.copy := by
  intro a b wave jupiter letter missing form
  obtain ⟨-, ⟨-, -, commitsW⟩, -, -, commitsJ⟩ :=
    server_commits .firstWriterWins (entering a b) letter
  obtain ⟨-, ⟨-, refusesW, -⟩, -, refusesJ, -⟩ :=
    server_commits .firstWriterWins (entering a b) missing
  have names : registered (entering a b) = [a, b] := by decide +kernel
  rw [names] at commitsW commitsJ
  refine ⟨⟨?_, refusesW _ (by decide +kernel)⟩, ?_, ?_⟩
  · obtain ⟨server', done, -, commits⟩ := commitsW form (by decide +kernel)
    exact ⟨server', done, commits⟩
  · obtain ⟨creator, server', sent, made, -, done, -, commits, addresses, -⟩ :=
      commitsJ form (by decide +kernel)
    obtain rfl : b = creator := Option.some.inj made
    exact ⟨server', sent, done, addresses, commits⟩
  · obtain ⟨left, failed, copy, -⟩ := refusesJ (.positionOutOfRange 6 1) (by decide +kernel)
    exact ⟨left, failed, copy⟩

end CoEdit
