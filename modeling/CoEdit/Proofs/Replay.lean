import CoEdit.Proofs.Calls
import CoEdit.Proofs.Simulation

/-!
# Replaying a history

The history of a replica is an account of its document. At a server it leads from the empty document
to the present one, overwritten values included, so that either kind of fill opens a client with the
elements of the server. At a client it leads there from what the last fill brought.
-/

namespace CoEdit

open ClientAlgorithm ServerAlgorithm

variable {α : Type}

namespace Fill

/-- The document that a client starts from: elements come without their past, and a history is
played from the beginning. -/
def base : Fill α → Document α
  | snapshot values _ => Document.empty.fill values
  | replay _ _ => .empty

/-- The history that a client starts with. -/
def history : Fill α → History α
  | snapshot _ _ => []
  | replay history _ => history

end Fill

namespace Document

variable [Element α] {d d' : Document α}

/-- Operations are no stage in the life of a document. -/
theorem lifecycle_apply {op : Operation α} (h : d.apply op = .ok d') :
    d'.lifecycle = d.lifecycle := by
  simp only [apply] at h
  split at h
  · cases h
    rfl
  · split at h <;> cases h
    rfl
  · split at h <;> cases h
    rfl
  · split at h <;> cases h
    rfl
  · simp only [bind, Except.bind, pure, Except.pure] at h
    repeat' split at h
    all_goals cases h
    rfl

theorem lifecycle_applyAll {ops : List (Operation α)} (h : d.applyAll ops = .ok d') :
    d'.lifecycle = d.lifecycle := by
  induction ops generalizing d with
  | nil =>
    cases h
    rfl
  | cons op rest ih =>
    simp only [applyAll, bind] at h
    cases first : d.apply op with
    | error e => simp [first, Except.bind] at h
    | ok mid =>
      rw [first] at h
      exact (ih h).trans (lifecycle_apply first)

end Document

namespace LocalCopy

variable [Element α] {copy copy' : LocalCopy α} {data : Fill α}

/-- No algorithm touches the stage of a document, so it is still the first one. -/
def Unstaged (copy : LocalCopy α) : Prop := copy.document.lifecycle = .uninitialized

theorem Advances.unstaged (h : copy.Advances copy') (unstaged : copy.Unstaged) :
    copy'.Unstaged := by
  cases h with
  | still document history => rwa [Unstaged, document]
  | applied done => exact (Document.lifecycle_apply (apply_eq_ok done).1).trans unstaged

theorem load_unstaged (loaded : copy.load data = .ok copy') (unstaged : copy.Unstaged) :
    copy'.Unstaged := by
  cases data with
  | snapshot values state =>
    cases loaded
    exact unstaged
  | replay history state =>
    simp only [load] at loaded
    cases replayed : Document.empty.applyAll history with
    | error e =>
      rw [replayed] at loaded
      cases loaded
    | ok document =>
      rw [replayed] at loaded
      cases loaded
      exact Document.lifecycle_applyAll replayed

/-- A loaded fill is where the history starts. -/
theorem load_replaysFrom (loaded : copy.load data = .ok copy') (unstaged : copy.Unstaged) :
    copy'.history = data.history ∧ copy'.ReplaysFrom data.base := by
  cases data with
  | snapshot values state =>
    cases loaded
    refine ⟨rfl, ?_⟩
    simp only [ReplaysFrom, Fill.base, Document.applyAll, Document.fill]
    rw [unstaged]
    rfl
  | replay history state =>
    simp only [load] at loaded
    cases replayed : Document.empty.applyAll history with
    | error e =>
      rw [replayed] at loaded
      cases loaded
    | ok document =>
      rw [replayed] at loaded
      cases loaded
      exact ⟨rfl, replayed⟩

end LocalCopy

namespace ClientAlgorithm

variable {C : Type → Type} [ClientAlgorithm C] [Element α]

/-- No fill among some calls is loaded. -/
def KeepsFill (client : C α) : List (ClientCall α) → Prop
  | [] => True
  | next :: rest =>
    (∀ data, next = .fill data → ∃ e, fill client data = .error e) ∧
      KeepsFill (call client next).state rest

/-- What the history of a client is after a fill, whatever it was called with before the fill and
whatever it is called with afterwards. -/
structure RestartsFrom (data : Fill α) (filled later : C α) : Prop where
  history : (copy filled).history = data.history
  replays : data.base.applyAll (copy later).history = .ok (copy later).document

namespace Records

variable (records : Records C α) {client client' : C α} {data : Fill α}
include records

theorem unstaged_callAll (unstaged : (copy client).Unstaged) (calls : List (ClientCall α)) :
    (copy (callAll client calls)).Unstaged := by
  induction calls generalizing client with
  | nil => exact unstaged
  | cons next rest ih =>
    refine ih ?_
    rcases records.advances client next with advances | ⟨data, -, filled⟩
    · exact advances.unstaged unstaged
    · exact LocalCopy.load_unstaged (records.of_fill filled) unstaged

theorem replaysFrom_callAll {base : Document α} (replays : (copy client).ReplaysFrom base)
    {calls : List (ClientCall α)} (keeps : KeepsFill client calls) :
    (copy (callAll client calls)).ReplaysFrom base := by
  induction calls generalizing client with
  | nil => exact replays
  | cons next rest ih =>
    obtain ⟨kept, keeps⟩ := keeps
    refine ih ?_ keeps
    rcases records.advances client next with advances | ⟨data, is_fill, filled⟩
    · exact advances.replaysFrom replays
    · obtain ⟨e, refused⟩ := kept data is_fill
      rw [refused] at filled
      cases filled

/-- The document of a client is its history played from the base of the last fill. -/
theorem restartsFrom {policy : Policy} {site : SiteId} {before after : List (ClientCall α)}
    (filled : fill (callAll (start policy site) before) data = .ok client)
    (keeps : KeepsFill client after) : RestartsFrom data client (callAll client after) := by
  have started : (copy (start policy site : C α)).Unstaged := by
    rw [records.copy_start]
    rfl
  have unstaged := records.unstaged_callAll started before
  obtain ⟨history, replays⟩ :=
    LocalCopy.load_replaysFrom (records.of_fill filled) unstaged
  exact ⟨history, records.replaysFrom_callAll replays keeps⟩

end Records

end ClientAlgorithm

namespace ServerAlgorithm

variable {S : Type → Type} [ServerAlgorithm S] [Element α]

/-- What the history of a server is good for. -/
structure Rebuilds (C : Type → Type) [ClientAlgorithm C] (server : S α) : Prop where
  replays : Document.empty.applyAll (copy server).history = .ok (copy server).document
  captured : ∀ {site mode data server'}, addSite server site mode = .ok (data, server') →
    data = (copy server).capture mode (state server)
  opens : ∀ policy site mode, ∃ client : C α,
    fill (ClientAlgorithm.start policy site) ((copy server).capture mode (state server)) =
        .ok client ∧
      (ClientAlgorithm.copy client).document.values = (copy server).document.values

/-- Clients that accept the states of a server are opened by its fills. -/
theorem Records.rebuilds {C : Type → Type} [ClientAlgorithm C] (records : Records S α)
    (clients : ClientAlgorithm.Records C α)
    (accepts : ∀ (server : S α) policy site loaded, ∃ client,
      (state server).size = (ClientAlgorithm.state (ClientAlgorithm.start policy site : C α)).size ∧
        setState (withCopy (ClientAlgorithm.start policy site : C α) loaded) (state server) =
          .ok client)
    (policy : Policy) (calls : List (ServerCall α)) :
    Rebuilds C (callAll (ServerAlgorithm.start policy : S α) calls) := by
  have replays := records.replays policy calls
  generalize callAll (ServerAlgorithm.start policy : S α) calls = server at replays
  refine ⟨replays, fun added => (records.addSite_eq added).1, fun policy site mode => ?_⟩
  obtain ⟨states, loaded, load, values, -⟩ := replays.load policy mode (state server)
  obtain ⟨client, shape, moved⟩ := accepts server policy site loaded
  rw [← clients.copy_start policy site] at load
  rw [← states] at shape moved
  have values' : (ClientAlgorithm.copy client).document.values = loaded.document.values := by
    rw [clients.copy_setState moved, clients.copy_withCopy]
  exact ⟨client, fill_eq_ok shape load moved, values'.trans values⟩

end ServerAlgorithm

theorem Wave.accepts_fill (server : Wave.Server α) (policy : Policy) (site : SiteId)
    (loaded : LocalCopy α) : ∃ client,
      (state server).size = (ClientAlgorithm.state (start policy site : Wave.Client α)).size ∧
        setState (withCopy (start policy site : Wave.Client α) loaded)
          (state server) = .ok client :=
  ⟨_, rfl, rfl⟩

theorem Jupiter.accepts_fill (server : Jupiter.Server α) (policy : Policy) (site : SiteId)
    (loaded : LocalCopy α) : ∃ client,
      (state server).size = (ClientAlgorithm.state (start policy site : Jupiter.Client α)).size ∧
        setState (withCopy (start policy site : Jupiter.Client α) loaded)
          (state server) = .ok client :=
  ⟨_, rfl, rfl⟩

variable [Element α]

/-- Whatever a server was called with, its history leads from the empty document to its document,
and a fill of either kind opens a new client with its elements. Whatever a client was called with,
its history leads to its document from the base of the last fill that it loaded. -/
theorem history_replays (policy : Policy) :
    ((∀ calls, Rebuilds Wave.Client
        (ServerAlgorithm.callAll (start policy : Wave.Server α) calls)) ∧
      ∀ calls, Rebuilds Jupiter.Client
        (ServerAlgorithm.callAll (start policy : Jupiter.Server α) calls)) ∧
    (∀ site before data client after,
      fill (ClientAlgorithm.callAll (start policy site : Wave.Client α) before) data = .ok client →
        KeepsFill client after →
          RestartsFrom data client (ClientAlgorithm.callAll client after)) ∧
    ∀ site before data client after,
      fill (ClientAlgorithm.callAll (start policy site : Jupiter.Client α) before) data =
          .ok client →
        KeepsFill client after →
          RestartsFrom data client (ClientAlgorithm.callAll client after) := by
  refine ⟨⟨fun calls => ?_, fun calls => ?_⟩, ?_, ?_⟩
  · exact Wave.Server.records.rebuilds Wave.Client.records Wave.accepts_fill policy calls
  · exact Jupiter.Server.records.rebuilds Jupiter.Client.records Jupiter.accepts_fill policy calls
  · intro site before data client after filled keeps
    exact Wave.Client.records.restartsFrom filled keeps
  · intro site before data client after filled keeps
    exact Jupiter.Client.records.restartsFrom filled keeps

/-- A site enters an entity and dates it; a message without a stamp and one from a stranger are
refused. -/
def entered (site : SiteId) (state : Nat → StateVector) : List (ServerCall Record) :=
  [.add site .stateBased,
    .integrate ⟨.insert 0 ⟨"book", .ofList [("year", .null)]⟩, some ⟨site, state 0⟩⟩,
    .integrate ⟨.noop, none⟩,
    .integrate ⟨.update 0 "book" (.ofList [("year", .int 1)]), some ⟨site, state 1⟩⟩,
    .integrate ⟨.delete 0, some ⟨.ofNat 9, state 0⟩⟩]

/-- A client dates the entity again, loads no fill of a wrong shape, and cannot delete what is not
there. -/
def redated : List (ClientCall Record) :=
  [.generate ⟨.update 0 "book" (.ofList [("year", .int 2)]), none⟩, .fill (.snapshot [] ⟨[]⟩),
    .generate ⟨.delete 5, none⟩]

/-- The number of values that were overwritten, by element. -/
def overwritten (document : Document Record) : List Nat := document.slots.map (·.undo.length)

theorem history_replays_redated :
    let a : SiteId := .ofNat 1
    let wave := ServerAlgorithm.callAll (start .firstWriterWins : Wave.Server Record)
      (entered a fun made => ⟨[made]⟩)
    let jupiter := ServerAlgorithm.callAll (start .firstWriterWins : Jupiter.Server Record)
      (entered a fun made => ⟨[made, 0]⟩)
    overwritten wave.copy.document = [1] ∧ overwritten jupiter.copy.document = [1] ∧
    (∃ data client, data = wave.copy.capture .stateBased wave.state ∧
      RestartsFrom data client (ClientAlgorithm.callAll (client : Wave.Client Record) redated) ∧
      overwritten client.copy.document = [0] ∧
      overwritten (ClientAlgorithm.callAll client redated).copy.document = [1]) ∧
    ∃ data client, data = jupiter.copy.capture .operationBased jupiter.state ∧
      RestartsFrom data client (ClientAlgorithm.callAll (client : Jupiter.Client Record) redated) ∧
      overwritten client.copy.document = [1] ∧
      overwritten (ClientAlgorithm.callAll client redated).copy.document = [2] := by
  intro a wave jupiter
  obtain ⟨-, restartsW, restartsJ⟩ := history_replays (α := Record) .firstWriterWins
  refine ⟨by decide +kernel, by decide +kernel,
    ⟨wave.copy.capture .stateBased wave.state, _, rfl,
      restartsW a redated _ _ redated rfl ?_, ?_, ?_⟩,
    ⟨jupiter.copy.capture .operationBased jupiter.state, _, rfl,
      restartsJ a redated _ _ redated rfl ?_, ?_, ?_⟩⟩
  any_goals decide +kernel
  all_goals
    refine ⟨nofun, fun data is_fill => ?_, nofun, trivial⟩
    cases is_fill
    exact ⟨_, rfl⟩

end CoEdit
