import EventTalks.Detail.Handlers
import EventTalks.Network.Request

/-! # Edits and acknowledgements

Every update that the detail screen sends is answered with the talk as the server has
stored it, and the answer is written over the record. The user goes on editing in the
meantime, so an answer can undo an edit
(`EventTalks.Detail.keystroke_overwritten`). A field of the record has what the user wrote
last in the runs in which an answer is written over it only while the user has not edited
that field since its request was sent; a date must be of whole seconds, or loses its fraction
of a second (`EventTalks.Detail.kept_of_unedited`).
-/

namespace EventTalks

open Foundation Network

/-- A body without the fraction of a second of its date. -/
def Network.Body.Talk.truncated (body : Body.Talk) : Body.Talk :=
  { body with date := body.date.map Date.truncated }

/-- The values of a response that a body has as well. -/
def Network.Response.Talk.body (shared : Response.Talk) : Body.Talk where
  title := some shared.title
  notes := shared.notes
  date := shared.date
  speakerName := shared.speakerName

theorem Talk.body_fromShared (initial : Talk.Initial) (shared : Response.Talk) :
    (Talk.fromShared initial shared).body = shared.body := by
  rw [Talk.fromShared_eq]
  rfl

/-- The completion of `TalksUpdater.update(talk:)`. -/
def TalksUpdater.updateCompletion {ε : Type} (initial : Talk.Initial) (commits : Bool)
    (store : TalkStore) : Except (EventsError ε) Response.Talk → TalkStore
  | .ok talk => if commits then store.upsert (Talk.fromShared initial talk) else store
  | .error _ => store

end EventTalks

namespace EventTalks.Detail

open Foundation Network

/-- A request under way, with what the user had last written when it was sent. -/
structure Put where
  request : Router
  written : Talk

/-- An answer under way, with what the user had last written when its request was sent. -/
structure Acknowledgement where
  result : Except (EventsError Unit) Response.Talk
  written : Talk

/-- The screen, what is under way between it and the server, and the talk as the user's
edits last wrote it. -/
structure Editing where
  screen : Screen
  puts : List Put := []
  acknowledgements : List Acknowledgement := []
  written : Talk

/-- A result of a request: of an update the talk as stored, with the values of the body,
the date in whole seconds, under the same identifier; or an error. -/
def Responds : Router → Except (EventsError Unit) Response.Talk → Prop
  | .updateTalk id body, .ok shared =>
      (∃ identifier, shared.id = some identifier ∧ UUID.ofString? identifier = some id) ∧
        shared.body = body.truncated
  | _, .ok _ => False
  | _, .error _ => True

namespace Editing

/-- What can happen: an event of a control, the server answers a request, the updater
handles an answer. -/
inductive Event where
  | control (event : Detail.Event)
  | serve (index : Nat) (result : Except (EventsError Unit) Response.Talk)
  | handle (index : Nat) (initial : Talk.Initial) (commits : Bool)

/-- A handler has run: what it sent is under way, with the values it was writing. -/
def follow (strings : L10n) (event : Detail.Event) (editing : Editing) (screen : Screen) :
    Editing where
  screen
  puts := editing.puts ++ (screen.requests.drop editing.screen.requests.length).map
    fun request => ⟨request, change strings editing.screen event editing.written⟩
  acknowledgements := editing.acknowledgements
  written := edited strings editing.screen event editing.written

def serve (index : Nat) (result : Except (EventsError Unit) Response.Talk) (editing : Editing)
    (put : Put) : Editing :=
  { editing with
    puts := editing.puts.eraseIdx index
    acknowledgements := editing.acknowledgements ++ [⟨result, put.written⟩] }

def handle (index : Nat) (initial : Talk.Initial) (commits : Bool) (editing : Editing)
    (acknowledgement : Acknowledgement) : Editing :=
  { editing with
    screen := { editing.screen with
      store := TalksUpdater.updateCompletion initial commits editing.screen.store
        acknowledgement.result }
    acknowledgements := editing.acknowledgements.eraseIdx index }

end Editing

/-- The screen and the server under events in any order, as long as the talk is left in
the store. -/
def editing (strings : L10n) : System Editing Editing.Event where
  step before event after :=
    match event with
    | .control event => Leaves before.screen event ∧
        ∃ screen, before.screen.respond strings event = .ok screen ∧
          after = before.follow strings event screen
    | .serve index result => ∃ put, before.puts[index]? = some put ∧
        Responds put.request result ∧ after = before.serve index result put
    | .handle index initial commits => ∃ acknowledgement,
        before.acknowledgements[index]? = some acknowledgement ∧
          after = before.handle index initial commits acknowledgement

/-- The fields of a record that the user edits. -/
inductive Field where
  | name
  | speakerName
  | dueDate
  | notes
deriving DecidableEq

namespace Field

def Value : Field → Type
  | .name | .speakerName | .notes => Option String
  | .dueDate => Option Date

instance decEqValue : (field : Field) → DecidableEq field.Value
  | .name | .speakerName | .notes => inferInstanceAs (DecidableEq (Option String))
  | .dueDate => inferInstanceAs (DecidableEq (Option Date))

/-- The value of a field, in a body. -/
def value : (field : Field) → Body.Talk → field.Value
  | .name, body => body.title
  | .speakerName, body => body.speakerName
  | .dueDate, body => body.date
  | .notes, body => body.notes

/-- The value of a field as it arrives: a date without its fraction of a second. -/
def arrived : (field : Field) → field.Value → field.Value
  | .name, text | .speakerName, text | .notes, text => text
  | .dueDate, (date : Option Date) => date.map Date.truncated

/-- A value that arrives as it was sent: of a date, one of whole seconds. -/
def Whole (field : Field) (value : field.Value) : Prop := field.arrived value = value

@[simp] theorem arrived_arrived (field : Field) (value : field.Value) :
    field.arrived (field.arrived value) = field.arrived value := by
  cases field with
  | name | speakerName | notes => rfl
  | dueDate =>
      have twice (date : Option Date) :
          (date.map Date.truncated).map Date.truncated = date.map Date.truncated := by
        simp [Function.comp_def]
      exact twice value

@[simp] theorem value_truncated (field : Field) (body : Body.Talk) :
    field.value body.truncated = field.arrived (field.value body) := by
  cases field with
  | name | speakerName | dueDate | notes => rfl

/-- **An edit sets a field, or leaves it.** -/
theorem value_change (field : Field) (strings : L10n) (screen : Screen) (event : Event) :
    (∀ talk, field.value (change strings screen event talk).body = field.value talk.body) ∨
      ∃ value, ∀ talk, field.value (change strings screen event talk).body = value := by
  unfold change
  split
  · split
    · unfold Screen.typed
      split
      · cases field with
        | name => exact Or.inr ⟨_, fun talk => rfl⟩
        | speakerName | dueDate | notes => exact Or.inl fun talk => rfl
      · cases field with
        | speakerName => exact Or.inr ⟨_, fun talk => rfl⟩
        | name | dueDate | notes => exact Or.inl fun talk => rfl
    · exact Or.inl fun talk => rfl
  · cases field with
    | dueDate => exact Or.inr ⟨_, fun talk => rfl⟩
    | name | speakerName | notes => exact Or.inl fun talk => rfl
  · cases field with
    | dueDate => exact Or.inr ⟨_, fun talk => rfl⟩
    | name | speakerName | notes => exact Or.inl fun talk => rfl
  · cases field with
    | notes => exact Or.inr ⟨_, fun talk => rfl⟩
    | name | speakerName | dueDate => exact Or.inl fun talk => rfl
  · exact Or.inl fun talk => rfl

/-- Edits write the same into talks that have the same value, however that is read. -/
theorem same_change {β : Type} {field : Field} (read : field.Value → β) (strings : L10n)
    (screen : Screen) (event : Event) {talk written : Talk}
    (same : read (field.value talk.body) = read (field.value written.body)) :
    read (field.value (change strings screen event talk).body) =
      read (field.value (change strings screen event written).body) := by
  rcases field.value_change strings screen event with leaves | ⟨value, sets⟩
  · rw [leaves, leaves, same]
  · rw [sets, sets]

end Field

/-- A field of the record has what the user's edits wrote last. -/
def Kept (field : Field) (state : Editing) : Prop :=
  ∃ talk, state.screen.read? = .ok (some talk) ∧
    field.value talk.body = field.value state.written.body

/-- A field of the record has what the user's edits wrote last, up to the fraction of a
second. -/
def KeptToTheSecond (field : Field) (state : Editing) : Prop :=
  ∃ talk, state.screen.read? = .ok (some talk) ∧
    field.arrived (field.value talk.body) = field.arrived (field.value state.written.body)

/-- An answer that is written over the record while the user has not edited a field since the
request was sent. -/
def Unedited (field : Field) (state : Editing) : Editing.Event → Prop
  | .handle index _ commits => ∀ acknowledgement shared,
      state.acknowledgements[index]? = some acknowledgement → acknowledgement.result = .ok shared →
        commits = true →
          field.value acknowledgement.written.body = field.value state.written.body
  | .control _ | .serve _ _ => True

/-- An answer that is written over the record has a value that arrived as it was sent. -/
def Exact (field : Field) (state : Editing) : Editing.Event → Prop
  | .handle index _ commits => ∀ acknowledgement shared,
      state.acknowledgements[index]? = some acknowledgement → acknowledgement.result = .ok shared →
        commits = true → field.Whole (field.value acknowledgement.written.body)
  | .control _ | .serve _ _ => True

/-! ## What the record, the requests and the answers have -/

section Faithful

variable {β : Type} {field : Field} (read : field.Value → β)

/-- As it is read, a field has what the user had last written: in the record, in the requests,
and in the answers but for what is lost on the way. -/
structure Faithful (state : Editing) : Prop where
  record : ∃ accessor talk, Shows state.screen accessor talk ∧
    read (field.value talk.body) = read (field.value state.written.body)
  puts : ∀ put ∈ state.puts, ∃ id body, put.request = .updateTalk id body ∧
    read (field.value body) = read (field.value put.written.body)
  acknowledgements : ∀ acknowledgement ∈ state.acknowledgements, ∀ shared,
    acknowledgement.result = .ok shared →
      read (field.value shared.body) =
        read (field.arrived (field.value acknowledgement.written.body))

variable {read} {state : Editing}

/-- **A handler keeps the record, and sends what the user has written.** -/
theorem Faithful.follow (faithful : Faithful read state) {strings : L10n} {event : Event}
    (leaves : Leaves state.screen event) {screen : Screen}
    (responded : state.screen.respond strings event = .ok screen) :
    Faithful read (state.follow strings event screen) := by
  obtain ⟨accessor, talk, shows, same⟩ := faithful.record
  have handled := shows.respond strings leaves
  rw [responded] at handled
  obtain ⟨uuids, sent⟩ := handled.requests
  have written := Field.same_change read strings state.screen event same
  refine ⟨⟨accessor, _, handled.shows, ?_⟩, fun put member => ?_, faithful.acknowledgements⟩
  · rw [Editing.follow, edited, edited]
    by_cases commits : event.commits = true
    · simp only [if_pos commits]
      exact written
    · simp only [if_neg commits]
      exact same
  · rcases List.mem_append.mp member with earlier | later
    · exact faithful.puts put earlier
    · rw [sent, List.drop_left] at later
      obtain ⟨_, inside, rfl⟩ := List.mem_map.mp later
      obtain ⟨uuid, _, rfl⟩ := List.mem_map.mp inside
      exact ⟨uuid, _, rfl, written⟩

/-- An answer has what was sent, but for what is lost on the way. -/
theorem Faithful.serve (faithful : Faithful read state)
    (loses : ∀ first second, read first = read second →
      read (field.arrived first) = read (field.arrived second)) {index : Nat}
    {result : Except (EventsError Unit) Response.Talk} {put : Put}
    (pending : state.puts[index]? = some put) (answers : Responds put.request result) :
    Faithful read (state.serve index result put) := by
  refine ⟨faithful.record, fun other member =>
    faithful.puts other (List.mem_of_mem_eraseIdx member), fun acknowledgement member => ?_⟩
  rcases List.mem_append.mp member with earlier | last
  · exact faithful.acknowledgements acknowledgement earlier
  · obtain rfl := List.mem_singleton.mp last
    intro shared responded
    obtain rfl : result = .ok shared := responded
    obtain ⟨id, body, request, same⟩ := faithful.puts put (List.mem_of_getElem? pending)
    rw [request] at answers
    rw [answers.2, Field.value_truncated]
    exact loses _ _ same

/-- An answer that is written over the record writes what the record has. -/
theorem Faithful.handle (faithful : Faithful read state) {index : Nat} {initial : Talk.Initial}
    {commits : Bool} {acknowledgement : Acknowledgement}
    (arrived : state.acknowledgements[index]? = some acknowledgement)
    (unedited : ∀ shared, acknowledgement.result = .ok shared → commits = true →
      read (field.arrived (field.value acknowledgement.written.body)) =
        read (field.value state.written.body)) :
    Faithful read (state.handle index initial commits acknowledgement) := by
  obtain ⟨accessor, talk, shows, same⟩ := faithful.record
  refine ⟨?_, faithful.puts, fun other member =>
    faithful.acknowledgements other (List.mem_of_mem_eraseIdx member)⟩
  have answered := faithful.acknowledgements _ (List.mem_of_getElem? arrived)
  obtain ⟨result, written⟩ := acknowledgement
  cases result with
  | error underlying => exact ⟨accessor, talk, shows.congr rfl rfl, same⟩
  | ok shared =>
      cases commits with
      | false => exact ⟨accessor, talk, shows.congr rfl rfl, same⟩
      | true =>
          let stored := Talk.fromShared initial shared
          have values : read (field.value stored.body) = read (field.value state.written.body) := by
            rw [Talk.body_fromShared, answered shared rfl]
            exact unedited shared rfl rfl
          by_cases here : stored.identifier = talk.identifier
          · exact ⟨accessor, stored, (shows.upsert here).congr rfl rfl, values⟩
          · exact ⟨accessor, talk, (shows.upsert_other here).congr rfl rfl, same⟩

variable {strings : L10n} {store : TalkStore} {identifier : String} {screen : Screen} {talk : Talk}

/-- The field has what the user last wrote, as it is read, when what is written over the record
is read as that. -/
theorem Faithful.of_run (made : shown strings store identifier = .ok screen)
    (stored : store.get? identifier = some talk)
    (loses : ∀ first second, read first = read second →
      read (field.arrived first) = read (field.arrived second))
    {allowed : Editing → Editing.Event → Prop}
    (unedited : ∀ {state index initial commits acknowledgement shared},
      allowed state (.handle index initial commits) →
        state.acknowledgements[index]? = some acknowledgement →
          acknowledgement.result = .ok shared → commits = true →
            read (field.arrived (field.value acknowledgement.written.body)) =
              read (field.value state.written.body))
    {events : List Editing.Event} {after : Editing}
    (run : ((editing strings).restrict allowed).Run { screen, written := talk } events after) :
    Faithful read after := by
  have initially : Faithful read { screen, written := talk } := by
    obtain ⟨other, found, shows⟩ := shows_shown made
    obtain rfl := Option.some.inj (stored.symm.trans found)
    exact ⟨⟨_, _, shows, rfl⟩, by simp, by simp⟩
  refine run.preserves (Faithful read) (fun state event next faithful stepped => ?_) initially
  obtain ⟨admitted, step⟩ := stepped
  cases event with
  | control event =>
      obtain ⟨leaves, screen, responded, rfl⟩ := step
      exact faithful.follow leaves responded
  | serve index result =>
      obtain ⟨put, pending, answers, rfl⟩ := step
      exact faithful.serve loses pending answers
  | handle index initial commits =>
      obtain ⟨acknowledgement, arrived, rfl⟩ := step
      exact faithful.handle arrived fun shared => unedited admitted arrived

end Faithful

/-- **No edit is overwritten** by an answer that is written over the record while the field has
not been edited since, whatever happens to the other fields: a field has what was last written
up to the fraction of a second of a date, and exactly that when every date written over it is of
whole seconds. -/
theorem kept_of_unedited {strings : L10n} {store : TalkStore} {identifier : String}
    {screen : Screen} {talk : Talk} (made : shown strings store identifier = .ok screen)
    (stored : store.get? identifier = some talk) (field : Field) (events : List Editing.Event)
    (after : Editing) :
    (((editing strings).restrict (Unedited field)).Run { screen, written := talk } events after →
      KeptToTheSecond field after) ∧
    (((editing strings).restrict fun state event =>
        Unedited field state event ∧ Exact field state event).Run
          { screen, written := talk } events after → Kept field after) := by
  constructor
  · intro run
    have faithful : Faithful field.arrived after := by
      apply Faithful.of_run made stored _ _ run
      · intro first second same
        rw [same]
      · intro state index initial commits acknowledgement shared unedited arrived answered committed
        rw [Field.arrived_arrived, unedited acknowledgement shared arrived answered committed]
    obtain ⟨accessor, record, shows, same⟩ := faithful.record
    exact ⟨record, shows.read?, same⟩
  · intro run
    have faithful : @Faithful field.Value field id after := by
      apply Faithful.of_run made stored _ _ run
      · intro first second same
        exact congrArg field.arrived same
      · intro state index initial commits acknowledgement shared admitted arrived answered committed
        obtain ⟨unedited, whole⟩ := admitted
        exact (whole acknowledgement shared arrived answered committed).trans
          (unedited acknowledgement shared arrived answered committed)
    obtain ⟨accessor, record, shows, same⟩ := faithful.record
    exact ⟨record, shows.read?, same⟩

/-- A talk of the store, scheduled at the epoch, and the screen that shows it. -/
def scheduledTalk : Talk := { Talk.named default "Vapor" with dueDate := some ⟨0⟩ }

def scheduledStore : TalkStore := ⟨[scheduledTalk], by decide⟩

def scheduledScreen : Screen where
  store := scheduledStore
  talk := some { identifier := UUID.uuidString default }
  updater := some default
  title := some "Vapor"
  sections := sectionsOf L10n.base scheduledTalk
  isViewLoaded := true

theorem shown_scheduled :
    shown L10n.base scheduledStore (UUID.uuidString default) = .ok scheduledScreen := rfl

/-- The server's answer with a title. -/
def answer (title : String) : Except (EventsError Unit) Response.Talk :=
  .ok { id := UUID.uuidString default, title, date := some ⟨0⟩ }

theorem responds_answer {body : Body.Talk} {title : String}
    (stored : body.truncated = { title := some title, date := some ⟨0⟩ }) :
    Responds (.updateTalk default body) (answer title) :=
  ⟨⟨_, rfl, UUID.ofString?_uuidString _⟩, stored.symm⟩

/-- A title is typed and sent, and a speaker while its answer is under way: the answer undoes
the speaker, and the title is kept. -/
theorem kept_of_unedited_typed :
    ∃ after, (editing L10n.base).Run { screen := scheduledScreen, written := scheduledTalk }
        [.control (.editingChanged (some ⟨0, 0⟩) (some "a") true),
          .control (.didEndEditing (some ⟨0, 0⟩) (some "a")),
          .control (.editingChanged (some ⟨1, 0⟩) (some "b") true),
          .serve 0 (answer "a"), .handle 0 default true] after ∧
      after.written.name = some "a" ∧ Kept .name after ∧ ¬ Kept .speakerName after := by
  obtain ⟨after, run, title, lost⟩ : ∃ after,
      ((editing L10n.base).restrict fun state event =>
        Unedited .name state event ∧ Exact .name state event).Run
          { screen := scheduledScreen, written := scheduledTalk }
        [.control (.editingChanged (some ⟨0, 0⟩) (some "a") true),
          .control (.didEndEditing (some ⟨0, 0⟩) (some "a")),
          .control (.editingChanged (some ⟨1, 0⟩) (some "b") true),
          .serve 0 (answer "a"), .handle 0 default true] after ∧
        after.written.name = some "a" ∧ ¬ Kept .speakerName after := by
    refine ⟨_, .cons ⟨⟨trivial, trivial⟩, trivial, _, rfl, rfl⟩
      (.cons ⟨⟨trivial, trivial⟩, trivial, _, rfl, rfl⟩
        (.cons ⟨⟨trivial, trivial⟩, trivial, _, rfl, rfl⟩
          (.cons ⟨⟨trivial, trivial⟩, _, rfl, responds_answer rfl, rfl⟩
            (.cons ⟨⟨?_, fun _ _ _ _ _ => rfl⟩, _, rfl, rfl⟩ (.nil _))))), rfl, ?_⟩
    · intro acknowledgement shared arrived answered committed
      obtain rfl := Option.some.inj arrived
      rfl
    · intro kept
      obtain ⟨talk, read, same⟩ := kept
      obtain rfl := Option.some.inj (Except.ok.inj read)
      exact absurd same (by decide)
  have kept := (kept_of_unedited shown_scheduled rfl .name _ _).2 run
  exact ⟨after, run.of_restrict, title, kept, lost⟩

/-- **An answer undoes an edit.** A keystroke after the update was sent is lost when its
answer is handled, and an answer takes the fraction of a second from a date even when
nothing was edited since. -/
theorem keystroke_overwritten :
    shown L10n.base scheduledStore (UUID.uuidString default) = .ok scheduledScreen ∧
      (∃ after, (editing L10n.base).Run { screen := scheduledScreen, written := scheduledTalk }
          [.control (.editingChanged (some ⟨0, 0⟩) (some "a") true),
            .control (.didEndEditing (some ⟨0, 0⟩) (some "a")),
            .control (.editingChanged (some ⟨0, 0⟩) (some "ab") true),
            .serve 0 (answer "a"), .handle 0 default true] after ∧ ¬ Kept .name after) ∧
      ∃ after, (editing L10n.base).Run { screen := scheduledScreen, written := scheduledTalk }
          [.control (.datePickerChanged (some ⟨2, 1⟩) ⟨1⟩ true),
            .serve 0 (answer "Vapor"), .handle 0 default true] after ∧ ¬ Kept .dueDate after := by
  refine ⟨shown_scheduled, ⟨_, .cons ⟨trivial, _, rfl, rfl⟩ (.cons ⟨trivial, _, rfl, rfl⟩
    (.cons ⟨trivial, _, rfl, rfl⟩ (.cons ⟨_, rfl, responds_answer rfl, rfl⟩
      (.cons ⟨_, rfl, rfl⟩ (.nil _))))), ?_⟩, _, .cons ⟨trivial, _, rfl, rfl⟩
    (.cons ⟨_, rfl, responds_answer rfl, rfl⟩ (.cons ⟨_, rfl, rfl⟩ (.nil _))), ?_⟩
  · intro kept
    obtain ⟨talk, read, same⟩ := kept
    obtain rfl := Option.some.inj (Except.ok.inj read)
    exact absurd same (by decide)
  · intro kept
    obtain ⟨talk, read, same⟩ := kept
    obtain rfl := Option.some.inj (Except.ok.inj read)
    exact absurd same (by decide)

end EventTalks.Detail
