import EventTalks.Network.Router
import EventTalks.Network.Request
import EventTalks.Foundation.Run
import EventTalks.Foundation.Calendar

/-! # Creating talks

`TalksFetcher.create(title:)` posts a title and stores a talk each time its
completion is called. The handler of the request calls the completion twice when
the session reports an error, so calls and new talks correspond exactly in the
runs in which no callback carries an error
(`EventTalks.TalksFetcher.create_oneEach_iff`).
-/

namespace EventTalks.TalksFetcher

open Foundation Network

variable {ε : Type}

/-- What becomes of a call of `create(title:)`. -/
inductive Outcome (ε : Type) where
  | route (underlying : ε)
  | callback (data : Option Data) (error : Option ε)

/-- The talk a call's outcome brings from the server, if it succeeds. -/
def Outcome.talk? (iso : ISO8601) : Outcome ε → Option Response.Talk
  | .callback (some data) none => (data.decode (Response.Talk.decode iso)).toOption
  | _ => none

/-- The talk that one call of the completion adds. -/
def created (title : String) (initial : Talk.Initial) :
    Except (EventsError ε) Response.Talk → Talk
  | .ok talk => Talk.fromShared initial talk
  | .error _ => Talk.named initial title

/-- The completion of `create(title:)`. -/
def createCompletion (title : String) (initial : Talk.Initial) (store : TalkStore) :
    Except (EventsError ε) Response.Talk → Option TalkStore
  | .ok talk => some (store.upsert (Talk.fromShared initial talk))
  | .error _ => Talk.add initial title store

/-- The completion called on one result after the other. -/
def createCompletions (title : String) (initials : Nat → Talk.Initial) (store : TalkStore) :
    List (Except (EventsError ε) Response.Talk) → Option TalkStore
  | [] => some store
  | result :: rest => do
      let store ← createCompletion title (initials 0) store result
      createCompletions title (fun index => initials (index + 1)) store rest

/-- The talks that the completion adds, one for each result. -/
def createdTalks (title : String) (initials : Nat → Talk.Initial)
    (results : List (Except (EventsError ε) Response.Talk)) : List Talk :=
  results.mapIdx fun index result => created title (initials index) result

/-- The identifiers of new talks differ from each other and from the stored ones. -/
def Fresh (store : TalkStore) (talks : List Talk) : Prop :=
  (store.keys ++ talks.map Talk.identifier).Nodup

instance (store : TalkStore) (talks : List Talk) : Decidable (Fresh store talks) :=
  inferInstanceAs (Decidable (List.Nodup _))

theorem createCompletion_of_fresh {title : String} {initial : Talk.Initial} {store : TalkStore}
    {result : Except (EventsError ε) Response.Talk}
    (fresh : (created title initial result).identifier ∉ store.keys) :
    createCompletion title initial store result =
      some (store.upsert (created title initial result)) := by
  cases result with
  | ok talk => rfl
  | error underlying =>
      simp only [created] at fresh
      simp only [createCompletion, created, Talk.add, if_neg fresh]

/-- **Each completion call adds its talk** at the end of the store. -/
theorem createCompletions_of_fresh {title : String} {initials : Nat → Talk.Initial}
    {store : TalkStore} {results : List (Except (EventsError ε) Response.Talk)}
    (fresh : Fresh store (createdTalks title initials results)) :
    ∃ after, createCompletions title initials store results = some after ∧
      after.rows = store.rows ++ createdTalks title initials results := by
  induction results generalizing initials store with
  | nil => exact ⟨store, rfl, by simp [createdTalks]⟩
  | cons result rest ih =>
      have split : createdTalks title initials (result :: rest) =
          created title (initials 0) result ::
            createdTalks title (fun index => initials (index + 1)) rest := by
        simp [createdTalks, List.mapIdx_cons]
      rw [split, Fresh, List.map_cons, List.append_cons] at fresh
      have absent : (created title (initials 0) result).identifier ∉ store.keys := by
        have distinct := (List.nodup_append.mp fresh).1
        rw [List.nodup_append] at distinct
        exact fun member => distinct.2.2 _ member _ (List.mem_singleton_self _) rfl
      have rows := store.rows_upsert_of_not_mem _ absent
      have later : Fresh (store.upsert (created title (initials 0) result))
          (createdTalks title (fun index => initials (index + 1)) rest) := by
        rw [Fresh, KeyedTable.keys, rows, List.map_append]
        exact fresh
      obtain ⟨after, completed, extended⟩ := ih later
      refine ⟨after, ?_, ?_⟩
      · rw [createCompletions, createCompletion_of_fresh absent]
        exact completed
      · rw [extended, rows, split, List.append_assoc]
        rfl

/-- A call of `create(title:)` that has come to its end. -/
structure Call (ε : Type) where
  title : String
  outcome : Outcome ε

/-- The results that a finished call handed to its completion. -/
def Call.results (iso : ISO8601) (call : Call ε) :
    List (Except (EventsError ε) Response.Talk) :=
  match call.outcome with
  | .route underlying => startCompletions (.error underlying)
  | .callback data error => taskCompletions (Response.Talk.decode iso) data error

/-- The store, the titles of the calls whose callback is outstanding, and the calls
that have come to their end. -/
structure Session (ε : Type) where
  store : TalkStore
  running : List String := []
  finished : List (Call ε) := []

/-- A call of `create(title:)`, with the request it builds, or the callback of an
outstanding call. -/
inductive Event (ε : Type) where
  | create (title : String) (request : Except ε URLRequest) (initials : Nat → Talk.Initial)
  | callback (index : Nat) (data : Option Data) (error : Option ε)
      (initials : Nat → Talk.Initial)

/-- The error that a callback carries. -/
def Event.error : Event ε → Option ε
  | .create _ _ _ => none
  | .callback _ _ error _ => error

/-- The title of a call. -/
def Event.title? : Event ε → Option String
  | .create title _ _ => some title
  | .callback _ _ _ _ => none

/-- The titles of all calls. -/
def titles (events : List (Event ε)) : List String := events.filterMap Event.title?

namespace Session

/-- A call comes to its end: its completion runs on every result. -/
def finish (iso : ISO8601) (initials : Nat → Talk.Initial) (session : Session ε)
    (call : Call ε) : Option (Session ε) := do
  let store ← createCompletions call.title initials session.store (call.results iso)
  return { session with store, finished := session.finished ++ [call] }

/-- What an event does to the session. -/
def next (iso : ISO8601) (session : Session ε) : Event ε → Option (Session ε)
  | .create title (.ok _) _ => some { session with running := session.running ++ [title] }
  | .create title (.error underlying) initials =>
      session.finish iso initials ⟨title, .route underlying⟩
  | .callback index data error initials =>
      session.running[index]?.bind fun title =>
        { session with running := session.running.eraseIdx index }.finish iso initials
          ⟨title, .callback data error⟩

/-- The talks that an event adds. -/
def news (iso : ISO8601) (session : Session ε) : Event ε → List Talk
  | .create _ (.ok _) _ => []
  | .create title (.error underlying) initials =>
      createdTalks title initials (Call.results iso ⟨title, .route underlying⟩)
  | .callback index data error initials =>
      session.running[index]?.elim [] fun title =>
        createdTalks title initials (Call.results iso ⟨title, .callback data error⟩)

end Session

/-- Sessions in which every new talk has a new identifier. -/
def createSystem (iso : ISO8601) : System (Session ε) (Event ε) where
  step before event after :=
    Fresh before.store (before.news iso event) ∧ before.next iso event = some after

/-- A talk is the one that a call should leave: the server's on success, a local one
named after the title on failure. -/
def CreatedBy (iso : ISO8601) (call : Call ε) (talk : Talk) : Prop :=
  ∃ initial, talk = match call.outcome.talk? iso with
    | some shared => Talk.fromShared initial shared
    | none => Talk.named initial call.title

/-- Between two sessions the store gained one talk for each call, and every earlier
talk is as it was. -/
def OneEach (iso : ISO8601) (before : Session ε) (events : List (Event ε)) (after : Session ε) :
    Prop :=
  ∃ news, after.store.rows = before.store.rows ++ news ∧
    (after.finished.map Call.title).Perm (titles events) ∧
    List.Forall₂ (CreatedBy iso) after.finished news

/-- One more when a session error is reported. -/
def Event.repeats (event : Event ε) : Nat := if event.error.isSome then 1 else 0

theorem Call.length_results (iso : ISO8601) (call : Call ε) :
    (call.results iso).length = match call.outcome with
      | .route _ => 1
      | .callback _ error => (if error.isSome then 1 else 0) + 1 := by
  unfold Call.results
  cases call.outcome with
  | route underlying => rfl
  | callback data error => exact length_taskCompletions _ _ _

/-- Without an error of the session a finished call adds its one talk. -/
theorem createdBy_of_error_eq_none (iso : ISO8601) (title : String) (data : Option Data)
    (initials : Nat → Talk.Initial) :
    List.Forall₂ (CreatedBy iso) [(⟨title, .callback data none⟩ : Call ε)]
      (createdTalks title initials (Call.results iso (⟨title, .callback data none⟩ : Call ε))) := by
  cases data with
  | none => exact .cons ⟨initials 0, rfl⟩ .nil
  | some data =>
      simp only [Call.results, taskCompletions, reportCompletions, List.nil_append, createdTalks]
      cases decoded : data.decode (Response.Talk.decode iso) with
      | ok shared =>
          refine .cons ⟨initials 0, ?_⟩ .nil
          simp only [Outcome.talk?, decoded]
          rfl
      | error underlying =>
          refine .cons ⟨initials 0, ?_⟩ .nil
          simp only [Outcome.talk?, decoded]
          rfl

namespace Session

/-- A call that comes to its end appends its talks to the store. -/
theorem finish_of_fresh {iso : ISO8601} {initials : Nat → Talk.Initial} {session after : Session ε}
    {call : Call ε}
    (fresh : Fresh session.store (createdTalks call.title initials (call.results iso)))
    (finished : session.finish iso initials call = some after) :
    after.store.rows =
        session.store.rows ++ createdTalks call.title initials (call.results iso) ∧
      after.finished = session.finished ++ [call] ∧ after.running = session.running := by
  obtain ⟨store, completed, extended⟩ := createCompletions_of_fresh fresh
  rw [finish, completed] at finished
  obtain rfl := Option.some.inj finished
  exact ⟨extended, rfl, rfl⟩

/-- **What a step can do.** It appends its talks and the calls it ends, one talk for
each such call and one more when a session error is reported; calls move from the
outstanding ones to the ended ones. -/
theorem step_spec {iso : ISO8601} {before after : Session ε} {event : Event ε}
    (step : (createSystem iso).step before event after) :
    ∃ news ended, after.store.rows = before.store.rows ++ news ∧
      after.finished = before.finished ++ ended ∧
      news.length = ended.length + event.repeats ∧
      (event.error = none → List.Forall₂ (CreatedBy iso) ended news) ∧
      (after.running ++ ended.map Call.title).Perm
        (before.running ++ event.title?.toList) := by
  obtain ⟨fresh, stepped⟩ := step
  cases event with
  | create title request initials =>
      cases request with
      | ok request =>
          obtain rfl := Option.some.inj stepped
          exact ⟨[], [], by simp, by simp, rfl, fun _ => .nil, by simp [Event.title?]⟩
      | error underlying =>
          obtain ⟨rows, finished, running⟩ := finish_of_fresh fresh stepped
          exact ⟨_, _, rows, finished, rfl, fun _ => .cons ⟨initials 0, rfl⟩ .nil,
            by simp [running, Event.title?]⟩
  | callback index data error initials =>
      cases called : before.running[index]? with
      | none =>
          rw [next, called] at stepped
          cases stepped
      | some title =>
          rw [next, called] at stepped
          rw [news, called] at fresh
          obtain ⟨rows, finished, running⟩ := finish_of_fresh fresh stepped
          refine ⟨_, _, rows, finished, ?_, ?_, ?_⟩
          · rw [createdTalks, List.length_mapIdx, Call.length_results, Nat.add_comm]
            rfl
          · intro silent
            obtain rfl : error = none := silent
            exact createdBy_of_error_eq_none iso title data initials
          · obtain ⟨inside, rfl⟩ := List.getElem?_eq_some_iff.mp called
            rw [running]
            refine (List.perm_append_comm).trans ?_
            simpa [Event.title?] using List.getElem_cons_eraseIdx_perm inside

/-- **What a run can do**: the same as its steps, added up. -/
theorem run_spec {iso : ISO8601} {before after : Session ε} {events : List (Event ε)}
    (run : (createSystem iso).Run before events after) :
    ∃ news ended, after.store.rows = before.store.rows ++ news ∧
      after.finished = before.finished ++ ended ∧
      news.length = ended.length + (events.map Event.repeats).sum ∧
      ((∀ event ∈ events, event.error = none) → List.Forall₂ (CreatedBy iso) ended news) ∧
      (after.running ++ ended.map Call.title).Perm (before.running ++ titles events) := by
  induction run with
  | nil state => exact ⟨[], [], by simp, by simp, rfl, fun _ => .nil, by simp [titles]⟩
  | @cons before middle after event events step _ ih =>
      obtain ⟨first, begun, rows, finished, length, created, moved⟩ := step_spec step
      obtain ⟨later, ended, laterRows, laterFinished, laterLength, laterCreated, laterMoved⟩ := ih
      refine ⟨first ++ later, begun ++ ended, ?_, ?_, ?_, ?_, ?_⟩
      · rw [laterRows, rows, List.append_assoc]
      · rw [laterFinished, finished, List.append_assoc]
      · rw [List.length_append, List.length_append, length, laterLength, List.map_cons,
          List.sum_cons]
        omega
      · intro silent
        exact List.rel_append (created (silent event List.mem_cons_self))
          (laterCreated fun other member => silent other (List.mem_cons_of_mem _ member))
      · have reorder : (after.running ++ (begun ++ ended).map Call.title).Perm
            ((after.running ++ ended.map Call.title) ++ begun.map Call.title) := by
          rw [List.map_append, List.append_assoc]
          exact List.perm_append_comm.append_left _
        have inner : ((middle.running ++ titles events) ++ begun.map Call.title).Perm
            ((middle.running ++ begun.map Call.title) ++ titles events) := by
          rw [List.append_assoc, List.append_assoc]
          exact List.perm_append_comm.append_left _
        refine reorder.trans ((laterMoved.append_right _).trans (inner.trans ?_))
        refine (moved.append_right _).trans (List.Perm.of_eq ?_)
        rw [List.append_assoc, titles, titles, List.filterMap_cons]
        cases event.title? <;> rfl

end Session

/-- **Calls and new talks.** Once every call of a run has come to its end, the store
has gained exactly one talk for each call, and kept the others as they were, if and
only if no callback carried an error. -/
theorem create_oneEach_iff (iso : ISO8601) {store : TalkStore} {events : List (Event ε)}
    {after : Session ε} (run : (createSystem iso).Run { store } events after)
    (settled : after.running = []) :
    OneEach iso { store } events after ↔ ∀ event ∈ events, event.error = none := by
  obtain ⟨news, ended, rows, finished, length, created, moved⟩ := Session.run_spec run
  rw [settled] at moved
  simp only [List.nil_append] at finished moved
  constructor
  · rintro ⟨others, otherRows, _, each⟩ event member
    have same : news = others := List.append_cancel_left (rows.symm.trans otherRows)
    have equal := each.length_eq
    rw [finished, ← same, length] at equal
    have none_repeats : (events.map Event.repeats).sum = 0 := by omega
    have silent : event.repeats = 0 :=
      List.sum_eq_zero_iff_forall_eq_nat.mp none_repeats _ (List.mem_map_of_mem member)
    cases carried : event.error with
    | none => rfl
    | some underlying => simp [Event.repeats, carried] at silent
  · intro silent
    refine ⟨news, rows, ?_, ?_⟩
    · rw [finished]
      exact moved
    · rw [finished]
      exact created silent

/-- What the `number`-th new object starts from. -/
def numbered (number : Nat) : Talk.Initial :=
  { (default : Talk.Initial) with identifier := UUID.ofNat number }

/-- One call, and its callback. -/
def singleRun (data : Option Data) (error : Option Unit) : List (Event Unit) :=
  let talk : Router := .createTalk { title := some "Vapor" }
  [.create "Vapor" (.ok (talk.asURLRequest ISO8601.gregorian)) numbered,
    .callback 0 data error numbered]

/-- A response with a talk leaves that talk. -/
theorem create_oneEach_iff_posted :
    let data := Data.json (.object [("id", .string "a"), ("title", .string "Vapor")])
    ∃ after : Session Unit,
      (createSystem ISO8601.gregorian).Run { store := ⟨[], .nil⟩ }
          (singleRun (some data) none) after ∧ after.running = [] ∧
        OneEach ISO8601.gregorian { store := ⟨[], .nil⟩ } (singleRun (some data) none) after := by
  intro data
  have run : (createSystem ISO8601.gregorian).Run { store := ⟨[], .nil⟩ }
      (singleRun (some data) none)
      { store := ⟨[Talk.fromShared (numbered 0) { id := some "a", title := "Vapor" }], by decide⟩
        finished := [⟨"Vapor", .callback (some data) none⟩] } := by
    refine .cons ⟨.nil, rfl⟩
      (.cons ⟨?_, rfl⟩ (.nil _))
    decide
  exact ⟨_, run, rfl, (create_oneEach_iff _ run rfl).mpr (by simp [singleRun, Event.error])⟩

/-- **A call without a connection leaves two talks.** The session reports an error
and no data; the only call of the run has ended, and the store has gained two talks. -/
theorem offline_not_oneEach :
    ∃ after : Session Unit,
      (createSystem ISO8601.gregorian).Run { store := ⟨[], .nil⟩ }
          (singleRun none (some ())) after ∧ after.running = [] ∧
        after.store.rows = [Talk.named (numbered 0) "Vapor", Talk.named (numbered 1) "Vapor"] ∧
        ¬ OneEach ISO8601.gregorian { store := ⟨[], .nil⟩ } (singleRun none (some ())) after := by
  refine ⟨{
    store := ⟨[Talk.named (numbered 0) "Vapor", Talk.named (numbered 1) "Vapor"], by decide⟩
    finished := [⟨"Vapor", .callback none (some ())⟩] }, ?_, rfl, rfl, ?_⟩
  · refine .cons ⟨.nil, rfl⟩
      (.cons ⟨?_, rfl⟩ (.nil _))
    decide
  · intro oneEach
    rcases oneEach with ⟨news, rows, _, each⟩
    have one : news.length = 1 := each.length_eq.symm
    have two := congrArg List.length rows
    simp [one] at two

end EventTalks.TalksFetcher
