import EventTalks.Integration.Routing
import EventTalks.Integration.TalkTrip
import EventTalks.Server.Outcome

/-! # When the device reports success

The device never looks at the status of a reply. A request for a value succeeds when the
reply decodes, which an error's reply does not; a deletion succeeds when there is any
reply. So a deletion is reported as a success even when the server's action has ended
with an error, and for all other requests success is reported exactly when the action has
completed (`EventTalks.Integration.truthful_iff`).
-/

namespace EventTalks.Integration

open Foundation Network Server

variable {ε α ρ : Type}

/-- A completion receives a success. -/
def Succeeds (results : List (Except (EventsError ε) α)) : Prop := ∃ object, .ok object ∈ results

theorem succeeds_taskCompletions {value : Json → Except DecodingError α} {data : Data} :
    Succeeds (taskCompletions value (some data) (none : Option ε)) ↔
      ∃ object, data.decode value = .ok object := by
  simp only [Succeeds, taskCompletions, reportCompletions, List.nil_append]
  cases data.decode value with
  | error underlying => simp
  | ok object => simp

theorem succeeds_responseCompletions (response : ρ) :
    Succeeds (responseCompletions (some response) (none : Option ε)) :=
  ⟨response, by simp [responseCompletions, reportCompletions]⟩

/-- The completion of a request receives a success when the session delivers the reply. A
listing is decoded as talks and a reply about one talk as a talk; a deletion asks for
nothing but the response. No function of the app requests a single talk, which would be
read like the other replies about one talk. -/
def ReportsSuccess (iso : ISO8601) (router : Router) (reply : Reply) : Prop :=
  match router with
  | .allTalks => Succeeds (taskCompletions (Json.decodeArray (Response.Talk.decode iso))
      (some reply.data) (none : Option Empty))
  | .getTalk _ | .createTalk _ | .updateTalk _ _ =>
      Succeeds (taskCompletions (Response.Talk.decode iso) (some reply.data) (none : Option Empty))
  | .deleteTalk _ => Succeeds (responseCompletions (some reply) (none : Option Empty))

/-- An object without a title is no talk. -/
theorem decode_ne_ok {iso : ISO8601} {members : List (String × Json)}
    (untitled : members.lookup "title" = none) (talk : Response.Talk) :
    Response.Talk.decode iso (.object members) ≠ .ok talk := by
  intro decoded
  unfold Response.Talk.decode at decoded
  rw [Json.container_object, ok_bind] at decoded
  obtain ⟨id, _, decoded⟩ := bind_eq_ok.mp decoded
  obtain ⟨title, titled, _⟩ := bind_eq_ok.mp decoded
  rw [Json.decode, untitled] at titled
  cases titled

/-- **The reply to an error reads as no value.** -/
theorem not_reportsSuccess_reply (iso : ISO8601) (middleware : ErrorMiddleware ε) {router : Router}
    (reads : ∀ id, router ≠ .deleteTalk id) (error : ActionError ε) :
    ¬ ReportsSuccess iso router (middleware.reply error) := by
  obtain ⟨members, data, keys⟩ := middleware.data_reply error
  have untitled : members.lookup "title" = none := by
    rw [List.lookup_eq_none_iff]
    intro pair member
    have named := (keys pair.1).mp (List.mem_map_of_mem member)
    rcases named with same | same <;> simp [same]
  have unread : ¬ ∃ talk, (middleware.reply error).data.decode (Response.Talk.decode iso) =
      .ok talk := by
    intro read
    obtain ⟨talk, decoded⟩ := read
    rw [data] at decoded
    exact decode_ne_ok untitled talk decoded
  cases router with
  | deleteTalk id => exact absurd rfl (reads id)
  | getTalk id | createTalk body | updateTalk id body =>
      rw [ReportsSuccess, succeeds_taskCompletions]
      exact unread
  | allTalks =>
      rw [ReportsSuccess, succeeds_taskCompletions, data]
      intro listed
      obtain ⟨talks, decoded⟩ := listed
      cases decoded

section Actions

variable (iso : ISO8601) (new : UUID) (timestamps : Timestamps) (queries : Queries ε)
  (database : Database)

/-- The action that a request leads to, with what the action reads of it. -/
def action : Router → Except (ActionError ε) (Database × Content)
  | .allTalks => TalksController.performIndex queries database
  | .createTalk body =>
      TalksController.performCreate iso new timestamps queries (some (body.encode iso)) database
  | .deleteTalk id => TalksController.performDelete queries [id.uuidString] database
  | .getTalk _ | .updateTalk _ _ => .error .notFound

theorem perform_asURLRequest (router : Router) :
    perform iso new timestamps queries (router.asURLRequest iso) database =
      action iso new timestamps queries database router := by
  rw [perform, Router.asURLRequest_httpMethod, Router.path_asURLRequest, dispatch_boot,
    Router.asURLRequest_httpBody]
  cases router <;> rfl

end Actions

/-- A listing is reported as a success when the query succeeds. -/
theorem reportsSuccess_index (iso : ISO8601) (database : Database) :
    ReportsSuccess iso .allTalks
      ((Content.talks (TalksController.index database)).reply iso) := by
  rw [ReportsSuccess, succeeds_taskCompletions]
  exact ⟨_, Json.decodeItems_map _ fun talk _ => decode_encode iso talk⟩

theorem reportsSuccess_talk (iso : ISO8601) (body : Body.Talk) (talk : Server.Talk) :
    ReportsSuccess iso (.createTalk body) ((Content.talk talk).reply iso) := by
  rw [ReportsSuccess, succeeds_taskCompletions]
  exact ⟨_, decode_encode iso talk⟩

/-- The device tells the truth about a request: it reports a success exactly when the
server's action has completed, and for a deletion only when the talk was removed. -/
structure Truthful (iso : ISO8601) (middleware : ErrorMiddleware ε) (router : Router)
    (database : Database) (outcome : Except (ActionError ε) (Database × Content)) : Prop where
  completed : ReportsSuccess iso router (middleware.answer iso outcome) ↔
    ∃ done, outcome = .ok done
  removed : ∀ id, router = .deleteTalk id →
    ReportsSuccess iso router (middleware.answer iso outcome) →
      id ∈ database.keys ∧ ∃ after content, outcome = .ok (after, content) ∧ id ∉ after.keys

/-- **A deletion completes** when the talk is there and no query fails, and removes it. -/
theorem performDelete_eq_ok {queries : Queries ε} {id : UUID} {database after : Database}
    {content : Content} :
    TalksController.performDelete queries [id.uuidString] database = .ok (after, content) ↔
      (id ∈ database.keys ∧ queries.read = none ∧ queries.write = none) ∧
        after = database.erase id ∧ content = .noContent := by
  simp only [TalksController.performDelete, List.map_cons, List.map_nil,
    UUID.ofString?_uuidString, query, TalksController.next, TalksController.remove]
  cases queries.read with
  | some underlying => simp [bind, Except.bind]
  | none =>
      rw [ok_bind]
      cases found : database.get? id with
      | none => simp [KeyedTable.get?_eq_none.mp found]
      | some row =>
          obtain ⟨member, rfl⟩ := KeyedTable.get?_eq_some.mp found
          have present : row.id ∈ database.keys := List.mem_map_of_mem member
          cases queries.write with
          | some underlying => simp [bind, Except.bind]
          | none => simp [present, pure, Except.pure, eq_comm]

/-- A request for a value is reported as it ended once its content can be read. -/
theorem truthful_of_reads {iso : ISO8601} (middleware : ErrorMiddleware ε) {router : Router}
    {database : Database} {outcome : Except (ActionError ε) (Database × Content)}
    (reads : ∀ id, router ≠ .deleteTalk id)
    (legible : ∀ after content, outcome = .ok (after, content) →
      ReportsSuccess iso router (content.reply iso)) :
    Truthful iso middleware router database outcome := by
  refine ⟨?_, fun id same => absurd same (reads id)⟩
  cases outcome with
  | error error =>
      have silent := not_reportsSuccess_reply iso middleware reads error
      exact ⟨fun reported => absurd reported silent, fun ⟨_, done⟩ => by cases done⟩
  | ok done =>
      obtain ⟨after, content⟩ := done
      exact ⟨fun _ => ⟨_, rfl⟩, fun _ => legible after content rfl⟩

/-- **The device reports a success exactly when the server did the work**, unless the
request is a deletion that the server cannot complete. -/
theorem truthful_iff (iso : ISO8601) (middleware : ErrorMiddleware ε) (new : UUID)
    (timestamps : Timestamps) (queries : Queries ε) (router : Router) (database : Database) :
    Truthful iso middleware router database
        (perform iso new timestamps queries (router.asURLRequest iso) database) ↔
      ∀ id, router = .deleteTalk id →
        id ∈ database.keys ∧ queries.read = none ∧ queries.write = none := by
  rw [perform_asURLRequest]
  cases router with
  | allTalks =>
      refine iff_of_true (truthful_of_reads middleware (by simp) fun after content done => ?_)
        (by simp)
      obtain ⟨_, _, same⟩ := bind_eq_ok.mp done
      obtain ⟨rfl, rfl⟩ := Prod.mk.inj (Except.ok.inj same)
      exact reportsSuccess_index iso database
  | createTalk body =>
      refine iff_of_true (truthful_of_reads middleware (by simp) fun after content done => ?_)
        (by simp)
      rw [action, TalksController.performCreate] at done
      split at done
      · obtain ⟨_, _, same⟩ := bind_eq_ok.mp done
        obtain ⟨_, rfl⟩ := Prod.mk.inj (Except.ok.inj same)
        exact reportsSuccess_talk iso body _
      · cases done
  | getTalk id | updateTalk id body =>
      exact iff_of_true (truthful_of_reads middleware (by simp) fun _ _ done => by cases done)
        (by simp)
  | deleteTalk id =>
      have reported := succeeds_responseCompletions (ε := Empty)
        (middleware.answer iso (action iso new timestamps queries database (.deleteTalk id)))
      constructor
      · intro truthful other same
        obtain rfl := Router.deleteTalk.inj same
        obtain ⟨⟨after, content⟩, done⟩ := truthful.completed.mp reported
        exact (performDelete_eq_ok.mp done).1
      · intro completes
        have done := performDelete_eq_ok.mpr ⟨completes id rfl, rfl, rfl⟩
        refine ⟨⟨fun _ => ⟨_, done⟩, fun _ => reported⟩, fun other same _ => ?_⟩
        obtain rfl := Router.deleteTalk.inj same
        refine ⟨(completes id rfl).1, _, _, done, ?_⟩
        simp [KeyedTable.mem_keys_erase]

/-- **The deletion of a talk that is not there** is answered with an error and reported as a
success. -/
theorem deleteTalk_not_truthful :
    let router := Router.deleteTalk (UUID.ofNat 1)
    let database : Database := ⟨[], .nil⟩
    let outcome := perform ISO8601.gregorian (UUID.ofNat 2) {} {}
      (router.asURLRequest ISO8601.gregorian) database
    outcome = .error .notFound ∧
      (failures.answer ISO8601.gregorian outcome).status = 404 ∧
      ReportsSuccess ISO8601.gregorian router (failures.answer ISO8601.gregorian outcome) ∧
      ¬ Truthful ISO8601.gregorian failures router database outcome := by
  intro router database outcome
  have missing : outcome = .error .notFound := by
    rw [show outcome = _ from perform_asURLRequest _ _ _ _ _ _]
    rfl
  have reported : ReportsSuccess ISO8601.gregorian router
      (failures.answer ISO8601.gregorian outcome) := succeeds_responseCompletions _
  refine ⟨missing, by rw [missing]; rfl, reported, fun truthful => ?_⟩
  obtain ⟨done, completed⟩ := truthful.completed.mp reported
  rw [missing] at completed
  cases completed

end EventTalks.Integration
