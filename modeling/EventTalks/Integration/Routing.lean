import EventTalks.Server.Routes
import EventTalks.Server.Talk
import EventTalks.Network.Router
import EventTalks.Foundation.Calendar

/-! # Requests of the app at the server's routes

Every request that the app builds matches exactly one route of the server, the one
with the meaning of the request; its parameter reads back as the identifier and its
body decodes to the values that were sent (`EventTalks.Integration.asURLRequest_understood`).
-/

namespace EventTalks.Integration

open Foundation Network Server

/-- The action that a request asks for. -/
def meaning : Router → Action
  | .allTalks => .index
  | .getTalk _ => .get
  | .createTalk _ => .create
  | .updateTalk _ _ => .update
  | .deleteTalk _ => .delete

/-- The identifier that a request is about. -/
def identifiers : Router → List UUID
  | .allTalks | .createTalk _ => []
  | .getTalk id | .updateTalk id _ | .deleteTalk id => [id]

/-- The path of one talk has the identifier's text as its last component. -/
theorem pathComponents_talk (id : UUID) :
    pathComponents ("/v1/talks/" ++ id.uuidString) = ["v1", "talks", id.uuidString] := by
  have joined : ("/v1/talks/" ++ id.uuidString).toList =
      ['/'].intercalate [[], "v1".toList, "talks".toList, id.uuidString.toList] := by
    simp [List.intercalate]
  have split : ("/v1/talks/" ++ id.uuidString).toList.splitOn '/' =
      [[], "v1".toList, "talks".toList, id.uuidString.toList] := by
    rw [joined]
    refine List.splitOn_intercalate '/' (fun component member => ?_) (by simp)
    simp only [List.mem_cons, List.not_mem_nil, or_false] at member
    rcases member with rfl | rfl | rfl | rfl
    · decide
    · decide
    · decide
    · exact id.slash_not_mem_uuidString
  have written : id.uuidString.toList ≠ [] := id.uuidString_ne_empty
  rw [pathComponents, split]
  simp [written]

/-- **The one route that a request matches**, with the parameters it captures. -/
theorem dispatch_boot (router : Router) :
    dispatch TalksController.boot router.method router.path =
      [(meaning router, (identifiers router).map UUID.uuidString)] := by
  cases router with
  | allTalks => decide
  | createTalk body =>
      change dispatch TalksController.boot "POST" "/v1/talks" = [(.create, [])]
      decide
  | getTalk id | updateTalk id body | deleteTalk id =>
      simp [dispatch, TalksController.boot, TalksController.route, Route.parameters?,
        Router.method, Router.path, pathComponents_talk, captures, meaning, identifiers]

/-- **What the server reads of a created talk**: the values of the body, dates in whole
seconds, and neither an identifier nor the dates that it keeps itself. -/
theorem decode_createTalk (iso : ISO8601) (body : Body.Talk) {title : String}
    (titled : body.title = some title) :
    Talk.decode iso (body.encode iso) = .ok
      { id := none
        title := title
        date := body.date.map Date.truncated
        speakerName := body.speakerName
        notes := body.notes
        dateCreated := none
        dateModified := none } := by
  unfold Talk.decode Body.Talk.encode
  rw [Json.container_object, ok_bind,
    Json.decodeIfPresent_asUUID none (by simp [List.lookup_append]),
    Json.decode_asString title (by simp [List.lookup_append, titled]),
    Json.decodeIfPresent_asDate body.date (by simp [List.lookup_append]),
    Json.decodeIfPresent_asString body.speakerName (by simp [List.lookup_append]),
    Json.decodeIfPresent_asString body.notes (by simp [List.lookup_append]),
    Json.decodeIfPresent_asDate none (by simp [List.lookup_append]),
    Json.decodeIfPresent_asDate none (by simp [List.lookup_append])]
  rfl

/-- **What the server reads of an update**: the values of the body, dates in whole
seconds. -/
theorem decode_updateTalk (iso : ISO8601) (body : Body.Talk) :
    Talk.Update.decode iso (body.encode iso) = .ok
      { title := body.title
        date := body.date.map Date.truncated
        speakerName := body.speakerName
        notes := body.notes } := by
  unfold Talk.Update.decode Body.Talk.encode
  rw [Json.container_object, ok_bind,
    Json.decodeIfPresent_asString body.title (by simp [List.lookup_append]),
    Json.decodeIfPresent_asDate body.date (by simp [List.lookup_append]),
    Json.decodeIfPresent_asString body.speakerName (by simp [List.lookup_append]),
    Json.decodeIfPresent_asString body.notes (by simp [List.lookup_append])]
  rfl

/-- The body of a request reads as the values that were sent. -/
def BodyUnderstood (iso : ISO8601) (router : Router) (body : Option Json) : Prop :=
  match router with
  | .createTalk talk => ∃ json title, body = some json ∧ talk.title = some title ∧
      Talk.decode iso json = .ok
        { id := none
          title := title
          date := talk.date.map Date.truncated
          speakerName := talk.speakerName
          notes := talk.notes
          dateCreated := none
          dateModified := none }
  | .updateTalk _ talk => ∃ json, body = some json ∧
      Talk.Update.decode iso json = .ok
        { title := talk.title
          date := talk.date.map Date.truncated
          speakerName := talk.speakerName
          notes := talk.notes }
  | .allTalks | .getTalk _ | .deleteTalk _ => body = none

/-- **Every request is understood as meant.** It matches exactly one route of the
controller, the one with its meaning, the captured parameter reads back as its
identifier, and its body reads as the values that were sent. -/
theorem asURLRequest_understood (iso : ISO8601) (router : Router)
    (titled : ∀ body, router = .createTalk body → body.title.isSome) :
    ∃ parameters, dispatch TalksController.boot (router.asURLRequest iso).httpMethod
          (router.asURLRequest iso).url.path = [(meaning router, parameters)] ∧
      parameters.map UUID.ofString? = (identifiers router).map some ∧
      BodyUnderstood iso router (router.asURLRequest iso).httpBody := by
  refine ⟨(identifiers router).map UUID.uuidString, ?_, ?_, ?_⟩
  · rw [Router.asURLRequest_httpMethod, Router.path_asURLRequest]
    exact dispatch_boot router
  · simp [Function.comp_def]
  · rw [Router.asURLRequest_httpBody]
    cases router with
    | allTalks | getTalk id | deleteTalk id => rfl
    | createTalk body =>
        obtain ⟨title, known⟩ := Option.isSome_iff_exists.mp (titled body rfl)
        exact ⟨_, title, rfl, known, decode_createTalk iso body known⟩
    | updateTalk id body => exact ⟨_, rfl, decode_updateTalk iso body⟩

/-- The creation of a titled talk with a date. -/
theorem asURLRequest_understood_created :
    let router := Router.createTalk
      { title := some "Vapor", date := some (Date.ofSeconds 1570441200) }
    dispatch TalksController.boot (router.asURLRequest ISO8601.gregorian).httpMethod
        (router.asURLRequest ISO8601.gregorian).url.path = [(.create, [])] ∧
      BodyUnderstood ISO8601.gregorian router
        (router.asURLRequest ISO8601.gregorian).httpBody := by
  intro router
  obtain ⟨parameters, matched, read, body⟩ := asURLRequest_understood ISO8601.gregorian router
    fun _ same => by rw [← Router.createTalk.inj same]; rfl
  obtain rfl : parameters = [] := List.map_eq_nil_iff.mp read
  exact ⟨matched, body⟩

end EventTalks.Integration
