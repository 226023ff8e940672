import EventTalks.Server.Talk
import EventTalks.Network.Router
import EventTalks.Foundation.Calendar

/-! # Talks that travel between server and device

A talk that the server encodes decodes as a response with the same values, dates in
whole seconds (`EventTalks.Integration.decode_encode`); the device makes an object of
it. The object takes both of its dates from the creation date, so its modification
date is the server's only under the condition of
`EventTalks.Integration.survives_iff`.
-/

namespace EventTalks.Integration

open Foundation Network

/-- The response that an encoded talk decodes to. -/
def sharedOf (talk : Server.Talk) : Response.Talk where
  id := talk.id.map UUID.uuidString
  title := talk.title
  notes := talk.notes
  date := talk.date.map Date.truncated
  speakerName := talk.speakerName
  dateCreated := talk.dateCreated.map Date.truncated
  dateModified := talk.dateModified.map Date.truncated

/-- **What the device reads of a talk of the server.** -/
theorem decode_encode (iso : ISO8601) (talk : Server.Talk) :
    Response.Talk.decode iso (talk.encode iso) = .ok (sharedOf talk) := by
  unfold Response.Talk.decode Server.Talk.encode
  rw [Json.container_object, ok_bind,
    Json.decodeIfPresent_asString (talk.id.map UUID.uuidString)
      (by simp [List.lookup_append]; rfl),
    Json.decode_asString talk.title (by simp [List.lookup_append]),
    Json.decodeIfPresent_asString talk.notes (by simp [List.lookup_append]),
    Json.decodeIfPresent_asDate talk.date (by simp [List.lookup_append]),
    Json.decodeIfPresent_asString talk.speakerName (by simp [List.lookup_append]),
    Json.decodeIfPresent_asDate talk.dateCreated (by simp [List.lookup_append]),
    Json.decodeIfPresent_asDate talk.dateModified (by simp [List.lookup_append])]
  rfl

/-- A stored talk says what a talk of the server says, as far as the latter says it. -/
structure SameTalk (talk : Server.Talk) (object : Talk) : Prop where
  identifier : talk.id.map UUID.uuidString = some object.identifier
  name : object.name = some talk.title
  notes : object.notes = talk.notes
  dueDate : object.dueDate = talk.date
  speakerName : object.speakerName = talk.speakerName
  dateCreated : ∀ date, talk.dateCreated = some date → object.dateCreated = date
  dateModified : ∀ date, talk.dateModified = some date → object.dateModified = date

/-- Every date of the talk falls on a whole second. -/
def WholeSeconds (talk : Server.Talk) : Prop :=
  (∀ date ∈ talk.date, date.IsWhole) ∧ (∀ date ∈ talk.dateCreated, date.IsWhole) ∧
    ∀ date ∈ talk.dateModified, date.IsWhole

instance (talk : Server.Talk) : Decidable (WholeSeconds talk) :=
  inferInstanceAs (Decidable (_ ∧ _ ∧ _))

theorem map_truncated_of_whole {date : Option Date} (whole : ∀ present ∈ date, present.IsWhole) :
    date.map Date.truncated = date := by
  cases date with
  | none => rfl
  | some present => rw [Option.map_some, (whole present rfl).truncated_eq]

theorem sharedOf_of_whole {talk : Server.Talk} (whole : WholeSeconds talk) :
    sharedOf talk =
      { id := talk.id.map UUID.uuidString
        title := talk.title
        notes := talk.notes
        date := talk.date
        speakerName := talk.speakerName
        dateCreated := talk.dateCreated
        dateModified := talk.dateModified } := by
  obtain ⟨date, dateCreated, dateModified⟩ := whole
  rw [sharedOf, map_truncated_of_whole date, map_truncated_of_whole dateCreated,
    map_truncated_of_whole dateModified]

/-- **When a talk of the server survives the trip.** The device ends up with the same
talk exactly when the modification date is absent, or is the creation date, or, for a
talk without a creation date, is what the device's clock reads at the new object. -/
theorem survives_iff (iso : ISO8601) (initial : Talk.Initial) (talk : Server.Talk)
    (identified : talk.id.isSome) (whole : WholeSeconds talk) :
    (∃ shared, Response.Talk.decode iso (talk.encode iso) = .ok shared ∧
        SameTalk talk (Talk.fromShared initial shared)) ↔
      talk.dateModified = none ∨ talk.dateModified = talk.dateCreated ∨
        (talk.dateCreated = none ∧ talk.dateModified = some initial.dateModified) := by
  obtain ⟨identifier, known⟩ := Option.isSome_iff_exists.mp identified
  have arrives : (∃ shared, Response.Talk.decode iso (talk.encode iso) = .ok shared ∧
        SameTalk talk (Talk.fromShared initial shared)) ↔
      ∀ date, talk.dateModified = some date →
        talk.dateCreated.getD initial.dateModified = date := by
    rw [decode_encode, sharedOf_of_whole whole]
    constructor
    · rintro ⟨shared, ⟨⟩, same⟩ date modified
      simpa [Talk.fromShared_eq] using same.dateModified date modified
    · intro modified
      refine ⟨_, rfl, ?_⟩
      rw [Talk.fromShared_eq]
      exact {
        identifier := by simp [known]
        name := rfl
        notes := rfl
        dueDate := rfl
        speakerName := rfl
        dateCreated := fun date created => by simp [created]
        dateModified := modified }
  rw [arrives]
  cases modified : talk.dateModified with
  | none => simp
  | some date =>
      cases created : talk.dateCreated with
      | none => simp [eq_comm]
      | some other => simp [eq_comm]

/-- A talk that was never modified survives. -/
theorem survives_iff_unmodified :
    let talk : Server.Talk :=
      { id := some default, title := "Redux", dateCreated := some (Date.ofSeconds 1570441200) }
    ∃ shared, Response.Talk.decode ISO8601.gregorian (talk.encode ISO8601.gregorian) =
      .ok shared ∧ SameTalk talk (Talk.fromShared default shared) :=
  (survives_iff ISO8601.gregorian default _ rfl (by decide)).mpr (Or.inl rfl)

/-- **A modified talk comes back unmodified**: the device stores the creation date in
both places. -/
theorem modified_not_survives :
    let talk : Server.Talk :=
      { id := some default, title := "Redux", dateCreated := some (Date.ofSeconds 1570441200),
        dateModified := some (Date.ofSeconds 1570456200) }
    WholeSeconds talk ∧
      Response.Talk.decode ISO8601.gregorian (talk.encode ISO8601.gregorian) =
        .ok (sharedOf talk) ∧
      (Talk.fromShared default (sharedOf talk)).dateModified = Date.ofSeconds 1570441200 ∧
      ¬ SameTalk talk (Talk.fromShared default (sharedOf talk)) := by
  intro talk
  refine ⟨by decide, decode_encode _ _, by decide, fun same => ?_⟩
  have modified := same.dateModified _ rfl
  revert modified
  decide

end EventTalks.Integration
