import EventTalks.Detail.Reading

/-! # Events that land on foreign rows

The handlers find their row by its place, and a late event can land on any row. The two
handlers of the text fields look at the kind of the row; those of the switch and of the
picker do not, and write the talk, change the section or run out of it
(`EventTalks.Detail.late_events_harm`). They do nothing in exactly the cases that
`EventTalks.Detail.Screen.Harmless` lists (`EventTalks.Detail.spared_iff`).
-/

namespace EventTalks.Detail

open Foundation

/-- An event that resolves to a row of another kind than the handler's. -/
def Screen.Foreign (screen : Screen) : Event → Prop
  | .editingChanged path _ _ | .didEndEditing path _ => ∃ here found row, path = some here ∧
      screen.row? here = .ok (found, row) ∧ ∀ shown placeholder, row ≠ .editable shown placeholder
  | .toggleSwitch path _ _ _ => ∃ here found row, path = some here ∧
      screen.row? here = .ok (found, row) ∧ ∀ text isOn, row ≠ .switch text isOn
  | .datePickerChanged path _ _ => ∃ here found row, path = some here ∧
      screen.row? here = .ok (found, row) ∧ ∀ date, row ≠ .datePicker date
  | .textViewDidEndEditing _ _ | .didSelectRowAt _ _ | .swiped | .fetched _ _ => False

/-- A handler that does nothing: it meets no fault, and leaves the sections, the talk and
the requests as they are. -/
def Spared (screen : Screen) (result : Except Fault Screen) : Prop :=
  ∃ after, result = .ok after ∧ after.sections = screen.sections ∧ after.read? = screen.read? ∧
    after.requests = screen.requests

/-- Nobody notices that a due date is written and sent: there is no talk; or no updater,
and a talk that has the date already or a transaction that fails. -/
def Screen.Unnoticed (screen : Screen) (commits : Bool) (dueDate : Option Date) : Prop :=
  screen.talk = none ∨ screen.updater = none ∧
    ∃ talk, screen.read? = .ok (some talk) ∧ (commits = true → talk.dueDate = dueDate)

/-- The events of text fields; a switch that is off, in a section of one row; and a picker
in a section whose second row has the date already. -/
def Screen.Harmless (strings : L10n) (screen : Screen) : Event → Prop
  | .editingChanged _ _ _ | .didEndEditing _ _ => True
  | .toggleSwitch path isOn _ commits => isOn = false ∧ (∃ here found, path = some here ∧
      screen.sections[here.sectionIdx]? = some found ∧ found.rows.length = 1) ∧
      screen.Unnoticed commits none
  | .datePickerChanged path date commits => (∃ here found, path = some here ∧
      screen.sections[here.sectionIdx]? = some found ∧
      found.rows[1]? = some (.date strings.talkDateAlarm date)) ∧
      screen.Unnoticed commits (some date)
  | .textViewDidEndEditing _ _ | .didSelectRowAt _ _ | .swiped | .fetched _ _ => False

section Screens

variable {strings : L10n} {screen : Screen} {found : Section} {path : IndexPath}

/-- A section is left by the rows that it has, and by no others. -/
theorem set_rows_eq_self {sections : List Section} {index : Nat}
    (located : sections[index]? = some found) {rows : List Row} :
    sections.set index { found with rows } = sections ↔ rows = found.rows := by
  obtain ⟨inside, here⟩ := List.getElem?_eq_some_iff.mp located
  constructor
  · intro same
    have read := congrArg (·[index]?) same
    simp only [List.getElem?_set_self inside, located, Option.some.injEq] at read
    exact congrArg Section.rows read
  · rintro rfl
    rw [← here, List.set_getElem_self]

theorem puts_eq_nil {updater : Option UUID} {talk : Option Talk} :
    puts updater talk = [] ↔ updater = none ∨ talk = none := by
  cases updater <;> cases talk <;> simp [puts]

theorem spared_of_eq {result : Except Fault Screen} (same : result = .ok screen) :
    Spared screen result := ⟨screen, same, rfl, rfl, rfl⟩

/-- A due date that is written and sent leaves the talk and the requests exactly when
nobody notices. -/
theorem unnoticed_iff {talk : Option Talk} (read : screen.read? = .ok talk) (commits : Bool)
    (dueDate : Option Date) :
    (screen.edit commits (fun talk => { talk with dueDate }) talk).read? = screen.read? ∧
        (screen.edit commits (fun talk => { talk with dueDate }) talk).requests =
          screen.requests ↔
      screen.Unnoticed commits dueDate := by
  rw [Screen.read?_edit commits (fun talk => { talk with dueDate }) (fun _ => rfl) read,
    Screen.requests_edit, List.append_right_eq_self, puts_eq_nil, Option.map_eq_none_iff, read]
  cases talk with
  | none => exact iff_of_true ⟨rfl, Or.inr rfl⟩ (Or.inl (Screen.read?_eq_none.mp read))
  | some talk =>
      have held : screen.talk ≠ none := by
        intro vacant
        cases read.symm.trans (Screen.read?_eq_none.mpr vacant)
      have kept : (if commits then { talk with dueDate } else talk) = talk ↔
          (commits = true → talk.dueDate = dueDate) := by
        cases commits with
        | false => simp
        | true =>
            refine ⟨fun same _ => (congrArg Talk.dueDate same).symm, fun same => ?_⟩
            rw [if_pos rfl, ← same rfl]
      simp only [Option.map_some, Except.ok.injEq, Option.some.injEq, kept, Screen.Unnoticed]
      constructor
      · rintro ⟨same, silent | absent⟩
        · exact Or.inr ⟨silent, talk, read, same⟩
        · cases absent
      · rintro (vacant | ⟨silent, other, again, same⟩)
        · exact absurd vacant held
        · obtain rfl := Option.some.inj (Except.ok.inj (read.symm.trans again))
          exact ⟨same, Or.inl silent⟩

/-- A handler that writes a due date, sends it and places rows does nothing exactly when
nobody notices and the section has the rows. -/
theorem spared_place_edit_iff {index : Nat} (located : screen.sections[index]? = some found)
    (commits : Bool) (dueDate : Option Date) (rows : List Row) :
    Spared screen (screen.read?.map fun talk =>
        (screen.edit commits (fun talk => { talk with dueDate }) talk).place index found rows) ↔
      rows = found.rows ∧ screen.Unnoticed commits dueDate := by
  constructor
  · rintro ⟨_, done, sections, talk, requests⟩
    obtain ⟨held, read, rfl⟩ := map_eq_ok.mp done
    rw [Screen.place, Screen.sections_edit, set_rows_eq_self located] at sections
    exact ⟨sections, (unnoticed_iff read commits dueDate).mp ⟨talk, requests⟩⟩
  · rintro ⟨rfl, unnoticed⟩
    have read : ∃ talk, screen.read? = .ok talk := by
      rcases unnoticed with vacant | ⟨_, talk, read, _⟩
      · exact ⟨none, Screen.read?_eq_none.mpr vacant⟩
      · exact ⟨some talk, read⟩
    obtain ⟨talk, read⟩ := read
    obtain ⟨same, requests⟩ := (unnoticed_iff read commits dueDate).mpr unnoticed
    refine ⟨_, map_eq_ok.mpr ⟨talk, read, rfl⟩, ?_, same, requests⟩
    rw [Screen.place, Screen.sections_edit, set_rows_eq_self located]

theorem length_switched (isOn : Bool) (rows : List Row) :
    (Screen.switched isOn rows).length = rows.length := by
  unfold Screen.switched
  split <;> rfl

/-- Keeping the first row, and flipping it if it is a switch, leaves a section with another
row exactly when that row is alone. -/
theorem switched_take_eq_self {rows : List Row} {row : Row} (member : row ∈ rows)
    (apart : ∀ text isOn, row ≠ .switch text isOn) :
    Screen.switched false (rows.take 1) = rows ↔ rows.length = 1 := by
  constructor
  · intro same
    have lengths := congrArg List.length same
    rw [length_switched, List.length_take] at lengths
    have filled := List.length_pos_of_mem member
    omega
  · intro alone
    obtain ⟨only, rfl⟩ := List.length_eq_one_iff.mp alone
    obtain rfl := List.mem_singleton.mp member
    cases row with
    | switch text isOn => exact absurd rfl (apart text isOn)
    | text | editable | date | datePicker | notes | delete => rfl

theorem set_eq_self_iff {rows : List Row} {index : Nat} {row : Row} (inside : index < rows.length) :
    rows.set index row = rows ↔ rows[index]? = some row := by
  constructor
  · intro same
    rw [← same, List.getElem?_set_self inside]
  · intro here
    obtain ⟨_, rfl⟩ := List.getElem?_eq_some_iff.mp here
    exact List.set_getElem_self inside

theorem spared_toggleSwitch_iff {row : Row} {isOn commits : Bool} {now : Date}
    (reads : screen.row? path = .ok (found, row)) (apart : ∀ text isOn, row ≠ .switch text isOn) :
    Spared screen (screen.toggleSwitch strings (some path) isOn now commits) ↔
      isOn = false ∧ found.rows.length = 1 ∧ screen.Unnoticed commits none := by
  obtain ⟨located, inside⟩ := Screen.row?_eq_ok.mp reads
  have member := List.mem_of_getElem? inside
  cases isOn with
  | true =>
      -- a date is appended, whatever the rows are
      rw [Screen.toggleSwitch_on now commits located]
      refine iff_of_false ?_ (by simp)
      rintro ⟨_, done, sections, _⟩
      obtain ⟨talk, _, rfl⟩ := map_eq_ok.mp done
      have lengths := congrArg List.length ((set_rows_eq_self located).mp sections)
      rw [length_switched] at lengths
      simp at lengths
  | false =>
      rw [Screen.toggleSwitch_off now commits located (List.ne_nil_of_mem member),
        spared_place_edit_iff located, switched_take_eq_self member apart]
      simp

theorem spared_datePickerChanged_iff {date : Date} {commits : Bool}
    (located : screen.sections[path.sectionIdx]? = some found) :
    Spared screen (screen.datePickerChanged strings (some path) date commits) ↔
      found.rows[1]? = some (.date strings.talkDateAlarm date) ∧
        screen.Unnoticed commits (some date) := by
  by_cases enough : 1 < found.rows.length
  · rw [Screen.datePickerChanged_of_rows date commits located enough, ← set_eq_self_iff enough,
      spared_place_edit_iff located]
  · have short := Nat.not_lt.mp enough
    refine iff_of_false ?_ ?_
    · rintro ⟨_, done, _⟩
      simp [Screen.datePickerChanged, Screen.section?_eq_ok.mpr located, short] at done
    · simp [List.getElem?_eq_none short]

/-- **A handler does nothing on a foreign row** exactly when the event is harmless. -/
theorem spared_iff (strings : L10n) {event : Event} (foreign : screen.Foreign event) :
    Spared screen (screen.respond strings event) ↔ screen.Harmless strings event := by
  cases event with
  | editingChanged path text commits =>
      obtain ⟨here, found, row, rfl, reads, apart⟩ := foreign
      exact iff_of_true
        (spared_of_eq (Screen.editingChanged_of_foreign text commits reads apart)) trivial
  | didEndEditing path text =>
      obtain ⟨here, found, row, rfl, reads, apart⟩ := foreign
      exact iff_of_true (spared_of_eq (Screen.didEndEditing_of_foreign text reads apart)) trivial
  | toggleSwitch path isOn now commits =>
      obtain ⟨here, found, row, rfl, reads, apart⟩ := foreign
      have located := (Screen.row?_eq_ok.mp reads).1
      simp only [Screen.respond, spared_toggleSwitch_iff reads apart, Screen.Harmless]
      refine and_congr_right fun _ => and_congr_left fun _ => ?_
      constructor
      · exact fun alone => ⟨here, found, rfl, located, alone⟩
      · rintro ⟨_, other, ⟨⟩, again, alone⟩
        obtain rfl := Option.some.inj (located.symm.trans again)
        exact alone
  | datePickerChanged path date commits =>
      obtain ⟨here, found, row, rfl, reads, apart⟩ := foreign
      have located := (Screen.row?_eq_ok.mp reads).1
      simp only [Screen.respond, spared_datePickerChanged_iff located, Screen.Harmless]
      refine and_congr_left fun _ => ?_
      constructor
      · exact fun dated => ⟨here, found, rfl, located, dated⟩
      · rintro ⟨_, other, ⟨⟩, again, dated⟩
        obtain rfl := Option.some.inj (located.symm.trans again)
        exact dated
  | textViewDidEndEditing | didSelectRowAt | swiped | fetched => exact foreign.elim

end Screens

/-- Without an updater, a switch that is off does nothing to the name of a talk without a
date, once it lands there. -/
theorem spared_iff_unaddressed :
    let keynote : Talk := { Talk.named default "Keynote" with identifier := "keynote" }
    let event : Event := .toggleSwitch (some ⟨0, 0⟩) false ⟨0⟩ true
    ∃ screen, shown L10n.base ⟨[keynote], by decide⟩ "keynote" = .ok screen ∧
      screen.Foreign event ∧ Spared screen (screen.respond L10n.base event) := by
  intro keynote event
  let screen : Screen :=
    { store := ⟨[keynote], by decide⟩
      talk := some { identifier := "keynote" }
      title := some "Keynote"
      sections := sectionsOf L10n.base keynote
      isViewLoaded := true }
  have foreign : screen.Foreign event := ⟨_, _, _, rfl, rfl, by simp⟩
  exact ⟨screen, rfl, foreign, (spared_iff L10n.base foreign).mpr
    ⟨rfl, ⟨_, _, rfl, rfl, rfl⟩, Or.inr ⟨rfl, _, rfl, fun _ => rfl⟩⟩⟩

/-- **Late events do harm.** A picker that lands on the name of a talk runs out of the
section, and a switch that lands there is sent as an update of the due date. -/
theorem late_events_harm :
    let picks : Event := .datePickerChanged (some ⟨0, 0⟩) ⟨1⟩ true
    let switches : Event := .toggleSwitch (some ⟨0, 0⟩) false ⟨0⟩ true
    ∃ screen, shown L10n.base ⟨[Talk.named default "Vapor"], by decide⟩ (UUID.uuidString default) =
        .ok screen ∧
      screen.Foreign picks ∧ screen.respond L10n.base picks = .error .indexOutOfRange ∧
      screen.Foreign switches ∧ ¬ Spared screen (screen.respond L10n.base switches) := by
  intro picks switches
  refine ⟨_, rfl, ⟨_, _, _, rfl, rfl, by simp⟩, rfl, ⟨_, _, _, rfl, rfl, by simp⟩, ?_⟩
  rintro ⟨_, ⟨⟩, _, _, requests⟩
  exact absurd requests (by decide)

end EventTalks.Detail
