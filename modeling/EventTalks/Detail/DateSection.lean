import EventTalks.Detail.Shape

/-! # What the date section tells

The due date is in the talk, in the switch, in the date row and in the picker. Turning the
switch on shows a date that the talk does not have, and a date that is picked is written to
the talk and to the date row while the picker's row keeps the one before
(`EventTalks.Detail.flips_and_picks_untruthful`). The section tells the truth in exactly the
runs that do neither (`EventTalks.Detail.truthful_iff_scheduled`).
-/

namespace EventTalks.Detail

open Foundation

/-- The rows that a due date determines, with an optional picker. -/
def Tells (strings : L10n) (dueDate : Option Date) (rows : List Row) : Prop :=
  match dueDate with
  | none => rows = [.switch strings.talkDateAsk false]
  | some date =>
      rows = [.switch strings.talkDateAsk true, .date strings.talkDateAlarm date] ∨
        rows = [.switch strings.talkDateAsk true, .date strings.talkDateAlarm date,
          .datePicker date]

instance (strings : L10n) (dueDate : Option Date) (rows : List Row) :
    Decidable (Tells strings dueDate rows) :=
  match dueDate with
  | none => inferInstanceAs (Decidable (_ = _))
  | some _ => inferInstanceAs (Decidable (_ ∨ _))

/-- The rows of the date section are those of the due date of the stored talk. -/
def Screen.Truthful (strings : L10n) (screen : Screen) : Prop :=
  ∃ talk found, screen.read? = .ok (some talk) ∧ screen.sections[2]? = some found ∧
    Tells strings talk.dueDate found.rows

/-- A step after which the date section tells the truth. -/
def TruthfulAfter (strings : L10n) (_ : Except Fault Screen) (_ : Event)
    (after : Except Fault Screen) : Prop :=
  ∃ screen, after = .ok screen ∧ screen.Truthful strings

/-- An event of a control from its own row that writes the talk, if at all, and does not
delete it. -/
def Undisturbed (state : Except Fault Screen) (event : Event) : Prop :=
  ∀ screen, state = .ok screen → screen.Hosts event ∧ Leaves screen event ∧ ¬ event.Fails

/-- The switch is not turned on, and no date is picked but the one the picker's row has. -/
def Scheduled (state : Except Fault Screen) : Event → Prop
  | .toggleSwitch _ isOn _ _ => isOn = false
  | .datePickerChanged path date _ => ∀ screen here found shown, state = .ok screen →
      path = some here → screen.row? here = .ok (found, .datePicker shown) → date = shown
  | .editingChanged _ _ _ | .didEndEditing _ _ | .textViewDidEndEditing _ _ | .didSelectRowAt _ _
  | .swiped | .fetched _ _ => True

/-- A screen is truthful when its date section tells the date of the talk. -/
theorem Screen.truthful_iff_tells {strings : L10n} {screen : Screen} {talk : Talk} {found : Section}
    (read : screen.read? = .ok (some talk)) (located : screen.sections[2]? = some found) :
    screen.Truthful strings ↔ Tells strings talk.dueDate found.rows := by
  constructor
  · rintro ⟨other, place, same, here, tells⟩
    obtain rfl := Option.some.inj (Except.ok.inj (read.symm.trans same))
    obtain rfl := Option.some.inj (located.symm.trans here)
    exact tells
  · exact fun tells => ⟨talk, found, read, located, tells⟩

section Rows

variable {strings : L10n} {dueDate : Option Date} {rows : List Row}

/-- A switch that is off tells of no date, and stands alone. -/
theorem Tells.of_off {text : String} (tells : Tells strings dueDate rows)
    (member : .switch text false ∈ rows) :
    dueDate = none ∧ rows = [.switch strings.talkDateAsk false] := by
  cases dueDate with
  | none => exact ⟨rfl, tells⟩
  | some date => rcases tells with rfl | rfl <;> simp at member

/-- A switch that is on comes first. -/
theorem Tells.of_on {text : String} (tells : Tells strings dueDate rows)
    (member : .switch text true ∈ rows) :
    ∃ rest, rows = .switch strings.talkDateAsk true :: rest := by
  cases dueDate with
  | none =>
      obtain rfl := tells
      simp at member
  | some date => rcases tells with rfl | rfl <;> exact ⟨_, rfl⟩

/-- A picker tells the date, after the switch and the date. -/
theorem Tells.of_picker {picked : Date} (tells : Tells strings dueDate rows)
    (member : .datePicker picked ∈ rows) : dueDate = some picked ∧
      rows = [.switch strings.talkDateAsk true, .date strings.talkDateAlarm picked,
        .datePicker picked] := by
  cases dueDate with
  | none =>
      obtain rfl := tells
      simp at member
  | some date =>
      rcases tells with rfl | rfl
      · simp at member
      · obtain rfl : picked = date := by simpa using member
        exact ⟨rfl, rfl⟩

/-- A date row tells the date, with a picker after it or not. -/
theorem Tells.of_date {title : String} {date : Date} (tells : Tells strings dueDate rows)
    (member : .date title date ∈ rows) : ∃ held, dueDate = some held ∧
      (rows = [.switch strings.talkDateAsk true, .date strings.talkDateAlarm held] ∨
        rows = [.switch strings.talkDateAsk true, .date strings.talkDateAlarm held,
          .datePicker held]) := by
  cases dueDate with
  | none =>
      obtain rfl := tells
      simp at member
  | some held => exact ⟨held, rfl, tells⟩

end Rows

section Handlers

variable {strings : L10n} {screen : Screen} {talk : Talk} {found : Section}

/-- Rows placed in the date section are those found there. -/
theorem Screen.truthful_place_iff (read : screen.read? = .ok (some talk))
    (inside : 2 < screen.sections.length) {rows : List Row} :
    (screen.place 2 found rows).Truthful strings ↔ Tells strings talk.dueDate rows := by
  have here : (screen.place 2 found rows).sections[2]? = some { found with rows } :=
    List.getElem?_set_self inside
  have kept : (screen.place 2 found rows).read? = .ok (some talk) := read
  exact truthful_iff_tells kept here

/-- What a handler leaves is truthful when the screen it makes of the talk is. -/
theorem truthfulAfter_map_iff {before : Except Fault Screen} {event : Event}
    {next : Option Talk → Screen} (read : screen.read? = .ok (some talk)) :
    TruthfulAfter strings before event (screen.read?.map next) ↔
      (next (some talk)).Truthful strings := by
  rw [read]
  constructor
  · rintro ⟨_, ⟨⟩, truthful⟩
    exact truthful
  · exact fun truthful => ⟨_, rfl, truthful⟩

/-- A handler that leaves the sections and the due date alone. -/
theorem Screen.Truthful.quiet {next : Screen} {other : Talk} (truthful : screen.Truthful strings)
    (read : screen.read? = .ok (some talk)) (left : next.read? = .ok (some other))
    (same : next.sections = screen.sections) (dueDate : other.dueDate = talk.dueDate) :
    next.Truthful strings := by
  obtain ⟨_, found, again, located, tells⟩ := truthful
  obtain rfl := Option.some.inj (Except.ok.inj (read.symm.trans again))
  exact ⟨other, found, left, by rw [same, located], by rwa [dueDate]⟩

/-- What a screen that tells the truth shows in the section of a row of the date. -/
theorem Screen.Truthful.section (truthful : screen.Truthful strings)
    (shaped : Shaped screen.sections) (read : screen.read? = .ok (some talk)) {path : IndexPath}
    {row : Row} (reads : screen.row? path = .ok (found, row))
    (kind : (∃ text isOn, row = .switch text isOn) ∨ (∃ title date, row = .date title date) ∨
      ∃ date, row = .datePicker date) :
    path.sectionIdx = 2 ∧ screen.sections[2]? = some found ∧ row ∈ found.rows ∧
      Tells strings talk.dueDate found.rows := by
  obtain ⟨here, third, _, member⟩ := hosts_date shaped reads kind
  rw [third] at here
  exact ⟨third, here, member, (truthful_iff_tells read here).mp truthful⟩

/-- **The switch stays truthful** exactly when it is switched off. -/
theorem truthful_toggleSwitch_iff (shaped : Shaped screen.sections)
    (read : screen.read? = .ok (some talk)) (truthful : screen.Truthful strings)
    {path : IndexPath} {text : String} {isOn : Bool} (now : Date) {commits : Bool}
    (written : isOn = false → commits = true) {before : Except Fault Screen} {event : Event}
    (reads : screen.row? path = .ok (found, .switch text !isOn)) :
    TruthfulAfter strings before event
      (screen.toggleSwitch strings (some path) isOn now commits) ↔ isOn = false := by
  obtain ⟨third, located, member, tells⟩ :=
    truthful.section shaped read reads (Or.inl ⟨_, _, rfl⟩)
  have here : screen.sections[path.sectionIdx]? = some found := third ▸ located
  have inside := (List.getElem?_eq_some_iff.mp located).1
  cases isOn with
  | true =>
      -- the rows say on, the talk still has no date
      obtain ⟨undated, same⟩ := tells.of_off member
      rw [Screen.toggleSwitch_on now commits here, truthfulAfter_map_iff read, third,
        Screen.truthful_place_iff read inside, undated, Tells, same]
      simp [Screen.switched]
  | false =>
      obtain ⟨rest, same⟩ := tells.of_on member
      obtain rfl := written rfl
      have left := Screen.read?_edit true (fun talk => { talk with dueDate := none })
        (fun _ => rfl) read
      rw [Screen.toggleSwitch_off now true here (by simp [same]), truthfulAfter_map_iff read, third,
        Screen.truthful_place_iff left (by simpa using inside)]
      simp [Tells, same, Screen.switched]

/-- **A picked date is told** exactly when it is the date that was shown. -/
theorem truthful_datePickerChanged_iff (shaped : Shaped screen.sections)
    (read : screen.read? = .ok (some talk)) (truthful : screen.Truthful strings)
    {path : IndexPath} {shown date : Date} {before : Except Fault Screen} {event : Event}
    (reads : screen.row? path = .ok (found, .datePicker shown)) :
    TruthfulAfter strings before event
      (screen.datePickerChanged strings (some path) date true) ↔ date = shown := by
  obtain ⟨third, located, member, tells⟩ :=
    truthful.section shaped read reads (Or.inr (Or.inr ⟨_, rfl⟩))
  have here : screen.sections[path.sectionIdx]? = some found := third ▸ located
  have inside := (List.getElem?_eq_some_iff.mp located).1
  obtain ⟨dated, same⟩ := tells.of_picker member
  have left := Screen.read?_edit true (fun talk => { talk with dueDate := some date })
    (fun _ => rfl) read
  rw [Screen.datePickerChanged_of_rows date true here (by simp [same]), truthfulAfter_map_iff read,
    third, Screen.truthful_place_iff left (by simpa using inside)]
  -- the picker's row has the date before
  simp [Tells, same, eq_comm]

/-- Opening and closing the picker tells the date as before. -/
theorem truthful_toggleDatePicker (shaped : Shaped screen.sections)
    (read : screen.read? = .ok (some talk)) (truthful : screen.Truthful strings)
    {path : IndexPath} {title : String} {date : Date} (now : Date)
    {before : Except Fault Screen} {event : Event}
    (reads : screen.row? path = .ok (found, .date title date)) :
    TruthfulAfter strings before event (screen.toggleDatePicker path.sectionIdx now) := by
  obtain ⟨third, located, member, tells⟩ :=
    truthful.section shaped read reads (Or.inr (Or.inl ⟨_, _, rfl⟩))
  have inside := (List.getElem?_eq_some_iff.mp located).1
  rw [third]
  obtain ⟨held, dated, same | same⟩ := tells.of_date member
  · rw [Screen.toggleDatePicker_open now located (by simp [same]), truthfulAfter_map_iff read,
      Screen.truthful_place_iff read inside]
    simp [dated, Tells, same, Screen.dateOf]
  · rw [Screen.toggleDatePicker_close now located (by rw [same]; rfl)]
    refine ⟨_, rfl, ?_⟩
    rw [Screen.truthful_place_iff read inside]
    simp [dated, Tells, same]

/-- Typing tells the date as before. -/
theorem truthful_editingChanged (read : screen.read? = .ok (some talk))
    (truthful : screen.Truthful strings) {path : IndexPath} {shown placeholder : Option String}
    (text : Option String) (commits : Bool) {before : Except Fault Screen} {event : Event}
    (reads : screen.row? path = .ok (found, .editable shown placeholder)) :
    TruthfulAfter strings before event
      (screen.editingChanged strings (some path) text commits) := by
  rw [Screen.editingChanged_of_editable text commits reads, truthfulAfter_map_iff read]
  have left := Screen.read?_edit commits (Screen.typed strings found.title text)
    (typed_identifier strings found.title text) read
  refine truthful.quiet read left rfl ?_
  have kept : (Screen.typed strings found.title text talk).dueDate = talk.dueDate := by
    unfold Screen.typed
    split <;> rfl
  rw [apply_ite Talk.dueDate, kept, ite_self]

/-- The end of editing tells the date as before. -/
theorem truthful_didEndEditing (read : screen.read? = .ok (some talk))
    (truthful : screen.Truthful strings) {path : IndexPath} {shown placeholder : Option String}
    (text : Option String) {before : Except Fault Screen} {event : Event}
    (reads : screen.row? path = .ok (found, .editable shown placeholder)) :
    TruthfulAfter strings before event (screen.didEndEditing strings (some path) text) := by
  have same := Screen.sections_titled strings found text screen
  have kept := (Screen.read?_titled strings found text screen).trans read
  rw [Screen.didEndEditing_of_editable text reads, Screen.sendUpdate_eq]
  split
  · rw [truthfulAfter_map_iff kept]
    exact truthful.quiet read kept same rfl
  · exact ⟨_, rfl, truthful.quiet read kept same rfl⟩

/-- Notes tell the date as before. -/
theorem truthful_textViewDidEndEditing (read : screen.read? = .ok (some talk))
    (truthful : screen.Truthful strings) (text : Option String) (commits : Bool)
    {before : Except Fault Screen} {event : Event} :
    TruthfulAfter strings before event (screen.textViewDidEndEditing text commits) := by
  rw [Screen.textViewDidEndEditing_eq, truthfulAfter_map_iff read]
  have left := Screen.read?_edit commits (fun talk => { talk with notes := text })
    (fun _ => rfl) read
  refine truthful.quiet read left rfl ?_
  rw [apply_ite Talk.dueDate, ite_self]

/-- **An event leaves the truth** exactly when the switch is not turned on by it and the
date that it picks is the one of the picker's row. -/
theorem truthfulAfter_respond_iff (shaped : Shaped screen.sections)
    (truthful : screen.Truthful strings) {event : Event} (hosts : screen.Hosts event)
    (leaves : Leaves screen event) (commits : ¬ event.Fails) :
    TruthfulAfter strings (.ok screen) event (screen.respond strings event) ↔
      Scheduled (.ok screen) event := by
  have held := truthful
  obtain ⟨talk, _, read, _⟩ := held
  cases event with
  | editingChanged path text written =>
      obtain ⟨here, place, shown, placeholder, rfl, reads⟩ := hosts
      exact iff_of_true (truthful_editingChanged read truthful text written reads) trivial
  | didEndEditing path text =>
      obtain ⟨here, place, shown, placeholder, rfl, reads⟩ := hosts
      exact iff_of_true (truthful_didEndEditing read truthful text reads) trivial
  | textViewDidEndEditing text written =>
      exact iff_of_true (truthful_textViewDidEndEditing read truthful text written) trivial
  | toggleSwitch path isOn now written =>
      obtain ⟨here, place, text, rfl, reads⟩ := hosts
      refine truthful_toggleSwitch_iff shaped read truthful now (fun off => ?_) reads
      subst off
      simpa [Event.Fails] using commits
  | datePickerChanged path date written =>
      obtain ⟨here, place, shown, rfl, reads⟩ := hosts
      obtain rfl : written = true := by simpa [Event.Fails] using commits
      apply (truthful_datePickerChanged_iff shaped read truthful reads).trans
      constructor
      · intro still _ _ _ other before picked same
        subst still
        cases before
        cases picked
        cases reads.symm.trans same
        rfl
      · intro scheduled
        exact scheduled _ _ _ _ rfl rfl reads
  | didSelectRowAt path now =>
      obtain ⟨⟨place, row⟩, reads⟩ := hosts
      refine iff_of_true ?_ trivial
      simp only [Screen.respond, Screen.didSelectRowAt, reads, ok_bind]
      cases row with
      | date title date => exact truthful_toggleDatePicker shaped read truthful now reads
      | delete => exact absurd reads (leaves place)
      | text | editable | switch | datePicker | notes => exact ⟨_, rfl, truthful⟩
  | swiped | fetched => exact leaves.elim

end Handlers

/-- The screen is in shape and its date section tells the truth. -/
def Telling (strings : L10n) (state : Except Fault Screen) : Prop :=
  ∃ screen, state = .ok screen ∧ Shaped screen.sections ∧ screen.Truthful strings

/-- The screen under undisturbed events. -/
def undisturbed (strings : L10n) : System (Except Fault Screen) Event :=
  (system strings).restrict Undisturbed

/-- **One step stays truthful** exactly when it was scheduled to. -/
theorem truthful_step_iff {strings : L10n} {before after : Except Fault Screen} {event : Event}
    (telling : Telling strings before) (step : (undisturbed strings).step before event after) :
    TruthfulAfter strings before event after ↔ Scheduled before event := by
  obtain ⟨screen, rfl, shaped, truthful⟩ := telling
  obtain ⟨quiet, _, ⟨⟩, rfl⟩ := step
  obtain ⟨hosts, leaves, commits⟩ := quiet screen rfl
  exact truthfulAfter_respond_iff shaped truthful hosts leaves commits

/-- A step that stays truthful tells the date afterwards. -/
theorem telling_step {strings : L10n} {before after : Except Fault Screen} {event : Event}
    (telling : Telling strings before) (step : (undisturbed strings).step before event after)
    (truth : TruthfulAfter strings before event after) : Telling strings after := by
  obtain ⟨screen, rfl, shaped, _⟩ := telling
  obtain ⟨quiet, _, ⟨⟩, responded⟩ := step
  obtain ⟨next, rfl, truthful⟩ := truth
  have inShape := (inShape_respond strings shaped (quiet screen rfl).1).1
  rw [← responded] at inShape
  exact ⟨next, rfl, inShape.1, truthful⟩

/-- **The date section tells the truth** after every step of exactly the runs that never
turn the switch on and never pick a date other than that of the picker's row, from a view
that has been configured with a talk of the store. -/
theorem truthful_iff_scheduled {strings : L10n} {first screen : Screen} {talk : Talk}
    (read : first.read? = .ok (some talk)) (configured : first.configureView strings = .ok screen)
    {events : List Event} {after : Except Fault Screen} :
    ((undisturbed strings).every (TruthfulAfter strings)).Run (.ok screen) events after ↔
      ((undisturbed strings).restrict Scheduled).Run (.ok screen) events after := by
  apply System.Run.iff_of_invariant (Telling strings)
  · intro before event after telling
    exact and_congr_left fun step => truthful_step_iff telling step
  · intro before event after telling step
    exact telling_step telling step.2 step.1
  · rw [Screen.configureView_eq, read] at configured
    obtain rfl := Except.ok.inj configured
    refine ⟨_, rfl, shaped_sectionsOf strings talk, talk, _, read, rfl, ?_⟩
    cases dueDate : talk.dueDate with
    | none => rfl
    | some date => exact Or.inl rfl

/-- The picker of a scheduled talk is opened and the switch turned off. -/
theorem truthful_iff_scheduled_off :
    let talk : Talk := { keynote with dueDate := some ⟨0⟩ }
    let first : Screen :=
      { store := ⟨[talk], by decide⟩, talk := some { identifier := "keynote" } }
    ∃ screen after, first.configureView L10n.base = .ok screen ∧
      ((undisturbed L10n.base).every (TruthfulAfter L10n.base)).Run (.ok screen)
        [.didSelectRowAt ⟨2, 1⟩ ⟨0⟩, .toggleSwitch (some ⟨2, 0⟩) false ⟨0⟩ true] after := by
  intro talk first
  have read : first.read? = .ok (some talk) := rfl
  let screen := { first with sections := sectionsOf L10n.base talk }
  have configured : first.configureView L10n.base = .ok screen := rfl
  have run : ((undisturbed L10n.base).restrict Scheduled).Run (.ok screen)
      [.didSelectRowAt ⟨2, 1⟩ ⟨0⟩, .toggleSwitch (some ⟨2, 0⟩) false ⟨0⟩ true] _ :=
    .cons ⟨trivial, fun _ same => by
        cases same
        exact ⟨⟨_, rfl⟩, (fun found reads => by cases reads), id⟩, _, rfl, rfl⟩
      (.cons ⟨rfl, fun _ same => by
          cases same
          exact ⟨⟨_, _, _, rfl, rfl⟩, trivial, by simp [Event.Fails]⟩, _, rfl, rfl⟩ (.nil _))
  exact ⟨screen, _, configured, (truthful_iff_scheduled read configured).mpr run⟩

/-- **The section shows what is not stored.** The switch of a talk without a date is turned
on, and another date is picked for a talk that has one. -/
theorem flips_and_picks_untruthful :
    let flipped : Screen := { store := keynoteStore, talk := some { identifier := "keynote" } }
    let picked : Screen :=
      { store := ⟨[{ keynote with dueDate := some ⟨0⟩ }], by decide⟩
        talk := some { identifier := "keynote" } }
    let flips : List Event := [.toggleSwitch (some ⟨2, 0⟩) true ⟨0⟩ true]
    let picks : List Event := [.didSelectRowAt ⟨2, 1⟩ ⟨0⟩,
      .datePickerChanged (some ⟨2, 2⟩) ⟨1⟩ true]
    (∃ screen after, flipped.configureView L10n.base = .ok screen ∧
        (undisturbed L10n.base).Run (.ok screen) flips after ∧
        ¬ ((undisturbed L10n.base).every (TruthfulAfter L10n.base)).Run (.ok screen) flips after) ∧
      ∃ screen after, picked.configureView L10n.base = .ok screen ∧
        (undisturbed L10n.base).Run (.ok screen) picks after ∧
        ¬ ((undisturbed L10n.base).every (TruthfulAfter L10n.base)).Run (.ok screen) picks
          after := by
  intro flipped picked flips picks
  refine ⟨⟨_, _, rfl, .cons ⟨fun _ same => ?_, _, rfl, rfl⟩ (.nil _), ?_⟩,
    ⟨_, _, rfl, .cons ⟨fun _ same => ?_, _, rfl, rfl⟩
      (.cons ⟨fun _ same => ?_, _, rfl, rfl⟩ (.nil _)), ?_⟩⟩
  · cases same
    exact ⟨⟨_, _, _, rfl, rfl⟩, trivial, id⟩
  · intro run
    obtain ⟨_, ⟨truth, _, _, ⟨⟩, rfl⟩, _⟩ := run.cons_inv
    obtain ⟨_, ⟨⟩, _, _, ⟨⟩, ⟨⟩, tells⟩ := truth
    exact absurd tells (by decide)
  · cases same
    exact ⟨⟨_, rfl⟩, (fun found reads => by cases reads), id⟩
  · cases same
    exact ⟨⟨_, _, _, rfl, rfl⟩, trivial, by simp [Event.Fails]⟩
  · intro run
    obtain ⟨_, ⟨_, _, _, ⟨⟩, rfl⟩, run⟩ := run.cons_inv
    obtain ⟨_, ⟨truth, _, _, ⟨⟩, rfl⟩, _⟩ := run.cons_inv
    obtain ⟨_, ⟨⟩, _, _, ⟨⟩, ⟨⟩, tells⟩ := truth
    exact absurd tells (by decide)

end EventTalks.Detail
