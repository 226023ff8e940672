import EventTalks.Detail.Table

/-! # The shape of the detail table

The handlers edit the rows by position: they append, drop the last row, keep the first
one and replace the second. As long as events come from the rows that host their controls,
the sections keep their shape, and with it every position is inside and every update fits
what the table remembers (`EventTalks.Detail.sound_of_run`).
-/

namespace EventTalks.Detail

open Foundation

/-- The rows of the date section: the switch, the date while it is on, and the picker. -/
inductive DateRows : List Row → Prop
  | off (text : String) : DateRows [.switch text false]
  | on (text title : String) (date : Date) : DateRows [.switch text true, .date title date]
  | picking (text title : String) (date picked : Date) :
      DateRows [.switch text true, .date title date, .datePicker picked]

/-- Five sections: the name, the speaker, the date, the notes and the delete row. -/
def Shaped (sections : List Section) : Prop :=
  ∃ name speaker date notes delete : Section,
    sections = [name, speaker, date, notes, delete] ∧
      (∃ text placeholder, name.rows = [.editable text placeholder]) ∧
      (∃ text placeholder, speaker.rows = [.editable text placeholder]) ∧
      DateRows date.rows ∧ (∃ text, notes.rows = [.notes text]) ∧ delete.rows = [.delete]

/-- A control's event comes from the row that hosts the control, a switch reports the
negation of what its row says, and taps are on rows that exist. -/
def Screen.Hosts (screen : Screen) : Event → Prop
  | .editingChanged path _ _ | .didEndEditing path _ => ∃ here found shown placeholder,
      path = some here ∧ screen.row? here = .ok (found, .editable shown placeholder)
  | .toggleSwitch path isOn _ _ => ∃ here found text,
      path = some here ∧ screen.row? here = .ok (found, .switch text !isOn)
  | .datePickerChanged path _ _ => ∃ here found shown,
      path = some here ∧ screen.row? here = .ok (found, .datePicker shown)
  | .didSelectRowAt path _ => ∃ place, screen.row? path = .ok place
  | .textViewDidEndEditing _ _ | .swiped | .fetched _ _ => True

/-- Assignments, and events from their own rows. -/
def Screen.Allows (screen : Screen) : Use → Prop
  | .assign _ | .viewDidLoad => True
  | .event happens => screen.Hosts happens

/-- The date section has rows. -/
theorem DateRows.ne_nil {rows : List Row} (dated : DateRows rows) : rows ≠ [] := by
  cases dated <;> simp

/-- A switch that is off stands alone. -/
theorem DateRows.of_off {rows : List Row} {text : String} (dated : DateRows rows)
    (member : .switch text false ∈ rows) : rows = [.switch text false] := by
  cases dated with
  | off =>
      obtain rfl := (Row.switch.inj (List.mem_singleton.mp member)).1
      rfl
  | on | picking => simp at member

/-- A switch that is on has a date after it. -/
theorem DateRows.of_on {rows : List Row} {text : String} (dated : DateRows rows)
    (member : .switch text true ∈ rows) :
    ∃ title date rest, rows = .switch text true :: .date title date :: rest := by
  cases dated with
  | off => simp at member
  | on | picking =>
      obtain rfl : text = _ := by simpa using member
      exact ⟨_, _, _, rfl⟩

/-- A picker comes last, after the switch and the date. -/
theorem DateRows.of_picker {rows : List Row} {picked : Date} (dated : DateRows rows)
    (member : .datePicker picked ∈ rows) :
    ∃ text title date, rows = [.switch text true, .date title date, .datePicker picked] := by
  cases dated with
  | off | on => simp at member
  | picking =>
      obtain rfl : picked = _ := by simpa using member
      exact ⟨_, _, _, rfl⟩

/-- A date comes after a switch that is on. -/
theorem DateRows.of_date {rows : List Row} {title : String} {date : Date} (dated : DateRows rows)
    (member : .date title date ∈ rows) :
    ∃ text, rows = [.switch text true, .date title date] ∨
      ∃ picked, rows = [.switch text true, .date title date, .datePicker picked] := by
  cases dated with
  | off => simp at member
  | on =>
      obtain ⟨rfl, rfl⟩ : title = _ ∧ date = _ := by simpa using member
      exact ⟨_, Or.inl rfl⟩
  | picking =>
      obtain ⟨rfl, rfl⟩ : title = _ ∧ date = _ := by simpa using member
      exact ⟨_, Or.inr ⟨_, rfl⟩⟩

section Sections

variable {sections : List Section} {found : Section} {index : Nat}

/-- Setting the rows of a section sets its count. -/
theorem counts_set (rows : List Row) :
    counts (sections.set index { found with rows }) = (counts sections).set index rows.length := by
  simp [counts, List.map_set]

/-- The count of a section is that of its rows. -/
theorem getElem?_counts (located : sections[index]? = some found) :
    (counts sections)[index]? = some found.rows.length := by
  simp [counts, located]

/-- The sections of a talk have the shape. -/
theorem shaped_sectionsOf (strings : L10n) (talk : Talk) : Shaped (sectionsOf strings talk) := by
  refine ⟨_, _, _, _, _, rfl, ⟨_, _, rfl⟩, ⟨_, _, rfl⟩, ?_, ⟨_, rfl⟩, rfl⟩
  cases talk.dueDate with
  | none => exact .off _
  | some date => exact .on _ _ _

/-- A switch, a date and a picker are in the third section. -/
theorem Shaped.dateSection (shaped : Shaped sections) (located : sections[index]? = some found)
    {row : Row} (member : row ∈ found.rows)
    (kind : (∃ text isOn, row = .switch text isOn) ∨ (∃ title date, row = .date title date) ∨
      ∃ date, row = .datePicker date) : index = 2 ∧ DateRows found.rows := by
  obtain ⟨name, speaker, date, notes, delete, rfl, ⟨_, _, first⟩, ⟨_, _, second⟩, third,
    ⟨_, fourth⟩, fifth⟩ := shaped
  match index, located with
  | 0, located =>
      obtain rfl := Option.some.inj located
      rw [first, List.mem_singleton] at member
      simp [member] at kind
  | 1, located =>
      obtain rfl := Option.some.inj located
      rw [second, List.mem_singleton] at member
      simp [member] at kind
  | 2, located =>
      obtain rfl := Option.some.inj located
      exact ⟨rfl, third⟩
  | 3, located =>
      obtain rfl := Option.some.inj located
      rw [fourth, List.mem_singleton] at member
      simp [member] at kind
  | 4, located =>
      obtain rfl := Option.some.inj located
      rw [fifth, List.mem_singleton] at member
      simp [member] at kind
  | _ + 5, located => simp at located

/-- The sections keep their shape when the date section does. -/
theorem Shaped.place (shaped : Shaped sections) {rows : List Row} (kept : DateRows rows) :
    Shaped (sections.set 2 { found with rows }) := by
  obtain ⟨name, speaker, date, notes, delete, rfl, first, second, _, fourth, fifth⟩ := shaped
  exact ⟨name, speaker, _, notes, delete, rfl, first, second, kept, fourth, fifth⟩

end Sections

/-- A screen in shape after a handler, with the sections that the table was told to read;
or a fault that is not about a position. -/
def InShape (screen : Screen) (told : Option (TableUpdate × List Section)) :
    Except Fault Screen → Prop
  | .ok after => Shaped after.sections ∧ after.sections = (told.map Prod.snd).getD screen.sections
  | .error fault => fault = .invalidated ∨ fault = .unmanaged

/-- What the table is told fits what it remembers. -/
def Fitting (screen : Screen) (told : Option (TableUpdate × List Section)) : Prop :=
  ∀ update sections, told = some (update, sections) →
    update.Fits (counts screen.sections) (counts sections)

/-- Nothing announced fits. -/
theorem fitting_none (screen : Screen) : Fitting screen none := by
  intro update sections told
  cases told

/-- An update that fits the counts fits. -/
theorem fitting_some {screen : Screen} {update : TableUpdate} {sections : List Section}
    (fits : update.Fits (counts screen.sections) (counts sections)) :
    Fitting screen (some (update, sections)) := by
  intro other after told
  cases told
  exact fits

section Handlers

variable {strings : L10n} {screen : Screen}

/-- A handler that reads the talk and tells the table nothing. -/
theorem inShape_quiet (shaped : Shaped screen.sections) {next : Option Talk → Screen}
    (same : ∀ talk, (next talk).sections = screen.sections) :
    InShape screen none (screen.read?.map next) := by
  cases read : screen.read? with
  | error fault => exact Or.inl (Screen.read?_error read)
  | ok talk => exact ⟨by rw [same talk]; exact shaped, same talk⟩

/-- A switch, a date or a picker is in the date section. -/
theorem hosts_date (shaped : Shaped screen.sections) {path : IndexPath} {found : Section}
    {row : Row} (reads : screen.row? path = .ok (found, row))
    (kind : (∃ text isOn, row = .switch text isOn) ∨ (∃ title date, row = .date title date) ∨
      ∃ date, row = .datePicker date) :
    screen.sections[path.sectionIdx]? = some found ∧ path.sectionIdx = 2 ∧
      DateRows found.rows ∧ row ∈ found.rows := by
  obtain ⟨located, inside⟩ := Screen.row?_eq_ok.mp reads
  have member := List.mem_of_getElem? inside
  obtain ⟨third, dated⟩ := shaped.dateSection located member kind
  exact ⟨located, third, dated, member⟩

/-- A handler that reads the talk, changes the rows of the date section, and has that
section reloaded. -/
theorem inShape_reload (shaped : Shaped screen.sections) {found : Section} {index : Nat}
    (located : screen.sections[index]? = some found) (third : index = 2)
    {next : Option Talk → Screen} (rows : Option Talk → List Row)
    (set : ∀ talk, (next talk).sections =
      screen.sections.set index { found with rows := rows talk })
    (kept : ∀ talk, DateRows (rows talk)) {told : Option (TableUpdate × List Section)}
    (tells : told = match screen.read?.map next with
      | .ok after => some (.reloadSections index, after.sections)
      | .error _ => none) :
    InShape screen told (screen.read?.map next) ∧ Fitting screen told := by
  subst tells
  cases read : screen.read? with
  | error fault => exact ⟨Or.inl (Screen.read?_error read), fitting_none screen⟩
  | ok talk =>
      refine ⟨⟨?_, rfl⟩, ?_⟩
      · rw [set, third]
        exact shaped.place (kept talk)
      · apply fitting_some
        have inside := (List.getElem?_eq_some_iff.mp (getElem?_counts located)).1
        exact ⟨inside, _, by rw [set, counts_set]⟩

/-- A switch that is flipped adds the date, or leaves its own row only. -/
theorem inShape_toggleSwitch (shaped : Shaped screen.sections) {path : IndexPath}
    {found : Section} {text : String} {isOn : Bool} (now : Date) (commits : Bool)
    (reads : screen.row? path = .ok (found, .switch text !isOn)) :
    InShape screen (screen.update strings (.toggleSwitch (some path) isOn now commits))
        (screen.toggleSwitch strings (some path) isOn now commits) ∧
      Fitting screen (screen.update strings (.toggleSwitch (some path) isOn now commits)) := by
  obtain ⟨located, third, dated, member⟩ := hosts_date shaped reads (Or.inl ⟨_, _, rfl⟩)
  cases isOn with
  | true =>
      simp only [Screen.update, Screen.toggleSwitch_on now commits located]
      refine inShape_reload shaped located third _ (fun talk => rfl) (fun talk => ?_) rfl
      rw [dated.of_off member]
      exact .on _ _ _
  | false =>
      obtain ⟨title, date, rest, same⟩ := dated.of_on member
      simp only [Screen.update, Screen.toggleSwitch_off now commits located dated.ne_nil]
      refine inShape_reload shaped located third
        (fun _ => Screen.switched false (found.rows.take 1)) (fun talk => ?_)
        (fun talk => ?_) rfl
      · simp [Screen.place]
      · rw [same]
        exact .off _

/-- A date picked replaces the date row, the second one, and has it reloaded. -/
theorem inShape_datePickerChanged (shaped : Shaped screen.sections) {path : IndexPath}
    {found : Section} {shown : Date} (date : Date) (commits : Bool)
    (reads : screen.row? path = .ok (found, .datePicker shown)) :
    InShape screen (screen.update strings (.datePickerChanged (some path) date commits))
        (screen.datePickerChanged strings (some path) date commits) ∧
      Fitting screen (screen.update strings (.datePickerChanged (some path) date commits)) := by
  obtain ⟨located, third, dated, member⟩ := hosts_date shaped reads (Or.inr (Or.inr ⟨_, rfl⟩))
  obtain ⟨text, title, before, same⟩ := dated.of_picker member
  have enough : 1 < found.rows.length := by simp [same]
  simp only [Screen.update, located, Nat.not_le.mpr enough, ↓reduceIte,
    Screen.datePickerChanged_of_rows date commits located enough]
  constructor
  · cases read : screen.read? with
    | error fault => exact Or.inl (Screen.read?_error read)
    | ok talk =>
        refine ⟨?_, by simp [Screen.place]⟩
        simp only [Screen.place, Screen.sections_edit, third]
        refine shaped.place ?_
        rw [same]
        exact .picking _ _ _ _
  · apply fitting_some
    refine ⟨found.rows.length, found.rows.length, getElem?_counts located, ?_, by simp, by simp,
      ?_, rfl⟩
    · rw [counts_set, List.length_set]
    · simpa using enough

/-- A tap on the date row closes the picker, which is last, or opens it there. -/
theorem inShape_toggleDatePicker (shaped : Shaped screen.sections) {path : IndexPath}
    {found : Section} {title : String} {date : Date} (now : Date)
    (reads : screen.row? path = .ok (found, .date title date)) :
    InShape screen (screen.pickerUpdate path.sectionIdx now)
        (screen.toggleDatePicker path.sectionIdx now) ∧
      Fitting screen (screen.pickerUpdate path.sectionIdx now) := by
  obtain ⟨located, third, dated, member⟩ :=
    hosts_date shaped reads (Or.inr (Or.inl ⟨_, _, rfl⟩))
  obtain ⟨text, same | ⟨picked, same⟩⟩ := dated.of_date member
  · have last : ∀ date, found.rows.getLast? ≠ some (.datePicker date) := by simp [same]
    simp only [Screen.pickerUpdate, located, Screen.toggleDatePicker_open now located last]
    cases read : screen.read? with
    | error fault => exact ⟨Or.inl (Screen.read?_error read), fitting_none screen⟩
    | ok talk =>
        refine ⟨⟨?_, rfl⟩, ?_⟩
        · simp only [Screen.place, third]
          refine shaped.place ?_
          rw [same]
          exact .picking _ _ _ _
        · apply fitting_some
          refine ⟨_, _, getElem?_counts located, counts_set _, ?_⟩
          simp [Edits.Balanced]
  · have last : found.rows.getLast? = some (.datePicker picked) := by simp [same]
    simp only [Screen.pickerUpdate, located, last, Screen.toggleDatePicker_close now located last]
    refine ⟨⟨?_, rfl⟩, ?_⟩
    · simp only [Screen.place, third]
      refine shaped.place ?_
      rw [same]
      exact .on _ _ _
    · apply fitting_some
      refine ⟨_, _, getElem?_counts located, counts_set _, ?_⟩
      simp [Edits.Balanced, same]

/-- The delete row leaves the sections alone. -/
theorem inShape_deleteTalk (shaped : Shaped screen.sections) :
    InShape screen none (do
      let after ← screen.deleteTalk
      return after.sendDelete) := by
  unfold Screen.deleteTalk
  have sent : ∀ after : Screen, after.sendDelete.sections = after.sections := by
    intro after
    unfold Screen.sendDelete
    split <;> rfl
  cases screen.talk with
  | none => exact ⟨by rw [sent]; exact shaped, sent screen⟩
  | some accessor =>
      simp only
      split
      · exact Or.inr rfl
      · split
        · exact ⟨by rw [sent]; exact shaped, sent _⟩
        · exact ⟨by rw [sent]; exact shaped, sent _⟩

/-- **An event from its own row keeps the shape**, and tells the table what fits. -/
theorem inShape_respond (strings : L10n) (shaped : Shaped screen.sections) {event : Event}
    (hosts : screen.Hosts event) :
    InShape screen (screen.update strings event) (screen.respond strings event) ∧
      Fitting screen (screen.update strings event) := by
  cases event with
  | editingChanged path text commits =>
      obtain ⟨here, found, shown, placeholder, rfl, reads⟩ := hosts
      rw [Screen.respond, Screen.editingChanged_of_editable text commits reads]
      exact ⟨inShape_quiet shaped fun talk => by simp, fitting_none screen⟩
  | didEndEditing path text =>
      obtain ⟨here, found, shown, placeholder, rfl, reads⟩ := hosts
      refine ⟨?_, fitting_none screen⟩
      have same := Screen.sections_titled strings found text screen
      rw [Screen.respond, Screen.didEndEditing_of_editable text reads, Screen.sendUpdate_eq,
        Screen.read?_titled]
      split
      · exact inShape_quiet shaped fun talk => same
      · exact ⟨by rwa [same], same⟩
  | toggleSwitch path isOn now commits =>
      obtain ⟨here, found, text, rfl, reads⟩ := hosts
      exact inShape_toggleSwitch shaped now commits reads
  | datePickerChanged path date commits =>
      obtain ⟨here, found, shown, rfl, reads⟩ := hosts
      exact inShape_datePickerChanged shaped date commits reads
  | textViewDidEndEditing text commits =>
      rw [Screen.respond, Screen.textViewDidEndEditing_eq]
      exact ⟨inShape_quiet shaped fun talk => by simp, fitting_none screen⟩
  | didSelectRowAt path now =>
      obtain ⟨⟨found, row⟩, reads⟩ := hosts
      simp only [Screen.respond, Screen.didSelectRowAt, Screen.update, reads, ok_bind]
      cases row with
      | date title date => exact inShape_toggleDatePicker shaped now reads
      | delete => exact ⟨inShape_deleteTalk shaped, fitting_none screen⟩
      | text | editable | switch | datePicker | notes =>
          exact ⟨⟨shaped, rfl⟩, fitting_none screen⟩
  | swiped =>
      refine ⟨?_, fitting_none screen⟩
      unfold Screen.respond Screen.swiped
      cases screen.talk <;> exact ⟨shaped, rfl⟩
  | fetched initials talks => exact ⟨⟨shaped, rfl⟩, fitting_none screen⟩

/-- The view is configured with the sections of the talk, and the table reads them all. -/
theorem inShape_configureView (strings : L10n) (shaped : Shaped screen.sections) :
    InShape screen (screen.configured strings) (screen.configureView strings) ∧
      Fitting screen (screen.configured strings) := by
  unfold Screen.configured
  rw [Screen.configureView_eq]
  cases read : screen.read? with
  | error fault =>
      refine ⟨?_, fun update sections told => ?_⟩
      · exact Or.inl (Screen.read?_error read)
      · cases refers : screen.talk <;> simp [refers, Except.map] at told
  | ok talk =>
      cases talk with
      | none =>
          rw [Screen.read?_eq_none.mp read]
          exact ⟨⟨shaped, rfl⟩, fitting_none screen⟩
      | some talk =>
          obtain ⟨accessor, refers, _⟩ := Screen.read?_eq_some.mp read
          rw [refers]
          exact ⟨⟨shaped_sectionsOf strings talk, rfl⟩, fitting_some trivial⟩

/-- A talk that is assigned keeps the shape, and its update fits. -/
theorem inShape_assign (strings : L10n) (shaped : Shaped screen.sections)
    (identifier : Option String) :
    InShape screen (screen.announces strings (.assign identifier))
        (screen.use strings (.assign identifier)) ∧
      Fitting screen (screen.announces strings (.assign identifier)) := by
  simp only [Screen.use, Screen.announces, Screen.assign_eq]
  generalize identifier.map (fun identifier => ({ identifier } : Accessor)) = reference
  cases read : { screen with talk := reference }.read? with
  | error fault => exact ⟨Or.inl (Screen.read?_error read), fitting_none screen⟩
  | ok talk =>
      have same : (screen.refer reference talk).sections = screen.sections := by
        rw [Screen.refer_eq]
      have loaded : (screen.refer reference talk).isViewLoaded = screen.isViewLoaded := by
        rw [Screen.refer_eq]
      simp only [Except.bind, loaded]
      split
      · have configured := inShape_configureView strings (by rwa [same])
        unfold InShape Fitting at configured ⊢
        rw [same] at configured
        exact configured
      · exact ⟨⟨by rwa [same], same⟩, fitting_none screen⟩

/-- **Every use keeps the shape**, and tells the table what fits. -/
theorem inShape_use (strings : L10n) (shaped : Shaped screen.sections) {use : Use}
    (allows : screen.Allows use) :
    InShape screen (screen.announces strings use) (screen.use strings use) ∧
      Fitting screen (screen.announces strings use) := by
  cases use with
  | assign identifier => exact inShape_assign strings shaped identifier
  | viewDidLoad =>
      have same : { screen with isViewLoaded := true }.withUpdater.sections = screen.sections := by
        rw [Screen.withUpdater_eq]
      have configured := inShape_configureView strings (by rwa [same])
      unfold InShape Fitting at configured ⊢
      rw [same] at configured
      exact configured
  | event happens => exact inShape_respond strings shaped allows

end Handlers

/-- The screen in shape, with its table: the sections have their shape, the table
remembers their counts, every update fits, the positions that the handlers and the table
use are inside, and the second row is the date while there is a picker. -/
structure Sound (texts : CellTexts) (hosting : Hosting) : Prop where
  shaped : Shaped hosting.screen.sections
  remembered : hosting.counts = counts hosting.screen.sections
  fits : ∀ use update sections, hosting.screen.Allows use →
    hosting.screen.announces texts.toL10n use = some (update, sections) →
      update.Fits hosting.counts (counts sections)
  inside : ∀ use fault, hosting.screen.Allows use →
    hosting.screen.use texts.toL10n use = .error fault →
      fault ≠ .indexOutOfRange ∧ fault ≠ .negativeCount
  dated : ∀ path date commits, hosting.screen.Hosts (.datePickerChanged (some path) date commits) →
    ∃ found title shown, hosting.screen.section? path.sectionIdx = .ok found ∧
      found.rows[1]? = some (.date title shown)
  reads : hosting.screen.numberOfSections = hosting.counts.length ∧
    ∀ index count, hosting.counts[index]? = some count →
      hosting.screen.numberOfRowsInSection index = .ok count ∧
      (∃ title, hosting.screen.titleForHeaderInSection index = .ok title) ∧
      ∀ row < count, (∃ place, hosting.screen.row? ⟨index, row⟩ = .ok place) ∧
        (∀ toString, ∃ cell, hosting.screen.cellForRowAt texts toString ⟨index, row⟩ = .ok cell) ∧
        ∃ height, hosting.screen.estimatedHeightForRowAt ⟨index, row⟩ = .ok height

/-- The rows that the table remembers are there. -/
theorem reads_of_counts (texts : CellTexts) (screen : Screen) {index count : Nat}
    (remembered : (counts screen.sections)[index]? = some count) :
    screen.numberOfRowsInSection index = .ok count ∧
      (∃ title, screen.titleForHeaderInSection index = .ok title) ∧
      ∀ row < count, (∃ place, screen.row? ⟨index, row⟩ = .ok place) ∧
        (∀ toString, ∃ cell, screen.cellForRowAt texts toString ⟨index, row⟩ = .ok cell) ∧
        ∃ height, screen.estimatedHeightForRowAt ⟨index, row⟩ = .ok height := by
  obtain ⟨found, located, rfl⟩ : ∃ found, screen.sections[index]? = some found ∧
      found.rows.length = count := by
    simpa [counts] using remembered
  have reached := Screen.section?_eq_ok.mpr located
  simp only [Screen.numberOfRowsInSection, Screen.titleForHeaderInSection, reached, ok_bind]
  refine ⟨rfl, ⟨_, rfl⟩, fun row inside => ?_⟩
  have here : screen.row? ⟨index, row⟩ = .ok (found, found.rows[row]) :=
    Screen.row?_eq_ok.mpr ⟨located, List.getElem?_eq_getElem inside⟩
  simp only [Screen.cellForRowAt, Screen.estimatedHeightForRowAt, here, ok_bind]
  exact ⟨⟨_, rfl⟩, fun toString => ⟨_, rfl⟩, _, rfl⟩

/-- A screen in shape, with a table that remembers its counts, is sound. -/
theorem sound_of_shaped (texts : CellTexts) {hosting : Hosting}
    (shaped : Shaped hosting.screen.sections)
    (remembered : hosting.counts = counts hosting.screen.sections) : Sound texts hosting where
  shaped := shaped
  remembered := remembered
  fits := by
    intro use update sections allows told
    rw [remembered]
    exact (inShape_use texts.toL10n shaped allows).2 update sections told
  inside := by
    intro use fault allows fails
    have kept := (inShape_use texts.toL10n shaped allows).1
    rw [fails] at kept
    rcases kept with rfl | rfl <;> simp
  dated := by
    rintro path date commits ⟨_, found, shown, ⟨⟩, reads⟩
    obtain ⟨located, _, dated, member⟩ := hosts_date shaped reads (Or.inr (Or.inr ⟨_, rfl⟩))
    obtain ⟨text, title, before, same⟩ := dated.of_picker member
    exact ⟨found, title, before, Screen.section?_eq_ok.mpr located, by rw [same]; rfl⟩
  reads := by
    rw [remembered]
    exact ⟨by simp [Screen.numberOfSections, counts], fun index count =>
      reads_of_counts texts hosting.screen⟩

/-- Uses that the screen allows. -/
def Allowed (state : Except Fault Hosting) (use : Use) : Prop :=
  ∀ hosting, state = .ok hosting → hosting.screen.Allows use

/-- **The table keeps its shape and its accounting**, once the view is configured with a
talk, through assignments and events from their own rows. -/
theorem sound_of_run {texts : CellTexts} {first screen : Screen} (refers : first.talk ≠ none)
    (configured : first.configureView texts.toL10n = .ok screen) {uses : List Use}
    {after : Hosting}
    (run : ((hosting texts.toL10n).restrict Allowed).Run
      (.ok { screen, counts := counts screen.sections }) uses (.ok after)) :
    Sound texts after := by
  have initially : Shaped screen.sections := by
    rw [Screen.configureView_eq] at configured
    obtain ⟨talk, read, rfl⟩ := map_eq_ok.mp configured
    cases talk with
    | none => exact absurd (Screen.read?_eq_none.mp read) refers
    | some talk => exact shaped_sectionsOf texts.toL10n talk
  have kept := run.preserves (fun state => ∀ hosting, state = .ok hosting →
      Shaped hosting.screen.sections ∧ hosting.counts = counts hosting.screen.sections) ?_ ?_
  · obtain ⟨shaped, remembered⟩ := kept after rfl
    exact sound_of_shaped texts shaped remembered
  · intro before use reaches invariant step next used
    obtain ⟨allowed, state, rfl, rfl⟩ := step
    obtain ⟨shaped, remembered⟩ := invariant state rfl
    obtain ⟨reached, moved, rfl⟩ := map_eq_ok.mp used
    have inShape := (inShape_use texts.toL10n shaped (allowed state rfl)).1
    rw [moved] at inShape
    obtain ⟨still, same⟩ := inShape
    refine ⟨still, ?_⟩
    simp only
    rw [same]
    cases told : state.screen.announces texts.toL10n use with
    | none => exact remembered
    | some _ => rfl
  · intro start here
    cases here
    exact ⟨initially, rfl⟩

/-- The switch is turned on, the picker opened, a date picked, another talk assigned. -/
theorem sound_of_run_picking :
    let first : Screen :=
      { store := keynoteStore, talk := some { identifier := "keynote" }, isViewLoaded := true }
    let screen := { first with sections := sectionsOf L10n.base keynote }
    let uses : List Use := [.event (.toggleSwitch (some ⟨2, 0⟩) true ⟨0⟩ true),
      .event (.didSelectRowAt ⟨2, 1⟩ ⟨0⟩), .event (.datePickerChanged (some ⟨2, 2⟩) ⟨1⟩ true),
      .assign (some (UUID.uuidString default))]
    first.talk ≠ none ∧ first.configureView CellTexts.base.toL10n = .ok screen ∧
      ∃ after, ((hosting L10n.base).restrict Allowed).Run
          (.ok { screen, counts := counts screen.sections }) uses (.ok after) ∧
        Sound CellTexts.base after := by
  intro first screen uses
  have refers : first.talk ≠ none := Option.some_ne_none _
  have configured : first.configureView CellTexts.base.toL10n = .ok screen := rfl
  have run : ((hosting CellTexts.base.toL10n).restrict Allowed).Run
      (.ok { screen, counts := counts screen.sections }) uses (.ok _) :=
    .cons ⟨fun _ same => by cases same; exact ⟨_, _, _, rfl, rfl⟩, _, rfl, rfl⟩
      (.cons ⟨fun _ same => by cases same; exact ⟨_, rfl⟩, _, rfl, rfl⟩
        (.cons ⟨fun _ same => by cases same; exact ⟨_, _, _, rfl, rfl⟩, _, rfl, rfl⟩
          (.cons ⟨fun _ _ => trivial, _, rfl, rfl⟩ (.nil _))))
  exact ⟨refers, configured, _, run, sound_of_run refers configured run⟩

end EventTalks.Detail
