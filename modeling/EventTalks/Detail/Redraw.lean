import EventTalks.Detail.Table

/-! # Redrawing the text rows

The sections have the texts as they were when the view was configured, and editing a text
writes the talk only. A cell that is drawn again therefore shows the old text
(`EventTalks.Detail.typed_not_redrawn`): redraws show what is stored in exactly the runs
that redraw a row only while its text is the one it was configured with
(`EventTalks.Detail.showsStored_iff_configured`).
-/

namespace EventTalks.Detail

open Foundation

/-- The text of the talk that a row is about. -/
def IndexPath.field? : IndexPath → Option (Talk → Option String)
  | ⟨0, 0⟩ => some Talk.name
  | ⟨1, 0⟩ => some Talk.speakerName
  | ⟨3, 0⟩ => some Talk.notes
  | _ => none

/-- The text that a cell is given. -/
def Cell.content : Cell → Option String
  | .text shown _ _ _ | .editable _ shown | .notes shown => shown
  | .datePicker _ => none

/-- A text is edited, or the table asks for a cell. -/
inductive Act where
  | edit (event : Event)
  | draw (path : IndexPath)

/-- An edit of a text whose transaction, if there is one, commits. -/
def Event.EditsText (event : Event) : Prop :=
  match event with
  | .editingChanged _ _ commits | .textViewDidEndEditing _ commits => commits = true
  | .didEndEditing _ _ => True
  | .toggleSwitch _ _ _ _ | .datePickerChanged _ _ _ | .didSelectRowAt _ _ | .swiped
  | .fetched _ _ => False

/-- The screen under edits of its texts and redraws, until a fault stops it. -/
def drawing (strings : L10n) : System (Except Fault Screen) Act where
  step before act after := ∃ screen, before = .ok screen ∧
    match act with
    | .edit event => event.EditsText ∧ after = screen.respond strings event
    | .draw _ => after = before

/-- A redraw of a text row gives its cell the text that is stored. -/
def ShowsStored (texts : CellTexts) (toString : Date → String)
    (before : Except Fault Screen) (act : Act)
    (_ : Except Fault Screen) : Prop :=
  ∀ screen path field, before = .ok screen → act = .draw path → path.field? = some field →
    ∃ talk cell, screen.read? = .ok (some talk) ∧
      screen.cellForRowAt texts toString path = .ok cell ∧ cell.content = field talk

/-- A text row is redrawn while its text is the one that the view was configured with. -/
def AsConfigured (configured : Talk) (before : Except Fault Screen) (act : Act) : Prop :=
  ∀ screen path field talk, before = .ok screen → act = .draw path →
    path.field? = some field → screen.read? = .ok (some talk) → field talk = field configured

/-- The sections are those of a talk, and a talk is in the store. -/
def Screen.Snapshot (strings : L10n) (configured : Talk) (screen : Screen) : Prop :=
  screen.sections = sectionsOf strings configured ∧ ∃ talk, screen.read? = .ok (some talk)

section Screens

variable {strings : L10n} {screen next : Screen} {configured : Talk}

theorem Screen.Snapshot.of_read {talk : Option Talk} (snapshot : screen.Snapshot strings configured)
    (left : next.read? = .ok talk) (same : next.sections = screen.sections)
    (present : talk ≠ none) : next.Snapshot strings configured := by
  obtain ⟨other, rfl⟩ := Option.ne_none_iff_exists'.mp present
  exact ⟨same.trans snapshot.1, other, left⟩

/-- **An edit of a text leaves the sections as they were.** -/
theorem Screen.Snapshot.respond {event : Event} (snapshot : screen.Snapshot strings configured)
    (edits : event.EditsText) (responded : screen.respond strings event = .ok next) :
    next.Snapshot strings configured := by
  obtain ⟨talk, read⟩ := snapshot.2
  cases moved_of_respond responded with
  | idle => exact snapshot
  | @typed path text commits found shown placeholder other reads again =>
      obtain rfl := Except.ok.inj (read.symm.trans again)
      have left := read?_edit commits (Screen.typed strings found.title text)
        (typed_identifier strings found.title text) read
      exact snapshot.of_read left rfl (by simp)
  | @ended path text found shown placeholder _ reads sends =>
      obtain ⟨_, refers, store⟩ := sendUpdate_fields sends
      have left : next.read? = screen.read? := read?_congr (by simp [store]) (by simp [refers])
      refine snapshot.of_read (left.trans read) ?_ (by simp)
      rw [sendUpdate_eq] at sends
      split at sends
      · obtain ⟨_, _, rfl⟩ := map_eq_ok.mp sends
        exact sections_titled strings found text screen
      · obtain rfl := Except.ok.inj sends
        exact sections_titled strings found text screen
  | @noted text commits other again =>
      obtain rfl := Except.ok.inj (read.symm.trans again)
      have left := read?_edit commits (fun talk => { talk with notes := text }) (fun _ => rfl) read
      exact snapshot.of_read left (by simp) (by simp)
  | switchedOn | switchedOff | picked | closed | opened | deleted | swiped | fetched =>
      exact edits.elim

/-- The cell of a text row has the text that the view was configured with. -/
theorem content_cellForRowAt (texts : CellTexts) (toString : Date → String)
    (same : screen.sections = sectionsOf texts.toL10n configured) {path : IndexPath}
    {field : Talk → Option String} (about : path.field? = some field) :
    ∃ cell, screen.cellForRowAt texts toString path = .ok cell ∧
      cell.content = field configured := by
  unfold IndexPath.field? at about
  split at about
  case h_4 => cases about
  all_goals
    obtain rfl := Option.some.inj about
    simp [Screen.cellForRowAt, Screen.row?, Screen.section?, same, sectionsOf, pure, Except.pure,
      Cell.content]

end Screens

theorem asConfigured_edit (configured : Talk) (before : Except Fault Screen) (event : Event) :
    AsConfigured configured before (.edit event) := by
  intro screen path _ _ _ draws
  cases draws

theorem asConfigured_draw {configured talk : Talk} {screen : Screen} {path : IndexPath}
    {field : Talk → Option String} (about : path.field? = some field)
    (read : screen.read? = .ok (some talk)) (same : field talk = field configured) :
    AsConfigured configured (.ok screen) (.draw path) := by
  intro _ _ other again here draws found reads
  cases here
  cases draws
  obtain rfl := Option.some.inj (about.symm.trans found)
  obtain rfl := Option.some.inj (Except.ok.inj (read.symm.trans reads))
  exact same

/-- The sections stay as configured, and the talk in the store. -/
def Snapshot (strings : L10n) (configured : Talk) (state : Except Fault Screen) : Prop :=
  ∀ screen, state = .ok screen → screen.Snapshot strings configured

theorem showsStored_step_iff {texts : CellTexts} (toString : Date → String) {configured : Talk}
    {before after : Except Fault Screen} {act : Act}
    (snapshot : Snapshot texts.toL10n configured before) :
    ShowsStored texts toString before act after ↔ AsConfigured configured before act := by
  constructor
  · intro shows screen path field talk here draws about read
    subst here draws
    obtain ⟨stored, cell, again, drawn, content⟩ := shows screen path field rfl rfl about
    obtain rfl := Option.some.inj (Except.ok.inj (read.symm.trans again))
    obtain ⟨other, same, old⟩ :=
      content_cellForRowAt texts toString (snapshot screen rfl).1 about
    obtain rfl := Except.ok.inj (drawn.symm.trans same)
    exact content.symm.trans old
  · intro kept screen path field here draws about
    subst here draws
    obtain ⟨same, talk, read⟩ := snapshot screen rfl
    obtain ⟨cell, drawn, old⟩ := content_cellForRowAt texts toString same about
    exact ⟨talk, cell, read, drawn, old.trans (kept screen path field talk rfl rfl about read).symm⟩

theorem snapshot_step {strings : L10n} {configured : Talk} {before after : Except Fault Screen}
    {act : Act} (snapshot : Snapshot strings configured before)
    (step : (drawing strings).step before act after) : Snapshot strings configured after := by
  obtain ⟨screen, rfl, moved⟩ := step
  intro next reached
  cases act with
  | draw path =>
      obtain rfl := Except.ok.inj (reached.symm.trans moved)
      exact snapshot _ rfl
  | edit event => exact (snapshot screen rfl).respond moved.1 (moved.2.symm.trans reached)

/-- **Redraws show what is stored** in exactly the runs that redraw a text row only while its
text is the one that the view was configured with. -/
theorem showsStored_iff_configured {texts : CellTexts} (toString : Date → String)
    {first screen : Screen} {talk : Talk} (read : first.read? = .ok (some talk))
    (configured : first.configureView texts.toL10n = .ok screen) {acts : List Act}
    {after : Except Fault Screen} :
    ((drawing texts.toL10n).every (ShowsStored texts toString)).Run (.ok screen) acts after ↔
      ((drawing texts.toL10n).restrict (AsConfigured talk)).Run (.ok screen) acts after := by
  apply System.Run.iff_of_invariant (Snapshot texts.toL10n talk)
  · intro before act after snapshot
    exact and_congr_left fun _ => showsStored_step_iff toString snapshot
  · intro before act after snapshot step
    exact snapshot_step snapshot step.2
  · intro start here
    cases here
    rw [Screen.configureView_eq, read] at configured
    obtain rfl := Except.ok.inj configured
    exact ⟨rfl, talk, read⟩

/-- The name is typed, its row redrawn after the old name is back, the notes' before. -/
theorem showsStored_iff_configured_restored :
    let first : Screen := { store := keynoteStore, talk := some { identifier := "keynote" } }
    ∃ screen after, first.configureView L10n.base = .ok screen ∧
      ((drawing L10n.base).every (ShowsStored CellTexts.base fun _ => "")).Run (.ok screen)
        [.edit (.editingChanged (some ⟨0, 0⟩) (some "a") true), .draw ⟨3, 0⟩,
          .edit (.editingChanged (some ⟨0, 0⟩) (some "Keynote") true), .draw ⟨0, 0⟩] after := by
  intro first
  let screen := { first with sections := sectionsOf L10n.base keynote }
  have read : first.read? = .ok (some keynote) := rfl
  have configured : first.configureView CellTexts.base.toL10n = .ok screen := rfl
  have run : ((drawing CellTexts.base.toL10n).restrict (AsConfigured keynote)).Run (.ok screen)
      [.edit (.editingChanged (some ⟨0, 0⟩) (some "a") true), .draw ⟨3, 0⟩,
        .edit (.editingChanged (some ⟨0, 0⟩) (some "Keynote") true), .draw ⟨0, 0⟩] _ :=
    .cons ⟨asConfigured_edit _ _ _, _, rfl, rfl, rfl⟩
      (.cons ⟨asConfigured_draw rfl rfl rfl, _, rfl, rfl⟩
        (.cons ⟨asConfigured_edit _ _ _, _, rfl, rfl, rfl⟩
          (.cons ⟨asConfigured_draw rfl rfl rfl, _, rfl, rfl⟩ (.nil _))))
  exact ⟨screen, _, configured, (showsStored_iff_configured (fun _ => "") read configured).mpr run⟩

/-- **The old name comes back.** A name is typed and its row drawn again. -/
theorem typed_not_redrawn :
    let first : Screen := { store := keynoteStore, talk := some { identifier := "keynote" } }
    let acts : List Act := [.edit (.editingChanged (some ⟨0, 0⟩) (some "a") true), .draw ⟨0, 0⟩]
    ∃ screen after, first.configureView L10n.base = .ok screen ∧
      (drawing L10n.base).Run (.ok screen) acts after ∧
      ¬ ((drawing L10n.base).every (ShowsStored CellTexts.base fun _ => "")).Run (.ok screen) acts
        after := by
  intro first acts
  refine ⟨_, _, rfl, .cons ⟨_, rfl, rfl, rfl⟩ (.cons ⟨_, rfl, rfl⟩ (.nil _)), fun run => ?_⟩
  obtain ⟨_, ⟨_, _, ⟨⟩, _, rfl⟩, run⟩ := run.cons_inv
  obtain ⟨_, ⟨shows, _⟩, _⟩ := run.cons_inv
  obtain ⟨_, _, ⟨⟩, ⟨⟩, content⟩ := shows _ _ _ rfl rfl rfl
  exact absurd content (by decide)

end EventTalks.Detail
