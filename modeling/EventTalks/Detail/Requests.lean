import EventTalks.Detail.Handlers

/-! # The updates that the detail screen sends

An update goes to the identifier that the updater keeps, and it is sent from inside the
transaction that writes the talk. The updater stays when a talk is assigned whose
identifier is not an UUID, and the update is not taken back when the transaction fails
(`EventTalks.Detail.notes_sent_astray`). In all other cases an update is for the talk
assigned and has what the store has of it (`EventTalks.Detail.backed_iff`).
-/

namespace EventTalks.Detail

open Foundation Network

/-- What can happen to the screen: its talk is assigned, its view loads, or an event. -/
inductive Use where
  | assign (identifier : Option String)
  | viewDidLoad
  | event (event : Event)

def Screen.use (strings : L10n) (screen : Screen) : Use → Except Fault Screen
  | .assign identifier => screen.assign strings (identifier.map fun identifier => { identifier })
  | .viewDidLoad => screen.viewDidLoad strings
  | .event event => screen.respond strings event

/-- The screen under assignments and events in any order, until a fault stops it. -/
def usage (strings : L10n) : System (Except Fault Screen) Use where
  step before use after := ∃ screen, before = .ok screen ∧ after = screen.use strings use

/-- An event whose transaction fails. -/
def Event.Fails : Event → Prop
  | .editingChanged _ _ commits | .toggleSwitch _ false _ commits | .datePickerChanged _ _ commits
  | .textViewDidEndEditing _ commits => commits = false
  | .toggleSwitch _ true _ _ | .didEndEditing _ _ | .didSelectRowAt _ _ | .swiped
  | .fetched _ _ => False

def Use.Fails : Use → Prop
  | .event handled => handled.Fails
  | .assign _ | .viewDidLoad => False

/-- The updates a step sends are for the talk assigned, and have what the store has of it
after the step; a step whose transaction fails sends none. -/
def Backed (before : Except Fault Screen) (use : Use) (after : Except Fault Screen) : Prop :=
  ∀ screen next, before = .ok screen → after = .ok next → ∀ id body,
    .updateTalk id body ∈ next.requests.drop screen.requests.length → ¬ use.Fails ∧
      ∃ accessor talk, next.talk = some accessor ∧ UUID.ofString? accessor.identifier = some id ∧
        next.read accessor = .ok talk ∧ body = talk.body

/-- An event that gets to an updater, while the talk is in the store, finds a talk whose
identifier is an UUID, and its transaction commits. -/
def Ready (before : Except Fault Screen) (use : Use) : Prop :=
  ∀ screen event talk, before = .ok screen → use = .event event → screen.Sends event →
    screen.updater ≠ none → screen.read? = .ok (some talk) →
      UUID.ofString? talk.identifier ≠ none ∧ ¬ event.Fails

/-- The updater is about the talk assigned, if that has an UUID. -/
def Screen.Named (screen : Screen) : Prop :=
  ∀ accessor uuid, screen.talk = some accessor → UUID.ofString? accessor.identifier = some uuid →
    screen.updater = some uuid

section Moves

variable {strings : L10n} {screen after : Screen} {event : Event}

/-- To send an update leaves updater, reference and store as they are. -/
theorem Screen.sendUpdate_fields (sends : screen.sendUpdate = .ok after) :
    after.updater = screen.updater ∧ after.talk = screen.talk ∧ after.store = screen.store := by
  rw [sendUpdate_eq] at sends
  split at sends
  · obtain ⟨talk, _, rfl⟩ := map_eq_ok.mp sends
    exact ⟨rfl, rfl, rfl⟩
  · obtain rfl := Except.ok.inj sends
    exact ⟨rfl, rfl, rfl⟩

/-- A reference keeps its identifier when its talk is deleted. -/
theorem Screen.deleteTalk_fields (deleted : screen.deleteTalk = .ok after) :
    after.updater = screen.updater ∧ after.requests = screen.requests ∧
      after.talk.map Accessor.identifier = screen.talk.map Accessor.identifier := by
  unfold deleteTalk at deleted
  cases refers : screen.talk with
  | none =>
      simp only [refers, Except.ok.injEq] at deleted
      subst deleted
      exact ⟨rfl, rfl, by rw [refers]⟩
  | some accessor =>
      simp only [refers] at deleted
      split at deleted
      · cases deleted
      · split at deleted <;>
        · obtain rfl := Except.ok.inj deleted
          exact ⟨rfl, rfl, rfl⟩

/-- **No event changes what the updater or the reference is about.** -/
theorem Moved.keeps (moved : Moved strings screen event after) :
    after.updater = screen.updater ∧
      after.talk.map Accessor.identifier = screen.talk.map Accessor.identifier := by
  cases moved with
  | idle | switchedOn | closed | opened => exact ⟨rfl, rfl⟩
  | typed | noted => simp
  | switchedOff | picked => simp [Screen.place]
  | ended reads sends =>
      obtain ⟨updater, refers, _⟩ := Screen.sendUpdate_fields sends
      exact ⟨by simp [updater], by simp [refers]⟩
  | deleted reads done =>
      obtain ⟨updater, _, refers⟩ := Screen.deleteTalk_fields done
      unfold Screen.sendDelete
      split
      · exact ⟨updater, refers⟩
      · exact ⟨updater, refers⟩
  | swiped =>
      unfold Screen.swiped
      cases refers : screen.talk <;> simp [refers]
  | fetched => simp [Screen.fetched, Function.comp_def]

/-- An event that does not get to an updater sends no update. -/
theorem Moved.silent (moved : Moved strings screen event after)
    (quiet : screen.Sends event → screen.updater = none) (id : UUID) (body : Body.Talk) :
    .updateTalk id body ∉ after.requests.drop screen.requests.length := by
  cases moved with
  | idle | typed | switchedOn | closed | opened | fetched => simp [Screen.place, Screen.fetched]
  | ended reads sends =>
      rw [Screen.sendUpdate_eq, Screen.updater_titled, quiet ⟨_, _, _, _, rfl, reads⟩] at sends
      obtain rfl := Except.ok.inj sends
      simp
  | switchedOff located filled read =>
      simp [Screen.place, quiet ⟨rfl, _, _, rfl, located, filled⟩, puts]
  | picked located enough read => simp [Screen.place, quiet ⟨_, _, rfl, located, enough⟩, puts]
  | noted read => simp [quiet trivial, puts]
  | deleted reads done =>
      obtain ⟨_, requests, _⟩ := Screen.deleteTalk_fields done
      unfold Screen.sendDelete
      split <;> simp [requests]
  | swiped =>
      unfold Screen.swiped
      split <;> simp

/-- **An event that gets to the updater** sends what its transaction writes, and leaves
what the transaction leaves. -/
theorem Moved.sends (moved : Moved strings screen event after) (reaches : screen.Sends event)
    {uuid : UUID} (updates : screen.updater = some uuid) :
    ∃ talk, screen.read? = .ok talk ∧
      after.requests = screen.requests ++ puts (some uuid)
        (talk.map (change strings screen event)) ∧
      after.read? = .ok (talk.map (edited strings screen event)) := by
  cases moved with
  | idle quiet => exact absurd reaches quiet
  | @ended path text found shown placeholder after reads sends =>
      rw [Screen.sendUpdate_eq, Screen.updater_titled, updates, Option.isSome_some, if_pos rfl,
        Screen.read?_titled] at sends
      obtain ⟨talk, read, rfl⟩ := map_eq_ok.mp sends
      refine ⟨talk, read, ?_, ?_⟩
      · simp only [Screen.sent, Screen.updater_titled, updates, Screen.requests_titled]
        cases talk <;> rfl
      · have kept : ((screen.titled strings found text).sent talk).read? = screen.read? :=
          Screen.read?_titled strings found text screen
        rw [kept, read]
        cases talk <;> rfl
  | @switchedOff path now commits found talk located filled read =>
      refine ⟨talk, read, ?_, ?_⟩
      · simp only [Screen.place, Screen.requests_edit, updates]
        rfl
      · exact Screen.read?_edit commits (fun talk => { talk with dueDate := none })
          (fun _ => rfl) read
  | @picked path date commits found talk located enough read =>
      refine ⟨talk, read, ?_, ?_⟩
      · simp only [Screen.place, Screen.requests_edit, updates]
        rfl
      · exact Screen.read?_edit commits (fun talk => { talk with dueDate := some date })
          (fun _ => rfl) read
  | @noted text commits talk read =>
      refine ⟨talk, read, ?_, ?_⟩
      · simp only [Screen.requests_edit, updates]
        rfl
      · exact Screen.read?_edit commits (fun talk => { talk with notes := text })
          (fun _ => rfl) read
  | switchedOn => exact absurd reaches.1 (by simp)
  | typed | closed | opened | deleted | swiped | fetched => exact reaches.elim

/-- What an event that gets to the updater leaves is what it sends, if nothing fails. -/
theorem edited_of_sends {talk : Talk} (reaches : screen.Sends event) (commits : ¬ event.Fails) :
    edited strings screen event talk = change strings screen event talk := by
  cases event with
  | didEndEditing path text => exact edited_eq_self rfl
  | toggleSwitch path isOn now written =>
      obtain ⟨rfl, _⟩ := reaches
      simp_all [edited, Event.commits, Event.Fails]
  | datePickerChanged | textViewDidEndEditing => simp_all [edited, Event.commits, Event.Fails]
  | editingChanged | didSelectRowAt | swiped | fetched => exact reaches.elim

/-- A screen with the updater and the identifier of another one is named as well. -/
theorem Screen.Named.congr {other : Screen} (named : screen.Named)
    (updater : other.updater = screen.updater)
    (refers : other.talk.map Accessor.identifier = screen.talk.map Accessor.identifier) :
    other.Named := by
  intro accessor uuid shown parsed
  rw [shown] at refers
  obtain ⟨before, held, same⟩ := Option.map_eq_some_iff.mp refers.symm
  exact updater.trans (named before uuid held (by rw [same, parsed]))

/-- A screen is named once it has looked for an updater. -/
theorem Screen.named_withUpdater (screen : Screen) : screen.withUpdater.Named := by
  intro accessor uuid shown parsed
  rw [withUpdater_eq] at shown ⊢
  have refers : screen.talk = some accessor := shown
  simp [refers, parsed]

/-- To look for an updater sends nothing. -/
theorem Screen.requests_withUpdater (screen : Screen) :
    screen.withUpdater.requests = screen.requests := by
  rw [withUpdater_eq]

/-- The sections are all that configuring the view changes. -/
theorem Screen.configureView_fields (configured : screen.configureView strings = .ok after) :
    after.requests = screen.requests ∧ after.talk = screen.talk ∧
      after.updater = screen.updater := by
  rw [configureView_eq] at configured
  obtain ⟨talk, _, rfl⟩ := map_eq_ok.mp configured
  cases talk <;> exact ⟨rfl, rfl, rfl⟩

/-- **An assignment** sends nothing, and leaves the updater with the talk assigned. -/
theorem Screen.named_assign {reference : Option Accessor}
    (assigned : screen.assign strings reference = .ok after) :
    after.requests = screen.requests ∧ after.Named := by
  rw [assign_eq] at assigned
  obtain ⟨shown, _, configured⟩ := bind_eq_ok.mp assigned
  split at configured
  · obtain ⟨requests, refers, updater⟩ := configureView_fields configured
    refine ⟨requests.trans (requests_withUpdater _), ?_⟩
    exact (named_withUpdater _).congr updater (by rw [refers]; rfl)
  · obtain rfl := Except.ok.inj configured
    exact ⟨requests_withUpdater _, named_withUpdater _⟩

/-- A screen that has loaded is named, and has sent nothing. -/
theorem Screen.named_viewDidLoad (loaded : screen.viewDidLoad strings = .ok after) :
    after.requests = screen.requests ∧ after.Named := by
  obtain ⟨requests, refers, updater⟩ := configureView_fields loaded
  exact ⟨requests.trans (requests_withUpdater _),
    (named_withUpdater _).congr updater (by rw [refers])⟩

/-- A step that sends no update sends what it should. -/
theorem backed_of_silent {use : Use}
    (silent : ∀ id body, .updateTalk id body ∉ after.requests.drop screen.requests.length) :
    Backed (.ok screen) use (.ok after) := by
  intro before next first last id body sent
  cases first
  cases last
  exact absurd sent (silent id body)

/-- What is not an event of a control sends nothing. -/
theorem ready_of_no_event {state : Except Fault Screen} {use : Use}
    (apart : ∀ event, use ≠ .event event) : Ready state use := by
  intro _ event _ _ here
  exact absurd here (apart event)

/-- What an event must find when it sends. -/
theorem ready_event_iff : Ready (.ok screen) (.event event) ↔
    (screen.Sends event → screen.updater ≠ none → ∀ talk, screen.read? = .ok (some talk) →
      UUID.ofString? talk.identifier ≠ none ∧ ¬ event.Fails) := by
  constructor
  · intro ready reaches active talk read
    exact ready screen event talk rfl rfl reaches active read
  · intro ready before happens talk first here reaches active read
    cases first
    cases here
    exact ready reaches active talk read

/-- **The updates of an event** are for the talk assigned and have what the store has of
it exactly when the event is ready. -/
theorem backed_event_iff (named : screen.Named)
    (responded : screen.respond strings event = .ok after) :
    Backed (.ok screen) (.event event) (.ok after) ↔ Ready (.ok screen) (.event event) := by
  have moved := moved_of_respond responded
  by_cases quiet : screen.Sends event → screen.updater = none
  · apply iff_of_true
    · apply backed_of_silent
      exact moved.silent quiet
    · apply ready_event_iff.mpr
      intro reaches active
      exact absurd (quiet reaches) active
  · obtain ⟨reaches, active⟩ := Classical.not_imp.mp quiet
    obtain ⟨uuid, updates⟩ := Option.ne_none_iff_exists'.mp active
    obtain ⟨shown, read, requests, left⟩ := moved.sends reaches updates
    cases shown with
    | none =>
        apply iff_of_true
        · apply backed_of_silent
          simp [requests]
        · apply ready_event_iff.mpr
          intro _ _ talk other
          cases read.symm.trans other
    | some talk =>
        obtain ⟨accessor, refers, found⟩ := Screen.read?_eq_some.mp read
        have same : talk.identifier = accessor.identifier :=
          (KeyedTable.get?_eq_some.mp (Screen.read_eq_ok.mp found).2).2
        have sent : after.requests.drop screen.requests.length =
            [.updateTalk uuid (change strings screen event talk).body] := by
          simp [requests, puts]
        obtain ⟨next, shown, reads⟩ := Screen.read?_eq_some.mp left
        have kept : next.identifier = accessor.identifier := by
          have identifiers := moved.keeps.2
          rw [shown, refers] at identifiers
          exact Option.some.inj identifiers
        constructor
        · intro backed
          obtain ⟨commits, other, _, held, parsed, _⟩ :=
            backed _ _ rfl rfl uuid _ (by rw [sent]; exact List.mem_singleton_self _)
          obtain rfl := Option.some.inj (shown.symm.trans held)
          apply ready_event_iff.mpr
          intro _ _ record stored
          obtain rfl := Option.some.inj (Except.ok.inj (read.symm.trans stored))
          rw [kept, ← same] at parsed
          exact ⟨by rw [parsed]; exact Option.some_ne_none _, commits⟩
        · intro ready before middle first last id body listed
          cases first
          cases last
          obtain ⟨parsed, commits⟩ := ready_event_iff.mp ready reaches active talk read
          obtain ⟨addressed, identified⟩ := Option.ne_none_iff_exists'.mp parsed
          rw [same] at identified
          obtain rfl := Option.some.inj (updates.symm.trans (named _ _ refers identified))
          rw [sent] at listed
          obtain ⟨rfl, rfl⟩ := Router.updateTalk.inj (List.mem_singleton.mp listed)
          refine ⟨commits, next, _, shown, by rw [kept, identified], reads, ?_⟩
          rw [edited_of_sends reaches commits]

/-- An event that gets to the updater is handled when the talk can be read. -/
theorem respond_of_sends (strings : L10n) (reaches : screen.Sends event) {talk : Option Talk}
    (read : screen.read? = .ok talk) : ∃ after, screen.respond strings event = .ok after := by
  cases event with
  | didEndEditing path text =>
      obtain ⟨here, found, shown, placeholder, rfl, reads⟩ := reaches
      simp only [Screen.respond, Screen.didEndEditing_of_editable text reads,
        Screen.sendUpdate_eq, Screen.read?_titled, read]
      split <;> exact ⟨_, rfl⟩
  | toggleSwitch path isOn now commits =>
      obtain ⟨rfl, here, found, rfl, located, filled⟩ := reaches
      simp only [Screen.respond, Screen.toggleSwitch_off now commits located filled, read]
      exact ⟨_, rfl⟩
  | datePickerChanged path date commits =>
      obtain ⟨here, found, rfl, located, enough⟩ := reaches
      simp only [Screen.respond, Screen.datePickerChanged_of_rows date commits located enough, read]
      exact ⟨_, rfl⟩
  | textViewDidEndEditing text commits =>
      simp only [Screen.respond, Screen.textViewDidEndEditing_eq, read]
      exact ⟨_, rfl⟩
  | editingChanged | didSelectRowAt | swiped | fetched => exact reaches.elim

/-- **A use sends what it should** exactly when it is ready, and leaves the updater with the
talk. -/
theorem backed_use_iff (named : screen.Named) {use : Use}
    (used : screen.use strings use = .ok after) :
    (Backed (.ok screen) use (.ok after) ↔ Ready (.ok screen) use) ∧ after.Named := by
  cases use with
  | assign identifier =>
      obtain ⟨requests, kept⟩ := Screen.named_assign used
      refine ⟨iff_of_true (backed_of_silent ?_) (ready_of_no_event nofun), kept⟩
      simp [requests]
  | viewDidLoad =>
      obtain ⟨requests, kept⟩ := Screen.named_viewDidLoad used
      refine ⟨iff_of_true (backed_of_silent ?_) (ready_of_no_event nofun), kept⟩
      simp [requests]
  | event happens =>
      obtain ⟨updater, refers⟩ := (moved_of_respond used).keeps
      exact ⟨backed_event_iff named used, named.congr updater refers⟩

/-- A use that is a fault does not get to the updater. -/
theorem ready_of_error {use : Use} {fault : Fault}
    (used : screen.use strings use = .error fault) : Ready (.ok screen) use := by
  cases use with
  | assign identifier | viewDidLoad => exact ready_of_no_event nofun
  | event happens =>
      apply ready_event_iff.mpr
      intro reaches _ talk read
      obtain ⟨next, handled⟩ := respond_of_sends strings reaches read
      cases handled.symm.trans used

end Moves

/-- The updater is about the talk assigned, as long as the program runs. -/
def Named (state : Except Fault Screen) : Prop := ∀ screen, state = .ok screen → screen.Named

/-- **A step sends what it should** exactly when it is ready, and keeps the updater with
the talk. -/
theorem backed_step_iff {strings : L10n} {before after : Except Fault Screen} {use : Use}
    (named : Named before) (step : (usage strings).step before use after) :
    (Backed before use after ↔ Ready before use) ∧ Named after := by
  obtain ⟨screen, rfl, rfl⟩ := step
  cases used : screen.use strings use with
  | error fault =>
      refine ⟨iff_of_true ?_ (ready_of_error used), ?_⟩
      · intro _ next _ other
        cases other
      · intro next other
        cases other
  | ok next =>
      obtain ⟨same, kept⟩ := backed_use_iff (named screen rfl) used
      refine ⟨same, ?_⟩
      intro other here
      cases here
      exact kept

/-- **Every update is for the talk assigned and has what the store has of it** in exactly
the runs whose events are ready. -/
theorem backed_iff (strings : L10n) (store : TalkStore) {uses : List Use}
    {after : Except Fault Screen} :
    ((usage strings).every Backed).Run (.ok { store }) uses after ↔
      ((usage strings).restrict Ready).Run (.ok { store }) uses after := by
  apply System.Run.iff_of_invariant Named
  · intro before use after named
    exact and_congr_left fun step => (backed_step_iff named step).1
  · intro before use after named step
    exact (backed_step_iff named step.2).2
  · intro screen start accessor uuid refers
    cases start
    cases refers

/-- A talk whose identifier is not an UUID. -/
def keynote : Talk := { Talk.named default "Keynote" with identifier := "keynote" }

def keynoteStore : TalkStore := ⟨[Talk.named default "Vapor", keynote], by decide⟩

/-- **Updates go astray.** The notes of a talk whose identifier is not an UUID are sent to
the talk assigned before, and notes whose transaction fails are sent all the same. -/
theorem notes_sent_astray :
    let shown : List Use := [.assign (some (UUID.uuidString default)), .viewDidLoad]
    let astray := shown ++ [.assign (some "keynote"), .event (.textViewDidEndEditing none true)]
    let unwritten := shown ++ [.event (.textViewDidEndEditing (some "late") false)]
    (∃ after, (usage L10n.base).Run (.ok { store := keynoteStore }) astray after ∧
        ¬ ((usage L10n.base).every Backed).Run (.ok { store := keynoteStore }) astray after) ∧
      ∃ after, (usage L10n.base).Run (.ok { store := keynoteStore }) unwritten after ∧
        ¬ ((usage L10n.base).every Backed).Run (.ok { store := keynoteStore }) unwritten after := by
  intro shown astray unwritten
  refine ⟨⟨_, .cons ⟨_, rfl, rfl⟩ (.cons ⟨_, rfl, rfl⟩ (.cons ⟨_, rfl, rfl⟩
    (.cons ⟨_, rfl, rfl⟩ (.nil _)))), ?_⟩,
    ⟨_, .cons ⟨_, rfl, rfl⟩ (.cons ⟨_, rfl, rfl⟩ (.cons ⟨_, rfl, rfl⟩ (.nil _))), ?_⟩⟩
  · intro run
    obtain ⟨_, ⟨_, _, ⟨⟩, rfl⟩, run⟩ := run.cons_inv
    obtain ⟨_, ⟨_, _, ⟨⟩, rfl⟩, run⟩ := run.cons_inv
    obtain ⟨_, ⟨_, _, ⟨⟩, rfl⟩, run⟩ := run.cons_inv
    obtain ⟨_, ⟨backed, _, ⟨⟩, rfl⟩, _⟩ := run.cons_inv
    have sent := backed _ _ rfl rfl
    obtain ⟨_, _, _, ⟨⟩, parsed, _⟩ := sent default keynote.body (by decide)
    exact absurd parsed (by decide)
  · intro run
    obtain ⟨_, ⟨_, _, ⟨⟩, rfl⟩, run⟩ := run.cons_inv
    obtain ⟨_, ⟨_, _, ⟨⟩, rfl⟩, run⟩ := run.cons_inv
    obtain ⟨_, ⟨backed, _, ⟨⟩, rfl⟩, _⟩ := run.cons_inv
    have sent := backed _ _ rfl rfl
    exact (sent default { title := some "Vapor", notes := some "late" } (by decide)).1 rfl

end EventTalks.Detail
