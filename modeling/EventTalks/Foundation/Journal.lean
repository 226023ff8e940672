import EventTalks.Foundation.Replica
import Mathlib.Data.List.Forall2
import Mathlib.Data.List.InsertIdx
import Mathlib.Data.List.Nodup

/-! # The order in which a copy is kept

The calls of a client are numbered, and a journal tells in which order they were called, served
and handled. Whatever was handled before, the copy is the server's set at quiescence when the
last listing that was handled was older than no deletion and no creation that the copy already
reflected, and no name was added after its deletion since
(`Foundation.Replica.copy_eq_of_inOrder`). That is a condition on the order of events alone.
-/

namespace Foundation.Replica

variable {κ : Type*}

/-- What happens to a call: its number, what it asks for, and the name that the server would
make up. -/
inductive Entry (κ : Type*) where
  | called (number : Nat) (request : Request κ)
  | served (number : Nat) (request : Request κ) (new : κ)
  | handled (number : Nat) (request : Request κ) (new : κ)

/-- What has happened so far, with the numbers of the requests and the responses in flight. -/
structure Journal (κ : Type*) where
  entries : List (Entry κ) := []
  calls : Nat := 0
  requests : List (Nat × Request κ) := []
  answers : List (Nat × Request κ × κ) := []

namespace Journal

/-- A call is written down under the next number. -/
def call (journal : Journal κ) (request : Request κ) : Journal κ where
  entries := journal.entries ++ [.called journal.calls request]
  calls := journal.calls + 1
  requests := journal.requests ++ [(journal.calls, request)]
  answers := journal.answers

def serve (journal : Journal κ) (index : Nat) (new : κ) (number : Nat) (request : Request κ) :
    Journal κ where
  entries := journal.entries ++ [.served number request new]
  calls := journal.calls
  requests := journal.requests.eraseIdx index
  answers := journal.answers ++ [(number, request, new)]

def handle (journal : Journal κ) (index : Nat) (number : Nat) (request : Request κ) (new : κ) :
    Journal κ :=
  { journal with
    entries := journal.entries ++ [.handled number request new]
    answers := journal.answers.eraseIdx index }

/-- What happens is written down. -/
def write (journal : Journal κ) : Event κ → Journal κ
  | .list => journal.call .list
  | .add => journal.call .add
  | .drop name => journal.call (.remove name)
  | .serve index new =>
      match journal.requests[index]? with
      | some (number, request) => journal.serve index new number request
      | none => journal
  | .handle index =>
      match journal.answers[index]? with
      | some (number, request, new) => journal.handle index number request new
      | none => journal

end Journal

/-- What a list of events does to the calls, in its order. -/
def history (events : List (Event κ)) : List (Entry κ) :=
  (events.foldl Journal.write {}).entries

/-- No listing is handled. -/
def Unlisted (entries : List (Entry κ)) : Prop :=
  ∀ number new, .handled number .list new ∉ entries

/-- **The calls are in order.** Of the last listing that is handled: every deletion called before
it is handled is served before it is served, and no creation served after it is served is
handled before it is handled. And no creation is handled after a deletion of its name is called,
unless a listing is handled later. -/
structure InOrder (entries : List (Entry κ)) : Prop where
  deletions : ∀ {earlier later number new},
    entries = earlier ++ .handled number .list new :: later →
    Unlisted later → ∀ call name, .called call (.remove name) ∈ earlier →
      ∃ other, [.served call (.remove name) other, .served number .list new].Sublist earlier
  creations : ∀ {earlier later number new},
    entries = earlier ++ .handled number .list new :: later →
    Unlisted later → ∀ call name,
      [.served number .list new, .served call .add name].Sublist earlier →
      .handled call .add name ∉ earlier
  additions : ∀ {earlier later call name}, entries = earlier ++ .handled call .add name :: later →
    Unlisted later → ∀ number, .called number (.remove name) ∉ earlier

/-- What is in order stays so without the last entry, unless that handles a listing. -/
theorem InOrder.of_append {entries : List (Entry κ)} {entry : Entry κ}
    (order : InOrder (entries ++ [entry])) (other : Unlisted [entry]) : InOrder entries := by
  have longer : ∀ {earlier later : List (Entry κ)} {here : Entry κ},
      entries = earlier ++ here :: later →
        entries ++ [entry] = earlier ++ here :: (later ++ [entry]) := by
    intro earlier later here split
    rw [split, List.append_assoc, List.cons_append]
  have still : ∀ {later : List (Entry κ)}, Unlisted later → Unlisted (later ++ [entry]) := by
    intro later unlisted number new member
    rcases List.mem_append.mp member with before | last
    · exact unlisted number new before
    · exact other number new last
  refine ⟨fun split unlisted => ?_, fun split unlisted => ?_, fun split unlisted => ?_⟩
  · exact order.deletions (longer split) (still unlisted)
  · exact order.creations (longer split) (still unlisted)
  · exact order.additions (longer split) (still unlisted)

/-- Nothing is asked of what was handled before a listing that is handled in the end. -/
theorem inOrder_append_listing {earlier : List (Entry κ)} {number : Nat} {new : κ} :
    InOrder (earlier ++ [.handled number .list new]) ↔
      (∀ call name, .called call (.remove name) ∈ earlier →
        ∃ other, [.served call (.remove name) other, .served number .list new].Sublist earlier) ∧
      ∀ call name, [.served number .list new, .served call .add name].Sublist earlier →
        .handled call .add name ∉ earlier := by
  have nothing : Unlisted ([] : List (Entry κ)) := fun _ _ => List.not_mem_nil
  have last : ∀ {front back : List (Entry κ)} {here : Entry κ},
      earlier ++ [.handled number .list new] = front ++ here :: back → Unlisted back →
        front = earlier ∧ here = .handled number .list new := by
    intro front back here split unlisted
    rcases List.eq_nil_or_concat' back with rfl | ⟨rest, entry, rfl⟩
    · obtain ⟨same, ends⟩ := List.append_inj' split rfl
      exact ⟨same.symm, (List.singleton_inj.mp ends).symm⟩
    · have ends := congrArg List.getLast? split
      rw [List.getLast?_append, ← List.cons_append, ← List.append_assoc, List.getLast?_append,
        List.getLast?_singleton, List.getLast?_singleton, Option.some_or, Option.some_or] at ends
      obtain rfl : Entry.handled number .list new = entry := Option.some.inj ends
      exact absurd (List.mem_append_right _ (List.mem_singleton_self _)) (unlisted number new)
  constructor
  · intro order
    exact ⟨order.deletions rfl nothing, order.creations rfl nothing⟩
  · intro conditions
    obtain ⟨deletions, creations⟩ := conditions
    refine ⟨fun split unlisted => ?_, fun split unlisted => ?_, fun split unlisted => ?_⟩
    · obtain ⟨rfl, same⟩ := last split unlisted
      obtain ⟨rfl, _, rfl⟩ := Entry.handled.inj same
      exact deletions
    · obtain ⟨rfl, same⟩ := last split unlisted
      obtain ⟨rfl, _, rfl⟩ := Entry.handled.inj same
      exact creations
    · cases (last split unlisted).2

/-- Without listings and deletions there is no order to keep. -/
theorem inOrder_of_unlisted {entries : List (Entry κ)} (unlisted : Unlisted entries)
    (kept : ∀ number name, .called number (.remove name) ∉ entries) : InOrder entries := by
  refine ⟨fun split => ?_, fun split => ?_, fun split _ number called => ?_⟩
  · exact absurd (split ▸ List.mem_append_right _ (List.mem_cons_self ..)) (unlisted _ _)
  · exact absurd (split ▸ List.mem_append_right _ (List.mem_cons_self ..)) (unlisted _ _)
  · exact kept number _ (split ▸ List.mem_append_left _ called)

/-- Two entries follow one another before an entry that is added, unless it is the second. -/
theorem sublist_of_append {entries : List (Entry κ)} {first second entry : Entry κ}
    (follow : [first, second].Sublist (entries ++ [entry])) (different : second ≠ entry) :
    [first, second].Sublist entries := by
  obtain ⟨front, back, split, before, last⟩ := List.sublist_append_iff.mp follow
  rcases List.sublist_cons_iff.mp last with none | ⟨rest, rfl, nothing⟩
  · rw [List.sublist_nil.mp none, List.append_nil] at split
    exact split ▸ before
  · rw [List.sublist_nil.mp nothing] at split
    have ends := congrArg List.getLast? split
    rw [List.getLast?_append, List.getLast?_singleton] at ends
    exact absurd (Option.some.inj ends) different

/-! ## What a journal tells of the responses in flight -/

section Outlook

variable (journal : Journal κ) (replica : Replica κ)

/-- A deletion of a name has been called that was not served before a listing. -/
def Overlooked (number : Nat) (new name : κ) : Prop :=
  ∃ call, .called call (.remove name) ∈ journal.entries ∧ ∀ other,
    ¬ [.served call (.remove name) other, .served number .list new].Sublist journal.entries

/-- A name has been created since a listing was served. -/
def Newer (number : Nat) (new name : κ) : Prop :=
  ∃ call, [.served number .list new, .served call .add name].Sublist journal.entries ∧
    ((call, .add, name) ∈ journal.answers ∨ .handled call .add name ∈ journal.entries)

/-- A listing in flight has names that are kept, unless a deletion was overlooked, and misses
only names that are newer. -/
structure Listed (number : Nat) (new : κ) (names : Set κ) : Prop where
  served : .served number .list new ∈ journal.entries
  kept : ∀ name ∈ names, replica.Kept name ∨ Overlooked journal number new name
  missing : ∀ name ∈ replica.origin, name ∉ names → Newer journal number new name

/-- What is known of a response in flight: a listing may be out of date, and an added name
is kept unless its deletion was called. -/
def Outlook : Nat × Request κ × κ → Response κ → Prop
  | (number, .list, new), .listing names => Listed journal replica number new names
  | (_, .add, new), .added name => name = new ∧
      (replica.Kept name ∨ ∃ call, .called call (.remove name) ∈ journal.entries)
  | (_, .remove _, _), .removed => True
  | _, _ => False

/-- A journal has the requests and the responses in flight, under their numbers. -/
structure Tells : Prop where
  requests : journal.requests.map Prod.snd = replica.requests
  answers : List.Forall₂ (Outlook journal replica) journal.answers replica.responses
  called : ∀ call ∈ journal.requests, call.1 < journal.calls ∧
    .called call.1 call.2 ∈ journal.entries
  distinct : (journal.requests.map Prod.fst).Nodup
  served : ∀ number request new, .served number request new ∈ journal.entries →
    number < journal.calls ∧ ∀ call ∈ journal.requests, call.1 ≠ number

end Outlook

/-- Lists that are related stay so without an item each. -/
theorem forall₂_eraseIdx {α β : Type*} {related : α → β → Prop} {first : List α} {second : List β}
    (each : List.Forall₂ related first second) (index : Nat) :
    List.Forall₂ related (first.eraseIdx index) (second.eraseIdx index) := by
  rw [List.eraseIdx_eq_take_drop_succ, List.eraseIdx_eq_take_drop_succ]
  exact List.rel_append (List.forall₂_take index each) (List.forall₂_drop (index + 1) each)

/-- What is related in two lists is so at every index. -/
theorem forall₂_getElem? {α β : Type*} {related : α → β → Prop} {first : List α} {second : List β}
    (each : List.Forall₂ related first second) {index : Nat} {item : β}
    (here : second[index]? = some item) :
    ∃ other, first[index]? = some other ∧ related other item := by
  obtain ⟨inside, rfl⟩ := List.getElem?_eq_some_iff.mp here
  have within : index < first.length := each.length_eq ▸ inside
  exact ⟨_, List.getElem?_eq_getElem within, each.get within inside⟩

namespace Tells

variable {journal : Journal κ} {replica : Replica κ}

/-- The entry that a journal gains is not that of a listing that was served before. -/
theorem served_ne (tells : Tells journal replica) {number call : Nat} {request : Request κ}
    {new other : κ} (served : .served number .list new ∈ journal.entries)
    (pending : (call, request) ∈ journal.requests) :
    Entry.served number .list new ≠ .served call request other := by
  intro same
  obtain ⟨rfl, _, _⟩ := Entry.served.inj same
  exact (tells.served number .list new served).2 (number, request) pending rfl

/-- A deletion in flight has been called. -/
theorem called_of_mem (tells : Tells journal replica) {name : κ}
    (requested : .remove name ∈ replica.requests) :
    ∃ call, .called call (.remove name) ∈ journal.entries ∧
      ∀ other, .served call (.remove name) other ∉ journal.entries := by
  rw [← tells.requests] at requested
  obtain ⟨⟨call, request⟩, pending, rfl⟩ := List.mem_map.mp requested
  refine ⟨call, (tells.called _ pending).2, fun other served => ?_⟩
  exact (tells.served call (.remove name) other served).2 _ pending rfl

/-! ## A call -/

/-- A name that a listing overlooks stays overlooked when the journal grows. -/
theorem Overlooked.append {number : Nat} {new name : κ} {entry : Entry κ}
    {later : Journal κ} (overlooked : Overlooked journal number new name)
    (entries : later.entries = journal.entries ++ [entry])
    (different : Entry.served number .list new ≠ entry) : Overlooked later number new name := by
  obtain ⟨call, called, unserved⟩ := overlooked
  refine ⟨call, entries ▸ List.mem_append_left _ called, fun other follow => ?_⟩
  exact unserved other (sublist_of_append (entries ▸ follow) different)

/-- A name that is newer than a listing stays so when the journal grows. -/
theorem Newer.append {number : Nat} {new name : κ} {entry : Entry κ} {later : Journal κ}
    (newer : Newer journal number new name) (entries : later.entries = journal.entries ++ [entry])
    (still : ∀ call, (call, .add, name) ∈ journal.answers →
      (call, .add, name) ∈ later.answers ∨ .handled call .add name ∈ later.entries) :
    Newer later number new name := by
  obtain ⟨call, follow, known⟩ := newer
  refine ⟨call, entries ▸ follow.trans (List.sublist_append_left _ _), ?_⟩
  rcases known with arriving | handled
  · exact still call arriving
  · exact Or.inr (entries ▸ List.mem_append_left _ handled)

/-- What is known of the responses in flight stays so when a call is made. -/
theorem outlook_call (tells : Tells journal replica) (request : Request κ) (copy : Set κ)
    {answer : Nat × Request κ × κ} {response : Response κ}
    (outlook : Outlook journal replica answer response) :
    Outlook (journal.call request)
      { replica with copy, requests := replica.requests ++ [request] } answer response := by
  have entries : (journal.call request).entries =
      journal.entries ++ [.called journal.calls request] := rfl
  have still : ∀ {name : κ}, replica.Kept name →
      Kept { replica with copy, requests := replica.requests ++ [request] } name ∨
        request = .remove name := by
    intro name kept
    by_cases removed : request = .remove name
    · exact Or.inr removed
    · refine Or.inl ⟨kept.1, fun requested => ?_⟩
      rcases List.mem_append.mp requested with before | last
      · exact kept.2 before
      · exact removed (List.mem_singleton.mp last).symm
  match answer, response, outlook with
  | (number, .list, new), .listing names, listed =>
      have different : Entry.served number .list new ≠ .called journal.calls request := nofun
      refine ⟨entries ▸ List.mem_append_left _ listed.served, fun name member => ?_,
        fun name member absent => ?_⟩
      · rcases listed.kept name member with kept | overlooked
        · rcases still kept with kept | rfl
          · exact Or.inl kept
          · refine Or.inr ⟨journal.calls, ?_, fun other follow => ?_⟩
            · exact List.mem_append_right _ (List.mem_singleton_self _)
            · have before := sublist_of_append follow different
              have served := before.subset (List.mem_cons_self ..)
              exact absurd (tells.served _ _ _ served).1 (Nat.lt_irrefl _)
        · exact Or.inr (Overlooked.append overlooked entries different)
      · exact Newer.append (listed.missing name member absent) entries fun call => Or.inl
  | (number, .add, new), .added name, added =>
      refine ⟨added.1, ?_⟩
      rcases added.2 with kept | ⟨call, called⟩
      · rcases still kept with kept | rfl
        · exact Or.inl kept
        · exact Or.inr ⟨_, List.mem_append_right _ (List.mem_singleton_self _)⟩
      · exact Or.inr ⟨call, List.mem_append_left _ called⟩
  | (number, .remove name, new), .removed, _ => trivial

/-- The journal tells of a call. -/
theorem call (tells : Tells journal replica) (request : Request κ) (copy : Set κ) :
    Tells (journal.call request)
      { replica with copy, requests := replica.requests ++ [request] } where
  requests := by
    rw [Journal.call, List.map_append, tells.requests]
    rfl
  answers := tells.answers.imp fun _ _ => tells.outlook_call request copy
  called other pending := by
    rcases List.mem_append.mp pending with before | last
    · obtain ⟨below, called⟩ := tells.called other before
      exact ⟨Nat.lt_succ_of_lt below, List.mem_append_left _ called⟩
    · obtain rfl := List.mem_singleton.mp last
      exact ⟨Nat.lt_succ_self _, List.mem_append_right _ (List.mem_singleton_self _)⟩
  distinct := by
    rw [Journal.call, List.map_append, List.nodup_append]
    refine ⟨tells.distinct, List.nodup_singleton _, fun number before other last => ?_⟩
    obtain rfl := List.mem_singleton.mp last
    obtain ⟨call, pending, rfl⟩ := List.mem_map.mp before
    exact Nat.ne_of_lt (tells.called call pending).1
  served number request' new served := by
    have served : .served number request' new ∈ journal.entries := by
      rcases List.mem_append.mp served with before | last
      · exact before
      · cases List.mem_singleton.mp last
    obtain ⟨below, unserved⟩ := tells.served number request' new served
    refine ⟨Nat.lt_succ_of_lt below, fun other pending => ?_⟩
    rcases List.mem_append.mp pending with before | last
    · exact unserved other before
    · obtain rfl := List.mem_singleton.mp last
      exact Nat.ne_of_gt below

/-! ## A request that is served -/

section Serve

variable {index call : Nat} {request : Request κ}

/-- A request of the journal is one of the replica. -/
theorem mem_requests (tells : Tells journal replica)
    (pending : journal.requests[index]? = some (call, request)) :
    replica.requests[index]? = some request := by
  rw [← tells.requests, List.getElem?_map, pending]
  rfl

/-- The number of a request is not that of another one. -/
theorem notMem_eraseIdx (tells : Tells journal replica)
    (pending : journal.requests[index]? = some (call, request)) :
    call ∉ (journal.requests.eraseIdx index).map Prod.fst := by
  have numbered : (journal.requests.map Prod.fst)[index]? = some call := by
    rw [List.getElem?_map, pending]
    rfl
  rw [← List.eraseIdx_map]
  intro member
  obtain ⟨position, elsewhere, reads⟩ := List.mem_eraseIdx_iff_getElem?.mp member
  apply elsewhere
  have inside := (List.getElem?_eq_some_iff.mp reads).1
  exact (List.getElem?_inj inside tells.distinct).mp (reads.trans numbered.symm)

/-- A name that is kept stays so when a request is served. -/
theorem kept_serve {name new : κ} {responses : List (Response κ)} (kept : replica.Kept name)
    (requested : request ∈ replica.requests) :
    Kept { replica with
      origin := request.serve replica.origin new
      requests := replica.requests.eraseIdx index
      responses } name := by
  refine ⟨?_, fun later => kept.2 (List.mem_of_mem_eraseIdx later)⟩
  cases request with
  | list => exact kept.1
  | add => exact Set.mem_insert_of_mem new kept.1
  | remove other => exact ⟨kept.1, fun same => kept.2 (same ▸ requested)⟩

/-- What is to be expected of a response stays so when another request is served. -/
theorem outlook_serve (tells : Tells journal replica)
    (pending : journal.requests[index]? = some (call, request)) (new : κ)
    {responses : List (Response κ)} {answer : Nat × Request κ × κ} {response : Response κ}
    (outlook : Outlook journal replica answer response) :
    Outlook (journal.serve index new call request)
      { replica with
        origin := request.serve replica.origin new
        requests := replica.requests.eraseIdx index
        responses } answer response := by
  have entries : (journal.serve index new call request).entries =
      journal.entries ++ [.served call request new] := rfl
  have requested := List.mem_of_getElem? (tells.mem_requests pending)
  match answer, response, outlook with
  | (number, .list, made), .listing names, listed =>
      have different := @served_ne _ _ _ tells number call request made new listed.served
        (List.mem_of_getElem? pending)
      refine ⟨entries ▸ List.mem_append_left _ listed.served, fun name member => ?_,
        fun name member absent => ?_⟩
      · rcases listed.kept name member with kept | overlooked
        · exact Or.inl (kept_serve kept requested)
        · exact Or.inr (Overlooked.append overlooked entries different)
      · have newer : name ∈ replica.origin → Newer (journal.serve index new call request)
            number made name := fun stored =>
          Newer.append (listed.missing name stored absent) entries fun other arriving =>
            Or.inl (List.mem_append_left _ arriving)
        cases request with
        | list => exact newer member
        | remove other => exact newer member.1
        | add =>
            rcases member with rfl | stored
            · refine ⟨call, ?_, Or.inl (List.mem_append_right _ (List.mem_singleton_self _))⟩
              exact (List.singleton_sublist.mpr listed.served).append
                (List.Sublist.refl [Entry.served call .add name])
            · exact newer stored
  | (number, .add, made), .added name, added =>
      refine ⟨added.1, ?_⟩
      rcases added.2 with kept | ⟨other, called⟩
      · exact Or.inl (kept_serve kept requested)
      · exact Or.inr ⟨other, List.mem_append_left _ called⟩
  | (number, .remove name, made), .removed, _ => trivial

/-- What is known of a response as it is sent. -/
theorem outlook_answer (tells : Tells journal replica)
    (pending : journal.requests[index]? = some (call, request)) (new : κ)
    {responses : List (Response κ)} :
    Outlook (journal.serve index new call request)
      { replica with
        origin := request.serve replica.origin new
        requests := replica.requests.eraseIdx index
        responses } (call, request, new) (request.answer replica.origin new) := by
  cases request with
  | list =>
      refine ⟨List.mem_append_right _ (List.mem_singleton_self _), fun name member => ?_,
        fun name member absent => absurd member absent⟩
      by_cases requested : .remove name ∈ replica.requests
      · obtain ⟨other, called, unserved⟩ := tells.called_of_mem requested
        refine Or.inr ⟨other, List.mem_append_left _ called, fun made follow => ?_⟩
        rcases List.mem_append.mp (follow.subset (List.mem_cons_self ..)) with before | last
        · exact unserved made before
        · cases List.mem_singleton.mp last
      · exact Or.inl ⟨member, fun later => requested (List.mem_of_mem_eraseIdx later)⟩
  | add =>
      refine ⟨rfl, ?_⟩
      by_cases requested : .remove new ∈ replica.requests
      · obtain ⟨other, called, _⟩ := tells.called_of_mem requested
        exact Or.inr ⟨other, List.mem_append_left _ called⟩
      · exact Or.inl ⟨Set.mem_insert _ _, fun later =>
          requested (List.mem_of_mem_eraseIdx later)⟩
  | remove name => trivial

/-- The journal tells of a request that is served. -/
theorem serve (tells : Tells journal replica)
    (pending : journal.requests[index]? = some (call, request)) (new : κ) :
    Tells (journal.serve index new call request)
      { replica with
        origin := request.serve replica.origin new
        requests := replica.requests.eraseIdx index
        responses := replica.responses ++ [request.answer replica.origin new] } where
  requests := by
    have erased := List.eraseIdx_map Prod.snd journal.requests index
    rw [tells.requests] at erased
    exact erased.symm
  answers := by
    apply List.rel_append
    · exact tells.answers.imp fun _ _ => tells.outlook_serve pending new
    · exact .cons (tells.outlook_answer pending new) .nil
  called other waiting := by
    obtain ⟨below, called⟩ := tells.called other (List.mem_of_mem_eraseIdx waiting)
    exact ⟨below, List.mem_append_left _ called⟩
  distinct := tells.distinct.sublist ((List.eraseIdx_sublist _ _).map _)
  served number request' made served := by
    rcases List.mem_append.mp served with before | last
    · obtain ⟨below, unserved⟩ := tells.served number request' made before
      exact ⟨below, fun other waiting => unserved other (List.mem_of_mem_eraseIdx waiting)⟩
    · obtain ⟨rfl, _, _⟩ := Entry.served.inj (List.mem_singleton.mp last)
      refine ⟨(tells.called _ (List.mem_of_getElem? pending)).1, fun other waiting same => ?_⟩
      exact tells.notMem_eraseIdx pending (List.mem_map.mpr ⟨other, waiting, same⟩)

end Serve

/-! ## A response that is handled -/

section Handle

variable {index call : Nat} {request : Request κ} {new : κ}

/-- What is to be expected of a response stays so when another one is handled. -/
theorem outlook_handle (arrived : journal.answers[index]? = some (call, request, new))
    (copy : Set κ)
    {responses : List (Response κ)} {answer : Nat × Request κ × κ} {response : Response κ}
    (outlook : Outlook journal replica answer response) :
    Outlook (journal.handle index call request new) { replica with copy, responses }
      answer response := by
  have entries : (journal.handle index call request new).entries =
      journal.entries ++ [.handled call request new] := rfl
  match answer, response, outlook with
  | (number, .list, made), .listing names, listed =>
      have different : Entry.served number .list made ≠ .handled call request new := nofun
      refine ⟨entries ▸ List.mem_append_left _ listed.served, fun name member => ?_,
        fun name member absent => ?_⟩
      · rcases listed.kept name member with kept | overlooked
        · exact Or.inl kept
        · exact Or.inr (Overlooked.append overlooked entries different)
      · apply Newer.append (listed.missing name member absent) entries
        intro other arriving
        by_cases same : (other, Request.add, name) = (call, request, new)
        · obtain ⟨rfl, rfl, rfl⟩ := same
          exact Or.inr (List.mem_append_right _ (List.mem_singleton_self _))
        · exact Or.inl ((mem_eraseIdx_of_ne arrived same).mpr arriving)
  | (number, .add, made), .added name, added =>
      refine ⟨added.1, added.2.imp_right fun ⟨other, called⟩ => ⟨other, ?_⟩⟩
      exact List.mem_append_left _ called
  | (number, .remove name, made), .removed, _ => trivial

/-- The journal tells of a response that is handled. -/
theorem handle (tells : Tells journal replica)
    (arrived : journal.answers[index]? = some (call, request, new)) (copy : Set κ) :
    Tells (journal.handle index call request new)
      { replica with copy, responses := replica.responses.eraseIdx index } where
  requests := tells.requests
  answers := forall₂_eraseIdx (tells.answers.imp fun _ _ => outlook_handle arrived copy) index
  called other waiting := by
    obtain ⟨below, called⟩ := tells.called other waiting
    exact ⟨below, List.mem_append_left _ called⟩
  distinct := tells.distinct
  served number request' made served := by
    rcases List.mem_append.mp served with before | last
    · exact tells.served number request' made before
    · cases List.mem_singleton.mp last

end Handle

/-- An added name in flight is among the responses. -/
theorem mem_responses (tells : Tells journal replica) {call : Nat} {name : κ}
    (arriving : (call, .add, name) ∈ journal.answers) : .added name ∈ replica.responses := by
  obtain ⟨index, here⟩ := List.mem_iff_getElem?.mp arriving
  have flipped : List.Forall₂ (flip (Outlook journal replica)) replica.responses journal.answers :=
    List.Forall₂.flip tells.answers
  obtain ⟨response, there, outlook⟩ := forall₂_getElem? flipped here
  cases response with
  | listing | removed => exact outlook.elim
  | added other =>
      obtain rfl : other = name := outlook.1
      exact List.mem_of_getElem? there

/-- **A step of the copy is written down.** -/
theorem step {event : Event κ} {after : Replica κ} (tells : Tells journal replica)
    (step : Step replica event after) : Tells (journal.write event) after := by
  cases step with
  | list => exact tells.call .list replica.copy
  | add => exact tells.call .add replica.copy
  | @drop name present => exact tells.call (.remove name) (replica.copy \ {name})
  | @serve index new request pending unused =>
      obtain ⟨⟨number, other⟩, waiting, same⟩ : ∃ call, journal.requests[index]? = some call ∧
          call.2 = request := by
        rw [← tells.requests, List.getElem?_map] at pending
        exact Option.map_eq_some_iff.mp pending
      obtain rfl : other = request := same
      rw [Journal.write, waiting]
      exact tells.serve waiting new
  | @handle index response arrived =>
      obtain ⟨⟨number, request, new⟩, answered, _⟩ := forall₂_getElem? tells.answers arrived
      rw [Journal.write, answered]
      exact tells.handle answered _

end Tells

/-! ## What is in order agrees -/

section Order

variable {journal : Journal κ} {replica after : Replica κ} {index number : Nat} {new : κ}

/-- A listing that is handled in order is fresh. -/
theorem fresh_listing (tells : Tells journal replica) {names : Set κ}
    (listed : Listed journal replica number new names)
    (order : InOrder (journal.entries ++ [.handled number .list new])) :
    (Response.listing names).Fresh replica := by
  have unlisted : Unlisted ([] : List (Entry κ)) := fun _ _ => List.not_mem_nil
  refine ⟨fun name member => ?_, fun name stored absent => Or.inl ?_⟩
  · rcases listed.kept name member with kept | ⟨call, called, unserved⟩
    · exact kept
    · obtain ⟨other, follow⟩ := order.deletions rfl unlisted call name called
      exact absurd follow (unserved other)
  · obtain ⟨call, follow, known⟩ := listed.missing name stored absent
    exact tells.mem_responses (known.resolve_right (order.creations rfl unlisted call name follow))

/-- An added name that is handled in order is fresh. -/
theorem fresh_added {name : κ}
    (known : replica.Kept name ∨ ∃ call, .called call (.remove name) ∈ journal.entries)
    (order : InOrder (journal.entries ++ [.handled number .add name])) :
    (Response.added name).Fresh replica := by
  have unlisted : Unlisted ([] : List (Entry κ)) := fun _ _ => List.not_mem_nil
  apply known.resolve_right
  intro later
  obtain ⟨call, called⟩ := later
  exact order.additions rfl unlisted call called

/-- What is in order was so before a step that handles no response. -/
theorem InOrder.of_write {event : Event κ} (order : InOrder (journal.write event).entries)
    (other : ∀ index, event ≠ .handle index) : InOrder journal.entries := by
  cases event with
  | list | add | drop => exact order.of_append (by simp [Unlisted])
  | handle index => exact absurd rfl (other index)
  | serve index new =>
      rw [Journal.write] at order
      cases waiting : journal.requests[index]? with
      | none => simpa only [waiting] using order
      | some call =>
          simp only [waiting] at order
          exact InOrder.of_append order (by simp [Unlisted])

/-- **A step in order keeps the coupling**, and a listing that is handled in order makes it. -/
theorem coupled_step {event : Event κ} (tells : Tells journal replica)
    (coupled : InOrder journal.entries → Coupled replica) (step : Step replica event after)
    (order : InOrder (journal.write event).entries) : Coupled after := by
  cases step with
  | list => exact (coupled (order.of_write nofun)).ask nofun
  | add => exact (coupled (order.of_write nofun)).ask nofun
  | drop present => exact (coupled (order.of_write nofun)).drop _
  | serve pending => exact (coupled (order.of_write nofun)).serve _ pending
  | @handle index response arrived =>
      obtain ⟨⟨number, request, new⟩, answered, outlook⟩ := forall₂_getElem? tells.answers arrived
      rw [Journal.write, answered] at order
      have order : InOrder (journal.entries ++ [.handled number request new]) := order
      match request, response, outlook with
      | .list, .listing names, listed =>
          exact .of_listing arrived (fresh_listing tells listed order)
      | .add, .added name, added =>
          obtain ⟨rfl, known⟩ := added
          have before := order.of_append (by simp [Unlisted])
          exact (coupled before).learn arrived (fresh_added known order)
      | .remove name, .removed, _ =>
          have before := order.of_append (by simp [Unlisted])
          exact (coupled before).acknowledge arrived

/-- **Agreement at quiescence.** When nothing is in flight at first and the calls of a run are
in order, the copy is the server's set as soon as nothing is in flight. -/
theorem copy_eq_of_inOrder {before after : Replica κ} {events : List (Event κ)}
    (run : system.Run before events after) (coupled : Coupled before)
    (begun : before.requests = [] ∧ before.responses = []) (order : InOrder (history events))
    (settled : after.requests = [] ∧ after.responses = []) : after.copy = after.origin := by
  have tells : Tells ({} : Journal κ) before :=
    ⟨begun.1.symm, begun.2 ▸ .nil, nofun, List.nodup_nil, nofun⟩
  have kept := run.preserves_foldl Journal.write
    (fun replica journal => Tells journal replica ∧ (InOrder journal.entries → Coupled replica))
    (fun replica journal event next kept step =>
      ⟨kept.1.step step, coupled_step kept.1 kept.2 step⟩) ⟨tells, fun _ => coupled⟩
  exact (kept.2 order).agree settled

end Order

end Foundation.Replica
