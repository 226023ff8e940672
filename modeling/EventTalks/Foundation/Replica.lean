import EventTalks.Foundation.Run
import Mathlib.Data.Set.Insert

/-! # A copy kept by snapshots and acknowledgements

A client keeps a copy of a set of names that a server owns. It asks for the whole
set, asks for a new name, or drops a name and asks for its removal; the server serves
the pending requests in any order, and the client handles the responses in any order,
replacing its copy by a listing and adding an added name. A listing may be older
than what the copy already reflects, so the two sets need not agree in the end. They
do when they are coupled (`Foundation.Replica.Coupled.agree`), which every step keeps
but the handling of a response that is no longer fresh.
-/

namespace Foundation

namespace Replica

/-- What the client asks for. -/
inductive Request (κ : Type*) where
  | list
  | add
  | remove (name : κ)

/-- What the server answers. -/
inductive Response (κ : Type*) where
  | listing (names : Set κ)
  | added (name : κ)
  | removed

/-- What can happen: the client asks, drops a name, or handles a response; the server
serves a request, with the name it would make up. -/
inductive Event (κ : Type*) where
  | list
  | add
  | drop (name : κ)
  | serve (index : Nat) (new : κ)
  | handle (index : Nat)

end Replica

/-- The client's copy, the server's set, and what is in flight between them. -/
structure Replica (κ : Type*) where
  copy : Set κ
  origin : Set κ
  requests : List (Replica.Request κ) := []
  responses : List (Replica.Response κ) := []

namespace Replica

variable {κ : Type*}

/-- The server's set once it has served a request. -/
def Request.serve (origin : Set κ) (new : κ) : Request κ → Set κ
  | .list => origin
  | .add => insert new origin
  | .remove name => origin \ {name}

/-- The server's answer to a request. -/
def Request.answer (origin : Set κ) (new : κ) : Request κ → Response κ
  | .list => .listing origin
  | .add => .added new
  | .remove _ => .removed

/-- The client's copy once it has handled a response. -/
def Response.handle (copy : Set κ) : Response κ → Set κ
  | .listing names => names
  | .added name => insert name copy
  | .removed => copy

inductive Step : Replica κ → Event κ → Replica κ → Prop
  | list (replica : Replica κ) :
      Step replica .list { replica with requests := replica.requests ++ [.list] }
  | add (replica : Replica κ) :
      Step replica .add { replica with requests := replica.requests ++ [.add] }
  | drop {replica : Replica κ} {name : κ} (present : name ∈ replica.copy) :
      Step replica (.drop name)
        { replica with
          copy := replica.copy \ {name}
          requests := replica.requests ++ [.remove name] }
  | serve {replica : Replica κ} {index : Nat} {new : κ} {request : Request κ}
      (pending : replica.requests[index]? = some request)
      (unused : request = .add → new ∉ replica.origin) :
      Step replica (.serve index new)
        { replica with
          origin := request.serve replica.origin new
          requests := replica.requests.eraseIdx index
          responses := replica.responses ++ [request.answer replica.origin new] }
  | handle {replica : Replica κ} {index : Nat} {response : Response κ}
      (arrived : replica.responses[index]? = some response) :
      Step replica (.handle index)
        { replica with
          copy := response.handle replica.copy
          responses := replica.responses.eraseIdx index }

/-- The client and the server under events in any order. -/
def system : System (Replica κ) (Event κ) where
  step := Step

/-- A name that the server has and that nobody has asked it to remove. -/
def Kept (replica : Replica κ) (name : κ) : Prop :=
  name ∈ replica.origin ∧ .remove name ∉ replica.requests

/-- A name that the copy will still gain, or that the server will still lose. -/
def Underway (replica : Replica κ) (name : κ) : Prop :=
  .added name ∈ replica.responses ∨ .remove name ∈ replica.requests

/-- A response that still says what the server has: a listing of kept names that
leaves out only names underway, or an added name that is kept. -/
def Response.Fresh (replica : Replica κ) : Response κ → Prop
  | .listing names =>
      (∀ name ∈ names, replica.Kept name) ∧
        ∀ name ∈ replica.origin, name ∉ names → replica.Underway name
  | .added name => replica.Kept name
  | .removed => True

/-- The copy has kept names only, and misses only names underway. -/
structure Coupled (replica : Replica κ) : Prop where
  kept : ∀ name ∈ replica.copy, replica.Kept name
  missing : ∀ name ∈ replica.origin, name ∉ replica.copy → replica.Underway name

/-- What was in a list is there after an index is erased, unless it was at the index. -/
theorem mem_eraseIdx_of_ne {α : Type*} {items : List α} {index : Nat} {item other : α}
    (located : items[index]? = some other) (different : item ≠ other) :
    item ∈ items.eraseIdx index ↔ item ∈ items := by
  refine ⟨List.mem_of_mem_eraseIdx, fun member => ?_⟩
  rw [List.mem_eraseIdx_iff_getElem?]
  obtain ⟨position, reads⟩ := List.mem_iff_getElem?.mp member
  refine ⟨position, ?_, reads⟩
  rintro rfl
  exact different (Option.some.inj (reads.symm.trans located))

namespace Coupled

variable {replica : Replica κ}

/-- What is asked for changes nothing before it is served, unless it is a removal. -/
theorem ask (coupled : Coupled replica) {request : Request κ}
    (other : ∀ name, request ≠ .remove name) :
    Coupled { replica with requests := replica.requests ++ [request] } := by
  refine ⟨fun name member => ?_, fun name member absent => ?_⟩
  · obtain ⟨stored, requested⟩ := coupled.kept name member
    refine ⟨stored, fun later => ?_⟩
    rcases List.mem_append.mp later with before | last
    · exact requested before
    · exact other name (List.mem_singleton.mp last).symm
  · exact (coupled.missing name member absent).imp_right (List.mem_append_left _)

/-- A dropped name is underway until its removal is served. -/
theorem drop (coupled : Coupled replica) (dropped : κ) :
    Coupled { replica with
      copy := replica.copy \ {dropped}
      requests := replica.requests ++ [.remove dropped] } := by
  refine ⟨fun name member => ?_, fun name member absent => ?_⟩
  · obtain ⟨stored, requested⟩ := coupled.kept name member.1
    exact ⟨stored, by simpa [requested, Set.mem_singleton_iff] using member.2⟩
  · by_cases same : name = dropped
    · exact Or.inr (by simp [same])
    · have uncopied : name ∉ replica.copy := fun copied => absent ⟨copied, same⟩
      rcases coupled.missing name member uncopied with arriving | removing
      · exact Or.inl arriving
      · exact Or.inr (List.mem_append_left _ removing)

/-- A served request changes the origin only by names that were not kept. -/
theorem serve (coupled : Coupled replica) {index : Nat} {request : Request κ} (new : κ)
    (pending : replica.requests[index]? = some request) :
    Coupled { replica with
      origin := request.serve replica.origin new
      requests := replica.requests.eraseIdx index
      responses := replica.responses ++ [request.answer replica.origin new] } := by
  have requested : request ∈ replica.requests := List.mem_of_getElem? pending
  refine ⟨fun name member => ?_, fun name member absent => ?_⟩
  · obtain ⟨stored, kept⟩ := coupled.kept name member
    refine ⟨?_, fun later => kept (List.mem_of_mem_eraseIdx later)⟩
    cases request with
    | list => exact stored
    | add => exact Set.mem_insert_of_mem _ stored
    | remove removed => exact ⟨stored, fun same => kept (same ▸ requested)⟩
  · have origin : name ∈ replica.origin ∨ request = .add ∧ name = new := by
      cases request with
      | list => exact Or.inl member
      | add => exact member.elim (fun same => Or.inr ⟨rfl, same⟩) Or.inl
      | remove removed => exact Or.inl member.1
    rcases origin with stored | ⟨rfl, rfl⟩
    · rcases coupled.missing name stored absent with arriving | removing
      · exact Or.inl (List.mem_append_left _ arriving)
      · refine Or.inr ((mem_eraseIdx_of_ne pending ?_).mpr removing)
        rintro rfl
        exact member.2 rfl
    · exact Or.inl (by simp [Request.answer])

/-- A fresh listing couples the copy, whatever it was before. -/
theorem of_listing {index : Nat} {names : Set κ}
    (arrived : replica.responses[index]? = some (.listing names))
    (fresh : (Response.listing names).Fresh replica) :
    Coupled { replica with copy := names, responses := replica.responses.eraseIdx index } := by
  refine ⟨fresh.1, fun name stored absent => ?_⟩
  apply (fresh.2 name stored absent).imp_left
  exact (mem_eraseIdx_of_ne arrived (by simp)).mpr

/-- A fresh added name keeps the coupling. -/
theorem learn (coupled : Coupled replica) {index : Nat} {added : κ}
    (arrived : replica.responses[index]? = some (.added added))
    (fresh : (Response.added added).Fresh replica) :
    Coupled { replica with
      copy := insert added replica.copy
      responses := replica.responses.eraseIdx index } := by
  refine ⟨fun name member => ?_, fun name stored absent => ?_⟩
  · exact member.elim (fun same => same ▸ fresh) (coupled.kept name)
  · apply (coupled.missing name stored fun copied => absent (Or.inr copied)).imp_left
    apply (mem_eraseIdx_of_ne arrived _).mpr
    intro same
    cases same
    exact absent (Or.inl rfl)

/-- That a name was removed says nothing about the copy. -/
theorem acknowledge (coupled : Coupled replica) {index : Nat}
    (arrived : replica.responses[index]? = some .removed) :
    Coupled { replica with responses := replica.responses.eraseIdx index } := by
  refine ⟨coupled.kept, fun name stored absent => ?_⟩
  apply (coupled.missing name stored absent).imp_left
  exact (mem_eraseIdx_of_ne arrived (by simp)).mpr

/-- A copy that is coupled is the server's set when nothing is in flight. -/
theorem agree (coupled : Coupled replica)
    (settled : replica.requests = [] ∧ replica.responses = []) :
    replica.copy = replica.origin := by
  apply Set.Subset.antisymm
  · exact fun name member => (coupled.kept name member).1
  · intro name member
    by_contra absent
    have underway := coupled.missing name member absent
    simp [Underway, settled.1, settled.2] at underway

end Coupled

end Replica

end Foundation
