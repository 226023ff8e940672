import EventTalks.Foundation.Fallible
import EventTalks.Foundation.UUID
import EventTalks.Foundation.Date

/-! # JSON objects with optional members

The encoding of a structure lists its properties under their names and leaves an
absent optional property out; the decoding reads each property by its name and
takes a missing or null member as an absent optional property. Reading what was
written gives the value back, one member at a time
(`Foundation.Json.decodeIfPresent_of_lookup`).
-/

namespace Foundation

/-- A JSON value. -/
inductive Json where
  | null
  | bool (value : Bool)
  | number (value : Int)
  | string (value : String)
  | array (items : List Json)
  | object (members : List (String × Json))
deriving Repr, Inhabited

/-- Why a JSON value does not decode. -/
inductive DecodingError where
  | typeMismatch
  | valueNotFound (key : String)
  | keyNotFound (key : String)
  | dataCorrupted
deriving DecidableEq, Repr

namespace Json

variable {α β : Type*}

/-- The members of an object. -/
def container : Json → Except DecodingError (List (String × Json))
  | .object members => .ok members
  | _ => .error .typeMismatch

/-- An object has its members. -/
@[simp] theorem container_object (members : List (String × Json)) :
    container (.object members) = .ok members := rfl

/-- The items of an array, each decoded. -/
def decodeItems (value : Json → Except DecodingError α) : List Json → Except DecodingError (List α)
  | [] => .ok []
  | item :: rest => do
      let head ← value item
      let tail ← decodeItems value rest
      return head :: tail

/-- An array whose items decode. -/
def decodeArray (value : Json → Except DecodingError α) : Json → Except DecodingError (List α)
  | .array items => decodeItems value items
  | _ => .error .typeMismatch

/-- A required member. -/
def decode (value : Json → Except DecodingError α) (members : List (String × Json))
    (key : String) : Except DecodingError α :=
  match members.lookup key with
  | none => .error (.keyNotFound key)
  | some .null => .error (.valueNotFound key)
  | some json => value json

/-- An optional member: absent when it is missing or null. -/
def decodeIfPresent (value : Json → Except DecodingError α) (members : List (String × Json))
    (key : String) : Except DecodingError (Option α) :=
  match members.lookup key with
  | none => .ok none
  | some .null => .ok none
  | some json => (value json).map some

/-- A required member is always written. -/
def encode (key : String) (value : α → Json) (property : α) : List (String × Json) :=
  [(key, value property)]

/-- An optional member is written when it is present. -/
def encodeIfPresent (key : String) (value : α → Json) : Option α → List (String × Json)
  | none => []
  | some property => [(key, value property)]

/-- A property is looked up under its key. -/
@[simp] theorem lookup_encode (key other : String) (value : α → Json) (property : α) :
    (encode key value property).lookup other =
      if other = key then some (value property) else none := by
  simp only [encode, List.lookup_cons, List.lookup_nil, beq_eq_decide]
  split <;> simp_all

/-- A property that is present is looked up under its key. -/
@[simp] theorem lookup_encodeIfPresent (key other : String) (value : α → Json)
    (property : Option α) :
    (encodeIfPresent key value property).lookup other =
      if other = key then property.map value else none := by
  cases property with
  | none => simp [encodeIfPresent]
  | some property => exact lookup_encode key other value property

/-- A required member that was written reads back. -/
theorem decode_of_lookup (read : Json → Except DecodingError β) (write : α → Json)
    {members : List (String × Json)} {key : String} {property : α} {result : β}
    (written : members.lookup key = some (write property)) (notNull : write property ≠ .null)
    (inverse : read (write property) = .ok result) :
    decode read members key = .ok result := by
  unfold decode
  rw [written]
  split
  · simp_all
  · simp_all
  · simp_all

/-- **An optional member reads back as it was written**, absent staying absent. -/
theorem decodeIfPresent_of_lookup (read : Json → Except DecodingError β) (write : α → Json)
    (result : α → β) {members : List (String × Json)} {key : String} {property : Option α}
    (written : members.lookup key = property.map write)
    (notNull : ∀ present, write present ≠ .null)
    (inverse : ∀ present, read (write present) = .ok (result present)) :
    decodeIfPresent read members key = .ok (property.map result) := by
  unfold decodeIfPresent
  rw [written]
  cases property with
  | none => rfl
  | some present =>
      have nonNull := notNull present
      simp only [Option.map_some]
      rw [inverse present]
      rfl

/-- Items that are each read back are read back together. -/
theorem decodeItems_map {read : Json → Except DecodingError β} {write : α → Json}
    {result : α → β} (items : List α)
    (inverse : ∀ item ∈ items, read (write item) = .ok (result item)) :
    decodeItems read (items.map write) = .ok (items.map result) := by
  induction items with
  | nil => rfl
  | cons item rest ih =>
      rw [List.map_cons, decodeItems, inverse item List.mem_cons_self,
        ih fun later member => inverse later (List.mem_cons_of_mem _ member)]
      rfl

/-- A string value. -/
def asString : Json → Except DecodingError String
  | .string text => .ok text
  | _ => .error .typeMismatch

/-- An identifier, written as its text form. -/
def ofUUID (identifier : UUID) : Json := .string identifier.uuidString

/-- Read an identifier from its text form. -/
def asUUID : Json → Except DecodingError UUID
  | .string text => (UUID.ofString? text).elim (.error .dataCorrupted) .ok
  | _ => .error .typeMismatch

/-- An identifier is read back. -/
@[simp] theorem asUUID_ofUUID (identifier : UUID) :
    asUUID (ofUUID identifier) = .ok identifier := by
  simp [asUUID, ofUUID]

/-- A date, written in whole seconds. -/
def ofDate (iso : ISO8601) (date : Date) : Json := .string (iso.string date.seconds)

/-- Read a date from its text form. -/
def asDate (iso : ISO8601) : Json → Except DecodingError Date
  | .string text => (iso.seconds? text).elim (.error .dataCorrupted) fun seconds =>
      .ok (Date.ofSeconds seconds)
  | _ => .error .typeMismatch

/-- A date that travels as text arrives truncated to whole seconds. -/
@[simp] theorem asDate_ofDate (iso : ISO8601) (date : Date) :
    asDate iso (ofDate iso date) = .ok date.truncated := by
  simp [asDate, ofDate, iso.seconds?_string, Date.truncated]

section Members

variable {members : List (String × Json)} {key : String}

/-- A text is read back. -/
theorem decode_asString (property : String)
    (written : members.lookup key = some (.string property)) :
    decode asString members key = .ok property :=
  decode_of_lookup asString Json.string written (by simp) rfl

/-- A text is read back, or that there is none. -/
theorem decodeIfPresent_asString (property : Option String)
    (written : members.lookup key = property.map Json.string) :
    decodeIfPresent asString members key = .ok property := by
  rw [decodeIfPresent_of_lookup asString Json.string id written (by simp) fun _ => rfl,
    Option.map_id, id]

/-- An identifier is read back, or that there is none. -/
theorem decodeIfPresent_asUUID (property : Option UUID)
    (written : members.lookup key = property.map ofUUID) :
    decodeIfPresent asUUID members key = .ok property := by
  rw [decodeIfPresent_of_lookup asUUID ofUUID id written (by simp [ofUUID]) asUUID_ofUUID,
    Option.map_id, id]

/-- A date that was written reads back in whole seconds. -/
theorem decodeIfPresent_asDate {iso : ISO8601} (property : Option Date)
    (written : members.lookup key = property.map (ofDate iso)) :
    decodeIfPresent (asDate iso) members key = .ok (property.map Date.truncated) :=
  decodeIfPresent_of_lookup _ _ _ written (by simp [ofDate]) (asDate_ofDate iso)

end Members

end Json

end Foundation
