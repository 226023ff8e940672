import Mathlib.Tactic.Common

/-! # Points in time and their text form

A date is a number of nanoseconds since the epoch. Its text form carries whole
seconds only, so a date that travels as text arrives truncated
(`Foundation.Date.truncated`); truncating twice changes nothing more.
-/

namespace Foundation

/-- A point in time, in nanoseconds since the epoch. -/
@[ext]
structure Date where
  nanoseconds : Int
deriving DecidableEq, Repr, Inhabited

namespace Date

/-- The date a number of seconds after the epoch. -/
def ofSeconds (seconds : Int) : Date := ⟨seconds * 1000000000⟩

/-- The whole seconds from the epoch to a date. -/
def seconds (date : Date) : Int := date.nanoseconds / 1000000000

@[simp] theorem seconds_ofSeconds (count : Int) : (ofSeconds count).seconds = count := by
  simp only [ofSeconds, seconds]
  omega

/-- A date without its fraction of a second. -/
def truncated (date : Date) : Date := ofSeconds date.seconds

@[simp] theorem truncated_truncated (date : Date) : date.truncated.truncated = date.truncated := by
  simp [truncated]

/-- A date that falls on a whole second. -/
def IsWhole (date : Date) : Prop := date.truncated = date

instance (date : Date) : Decidable date.IsWhole := inferInstanceAs (Decidable (_ = _))

theorem IsWhole.truncated_eq {date : Date} (whole : date.IsWhole) : date.truncated = date := whole

end Date

/-- The text form of dates: a writer of whole seconds and a reader that inverts
it. -/
structure ISO8601 where
  string : Int → String
  seconds? : String → Option Int
  seconds?_string : ∀ seconds, seconds? (string seconds) = some seconds

end Foundation
