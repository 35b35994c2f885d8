/-! # The clock

Times are whole milliseconds since some start. Nothing but waiting takes time, and a wait lasts as
long as was asked for, but never longer than thirty years. -/

namespace StateFlow.Clock

/-- The longest wait: thirty years. -/
def longest : Nat := 30 * 365 * 86400 * 1000

/-- How long a wait of so many milliseconds lasts. -/
def lasting (milliseconds : Nat) : Nat :=
  min milliseconds longest

theorem lasting_mono {m n : Nat} (h : m ≤ n) : lasting m ≤ lasting n :=
  Nat.le_min.mpr ⟨Nat.le_trans (Nat.min_le_left _ _) h, Nat.min_le_right _ _⟩

theorem lasting_eq_zero_iff {milliseconds : Nat} : lasting milliseconds = 0 ↔ milliseconds = 0 := by
  have hlongest : longest ≠ 0 := by decide
  rw [lasting, Nat.min_eq_zero_iff, or_iff_left hlongest]

/-- A time as it is reported, in a word of 64 bits. -/
def reported (milliseconds : Nat) : Nat :=
  milliseconds % Nat.pow 2 64

/-- Seconds in milliseconds. -/
def ofSeconds (seconds : Nat) : Nat :=
  1000 * seconds

/-- The last moment that counts, if there is one. -/
abbrev Horizon := Option Nat

/-- The moment lies behind the horizon. -/
def Horizon.passed (horizon : Horizon) (moment : Nat) : Bool :=
  match horizon with
  | none => false
  | some last => last < moment

end StateFlow.Clock

/-! ## Dates

Points in time are counted in milliseconds from the start of the year 1970. They are written with
the date in front, and with the milliseconds only if there are any. -/

namespace StateFlow.Timestamp

/-- The year, month and day that a number of days leads to. Years are taken to begin in March, so
that the day that is not in every year is the last of its year; 400 years have 146097 days. -/
def civil (days : Nat) : Nat × Nat × Nat :=
  let z := days + 719468
  let era := z / 146097
  let day := z % 146097
  let year := (day - day / 1460 + day / 36524 - day / 146096) / 365
  let dayOfYear := day - (365 * year + year / 4 - year / 100)
  let month := (5 * dayOfYear + 2) / 153
  let month' := if month < 10 then month + 3 else month - 9
  (year + 400 * era + (if month' ≤ 2 then 1 else 0), month', dayOfYear - (153 * month + 2) / 5 + 1)

/-- A number filled up with zeros. -/
def padded (count n : Nat) : String :=
  let digits := Nat.toDigits 10 n
  String.ofList (List.replicate (count - digits.length) '0' ++ digits)

/-- A point in time, written out. -/
def text (milliseconds : Nat) : String :=
  let seconds := milliseconds / 1000
  let (year, month, day) := civil (seconds / 86400)
  let time := seconds % 86400
  let fraction := milliseconds % 1000
  padded 4 year ++ "-" ++ padded 2 month ++ "-" ++ padded 2 day ++ "T" ++ padded 2 (time / 3600)
    ++ ":" ++ padded 2 (time / 60 % 60) ++ ":" ++ padded 2 (time % 60)
    ++ (if fraction = 0 then "" else "." ++ padded 3 fraction) ++ "Z"

end StateFlow.Timestamp
