import Muster.Double.Text

/-!
Spans of time, counted in nanoseconds, and their texts.
-/

namespace Muster

/-- A span of time. -/
structure Duration where
  nanoseconds : Nat
deriving DecidableEq, Inhabited

namespace Duration

def zero : Duration := ⟨0⟩

def nanosecondsPerSecond : Nat := 1000000000

/-- A span of whole seconds. -/
def ofSeconds (n : Nat) : Duration := ⟨n * nanosecondsPerSecond⟩

/-- The whole seconds of a span. -/
def wholeSeconds (d : Duration) : Nat := d.nanoseconds / nanosecondsPerSecond

/-- The largest unit that the span fills at least once: its name and the number of decimal places
that a nanosecond has in it. -/
def unit (d : Duration) : String × Nat :=
  if nanosecondsPerSecond ≤ d.nanoseconds then ("s", 9)
  else if 1000000 ≤ d.nanoseconds then ("ms", 6)
  else if 1000 ≤ d.nanoseconds then ("µs", 3)
  else ("ns", 0)

/-- The span in its largest unit, with as many decimal places as it needs. -/
def text (d : Duration) : String :=
  let (name, places) := d.unit
  Double.positional d.nanoseconds (-(places : Int)) ++ name

instance : ToString Duration := ⟨text⟩

/-- A number of steps of `10 ^ (-places)`, written with all its places. -/
def fixedText (places steps : Nat) : String :=
  let whole := toString (steps / Nat.pow 10 places)
  if places = 0 then whole
  else whole ++ "." ++ Double.padZeros places (toString (steps % Nat.pow 10 places))

/-- The span in its largest unit, rounded to `shown` decimal places, a tie to the even digit. -/
def roundedText (shown : Nat) (d : Duration) : String :=
  let (name, places) := d.unit
  let steps := Double.roundHalfEven (d.nanoseconds * Nat.pow 10 shown) (Nat.pow 10 places)
  fixedText shown steps ++ name

/-- The span in seconds, as a double. -/
def seconds (d : Duration) : Double :=
  let rest := Double.ofNat (d.nanoseconds % nanosecondsPerSecond)
  Double.ofNat d.wholeSeconds + rest / Double.ofNat nanosecondsPerSecond

/-- The span in seconds, rounded to `shown` decimal places. -/
def secondsText (shown : Nat) (d : Duration) : String :=
  let units := d.seconds.units.natAbs
  fixedText shown (Double.roundHalfEven (units * Nat.pow 10 shown) Double.unitsPerOne)

/-- A limit of no time is no limit. -/
def asLimit (d : Duration) : Option Duration := if d.nanoseconds = 0 then none else some d

/-- The text of a limit. -/
def limitText : Option Duration → String
  | some d => d.text
  | none => "none"

end Duration
end Muster
