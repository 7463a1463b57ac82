/-!
# Durations

A duration is a whole number of nanoseconds. Its text has the largest unit of which it holds at least
one, with as many decimals as are needed and no trailing zero.
-/

namespace ContainerBuild

structure Duration where
  nanos : Nat
  deriving DecidableEq, Repr

namespace Duration

def ofSecs (n : Nat) : Duration := ⟨n * 1000000000⟩

def ofMillis (n : Nat) : Duration := ⟨n * 1000000⟩

def zero : Duration := ⟨0⟩

instance : LE Duration := ⟨fun a b => a.nanos ≤ b.nanos⟩

instance : LT Duration := ⟨fun a b => a.nanos < b.nanos⟩

instance (a b : Duration) : Decidable (a ≤ b) := inferInstanceAs (Decidable (a.nanos ≤ b.nanos))

instance (a b : Duration) : Decidable (a < b) := inferInstanceAs (Decidable (a.nanos < b.nanos))

instance : Add Duration := ⟨fun a b => ⟨a.nanos + b.nanos⟩⟩

/-- What is left of the first after the second; nothing when the second is longer. -/
instance : Sub Duration := ⟨fun a b => ⟨a.nanos - b.nanos⟩⟩

/-- The fraction `part / 10 ^ places` as decimals without trailing zeros, after a point. -/
def decimals (places part : Nat) : String :=
  let digits := (Nat.toDigits 10 part)
  let padded := List.replicate (places - digits.length) '0' ++ digits
  let kept := (padded.reverse.dropWhile (· == '0')).reverse
  if kept.isEmpty then "" else String.ofList ('.' :: kept)

def inUnit (places : Nat) (unit : String) (d : Duration) : String :=
  toString (d.nanos / Nat.pow 10 places) ++ decimals places (d.nanos % Nat.pow 10 places) ++ unit

def text (d : Duration) : String :=
  if 1000000000 ≤ d.nanos then d.inUnit 9 "s"
  else if 1000000 ≤ d.nanos then d.inUnit 6 "ms"
  else if 1000 ≤ d.nanos then d.inUnit 3 "µs"
  else d.inUnit 0 "ns"

end Duration
end ContainerBuild
