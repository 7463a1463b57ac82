/-!
# Processor limits

A limit in processors is a fraction. One daemon takes it in units of a thousand-millionth of a
processor, the other as the share of a period of a hundred milliseconds. Both are rounded to the
nearest whole number, halves away from zero, and kept within 64 bits.
-/

namespace ContainerBuild
namespace Processor

/-- The period that the share is taken of, in microseconds. -/
def periodMicros : Nat := 100000

/-- The nearest signed number of 64 bits; no number at all becomes zero. -/
def nearest (x : Float) : Int :=
  x.round.toInt64.toInt

def billionths (cpus : Float) : Int :=
  nearest (cpus * 1000000000.0)

def quota (cpus : Float) : Int :=
  nearest (cpus * 100000.0)

end Processor
end ContainerBuild
