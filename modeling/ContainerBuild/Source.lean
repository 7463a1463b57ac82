import ContainerBuild.Bytes

/-!
# Sources

What can still be read from a stream: some bytes, and then either the end of the stream or a failure.
-/

namespace ContainerBuild

structure Source where
  bytes : Bytes
  /-- Whether reading past the bytes fails, and does not find the end. -/
  fails : Bool
  deriving DecidableEq, Repr

namespace Source

def ofBytes (b : Bytes) : Source := ⟨b, false⟩

def drop (s : Source) (n : Nat) : Source := { s with bytes := s.bytes.drop n }

def skip? (s : Source) (n : Nat) : Option Source :=
  if n = 0 then some s
  else if s.bytes.length < n then none
  else some (s.drop n)

inductive Block
  | block (b : Bytes) (rest : Source)
  | ended
  | broken

/-- Reads the next `n` bytes. The stream may end before them but not among them. -/
def nextBlock (s : Source) (n : Nat) : Block :=
  let b := s.bytes.take n
  if b.length = n then .block b (s.drop n)
  else if b.isEmpty && !s.fails then .ended
  else .broken

end Source
end ContainerBuild
