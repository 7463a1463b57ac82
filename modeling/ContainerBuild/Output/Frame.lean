import ContainerBuild.Bytes

/-!
# Frames of output

The output of a command that runs in a container comes in frames. A frame has a header of eight bytes,
the number of its stream, three zero bytes and the length of what follows, with the greatest byte
first. Output that does not start with such a header is not framed and goes through as it is.
-/

namespace ContainerBuild

inductive OutputStream
  | stdin
  | stdout
  | stderr
  deriving DecidableEq, Repr

namespace OutputStream

def number : OutputStream → UInt8
  | stdin => 0
  | stdout => 1
  | stderr => 2

/-- The stream of a first byte; a framed output has no byte above two there. -/
def ofByte (b : UInt8) : OutputStream :=
  if b == 0 then stdin else if b == 1 then stdout else stderr

@[simp] theorem ofByte_number (s : OutputStream) : ofByte s.number = s := by
  cases s <;> rfl

end OutputStream

/-- What a command wrote to one of its streams at one time. -/
structure Frame where
  stream : OutputStream
  payload : Bytes
  deriving DecidableEq, Repr

namespace Frame

def headerLength : Nat := 8

def lengthBytes (n : Nat) : Bytes :=
  [UInt8.ofNat (n >>> 24), UInt8.ofNat (n >>> 16), UInt8.ofNat (n >>> 8), UInt8.ofNat n]

/-- The bytes of a frame. Its payload must be shorter than 2^32 bytes. -/
def encode (f : Frame) : Bytes :=
  [f.stream.number, 0, 0, 0] ++ lengthBytes f.payload.length ++ f.payload

def encodeAll (fs : List Frame) : Bytes :=
  fs.flatMap encode

@[simp] theorem encodeAll_nil : encodeAll [] = [] := rfl

@[simp] theorem encodeAll_cons (f : Frame) (fs : List Frame) :
    encodeAll (f :: fs) = f.encode ++ encodeAll fs :=
  rfl

theorem length_encode (f : Frame) : f.encode.length = headerLength + f.payload.length := by
  simp [encode, lengthBytes, headerLength]
  omega

end Frame

/-- A piece of output: a frame, or bytes of an output that is not framed. -/
inductive OutputPiece
  | frame (f : Frame)
  | raw (b : Bytes)
  deriving DecidableEq, Repr

namespace OutputPiece

def payload : OutputPiece → Bytes
  | frame f => f.payload
  | raw b => b

def stream? : OutputPiece → Option OutputStream
  | frame f => some f.stream
  | raw _ => none

end OutputPiece

end ContainerBuild
