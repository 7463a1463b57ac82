import ContainerBuild.Bytes
import ContainerBuild.Text
import ContainerBuild.Text.Number

/-!
# Endpoints

The address that a readiness probe asks: `scheme://authority/path?query`. The scheme may be absent, and
then the address is a path alone, a star, or an authority alone. The authority may name a user before
an at sign, and has a host and sometimes a port.
-/

namespace ContainerBuild

structure ProbeEndpoint where
  scheme : Option String
  authority : Bytes
  /-- The path and the query, without a fragment. -/
  target : Bytes
  deriving DecidableEq, Repr

namespace ProbeEndpoint

inductive Flaw
  | empty
  | tooLong
  | invalidCharacter
  | invalidAuthority
  | schemeTooLong
  | invalidFormat
  deriving DecidableEq, Repr

def Flaw.reason : Flaw → String
  | empty => "empty string"
  | tooLong => "too long"
  | invalidCharacter => "invalid character"
  | invalidAuthority => "invalid authority"
  | schemeTooLong => "scheme too long"
  | invalidFormat => "invalid format"

def maxLength : Nat := 65534

def maxScheme : Nat := 64

def isLetter (b : UInt8) : Bool :=
  (0x41 ≤ b && b ≤ 0x5A) || (0x61 ≤ b && b ≤ 0x7A)

def isDigit (b : UInt8) : Bool :=
  0x30 ≤ b && b ≤ 0x39

def isSchemeByte (b : UInt8) : Bool :=
  isLetter b || isDigit b || (Utf8.encode "+-.").contains b

def isAddressByte (b : UInt8) : Bool :=
  isLetter b || isDigit b || (Utf8.encode "!#$&'()*+,-./:;=?@[]_~").contains b

def lower (b : UInt8) : UInt8 :=
  if 0x41 ≤ b && b ≤ 0x5A then b + 0x20 else b

def startsWithFolded (start : String) (b : Bytes) : Bool :=
  (Utf8.encode start).isPrefixOf (b.map lower)

def splitScheme (b : Bytes) : Except Flaw (Option String × Bytes) :=
  if startsWithFolded "http://" b then .ok (some "http", b.drop 7)
  else if startsWithFolded "https://" b then .ok (some "https", b.drop 8)
  else
    let scheme := b.takeWhile isSchemeByte
    let rest := b.drop scheme.length
    if 3 < b.length && (Utf8.encode "://").isPrefixOf rest then
      if maxScheme < scheme.length then .error .schemeTooLong
      else .ok (some (Utf8.decodeLossy scheme), rest.drop 3)
    else .ok (none, b)

structure Scan where
  colons : Nat
  opened : Bool
  closed : Bool
  percent : Bool
  /-- Whether the byte just read was an at sign. -/
  atSign : Bool

/-- The number of colons that a host between brackets can have, with the one before a port. -/
def maxColons : Nat := 8

/-- Reads an authority up to the byte that ends it. -/
def scanAuthority : Scan → Bytes → Except Flaw (Scan × Bytes)
  | s, [] => .ok (s, [])
  | s, b :: rest =>
    if b == 0x2F || b == 0x3F || b == 0x23 then .ok (s, b :: rest)
    else
      let s' := { s with atSign := false }
      if b == 0x3A then
        if maxColons ≤ s.colons then .error .invalidAuthority
        else scanAuthority { s' with colons := s.colons + 1 } rest
      else if b == 0x5B then
        if s.percent || s.opened then .error .invalidAuthority
        else scanAuthority { s' with opened := true } rest
      else if b == 0x5D then
        if !s.opened || s.closed then .error .invalidAuthority
        else scanAuthority { s' with closed := true, colons := 0, percent := false } rest
      else if b == 0x40 then
        scanAuthority { s with colons := 0, percent := false, atSign := true } rest
      else if b == 0x25 then scanAuthority { s' with percent := true } rest
      else if isAddressByte b then scanAuthority s' rest
      else .error .invalidCharacter

def splitAuthority (b : Bytes) : Except Flaw (Bytes × Bytes) := do
  let (s, rest) ← scanAuthority ⟨0, false, false, false, false⟩ b
  if s.opened != s.closed || 1 < s.colons || s.atSign || s.percent then throw .invalidAuthority
  return (b.take (b.length - rest.length), rest)

def isPathByte (b : UInt8) : Bool :=
  b == 0x21 || b == 0x22 || (0x24 ≤ b && b ≤ 0x3B) || b == 0x3D || (0x40 ≤ b && b ≤ 0x5F) ||
    (0x61 ≤ b && b ≤ 0x7E) || 0x7F ≤ b

def isQueryByte (b : UInt8) : Bool :=
  b == 0x21 || (0x24 ≤ b && b ≤ 0x3B) || b == 0x3D || (0x3F ≤ b && b ≤ 0x7E) || 0x7F ≤ b

def splitTarget (b : Bytes) : Except Flaw Bytes :=
  let beforeFragment := b.takeWhile (· != 0x23)
  let path := beforeFragment.takeWhile (· != 0x3F)
  let query := (beforeFragment.drop path.length).drop 1
  if path.all isPathByte && query.all isQueryByte then .ok beforeFragment
  else .error .invalidCharacter

def ofBytes (b : Bytes) : Except Flaw ProbeEndpoint := do
  if maxLength < b.length then throw .tooLong
  if b.isEmpty then throw .empty
  if b.head? == some 0x2F then return ⟨none, [], ← splitTarget b⟩
  if b == Utf8.encode "*" then return ⟨none, [], b⟩
  let (scheme, rest) ← splitScheme b
  let (authority, rest) ← splitAuthority rest
  match scheme with
  | none =>
    if rest.isEmpty then return ⟨none, authority, []⟩ else throw .invalidFormat
  | some scheme =>
    if authority.isEmpty then throw .invalidFormat
    else return ⟨some scheme, authority, ← splitTarget rest⟩

/-- The authority without a user. -/
def hostAndPort (e : ProbeEndpoint) : Bytes :=
  (e.authority.reverse.takeWhile (· != 0x40)).reverse

def host (e : ProbeEndpoint) : Bytes :=
  if e.authority.isEmpty then Utf8.encode "localhost"
  else if e.hostAndPort.head? == some 0x5B then
    e.hostAndPort.takeWhile (· != 0x5D) ++ [0x5D]
  else e.hostAndPort.takeWhile (· != 0x3A)

/-- The port after the last colon, or that of HTTP. -/
def port (e : ProbeEndpoint) : Nat :=
  let digits := (Text.splitLast ':' (Utf8.decodeLossy e.authority)).map Prod.snd
  (digits.bind fun s => Text.unsigned? 10 65535 s.toList).getD 80

def path (e : ProbeEndpoint) : Bytes :=
  if e.target.isEmpty then [0x2F] else e.target

/-- What an attempt asks for, and of whom. -/
structure Request where
  host : Bytes
  port : Nat
  path : Bytes
  deriving DecidableEq, Repr

/-- The request for an endpoint. There is none for a path that begins with its query, since such a path
cannot be read back as an address. -/
def request? (e : ProbeEndpoint) : Option Request :=
  if e.path.head? == some 0x3F then none else some ⟨e.host, e.port, e.path⟩

end ProbeEndpoint
end ContainerBuild
