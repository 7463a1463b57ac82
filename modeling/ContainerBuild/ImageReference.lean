import ContainerBuild.Platform

/-!
# Image references

An image is named by `registry/repository:tag@digest`, where all but the repository may be absent.
The separators are shared: a colon also stands before a port, and slashes divide the repository. So
the digest begins at the first at sign, the tag at the last colon of the last segment before it, and
the first segment is a registry only if it looks like a host.
-/

namespace ContainerBuild

structure ImageReference where
  registry : Option String
  repository : String
  tag : Option String
  digest : Option String
  deriving DecidableEq, Repr

namespace ImageReference

def defaultTag : String := "latest"

def tagOrLatest (r : ImageReference) : String :=
  r.tag.getD defaultTag

/-- Registry and repository, without tag and digest. -/
def name (r : ImageReference) : String :=
  match r.registry with
  | some registry => registry ++ "/" ++ r.repository
  | none => r.repository

def text (r : ImageReference) : String :=
  r.name ++ (match r.tag with
    | some tag => ":" ++ tag
    | none => "") ++
  (match r.digest with
    | some digest => "@" ++ digest
    | none => "")

/-- The ending that marks the image of one platform. -/
def platformSuffix (p : PlatformSpec) : String :=
  match p.variant with
  | some variant => p.architecture ++ "-" ++ variant
  | none => p.architecture

/-- The temporary name of the image of one platform. The architecture is in the repository and not
in the tag, because of several images built under one repository and tag only the last keeps it. -/
def forPlatform (r : ImageReference) (p : PlatformSpec) : ImageReference :=
  { registry := r.registry
    repository := r.repository ++ "-" ++ platformSuffix p
    tag := some r.tagOrLatest
    digest := none }

inductive Flaw
  | empty
  | whitespace
  | emptyDigest
  | emptyTag
  | emptySegment
  deriving DecidableEq, Repr

def Flaw.reason : Flaw → String
  | empty => "empty reference"
  | whitespace => "contains whitespace"
  | emptyDigest => "empty digest"
  | emptyTag => "empty tag"
  | emptySegment => "empty repository segment"

/-- Separates the digest, which is everything after the first at sign. -/
def splitDigest (cs : List Char) : Except Flaw (List Char × Option (List Char)) :=
  match Text.splitFirstChars '@' cs with
  | some (rest, digest) => if digest.isEmpty then .error .emptyDigest else .ok (rest, some digest)
  | none => .ok (cs, none)

/-- The characters up to and with the last slash, and those after it. -/
def splitLastSegment (cs : List Char) : List Char × List Char :=
  match Text.splitLastChars '/' cs with
  | some (before, last) => (before ++ ['/'], last)
  | none => ([], cs)

/-- Separates the tag, which follows the last colon of the last segment. -/
def splitTag (cs : List Char) : Except Flaw (List Char × Option (List Char)) :=
  let (before, last) := splitLastSegment cs
  match Text.splitLastChars ':' last with
  | some (stem, tag) => if tag.isEmpty then .error .emptyTag else .ok (before ++ stem, some tag)
  | none => .ok (cs, none)

/-- Whether a first segment names a registry and is no part of the repository. -/
def looksLikeHost (segment : List Char) : Bool :=
  segment.contains '.' || segment.contains ':' || segment == "localhost".toList

def splitRegistry (cs : List Char) : Option (List Char) × List Char :=
  match Text.splitFirstChars '/' cs with
  | some (first, rest) => if looksLikeHost first then (some first, rest) else (none, cs)
  | none => (none, cs)

def ofChars (cs : List Char) : Except Flaw ImageReference := do
  if cs.isEmpty then throw .empty
  if cs.any Text.isBlank then throw .whitespace
  let (rest, digest) ← splitDigest cs
  let (name, tag) ← splitTag rest
  let (registry, repository) := splitRegistry name
  if (Text.splitChars '/' repository).any List.isEmpty then throw .emptySegment
  return {
    registry := registry.map String.ofList
    repository := String.ofList repository
    tag := tag.map String.ofList
    digest := digest.map String.ofList }

/-- Reads a reference; blanks around it do not count. -/
def parse (s : String) : Outcome ImageReference :=
  (ofChars (Text.trimChars s.toList)).mapError fun flaw => .invalidImageReference s flaw.reason

end ImageReference
end ContainerBuild
