import ContainerBuild.Yaml.Token

/-!
# YAML nodes

A document is a tree of scalars, lists and mappings. A name given to a node by an anchor stands for
that node in what follows. A text is well formed only as a whole; here it must hold one document at
most.
-/

namespace ContainerBuild
namespace Yaml

inductive Node
  | scalar (tag : Option String) (style : Style) (text : String)
  | list (items : List Node)
  | mapping (entries : List (Node × Node))
  /-- A name for a node inside of that node itself. -/
  | cycle

namespace Node

def absent : Node := .scalar none .plain ""

/-- What the names mean at some place of a document. -/
structure Scope where
  anchors : List (List Char × Node)
  handles : List (List Char × List Char)

namespace Scope

def start : Scope :=
  ⟨[], [("!".toList, "!".toList), ("!!".toList, "tag:yaml.org,2002:".toList)]⟩

def anchor? (s : Scope) (name : List Char) : Option Node :=
  (s.anchors.find? fun e => e.1 == name).map Prod.snd

def define (s : Scope) (name : Option (List Char)) (n : Node) : Scope :=
  match name with
  | some name => { s with anchors := (name, n) :: s.anchors }
  | none => s

/-- The whole of a tag; its handle must be known. -/
def resolve (s : Scope) (handle suffix : List Char) : Option String :=
  if handle.isEmpty then some (String.ofList suffix)
  else
    (s.handles.find? fun e => e.1 == handle).map fun e => String.ofList (e.2 ++ suffix)

end Scope

/-- What was read, the scope after it and the tokens after it. -/
abbrev Parsed (α : Type) := α × Scope × List Token

/-- The anchor and the tag before a node, in either order. -/
def properties (s : Scope) (ts : List Token) :
    Option (Option (List Char) × Option String × List Token) :=
  match ts with
  | .anchor name :: .tag h t :: ts => (s.resolve h t).map fun t => (some name, some t, ts)
  | .tag h t :: .anchor name :: ts => (s.resolve h t).map fun t => (some name, some t, ts)
  | .anchor name :: ts => some (some name, none, ts)
  | .tag h t :: ts => (s.resolve h t).map fun t => (none, some t, ts)
  | _ => some (none, none, ts)

mutual

/-- Reads a node. `block` says whether it may be a block, `level` whether the entries of a list may
stand at the column of the mapping around it. -/
def parse : Nat → Bool → Bool → Scope → List Token → Option (Parsed Node)
  | 0, _, _, _, _ => none
  | _ + 1, _, _, s, .alias name :: ts => (s.anchor? name).map fun n => (n, s, ts)
  | fuel + 1, block, level, s, ts =>
    match properties s ts with
    | none => none
    | some (name, tag, rest) =>
      let inner := s.define name .cycle
      let finish (r : Option (Parsed Node)) : Option (Parsed Node) :=
        r.map fun (n, s, ts) => (n, s.define name n, ts)
      match rest with
      | .scalar text style :: ts =>
        let n := Node.scalar tag style (String.ofList text)
        some (n, s.define name n, ts)
      | .flowSequence :: ts =>
        finish ((flowItems fuel true inner ts).map fun (l, s, ts) => (Node.list l, s, ts))
      | .flowMapping :: ts =>
        finish ((flowEntries fuel true inner ts).map fun (l, s, ts) => (Node.mapping l, s, ts))
      | .blockSequence :: ts =>
        if block then finish ((blockItems fuel inner ts).map fun (l, s, ts) => (Node.list l, s, ts))
        else none
      | .blockMapping :: ts =>
        if block then finish ((blockEntries fuel inner ts).map fun (l, s, ts) => (Node.mapping l, s, ts))
        else none
      | .blockEntry :: _ =>
        if level then finish ((levelItems fuel inner rest).map fun (l, s, ts) => (Node.list l, s, ts))
        else if name.isSome || tag.isSome then
          let n := Node.scalar tag .plain ""
          some (n, s.define name n, rest)
        else none
      | _ =>
        if name.isSome || tag.isSome then
          let n := Node.scalar tag .plain ""
          some (n, s.define name n, rest)
        else none

def blockItems : Nat → Scope → List Token → Option (Parsed (List Node))
  | 0, _, _ => none
  | _ + 1, s, .blockEnd :: ts => some ([], s, ts)
  | fuel + 1, s, .blockEntry :: ts => do
    let (n, s, ts) ← match ts with
      | .blockEntry :: _ => some (absent, s, ts)
      | .blockEnd :: _ => some (absent, s, ts)
      | _ => parse fuel true false s ts
    let (l, s, ts) ← blockItems fuel s ts
    return (n :: l, s, ts)
  | _, _, _ => none

/-- The entries of a list at the column of the mapping around it. -/
def levelItems : Nat → Scope → List Token → Option (Parsed (List Node))
  | 0, _, _ => none
  | fuel + 1, s, .blockEntry :: ts => do
    let (n, s, ts) ← match ts with
      | .blockEntry :: _ => some (absent, s, ts)
      | .key :: _ => some (absent, s, ts)
      | .value :: _ => some (absent, s, ts)
      | .blockEnd :: _ => some (absent, s, ts)
      | _ => parse fuel true false s ts
    let (l, s, ts) ← levelItems fuel s ts
    return (n :: l, s, ts)
  | _, s, ts => some ([], s, ts)

def blockPart : Nat → Scope → List Token → Option (Parsed Node)
  | 0, _, _ => none
  | fuel + 1, s, ts =>
    match ts with
    | .key :: _ => some (absent, s, ts)
    | .value :: _ => some (absent, s, ts)
    | .blockEnd :: _ => some (absent, s, ts)
    | _ => parse fuel true true s ts

def blockEntries : Nat → Scope → List Token → Option (Parsed (List (Node × Node)))
  | 0, _, _ => none
  | _ + 1, s, .blockEnd :: ts => some ([], s, ts)
  | fuel + 1, s, .key :: ts => do
    let (k, s, ts) ← blockPart fuel s ts
    let (v, s, ts) ← match ts with
      | .value :: ts => blockPart fuel s ts
      | _ => some (absent, s, ts)
    let (l, s, ts) ← blockEntries fuel s ts
    return ((k, v) :: l, s, ts)
  | _, _, _ => none

def flowValue : Nat → Scope → List Token → Option (Parsed Node)
  | 0, _, _ => none
  | fuel + 1, s, .value :: ts =>
    match ts with
    | .flowEntry :: _ => some (absent, s, ts)
    | .flowSequenceEnd :: _ => some (absent, s, ts)
    | .flowMappingEnd :: _ => some (absent, s, ts)
    | _ => parse fuel false false s ts
  | _, s, ts => some (absent, s, ts)

def flowKey : Nat → Scope → List Token → Option (Parsed Node)
  | 0, _, _ => none
  | fuel + 1, s, ts =>
    match ts with
    | .value :: _ => some (absent, s, ts)
    | .flowEntry :: _ => some (absent, s, ts)
    | .flowSequenceEnd :: _ => some (absent, s, ts)
    | .flowMappingEnd :: _ => some (absent, s, ts)
    | _ => parse fuel false false s ts

def flowItems : Nat → Bool → Scope → List Token → Option (Parsed (List Node))
  | 0, _, _, _ => none
  | _ + 1, _, s, .flowSequenceEnd :: ts => some ([], s, ts)
  | fuel + 1, first, s, ts => do
    let ts ← if first then some ts else
      match ts with
      | .flowEntry :: ts => some ts
      | _ => none
    match ts with
    | .flowSequenceEnd :: ts => return ([], s, ts)
    | .key :: ts =>
      let (k, s, ts) ← flowKey fuel s ts
      let (v, s, ts) ← flowValue fuel s ts
      let (l, s, ts) ← flowItems fuel false s ts
      return (.mapping [(k, v)] :: l, s, ts)
    | ts =>
      let (n, s, ts) ← parse fuel false false s ts
      let (l, s, ts) ← flowItems fuel false s ts
      return (n :: l, s, ts)

def flowEntries : Nat → Bool → Scope → List Token → Option (Parsed (List (Node × Node)))
  | 0, _, _, _ => none
  | _ + 1, _, s, .flowMappingEnd :: ts => some ([], s, ts)
  | fuel + 1, first, s, ts => do
    let ts ← if first then some ts else
      match ts with
      | .flowEntry :: ts => some ts
      | _ => none
    match ts with
    | .flowMappingEnd :: ts => return ([], s, ts)
    | .key :: ts =>
      let (k, s, ts) ← flowKey fuel s ts
      let (v, s, ts) ← flowValue fuel s ts
      let (l, s, ts) ← flowEntries fuel false s ts
      return ((k, v) :: l, s, ts)
    | ts =>
      let (k, s, ts) ← parse fuel false false s ts
      let (l, s, ts) ← flowEntries fuel false s ts
      return ((k, absent) :: l, s, ts)

end

/-- The directives before a document; a version and a handle may be given once. -/
def directives : Bool → List (List Char × List Char) → List Token →
    Option (List (List Char × List Char) × List Token)
  | versioned, handles, .version :: ts => if versioned then none else directives true handles ts
  | versioned, handles, .tagDirective h t :: ts =>
    if handles.any fun e => e.1 == h then none else directives versioned ((h, t) :: handles) ts
  | _, handles, ts => some (handles, ts)

def content (s : Scope) (ts : List Token) : Option (Parsed Node) :=
  match ts with
  | [] => some (absent, s, ts)
  | .documentStart :: _ => some (absent, s, ts)
  | .documentEnd :: _ => some (absent, s, ts)
  | .version :: _ => some (absent, s, ts)
  | .tagDirective _ _ :: _ => some (absent, s, ts)
  | _ => parse (4 * ts.length + 4) true false s ts

def atEnd (ts : List Token) : Bool :=
  ts.all fun t => t == .documentEnd

def ofTokens? (ts : List Token) : Option (Option Node) :=
  match ts with
  | [] => some none
  | _ => do
    let (handles, rest) ← directives false [] ts
    let explicit := rest.head? == some .documentStart
    if !explicit && rest.length != ts.length then none
    let rest := if explicit then rest.drop 1 else rest
    let s := { Scope.start with handles := handles ++ Scope.start.handles }
    let (n, _, after) ← content s rest
    if atEnd after then return some n else none

end Node

/-- Reads a text with one document at most. -/
def read (s : String) : Option (Option Node) :=
  (tokens s.toList).bind Node.ofTokens?

end Yaml
end ContainerBuild
