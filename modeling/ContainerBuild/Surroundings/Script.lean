import ContainerBuild.Surroundings

/-!
# Scripted surroundings

A script says how a daemon and some commands answer and which files there are, so that a session can be
played without the real ones. A request takes the first route that fits it and is not used up. The
script keeps what it was asked, the newest first.
-/

namespace ContainerBuild

/-- Which requests get a reply, and how many of them. -/
structure Route where
  /-- What the target of the request contains. -/
  mark : String
  /-- The name of the method, if only one fits. -/
  method : Option String
  /-- How many requests may still take the route; none stands for any number. -/
  left : Option Nat
  reply : Http.Reply

namespace Route

def fits (route : Route) (r : Http.Request) : Bool :=
  Text.containsChars route.mark.toList r.target.toList && route.method.all (· == r.method.name) &&
    route.left.all (0 < ·)

def used (route : Route) : Route :=
  { route with left := route.left.map (· - 1) }

/-- The reply of the first route that fits, and the routes after that. -/
def take (r : Http.Request) : List Route → Option Http.Reply × List Route
  | [] => (none, [])
  | route :: routes =>
    if route.fits r then (some route.reply, route.used :: routes)
    else
      let (reply, rest) := take r routes
      (reply, route :: rest)

end Route

structure Script where
  routes : List Route
  otherwise : Http.Reply
  socket : Option String
  /-- The files, among them the socket. -/
  files : FileTree
  workingDirectory : List Name
  /-- What a command gives, if the program is there. -/
  program : Command → Option CommandOutput
  freshId : String
  requests : List Http.Request
  commands : List Command

namespace Script

def names (s : Script) (path : String) : List Name :=
  let b := Utf8.encode path
  (if FilePath.isAbsolute b then [] else s.workingDirectory) ++ FilePath.walk b

def stat (s : Script) (path : String) : Except SystemFault FileNode :=
  if path.isEmpty then .error .notFound else s.files.stat (s.names path)

def fileContent (s : Script) (path : String) : FileContent :=
  if path.isEmpty then .error .notFound else s.files.read (s.names path)

def maxSocketPath : Nat := 107

def refusal (s : Script) (path : String) : IoFault :=
  if maxSocketPath < path.utf8ByteSize then .other "path must be shorter than SUN_LEN"
  else if path.isEmpty then .system .invalidArgument
  else
    match s.stat path with
    | .error fault => .system fault
    | .ok _ => .system .connectionRefused

def exchange (s : Script) (path : String) (r : Http.Request) : Http.Reply × Script :=
  if s.socket = some path then
    let (reply, routes) := Route.take r s.routes
    (reply.getD s.otherwise, { s with routes := routes, requests := r :: s.requests })
  else (.unreachable (s.refusal path), s)

def run (s : Script) (c : Command) : CommandResult × Script :=
  match s.program c with
  | none => (.notStarted .notFound, s)
  | some output => (.ended output, { s with commands := c :: s.commands })

/-- Nothing that a probe asks can be reached. -/
def probed : (q : ProbeQuestion) → q.Answer
  | .moment => Duration.zero
  | .attempt e => ProbeQuestion.failing e SystemFault.connectionRefused.text
  | .pause length => ProbeQuestion.onTime length

def answer : (q : Inquiry) → Script → q.Answer × Script
  | .exchange socket _ request, s => s.exchange socket request
  | .pathExists path, s => ((s.stat path).isOk, s)
  | .command c _, s => s.run c
  | .freshId, s => (s.freshId, s)
  | .fileContent path, s => (s.fileContent path, s)
  | .probe q, s => (probed q, s)

def play {α : Type} (s : Script) (session : Session α) : Outcome α × Script :=
  Dialogue.run answer session.run s

def forget (s : Script) : Script :=
  { s with requests := [], commands := [] }

end Script
end ContainerBuild
