import ContainerBuild.Manager.Copy
import ContainerBuild.Surroundings

/-!
# The operations of a manager

Everything that can be asked of a container manager, so that something can be said of all of it at once:
what each backend does in its own way, and what is made of that in the same way on every backend.
-/

namespace ContainerBuild

/-- An operation with its arguments, and the type of its result. -/
inductive Operation : Type → Type
  | ping : Operation Unit
  | create (config : ContainerConfig) (registryAuth : String) : Operation String
  | start (id : String) : Operation Unit
  | stop (id : String) (signal : Signal) : Operation Unit
  | remove (id : String) : Operation Unit
  | exec (id : String) (command : List String) (attach : Bool) : Operation ExecOutput
  | inspect (id : String) : Operation ContainerDetails
  | wait (id : String) (condition : WaitCondition) : Operation Int
  | commit (id : String) (options : CommitOptions) : Operation String
  | upload (id directory : String) (archive : Bytes) : Operation Unit
  | download (id path : String) : Operation (Option Bytes)
  | listImages : Operation (List ImageSummary)
  | pull (reference : String) (platform : Option PlatformSpec) (registryAuth : String) :
      Operation String
  | tag (source target : String) : Operation Unit
  | push (reference registryAuth : String) : Operation String
  | removeImage (reference : String) (force : Bool) : Operation Unit
  | inspectImage (reference : String) : Operation ImageDetails
  | build (dockerfile : Bytes) (imageName : String) (platform : Option PlatformSpec) :
      Operation BuildOutput
  | buildMultiArch (request : MultiArchRequest) : Operation MultiArchOutput
  | copyContent (id content dest : String) : Operation Unit
  | copyFile (host : FileTree) (id : String) (path : List Name) (dest : String) : Operation Unit
  | copyDirectory (host : FileTree) (id : String) (root : List Name) (dest : String) : Operation Unit
  | copyOut (id path : String) : Operation (Option Bytes)
  | startReady (id : String) (probe : Option ReadinessProbe) : Operation Readiness

def Operation.session (m : ContainerManager Session) : {α : Type} → Operation α → Session α
  | _, ping => m.ping
  | _, create config registryAuth => m.create config registryAuth
  | _, start id => m.start id
  | _, stop id signal => m.stop id signal
  | _, remove id => m.remove id
  | _, exec id command attach => m.exec id command attach
  | _, inspect id => m.inspect id
  | _, wait id condition => m.wait id condition
  | _, commit id options => m.commit id options
  | _, upload id directory archive => m.upload id directory archive
  | _, download id path => m.download id path
  | _, listImages => m.listImages
  | _, pull reference platform registryAuth => m.pull reference platform registryAuth
  | _, tag source target => m.tag source target
  | _, push reference registryAuth => m.push reference registryAuth
  | _, removeImage reference force => m.removeImage reference force
  | _, inspectImage reference => m.inspectImage reference
  | _, build dockerfile imageName platform => m.build dockerfile imageName platform
  | _, buildMultiArch request => m.buildMultiArch request
  | _, copyContent id content dest => m.copyContent id content dest
  | _, copyFile host id path dest => m.copyFile host id path dest
  | _, copyDirectory host id root dest => m.copyDirectory host id root dest
  | _, copyOut id path => m.copyOut id path
  | _, startReady id probe => m.startReady Session.waitReady id probe

end ContainerBuild
