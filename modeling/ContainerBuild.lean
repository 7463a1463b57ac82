import ContainerBuild.Archive.Walk
import ContainerBuild.Container.Codec
import ContainerBuild.Main
import ContainerBuild.Scheduler
import ContainerBuild.Surroundings.Script
import ContainerBuild.Tar.Listing
import ContainerBuild.Proofs.Output.Framing
import ContainerBuild.Proofs.Output.Interleaving
import ContainerBuild.Proofs.Output.Chunking
import ContainerBuild.Proofs.Scheduler.Moves
import ContainerBuild.Proofs.Scheduler.Ledger
import ContainerBuild.Proofs.Scheduler.Verdict
import ContainerBuild.Proofs.Scheduler.History
import ContainerBuild.Proofs.Plan
import ContainerBuild.Proofs.Sessions
import ContainerBuild.Proofs.Manager.CopyOut
import ContainerBuild.Proofs.Manager.CopyIn
import ContainerBuild.Proofs.MultiArch.ManifestCalls
import ContainerBuild.Proofs.MultiArch.TemporaryNames
import ContainerBuild.Proofs.MultiArch.NativeCalls
import ContainerBuild.Proofs.Bytes.Characters
import ContainerBuild.Proofs.FilePath.Steps
import ContainerBuild.Proofs.FilePath.Beginnings
import ContainerBuild.Proofs.FilePath.Texts
import ContainerBuild.Proofs.FileTree.Following
import ContainerBuild.Proofs.FileTree.Changing
import ContainerBuild.Proofs.FileTree.Enumeration
import ContainerBuild.Proofs.FileTree.DepthFirst
import ContainerBuild.Proofs.Tar.Numbers
import ContainerBuild.Proofs.Tar.Blocks
import ContainerBuild.Proofs.Tar.Fields
import ContainerBuild.Proofs.Tar.Reading
import ContainerBuild.Proofs.Tar.Plain
import ContainerBuild.Proofs.Tar.Beginnings
import ContainerBuild.Proofs.Tar.Cut
import ContainerBuild.Proofs.Archive.Running
import ContainerBuild.Proofs.Archive.Confinement
import ContainerBuild.Proofs.Archive.Placing
import ContainerBuild.Proofs.Archive.Unpacking
import ContainerBuild.Proofs.Archive.RoundTrip
import ContainerBuild.Proofs.Archive.BuildContext
import ContainerBuild.Proofs.Archive.FirstFile
import ContainerBuild.Proofs.Archive.Parents
import ContainerBuild.Proofs.Archive.SingleFile
import ContainerBuild.Proofs.Container.EnvironmentForms
import ContainerBuild.Proofs.Container.MountOptions
import ContainerBuild.Proofs.Container.MountSettings
import ContainerBuild.Proofs.Container.Requests
import ContainerBuild.Proofs.Container.Ports
import ContainerBuild.Proofs.Base64.Reading
import ContainerBuild.Proofs.Json.Scalars
import ContainerBuild.Proofs.Json.ReadingBack
import ContainerBuild.Proofs.Json.Records
import ContainerBuild.Proofs.Credentials.Blobs
import ContainerBuild.Proofs.ImageReference.Grammar
import ContainerBuild.Proofs.Text.Folding
import ContainerBuild.Proofs.Text.Numbers
import ContainerBuild.Proofs.Text.Trimming
import ContainerBuild.Proofs.Platform.Spelling
import ContainerBuild.Proofs.Platform.BuildTargets
import ContainerBuild.Proofs.Platform.ReadingBack
import ContainerBuild.Proofs.Output.Reading
import ContainerBuild.Proofs.Http.Percent
import ContainerBuild.Proofs.Ways
import ContainerBuild.Proofs.Sessions.Calls
import ContainerBuild.Proofs.Manager.Operations
import ContainerBuild.Proofs.Platform.Parts
import ContainerBuild.Proofs.Podman.Endpoints
import ContainerBuild.Proofs.Podman.Steps
import ContainerBuild.Proofs.Podman.Operations
import ContainerBuild.Proofs.Podman.Replies
import ContainerBuild.Proofs.Podman.Targets
import ContainerBuild.Proofs.Podman.AttachedOutput
import ContainerBuild.Proofs.Manager.Creation
import ContainerBuild.Proofs.Container.Destination
import ContainerBuild.Proofs.Archive.Overwriting
import ContainerBuild.Proofs.Archive.Escaping
import ContainerBuild.Proofs.Archive.Walking
import ContainerBuild.Proofs.ImageReference.ReadingBack
import ContainerBuild.Proofs.Http.Target
import ContainerBuild.Proofs.MultiArch.BlankNames
import ContainerBuild.Proofs.Docker.NamedImages
import ContainerBuild.Proofs.Json.Grammar
import ContainerBuild.Proofs.Json.ScalarRecognition
import ContainerBuild.Proofs.Json.Recognition
import ContainerBuild.Proofs.Json.Filling
import ContainerBuild.Proofs.Podman.ProgressStream
import ContainerBuild.Proofs.Sessions.Questions
import ContainerBuild.Proofs.Scheduler.Images
import ContainerBuild.Proofs.Podman.Documents
import ContainerBuild.Proofs.Podman.ManifestPush
import ContainerBuild.Proofs.Podman.Versions
import ContainerBuild.Proofs.Podman.Discovery
import ContainerBuild.Proofs.Podman.Connecting
import ContainerBuild.Proofs.Credentials.Backends
import ContainerBuild.Proofs.Json.WrittenFields
import ContainerBuild.Proofs.Container.Records
import ContainerBuild.Proofs.Probe.Attempts
import ContainerBuild.Proofs.Probe.Deadline
import ContainerBuild.Proofs.CommandLine.Flags
import ContainerBuild.Proofs.EngineConfig.Files
import ContainerBuild.Proofs.EngineConfig.Sources
import ContainerBuild.Proofs.Bytes.Cuts
import ContainerBuild.Proofs.Container.Sizes
import ContainerBuild.Proofs.CommandLine.ImageTable
import ContainerBuild.Proofs.CommandLine.Images
