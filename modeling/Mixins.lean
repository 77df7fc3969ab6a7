import Mixins.Archive
import Mixins.Archive.Stored
import Mixins.Command
import Mixins.Command.Arguments
import Mixins.Command.Execution
import Mixins.Descriptor
import Mixins.Discovery
import Mixins.Failure
import Mixins.FileSystem
import Mixins.FileTree
import Mixins.FileTree.Change
import Mixins.FileTree.Listing
import Mixins.FileTree.Lookup
import Mixins.Hex
import Mixins.Instant
import Mixins.Json
import Mixins.Json.Parser
import Mixins.Json.Printer
import Mixins.Json.Reader
import Mixins.Json.TypeForm
import Mixins.Layout
import Mixins.Main
import Mixins.Mapping
import Mixins.Marker
import Mixins.Marker.Table
import Mixins.Member
import Mixins.Merge
import Mixins.Merge.Target
import Mixins.Module
import Mixins.Name
import Mixins.OutputRoot
import Mixins.Path
import Mixins.Pool
import Mixins.Proofs.Archive.Additions
import Mixins.Proofs.Classpath.Questions
import Mixins.Proofs.Command.Inspect
import Mixins.Proofs.DeclaredName
import Mixins.Proofs.Descendant
import Mixins.Proofs.Descriptor.Dependencies
import Mixins.Proofs.Descriptor.Element
import Mixins.Proofs.Discovery
import Mixins.Proofs.Discovery.Groups
import Mixins.Proofs.Discovery.Packages
import Mixins.Proofs.FileSystem.Linked
import Mixins.Proofs.FileTree.Changed
import Mixins.Proofs.FileTree.Replace
import Mixins.Proofs.Json.TypeForm
import Mixins.Proofs.Layout
import Mixins.Proofs.Layout.EntryName
import Mixins.Proofs.Marker.Definitions
import Mixins.Proofs.Marker.Property
import Mixins.Proofs.Merge.Complete
import Mixins.Proofs.Merge.Counters
import Mixins.Proofs.Merge.Dangling
import Mixins.Proofs.Merge.Described
import Mixins.Proofs.Merge.Encodable
import Mixins.Proofs.Merge.Exhausted
import Mixins.Proofs.Merge.Extension
import Mixins.Proofs.Merge.FailedTarget
import Mixins.Proofs.Merge.FirstApplied
import Mixins.Proofs.Merge.Guarded
import Mixins.Proofs.Merge.Independent
import Mixins.Proofs.Merge.OwnFile
import Mixins.Proofs.Merge.Saved
import Mixins.Proofs.Merge.Slots
import Mixins.Proofs.Module
import Mixins.Proofs.Module.Addressed
import Mixins.Proofs.Module.Named
import Mixins.Proofs.NestedName
import Mixins.Proofs.OutermostName
import Mixins.Proofs.OutputRoot
import Mixins.Proofs.OutputRoot.Ahead
import Mixins.Proofs.OutputRoot.Intact
import Mixins.Proofs.Path.Sibling
import Mixins.Proofs.Pool.Classpath
import Mixins.Proofs.Pool.Place
import Mixins.Proofs.Rebind
import Mixins.Proofs.Rebind.Undone
import Mixins.Proofs.Rename.Composed
import Mixins.Proofs.Run.Confined
import Mixins.Proofs.Run.Steps
import Mixins.Proofs.Run.TargetPhase
import Mixins.Proofs.Run.Updates
import Mixins.Proofs.Signature
import Mixins.Proofs.Text.Lossy
import Mixins.Proofs.Text.Occurrence
import Mixins.Proofs.Tree
import Mixins.Proofs.Variant.Order
import Mixins.Proofs.Variant.Output
import Mixins.Proofs.Variant.Union
import Mixins.Proofs.WellFormed
import Mixins.Proofs.WellNamed
import Mixins.Proofs.Wire.Boundary
import Mixins.Proofs.Wire.Bounded
import Mixins.Proofs.Wire.Canonical
import Mixins.Proofs.Wire.Exact
import Mixins.Proofs.Wire.Extent
import Mixins.Proofs.Wire.RoundTrip
import Mixins.Proofs.Wire.TypeFile
import Mixins.Rebind
import Mixins.Report
import Mixins.Run
import Mixins.Settings
import Mixins.Sha256
import Mixins.Text.Cut
import Mixins.Text.Quoted
import Mixins.Text.Utf8
import Mixins.TypeDef
import Mixins.TypeDef.Edit
import Mixins.Variant
import Mixins.Wire
import Mixins.Wire.TypeFile
