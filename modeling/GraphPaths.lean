import GraphPaths.Logger
import GraphPaths.Main
import GraphPaths.Proofs.Operation
import GraphPaths.Proofs.CommandLine.Relisted
import GraphPaths.Proofs.Document.Pointer
import GraphPaths.Proofs.Document.Tags
import GraphPaths.Proofs.Document.Integrity
import GraphPaths.Proofs.Document.Serialized
import GraphPaths.Proofs.Document.Joining
import GraphPaths.Proofs.Document.Reach
import GraphPaths.Proofs.Examples.Faults
import GraphPaths.Proofs.Examples.Spelling
import GraphPaths.Proofs.Export
import GraphPaths.Proofs.Export.Flags
import GraphPaths.Proofs.Listing
import GraphPaths.Proofs.Listing.Acceptance
import GraphPaths.Proofs.Options.Interchange
import GraphPaths.Proofs.Options.Version
import GraphPaths.Proofs.Schema.Count
import GraphPaths.Proofs.Schema.Loading
import GraphPaths.Proofs.SchemaFiles.Joined
import GraphPaths.Proofs.TypeRef
import GraphPaths.Proofs.TypeRef.Mock
import GraphPaths.Workbench
