import TypedCollections.Files.Tree
import TypedCollections.Main
import TypedCollections.Record.Instance
import TypedCollections.Service.Client
import TypedCollections.Proofs.Json.Grammar
import TypedCollections.Proofs.Schema.Detection
import TypedCollections.Proofs.Json.Members
import TypedCollections.Proofs.Model.Loading
import TypedCollections.Proofs.Model.MemberNames
import TypedCollections.Proofs.Record.Casts
import TypedCollections.Proofs.Record.Normalization
import TypedCollections.Proofs.Service.Paging
import TypedCollections.Proofs.Json.Unambiguity
import TypedCollections.Proofs.Record.Overwriting
import TypedCollections.Proofs.Record.Timestamps
import TypedCollections.Proofs.Service.Ending
import TypedCollections.Proofs.Json.Skipping
import TypedCollections.Proofs.Json.Reading
import TypedCollections.Proofs.Schema.Declarations
import TypedCollections.Proofs.Schema.Agreement
import TypedCollections.Proofs.Model.Files
import TypedCollections.Proofs.Schema.Acceptance
import TypedCollections.Proofs.Record.Restoring
import TypedCollections.Proofs.Model.Compilable
import TypedCollections.Proofs.Generation.Writing
import TypedCollections.Proofs.Service.Address
import TypedCollections.Proofs.Json.Complete.Tokens
import TypedCollections.Proofs.Json.Complete.Skipping
import TypedCollections.Proofs.Json.Complete.Reading
import TypedCollections.Proofs.Json.Complete.Shapes
import TypedCollections.Proofs.Json.Edits
import TypedCollections.Proofs.Schema.Editing
import TypedCollections.Proofs.Model.IdMember
import TypedCollections.Proofs.Record.Identity
import TypedCollections.Proofs.Service.Decoding
import TypedCollections.Proofs.Model.Scope
import TypedCollections.Proofs.Model.PublicNames
import TypedCollections.Proofs.Record.Lists
import TypedCollections.Proofs.Record.Numbers
import TypedCollections.Proofs.Timestamp.Layouts
import TypedCollections.Proofs.Model.Literals
import TypedCollections.Proofs.Schema.Continuation
import TypedCollections.Proofs.Generation.DryRun
