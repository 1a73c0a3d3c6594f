import AliasErasure.Main
import AliasErasure.Proofs.Schema.Built
import AliasErasure.Schema.Equality
import AliasErasure.Proofs.Erasure.Synchronize
import AliasErasure.Proofs.Erasure.Agreement
import AliasErasure.Proofs.Erasure.Classification
import AliasErasure.Proofs.Erasure.References
import AliasErasure.Proofs.Erasure.OneLevel
import AliasErasure.Proofs.Erasure.Oneofs
import AliasErasure.Proofs.Erasure.Settled
import AliasErasure.Proofs.Output.Presence
import AliasErasure.Proofs.Erasure.Reread
import AliasErasure.Proofs.Erasure.Recursion
import AliasErasure.Proofs.Erasure.Locations
import AliasErasure.Proofs.Erasure.Orphans
import AliasErasure.Proofs.Erasure.Visibility
import AliasErasure.Proofs.Erasure.Lookups
import AliasErasure.Proofs.Erasure.Features
import AliasErasure.Proofs.Run.Isolation
import AliasErasure.Proofs.Run.Requests
import AliasErasure.Proofs.Erasure.Frame
import AliasErasure.Proofs.Wire.Fits
import AliasErasure.Proofs.Wire.RoundTrip
import AliasErasure.Proofs.Wire.Form
import AliasErasure.Proofs.Descriptor.Codec
import AliasErasure.Proofs.Run.Responses
import AliasErasure.Proofs.Output.Embedding
import AliasErasure.Proofs.Schema.Places
import AliasErasure.Proofs.Erasure.Mismatches
import AliasErasure.Proofs.Schema.Tree
import AliasErasure.Proofs.Erasure.Bare
import AliasErasure.Proofs.Output.Bare
import AliasErasure.Proofs.Erasure.Nesting
import AliasErasure.Proofs.Erasure.WriteBack
import AliasErasure.Proofs.Erasure.LockStep
import AliasErasure.Proofs.Output.Body
import AliasErasure.Proofs.Text.StringLiteral
import AliasErasure.Proofs.Output.Declarations
import AliasErasure.Proofs.Output.Literals
import AliasErasure.Proofs.Output.CommentLines
import AliasErasure.Proofs.Run.Settings
import AliasErasure.Proofs.Output.FileNames
import AliasErasure.Proofs.Output.Directory
import AliasErasure.Proofs.Run.Destinations
import AliasErasure.Proofs.Run.DirectoryMode
