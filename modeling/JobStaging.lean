import JobStaging.Main
import JobStaging.Proofs.Fallible
import JobStaging.Proofs.Mount
import JobStaging.Proofs.OrderedMap
import JobStaging.Proofs.Relocation
import JobStaging.Proofs.Environment.ShellText
import JobStaging.Proofs.Assembly.Stages
import JobStaging.Proofs.Environment.Delivery
import JobStaging.Proofs.Assembly.Admission
import JobStaging.Proofs.Assembly.Running
import JobStaging.Proofs.Assembly.Places
import JobStaging.Proofs.Assembly.EnvFile
import JobStaging.Proofs.Assembly.DefinitionName
import JobStaging.Proofs.Environment.FileRoundTrip
import JobStaging.Proofs.Assembly.Isolation
import JobStaging.Proofs.Assembly.Volumes
import JobStaging.Proofs.Assembly.Removals
import JobStaging.Proofs.Assembly.Visibility
import JobStaging.Proofs.Assembly.Neighbours
import JobStaging.Proofs.Selection.LeastUtilized
import JobStaging.Proofs.Assembly.Measured
import JobStaging.Proofs.Assembly.Frame
import JobStaging.Proofs.Json.Record
import JobStaging.Proofs.Location
import JobStaging.Proofs.Wire.Execution
import JobStaging.Proofs.Wire.Job
import JobStaging.Proofs.Wire.Settings
import JobStaging.Proofs.Wire.Request
import JobStaging.Proofs.Assembly.Reordering
import JobStaging.Proofs.Meaning
import JobStaging.Proofs.Selection.Origin
import JobStaging.Proofs.Assembly.Provenance
import JobStaging.Proofs.Assembly.Collisions
import JobStaging.Proofs.Assembly.TmpDirectory
import JobStaging.Proofs.Storage.Writing
import JobStaging.Proofs.Assembly.Retry
import JobStaging.Proofs.Relocation.Confinement
import JobStaging.Proofs.Assembly.Sources
import JobStaging.Proofs.Location.Classification
import JobStaging.Proofs.Relocation.ListingOrder
import JobStaging.Proofs.Relocation.Shorthand
import JobStaging.Proofs.Relocation.DigestNames
import JobStaging.Proofs.Location.ReadBack
import JobStaging.Proofs.Mount.Ownership
import JobStaging.Proofs.Selection.Course
import JobStaging.Proofs.Selection.Questions
import JobStaging.Proofs.Environment.Threshold
import JobStaging.Proofs.Storage.LocalPath
import JobStaging.Proofs.Storage.Interruption
import JobStaging.Proofs.Storage.Leftovers
import JobStaging.Proofs.Config
import JobStaging.Proofs.Relocation.Destinations
import JobStaging.Proofs.Wire.Roles
import JobStaging.Proofs.Wire.Spelling
import JobStaging.Proofs.Mount.Translation
