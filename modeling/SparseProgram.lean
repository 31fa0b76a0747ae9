import SparseProgram.LpText.Writer
import SparseProgram.Model.Agreement
import SparseProgram.Model.Embedding
import SparseProgram.Model.Encoding
import SparseProgram.Model.Shape
import SparseProgram.Semantics.Assignment
import SparseProgram.Session.Run
import SparseProgram.Semantics.Exactness
import SparseProgram.Proofs.Buckets
import SparseProgram.Proofs.RowStore.Slices
import SparseProgram.Proofs.RowStore.Rows
import SparseProgram.Proofs.Model.WellFormed
import SparseProgram.Proofs.Number.ExactValue
import SparseProgram.Proofs.Attempts
import SparseProgram.Proofs.Duality.Transpose
import SparseProgram.Proofs.Duality.Gap
import SparseProgram.Proofs.Model.Normalization
import SparseProgram.Proofs.Duality.Weak
import SparseProgram.Proofs.Duality.Double
import SparseProgram.Proofs.Snapshot.Registry
import SparseProgram.Proofs.Snapshot.Tally
import SparseProgram.Proofs.Snapshot.Compile
import SparseProgram.Proofs.Snapshot.Meaning
import SparseProgram.Proofs.Snapshot.Preference
import SparseProgram.LpText.Recording
import SparseProgram.Proofs.LpText.Writer
import SparseProgram.Proofs.Model.Canonical
import SparseProgram.Proofs.Duality.Canonical
import SparseProgram.Proofs.Snapshot.Canonical
import SparseProgram.Proofs.Session.Run
import SparseProgram.Proofs.LpText.Lines
import SparseProgram.Proofs.LpText.Words
import SparseProgram.Proofs.Number.Text
import SparseProgram.Proofs.LpText.Reading
import SparseProgram.Proofs.LpText.Faithful
import SparseProgram.Snapshot.Failure
import SparseProgram.Proofs.Snapshot.Failure
import SparseProgram.Proofs.Embedding.Models
import SparseProgram.Proofs.Embedding.Compile
import SparseProgram.Proofs.Embedding.Text
import SparseProgram.Files.Shape
import SparseProgram.Proofs.Files.Tree
import SparseProgram.Proofs.Files.Path
import SparseProgram.Proofs.Files.Walk
import SparseProgram.Proofs.Files.Place
import SparseProgram.Proofs.Files.Export
import SparseProgram.Proofs.Json.Text
import SparseProgram.Proofs.Json.Number
import SparseProgram.Proofs.Json.Value
import SparseProgram.Proofs.Json.Codec
import SparseProgram.Model.Readable
import SparseProgram.Proofs.Json.Model
import SparseProgram.Proofs.Duality.Slackness
import SparseProgram.Proofs.Snapshot.Transformation
import SparseProgram.Proofs.Snapshot.Renaming
import SparseProgram.Proofs.Snapshot.Permutation
import SparseProgram.Proofs.Snapshot.Removal
import SparseProgram.Proofs.Duality.Strong
import SparseProgram.Model.FirstDefect
import SparseProgram.Proofs.Model.FirstDefect
import SparseProgram.Model.Placement
import SparseProgram.Model.DualFailure
import SparseProgram.Proofs.Duality.Placement
import SparseProgram.Proofs.Duality.Precondition
import SparseProgram.Proofs.RowStore.Partition
import SparseProgram.Model.MovedBounds
import SparseProgram.Proofs.Variable.DropBounds
import SparseProgram.Proofs.Model.MovedBounds
import SparseProgram.Proofs.Model.Passes
import SparseProgram.Proofs.Number.Negation
import SparseProgram.Model.Reversal
import SparseProgram.Proofs.Duality.Reversal
import SparseProgram.Proofs.RowStore.Pushed
import SparseProgram.LpText.Dangling
import SparseProgram.Proofs.LpText.Dangling
import SparseProgram.Semantics.Solutions
import SparseProgram.Proofs.Model.Relaxation
import SparseProgram.Proofs.Duality.Lossless
import SparseProgram.Proofs.Snapshot.ColumnTable
import SparseProgram.Proofs.Number.Addition
import SparseProgram.Semantics.Restatement
import SparseProgram.Model.Indiscernible
import SparseProgram.Proofs.Snapshot.Restatement
import SparseProgram.Proofs.Model.Agreement
import SparseProgram.Proofs.Duality.Agreement
import SparseProgram.Proofs.Session.Reporting
import SparseProgram.Session.Account
import SparseProgram.Proofs.Session.Account
import SparseProgram.Snapshot.Accumulation
import SparseProgram.Proofs.Snapshot.TermMap
import SparseProgram.Proofs.Snapshot.Accumulation
