import BillOfMaterials.Archive
import BillOfMaterials.Archive.Bzip2
import BillOfMaterials.Archive.Bzip2.Block
import BillOfMaterials.Archive.Bzip2.Scrambling
import BillOfMaterials.Archive.Checksum
import BillOfMaterials.Archive.Deflate
import BillOfMaterials.Archive.Deflate.Block
import BillOfMaterials.Archive.Deflate.LooseCode
import BillOfMaterials.Archive.Deflate.Scheme
import BillOfMaterials.Archive.EndRecord
import BillOfMaterials.Archive.EntryName
import BillOfMaterials.Archive.ExtraField
import BillOfMaterials.Archive.Format
import BillOfMaterials.Archive.Lzma
import BillOfMaterials.Archive.Lzma.Chunk
import BillOfMaterials.Archive.Lzma.Decoder
import BillOfMaterials.Archive.Lzma.Range
import BillOfMaterials.Archive.Method
import BillOfMaterials.Archive.Number
import BillOfMaterials.Archive.Packed
import BillOfMaterials.Archive.PrefixCode
import BillOfMaterials.Archive.Reader
import BillOfMaterials.Archive.Repetition
import BillOfMaterials.Archive.Unpack
import BillOfMaterials.Archive.Xz
import BillOfMaterials.Archive.Zstandard
import BillOfMaterials.Archive.Zstandard.BackwardBits
import BillOfMaterials.Archive.Zstandard.Digest
import BillOfMaterials.Archive.Zstandard.Frame
import BillOfMaterials.Archive.Zstandard.Literals
import BillOfMaterials.Archive.Zstandard.Room
import BillOfMaterials.Archive.Zstandard.Sequences
import BillOfMaterials.Archive.Zstandard.StateTable
import BillOfMaterials.Archive.Zstandard.SymbolStream
import BillOfMaterials.Archive.Zstandard.WeightCode
import BillOfMaterials.ArtifactIndex
import BillOfMaterials.ArtifactIndex.Survey
import BillOfMaterials.Binary
import BillOfMaterials.Bom.Location
import BillOfMaterials.Bom.Template
import BillOfMaterials.CommandLine.Arguments
import BillOfMaterials.CommandLine.Program
import BillOfMaterials.Completeness
import BillOfMaterials.Coordinate
import BillOfMaterials.Decimal
import BillOfMaterials.Decimal.Double
import BillOfMaterials.Distribution
import BillOfMaterials.DistributionName
import BillOfMaterials.Failure
import BillOfMaterials.FileTree
import BillOfMaterials.FileTree.Change
import BillOfMaterials.FileTree.Lookup
import BillOfMaterials.FileTree.Temporary
import BillOfMaterials.FileTree.Walk
import BillOfMaterials.Generation
import BillOfMaterials.Json
import BillOfMaterials.Json.Reader
import BillOfMaterials.Log
import BillOfMaterials.Main
import BillOfMaterials.Mapping
import BillOfMaterials.NamingRule
import BillOfMaterials.Path
import BillOfMaterials.Proofs.Additions
import BillOfMaterials.Proofs.Changes
import BillOfMaterials.Proofs.Containment
import BillOfMaterials.Proofs.Effects
import BillOfMaterials.Proofs.Encoding
import BillOfMaterials.Proofs.Following
import BillOfMaterials.Proofs.Footprint
import BillOfMaterials.Proofs.Growth
import BillOfMaterials.Proofs.Independence
import BillOfMaterials.Proofs.Listing
import BillOfMaterials.Proofs.Manifests
import BillOfMaterials.Proofs.Mirroring
import BillOfMaterials.Proofs.Names
import BillOfMaterials.Proofs.Origins
import BillOfMaterials.Proofs.Outcomes
import BillOfMaterials.Proofs.Outside
import BillOfMaterials.Proofs.Pieces
import BillOfMaterials.Proofs.Places
import BillOfMaterials.Proofs.ReadBack
import BillOfMaterials.Proofs.Relocation
import BillOfMaterials.Proofs.Report
import BillOfMaterials.Proofs.Rerun
import BillOfMaterials.Proofs.Runs
import BillOfMaterials.Proofs.Sorting
import BillOfMaterials.Proofs.Spellings
import BillOfMaterials.Proofs.Substitution
import BillOfMaterials.Proofs.Survey
import BillOfMaterials.Proofs.Temporary
import BillOfMaterials.Proofs.Walking
import BillOfMaterials.Proofs.Writing
import BillOfMaterials.Selection
import BillOfMaterials.Settings
import BillOfMaterials.Settings.Document
import BillOfMaterials.Settings.Load
import BillOfMaterials.Summary
import BillOfMaterials.Table
import BillOfMaterials.Text.Blank
import BillOfMaterials.Text.Invisible
import BillOfMaterials.Text.Marker
import BillOfMaterials.Text.Quoted
import BillOfMaterials.Text.Terminal
import BillOfMaterials.Text.UpperCase
import BillOfMaterials.Text.Utf8
import BillOfMaterials.TokenClaim
import BillOfMaterials.Toml
import BillOfMaterials.Toml.Document
import BillOfMaterials.Toml.Moment
import BillOfMaterials.Toml.QuotedText
import BillOfMaterials.Toml.Scalar
import BillOfMaterials.Toml.Table
import BillOfMaterials.Version
import BillOfMaterials.Proofs.Ordering
import BillOfMaterials.Proofs.Recording
import BillOfMaterials.Proofs.Roots
import BillOfMaterials.Proofs.Invocations
import BillOfMaterials.Proofs.Rulings
import BillOfMaterials.Proofs.Layout
import BillOfMaterials.Proofs.Fallback
import BillOfMaterials.Proofs.Unpacking
import BillOfMaterials.Proofs.Replacing
import BillOfMaterials.Proofs.ShortNames
import BillOfMaterials.Proofs.DisplayNames
import BillOfMaterials.Proofs.Dependencies
import BillOfMaterials.Proofs.Canonical
import BillOfMaterials.Proofs.Grouping
import BillOfMaterials.Proofs.Destinations
import BillOfMaterials.Proofs.Keys
import BillOfMaterials.Proofs.Overrides
import BillOfMaterials.Proofs.Shortfalls
import BillOfMaterials.Proofs.Traces
import BillOfMaterials.Proofs.Stages
import BillOfMaterials.Proofs.ArgumentOrder
import BillOfMaterials.Proofs.Presence
