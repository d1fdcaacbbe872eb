import HeaderRelay.BlockHeader
import HeaderRelay.Bytes.Hex
import HeaderRelay.Bytes.LittleEndian
import HeaderRelay.Compression.Batch
import HeaderRelay.Compression.Bitfield
import HeaderRelay.Compression.Codec
import HeaderRelay.Compression.Context
import HeaderRelay.Compression.Record
import HeaderRelay.Compression.VersionTable
import HeaderRelay.Event
import HeaderRelay.Hash.Basic
import HeaderRelay.Hash.Sha256
import HeaderRelay.HeaderList
import HeaderRelay.Locator
import HeaderRelay.Main
import HeaderRelay.Message
import HeaderRelay.Services
import HeaderRelay.Session
import HeaderRelay.Text.Printable
import HeaderRelay.Text.Quoted
import HeaderRelay.Toml.Document
import HeaderRelay.Toml.Item
import HeaderRelay.Toml.Scalar
import HeaderRelay.Toml.Scanner
import HeaderRelay.Tool.CommandLine
import HeaderRelay.Tool.FileAccess
import HeaderRelay.Tool.FileTree
import HeaderRelay.Tool.Job
import HeaderRelay.Tool.Program
import HeaderRelay.Tool.Settings
import HeaderRelay.Wire.CompactSize
import HeaderRelay.Wire.Encoded
import HeaderRelay.Wire.Error
import HeaderRelay.Wire.Layout
import HeaderRelay.Wire.Reader
import HeaderRelay.Wire.Writer
import HeaderRelay.Proofs.Wire.CompactForms
import HeaderRelay.Proofs.Compression.RecordForm
import HeaderRelay.Proofs.Compression.Refusal
import HeaderRelay.Proofs.Batch.Spelling
import HeaderRelay.Proofs.Batch.Grammar
import HeaderRelay.Proofs.Compression.Lockstep
import HeaderRelay.Proofs.Batch.RoundTrip
import HeaderRelay.Proofs.Compression.Recency
import HeaderRelay.Proofs.Batch.Shortest
import HeaderRelay.Proofs.Compression.Omission
import HeaderRelay.Proofs.Wire.Lists
import HeaderRelay.Proofs.Wire.Output
import HeaderRelay.Proofs.Compression.Emission
import HeaderRelay.Proofs.Compression.Transfers
import HeaderRelay.Proofs.Batch.Canonical
import HeaderRelay.Proofs.Batch.History
import HeaderRelay.Proofs.Session.Calls
import HeaderRelay.Proofs.Message
import HeaderRelay.Proofs.Session.Independence
import HeaderRelay.Proofs.Session.Delivery
import HeaderRelay.Proofs.Batch.Delimiting
import HeaderRelay.Proofs.Message.Delimiting
import HeaderRelay.Proofs.Batch.Policies
import HeaderRelay.Proofs.Batch.Hashers
import HeaderRelay.Proofs.Message.Normalisation
import HeaderRelay.Proofs.Wire.Streams
import HeaderRelay.Proofs.Session.Negotiation
import HeaderRelay.Proofs.Wire.Grammars
import HeaderRelay.Proofs.Session.OtherCommands
import HeaderRelay.Proofs.Bytes.HexText
import HeaderRelay.Proofs.Tool.Content
import HeaderRelay.Proofs.Tool.Jobs
import HeaderRelay.Proofs.Tool.Lines
import HeaderRelay.Proofs.Tool.FileTree
import HeaderRelay.Proofs.Tool.Files
import HeaderRelay.Proofs.Batch.Residue
import HeaderRelay.Proofs.Batch.Selectors
import HeaderRelay.Proofs.Batch.Repetition
import HeaderRelay.Proofs.Batch.ReservedBits
import HeaderRelay.Proofs.Batch.Extent
import HeaderRelay.Proofs.Bytes.HexReader
import HeaderRelay.Proofs.Message.Output
import HeaderRelay.Proofs.Wire.Uncompressed
import HeaderRelay.Proofs.Wire.DeclaredCounts
import HeaderRelay.Proofs.Tool.RawHeaders
import HeaderRelay.Proofs.Batch.Reports
import HeaderRelay.Proofs.Wire.ShortestForms
