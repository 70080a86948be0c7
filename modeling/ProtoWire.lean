import ProtoWire.Wire.WireType
import ProtoWire.Wire.Error
import ProtoWire.Wire.Varint
import ProtoWire.Wire.Zigzag
import ProtoWire.Wire.LittleEndian
import ProtoWire.Wire.Cursor
import ProtoWire.Wire.Key
import ProtoWire.Wire.Emission
import ProtoWire.Text.CodePointRanges
import ProtoWire.Text.Blank
import ProtoWire.Text.Digit
import ProtoWire.Text.WordCharacter
import ProtoWire.Text.Printable
import ProtoWire.Text.Hex
import ProtoWire.Text.Quoted
import ProtoWire.Text.Escaped
import ProtoWire.Text.Json
import ProtoWire.Text.JsonSkip
import ProtoWire.Number.WordRange
import ProtoWire.Number.FloatFormat
import ProtoWire.Number.Shortest
import ProtoWire.Number.FloatText
import ProtoWire.Scalar
import ProtoWire.FieldMap
import ProtoWire.Value.Basic
import ProtoWire.Value.Text
import ProtoWire.Codec.Scalar
import ProtoWire.Framing
import ProtoWire.Schema.Basic
import ProtoWire.Schema.Indexed
import ProtoWire.Schema.Description
import ProtoWire.Codec.Decode
import ProtoWire.Codec.Encode
import ProtoWire.Proto.Token
import ProtoWire.Proto.Lexeme
import ProtoWire.Proto.Error
import ProtoWire.Proto.Lexer
import ProtoWire.Proto.TokenClass
import ProtoWire.Proto.Declaration
import ProtoWire.Proto.TokenStream
import ProtoWire.Proto.Grammar
import ProtoWire.Proto.Legality
import ProtoWire.Proto.Scope
import ProtoWire.Proto.Lowering
import ProtoWire.Proto.Compilation
import ProtoWire.Proto.Indexed
import ProtoWire.Proto.Options
import ProtoWire.Directory
import ProtoWire.CommandLine
import ProtoWire.Main
import ProtoWire.Proofs.Outcome
import ProtoWire.Proofs.Keys
import ProtoWire.Proofs.Places
import ProtoWire.Proofs.Framing
import ProtoWire.Proofs.FieldMap
import ProtoWire.Proofs.Text.Quoted
import ProtoWire.Proofs.Wire.Emission
import ProtoWire.Proofs.Wire.Reading
import ProtoWire.Proofs.Wire.Following
import ProtoWire.Proofs.Wire.Composition
import ProtoWire.Proofs.Wire.Locality
import ProtoWire.Proofs.Wire.Motion
import ProtoWire.Proofs.Wire.Charging
import ProtoWire.Proofs.Wire.Cutting
import ProtoWire.Proofs.Wire.Refusing
import ProtoWire.Proofs.Value.Nesting
import ProtoWire.Proofs.Value.Parts
import ProtoWire.Proofs.Value.Weight
import ProtoWire.Proofs.Schema.Frames
import ProtoWire.Proofs.Schema.Outline
import ProtoWire.Proofs.Schema.WellFormed
import ProtoWire.Proofs.Schema.Naming
import ProtoWire.Proofs.Schema.Lookup
import ProtoWire.Proofs.Schema.Indexed
import ProtoWire.Proofs.Schema.IndexedRules
import ProtoWire.Proofs.Schema.Checking
import ProtoWire.Proofs.Schema.Growth
import ProtoWire.Proofs.Schema.Narrowing
import ProtoWire.Proofs.Codec.Scalar
import ProtoWire.Proofs.Codec.Recursion
import ProtoWire.Proofs.Codec.TwoPass
import ProtoWire.Proofs.Codec.Reading
import ProtoWire.Proofs.Codec.Records
import ProtoWire.Proofs.Codec.Truncation
import ProtoWire.Proofs.Codec.Updates
import ProtoWire.Proofs.Codec.Merging
import ProtoWire.Proofs.Codec.Canonical
import ProtoWire.Proofs.Codec.RoundTrip
import ProtoWire.Proofs.Codec.Interleaving
import ProtoWire.Proofs.Codec.Streams
import ProtoWire.Proofs.Codec.Rules
import ProtoWire.Proofs.Codec.Consumption
import ProtoWire.Proofs.Codec.Prefixes
import ProtoWire.Proofs.Codec.Amplification
import ProtoWire.Proofs.Codec.Admission
import ProtoWire.Proofs.Codec.Completeness
import ProtoWire.Proofs.Codec.Content
import ProtoWire.Proofs.Codec.Reencoding
import ProtoWire.Proofs.Codec.Restriction
import ProtoWire.Proofs.Codec.Depth
import ProtoWire.Proofs.Codec.Evolution
import ProtoWire.Proofs.Proto.Enclosure
import ProtoWire.Proofs.Proto.Lawfulness
import ProtoWire.Proofs.Proto.Legality
import ProtoWire.Proofs.Proto.Lowering
import ProtoWire.Proofs.Proto.Targets
import ProtoWire.Proofs.Proto.Compilation
import ProtoWire.Proofs.Proto.Indexed
import ProtoWire.Proofs.Proto.Changes
import ProtoWire.Proofs.Proto.Image
import ProtoWire.Proofs.Proto.Filling
import ProtoWire.Proofs.Proto.Extensions
import ProtoWire.Proofs.Proto.Faithful
import ProtoWire.Proofs.Proto.Requests
import ProtoWire.Proofs.Proto.Remerging
import ProtoWire.Proofs.Proto.Appending
import ProtoWire.Proofs.Proto.Reordering
import ProtoWire.Proofs.Proto.Permutation
import ProtoWire.Proofs.Proto.Lexing
import ProtoWire.Proofs.Proto.Rendering
import ProtoWire.Proofs.Proto.Guarantee
import ProtoWire.Proofs.Proto.Progress
import ProtoWire.Proofs.Proto.Grammatical
import ProtoWire.Proofs.Proto.Expectation
import ProtoWire.Proofs.Proto.Strings
import ProtoWire.Proofs.Proto.Rereading
import ProtoWire.Proofs.Proto.Reparsing
import ProtoWire.Proofs.Proto.Scoping
import ProtoWire.Proofs.Proto.Shapes
import ProtoWire.Proofs.Proto.Longest
import ProtoWire.Proofs.Proto.Scanning
import ProtoWire.Proofs.Proto.Locality
import ProtoWire.Proofs.Proto.Repetition
import ProtoWire.Proofs.Proto.Layout
import ProtoWire.Proofs.Proto.Ignored
import ProtoWire.Proofs.Proto.Insertion
import ProtoWire.Proofs.Proto.Bodies
import ProtoWire.Proofs.Built
import ProtoWire.Proofs.Proto.Places
import ProtoWire.Proofs.Proto.Termination
import ProtoWire.Proofs.History
import ProtoWire.Proofs.Lengths
import ProtoWire.Proofs.Value.Equality
import ProtoWire.Proofs.Wire.Varint
import ProtoWire.Proofs.Codec.Kinds
import ProtoWire.Proofs.Proto.Literals
import ProtoWire.Proofs.Codec.Weakening
import ProtoWire.Proofs.Commands
