import ModelScribe.Main
import ModelScribe.Proofs.Joining
import ModelScribe.Proofs.Inline
import ModelScribe.Proofs.Generation
import ModelScribe.Proofs.WhiteSpace
import ModelScribe.Proofs.Lines
import ModelScribe.Proofs.ScriptPieces
import ModelScribe.Proofs.ClassText
import ModelScribe.Proofs.ScriptReader
import ModelScribe.Proofs.ScriptMembers
import ModelScribe.Proofs.ScriptClasses
import ModelScribe.Proofs.ProgramText
import ModelScribe.Proofs.ScriptProgram
import ModelScribe.Proofs.Objects
import ModelScribe.Proofs.Rosters
import ModelScribe.Proofs.Brackets
import ModelScribe.Proofs.Balance
import ModelScribe.Proofs.Characters
import ModelScribe.Proofs.Depth
import ModelScribe.Proofs.Indentation
import ModelScribe.Proofs.JsonReading
import ModelScribe.Proofs.ReadingBack
import ModelScribe.Proofs.Preamble
import ModelScribe.Proofs.Verbatim
import ModelScribe.Proofs.Pruning
import ModelScribe.Proofs.Headers
import ModelScribe.Proofs.TomlText
import ModelScribe.Proofs.Surplus
import ModelScribe.Proofs.TomlReading
import ModelScribe.Proofs.TwoFormats
import ModelScribe.Proofs.FileTree
import ModelScribe.Proofs.Runs
import ModelScribe.Proofs.Builders
import ModelScribe.Proofs.JsonLexemes
import ModelScribe.Proofs.JsonSyntax
import ModelScribe.Proofs.JsonSense
import ModelScribe.Proofs.JsonAccepted
import ModelScribe.Proofs.JsonPlaces
import ModelScribe.Proofs.Members
import ModelScribe.Proofs.Positions
import ModelScribe.Proofs.Failing
import ModelScribe.Proofs.Settings
import ModelScribe.Proofs.Signatures
import ModelScribe.Proofs.Nameless
import ModelScribe.Proofs.Sections
import ModelScribe.Proofs.Accessors
import ModelScribe.Proofs.Separators
import ModelScribe.Proofs.Separation
import ModelScribe.Proofs.EnumText
import ModelScribe.Proofs.Listings
import ModelScribe.Proofs.Loading
import ModelScribe.Proofs.ScalarPlaces
import ModelScribe.Proofs.Scalars
import ModelScribe.Proofs.Reports
import ModelScribe.Proofs.Flattening
