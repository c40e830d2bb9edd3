import ActionUnits.Action.Definition
import ActionUnits.Action.Param
import ActionUnits.Action.Set
import ActionUnits.Emit.Config
import ActionUnits.Emit.Emitter
import ActionUnits.Emit.Tokens
import ActionUnits.Error
import ActionUnits.Files.Path
import ActionUnits.Files.Pattern
import ActionUnits.Files.PatternFault
import ActionUnits.Files.Search
import ActionUnits.Files.System
import ActionUnits.Files.Tree
import ActionUnits.Generator
import ActionUnits.Layout.Doc
import ActionUnits.Layout.Measure
import ActionUnits.Layout.Write
import ActionUnits.Load
import ActionUnits.Log
import ActionUnits.Logged
import ActionUnits.Module.Definition
import ActionUnits.Named
import ActionUnits.Print.Attribute
import ActionUnits.Print.Basic
import ActionUnits.Print.Expr
import ActionUnits.Print.File
import ActionUnits.Print.Item
import ActionUnits.Print.Macro
import ActionUnits.Print.Path
import ActionUnits.Print.Shape
import ActionUnits.Print.Type
import ActionUnits.Project
import ActionUnits.Proofs.Files.Containment
import ActionUnits.Proofs.Generation
import ActionUnits.Proofs.Registry
import ActionUnits.Proofs.Source.Lead
import ActionUnits.Proofs.Source.Replay
import ActionUnits.Proofs.Source.Replay.Follow
import ActionUnits.Proofs.Source.Replay.Loops
import ActionUnits.Proofs.Source.Replay.Tokens
import ActionUnits.Proofs.Source.Run
import ActionUnits.Proofs.Synthesis
import ActionUnits.Proofs.Text.Quoted
import ActionUnits.Proofs.Text.Split
import ActionUnits.Record.Data
import ActionUnits.Record.Decode
import ActionUnits.Record.Format
import ActionUnits.Record.Json
import ActionUnits.Record.Read
import ActionUnits.Record.Toml.Document
import ActionUnits.Record.Toml.Scalar
import ActionUnits.Record.Toml.Table
import ActionUnits.Record.Toml.Text
import ActionUnits.Source.Fragment
import ActionUnits.Source.Grammar.Attribute
import ActionUnits.Source.Grammar.Basic
import ActionUnits.Source.Grammar.Expr
import ActionUnits.Source.Grammar.Generics
import ActionUnits.Source.Grammar.Item
import ActionUnits.Source.Grammar.Path
import ActionUnits.Source.Grammar.Pattern
import ActionUnits.Source.Grammar.Stmt
import ActionUnits.Source.Grammar.Type
import ActionUnits.Source.Grammar.Use
import ActionUnits.Source.Node
import ActionUnits.Source.Parser
import ActionUnits.Text.Blank
import ActionUnits.Text.Casing
import ActionUnits.Text.CodeTable
import ActionUnits.Text.Identifier
import ActionUnits.Text.Quoted
import ActionUnits.Text.Snake
import ActionUnits.Text.Table.Cased
import ActionUnits.Text.Table.Casing
import ActionUnits.Text.Table.Identifier
import ActionUnits.Text.Table.Visibility
import ActionUnits.Text.Visible
import ActionUnits.Token.Basic
import ActionUnits.Token.Lexer
import ActionUnits.Unit.Alias
import ActionUnits.Unit.Basic
import ActionUnits.Unit.Class
import ActionUnits.Unit.Package
import ActionUnits.Unit.Registry
import ActionUnits.Unit.Synthesis
import ActionUnits.Writer
import ActionUnits.Proofs.Source.Replay.Knot
import ActionUnits.Proofs.Source.Replay.Attribute
import ActionUnits.Proofs.Source.Replay.Path
import ActionUnits.Proofs.Source.Replay.TypePath
import ActionUnits.Proofs.Source.Replay.Bound
import ActionUnits.Proofs.Distinct
import ActionUnits.Proofs.FirstFailure
import ActionUnits.Proofs.Load
import ActionUnits.Proofs.Names
import ActionUnits.Proofs.Project
import ActionUnits.Proofs.Files.Tree
import ActionUnits.Proofs.Files.Writing
import ActionUnits.Proofs.Files.Destinations
import ActionUnits.Proofs.Text.Word
import ActionUnits.Proofs.Source.Replay.Arguments
import ActionUnits.Proofs.Source.Replay.Generics
import ActionUnits.Proofs.Source.Replay.Type
import ActionUnits.Proofs.Source.Replay.Pattern
import ActionUnits.Proofs.Source.Replay.Operator
import ActionUnits.Proofs.Fragments
import ActionUnits.Proofs.Warnings
import ActionUnits.Proofs.Aliases
import ActionUnits.Proofs.Body
import ActionUnits.Proofs.Merge
import ActionUnits.Proofs.References
import ActionUnits.Proofs.Imports
import ActionUnits.Proofs.Text.Snake
import ActionUnits.Proofs.Text.Trim
import ActionUnits.Proofs.Companion
import ActionUnits.Proofs.Source.Replay.Operand
import ActionUnits.Proofs.Source.Replay.Start
import ActionUnits.Proofs.Source.Replay.Block
import ActionUnits.Proofs.Source.Replay.Trailer
import ActionUnits.Proofs.Source.Replay.Closure
import ActionUnits.Proofs.Source.Replay.Atom
import ActionUnits.Proofs.Source.Replay.Unary
import ActionUnits.Proofs.Source.Replay.Function
import ActionUnits.Proofs.ClassName
import ActionUnits.Proofs.Files.Following
import ActionUnits.Proofs.Files.Listing
import ActionUnits.Proofs.Files.LiteralFolder
import ActionUnits.Proofs.Files.WriteEffect
import ActionUnits.Proofs.Files.PackagePath
import ActionUnits.Proofs.Files.Updating
import ActionUnits.Proofs.Annotations
import ActionUnits.Proofs.Record.Decoding
import ActionUnits.Proofs.Record.Fields
import ActionUnits.Proofs.Record.Json
import ActionUnits.Proofs.Record.Toml.Text
import ActionUnits.Proofs.Record.Toml.Tables
import ActionUnits.Proofs.Record.Toml.Drawing
import ActionUnits.Proofs.Record.Toml.Scalar
import ActionUnits.Proofs.Record.Toml.Document
import ActionUnits.Proofs.Record.Loading
import ActionUnits.Proofs.Duplicates
import ActionUnits.Proofs.AliasPrinting
import ActionUnits.Proofs.Source.Replay.Signature
import ActionUnits.Proofs.Source.Replay.Field
import ActionUnits.Proofs.Source.Replay.Member
import ActionUnits.Proofs.Source.Replay.Members
import ActionUnits.Proofs.Source.Replay.Bracketed
import ActionUnits.Proofs.Source.Replay.Implementation
import ActionUnits.Proofs.Source.Replay.Declaration
import ActionUnits.Proofs.Source.Replay.Item
import ActionUnits.Proofs.Source.Replay.Statement
import ActionUnits.Proofs.Source.Replay.Source
import ActionUnits.Proofs.Source.Splice.Grammar
import ActionUnits.Proofs.Source.Splice.Reads
import ActionUnits.Proofs.Source.Splice.Type
import ActionUnits.Proofs.Source.Splice.Block
import ActionUnits.Proofs.Source.Splice.Entries
import ActionUnits.Proofs.Source.Splice.Item
import ActionUnits.Proofs.Source.Splice.Method
import ActionUnits.Proofs.Source.Splice.Class
import ActionUnits.Proofs.Source.Splice.Unit
import ActionUnits.Proofs.UnitTree
