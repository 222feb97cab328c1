import ConfigTree.CommandLine.Argument
import ConfigTree.CommandLine.Command
import ConfigTree.CommandLine.FileTree
import ConfigTree.CommandLine.Help
import ConfigTree.CommandLine.Project
import ConfigTree.CommandLine.Report
import ConfigTree.CommandLine.Run
import ConfigTree.Diff.Compact
import ConfigTree.Diff.Script
import ConfigTree.Diff.Unified
import ConfigTree.Glob.Parse
import ConfigTree.Glob.Pattern
import ConfigTree.Glob.Places
import ConfigTree.Json.Number
import ConfigTree.Json.Parse
import ConfigTree.Json.Value
import ConfigTree.Main
import ConfigTree.Mark
import ConfigTree.Marker
import ConfigTree.Maven.Bindings
import ConfigTree.Maven.Pom
import ConfigTree.Maven.Problem
import ConfigTree.Maven.Resolution
import ConfigTree.Maven.Scope
import ConfigTree.Maven.Selector
import ConfigTree.Maven.Version
import ConfigTree.NodeId
import ConfigTree.Path
import ConfigTree.Precondition
import ConfigTree.Proofs.Glob.Language
import ConfigTree.Proofs.Glob.Reading
import ConfigTree.Proofs.Glob.Signs
import ConfigTree.Proofs.Glob.Wildcards
import ConfigTree.Proofs.Growing
import ConfigTree.Proofs.HitsInStep
import ConfigTree.Proofs.Maven.Accounting
import ConfigTree.Proofs.Maven.BroughtIn
import ConfigTree.Proofs.Maven.Expansion
import ConfigTree.Proofs.Maven.Intervals
import ConfigTree.Proofs.Maven.NearestWins
import ConfigTree.Proofs.Maven.Notations
import ConfigTree.Proofs.Maven.NumberedLabels
import ConfigTree.Proofs.Maven.PathSelection
import ConfigTree.Proofs.Maven.Placeholders
import ConfigTree.Proofs.Maven.VersionOrder
import ConfigTree.Proofs.Maven.VersionText
import ConfigTree.Proofs.Properties.Editing
import ConfigTree.Proofs.Properties.Loading
import ConfigTree.Proofs.Properties.LogicalLines
import ConfigTree.Proofs.Properties.Lossless
import ConfigTree.Proofs.Properties.MarkingAgain
import ConfigTree.Proofs.Spring.FrameworkGate
import ConfigTree.Proofs.Spring.KeyPatterns
import ConfigTree.Proofs.Spring.RelaxedKeys
import ConfigTree.Proofs.Spring.RepeatedRuns
import ConfigTree.Proofs.Spring.SearchSession
import ConfigTree.Proofs.Text.Cutting
import ConfigTree.Proofs.Text.Decimals
import ConfigTree.Proofs.Text.Utf8
import ConfigTree.Proofs.Xml.ElementTree
import ConfigTree.Proofs.Yaml.Addresses
import ConfigTree.Proofs.Yaml.Adequacy
import ConfigTree.Proofs.Yaml.Appending
import ConfigTree.Proofs.Yaml.BlockFilling
import ConfigTree.Proofs.Yaml.BlockScalars
import ConfigTree.Proofs.Yaml.ByOffset.Block
import ConfigTree.Proofs.Yaml.ByOffset.Cursors
import ConfigTree.Proofs.Yaml.ByOffset.Flow
import ConfigTree.Proofs.Yaml.ByOffset.Parsing
import ConfigTree.Proofs.Yaml.ByOffset.Scalars
import ConfigTree.Proofs.Yaml.ByOffset.Scanning
import ConfigTree.Proofs.Yaml.DottedPath
import ConfigTree.Proofs.Yaml.EditPlaces
import ConfigTree.Proofs.Yaml.EditedDocuments
import ConfigTree.Proofs.Yaml.Edits
import ConfigTree.Proofs.Yaml.FilledDocuments
import ConfigTree.Proofs.Yaml.FlowFilling
import ConfigTree.Proofs.Yaml.Following
import ConfigTree.Proofs.Yaml.Forms
import ConfigTree.Proofs.Yaml.Forward
import ConfigTree.Proofs.Yaml.GoingOver
import ConfigTree.Proofs.Yaml.Grammar
import ConfigTree.Proofs.Yaml.Identity
import ConfigTree.Proofs.Yaml.Indentation
import ConfigTree.Proofs.Yaml.KeptColumns
import ConfigTree.Proofs.Yaml.LastingViews
import ConfigTree.Proofs.Yaml.Locality
import ConfigTree.Proofs.Yaml.Lookahead
import ConfigTree.Proofs.Yaml.Lossless
import ConfigTree.Proofs.Yaml.Marking
import ConfigTree.Proofs.Yaml.MarkingAgain
import ConfigTree.Proofs.Yaml.OwnLines
import ConfigTree.Proofs.Yaml.Places
import ConfigTree.Proofs.Yaml.Rebuilding
import ConfigTree.Proofs.Yaml.Reparsing
import ConfigTree.Proofs.Yaml.Replacing
import ConfigTree.Proofs.Yaml.Rewriting
import ConfigTree.Proofs.Yaml.ScalarChanges
import ConfigTree.Proofs.Yaml.Scanning
import ConfigTree.Proofs.Yaml.SearchByKey
import ConfigTree.Proofs.Yaml.Segments
import ConfigTree.Proofs.Yaml.Session
import ConfigTree.Proofs.Yaml.SettingAbsent
import ConfigTree.Proofs.Yaml.Shape
import ConfigTree.Proofs.Yaml.Sharing
import ConfigTree.Proofs.Yaml.Slots
import ConfigTree.Proofs.Yaml.Stopping
import ConfigTree.Proofs.Yaml.Substitution
import ConfigTree.Proofs.Yaml.Trivia
import ConfigTree.Proofs.Yaml.Unnumbered
import ConfigTree.Proofs.Yaml.Views
import ConfigTree.Properties.Escape
import ConfigTree.Properties.Parse
import ConfigTree.Properties.Tree
import ConfigTree.PropertySearch
import ConfigTree.Recipe
import ConfigTree.Search
import ConfigTree.Source
import ConfigTree.Spring.KeyMatcher
import ConfigTree.Spring.RecipeSpec
import ConfigTree.Spring.Recipes
import ConfigTree.Spring.SearchSession
import ConfigTree.Text.Basic
import ConfigTree.Text.Blank
import ConfigTree.Text.Lines
import ConfigTree.Text.LowerCase
import ConfigTree.Text.Numeral
import ConfigTree.Text.Offset
import ConfigTree.Text.Quoted
import ConfigTree.Text.Utf8
import ConfigTree.Text.Visible
import ConfigTree.Xml.Event
import ConfigTree.Yaml.ByOffset
import ConfigTree.Yaml.Cursor
import ConfigTree.Yaml.Edit
import ConfigTree.Yaml.Number
import ConfigTree.Yaml.Parse
import ConfigTree.Yaml.Print
import ConfigTree.Yaml.Problem
import ConfigTree.Yaml.Scan
import ConfigTree.Yaml.Substitute
import ConfigTree.Yaml.Tree
import ConfigTree.Yaml.View
import ConfigTree.Yaml.Visit
import ConfigTree.Yaml.Walk
