import SweepPlot.Aggregation
import SweepPlot.Bytes
import SweepPlot.CommandLine.Flags
import SweepPlot.CommandLine.Tool
import SweepPlot.Disk
import SweepPlot.Distinct
import SweepPlot.Document
import SweepPlot.Drawing.Axis
import SweepPlot.Drawing.Chart
import SweepPlot.Drawing.Dash
import SweepPlot.Drawing.Inspection
import SweepPlot.Drawing.Outline
import SweepPlot.Drawing.Scene
import SweepPlot.Drawing.Svg
import SweepPlot.Failure
import SweepPlot.Figure.Basic
import SweepPlot.Figure.Render
import SweepPlot.Figure.Summary
import SweepPlot.FileChoice
import SweepPlot.Files.Change
import SweepPlot.Files.Listing
import SweepPlot.Files.Path
import SweepPlot.Files.Resolve
import SweepPlot.Files.Tree
import SweepPlot.Filter
import SweepPlot.Json.Reader
import SweepPlot.Json.Writer
import SweepPlot.Layout
import SweepPlot.Main
import SweepPlot.Merge
import SweepPlot.Number.Exact
import SweepPlot.Number.Printed
import SweepPlot.Number.Reading
import SweepPlot.Proofs.Aggregation.Coarsening
import SweepPlot.Proofs.Aggregation.Peak
import SweepPlot.Proofs.Aggregation.Reference
import SweepPlot.Proofs.Aggregation.Regrouping
import SweepPlot.Proofs.Aggregation.Selection
import SweepPlot.Proofs.CommandLine.Override
import SweepPlot.Proofs.Drawing.Axis
import SweepPlot.Proofs.Drawing.Cells
import SweepPlot.Proofs.Drawing.Cuts
import SweepPlot.Proofs.Drawing.Dash
import SweepPlot.Proofs.Figure.Assembly
import SweepPlot.Proofs.Figure.Bars
import SweepPlot.Proofs.Figure.Independence
import SweepPlot.Proofs.Figure.Labels
import SweepPlot.Proofs.Figure.Legend
import SweepPlot.Proofs.Figure.Lines
import SweepPlot.Proofs.Figure.Ranges
import SweepPlot.Proofs.Figure.Ranking
import SweepPlot.Proofs.Figure.Refusal
import SweepPlot.Proofs.Figure.Render
import SweepPlot.Proofs.Figure.Series
import SweepPlot.Proofs.Figure.Sweep
import SweepPlot.Proofs.Files.Again
import SweepPlot.Proofs.Files.Change
import SweepPlot.Proofs.Files.Grown
import SweepPlot.Proofs.Files.Listing
import SweepPlot.Proofs.Files.Path
import SweepPlot.Proofs.Files.Replace
import SweepPlot.Proofs.Files.Shape
import SweepPlot.Proofs.Files.Trail
import SweepPlot.Proofs.Files.Tree
import SweepPlot.Proofs.Files.Upwards
import SweepPlot.Proofs.Json.RoundTrip
import SweepPlot.Proofs.Keyed
import SweepPlot.Proofs.Layout
import SweepPlot.Proofs.Merge.Again
import SweepPlot.Proofs.Merge.Collecting
import SweepPlot.Proofs.Merge.Collection
import SweepPlot.Proofs.Merge.Discovery
import SweepPlot.Proofs.Merge.ErrorModes
import SweepPlot.Proofs.Merge.Failing
import SweepPlot.Proofs.Merge.Tags
import SweepPlot.Proofs.Merge.Variants
import SweepPlot.Proofs.Number.Digits
import SweepPlot.Proofs.Number.Nearest
import SweepPlot.Proofs.Number.Order
import SweepPlot.Proofs.Number.RoundTrip
import SweepPlot.Proofs.Number.Shortest
import SweepPlot.Proofs.Outcome
import SweepPlot.Proofs.Request.Reading
import SweepPlot.Proofs.Request.RoundTrip
import SweepPlot.Proofs.Run.Again
import SweepPlot.Proofs.Run.Answer
import SweepPlot.Proofs.Run.Bars
import SweepPlot.Proofs.Run.Clear
import SweepPlot.Proofs.Run.Effects
import SweepPlot.Proofs.Run.FlatOrder
import SweepPlot.Proofs.Run.Reload
import SweepPlot.Proofs.Run.Sides
import SweepPlot.Proofs.Sorting
import SweepPlot.Proofs.Style.Appearance
import SweepPlot.Proofs.Style.Assignment
import SweepPlot.Proofs.Style.Numbering
import SweepPlot.Proofs.Style.Removal
import SweepPlot.Proofs.Summary.Reading
import SweepPlot.Proofs.Summary.Table
import SweepPlot.Proofs.Table.Columns
import SweepPlot.Proofs.Table.Lines
import SweepPlot.Proofs.Table.Loaded
import SweepPlot.Proofs.Table.Records
import SweepPlot.Proofs.Table.Sheet
import SweepPlot.Proofs.Table.Text
import SweepPlot.Proofs.Table.Written
import SweepPlot.Proofs.Toml.RoundTrip
import SweepPlot.Proofs.Toml.Strings
import SweepPlot.Record
import SweepPlot.Request.Basic
import SweepPlot.Request.Document
import SweepPlot.Request.File
import SweepPlot.Request.Validation
import SweepPlot.ResultFile
import SweepPlot.Run
import SweepPlot.Schema
import SweepPlot.Style.Names
import SweepPlot.Style.Palette
import SweepPlot.Style.Registry
import SweepPlot.SummaryTable
import SweepPlot.Table.Scanner
import SweepPlot.Table.Utf8
import SweepPlot.Table.Written
import SweepPlot.Text
import SweepPlot.Toml.Lexical
import SweepPlot.Toml.Reader
import SweepPlot.Toml.Tree
import SweepPlot.Toml.Writer
import SweepPlot.Vocabulary
