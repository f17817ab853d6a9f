import ModelWeaver.Main
import ModelWeaver.Proofs.Snippet.Agreement
import ModelWeaver.Proofs.Generator.FlowDecomposition
import ModelWeaver.Proofs.Generator.SetCalls
import ModelWeaver.Proofs.Generator.SubtourCuts
import ModelWeaver.Proofs.Generator.TwoNodeTours
import ModelWeaver.Proofs.Generator.TourNames
import ModelWeaver.Proofs.Registry.Stems
import ModelWeaver.Proofs.Document.DataPlacement
import ModelWeaver.Proofs.Snippet.DistinctKeys
import ModelWeaver.Proofs.Snippet.Quotation
import ModelWeaver.Proofs.Generator.Polylines
import ModelWeaver.Proofs.Generator.IndexSets
import ModelWeaver.Proofs.Snippet.IntegerArithmetic
import ModelWeaver.Proofs.Model.VariableLists
import ModelWeaver.Proofs.Snippet.DictBuilding
import ModelWeaver.Proofs.Snippet.SequenceCap
import ModelWeaver.Proofs.Snippet.Templates
import ModelWeaver.Proofs.Registry.FailedCalls
import ModelWeaver.Proofs.Engine.EchoComments
import ModelWeaver.Proofs.Snippet.SpanRelocation
import ModelWeaver.Proofs.Model.Renaming
import ModelWeaver.Proofs.Text.Locations
import ModelWeaver.Proofs.Call.Binding
import ModelWeaver.Proofs.Snippet.Sorting
import ModelWeaver.Proofs.Engine.LastTexts
import ModelWeaver.Proofs.Snippet.Numbering
import ModelWeaver.Proofs.Generator.LoadRange
