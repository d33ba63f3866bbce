import TypedVocabulary.Main
import TypedVocabulary.Proofs.Vocabulary.Hierarchy
import TypedVocabulary.Proofs.Vocabulary.StatementOrder
import TypedVocabulary.Proofs.Vocabulary.TypeNames
import TypedVocabulary.Proofs.Vocabulary.Fields
import TypedVocabulary.Proofs.Vocabulary.Places
import TypedVocabulary.Proofs.Vocabulary.Reported
import TypedVocabulary.Proofs.Vocabulary.Inheritance
import TypedVocabulary.Proofs.Vocabulary.Agreement
import TypedVocabulary.Proofs.Vocabulary.Documentation
import TypedVocabulary.Proofs.Vocabulary.Tables
import TypedVocabulary.Proofs.Vocabulary.Keys
import TypedVocabulary.Proofs.Vocabulary.ReportOrder
import TypedVocabulary.Proofs.Vocabulary.Extendable
import TypedVocabulary.Proofs.Extraction.Steps
import TypedVocabulary.Proofs.Command.Run
import TypedVocabulary.Proofs.Graph.Search
import TypedVocabulary.Proofs.Identifier.Bounds
import TypedVocabulary.Proofs.FieldType
import TypedVocabulary.Proofs.Settings.BaseNames
import TypedVocabulary.Proofs.Output.Banner
import TypedVocabulary.Proofs.Output.Registry
import TypedVocabulary.Proofs.Document.Format
import TypedVocabulary.Proofs.Text.Enclosure
import TypedVocabulary.Proofs.Text.Filling
import TypedVocabulary.Proofs.Text.Placeholders
import TypedVocabulary.Proofs.Text.LiteralValues
