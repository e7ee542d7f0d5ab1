import MarkupNesting.Main
import MarkupNesting.Proofs.AttributeMaps
import MarkupNesting.Proofs.Decoding
import MarkupNesting.Proofs.DepthStatistics
import MarkupNesting.Proofs.EncodedHeight
import MarkupNesting.Proofs.Findings
import MarkupNesting.Proofs.Html.BodySelection
import MarkupNesting.Proofs.Html.Conversion
import MarkupNesting.Proofs.Html.ElementOrder
import MarkupNesting.Proofs.Html.FirstAttributes
import MarkupNesting.Proofs.Html.LetterCase
import MarkupNesting.Proofs.Html.ListsAndTables
import MarkupNesting.Proofs.Html.LoweredDocument
import MarkupNesting.Proofs.Html.LoweredReading
import MarkupNesting.Proofs.Html.OpenTag
import MarkupNesting.Proofs.Html.OptionalEndTags
import MarkupNesting.Proofs.Html.Reading
import MarkupNesting.Proofs.Html.RoundTrip
import MarkupNesting.Proofs.Html.TableBodies
import MarkupNesting.Proofs.Html.TagNames
import MarkupNesting.Proofs.Html.Written
import MarkupNesting.Proofs.Json.Reading
import MarkupNesting.Proofs.Json.RoundTrip
import MarkupNesting.Proofs.Json.Spelling
import MarkupNesting.Proofs.Json.Tokens
import MarkupNesting.Proofs.Jsx.Conversion
import MarkupNesting.Proofs.Jsx.FirstFault
import MarkupNesting.Proofs.Jsx.ModuleScan
import MarkupNesting.Proofs.Jsx.Reading
import MarkupNesting.Proofs.Jsx.RoundTrip
import MarkupNesting.Proofs.Jsx.Written
import MarkupNesting.Proofs.Limits
import MarkupNesting.Proofs.LowerCase
import MarkupNesting.Proofs.ManyFiles
import MarkupNesting.Proofs.Measures
import MarkupNesting.Proofs.NameOrder
import MarkupNesting.Proofs.Number.Digits
import MarkupNesting.Proofs.Number.Hundredths
import MarkupNesting.Proofs.Number.Rounding
import MarkupNesting.Proofs.Number.TwiceRounded
import MarkupNesting.Proofs.PreorderNames
import MarkupNesting.Proofs.RecordedDepths
import MarkupNesting.Proofs.ReductionEstimate
import MarkupNesting.Proofs.RefusedFiles
import MarkupNesting.Proofs.RepeatedPaths
import MarkupNesting.Proofs.RoundedResults
import MarkupNesting.Proofs.SiblingEncoding
import MarkupNesting.Proofs.Walk
import MarkupNesting.Proofs.WholeTree
import MarkupNesting.Proofs.Worker.QueueOrder
import MarkupNesting.Proofs.Worker.Receivers
import MarkupNesting.Proofs.Worker.Service
import MarkupNesting.Proofs.Worker.Steps
import MarkupNesting.Proofs.Wrappers
import MarkupNesting.Proofs.WrittenNumbers
