import ContentSchema.Text.Case
import ContentSchema.Text.Digit
import ContentSchema.Text.Printable
import ContentSchema.Text.Split
import ContentSchema.Dictionary
import ContentSchema.Number.Binary64
import ContentSchema.Number.Shortest
import ContentSchema.Value
import ContentSchema.Value.Equality
import ContentSchema.Value.Literal
import ContentSchema.Json.Writer
import ContentSchema.Json.Reader
import ContentSchema.TypeName
import ContentSchema.Namer
import ContentSchema.Example
import ContentSchema.SortFields
import ContentSchema.Calendar.Date
import ContentSchema.Calendar.IsoWeek
import ContentSchema.Calendar.DateTime
import ContentSchema.Calendar.Format
import ContentSchema.Calendar.Reading
import ContentSchema.Calendar.Rounding
import ContentSchema.Calendar.Rendering
import ContentSchema.Calendar.Relative
import ContentSchema.Calendar.Difference
import ContentSchema.Value.Kind
import ContentSchema.Schema.Resolver
import ContentSchema.Schema.Type
import ContentSchema.Schema.Graph
import ContentSchema.Schema.Printer
import ContentSchema.Registry
import ContentSchema.Store
import ContentSchema.Dependencies
import ContentSchema.Configuration
import ContentSchema.Link.Key
import ContentSchema.Path
import ContentSchema.Link.Address
import ContentSchema.Link.Url
import ContentSchema.Link.MediaType
import ContentSchema.Link.Location
import ContentSchema.Warning
import ContentSchema.Record
import ContentSchema.Link.Target
import ContentSchema.Site
import ContentSchema.Link.Strategy
import ContentSchema.Link.Field
import ContentSchema.OutputFields
import ContentSchema.FilterFields
import ContentSchema.Resolution
import ContentSchema.Build
import ContentSchema.Proofs.DictionaryEntries
import ContentSchema.Proofs.NameSupply
import ContentSchema.Proofs.NameHistory
import ContentSchema.Proofs.FieldPath
import ContentSchema.Proofs.LeafObservations
import ContentSchema.Proofs.FilterCorrespondence
import ContentSchema.Proofs.PlainKeys
import ContentSchema.Proofs.SharedNames
import ContentSchema.Proofs.KeyEquality
import ContentSchema.Proofs.StoreHistory
import ContentSchema.Proofs.LinkFields
import ContentSchema.Proofs.VisitedKeys
import ContentSchema.Proofs.DayNumbers
import ContentSchema.Proofs.UniversalTime
import ContentSchema.Proofs.WeekDates
import ContentSchema.Proofs.DecimalDigits
import ContentSchema.Proofs.StrictMatching
import ContentSchema.Proofs.MappedLists
import ContentSchema.Proofs.IsoLayouts
import ContentSchema.Proofs.WrittenDates
import ContentSchema.Proofs.IsoTexts
import ContentSchema.Proofs.IsoReading
import ContentSchema.Proofs.FormatOrder
import ContentSchema.Proofs.YearlessFormats
import ContentSchema.Proofs.WrittenWeeks
import ContentSchema.Proofs.FormatTokens
import ContentSchema.Proofs.MonthOrder
import ContentSchema.Proofs.WholeMonths
import ContentSchema.Proofs.CalendarEnds
import ContentSchema.Proofs.RelativePhrases
import ContentSchema.Proofs.BinaryRounding
import ContentSchema.Proofs.UnixMilliseconds
import ContentSchema.Proofs.LinkReading
import ContentSchema.Proofs.StoredLinks
import ContentSchema.Proofs.RecordedDependencies
import ContentSchema.Proofs.LinkExamples
import ContentSchema.Proofs.LinkTypes
import ContentSchema.Proofs.LinkPlaces
import ContentSchema.Proofs.FileLinks
import ContentSchema.Proofs.LinkAnswers
import ContentSchema.Proofs.MissingValues
import ContentSchema.Proofs.RegisteredNames
import ContentSchema.Proofs.BuildPass
import ContentSchema.Proofs.TypeRenaming
import ContentSchema.Proofs.Rebuilding
import ContentSchema.Proofs.BuildOrder
import ContentSchema.Proofs.RecordSources
import ContentSchema.Proofs.FieldIsolation
import ContentSchema.Proofs.RegisteredLinks
import ContentSchema.Proofs.TypeObjects
import ContentSchema.Proofs.ObjectHistory
import ContentSchema.Proofs.RepeatedInference
import ContentSchema.Proofs.GeneratedTypes
import ContentSchema.Proofs.EmptyTypes
import ContentSchema.Proofs.GrowingExamples
import ContentSchema.Proofs.ExampleShapes
import ContentSchema.Proofs.NormalExamples
import ContentSchema.Proofs.IgnoredNulls
import ContentSchema.Proofs.FieldNames
import ContentSchema.Proofs.ReservedFields
import ContentSchema.Proofs.BrokenHosts
import ContentSchema.Proofs.TextFields
import ContentSchema.Proofs.FilterKeys
import ContentSchema.Proofs.FirstRequests
import ContentSchema.Proofs.NameRequests
import ContentSchema.Proofs.SortNames
import ContentSchema.Proofs.SeparatedTexts
import ContentSchema.Proofs.SortPaths
import ContentSchema.Proofs.LegalNames
import ContentSchema.Proofs.GeneratedNames
import ContentSchema.Proofs.DepthFirst
import ContentSchema.Proofs.PrintedNames
import ContentSchema.Proofs.SchemaClosure
import ContentSchema.Proofs.NameSearch
import ContentSchema.Proofs.EnumeratedPaths
import ContentSchema.Proofs.RefusedDependencies
import ContentSchema.Proofs.PathSeparators
import ContentSchema.Proofs.ReadObjects
import ContentSchema.Proofs.ConfigurationFiles
import ContentSchema.Proofs.LinkKeyParts
import ContentSchema.Proofs.SelectorWords
