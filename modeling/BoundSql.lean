import BoundSql.Draft.Session
import BoundSql.Value.Json
import BoundSql.Proofs.ValueIndependence
import BoundSql.Proofs.Placeholders
import BoundSql.Proofs.Unambiguity
import BoundSql.Proofs.EditOrder
import BoundSql.Proofs.BoundColumns
import BoundSql.Proofs.Recorded
import BoundSql.Proofs.Enclosure
import BoundSql.Proofs.Layouts
import BoundSql.Proofs.RoundTrip
import BoundSql.Proofs.Logging
import BoundSql.Proofs.QuestionMarks
import BoundSql.Proofs.OrderedRows
import BoundSql.Proofs.KeptConditions
import BoundSql.Proofs.QuotedText
import BoundSql.Proofs.NearestEven
import BoundSql.Proofs.BareLiterals
import BoundSql.Proofs.EqualStatements
import BoundSql.Proofs.NumberValues
import BoundSql.Proofs.Truncation
import BoundSql.Proofs.Readers
import BoundSql.Proofs.ScalarReaders
import BoundSql.Proofs.ListDecoding
import BoundSql.Proofs.DirectionWords
