import DbSaci.Library.Truth
import DbSaci.Library.Formula
import DbSaci.Sql.Expr
import DbSaci.Translate.Rownum
import DbSaci.Translate.Where
import DbSaci.Library.Transaction
import DbSaci.Backend.Session
import DbSaci.Backend.Statement
import DbSaci.Backend.Ledger
import DbSaci.Backend.Durability
import DbSaci.Backend.Atomicity
import DbSaci.Backend.ClientSavepoint
import DbSaci.Library.Numbering
import DbSaci.Sql.Block
import DbSaci.Sql.Comparison
import DbSaci.Sql.RowBound
import DbSaci.Translate.RowLimit
import DbSaci.Library.Text
import DbSaci.Translate.InsertAll
import DbSaci.Translate.InsertClauses
import DbSaci.Translate.InsertScan
import DbSaci.Translate.InsertLayout
import DbSaci.Translate.MultiTableInsert
import DbSaci.Translate.InsertLowering
import DbSaci.Library.Phrase
import DbSaci.Translate.TopLevel
import DbSaci.Translate.KeywordFree
import DbSaci.Translate.ReplaceIdentifier
import DbSaci.Translate.MergeText
import DbSaci.Sql.Merge
import DbSaci.Sql.MergeDelete
import DbSaci.Translate.PhraseText
import DbSaci.Translate.MergeAliases
import DbSaci.Translate.MergePredicate
import DbSaci.Translate.MergePasses
import DbSaci.Translate.MergePostgres
import DbSaci.Server.Prepared
import DbSaci.Server.CursorIds
import DbSaci.Server.Dispatch
import DbSaci.Server.Answers
import DbSaci.Library.Reader
import DbSaci.Server.RaceBreak
import DbSaci.Server.Cursors
import DbSaci.Server.CursorStream
import DbSaci.Library.Operators
import DbSaci.Sql.SetOperators
import DbSaci.Translate.SetChain
import DbSaci.Sql.Syntax
import DbSaci.Translate.RewriteExpr
import DbSaci.Translate.Untranslated
import DbSaci.Translate.TranslateQuery
import DbSaci.Translate.Reach
import DbSaci.Library.Arrangement
import DbSaci.Library.Joins
import DbSaci.Sql.FullJoin
import DbSaci.Sql.JoinUnion
import DbSaci.Sql.JoinUnionRows
import DbSaci.Translate.FullOuterJoin
import DbSaci.Translate.FullOuterJoinText
import DbSaci.Translate.FullOuterJoinUnion
import DbSaci.Translate.FullOuterJoinMariadb
import DbSaci.Library.BigEndian
import DbSaci.Server.Framing
import DbSaci.Library.Decimal
import DbSaci.Wire.Temporal
import DbSaci.Wire.BindValue
import DbSaci.Wire.Number
import DbSaci.Wire.NumberText
import DbSaci.Wire.NumberDigits
import DbSaci.Wire.NumberRoundTrip
import DbSaci.Library.Scanner
import DbSaci.Wire.BindParameters
import DbSaci.Wire.Placeholders
import DbSaci.Wire.CountBinds
import DbSaci.Server.ArrayBind
import DbSaci.Library.Autocommit
import DbSaci.Backend.MariaDb
import DbSaci.Backend.MariaDbTransaction
import DbSaci.Backend.MariaDbAtomicity
import DbSaci.Backend.MariaDbReconnect
import DbSaci.Library.Fallible
import DbSaci.Wire.ReadBuffer
import DbSaci.Wire.ExecuteRequest
import DbSaci.Wire.ArrayRows
import DbSaci.Library.Utf8
import DbSaci.Wire.OciBinds
import DbSaci.Wire.OciSql
import DbSaci.Wire.OciExecute
import DbSaci.Wire.OciResponse
import DbSaci.Wire.OciRows
import DbSaci.Wire.NumberValue
import DbSaci.Wire.IntegerNumber
import DbSaci.Backend.PgNumeric
import DbSaci.Backend.MariaDbValues
import DbSaci.Backend.MariaDbTemporal
import DbSaci.Backend.MariaDbColumns
import DbSaci.Backend.MariaDbPrepare
import DbSaci.Library.Runs
import DbSaci.Backend.StatementTimeout
import DbSaci.Backend.Recovery
import DbSaci.Server.Registry
import DbSaci.Server.Auth
import DbSaci.Server.QueryText
import DbSaci.Library.Fields
import DbSaci.Wire.JdbcDescribe
import DbSaci.Server.Markers
import DbSaci.Wire.CompactIntegers
import DbSaci.Wire.ClrValues
import DbSaci.Wire.NumberEncoders
import DbSaci.Backend.Intervals
import DbSaci.Wire.CalendarDates
import DbSaci.Server.FetchFrame
import DbSaci.Wire.LocateSql
import DbSaci.Wire.AuthRequest
import DbSaci.Wire.OciAuth
import DbSaci.Wire.NumberLiteral
import DbSaci.Wire.ReturningInto
import DbSaci.Backend.SequenceValues
import DbSaci.Backend.BatchSeparator
import DbSaci.Translate.Concatenation
import DbSaci.Translate.DecodeEquality
import DbSaci.Translate.DateArithmetic
import DbSaci.Library.SortKeys
import DbSaci.Library.LastWord
import DbSaci.Translate.CommaParts
import DbSaci.Translate.SortTerms
import DbSaci.Translate.NullsOrdering
import DbSaci.Library.Ties
import DbSaci.Translate.FetchTies
import DbSaci.Translate.FetchTiesRows
import DbSaci.Translate.SequenceCalls
import DbSaci.Translate.SequenceDraws
import DbSaci.Library.Windows
import DbSaci.Translate.FirstCall
import DbSaci.Translate.LagDefault
import DbSaci.Library.Barrier
import DbSaci.Translate.OrderedSet
import DbSaci.Translate.OrderedSetRows
import DbSaci.Library.Marking
import DbSaci.Translate.PhysicalClauses
import DbSaci.Translate.ClauseItems
import DbSaci.Translate.ClauseOutcomes
import DbSaci.Translate.ClauseMarks
import DbSaci.Library.Fronts
import DbSaci.Translate.CommonDdl
import DbSaci.Translate.OracleDdl
import DbSaci.Translate.LeadingSpace
import DbSaci.Translate.AddList
import DbSaci.Sql.Lexemes
import DbSaci.Translate.AltQuotes
import DbSaci.Translate.IntoStrict
import DbSaci.Translate.SelectInto
import DbSaci.Translate.ProgramHeader
import DbSaci.Library.Transducer
import DbSaci.Translate.FoldTables
import DbSaci.Library.Traced
import DbSaci.Translate.MariadbDual
import DbSaci.Translate.Correlation
import DbSaci.Translate.Trigger
import DbSaci.Translate.TokenScan
import DbSaci.Wire.Negotiation
import DbSaci.Server.Credentials
import DbSaci.Server.Handshake
import DbSaci.Server.HonestLogin
import DbSaci.Backend.PgColumns
import DbSaci.Wire.QueryResponse
import DbSaci.Server.ResultStream
import DbSaci.Library.Takes
import DbSaci.Wire.ExecuteMessage
import DbSaci.Server.StatementMessages
import DbSaci.Library.OptionalTables
import DbSaci.Translate.LegacyOuterJoin
import DbSaci.Library.Json
import DbSaci.Server.HealthAuth
import DbSaci.Server.Health
import DbSaci.Library.FloatingPoint
import DbSaci.Backend.BinaryFloats
import DbSaci.Server.Returning
import DbSaci.Library.ClearingCache
import DbSaci.Backend.StatementCache
