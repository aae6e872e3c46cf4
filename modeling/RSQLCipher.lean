import RSQLCipher.FetchedValues
import RSQLCipher.GroupOrder
import RSQLCipher.BulkExecution
import RSQLCipher.ImportRows
import RSQLCipher.KeyPaths
import RSQLCipher.KeyAttached
import RSQLCipher.Library.OnExit
import RSQLCipher.Library.Savepoints
import RSQLCipher.Transactions
import RSQLCipher.AppendTable
import RSQLCipher.WriteTable
import RSQLCipher.Association
import RSQLCipher.Connections
import RSQLCipher.BusyHandlers
import RSQLCipher.RowsAffected
import RSQLCipher.LiveResults
import RSQLCipher.AffinityTable
import RSQLCipher.Identifiers
import RSQLCipher.Library.TwoRuns
import RSQLCipher.Metadata
import RSQLCipher.DataTypes
import RSQLCipher.RoundTrip
import RSQLCipher.ExistsTable
import RSQLCipher.FieldTypes
import RSQLCipher.LineMemory
import RSQLCipher.FieldSplitting
import RSQLCipher.ImportFormat
import RSQLCipher.TemporaryTables
import RSQLCipher.Library.Levels
import RSQLCipher.NestedTransactions
import RSQLCipher.RawKeys
import RSQLCipher.ExtendedTypes
import RSQLCipher.PreparedQueries
import RSQLCipher.Library.Worklist
import RSQLCipher.RegexpCompile
import RSQLCipher.RegexpMatch
import RSQLCipher.RegexpPrefix
import RSQLCipher.RegexpCode
import RSQLCipher.RegexpFunction
