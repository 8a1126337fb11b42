import DocStore.Proofs.CapturedConditions
import DocStore.Proofs.ColumnReferences
import DocStore.Proofs.Deletions
import DocStore.Proofs.DocumentRows
import DocStore.Proofs.DocumentTypes
import DocStore.Proofs.FailedFlushes
import DocStore.Proofs.FreshIdentities
import DocStore.Proofs.Indistinct
import DocStore.Proofs.Isolation
import DocStore.Proofs.Memberships
import DocStore.Proofs.RepeatableReads
import DocStore.Proofs.Rollbacks
import DocStore.Proofs.SavingBack
import DocStore.Proofs.SharedResults
import DocStore.Proofs.StoredKeys
import DocStore.Proofs.TextSearch
import DocStore.Proofs.DescribedIndexes
import DocStore.Proofs.InFlightTable
import DocStore.Proofs.FixedValues
import DocStore.Proofs.CreatedTables
import DocStore.Proofs.IntegerArithmetic
import DocStore.Proofs.RestoredScopes
import DocStore.Proofs.FlushErrors
