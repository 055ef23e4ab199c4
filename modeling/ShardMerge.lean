import ShardMerge.Assembly
import ShardMerge.Engine.Run
import ShardMerge.Json.Domain
import ShardMerge.Proofs.SorterRun
import ShardMerge.Proofs.Sorting
import ShardMerge.Sorter.Run
import ShardMerge.Proofs.Checks
import ShardMerge.Proofs.Partition
import ShardMerge.Proofs.Anchored
import ShardMerge.Proofs.Work
import ShardMerge.Proofs.Settling
import ShardMerge.Proofs.Journal
import ShardMerge.Proofs.Epoch
import ShardMerge.Proofs.Regression
import ShardMerge.Proofs.Audit
import ShardMerge.Proofs.Ownership
import ShardMerge.Proofs.Refusals
import ShardMerge.Proofs.Accounts
import ShardMerge.Proofs.Erasure
import ShardMerge.Proofs.Deliveries
import ShardMerge.Proofs.Extent
import ShardMerge.Proofs.Batches
import ShardMerge.Proofs.HeadSkip
import ShardMerge.Proofs.Payloads
import ShardMerge.Proofs.TsoText
import ShardMerge.Proofs.TsoOrder
import ShardMerge.Proofs.TsoGrammar
import ShardMerge.Proofs.JsonSpelling
import ShardMerge.Proofs.JsonText
import ShardMerge.Proofs.JsonForms
import ShardMerge.Proofs.ConfigOverlay
import ShardMerge.Proofs.Admissions
import ShardMerge.Proofs.Discards
import ShardMerge.Proofs.Restart
import ShardMerge.Proofs.WhitelistText
import ShardMerge.Proofs.KeyOrder
import ShardMerge.Proofs.LiveWhitelist
