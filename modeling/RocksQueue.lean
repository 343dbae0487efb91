import RocksQueue.Theorems.AckFinal
import RocksQueue.Theorems.Arrivals
import RocksQueue.Theorems.Attempts
import RocksQueue.Theorems.CleanSlate
import RocksQueue.Theorems.Completions
import RocksQueue.Theorems.Deadlock
import RocksQueue.Theorems.Dormancy
import RocksQueue.Theorems.Drained
import RocksQueue.Theorems.Envelopes
import RocksQueue.Theorems.Evictions
import RocksQueue.Theorems.Exclusion
import RocksQueue.Theorems.Fencing
import RocksQueue.Theorems.Fifo
import RocksQueue.Theorems.Guards
import RocksQueue.Theorems.InflightCap
import RocksQueue.Theorems.KeyOrder
import RocksQueue.Theorems.LastUpdate
import RocksQueue.Theorems.Leftovers
import RocksQueue.Theorems.OnePolicy
import RocksQueue.Theorems.Paused
import RocksQueue.Theorems.Reductions
import RocksQueue.Theorems.RetentionAge
import RocksQueue.Theorems.SpikePromotion
import RocksQueue.Theorems.ThrottleRestart
import RocksQueue.Theorems.TickSlots
import RocksQueue.Theorems.Waits
import RocksQueue.Theorems.WeightTotal
import RocksQueue.Theorems.QueueRefinement
import RocksQueue.Theorems.Tables
import RocksQueue.Theorems.Refusals
import RocksQueue.Theorems.Mirror
import RocksQueue.Theorems.Returns
import RocksQueue.Theorems.Undisturbed
import RocksQueue.Theorems.Expiry
import RocksQueue.Theorems.WholeBatches
import RocksQueue.Theorems.AckKeys
import RocksQueue.Theorems.Confinement
import RocksQueue.Theorems.Gauges
import RocksQueue.Theorems.Ranges
