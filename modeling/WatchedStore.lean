import WatchedStore.Main
import WatchedStore.Proofs.Benchmark.Succession
import WatchedStore.Proofs.Cache.Independence
import WatchedStore.Proofs.Cache.Leftover
import WatchedStore.Proofs.Cache.Piecemeal
import WatchedStore.Proofs.Cache.Recall
import WatchedStore.Proofs.Cache.Renewal
import WatchedStore.Proofs.Clients.Serial
import WatchedStore.Proofs.Counter.Add
import WatchedStore.Proofs.Counter.Agreement
import WatchedStore.Proofs.Counter.Budget
import WatchedStore.Proofs.Counter.Chain
import WatchedStore.Proofs.Counter.Tally
import WatchedStore.Proofs.Memory.Capacity
import WatchedStore.Proofs.Memory.Conflict
import WatchedStore.Proofs.Memory.Crash
import WatchedStore.Proofs.Memory.Refinement
import WatchedStore.Proofs.Remote.Span
import WatchedStore.Proofs.Text.Decimal
import WatchedStore.Session.Memory
import WatchedStore.Session.Remote
import WatchedStore.Settings.Json
import WatchedStore.Proofs.Cache.Registry
import WatchedStore.Proofs.Json.Form
import WatchedStore.Proofs.Json.Quote
import WatchedStore.Proofs.Json.Record
import WatchedStore.Proofs.Json.Variation
import WatchedStore.Proofs.Remote.Batch
import WatchedStore.Proofs.Remote.Reply
import WatchedStore.Proofs.Settings.Defaults
import WatchedStore.Proofs.Settings.RoundTrip
