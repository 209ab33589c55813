import LLMInference.Lib.Runs
import LLMInference.Lib.Decimal
import LLMInference.Lib.PyValue
import LLMInference.Lib.Hex
import LLMInference.Config
import LLMInference.Tokens
import LLMInference.Complexity
import LLMInference.Complexity.Words
import LLMInference.Complexity.Floor
import LLMInference.Router
import LLMInference.Lib.FirstFit
import LLMInference.Router.Choice
import LLMInference.Router.Budgets
import LLMInference.Lib.Pool
import LLMInference.Metrics
import LLMInference.Providers
import LLMInference.Providers.Vllm
import LLMInference.Providers.Frames
import LLMInference.Providers.Stream
import LLMInference.Providers.Retries
import LLMInference.Providers.Malformed
import LLMInference.Providers.Buffered
import LLMInference.Providers.Agreement
import LLMInference.Providers.Upstream
import LLMInference.Breaker
import LLMInference.Breaker.History
import LLMInference.Breaker.Trips
import LLMInference.Failover.Pool
import LLMInference.Failover.Visits
import LLMInference.Gate
import LLMInference.Gate.Wakeups
import LLMInference.Cost.Base
import LLMInference.Cost.Memory
import LLMInference.Lib.ZSet
import LLMInference.Cost.Redis
import LLMInference.Cost.Overspend
import LLMInference.Cost.SpendKeys
import LLMInference.Cost.Refinement
import LLMInference.Autoscaler
import LLMInference.Autoscaler.Cooldowns
import LLMInference.Cache
import LLMInference.Lib.Recency
import LLMInference.Cache.Contract
import LLMInference.Cache.SingleFlight
import LLMInference.Cache.Shielding
import LLMInference.Cache.Redis
import LLMInference.RateLimit
import LLMInference.Service.State
import LLMInference.Service.Step
import LLMInference.Service.History
import LLMInference.Service.Slots
import LLMInference.Service.Capacity
import LLMInference.Service.Books
import LLMInference.Service.Billing
import LLMInference.Service.InFlight
import LLMInference.Service.Cancel
import LLMInference.Service.Guard
import LLMInference.Cost.Window
import LLMInference.Service.Budget
import LLMInference.Cost.Accounts
import LLMInference.Cost.Reports
import LLMInference.Cost.Booked
import LLMInference.Cost.Summary
import LLMInference.Cost.Duplicates
import LLMInference.RateLimit.Fleet
import LLMInference.RateLimit.Expiry
import LLMInference.RateLimit.Window
import LLMInference.Service.Ceiling
import LLMInference.Cost.Entries
import LLMInference.Service.Delivery
import LLMInference.Service.Unproduced
import LLMInference.Service.Interrupted
import LLMInference.Service.Totals
import LLMInference.Service.Provenance
import LLMInference.Service.Relay
import LLMInference.Service.Truncated
import LLMInference.Service.Stampede
import LLMInference.Service.Paths
import LLMInference.Lib.Json
import LLMInference.Lib.Json.Literals
import LLMInference.Lib.Json.RoundTrip
import LLMInference.Lib.Json.Printable
import LLMInference.Cache.Encoding
import LLMInference.Service.Grammar
import LLMInference.Http.Events
import LLMInference.Http.Responses
import LLMInference.Lib.Scripting
import LLMInference.Cost.Scripts
import LLMInference.Http.Retry
import LLMInference.Service.Lifecycle
import LLMInference.Service.Queue
import LLMInference.Service.Absorb
import LLMInference.Http.Transcript
import LLMInference.Autoscaler.Steady
import LLMInference.Service.Drain
import LLMInference.Service.Backends
