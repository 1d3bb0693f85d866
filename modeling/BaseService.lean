import BaseService.LocalCache.GroupRefresh
import BaseService.LocalCache.Instances
import BaseService.LocalCache.Threads
import BaseService.LocalCache.LiveEntries
import BaseService.LocalCache.DeadEntries
import BaseService.LocalCache.Peers
import BaseService.Notify.Redelivery
import BaseService.Notify.Consumers
import BaseService.Notify.ThreadLocal
import BaseService.Notify.Wire
import BaseService.Notify.CommandAndWait
import BaseService.Notify.BatchesSent
import BaseService.Schedule.Firing
import BaseService.Schedule.AllOrNothing
import BaseService.Schedule.ScheduleJob
import BaseService.Schedule.Polling
import BaseService.Schedule.Members
import BaseService.Lively.KafkaConsumer
import BaseService.Lively.Agreement
import BaseService.Lively.Converges
import BaseService.Lively.ExecutorCalls
import BaseService.Lively.LivelyRedis
import BaseService.Lively.Announced
import BaseService.Lively.Bootstrap
import BaseService.Redis.Pops
import BaseService.Redis.Connections
import BaseService.Redis.ListOverloads
import BaseService.Redis.PartialWrites
import BaseService.Redis.Reconfiguration
import BaseService.Configuration.Coherence
import BaseService.Configuration.Grouping
import BaseService.Configuration.FailedLoads
import BaseService.Memcached.KryoSerializingTranscoder
import BaseService.Memcached.IncrNew
import BaseService.Counter.SharedCounters
import BaseService.BaseServer.Clients
import BaseService.BaseServer.Servlets
import BaseService.LocalCache.TableSize
import BaseService.Hystrix.HystrixMetricSchedule
import BaseService.Configuration.Init
import BaseService.Notify.ConsumerList
import BaseService.Data.Prefixed
import BaseService.Notify.NSQEncoder
import BaseService.Notify.Connections
import BaseService.Notify.NSQClient
import BaseService.BaseServer.Accounts
import BaseService.Data.Ledger
import BaseService.Redis.Resources
import BaseService.LocalCache.HitCounts
import BaseService.Data.Replaying
import BaseService.Notify.NSQDecoder
import BaseService.Notify.Incoming
import BaseService.Notify.Ready
import BaseService.Data.Scanning
import BaseService.Notify.Yylex
import BaseService.Data.Documents
import BaseService.Notify.Lexemes
import BaseService.Notify.JSONGrammar
import BaseService.Notify.JSONParser
import BaseService.Notify.JSONValue
import BaseService.Notify.Lookup
import BaseService.LocalCache.LruPolicy
