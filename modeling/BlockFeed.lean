import BlockFeed.ForStd.Base64
import BlockFeed.ForStd.Double
import BlockFeed.ForStd.Json
import BlockFeed.ForStd.Keyset
import BlockFeed.ForStd.Loop
import BlockFeed.ForStd.RecencyMap
import BlockFeed.ForStd.Routine
import BlockFeed.ForStd.Transition
import BlockFeed.Redis.SortedSet
import BlockFeed.Redis.ConsumerGroup
import BlockFeed.Native.BlockStore
import BlockFeed.Native.CachedStore
import BlockFeed.Native.RedisStream
import BlockFeed.Native.WebhookStream
import BlockFeed.Native.FlushScript
import BlockFeed.Native.BlockRelay
import BlockFeed.Native.BacklogPass
import BlockFeed.Native.RelayProcess
import BlockFeed.Native.BlockRouter
import BlockFeed.Native.Feed
import BlockFeed.Native.MongoBlockStore
import BlockFeed.Native.WireFormat
import BlockFeed.Native.RedisTexts
import BlockFeed.Native.Activation
import BlockFeed.Native.StripeConsumer
import BlockFeed.Native.RedisCache
import BlockFeed.Native.CheckoutTransaction
import BlockFeed.Native.CheckoutSession
import BlockFeed.Native.CheckoutService
import BlockFeed.Native.FlowSource
import BlockFeed.Native.BlockForwarder
import BlockFeed.Native.FlowForwarder
import BlockFeed.Native.ExponentialBackoff
import BlockFeed.Native.EthSource
import BlockFeed.Native.EthForwarder
import BlockFeed.Native.FindMany
import BlockFeed.Native.DashboardAuth
import BlockFeed.Native.LruCache
import BlockFeed.Native.WebhookApi
import BlockFeed.Native.ShardKeys
import BlockFeed.Native.Platform
import BlockFeed.Spec.FlushSafety
import BlockFeed.Spec.SubscribeCorrect
import BlockFeed.Spec.PendingFreshness
import BlockFeed.Spec.JobConservation
import BlockFeed.Spec.CachedRead
import BlockFeed.Spec.CachedStoreCorrect
import BlockFeed.Spec.FeedHistory
import BlockFeed.Spec.RouterCorrect
import BlockFeed.Spec.LatestHeight
import BlockFeed.Spec.LatestBlock
import BlockFeed.Spec.RelayNonEmpty
import BlockFeed.Spec.ForwarderOrder
import BlockFeed.Spec.GaplessReads
import BlockFeed.Spec.SteadyState
import BlockFeed.Spec.FlushCorrect
import BlockFeed.Spec.AckTwice
import BlockFeed.Spec.NextHeight
import BlockFeed.Spec.RelayRestart
import BlockFeed.Spec.BlockStoreSpec
import BlockFeed.Spec.ActivationRetry
import BlockFeed.Spec.StripeEvents
import BlockFeed.Spec.CacheInvalidation
import BlockFeed.Spec.CheckoutAgreement
import BlockFeed.Spec.CheckoutLinks
import BlockFeed.Spec.CheckoutOwnership
import BlockFeed.Spec.RetryBudget
import BlockFeed.Spec.BacklogTerminates
import BlockFeed.Spec.NewestBlocks
import BlockFeed.Spec.WholeRange
import BlockFeed.Spec.FlowHeights
import BlockFeed.Spec.ForwarderRefinement
import BlockFeed.Spec.FlowRefinement
import BlockFeed.Spec.EthHeights
import BlockFeed.Spec.EthRefinement
import BlockFeed.Spec.WebhookPages
import BlockFeed.Spec.PagingStable
import BlockFeed.Spec.FilterApplied
import BlockFeed.Spec.LruCorrect
import BlockFeed.Spec.BackoffCalls
import BlockFeed.Spec.BackoffWaits
import BlockFeed.Spec.WireTexts
import BlockFeed.Spec.RequestSteps
import BlockFeed.Spec.TenantIsolation
import BlockFeed.Spec.WebhookInvariants
import BlockFeed.Spec.ShardKeysCorrect
import BlockFeed.Spec.WriteAccess
import BlockFeed.Spec.ActiveWebhooks
import BlockFeed.Spec.RelayRest
import BlockFeed.Spec.Resubscribe
import BlockFeed.Native.CheckoutService
import BlockFeed.Spec.CheckoutOwnership
import BlockFeed.Spec.CheckoutIsolation
