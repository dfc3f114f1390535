import DistributedChat.Chat.Atomicity
import DistributedChat.Chat.Budgets
import DistributedChat.Chat.DeliveryPace
import DistributedChat.Chat.Registry
import DistributedChat.Chat.Routing
import DistributedChat.Chat.SearchCache
import DistributedChat.Chat.SendQueue
import DistributedChat.Chat.ShardTick
import DistributedChat.Chat.Snapshot
import DistributedChat.Client.AccountBoundary
import DistributedChat.Client.Delivery
import DistributedChat.Client.Receipts
import DistributedChat.Client.StoreHistory
import DistributedChat.Executor.Order
import DistributedChat.Gate.Connections
import DistributedChat.Gate.PasswordPolicy
import DistributedChat.Gate.Passwords
import DistributedChat.Logger.Redaction
import DistributedChat.Pool.Accounting
import DistributedChat.Resource.Consistency
import DistributedChat.Resource.Quota
import DistributedChat.Resource.Ranges
import DistributedChat.Resource.Thumbnail
import DistributedChat.Store.Nonces
import DistributedChat.Verification.RateLimit
import DistributedChat.Client.FriendOperations
