import Clacheless.SkipMap
import Clacheless.NodeView
import Clacheless.ClusterView
import Clacheless.LocalCache
import Clacheless.PeerAuthenticator
import Clacheless.DistributedCache
import Clacheless.Cluster
import Clacheless.AntiEntropy
import Clacheless.Config
import Clacheless.Safety
import Clacheless.Churn
import Clacheless.Membership
import Clacheless.RestApi
