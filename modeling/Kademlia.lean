import Kademlia.Metric
import Kademlia.Sample
import Kademlia.Session
import Kademlia.Wire
import Kademlia.Proofs.Lookup
import Kademlia.Proofs.Edits
import Kademlia.Proofs.OrderClasses
import Kademlia.Proofs.Numeric
import Kademlia.Proofs.CompactLists
import Kademlia.Proofs.Partition
import Kademlia.Proofs.NodeOrder
import Kademlia.Proofs.Block
import Kademlia.Proofs.Descent
import Kademlia.Proofs.Census
import Kademlia.Proofs.Soundness
import Kademlia.Proofs.Run
import Kademlia.Proofs.Aging
import Kademlia.Proofs.PrefixClass
import Kademlia.Proofs.FlatTable
import Kademlia.Proofs.ClosestPrefix
import Kademlia.Proofs.Trie
import Kademlia.Proofs.History
import Kademlia.Proofs.Isolation
import Kademlia.Proofs.Refusal
import Kademlia.Proofs.Looks
import Kademlia.Proofs.Recall
import Kademlia.Proofs.Layers
import Kademlia.Proofs.Offers
import Kademlia.Proofs.Capacity
import Kademlia.Proofs.Parts
import Kademlia.Proofs.Scan
import Kademlia.Proofs.Queues
import Kademlia.Proofs.Frame
import Kademlia.Proofs.Reports
import Kademlia.Proofs.Walk
import Kademlia.Proofs.Lawless
import Kademlia.Proofs.Locality
import Kademlia.Proofs.Containment
import Kademlia.Proofs.Halving
import Kademlia.Proofs.XorMetric
import Kademlia.Proofs.Closeness
import Kademlia.Proofs.HexText
