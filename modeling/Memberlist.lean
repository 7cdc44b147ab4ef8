import Memberlist.Lib.Go
import Memberlist.Lib.SortedSet
import Memberlist.Lib.Transition
import Memberlist.Queue.Basic
import Memberlist.State.Basic
import Memberlist.State.Handlers
import Memberlist.State.Reap
import Memberlist.State.Merge
import Memberlist.State.Step
import Memberlist.State.Spec
import Memberlist.State.Rep
import Memberlist.State.Frame
import Memberlist.State.Local
import Memberlist.State.Precedence
import Memberlist.State.Timers
import Memberlist.State.Events
import Memberlist.Cluster.Basic
import Memberlist.Cluster.Incarnation
import Memberlist.Lib.BigEndian
import Memberlist.Net.Compound
import Memberlist.Net.Label
import Memberlist.Net.Packet
import Memberlist.Net.Stream
import Memberlist.State.Exposed
import Memberlist.State.Verify
import Memberlist.Net.PushPull
import Memberlist.Lib.Greedy
import Memberlist.Queue.Greedy
import Memberlist.Queue.Refinement
import Memberlist.Queue.Drain
import Memberlist.Lib.Run
import Memberlist.Queue.Retransmit
import Memberlist.Lib.Bufio
import Memberlist.State.Suspicion
import Memberlist.Net.Keyring
import Memberlist.Queue.Prune
import Memberlist.State.RandomNodes
import Memberlist.State.Probe
import Memberlist.State.MergeState
import Memberlist.Lib.Slice
import Memberlist.Net.Ack
import Memberlist.Net.AckSpec
import Memberlist.Cluster.Probe
import Memberlist.Cluster.ProbeSafety
import Memberlist.State.Awareness
import Memberlist.Net.AckLive
import Memberlist.Cluster.ProbeLive
import Memberlist.Net.Gossip
import Memberlist.Net.PushPullNode
import Memberlist.Queue.Names
