import DoubleDecker.Library.CString
import DoubleDecker.Library.Lfht
import DoubleDecker.Trie.Refines
import DoubleDecker.Trie.Lookup
import DoubleDecker.Trie.Sound
import DoubleDecker.Broker.State
import DoubleDecker.Broker.HTable
import DoubleDecker.Broker.Collisions
import DoubleDecker.Broker.Malformed
import DoubleDecker.Broker.PubStrings
import DoubleDecker.Broker.Registry
import DoubleDecker.Broker.Restored
import DoubleDecker.Broker.Distant
import DoubleDecker.Broker.Expiry
import DoubleDecker.Broker.FullName
import DoubleDecker.Broker.Routing
import DoubleDecker.Broker.Addressing
import DoubleDecker.Broker.Delivery
import DoubleDecker.Broker.Scope
import DoubleDecker.Broker.BadScope
import DoubleDecker.Broker.Buffers
import DoubleDecker.Broker.Subs
import DoubleDecker.Broker.Links
import DoubleDecker.Broker.Propagation
import DoubleDecker.Broker.North
import DoubleDecker.Client.Handlers
import DoubleDecker.Client.Link
import DoubleDecker.Client.Nonces
import DoubleDecker.Client.Passes
import DoubleDecker.Client.Sublist
import DoubleDecker.Client.Survival
import DoubleDecker.Keys.Nonce
import DoubleDecker.Keys.Complete
import DoubleDecker.Net.Agreement
import DoubleDecker.Net.Cloud
import DoubleDecker.Net.Directory
import DoubleDecker.Net.Exactness
import DoubleDecker.Net.Failure
import DoubleDecker.Net.Flood
import DoubleDecker.Net.Loops
import DoubleDecker.Net.Uplink
import DoubleDecker.Client.Sessions
import DoubleDecker.Hash.XXHash
import DoubleDecker.Keys.Tenants
import DoubleDecker.Broker.Transcript
import DoubleDecker.Broker.Lapses
import DoubleDecker.Client.Lapses
import DoubleDecker.Client.Handshake
import DoubleDecker.Client.Faithful
import DoubleDecker.Broker.Subscribers
import DoubleDecker.Client.Arrives
