import TeepDevice.Broker.Delivery
import TeepDevice.Agent.Rejection
import TeepDevice.Agent.Correlation
import TeepDevice.Agent.Storage
import TeepDevice.Suit.LocalUri
import TeepDevice.Suit.Sequences
import TeepDevice.Suit.Parameters
import TeepDevice.Agent.Stopping
import TeepDevice.Suit.Authentication
import TeepDevice.Suit.ManifestGrammar
import TeepDevice.Teep.Skipping
import TeepDevice.Agent.QueryResponse
import TeepDevice.Agent.Posting
import TeepDevice.Agent.Phases
import TeepDevice.Agent.Installed
import TeepDevice.Tcbor.Traversal
import TeepDevice.Suit.Binders
import TeepDevice.Agent.ComponentIds
import TeepDevice.Teep.Slices
import TeepDevice.Agent.Tools
import TeepDevice.Agent.FileNames
import TeepDevice.Suit.HashedBytes
import TeepDevice.Agent.TaList
import TeepDevice.Agent.TamUri
import TeepDevice.Agent.GetTask
import TeepDevice.Cose.Crypto
import TeepDevice.Broker.Http
import TeepDevice.Suit.Readers
import TeepDevice.Agent.Disk
import TeepDevice.Broker.Exchanges
import TeepDevice.Broker.Builds
import TeepDevice.Broker.Enclave
import TeepDevice.Heap
import TeepDevice.Teep.Ownership
