import Entanglement.Agent.Overlap
import Entanglement.Agent.Rewrites
import Entanglement.Biscuits.Attenuation
import Entanglement.Biscuits.Bridge
import Entanglement.Biscuits.Claims
import Entanglement.Biscuits.Lifetime
import Entanglement.Biscuits.Restrictions
import Entanglement.Broker.Audit
import Entanglement.Broker.Authority
import Entanglement.Broker.Replay
import Entanglement.Broker.Timeline
import Entanglement.Broker.Tokens
import Entanglement.Cli.DisplayNames
import Entanglement.Cli.Expiry
import Entanglement.Cli.Package
import Entanglement.Cli.Scaffold
import Entanglement.Compress.RoundTrip
import Entanglement.CsvStats.Profile
import Entanglement.Daemon.Allowlist
import Entanglement.Daemon.Directory
import Entanglement.Daemon.Failures
import Entanglement.Daemon.Rpc
import Entanglement.Daemon.Shipping
import Entanglement.Host.Logs
import Entanglement.ImageResize.Bitmaps
import Entanglement.Ipc.Patterns
import Entanglement.JsonQuery.Eval
import Entanglement.JsonQuery.Grammar
import Entanglement.Manifests.Acceptance
import Entanglement.MarkdownHtml.Harden
import Entanglement.Mesh.Framing
import Entanglement.Mesh.NodeAddr
import Entanglement.Mesh.Services
import Entanglement.Mesh.Sightings
import Entanglement.Observability.Exposition
import Entanglement.Observability.Histograms
import Entanglement.Pairing.Delivery
import Entanglement.Pairing.Impostor
import Entanglement.Pairing.Manual
import Entanglement.Peers.Durability
import Entanglement.Peers.Mutations
import Entanglement.QrEncode.Agreement
import Entanglement.Runtime.Provenance
import Entanglement.Runtime.Replicas
import Entanglement.Scheduler.Codec
import Entanglement.Scheduler.Enforcement
import Entanglement.Scheduler.History
import Entanglement.Scheduler.Resources
import Entanglement.Scheduler.Roundtrip
import Entanglement.Types.PluginGrammar
import Entanglement.Runtime.Ownership
