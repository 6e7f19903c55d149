import UnOrchestrator.Rest.Security
import UnOrchestrator.GraphManager.Atomicity
import UnOrchestrator.GraphManager.Installed
import UnOrchestrator.GraphManager.GreToPort
import UnOrchestrator.GraphManager.Lowering
import UnOrchestrator.Parser.Exactness
import UnOrchestrator.Parser.VlanEndpoints
import UnOrchestrator.Parser.RoundTrip
import UnOrchestrator.GraphManager.InternalPorts
import UnOrchestrator.Parser.VnfPorts
import UnOrchestrator.GraphManager.HotPlug
import UnOrchestrator.Ovsdb.Rings
import UnOrchestrator.ElasticRouter.Migration
import UnOrchestrator.ElasticRouter.FlowTable
import UnOrchestrator.ElasticRouter.Protocol
import UnOrchestrator.Rest.Body
import UnOrchestrator.Parser.Addresses
