import LocalSearch.Graph.Availability
import LocalSearch.Graph.ScanFinalize
import LocalSearch.Graph.PathConvergence
import LocalSearch.Graph.ScanPaths
import LocalSearch.Windows.UsnHistory
import LocalSearch.Agent.ScanRestore
import LocalSearch.Graph.OutboxTail
import LocalSearch.Catalog.Index
import LocalSearch.Catalog.Rebuild
import LocalSearch.Broker.Client
import LocalSearch.Broker.ScanPaging
import LocalSearch.Graph.Representation
import LocalSearch.Agent.ScanHandles
import LocalSearch.Content.Retention
import LocalSearch.Windows.ReadChanges
import LocalSearch.Governor.Policy
import LocalSearch.Governor.Hysteresis
import LocalSearch.Governor.IdleBoost
import LocalSearch.Content.DurableState
import LocalSearch.Graph.Acknowledgement
import LocalSearch.Graph.Isolation
import LocalSearch.Graph.VersionOrder
import LocalSearch.Agent.Continuity
import LocalSearch.Content.Lifecycle
import LocalSearch.Graph.Idempotence
import LocalSearch.Graph.Admission
import LocalSearch.Graph.PathExact
import LocalSearch.Agent.SearchWindow
import LocalSearch.Agent.Ranking
import LocalSearch.Content.Completion
import LocalSearch.Graph.CompactionRuns
import LocalSearch.Graph.MigrationRuns
import LocalSearch.Windows.RenameMaps
import LocalSearch.Windows.ReadProgress
import LocalSearch.Windows.Record
import LocalSearch.Graph.Transitions
import LocalSearch.Desktop.Client
import LocalSearch.Mcp.Framing
import LocalSearch.Windows.Admissible
import LocalSearch.Content.FolderConvergence
import LocalSearch.Windows.Handoff
import LocalSearch.Transport.Frame
import LocalSearch.Transport.Pipe
import LocalSearch.Transport.Exchange
import LocalSearch.Lib.Inevitable
import LocalSearch.Transport.Delivery
import LocalSearch.Transport.Completion
import LocalSearch.Broker.Remote
import LocalSearch.Broker.Handles
import LocalSearch.Graph.OutboxRows
import LocalSearch.Graph.RefreshDrain
import LocalSearch.Catalog.Worker
import LocalSearch.Catalog.Serving
import LocalSearch.Graph.Upkeep
import LocalSearch.Agent.Maintenance
import LocalSearch.Broker.ClientScan
import LocalSearch.AgentApi.Contract
import LocalSearch.Agent.Service
import LocalSearch.Lib.Interrupted
import LocalSearch.Agent.Dispatch
import LocalSearch.Agent.Lookup
import LocalSearch.Agent.Answers
import LocalSearch.Desktop.Served
import LocalSearch.Core.IdText
import LocalSearch.Mcp.Schema
import LocalSearch.Mcp.Manifest
import LocalSearch.Mcp.Adapter
import LocalSearch.Mcp.Tools
import LocalSearch.Mcp.Conformance
import LocalSearch.Mcp.Listing
import LocalSearch.Mcp.Process
