import BehaviorTree.Backend.Endpoints
import BehaviorTree.Main
import BehaviorTree.Monitor.Stream
import BehaviorTree.Session.Nodes
import BehaviorTree.Session.Selecting
import BehaviorTree.Session.View
import BehaviorTree.Events.Bus
import BehaviorTree.Session.Request
import BehaviorTree.Proofs.Tree.EdgeRules
import BehaviorTree.Proofs.Session.ChildLimits
import BehaviorTree.Proofs.Tree.Lossless
import BehaviorTree.Proofs.Tree.SecondParents
import BehaviorTree.Proofs.Store.Integrity
import BehaviorTree.Proofs.Store.Refusals
import BehaviorTree.Proofs.Session.Layout
import BehaviorTree.Proofs.Session.Copies
import BehaviorTree.Proofs.Tree.Extraction
import BehaviorTree.Proofs.Tree.Reachability
import BehaviorTree.Proofs.Session.FailedEdits
import BehaviorTree.Proofs.Session.Transient
import BehaviorTree.Proofs.Store.Mirror
import BehaviorTree.Proofs.Store.Batches
import BehaviorTree.Proofs.Logging.Levels
import BehaviorTree.Proofs.Session.CustomTypes
import BehaviorTree.Proofs.Session.Export
import BehaviorTree.Proofs.Store.Identity
import BehaviorTree.Proofs.Monitor.Activity
import BehaviorTree.Proofs.CommandLine.ExitCode
import BehaviorTree.Proofs.Session.Deletions
import BehaviorTree.Proofs.Session.Gesture
import BehaviorTree.Proofs.Tree.Geometry
import BehaviorTree.Proofs.Tree.Overlaps
import BehaviorTree.Proofs.Events.Dispatch
import BehaviorTree.Proofs.Events.Subscriptions
import BehaviorTree.Proofs.Session.Viewport
import BehaviorTree.Proofs.Session.TypedNodes
import BehaviorTree.Proofs.Monitor.Writing
import BehaviorTree.Proofs.Monitor.Reports
import BehaviorTree.Proofs.Monitor.Stopping
import BehaviorTree.Proofs.Catalog.Consistency
import BehaviorTree.Proofs.Catalog.FailedDiscovery
import BehaviorTree.Proofs.Logging.JsonLines
import BehaviorTree.Proofs.Backend.Agreement
import BehaviorTree.Proofs.Xml.Unescape
import BehaviorTree.Proofs.Graph.Resumption
import BehaviorTree.Proofs.Session.Alignment
