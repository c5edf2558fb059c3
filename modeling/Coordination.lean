import Coordination.Main
import Coordination.Machine.Fleet
import Coordination.Machine.Lifecycles
import Coordination.Namespace.ScopeRecord
import Coordination.OrderedMap.Lookup
import Coordination.Session.Step
import Coordination.Proofs.Path.Below
import Coordination.Proofs.Tree.Children
import Coordination.Proofs.Tree.Calls
import Coordination.Proofs.Tree.Walk
import Coordination.Proofs.Tree.Scan
import Coordination.Proofs.Tree.Running
import Coordination.Proofs.Namespace.Paths
import Coordination.Proofs.Namespace.Entries
import Coordination.Proofs.Namespace.References
import Coordination.Proofs.Configuration.Refinement
import Coordination.Proofs.Configuration.Revision
import Coordination.Proofs.Environment.Changes
import Coordination.Proofs.Environment.Refinement
import Coordination.Proofs.Environment.Requests
import Coordination.Proofs.Environment.Revision
import Coordination.Proofs.Registry.Outcome
import Coordination.Proofs.Registry.DirectoryChange
import Coordination.Proofs.Registry.Errors
import Coordination.Proofs.Environment.Pruning
import Coordination.Proofs.Environment.Log
import Coordination.Proofs.Environment.Effects
import Coordination.Proofs.Environment.History
import Coordination.Proofs.Environment.Listing
import Coordination.Proofs.Environment.Groups
import Coordination.Proofs.Environment.Applicability
import Coordination.Proofs.Tree.Counters
import Coordination.Proofs.Tree.Confinement
import Coordination.Proofs.Tree.Journal
import Coordination.Proofs.Tree.Deletions
import Coordination.Proofs.Registry.Confinement
import Coordination.Proofs.Registry.Phases
import Coordination.Proofs.Registry.DirectoryNames
import Coordination.Proofs.Files.Written
import Coordination.Proofs.Machine.Deadlines
import Coordination.Proofs.Machine.History
import Coordination.Proofs.Machine.Signals
import Coordination.Proofs.Session.Runs
import Coordination.Proofs.Session.Watches
import Coordination.Proofs.Session.Hearings
import Coordination.Proofs.Reload.Cycle
import Coordination.Proofs.Reload.Stages
import Coordination.Proofs.Session.Delivery
import Coordination.Proofs.Session.Service
import Coordination.Proofs.Registry.LivePointer
import Coordination.Proofs.Session.LiveReload
import Coordination.Proofs.Session.Lifetimes
import Coordination.Proofs.Session.Installation
import Coordination.Proofs.Registry.Creation
import Coordination.Proofs.Registry.LiveRace
import Coordination.Proofs.Registry.Overrides
import Coordination.Proofs.Registry.RegistrationHistory
import Coordination.Proofs.Registry.Roster
import Coordination.Proofs.Template.Concatenation
import Coordination.Proofs.Template.Resolution
import Coordination.Proofs.Machine.Refusals
import Coordination.Proofs.Registry.LiveReading
import Coordination.Proofs.Registry.ContainerListing
import Coordination.Proofs.CommandLine.ListedFields
