import Converge.Amend
import Converge.Api.Announcer
import Converge.Api.Answer
import Converge.Api.Cluster
import Converge.Api.Reply
import Converge.Api.Request
import Converge.Api.Script
import Converge.Api.Served
import Converge.Api.Session
import Converge.Body.Access
import Converge.Body.Basic
import Converge.Body.Pod
import Converge.Body.Route
import Converge.Body.Traffic
import Converge.Body.Workload
import Converge.Capability
import Converge.Child
import Converge.Double.Basic
import Converge.Double.Numeral
import Converge.Health
import Converge.Install.Children
import Converge.Install.Defaults
import Converge.Install.Spec
import Converge.Json.Agreement
import Converge.Json.Basic
import Converge.Json.Codec
import Converge.Json.Overlay
import Converge.Json.Shape
import Converge.Json.Source
import Converge.Json.Writer
import Converge.Key
import Converge.Kind
import Converge.Ledger
import Converge.Main
import Converge.Naming
import Converge.Object.Basic
import Converge.Object.Edit
import Converge.Object.Metadata
import Converge.Object.Timestamp
import Converge.Pass.Apply
import Converge.Pass.Basic
import Converge.Pass.Finalizer
import Converge.Pass.Reconcile
import Converge.Pass.Status
import Converge.Picker
import Converge.Proofs.Amend.Applied
import Converge.Proofs.Amend.Cleared
import Converge.Proofs.Amend.InLine
import Converge.Proofs.Amend.Replaced
import Converge.Proofs.Amend.Spared
import Converge.Proofs.Body.Frame
import Converge.Proofs.Body.WellNamed
import Converge.Proofs.Children.Builders
import Converge.Proofs.Children.Homes
import Converge.Proofs.Children.InRange
import Converge.Proofs.Children.Keys
import Converge.Proofs.Children.Lacking
import Converge.Proofs.Children.Linked
import Converge.Proofs.Children.Links
import Converge.Proofs.Children.Names
import Converge.Proofs.Children.Proper
import Converge.Proofs.Children.References
import Converge.Proofs.Children.Seats
import Converge.Proofs.Children.Selection
import Converge.Proofs.Children.Served
import Converge.Proofs.Children.Strangers
import Converge.Proofs.Children.Tracked
import Converge.Proofs.Gate
import Converge.Proofs.Json.Along
import Converge.Proofs.Json.Carries
import Converge.Proofs.Json.Covers
import Converge.Proofs.Json.Fits
import Converge.Proofs.Json.Laid
import Converge.Proofs.Json.Meets
import Converge.Proofs.Json.Orderly
import Converge.Proofs.Json.Records
import Converge.Proofs.Json.Written
import Converge.Proofs.Ledger
import Converge.Proofs.Pass.Amid
import Converge.Proofs.Pass.Beside
import Converge.Proofs.Pass.Cleanup
import Converge.Proofs.Pass.Confined
import Converge.Proofs.Pass.Deletions
import Converge.Proofs.Pass.Events
import Converge.Proofs.Pass.Exchanges
import Converge.Proofs.Pass.Footprint
import Converge.Proofs.Pass.Gated
import Converge.Proofs.Pass.Held
import Converge.Proofs.Pass.HeldFirst
import Converge.Proofs.Pass.History
import Converge.Proofs.Pass.Independence
import Converge.Proofs.Pass.Isolation
import Converge.Proofs.Pass.Listed
import Converge.Proofs.Pass.Logs
import Converge.Proofs.Pass.NoLostUpdate
import Converge.Proofs.Pass.NoOrphan
import Converge.Proofs.Pass.Parts
import Converge.Proofs.Pass.Plan
import Converge.Proofs.Pass.Quiet
import Converge.Proofs.Pass.Readiness
import Converge.Proofs.Pass.Record
import Converge.Proofs.Pass.Recorded
import Converge.Proofs.Pass.Release
import Converge.Proofs.Pass.Retry
import Converge.Proofs.Pass.Revised
import Converge.Proofs.Pass.Shaken
import Converge.Proofs.Pass.Tags
import Converge.Proofs.Roster
import Converge.Proofs.Schema.Widened
import Converge.Proofs.Selector
import Converge.Proofs.Spec.Accepted
import Converge.Proofs.Spec.Growth
import Converge.Proofs.Spec.Readers
import Converge.Proofs.Spec.RoundTrip
import Converge.Proofs.Spec.Valid
import Converge.Proofs.Status.Conditions
import Converge.Proofs.Status.Report
import Converge.Proofs.Status.RoundTrip
import Converge.Proofs.Status.Summary
import Converge.Proofs.Status.Verdict
import Converge.Proofs.Store.Acts
import Converge.Proofs.Store.Answers
import Converge.Proofs.Store.Face
import Converge.Proofs.Store.Versions
import Converge.Proofs.Table.Ascending
import Converge.Proofs.Table.Writes
import Converge.Resource
import Converge.Root
import Converge.RootSpec
import Converge.Roster
import Converge.Scenario.Disturbance
import Converge.Scenario.Step
import Converge.Scenario.World
import Converge.Schema.Balancing
import Converge.Schema.Basic
import Converge.Schema.Definition
import Converge.Schema.Install
import Converge.Schema.Resources
import Converge.Schema.Simulator
import Converge.Schema.Status
import Converge.Selector
import Converge.Settings
import Converge.Simulator.Children
import Converge.Simulator.Defaults
import Converge.Simulator.Gateways
import Converge.Simulator.Spec
import Converge.Simulator.Summary
import Converge.Simulator.Workloads
import Converge.Spec.Balancing
import Converge.Spec.Defaults
import Converge.Spec.Error
import Converge.Spec.Resources
import Converge.Status.Basic
import Converge.Status.Condition
import Converge.Status.Readiness
import Converge.Store.Call
import Converge.Store.Error
import Converge.Store.Memory
import Converge.Table
import Converge.Target
import Converge.Text.Blank
import Converge.Text.Extender
import Converge.Text.Ignorable
import Converge.Text.Mask
import Converge.Text.Percent
import Converge.Text.Printable
import Converge.Text.Quoted
import Converge.Text.Split
import Converge.TrafficPolicy
import Converge.Yaml.Scalar
import Converge.Yaml.Writer
