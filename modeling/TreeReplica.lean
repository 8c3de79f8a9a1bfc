import TreeReplica.CommandLine.Flag
import TreeReplica.CommandLine.Help
import TreeReplica.CommandLine.Parse
import TreeReplica.Config.Basic
import TreeReplica.Config.Load
import TreeReplica.Disk.Call
import TreeReplica.Disk.Entry
import TreeReplica.Disk.Fault
import TreeReplica.Disk.Path
import TreeReplica.Disk.Walk
import TreeReplica.Disk.Work
import TreeReplica.Layout.Basic
import TreeReplica.Layout.Compare
import TreeReplica.Layout.Expected
import TreeReplica.Layout.Scan
import TreeReplica.Log
import TreeReplica.Main
import TreeReplica.Number.Double
import TreeReplica.Number.Quantity
import TreeReplica.Number.Reading
import TreeReplica.Number.Shortest
import TreeReplica.Program.Replicate
import TreeReplica.Program.Settings
import TreeReplica.Program.Verify
import TreeReplica.Proofs.Disk.Call
import TreeReplica.Proofs.Disk.Change
import TreeReplica.Proofs.Disk.Name
import TreeReplica.Proofs.Disk.Plain
import TreeReplica.Proofs.Disk.Respect
import TreeReplica.Proofs.Disk.Route
import TreeReplica.Proofs.Disk.Site
import TreeReplica.Proofs.Disk.Staging
import TreeReplica.Proofs.Disk.Tidy
import TreeReplica.Proofs.Disk.Touch
import TreeReplica.Proofs.Disk.View
import TreeReplica.Proofs.Disk.Walk
import TreeReplica.Proofs.Disk.Work
import TreeReplica.Proofs.Layout.Compare
import TreeReplica.Proofs.Layout.Expected
import TreeReplica.Proofs.Layout.Scan
import TreeReplica.Proofs.Remote.Path
import TreeReplica.Proofs.Remote.Tree
import TreeReplica.Proofs.Replica.Chain
import TreeReplica.Proofs.Replica.Change
import TreeReplica.Proofs.Replica.Cleanup
import TreeReplica.Proofs.Replica.Contents
import TreeReplica.Proofs.Replica.Converge
import TreeReplica.Proofs.Replica.Fair
import TreeReplica.Proofs.Replica.Follow
import TreeReplica.Proofs.Replica.Guard
import TreeReplica.Proofs.Replica.History
import TreeReplica.Proofs.Replica.Listing
import TreeReplica.Proofs.Replica.Live
import TreeReplica.Proofs.Replica.Mirror
import TreeReplica.Proofs.Replica.Outcome
import TreeReplica.Proofs.Replica.Containment
import TreeReplica.Proofs.Replica.Prepare
import TreeReplica.Proofs.Replica.Repair
import TreeReplica.Proofs.Replica.Settle
import TreeReplica.Remote.Fault
import TreeReplica.Remote.Node
import TreeReplica.Remote.Path
import TreeReplica.Remote.Report
import TreeReplica.Remote.Snapshot
import TreeReplica.Remote.Watch
import TreeReplica.Replica.Apply
import TreeReplica.Replica.Ending
import TreeReplica.Replica.Loop
import TreeReplica.Replica.Output
import TreeReplica.Replica.Repair
import TreeReplica.Replica.Run
import TreeReplica.Text.Base64
import TreeReplica.Text.Digits
import TreeReplica.Text.Printable
import TreeReplica.Text.Quoted
import TreeReplica.Text.Ranges
import TreeReplica.Text.Utf8
import TreeReplica.Yaml.Cursor
import TreeReplica.Yaml.Document
import TreeReplica.Yaml.Fault
import TreeReplica.Yaml.Moment
import TreeReplica.Yaml.Node
import TreeReplica.Yaml.Scalar.Block
import TreeReplica.Yaml.Scalar.Plain
import TreeReplica.Yaml.Scalar.Quoted
import TreeReplica.Yaml.Scalar.Value
import TreeReplica.Yaml.Tag
import TreeReplica.Yaml.Token
import TreeReplica.Yaml.Token.Property
import TreeReplica.Yaml.Token.Stream
import TreeReplica.Yaml.Value
import TreeReplica.Proofs.Remote.Snapshot
import TreeReplica.Proofs.Replica.Harmless
import TreeReplica.Proofs.Program.Agreement
import TreeReplica.Proofs.Disk.Detour
import TreeReplica.Proofs.Disk.Linkless
import TreeReplica.Proofs.Replica.Effect
import TreeReplica.Proofs.Replica.Rough.Repair
import TreeReplica.Proofs.Replica.Rough.Settle
import TreeReplica.Proofs.Remote.Ancestor
import TreeReplica.Proofs.Replica.Commute
import TreeReplica.Proofs.Replica.Provenance
import TreeReplica.Proofs.Remote.Lifecycle
import TreeReplica.Proofs.Replica.Rough.Lost
import TreeReplica.Proofs.Replica.Rough.Lossless
import TreeReplica.Proofs.Replica.Rough.Sweep
import TreeReplica.Proofs.Replica.Rough.Null
import TreeReplica.Proofs.Replica.Rough.Exact
import TreeReplica.Proofs.Replica.Rough.Replay
import TreeReplica.Proofs.Replica.Rough.Strand
import TreeReplica.Proofs.Program.Verdict
import TreeReplica.Proofs.Remote.Teardown
import TreeReplica.Proofs.Disk.Refusal
import TreeReplica.Proofs.Replica.Contract
import TreeReplica.Proofs.Remote.Embedding
import TreeReplica.Proofs.Layout.Faithful
import TreeReplica.Proofs.Disk.Bypass
import TreeReplica.Proofs.Disk.Ways
import TreeReplica.Proofs.Replica.Clearing
import TreeReplica.Proofs.Replica.Start
import TreeReplica.Proofs.Program.Startup
import TreeReplica.Proofs.Remote.Below
import TreeReplica.Proofs.Remote.Traversal
import TreeReplica.Proofs.Remote.Grammar
import TreeReplica.Proofs.Config.Unfit
import TreeReplica.Proofs.Program.Usage
import TreeReplica.Proofs.Replica.Applied
import TreeReplica.Proofs.Replica.Weight
import TreeReplica.Proofs.Replica.Script
import TreeReplica.Proofs.Replica.Going
import TreeReplica.Proofs.Replica.Leaving
import TreeReplica.Proofs.Replica.Steps
