import BehaviorRegistrar.Command.Build
import BehaviorRegistrar.Command.Transform
import BehaviorRegistrar.Decimal.Shortest
import BehaviorRegistrar.Export.Pattern
import BehaviorRegistrar.Export.Registration
import BehaviorRegistrar.FileTree.Disk
import BehaviorRegistrar.FileTree.Walk
import BehaviorRegistrar.HotReload
import BehaviorRegistrar.Json.Fault
import BehaviorRegistrar.Json.Printer
import BehaviorRegistrar.Json.Quote
import BehaviorRegistrar.Json.Reader
import BehaviorRegistrar.Json.Value
import BehaviorRegistrar.Loader
import BehaviorRegistrar.Main
import BehaviorRegistrar.ModuleId
import BehaviorRegistrar.Options.Streamed
import BehaviorRegistrar.Plugin.Behaviors
import BehaviorRegistrar.Plugin.Container
import BehaviorRegistrar.Plugin.Script
import BehaviorRegistrar.Program
import BehaviorRegistrar.Proofs.Build.Independence
import BehaviorRegistrar.Proofs.Build.Outputs
import BehaviorRegistrar.Proofs.Idempotence
import BehaviorRegistrar.Proofs.Plugin.Session
import BehaviorRegistrar.Text.Quoted
import BehaviorRegistrar.Version
import BehaviorRegistrar.Proofs.Build.Nesting
import BehaviorRegistrar.Proofs.Export.LineStyles
import BehaviorRegistrar.Proofs.Arguments
import BehaviorRegistrar.Proofs.Endings
import BehaviorRegistrar.Proofs.Validation
import BehaviorRegistrar.Proofs.Channels
import BehaviorRegistrar.Proofs.Json.ReadBack
import BehaviorRegistrar.Proofs.Utf8
import BehaviorRegistrar.Proofs.Delivery
import BehaviorRegistrar.Proofs.Options.Agreement
import BehaviorRegistrar.Proofs.ModuleNames
import BehaviorRegistrar.Proofs.Build.Discovery
import BehaviorRegistrar.Proofs.Build.Placement
import BehaviorRegistrar.Proofs.Disk.Spellings
import BehaviorRegistrar.Proofs.Build.InPlace
import BehaviorRegistrar.Proofs.Logging
