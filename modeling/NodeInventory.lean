import NodeInventory.Command.Replies
import NodeInventory.Command.Shell.Start
import NodeInventory.Main
import NodeInventory.Proofs.Banner.Damage
import NodeInventory.Proofs.Banner.Layout
import NodeInventory.Proofs.Banner.Marker
import NodeInventory.Proofs.Banner.VersionLine
import NodeInventory.Proofs.Collection.Assembly
import NodeInventory.Proofs.Collection.Independence
import NodeInventory.Proofs.Delivery.Cancellation
import NodeInventory.Proofs.Delivery.Http
import NodeInventory.Proofs.Delivery.NewRecord
import NodeInventory.Proofs.Delivery.Outcome
import NodeInventory.Proofs.Delivery.Timing
import NodeInventory.Proofs.Node.Identity
import NodeInventory.Proofs.Options.Precedence
import NodeInventory.Proofs.Probe.CommandLine
import NodeInventory.Proofs.Probe.Identity
import NodeInventory.Proofs.Registration.Abandonment
import NodeInventory.Proofs.Registration.Accounting
import NodeInventory.Proofs.Registration.Pacing
import NodeInventory.Proofs.Registration.Shutdown
import NodeInventory.Proofs.Report.RoundTrip
import NodeInventory.Proofs.Report.Soundness
import NodeInventory.Proofs.Report.Spelling
import NodeInventory.Proofs.Report.Truncation
import NodeInventory.Proofs.Retry.Backoff
import NodeInventory.Proofs.Retry.NoDelay
import NodeInventory.Proofs.Settings.Policy
import NodeInventory.Proofs.Settings.Url
import NodeInventory.Proofs.Tool.Lookup
import NodeInventory.Registration
import NodeInventory.Report.Reader
import NodeInventory.Transport.Http
