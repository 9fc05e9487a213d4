import Factory.Delivery.QueueRuns
import Factory.Routing.RelayResets
import Factory.Routing.RelayPeers
import Factory.Routing.DemandDriven
import Factory.Routing.DemandPolls
import Factory.Routing.Directory
import Factory.Hostlink.SubscriptionRegistry
import Factory.Hostlink.SubscriptionProtocol
import Factory.Hostlink.SubscriptionTail
import Factory.Hostlink.PoolGenerations
import Factory.Livetail.FirstViewerTail
import Factory.Livetail.MailboxOrder
import Factory.Placement.SweepInventory
import Factory.Compose.PlacementLinks
import Factory.Clientlink.EngineDemand
import Factory.Clientlink.Channel
import Factory.Admission.FleetRejections
import Factory.Admission.SweepAccounts
import Factory.Admission.CreateRetry
import Factory.Httpapi.GatesRead
import Factory.Reconcile.SweepRows
import Factory.Placement.EnsureDesired
import Factory.Placement.RestoreOrder
import Factory.Placement.AttachTrace
import Factory.Placement.WakeDelivery
import Factory.Compose.Shutdown
import Factory.Compose.DerivedKeys
