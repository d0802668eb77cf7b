import HyperDht.Lib.JsMap
import HyperDht.Lib.RoundRobin
import HyperDht.Private.Logical
import HyperDht.Private.Counters
import HyperDht.Private.OrderedDelivery
import HyperDht.Private.CellCodec
import HyperDht.Private.Link
import HyperDht.Private.CreditPool
import HyperDht.Private.PoolConservation
import HyperDht.Private.Entry
import HyperDht.Private.EntryFlow
import HyperDht.Private.EntryCredit
import HyperDht.Private.RouteStream
import HyperDht.Private.Destination
import HyperDht.Private.DestFlow
import HyperDht.Private.DestCredit
import HyperDht.Private.DestReceive
import HyperDht.Private.DestRun
import HyperDht.Private.StreamCredit
import HyperDht.Private.Source
import HyperDht.Private.SourceFlow
import HyperDht.Private.LegBalance
import HyperDht.Private.LegTurns
import HyperDht.Private.EntryLegs
import HyperDht.Private.ReplayWindow
import HyperDht.Private.LedgerRun
import HyperDht.Private.MemoryRun
import HyperDht.Private.ActiveStreams
import HyperDht.Private.LinkLedger
import HyperDht.Private.SharedFunding
import HyperDht.Private.SharedRoute
import HyperDht.Private.SchedulerRun
import HyperDht.Private.RelayRegistries
import HyperDht.Private.CellAgreement
import HyperDht.Private.ControlSessions
import HyperDht.Private.DescriptorPut
import HyperDht.Private.Presence
import HyperDht.Dht.RandomPunch
import HyperDht.Dht.PoolAgreement
import HyperDht.Dht.MessageSites
import HyperDht.Lib.Runs
import HyperDht.Private.SpliceAccounts
import HyperDht.Private.RouteLiveness
import HyperDht.Private.LookupPeriods
import HyperDht.Private.DescriptorRun
import HyperDht.Private.PoolFairness
import HyperDht.Private.SendRotation
import HyperDht.Private.Narrowing
import HyperDht.Private.BranchRun
import HyperDht.Private.ReceiveFifo
import HyperDht.Private.InputRun
import HyperDht.Lib.Tally
import HyperDht.Dht.NatSamples
import HyperDht.Dht.NatVerdict
import HyperDht.Private.GapTimer
import HyperDht.Private.LogicalBytes
import HyperDht.Dht.Mutables
import HyperDht.Dht.Announcements
import HyperDht.Dht.Unannounced
import HyperDht.Dht.RefreshChain
import HyperDht.Dht.HolepunchIds
import HyperDht.Dht.HolepunchRun
import HyperDht.Private.ObjectEnvelopes
import HyperDht.Private.PresenceRecord
import HyperDht.Private.PresenceSealing
import HyperDht.Private.OpenOrder
import HyperDht.Private.OpenTurns
import HyperDht.Private.OpenRun
import HyperDht.Dht.RawStreamSet
import HyperDht.Lib.Double
import HyperDht.Private.RouteBudget
import HyperDht.Lib.BottomK
import HyperDht.Private.PeerSamples
import HyperDht.Lib.AddressText
import HyperDht.Private.RelayDiversity
import HyperDht.Private.SourceRoute
import HyperDht.Private.RoutePhases
import HyperDht.Private.GuardMoves
import HyperDht.Private.GuardStability
import HyperDht.Private.GuardStates
import HyperDht.Private.RouteNetwork
import HyperDht.Private.RouteFacts
import HyperDht.Private.RouteHandlers
import HyperDht.Private.RouteObservers
import HyperDht.Private.EntryTurns
import HyperDht.Lib.CreditWindows
import HyperDht.Private.LegTraffic
import HyperDht.Private.TrunkFlow
import HyperDht.Private.TrunkEnds
import HyperDht.Private.CreditRun
import HyperDht.Private.DataAdmission
import HyperDht.Private.FlowBalance
