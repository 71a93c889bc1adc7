import Viiper.Ports.FixedReportFence
import Viiper.Ports.FeedbackLaws
import Viiper.Ports.FeedbackRelease
import Viiper.Ports.EndpointCadence
import Viiper.Ports.MicrophoneConservation
import Viiper.Ports.MetadataReliable
import Viiper.Ports.IsoInResponses
import Viiper.Ports.RetainedTickets
import Viiper.Ports.RetainedLanes
import Viiper.Ports.RetainedLifecycle
import Viiper.Ports.ImportResets
import Viiper.Ports.VirtualBusRuns
import Viiper.Ports.DualSenseCounters
import Viiper.Ports.DeviceStreamFinalize
import Viiper.Ports.BusTable
import Viiper.Ports.FixedReportClaims
import Viiper.Ports.RetainedReader
import Viiper.Ports.FeedbackWire
import Viiper.Ports.DualShock4
import Viiper.Ports.ByteStreams
import Viiper.Ports.MouseInput
