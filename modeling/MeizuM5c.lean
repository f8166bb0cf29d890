import MeizuM5c.Lib.OrdMap
import MeizuM5c.Lib.Transition
import MeizuM5c.Lib.Greatest
import MeizuM5c.Lib.MachineInt
import MeizuM5c.Lib.Stack
import MeizuM5c.Lib.Loop
import MeizuM5c.Lib.Scan
import MeizuM5c.Lib.Coalesce
import MeizuM5c.Lib.DistinctKeys
import MeizuM5c.Lib.Locks
import MeizuM5c.Lib.Checked
import MeizuM5c.Lib.Block
import MeizuM5c.Lib.Hex
import MeizuM5c.Lib.Tlv
import MeizuM5c.Lib.LastSome
import MeizuM5c.Lib.Recent
import MeizuM5c.Power.Config
import MeizuM5c.Power.Json
import MeizuM5c.Power.ParseConfig
import MeizuM5c.Power.ConfigReads
import MeizuM5c.Power.Engine
import MeizuM5c.Power.EngineRun
import MeizuM5c.Power.ApplyWrites
import MeizuM5c.Power.Floors
import MeizuM5c.Power.Worker
import MeizuM5c.Power.WriteLog
import MeizuM5c.Power.Retry
import MeizuM5c.Power.Capture
import MeizuM5c.Power.Requests
import MeizuM5c.Power.Adpf
import MeizuM5c.Power.AdpfLevel
import MeizuM5c.Power.AdpfState
import MeizuM5c.Power.AdpfExact
import MeizuM5c.Power.Hal
import MeizuM5c.Power.Suppression
import MeizuM5c.Power.OffList
import MeizuM5c.Power.ExtendedHolds
import MeizuM5c.Power.PulseLengths
import MeizuM5c.Power.RequestOrder
import MeizuM5c.Power.PulseWrites
import MeizuM5c.Hwc.Layer
import MeizuM5c.Hwc.Prepare
import MeizuM5c.Hwc.Submit
import MeizuM5c.Hwc.Stacking
import MeizuM5c.Hwc.Fences
import MeizuM5c.Hwc.Promotion
import MeizuM5c.Hwc.Geometry
import MeizuM5c.Ril.CommandTables
import MeizuM5c.Ril.PendingRequests
import MeizuM5c.Ril.PendingLists
import MeizuM5c.Ril.DataCalls
import MeizuM5c.Ril.ChannelQueue
import MeizuM5c.Ril.ChannelMutex
import MeizuM5c.Ril.Mal
import MeizuM5c.Ril.MalAnswers
import MeizuM5c.Region.Rect
import MeizuM5c.Region.Operator
import MeizuM5c.Region.Sweep
import MeizuM5c.Region.Emitted
import MeizuM5c.Region.Rasterizer
import MeizuM5c.Region.Region
import MeizuM5c.Region.Normal
import MeizuM5c.Region.NormalForm
import MeizuM5c.Region.RegionRun
import MeizuM5c.Ril.MalFrame
import MeizuM5c.Ril.MalParse
import MeizuM5c.Ril.MalDispatch
import MeizuM5c.Ril.MalOneAnswer
import MeizuM5c.Ril.MalSim
import MeizuM5c.Ril.OperatorNumeric
import MeizuM5c.Ril.VendorStrings
import MeizuM5c.Ril.CallInfo
import MeizuM5c.Ril.RegistrationState
import MeizuM5c.Ril.SmsHex
import MeizuM5c.Ril.FcpToLegacy
import MeizuM5c.Ril.RequestArguments
import MeizuM5c.Ril.ArgumentsFreed
import MeizuM5c.Ril.ProxyJobs
import MeizuM5c.Ril.ProxyCells
import MeizuM5c.Ril.ProxyQueues
import MeizuM5c.Ril.ThreadChannels
import MeizuM5c.Legacy.Jstring
import MeizuM5c.Legacy.JstringRoundTrip
import MeizuM5c.Legacy.MalformedUtf8
import MeizuM5c.Thermal.Sensors
import MeizuM5c.Thermal.Notifications
import MeizuM5c.Lib.Ring
import MeizuM5c.Ril.Events
import MeizuM5c.Ril.EventRings
import MeizuM5c.Ril.EventWatches
import MeizuM5c.Ril.EventLoop
import MeizuM5c.Ril.EventRuns
import MeizuM5c.Ril.EventCalls
import MeizuM5c.Ril.TimedCallbacks
import MeizuM5c.Ril.CallbackPlaces
import MeizuM5c.Ril.CallbackRuns
import MeizuM5c.Ril.WakeLock
import MeizuM5c.Ril.WakeLockRuns
import MeizuM5c.Ril.WakeLockHeld
import MeizuM5c.Lib.RwLock
import MeizuM5c.Ril.RadioCallbacks
import MeizuM5c.Ril.RadioCallbackRuns
import MeizuM5c.Ril.RadioAnswers
import MeizuM5c.Hwc.Vsync
import MeizuM5c.Hwc.VsyncRuns
