import KistCollector.Common.Counters
import KistCollector.Common.InFlight
import KistCollector.Common.Reuse
import KistCollector.Common.QueueThreads
import KistCollector.Common.WireGaps
import KistCollector.Common.Crash
import KistCollector.Realsense.CameraStop
import KistCollector.Export.ReadBack
import KistCollector.Export.TornIndex
import KistCollector.Export.SameFrames
import KistCollector.Export.PacketBuffer
import KistCollector.Export.FrameSizes
import KistCollector.Export.Camera
import KistCollector.Export.Workers
import KistCollector.System.SessionHistory
import KistCollector.Rows.Streams
import KistCollector.System.Teardown
import KistCollector.System.Process
import KistCollector.System.LiveStop
import KistCollector.Tools.ExportSessionRuns
