import Camview.DisplayTokens
import Camview.DisplayBuffers
import Camview.Fifo
import Camview.DisplayFifo
import Camview.DisplayShutdown
import Camview.Tiling
import Camview.Ve
import Camview.VeInvariant
import Camview.PlaneLayout
import Camview.Reader
import Camview.Jpeg
import Camview.JpegStream
import Camview.JpegRoundTrip
import Camview.JpegReads
import Camview.Decode
import Camview.DecodeSession
import Camview.Cec
import Camview.CecQueue
import Camview.CecSessions
import Camview.Ledger
import Camview.Release
import Camview.MainLoop
import Camview.Teardown
import Camview.DisplaySessions
import Camview.Json
import Camview.Params
import Camview.ControlFile
import Camview.ControlRoundTrip
import Camview.ControlLoop
import Camview.ControlUpdates
import Camview.ControlSaves
import Camview.TeardownExact
import Camview.VeBestFit
import Camview.VeTranslate
import Camview.VeReopen
import Camview.JpegGrammar
import Camview.Canonical
import Camview.HuffmanWrites
import Camview.JpegTables
import Camview.TableSelection
import Camview.Divisions
import Camview.InputBuffer
import Camview.HuffmanTables
import Camview.RoundAway
import Camview.ApplyValue
import Camview.CecScaling
import Camview.LayoutAlignment
import Camview.ScanOut
import Camview.JpegTermination
import Camview.ControlResources
import Camview.ControlLayout
import Camview.ControlShapes
import Camview.ControlFrame
import Camview.CaptureBuffers
import Camview.OutputPlanes
import Camview.ColorFormat
import Camview.Engine
import Camview.EngineStream
import Camview.VideoDevice
import Camview.SessionEnd
import Camview.VeCanonical
import Camview.Accounts
import Camview.VeSessions
import Camview.ControlSchedule
import Camview.CecReceive
import Camview.Pipeline
import Camview.Framebuffers
import Camview.ControlRestart
import Camview.StartDrm
