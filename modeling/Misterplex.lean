import Misterplex.Rbsp.Strippers
import Misterplex.Rbsp.NalBitLast
import Misterplex.Cavlc.HostPlacement
import Misterplex.Cavlc.EngineBlock
import Misterplex.Nal.FramerOverflow
import Misterplex.Nal.DispatchParams
import Misterplex.Nal.DispatchRing
import Misterplex.Ring.FlushRun
import Misterplex.Bus.ArbiterRun
import Misterplex.Bus.StatusPulse
import Misterplex.Frame.Kicks
import Misterplex.Header.Reparse
import Misterplex.Audio.AudioRun
import Misterplex.Header.SliceAgreement
import Misterplex.Inter.MotionComp
import Misterplex.Companion.Hold
import Misterplex.Companion.CommandIds
import Misterplex.Plex.TimelineQueue
import Misterplex.Frame.DdrLayout
import Misterplex.Dma.CopyPrograms
import Misterplex.Intra.NbAgreement
import Misterplex.Intra.PredictorsAgree
import Misterplex.Intra.PredModes
import Misterplex.Companion.HttpRequest
import Misterplex.Playback.LastCommand
import Misterplex.Present.Freeze
import Misterplex.Sdram.Displayed
import Misterplex.Stream.HeaderParses
import Misterplex.Present.KickOrder
import Misterplex.Log.Redact
import Misterplex.Playback.SeekOnce
import Misterplex.Plex.UniversalExtract
import Misterplex.Playback.RestartRun
import Misterplex.Nal.Framed
import Misterplex.Inter.StubProgress
import Misterplex.Npx.Exact
import Misterplex.Baseline.SliceExact
import Misterplex.Plex.CurlCommand
import Misterplex.Plex.ServerList
import Misterplex.Companion.TimelineCarried
import Misterplex.Present.GeomLatch
import Misterplex.Present.Cadence
import Misterplex.Present.ContentWindow
import Misterplex.Recon.Deblock
import Misterplex.Present.BeamContentDe
