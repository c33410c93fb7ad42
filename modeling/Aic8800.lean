import Aic8800.Reorder.Duplicates
import Aic8800.Reorder.Timers
import Aic8800.Cmd.Buffers
import Aic8800.Cmd.Accounting
import Aic8800.Cmd.Slots
import Aic8800.TcpAck.HeldTimer
import Aic8800.TcpAck.Classify
import Aic8800.TcpAck.Cumulative
import Aic8800.TcpAck.SlotTable
import Aic8800.Package.Verify
import Aic8800.Package.Build
import Aic8800.Package.Agreement
import Aic8800.Package.InstallState
import Aic8800.Tx.ConfirmRing
import Aic8800.Usb.RxThread
import Aic8800.Lib.Ledger
import Aic8800.Usb.Buffers
import Aic8800.Lib.Periodic
import Aic8800.Radar.Detector
import Aic8800.Radar.Soundness
import Aic8800.Reorder.Frames
import Aic8800.Reorder.Removal
import Aic8800.Reorder.Alone
import Aic8800.Sched.Queues
import Aic8800.Sched.Scheduling
import Aic8800.Sched.PowerSave
import Aic8800.Loader.Commands
import Aic8800.Loader.Lifetime
import Aic8800.Loader.Download
import Aic8800.Loader.FailStop
import Aic8800.Cfg.ChannelSwitch
import Aic8800.Cfg.Channels
import Aic8800.Cfg.Connect
import Aic8800.Cfg.Roc
import Aic8800.Cfg.Scan
import Aic8800.Cfg.Stations
import Aic8800.Cmd.ScanuReq
import Aic8800.Lib.Loop
import Aic8800.Lib.Recent
import Aic8800.Radar.Cac
import Aic8800.Radar.PulseRing
import Aic8800.Rx.Amsdu
import Aic8800.Rx.Defrag
import Aic8800.Rx.Radiotap
import Aic8800.TcpAck.Options
import Aic8800.Usb.FlowControl
import Aic8800.Lib.Buckets
import Aic8800.Lib.Rings
import Aic8800.Radar.PulseQueue
import Aic8800.Sched.Retries
import Aic8800.Usb.Aggregate
import Aic8800.Usb.FrameQueue
import Aic8800.Lib.Runs
import Aic8800.Lib.Traced
import Aic8800.Package.ElfSections
import Aic8800.Package.Publish
import Aic8800.Package.Replay
import Aic8800.Package.Soundness
import Aic8800.Priv.Commands
import Aic8800.Priv.Ioctl
import Aic8800.TcpAck.Custody
import Aic8800.TcpAck.Ownership
import Aic8800.Lib.Cells
import Aic8800.Cfg.DeferredWork
import Aic8800.Cmd.Indications
import Aic8800.Loader.PatchTable
import Aic8800.Loader.RxFrames
import Aic8800.Plat.UserConfig
import Aic8800.PowerLimit.Lookups
import Aic8800.Priv.Arguments
import Aic8800.Rx.DhcpSnoop
import Aic8800.Rx.Headers
import Aic8800.Usb.TxFrames
import Aic8800.Wext.ResultList
import Aic8800.Wext.ScanElements
import Aic8800.Plat.Md5
import Aic8800.Mu.Runs
import Aic8800.Tx.Select
import Aic8800.Plat.Settings
