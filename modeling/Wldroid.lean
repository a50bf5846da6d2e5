import Wldroid.Foundation.BlockList
import Wldroid.Foundation.Keyed
import Wldroid.Foundation.SwapRemove
import Wldroid.Foundation.BoundedMap
import Wldroid.Foundation.CTypes
import Wldroid.Foundation.Circular
import Wldroid.Foundation.Clamp
import Wldroid.Foundation.FileTree
import Wldroid.Foundation.ClearPaths
import Wldroid.Foundation.Descriptors
import Wldroid.Foundation.Transition
import Wldroid.Foundation.FifoRpc
import Wldroid.Foundation.Handover
import Wldroid.Foundation.Holds
import Wldroid.Foundation.Utf8
import Wldroid.Foundation.JavaStrings
import Wldroid.Foundation.Ledger
import Wldroid.Foundation.Lifetimes
import Wldroid.Foundation.LinkedQueue
import Wldroid.Foundation.Loans
import Wldroid.Foundation.LockedRpc
import Wldroid.Foundation.Loops
import Wldroid.Foundation.Memory
import Wldroid.Foundation.Pages
import Wldroid.Foundation.Pipe
import Wldroid.Foundation.Runs
import Wldroid.Foundation.Scanning
import Wldroid.Foundation.ShortReads
import Wldroid.Foundation.Signals
import Wldroid.Foundation.Tokens
import Wldroid.Foundation.Words
import Wldroid.DrmShim.BoTable
import Wldroid.DrmShim.BoGrowth
import Wldroid.DrmShim.InodeCache
import Wldroid.DrmShim.Resources
import Wldroid.DrmShim.EntryPoints
import Wldroid.DrmShim.Vtest
import Wldroid.DrmShim.ExecbufferFrame
import Wldroid.DrmShim.FdTable
import Wldroid.DrmShim.ResourceLife
import Wldroid.DrmShim.GemMappings
import Wldroid.DrmShim.FailedResources
import Wldroid.DrmShim.MmapOffsets
import Wldroid.DrmShim.PrimeImport
import Wldroid.DrmShim.PrimeRoundTrip
import Wldroid.DrmShim.VtestSync
import Wldroid.Input.Ring
import Wldroid.Compositor.PointerFocus
import Wldroid.Input.PointerPath
import Wldroid.Ime.DeleteBytes
import Wldroid.Ime.Queue
import Wldroid.Ime.State
import Wldroid.Ime.CommitText
import Wldroid.Ime.Focus
import Wldroid.Ime.Compose
import Wldroid.Ime.DeleteCounts
import Wldroid.Ime.FocusFields
import Wldroid.Ime.Serials
import Wldroid.Ime.SyntheticKeys
import Wldroid.Ime.SyntheticTyping
import Wldroid.Ime.Visibility
import Wldroid.Compositor.AhbRegistry
import Wldroid.Compositor.AhbReceiver
import Wldroid.Compositor.AndroidOutput
import Wldroid.Compositor.CpuCopy
import Wldroid.Compositor.Server
import Wldroid.Compositor.MappedFocus
import Wldroid.Compositor.FocusAgreement
import Wldroid.Compositor.OutputSize
import Wldroid.Compositor.PauseResume
import Wldroid.Compositor.RenderingOnly
import Wldroid.Compositor.SessionRestart
import Wldroid.Compositor.Teardown
import Wldroid.Compositor.TrackedWindows
import Wldroid.Compositor.UnmapHandover
import Wldroid.Compositor.XwaylandViews
import Wldroid.Egl.ShmWindows
import Wldroid.Egl.WindowTable
import Wldroid.Egl.SurfaceIdentity
import Wldroid.Egl.Listeners
import Wldroid.Egl.BufferRequests
import Wldroid.Egl.BufferHolds
import Wldroid.Egl.ChooseConfig
import Wldroid.Egl.DoubleBuffering
import Wldroid.Egl.FailedResize
import Wldroid.Egl.QueryString
import Wldroid.Egl.ShmLayout
import Wldroid.Proot.GroupRegex
import Wldroid.Proot.ConfigureRootfs
import Wldroid.Proot.Accounts
import Wldroid.Proot.RootfsExtractor
import Wldroid.Proot.ArchivedTree
import Wldroid.Proot.Environments
import Wldroid.Proot.BuildStages
import Wldroid.Proot.Containment
import Wldroid.Proot.CrashRecovery
import Wldroid.Proot.CreationJobs
import Wldroid.Proot.FailedCreation
import Wldroid.Proot.RootfsDownloader
import Wldroid.Proot.StoreIds
import Wldroid.Proot.UnpackedTree
import Wldroid.Proot.SurvivingLinks
import Wldroid.Launcher.DesktopLauncher
import Wldroid.Launcher.ClientDrain
import Wldroid.Launcher.Relaunch
import Wldroid.Launcher.WldroidService
import Wldroid.Virgl.VirglServerManager
import Wldroid.Virgl.VirglSession
import Wldroid.Ui.CompositorSurface
import Wldroid.Ui.ViewportTransform
import Wldroid.Ui.HostGesture
import Wldroid.Ui.KeyboardFocusTapTracker
import Wldroid.Ui.PointerButtons
import Wldroid.Ui.TouchStreams
import Wldroid.Shims.CrashHandler
import Wldroid.Shims.GbmBuffers
import Wldroid.Shims.Netstub
import Wldroid.Shims.InterfaceList
import Wldroid.Compositor.TextPath
