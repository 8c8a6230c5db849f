import HelixOS.AddressSpaceLifecycle
import HelixOS.BootSectors
import HelixOS.ExecveArguments
import HelixOS.FailedCalls
import HelixOS.FatReading
import HelixOS.LoadedContents
import HelixOS.OrphanedFrames
import HelixOS.PageTreeUpdates
import HelixOS.PathResolution
import HelixOS.PipeCreation
import HelixOS.PmmRuns
import HelixOS.PointerAccess
import HelixOS.PollReadiness
import HelixOS.Ps2
import HelixOS.RamfsHandles
import HelixOS.RoundRobin
import HelixOS.SavedRegisters
import HelixOS.SendResults
import HelixOS.SignalBooks
import HelixOS.SocketAddresses
import HelixOS.SplitPages
import HelixOS.TcpAcknowledgements
import HelixOS.TcpBacklogs
import HelixOS.ThreadPointer
import HelixOS.WaitingParents
