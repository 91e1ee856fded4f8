import Passhrs.Lib.Program
import Passhrs.Lib.Machine
import Passhrs.Lib.Threads
import Passhrs.Lib.Text
import Passhrs.Lib.IpAddr
import Passhrs.Lib.SlashPath
import Passhrs.Lib.PathComponents
import Passhrs.Lib.FileTree
import Passhrs.Lib.TreeCopy
import Passhrs.Lib.Bytes
import Passhrs.Lib.Splice
import Passhrs.Lib.ArgWords
import Passhrs.Lib.Separators
import Passhrs.Lib.SocketAddr
import Passhrs.Lib.Attempts
import Passhrs.Sftp.World
import Passhrs.Sftp.Steps
import Passhrs.Sftp.AtomicWrite
import Passhrs.Sftp.Crash
import Passhrs.Sftp.Stages
import Passhrs.Sftp.Race
import Passhrs.Sftp.Listing
import Passhrs.Sftp.Rsync
import Passhrs.Sftp.Mirror
import Passhrs.Sftp.DryRun
import Passhrs.Sftp.Idempotent
import Passhrs.Sftp.Pull
import Passhrs.Sftp.Push
import Passhrs.Sftp.RoundTrip
import Passhrs.Ssh.HostKey
import Passhrs.Ssh.Channel
import Passhrs.Ssh.ExitCode
import Passhrs.Ssh.ProxyJump
import Passhrs.Ssh.EscapePump
import Passhrs.Ssh.EscapeSequences
import Passhrs.Ssh.EscapeActions
import Passhrs.Control.Frames
import Passhrs.Control.Resume
import Passhrs.Control.Master
import Passhrs.Control.ControlCommand
import Passhrs.Control.Socket
import Passhrs.Control.Shutdown
import Passhrs.Control.Owner
import Passhrs.Config.Include
import Passhrs.Config.Expansion
import Passhrs.Config.Scope
import Passhrs.Run.Cli
import Passhrs.Run.FileSpec
import Passhrs.Run.Exec
import Passhrs.Run.EarlyExit
import Passhrs.Forward.Driver
import Passhrs.Forward.Pump
import Passhrs.Forward.Proxy
import Passhrs.Forward.HttpConnect
import Passhrs.Forward.Socks
import Passhrs.Forward.ProxyTargets
import Passhrs.Forward.AcceptLoop
import Passhrs.Run.PrintConfig
import Passhrs.Run.Destination
import Passhrs.Run.TargetPrecedence
import Passhrs.Run.HostPort
import Passhrs.Forward.ForwardSpecs
import Passhrs.Forward.DynamicSpecs
import Passhrs.Forward.ListenAddress
import Passhrs.Run.Fork
import Passhrs.Ssh.TrustOnFirstUse
import Passhrs.Run.Main
import Passhrs.Run.RsyncRoot
import Passhrs.Run.CmdShell
import Passhrs.Run.Waiting
import Passhrs.Run.Starting
import Passhrs.Run.MasterMode
import Passhrs.Run.ForwardFailure
import Passhrs.Run.Jump
import Passhrs.Run.RemoteForward
import Passhrs.Run.ResumeDecision
import Passhrs.Run.ExclusiveModes
import Passhrs.Ssh.Authenticate
import Passhrs.Ssh.Bind
import Passhrs.Sftp.PushMode
import Passhrs.Sftp.Plan
import Passhrs.Sftp.DeleteExcluded
import Passhrs.Sftp.Links
import Passhrs.Control.CommandFrame
import Passhrs.Lib.JoinedPath
import Passhrs.Sftp.ChildPaths
import Passhrs.Lib.Sweep
import Passhrs.Sftp.Download
import Passhrs.Sftp.DownloadRuns
import Passhrs.Sftp.BothWays
import Passhrs.Sftp.DownloadConfined
import Passhrs.Lib.Monitor
import Passhrs.Run.Protocol
import Passhrs.Lib.Interleave
import Passhrs.Forward.Relay
import Passhrs.Control.EndToEnd
import Passhrs.Lib.Lines
import Passhrs.Lib.Crash
import Passhrs.Config.Closed
import Passhrs.Sftp.WholeFiles
import Passhrs.Sftp.WholeRuns
import Passhrs.Run.Process
import Passhrs.Run.Dealings
import Passhrs.Run.Prepared
import Passhrs.Ssh.EscapeChar
import Passhrs.Lib.Search
import Passhrs.Run.UserError
import Passhrs.Ssh.SessionOutput
import Passhrs.Forward.Clients
import Passhrs.Run.Credentials
