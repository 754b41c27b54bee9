import Stored.Lib.Bytes
import Stored.Lib.Utf8
import Stored.Lib.Run
import Stored.Lib.Mutex
import Stored.Mtab.Scan
import Stored.Mtab.Percent
import Stored.Http.History
import Stored.Http.HeaderLoop
import Stored.Log.Logger
import Stored.Daemon.StopFlag
import Stored.Daemon.Lifetime
import Stored.Daemon.BindPair
import Stored.Daemon.SingleServer
import Stored.Daemon.StopServer
import Stored.Daemon.Deadlock
import Stored.Daemon.Publish
import Stored.Daemon.SharedScan
import Stored.Daemon.PassLog
import Stored.Daemon.Findings
import Stored.Daemon.ConfigFiles
import Stored.Daemon.AcceptLoop
import Stored.Daemon.Descriptors
import Stored.Entries.Supply
import Stored.Json.Edit
import Stored.Json.Accepted
import Stored.Json.Buffered
import Stored.Daemon.Leaks
import Stored.Daemon.Clients
import Stored.Daemon.Shutdown
import Stored.Daemon.Progress
import Stored.Daemon.Awake
