import Ptu.Lib.Walk
import Ptu.Proof.Path
import Ptu.Proof.Canonical
import Ptu.Proof.Redirect
import Ptu.Proof.Twice
import Ptu.Proof.Cache
import Ptu.Proof.Chdir
import Ptu.Proof.Resolve
import Ptu.Proof.Okapi
import Ptu.Proof.Copies
import Ptu.Proof.Execve
import Ptu.Proof.Prov
import Ptu.Proof.PidList
import Ptu.Proof.Monitor
import Ptu.Proof.ProvLog
import Ptu.Proof.Unlink
import Ptu.Proof.Tcb
import Ptu.Proof.Notebook
import Ptu.Proof.Checkpoint
import Ptu.Proof.CommandLine
import Ptu.Proof.Options
import Ptu.Proof.Environ
import Ptu.Proof.Symlink
import Ptu.Proof.Munge
import Ptu.Proof.Socket
import Ptu.Proof.Spoof
import Ptu.Proof.Termination
import Ptu.Proof.AtCalls
import Ptu.Proof.Repos
import Ptu.Proof.NewArgv
import Ptu.Proof.ScriptCommand
import Ptu.Proof.Sweep
import Ptu.Proof.PidArray
import Ptu.Proof.FdTable
import Ptu.Proof.ArgBuffer
import Ptu.Proof.ShellQuote
import Ptu.Proof.EnvironScan
import Ptu.Proof.Rollback
import Ptu.Proof.PseudoRoot
import Ptu.Proof.ConvenienceScript
import Ptu.Proof.RuleOrder
import Ptu.Proof.TrieSet
import Ptu.Proof.RelativePrefix
import Ptu.Proof.Getline
import Ptu.Proof.PathStack
import Ptu.Proof.PerfTimers
import Ptu.Proof.TraceKin
import Ptu.Proof.TraceOrder
import Ptu.Proof.TraceCleanup
import Ptu.Proof.TraceTable
import Ptu.Proof.Linker
