import Mathlib.Data.Int.Notation
import Mathlib.Data.Nat.Notation
import Mathlib.Logic.Function.Basic

/-!
# Performance timers

`perftimers.c`: timers that are enabled and disabled, started and stopped, and that add up the time between a start
and the next stop. Two words of bit flags say which timers are enabled and which are running.
-/

namespace Ptu

/-- `NSEC_PER_SEC` -/
def nsecPerSec : ℤ := 1000000000

/-- `struct timespec` -/
structure Timespec where
  sec : ℤ
  nsec : ℤ
  deriving DecidableEq, Repr

inductive PerfTimer where
  | auditFileCopying
  deriving DecidableEq, Repr

/-- The bit of a timer, which is its value. -/
def PerfTimer.flag : PerfTimer → BitVec 32
  | .auditFileCopying => 0x01

/-- `NUM_TIMERS` -/
def numTimers : ℕ := 1

inductive TimerStatus where
  | disabled
  | enabled
  deriving DecidableEq, Repr

inductive TimerAction where
  | successTimerEnabled
  | successTimerDisabled
  | successTimerStarted
  | successTimerStopped
  | successTimerTotalReturned
  | errTimerNotEnabled
  | errTimerAlreadyEnabled
  | errTimerAlreadyStarted
  | errTimerRunning
  | errTimerAlreadyStopped
  | errTimerAlreadyDisabled
  | errUnknownError
  deriving DecidableEq, Repr

/-- The variables of the module. -/
structure Timers where
  timersStatus : BitVec 32 := 0
  timersRunning : BitVec 32 := 0
  startTimes : ℕ → Timespec := fun _ => ⟨0, 0⟩
  totalTimes : ℕ → Timespec := fun _ => ⟨0, 0⟩

/-- The loop of `get_index`, over the bits of an `int`. -/
def getIndexLoop : ℕ → BitVec 32 → BitVec 32 → ℕ → ℕ
  | 0, _, _, index => index
  | fuel + 1, flag, bitpos, index =>
    if bitpos &&& flag = 0 then getIndexLoop fuel flag (bitpos <<< 1) (index + 1) else index

/-- `get_index` -/
def getIndex (pt : PerfTimer) : ℕ := getIndexLoop 32 pt.flag 1 0

namespace Timers

variable (st : Timers) (pt : PerfTimer)

/-- `is_enabled` -/
def isEnabled : Bool := st.timersStatus &&& pt.flag != 0

/-- `set_enabled` -/
def setEnabled : Timers := { st with timersStatus := st.timersStatus ||| pt.flag }

/-- `set_disabled` -/
def setDisabled : Timers := { st with timersStatus := st.timersStatus &&& ~~~pt.flag }

/-- `is_started` -/
def isStarted : Bool := st.timersRunning &&& pt.flag != 0

/-- `set_started` -/
def setStarted : Timers := { st with timersRunning := st.timersRunning ||| pt.flag }

/-- `set_stopped` -/
def setStopped : Timers := { st with timersRunning := st.timersRunning &&& ~~~pt.flag }

/-- Store a time into `start_times[get_index(pt)]`. -/
def setStartTime (t : Timespec) : Timers :=
  { st with startTimes := Function.update st.startTimes (getIndex pt) t }

/-- Store a time into `total_times[get_index(pt)]`. -/
def setTotalTime (t : Timespec) : Timers :=
  { st with totalTimes := Function.update st.totalTimes (getIndex pt) t }

end Timers

/-- `sub_ts` -/
def subTs (tsa tsb : Timespec) : Timespec :=
  let sec := tsa.sec - tsb.sec
  let nsec := tsa.nsec - tsb.nsec
  if nsec < 0 then ⟨sec - 1, nsec + nsecPerSec⟩ else ⟨sec, nsec⟩

/-- `add_ts` -/
def addTs (tsa tsb : Timespec) : Timespec :=
  let sec := tsa.sec + tsb.sec
  let nsec := tsa.nsec + tsb.nsec
  if nsec > nsecPerSec then ⟨sec + 1, nsec - nsecPerSec⟩ else ⟨sec, nsec⟩

/-- `set_timer` -/
def setTimer (st : Timers) (pt : PerfTimer) (statReq : TimerStatus) : TimerAction × Timers :=
  if statReq = .enabled ∧ st.isEnabled pt = true then (.errTimerAlreadyEnabled, st)
  else if statReq = .enabled ∧ st.isEnabled pt = false then
    (.successTimerEnabled, (st.setTotalTime pt ⟨0, 0⟩).setEnabled pt)
  else if statReq = .disabled ∧ st.isEnabled pt = true then (.successTimerDisabled, st.setDisabled pt)
  else if statReq = .disabled ∧ st.isEnabled pt = false then (.errTimerAlreadyDisabled, st)
  else (.errUnknownError, st)

/-- `start_timer`, with what `clock_gettime` reads if it is called. -/
def startTimer (st : Timers) (pt : PerfTimer) (now : Timespec) : TimerAction × Timers :=
  if st.isEnabled pt = false then (.errTimerNotEnabled, st)
  else if st.isStarted pt = true then (.errTimerAlreadyStarted, st)
  else (.successTimerStarted, (st.setStartTime pt now).setStarted pt)

/-- `stop_timer`, with what `clock_gettime` reads if it is called. -/
def stopTimer (st : Timers) (pt : PerfTimer) (now : Timespec) : TimerAction × Timers :=
  if st.isEnabled pt = false then (.errTimerNotEnabled, st)
  else if st.isStarted pt = false then (.errTimerAlreadyStopped, st)
  else
    let subtotal := subTs now (st.startTimes (getIndex pt))
    (.successTimerStopped,
      (st.setTotalTime pt (addTs (st.totalTimes (getIndex pt)) subtotal)).setStopped pt)

/-- `get_total_time`: the entry of `total_times` that is converted to a `double`. -/
def getTotalTime (st : Timers) (pt : PerfTimer) : TimerAction × Option Timespec :=
  if st.isEnabled pt = false then (.errTimerNotEnabled, none)
  else if st.isStarted pt = true then (.errTimerRunning, none)
  else (.successTimerTotalReturned, some (st.totalTimes (getIndex pt)))

/-- A call of one of the public functions, with the time at which a timer is started or stopped. -/
inductive TimerCall where
  | setPerfTimer (pt : PerfTimer) (statReq : TimerStatus)
  | startPerfTimer (pt : PerfTimer) (now : Timespec)
  | stopPerfTimer (pt : PerfTimer) (now : Timespec)
  | getTotalPerfTime (pt : PerfTimer)
  deriving DecidableEq, Repr

/-- What a call returns, and the variables after it. -/
def TimerCall.exec (st : Timers) : TimerCall → TimerAction × Timers
  | .setPerfTimer pt statReq => setTimer st pt statReq
  | .startPerfTimer pt now => startTimer st pt now
  | .stopPerfTimer pt now => stopTimer st pt now
  | .getTotalPerfTime pt => ((getTotalTime st pt).1, st)

/-- The variables after some calls. -/
def runTimers (calls : List TimerCall) : Timers := calls.foldl (fun st call => (call.exec st).2) {}

end Ptu
