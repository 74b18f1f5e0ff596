import Ptu.Spec.Monitor

/-!
# The indices into the array of processes

`pidlist.pv` has room for `maxPids` processes, and nothing that uses it compares an index with that
number. Here are the indices that each step reads or writes.
-/

namespace Ptu

open Unordered

/-- The indices of `print_curr_prov` from index `i` on. -/
def sweepIndices (stat : ProcStat) : ℕ → ℕ → List ℕ → List ℤ
  | 0, _, _ => []
  | n + 1, i, pv =>
    match pv[i]? with
    | none => []
    | some pid =>
      match stat pid with
      | none => (i : ℤ) :: ((pv.length : ℤ) - 1) :: sweepIndices stat n (i + 1) (swapRemove pv i)
      | some _ => (i : ℤ) :: sweepIndices stat n (i + 1) pv

/-- The indices of `while (pidlist.pv[i] != pid && i < pidlist.pc) i++`, with the entries from `i`
on. The entry is read before `i` is compared with `pc`. -/
def searchIndices (pid : ℕ) : ℕ → List ℕ → List ℤ
  | i, [] => [(i : ℤ)]
  | i, entry :: pv => if entry = pid then [(i : ℤ)] else (i : ℤ) :: searchIndices pid (i + 1) pv

/-- The indices of `rm_pid_prov` behind its sweep. -/
def removeIndices (pid : ℕ) (pv : List ℕ) : List ℤ :=
  searchIndices pid 0 pv ++ if pid ∈ pv then [(pv.length : ℤ) - 1] else []

def TracerStep.indices (pv : List ℕ) : TracerStep → List ℤ
  | .write _ => []
  | .append _ => [(pv.length : ℤ)]
  | .sweep stat => sweepIndices stat pv.length 0 pv
  | .rmTest _ _ => []
  | .remove pid => removeIndices pid pv

/-- The indices that a step of the session uses. -/
def Session.indices (s : Session) : SessionStep → List ℤ
  | .take _ => []
  | .proceed =>
    match s.todo with
    | [] => []
    | step :: _ => step.indices s.pv
  | .monitor stat =>
    match s.phase with
    | .sweeping => sweepIndices stat s.pv.length 0 s.pv
    | _ => []

end Ptu
