import Ptu.Proof.Execve

/-!
# The command of a script

`CDE_begin_execve` takes every file that is no ELF file for a script.

* `script_command_iff`: **a usable command** is found if and only if the file has a `#!` line with
  something in it or, without such a line, a name that ends in `.sh`. Otherwise the tracer goes on with
  NULL, which ends in a crash unless exec mode ignores the path `(null)`.
-/

namespace Ptu

variable {content : List Byte} {path : CString}

/-- The first line of a file, as a C string. -/
def firstLine (content : List Byte) : CString := (content.takeWhile (· != newline)).takeWhile (· != 0)

/-- What `getline` returns for the first line. -/
def lineLength (content : List Byte) : ℕ :=
  (content.takeWhile (· != newline)).length + if content.contains newline then 1 else 0

/-- The file starts with a line `#!`, and `getline` returns more than these two bytes. -/
def HasShebang (content : List Byte) : Prop := 2 < lineLength content ∧ str "#!" <+: firstLine content

/-- There is a command, and it has a first token. -/
def UsableCommand (path : CString) (content : List Byte) : Prop :=
  ∃ command token, getScriptCommand path content = some command ∧ (strtok command blank).head? = some token

/-- Only white space behind `#!` is cut off. -/
theorem strRstrip_shebang (rest : CString) : strRstrip (str "#!" ++ rest) = str "#!" ++ strRstrip rest := by
  obtain ⟨t, hrest, ht⟩ := strRstrip_eq_append rest
  have hcut : strRstrip (str "#!" ++ rest) = strRstrip (str "#!" ++ strRstrip rest) := by
    conv_lhs => rw [hrest, ← List.append_assoc]
    exact strRstrip_append_space ht
  rw [hcut]
  by_cases hnil : strRstrip rest = []
  · rw [hnil]
    decide
  · exact strRstrip_append_of_eq hnil (strRstrip_idem rest) _

theorem shebang_strRstrip_iff {line : CString} : str "#!" <+: strRstrip line ↔ str "#!" <+: line := by
  constructor
  · intro h
    exact h.trans (List.rdropWhile_prefix isspace line)
  · rintro ⟨rest, rfl⟩
    exact ⟨strRstrip rest, (strRstrip_shebang rest).symm⟩

/-- A text has a token in front of its trailing white space if and only if it is not all white space. -/
theorem strtok_strRstrip_iff {rest : CString} :
    (∃ token, (strtok (strRstrip rest) blank).head? = some token) ↔ ∃ c ∈ rest, isspace c = false := by
  obtain ⟨t, hrest, ht⟩ := strRstrip_eq_append rest
  have hblank : isspace blank = true := by decide
  constructor
  · rintro ⟨token, htoken⟩
    obtain ⟨ws, hws⟩ := List.head?_eq_some_iff.1 htoken
    by_contra hall
    push Not at hall
    have hspace : ∀ c ∈ rest, isspace c = true := fun c hc => by simpa using hall c hc
    have hnil : strRstrip rest = [] := strRstrip_append_space (w := []) hspace
    rw [hnil] at hws
    cases hws
  · rintro ⟨c, hc, hspace⟩
    cases htokens : strtok (strRstrip rest) blank with
    | cons token ws => exact ⟨token, rfl⟩
    | nil =>
      rw [hrest] at hc
      rcases List.mem_append.1 hc with hc | hc
      · rw [strtok_eq_nil htokens c hc, hblank] at hspace
        cases hspace
      · rw [ht c hc] at hspace
        cases hspace

/-- The test of `get_script_command`. -/
theorem hasShebang_iff (content : List Byte) :
    (2 < lineLength content && startsWith (strRstrip (firstLine content)) (str "#!")) = true ↔
      HasShebang content := by
  rw [Bool.and_eq_true, decide_eq_true_eq, startsWith_iff, shebang_strRstrip_iff]
  rfl

theorem getScriptCommand_of_hasShebang (h : HasShebang content) (path : CString) :
    getScriptCommand path content = some (strRstrip ((firstLine content).drop 2)) := by
  obtain ⟨rest, hrest⟩ := h.2
  have hcommand : (strRstrip (firstLine content)).drop 2 = strRstrip ((firstLine content).drop 2) := by
    rw [← hrest, strRstrip_shebang]
    rfl
  rw [← hcommand]
  exact if_pos ((hasShebang_iff content).2 h)

theorem getScriptCommand_of_not_hasShebang (h : ¬ HasShebang content) (path : CString) :
    getScriptCommand path content = if endswith path (str ".sh") then some (str "/bin/sh") else none :=
  if_neg fun htest => h ((hasShebang_iff content).1 htest)

/-- **When a command is usable.** -/
theorem usableCommand_iff :
    UsableCommand path content ↔
      (HasShebang content ∧ ∃ c ∈ (firstLine content).drop 2, isspace c = false) ∨
        (¬ HasShebang content ∧ str ".sh" <:+ path) := by
  unfold UsableCommand
  by_cases hshebang : HasShebang content
  · rw [getScriptCommand_of_hasShebang hshebang]
    simp only [Option.some.injEq, exists_and_left, exists_eq_left', hshebang, true_and, not_true_eq_false,
      false_and, or_false]
    exact strtok_strRstrip_iff
  · rw [getScriptCommand_of_not_hasShebang hshebang]
    simp only [hshebang, false_and, not_false_eq_true, true_and, false_or]
    constructor
    · rintro ⟨command, token, hcommand, -⟩
      split_ifs at hcommand with hsh
      exact endswith_iff.1 hsh
    · intro hsh
      exact ⟨str "/bin/sh", str "/bin/sh", if_pos (endswith_iff.2 hsh), by decide⟩

/-- In exec mode the path `(null)`, which is what NULL is taken for, is ignored. -/
def NullIgnored (g : Cde) (st : ExecState) : Prop :=
  g.execMode = true ∧ ∃ pwd e₁ path ignored e₂,
    extractSandboxedPwd g st.tcp.currentDir st.tcp.pIgnores st.e = .ok (pwd, e₁) ∧
    canonicalizePathOrNull none pwd = .ok path ∧ ignorePath g path st.tcp.pIgnores e₁ = .ok (ignored, e₂) ∧
    (ignored = true ∨ (findProcessIgnore g path).isSome = true)

section

variable {env : ExecEnv} {g : Cde} {st st' : ExecState} {o : Option CString}

/-- Without a token there is no interpreter to go on with. -/
theorem scriptInterpreter_null (h : scriptInterpreter g none st = .ok (o, st')) : o = none ∧ NullIgnored g st := by
  unfold scriptInterpreter at h
  cases hex : g.execMode with
  | false =>
    simp only [hex, Bool.not_false, if_true] at h
    cases h
  | true =>
    simp only [hex, Bool.not_true, Bool.false_eq_true, if_false] at h
    obtain ⟨⟨pwd, e₁⟩, hpwd, h⟩ := bind_eq_ok.1 h
    obtain ⟨path, hpath, h⟩ := bind_eq_ok.1 h
    obtain ⟨⟨ignored, e₂⟩, hignored, h⟩ := bind_eq_ok.1 h
    refine ⟨?_, hex, pwd, e₁, path, ignored, e₂, hpwd, hpath, hignored, ?_⟩
    all_goals
      cases ignored with
      | true =>
        obtain ⟨rfl, -⟩ := Prod.mk.inj (Except.ok.inj h)
        simp
      | false =>
        simp only [Bool.false_eq_true, if_false] at h
        cases hpi : findProcessIgnore g path with
        | none => simp only [hpi] at h; cases h
        | some pi =>
          simp only [hpi] at h
          obtain ⟨rfl, -⟩ := Prod.mk.inj (Except.ok.inj h)
          simp

theorem scriptInterpreter_nullIgnored (h : NullIgnored g st) :
    ∃ st', scriptInterpreter g none st = .ok (none, st') := by
  obtain ⟨hex, pwd, e₁, path, ignored, e₂, hpwd, hpath, hignored, hcase⟩ := h
  unfold scriptInterpreter
  simp only [hex, Bool.not_true, Bool.false_eq_true, if_false, hpwd, hpath, hignored, Except.bind, bind]
  cases ignored with
  | true => exact ⟨_, rfl⟩
  | false =>
    obtain ⟨pi, hpi⟩ := Option.isSome_iff_exists.1 (hcase.resolve_left Bool.false_ne_true)
    simp only [hpi]
    exact ⟨_, rfl⟩

/-- A command without a token: the file is left alone or the tracer crashes. -/
theorem identify_no_token {command : CString} {target : Target} (hopen : fopen g path st.e = some content)
    (hmagic : content.take 4 ≠ elfMagic) (hcommand : getScriptCommand path content = some command)
    (htoken : (strtok command blank).head? = none) :
    identify env g path st = .ok (target, st') ↔
      target = .punt ∧ scriptInterpreter g none st = .ok (none, st') := by
  have hid : identify env g path st = .ok (target, st') ↔
      ∃ r, scriptInterpreter g none st = .ok r ∧ r.1 = none ∧ (.punt, r.2) = (target, st') := by
    unfold identify
    simp only [hopen, hmagic, if_false, hcommand, htoken, bind_eq_ok]
    refine exists_congr fun r => and_congr_right fun hr => ?_
    obtain ⟨o, st₁⟩ := r
    obtain rfl := (scriptInterpreter_null hr).1
    simp [pure, Except.pure]
  rw [hid]
  constructor
  · rintro ⟨⟨o, st₁⟩, hr, rfl, heq⟩
    obtain ⟨rfl, rfl⟩ := Prod.mk.inj heq
    exact ⟨rfl, hr⟩
  · rintro ⟨rfl, hr⟩
    exact ⟨_, hr, rfl, rfl⟩

end

/-- **A file that is no ELF file has a usable command** if and only if there is something in its `#!`
line or, without such a line, its name ends in `.sh`. Otherwise the file is left alone if it has the line
and `(null)` is ignored, and the tracer crashes if not. -/
theorem script_command_iff {env : ExecEnv} {g : Cde} {st : ExecState}
    (hopen : fopen g path st.e = some content) (hmagic : content.take 4 ≠ elfMagic) :
    (UsableCommand path content ↔
      (HasShebang content ∧ ∃ c ∈ (firstLine content).drop 2, isspace c = false) ∨
        (¬ HasShebang content ∧ str ".sh" <:+ path)) ∧
    (¬ UsableCommand path content →
      ((∃ st', identify env g path st = .ok (.punt, st')) ↔ HasShebang content ∧ NullIgnored g st) ∧
      (∀ target st', identify env g path st = .ok (target, st') → target = .punt)) := by
  refine ⟨usableCommand_iff, fun hnot => ?_⟩
  by_cases hshebang : HasShebang content
  · have hcommand := getScriptCommand_of_hasShebang hshebang path
    have htoken : (strtok (strRstrip ((firstLine content).drop 2)) blank).head? = none :=
      Option.eq_none_iff_forall_ne_some.2 fun token htoken => hnot ⟨_, token, hcommand, htoken⟩
    refine ⟨?_, fun target st' h => ((identify_no_token hopen hmagic hcommand htoken).1 h).1⟩
    rw [and_iff_right hshebang]
    constructor
    · rintro ⟨st', h⟩
      exact (scriptInterpreter_null ((identify_no_token hopen hmagic hcommand htoken).1 h).2).2
    · intro h
      obtain ⟨st', hnull⟩ := scriptInterpreter_nullIgnored h
      exact ⟨st', (identify_no_token hopen hmagic hcommand htoken).2 ⟨rfl, hnull⟩⟩
  · -- without the line and without `.sh` there is no command, and `strdup` reads from NULL
    have hsh : ¬ str ".sh" <:+ path := fun hsh => hnot (usableCommand_iff.2 (.inr ⟨hshebang, hsh⟩))
    have hcommand : getScriptCommand path content = none := by
      rw [getScriptCommand_of_not_hasShebang hshebang, if_neg fun h => hsh (endswith_iff.1 h)]
    have herror : identify env g path st = .error .segv := by
      unfold identify
      simp only [hopen, if_neg hmagic, hcommand]
      rfl
    simp [herror, hshebang]

theorem script_command_sh : UsableCommand (str "/s.sh") (str "echo hello\n") := by
  let st : ExecState :=
    { execveState 0x7000 with
      e := { fs := Fs.ofList [([], .dir), ([str "s.sh"], .file ⟨str "echo hello\n", 0⟩)] } }
  have hopen : fopen optReplay (str "/s.sh") st.e = some (str "echo hello\n") := rfl
  have hplain : ¬ HasShebang (str "echo hello\n") := fun h => absurd h.2 (by decide)
  obtain ⟨hiff, -⟩ := @script_command_iff _ _ smallEnv _ _ hopen (by decide)
  exact hiff.2 (.inr ⟨hplain, by decide⟩)

/-- **`execve` of a file without a `#!` line**, and of one with an empty `#!` line in either mode. -/
theorem script_command_missing :
    beginExecve smallEnv optReplay .native (packageState 0x7000 (str "hello\n")) = .error .segv ∧
      beginExecve smallEnv optReplay .native (packageState 0x7000 (str "#! \n")) = .error .assertion ∧
      beginExecve smallEnv { execMode := false } .native (hostState (str "#! \n")) = .error .segv := by
  exact ⟨rfl, rfl, rfl⟩

end Ptu
