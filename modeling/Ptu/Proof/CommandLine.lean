import Ptu.Proof.Redirect
import Ptu.Proof.Strcat
import Ptu.Spec.CommandLine

/-!
# Reading the recorded command back

`malloc_quoted_arg_str` keeps every argument but the empty one, which it leaves out
(`run_mallocQuotedArgStr`); the `'%s'` of the `cd` line and of the scripts keeps what has no
single quote (`Shell.quotedFields_iff`). With the assertion on the depth of the starting
directory these are all the commands that cannot be run again, `recorded_iff`.
-/

namespace Ptu

open Shell (literal)

/-! ## Quoted arguments -/

/-- The bytes that mean nothing to the shell. -/
def Plain (s : CString) : Prop := ∀ c ∈ s, shellKind c = .plain ∨ shellKind c = .atSign

theorem plain_of_all {s : CString}
    (h : s.all (fun c => shellKind c == .plain || shellKind c == .atSign) = true) : Plain s := by
  intro c hc
  have hkind := List.all_eq_true.1 h c hc
  simpa using hkind

theorem Plain.append {s t : CString} (hs : Plain s) (ht : Plain t) : Plain (s ++ t) := by
  intro c hc
  rcases List.mem_append.1 hc with hc | hc
  · exact hs c hc
  · exact ht c hc

theorem plain_safechars : Plain safechars := plain_of_all (by decide +kernel)

theorem shellKind_single {c : Byte} : shellKind c = .single ↔ c = squote := by
  constructor
  · intro h
    by_contra hc
    -- no other branch gives this kind
    have hite : ∀ {q : Prop} [Decidable q] {x y : Shell.Kind}, x ≠ .single → y ≠ .single →
        (if q then x else y) ≠ .single := by
      intro q _ x y hx hy
      split
      · exact hx
      · exact hy
    refine absurd h ?_
    rw [shellKind, if_neg hc]
    repeat' refine hite ?_ ?_
    all_goals decide
  · rintro rfl
    decide

/-- The replaced single quotes leave the shell in single quotes again. -/
theorem run_replaced : ∀ (a : CString) (s : Shell.State Byte) (ps : Shell.Word Byte),
    Shell.run shellKind (s.push .single ps)
      (a.flatMap fun c => if c = squote then str "'\"'\"'" else [c]) =
      some (s.push .single (ps ++ literal a))
  | [], s, ps => by simp [Shell.run, literal]
  | c :: a, s, ps => by
    have hfirst : Shell.run shellKind (s.push .single ps)
        (if c = squote then str "'\"'\"'" else [c]) = some (s.push .single (ps ++ [.lit c])) := by
      split_ifs with hc
      · subst hc
        simp [Shell.run, str, Shell.step, Shell.State.push, Shell.stepUnquoted, Shell.stepDouble,
          show shellKind 39 = .single by decide, show shellKind 34 = .double by decide]
      · have hkind : shellKind c ≠ .single := fun h => hc (shellKind_single.1 h)
        exact Shell.run_single (t := [c]) (by simpa using hkind)
    rw [List.flatMap_cons, Shell.run_append, hfirst, Option.bind_some, run_replaced a s,
      List.append_assoc]
    rfl

/-- The shell reads a quoted argument as it was, unless it was empty. -/
theorem run_mallocQuotedArgStr (a : CString) {s : Shell.State Byte} (hmode : s.mode = .unquoted) :
    Shell.run shellKind s (mallocQuotedArgStr a) =
      some (if a = [] then s else s.push .unquoted (literal a)) := by
  unfold mallocQuotedArgStr
  split_ifs with hsafe ha ha
  · rw [ha]
    rfl
  · refine Shell.run_plain ?_ hmode ha
    intro c hc
    exact plain_safechars c (by simpa using List.all_eq_true.1 hsafe c hc)
  · exact absurd (by rw [ha]; rfl) hsafe
  · have hopen : Shell.step shellKind s squote = some (s.push .single []) := by
      simp only [Shell.step, hmode, Shell.stepUnquoted, shellKind_single.2]
    have hclose : Shell.step shellKind (s.push .single (literal a)) squote =
        some (s.push .unquoted (literal a)) := by
      simp [Shell.step, Shell.State.push, shellKind_single.2]
    rw [List.cons_append, Shell.run_cons, hopen, Option.bind_some, Shell.run_append,
      run_replaced a s, Option.bind_some, List.nil_append, Shell.run_cons, hclose]
    rfl

/-! ## The three kinds of lines -/

/-- Each argument that is not empty is a word of its own. -/
theorem run_args : ∀ (args : List CString) {s : Shell.State Byte}, s.mode = .unquoted →
    ∃ s', Shell.run shellKind s (args.flatMap fun arg => str " " ++ mallocQuotedArgStr arg) = some s' ∧
      s'.mode = .unquoted ∧ s'.words = s.words ++ (args.filter (· ≠ [])).map literal
  | [], s, hmode => ⟨s, rfl, hmode, by simp⟩
  | arg :: args, s, hmode => by
    have hblank : Shell.run shellKind s (str " " ++ mallocQuotedArgStr arg) =
        some (if arg = [] then s.close .unquoted
          else (s.close .unquoted).push .unquoted (literal arg)) := by
      rw [← run_mallocQuotedArgStr arg (s := s.close .unquoted) rfl]
      exact Shell.run_blank (by decide) hmode _
    rw [List.flatMap_cons, Shell.run_append, hblank, Option.bind_some]
    split_ifs with harg
    · obtain ⟨s', hrun, hmode', hwords⟩ := run_args args (s := s.close .unquoted) rfl
      refine ⟨s', hrun, hmode', ?_⟩
      rw [hwords, Shell.State.close_words, List.filter_cons_of_neg (by simpa using harg)]
    · obtain ⟨s', hrun, hmode', hwords⟩ :=
        run_args args (s := (s.close .unquoted).push .unquoted (literal arg)) rfl
      refine ⟨s', hrun, hmode', ?_⟩
      rw [hwords, Shell.State.close_push_words, List.filter_cons_of_pos (by simpa using harg),
        List.append_assoc]
      rfl

/-- `./<basename>.cde` is one word, whatever the name. -/
theorem run_command (name : CString) :
    Shell.run shellKind .start (str "./" ++ mallocQuotedArgStr name ++ str ".cde") =
      some (Shell.State.start.push .unquoted (literal (str "./" ++ name ++ str ".cde"))) := by
  have hdot : Plain (str "./") := plain_of_all (by decide +kernel)
  have hcde : Plain (str ".cde") := plain_of_all (by decide +kernel)
  have hname : Shell.run shellKind (Shell.State.start.push .unquoted (literal (str "./")))
      (mallocQuotedArgStr name) =
      some (Shell.State.start.push .unquoted (literal (str "./" ++ name))) := by
    rw [run_mallocQuotedArgStr name rfl]
    split_ifs with h
    · rw [h, List.append_nil]
    · rw [Shell.State.push_push, Shell.literal_append]
  rw [Shell.run_append, Shell.run_append, Shell.run_plain hdot rfl (by decide), Option.bind_some,
    hname, Option.bind_some, Shell.run_plain hcde rfl (by decide), Shell.State.push_push,
    ← Shell.literal_append]

/-- The words of the line in `cde.log`: the empty arguments are lost. -/
theorem shellWords_logLine (c : CommandLine) : shellWords c.logLine =
    some (literal (str "./" ++ basename c.program ++ str ".cde") ::
      (c.args.filter (· ≠ [])).map literal) := by
  obtain ⟨s, hrun, hmode, hwords⟩ := run_args c.args (s := Shell.State.start.push .unquoted
    (literal (str "./" ++ basename c.program ++ str ".cde"))) rfl
  refine (Shell.split_newline (n := newline) (by decide)).2 ⟨s, ?_, hmode, hwords⟩
  rw [Shell.run_append, run_command, Option.bind_some, hrun]

theorem logLine_iff (c : CommandLine) : shellWords c.logLine =
    some (literal (str "./" ++ basename c.program ++ str ".cde") :: c.args.map literal) ↔
      ∀ arg ∈ c.args, arg ≠ [] := by
  rw [shellWords_logLine, Option.some.injEq, List.cons.injEq, eq_self, true_and,
    (List.map_injective_iff.2 Shell.literal_injective).eq_iff, List.filter_eq_self]
  simp

theorem noSingle_iff {items : List CString} :
    (∀ t ∈ items, ∀ c ∈ t, shellKind c ≠ .single) ↔ ∀ t ∈ items, squote ∉ t := by
  simp only [ne_eq, shellKind_single]
  exact forall₂_congr fun t _ => ⟨fun h hmem => h _ hmem rfl, fun h c hc heq => h (heq ▸ hc)⟩

theorem cdLine_iff (rootName startingPwd : CString) : shellWords (cdLine rootName startingPwd) =
    some [literal (str "cd"), literal (rootName ++ startingPwd)] ↔ squote ∉ rootName ++ startingPwd := by
  have hcd : Plain (str "cd") := plain_of_all (by decide +kernel)
  have hline : cdLine rootName startingPwd =
      str "cd" ++ Shell.quotedFields blank squote [rootName ++ startingPwd] ++ [newline] := by
    simp [cdLine, Shell.quotedFields, str]
  rw [shellWords, hline, Shell.split_newline (by decide)]
  have hfields := Shell.quotedFields_iff (b := blank) (q := squote) (by decide) (by decide) hcd
    (by decide) [rootName ++ startingPwd]
  rw [noSingle_iff] at hfields
  simpa using hfields

theorem scriptLine_iff (c : CommandLine) {cdeExec : CString} (hplain : Plain cdeExec)
    (hne : cdeExec ≠ []) : shellWords (c.scriptLine cdeExec) =
      some (literal cdeExec :: (c.options ++ [c.program]).map literal ++ [[.args]]) ↔
      ∀ t ∈ c.options ++ [c.program], squote ∉ t := by
  have hline : c.scriptLine cdeExec = cdeExec ++
      Shell.quotedFields blank squote (c.options ++ [c.program]) ++
        [blank, dquote, 36, 64, dquote, newline] := by
    simp [CommandLine.scriptLine, Shell.quotedFields, str]
  rw [shellWords, hline, Shell.split_args (by decide) (by decide) (by decide) (by decide) (by decide),
    Shell.quotedFields_iff (by decide) (by decide) hplain hne, noSingle_iff]

/-! ## The scripts -/

section Scripts

variable {g : Cde} {packageDir : CString} {c : CommandLine} {e e' : Effects} {scripts : List Script}

/-- Where the script beside the program goes, `none` if that path is ignored. -/
def scriptTarget (g : Cde) (c : CommandLine) (e : Effects) : Option CString :=
  (redirectFilenameIntoCderoot g c.scriptName g.startingPwd none e).toOption.bind Prod.fst

/-- At least one script is written. -/
def WritesScript (g : Cde) (c : CommandLine) (e : Effects) : Prop :=
  g.noAppCapture = false ∧ ((scriptTarget g c e).isSome = true ∨ slash ∉ c.program)

/-- The script runs the command `c` by a plain path of cde-exec. -/
structure Script.Runs (script : Script) (c : CommandLine) : Prop where
  plain : Plain script.cdeExec
  ne_nil : script.cdeExec ≠ []
  command : script.command = c.scriptLine script.cdeExec

theorem plain_dotDots (depth : ℕ) : Plain (dotDots depth) := by
  intro ch hch
  rw [dotDots, List.mem_append] at hch
  rcases hch with hch | hch
  · exact plain_of_all (by decide +kernel) ch hch
  · obtain ⟨t, ht, hmem⟩ := List.mem_flatten.1 hch
    rw [List.eq_of_mem_replicate ht] at hmem
    exact plain_of_all (by decide +kernel) ch hmem

theorem length_dotDots (depth : ℕ) : (dotDots depth).length = 2 + 3 * depth := by
  have htwo : (str "..").length = 2 := rfl
  have hthree : (str "/..").length = 3 := rfl
  rw [dotDots, List.length_append, List.length_flatten, List.map_replicate, List.sum_replicate_nat, htwo, hthree]
  omega

/-- The buffer holds what it is to hold, if that fits. -/
theorem dotDotsBuffer_eq_ok {depth : ℕ} {x : CString} :
    dotDotsBuffer depth = .ok x ↔ x = dotDots depth ∧ 2 + 3 * depth < maxPathLen := by
  have hfirst : strcat [] (str "..") = .ok (str "..") := strcat_eq_ok.2 ⟨rfl, by decide⟩
  have hloop : dotDotsBuffer depth = .ok x ↔ x = dotDots depth ∧ x.length < maxPathLen := by
    unfold dotDotsBuffer
    rw [hfirst]
    exact strcat_repeat (str "/..") (by decide) depth
  rw [hloop]
  refine and_congr_right fun hx => ?_
  rw [hx, length_dotDots]

/-- The depth of a directory in which a script can be written. -/
def ScriptDepth (pwd : CString) : Prop :=
  components pwd ≠ [] ∧ 2 + 3 * (components pwd).length < maxPathLen

instance (pwd : CString) : Decidable (ScriptDepth pwd) := inferInstanceAs (Decidable (_ ∧ _))

theorem scriptInRoot_ok {progname : Option CString} (h : scriptInRoot g c progname = .ok scripts) :
    (∀ script ∈ scripts, script.Runs c) ∧ (scripts ≠ [] ↔ progname.isSome = true) ∧
      (progname = none ∨ ScriptDepth g.startingPwd) := by
  cases progname with
  | none =>
    have hscripts : [] = scripts := Except.ok.inj h
    subst hscripts
    simp
  | some filename =>
    simp only [scriptInRoot, ite_throw_eq_ok, bind_eq_ok] at h
    obtain ⟨p, hp, hdepth, dots, hdots, h⟩ := h
    obtain ⟨rfl, hfits⟩ := dotDotsBuffer_eq_ok.1 hdots
    have hscripts := Except.ok.inj h
    rw [newPathFromAbspath] at hp
    split_ifs at hp
    have hpath := Except.ok.inj hp
    subst hscripts hpath
    refine ⟨?_, by simp, Or.inr ⟨fun hnil => hdepth (List.length_eq_zero_iff.2 hnil), hfits⟩⟩
    intro script hmem
    rw [List.mem_singleton.1 hmem]
    refine ⟨(plain_dotDots _).append (plain_of_all (by decide +kernel)), ?_, rfl⟩
    exact List.append_ne_nil_of_right_ne_nil _ (by decide)

theorem scriptInRoot_some (hpwd : isAbspath g.startingPwd = true) (hdepth : ScriptDepth g.startingPwd)
    (filename : CString) :
    scriptInRoot g c (some filename) =
      .ok [⟨filename, str "#!/bin/sh\n", dotDots (components g.startingPwd).length ++ str "/cde-exec",
        c.scriptLine (dotDots (components g.startingPwd).length ++ str "/cde-exec")⟩] := by
  obtain ⟨hne, hfits⟩ := hdepth
  have hpos : ¬ (newPathInternal g.startingPwd true).depth = 0 := fun h => hne (List.length_eq_zero_iff.1 h)
  have hdots : dotDotsBuffer (newPathInternal g.startingPwd true).depth =
      .ok (dotDots (components g.startingPwd).length) :=
    dotDotsBuffer_eq_ok.2 ⟨rfl, hfits⟩
  simp only [scriptInRoot, ite_throw_eq_ok, bind_eq_ok]
  exact ⟨_, if_pos hpwd, hpos, _, hdots, rfl⟩

theorem scriptInRoot_total {progname : Option CString} (hpwd : isAbspath g.startingPwd = true)
    (hdepth : progname = none ∨ ScriptDepth g.startingPwd) :
    ∃ scripts, scriptInRoot g c progname = .ok scripts := by
  cases progname with
  | none => exact ⟨[], rfl⟩
  | some filename => exact ⟨_, scriptInRoot_some hpwd (hdepth.resolve_left (by simp)) filename⟩

theorem toplevelScript_runs : ∀ script ∈ toplevelScript packageDir c, script.Runs c := by
  intro script hmem
  unfold toplevelScript at hmem
  split_ifs at hmem with hslash
  · exact absurd hmem List.not_mem_nil
  · have hplain : Plain (str "../cde-exec") := plain_of_all (by decide +kernel)
    have hne : str "../cde-exec" ≠ [] := by decide
    rw [List.mem_singleton.1 hmem]
    exact ⟨hplain, hne, rfl⟩

theorem toplevelScript_ne_nil (packageDir : CString) : toplevelScript packageDir c ≠ [] ↔ slash ∉ c.program := by
  unfold toplevelScript
  split_ifs with hslash <;> simp [hslash]

theorem createAbspath_audit_total (hex : g.execMode = false) (hroot : isAbspath g.rootDir = true)
    {path : CString} (hp : isAbspath path = true) :
    ∃ r, createAbspathWithinCderoot g path e = .ok r := by
  have hcanon := canonicalizePath_abs g.startingPwd (isAbspath_append path hroot)
  unfold createAbspathWithinCderoot
  simp only [hp, hex, Bool.not_true, Bool.false_eq_true, if_false]
  refine ⟨_, bind_eq_ok.2 ⟨_, hcanon, if_neg ?_⟩⟩
  simp [isAbspath_render]

/-- In the audit a path always gets its place in cde-root, or is ignored. -/
theorem redirect_audit_total (hex : g.execMode = false) (hroot : isAbspath g.rootDir = true)
    {f d : CString} (hd : isAbspath d = true) (pi : Option ProcessIgnore) :
    ∃ r, redirectFilenameIntoCderoot g f d pi e = .ok r := by
  have hq := canonicalizePath_eq (f := f) (Or.inr hd)
  set q := render (Pathname.norm [] (absComps f d))
  have habs : isAbspath q = true := isAbspath_render _
  obtain ⟨created, hcreated⟩ := createAbspath_audit_total (e := e) hex hroot habs
  obtain ⟨⟨ign, e₁⟩, hign⟩ : ∃ r, ignorePath g q pi e = .ok r := by
    rw [ignorePath_abs habs, hcreated]
    split_ifs
    · exact ⟨_, rfl⟩
    · exact ⟨_, rfl⟩
    · exact ⟨_, rfl⟩
  obtain rfl : e₁ = e := ignorePath_audit hex hign
  unfold redirectFilenameIntoCderoot
  simp only [hex, Bool.false_eq_true, if_false, hq, hign, hcreated, Bind.bind, Except.bind,
    pure, Except.pure]
  split_ifs
  · exact ⟨_, rfl⟩
  · exact ⟨_, rfl⟩
  · exact ⟨_, rfl⟩
  · exact ⟨_, rfl⟩

/-- What the scripts are when `CDE_create_convenience_scripts` returns. -/
theorem createScripts_ok (h : createConvenienceScripts g packageDir c e = .ok (scripts, e')) :
    (∀ script ∈ scripts, script.Runs c) ∧ (scripts ≠ [] ↔ WritesScript g c e) ∧
      (g.noAppCapture = true ∨ scriptTarget g c e = none ∨ ScriptDepth g.startingPwd) := by
  unfold createConvenienceScripts at h
  simp only [ite_throw_eq_ok] at h
  obtain ⟨-, h⟩ := h
  split_ifs at h with hcapture
  · have hscripts : ([], e) = (scripts, e') := Except.ok.inj h
    obtain ⟨rfl, rfl⟩ := Prod.mk.inj hscripts
    simp [WritesScript, hcapture]
  · simp only [bind_eq_ok] at h
    obtain ⟨⟨target, e₁⟩, hredirect, inRoot, hinRoot, h⟩ := h
    obtain ⟨rfl, rfl⟩ := Prod.mk.inj (Except.ok.inj h)
    have htarget : scriptTarget g c e = target := by simp [scriptTarget, hredirect, Except.toOption]
    obtain ⟨hruns, hne, hdepth⟩ := scriptInRoot_ok hinRoot
    rw [htarget]
    refine ⟨?_, ?_, Or.inr hdepth⟩
    · intro script hmem
      rcases List.mem_append.1 hmem with hmem | hmem
      · exact hruns script hmem
      · exact toplevelScript_runs script hmem
    · rw [WritesScript, htarget, ← hne, ← toplevelScript_ne_nil packageDir, Ne,
        List.append_eq_nil_iff, not_and_or]
      simp [hcapture]

theorem createScripts_total (hex : g.execMode = false) (hroot : isAbspath g.rootDir = true)
    (hpwd : isAbspath g.startingPwd = true)
    (hdepth : g.noAppCapture = true ∨ scriptTarget g c e = none ∨ ScriptDepth g.startingPwd) :
    ∃ scripts e', createConvenienceScripts g packageDir c e = .ok (scripts, e') := by
  unfold createConvenienceScripts
  simp only [hex, Bool.false_eq_true, if_false]
  split_ifs with hcapture
  · exact ⟨[], e, rfl⟩
  · obtain ⟨⟨target, e₁⟩, hredirect⟩ := redirect_audit_total (f := c.scriptName) (e := e) hex hroot hpwd none
    have htarget : scriptTarget g c e = target := by simp [scriptTarget, hredirect, Except.toOption]
    rw [htarget] at hdepth
    obtain ⟨inRoot, hinRoot⟩ := scriptInRoot_total (c := c) hpwd (hdepth.resolve_left hcapture)
    exact ⟨_, e₁, bind_eq_ok.2 ⟨_, hredirect, bind_eq_ok.2 ⟨inRoot, hinRoot, rfl⟩⟩⟩

end Scripts

/-! ## The whole record -/

/-- A shell that reads the record gets the original command: in `cde.log` the program by its
script and the arguments, and the starting directory; in each script cde-exec with the
options and the program, and then the arguments of the script. -/
structure Recorded.Reproduces (r : Recorded) (rootName startingPwd : CString) (c : CommandLine) :
    Prop where
  command : shellWords r.command =
    some (literal (str "./" ++ basename c.program ++ str ".cde") :: c.args.map literal)
  cd : ∀ line ∈ r.cd, shellWords line = some [literal (str "cd"), literal (rootName ++ startingPwd)]
  scripts : ∀ script ∈ r.scripts, shellWords script.command =
    some (literal script.cdeExec :: (c.options ++ [c.program]).map literal ++ [[.args]])

/-- The commands that can be recorded. -/
structure Recordable (g : Cde) (rootName : CString) (logExists : Bool) (c : CommandLine)
    (e : Effects) : Prop where
  args : ∀ arg ∈ c.args, arg ≠ []
  pwd : logExists = true ∨ squote ∉ rootName ++ g.startingPwd
  /-- the assertion of `CDE_create_convenience_scripts`, and the room in its buffer -/
  depth : g.noAppCapture = true ∨ scriptTarget g c e = none ∨ ScriptDepth g.startingPwd
  quotes : WritesScript g c e → ∀ t ∈ c.options ++ [c.program], squote ∉ t

theorem scripts_iff {c : CommandLine} {scripts : List Script} (h : ∀ script ∈ scripts, script.Runs c) :
    (∀ script ∈ scripts, shellWords script.command =
      some (literal script.cdeExec :: (c.options ++ [c.program]).map literal ++ [[.args]])) ↔
      (scripts ≠ [] → ∀ t ∈ c.options ++ [c.program], squote ∉ t) := by
  have hline : ∀ script ∈ scripts, (shellWords script.command =
      some (literal script.cdeExec :: (c.options ++ [c.program]).map literal ++ [[.args]]) ↔
      ∀ t ∈ c.options ++ [c.program], squote ∉ t) := by
    intro script hmem
    rw [(h script hmem).command]
    exact scriptLine_iff c (h script hmem).plain (h script hmem).ne_nil
  constructor
  · intro hall hne
    obtain ⟨script, hmem⟩ := List.exists_mem_of_ne_nil scripts hne
    exact (hline script hmem).1 (hall script hmem)
  · intro hquotes script hmem
    exact (hline script hmem).2 (hquotes (List.ne_nil_of_mem hmem))

theorem cd_iff (rootName startingPwd : CString) (logExists : Bool) :
    (∀ line ∈ (if logExists then none else some (cdLine rootName startingPwd)), shellWords line =
      some [literal (str "cd"), literal (rootName ++ startingPwd)]) ↔
      (logExists = true ∨ squote ∉ rootName ++ startingPwd) := by
  cases logExists with
  | true => simp
  | false =>
    rw [← cdLine_iff]
    simp

/-- `CDE_init` records the command, and in a form that reproduces it. -/
def Reproduced (g : Cde) (packageDir rootName : CString) (logExists : Bool) (c : CommandLine)
    (e : Effects) : Prop :=
  ∃ r e', recordCommand g packageDir rootName logExists c e = .ok (r, e') ∧
    r.Reproduces rootName g.startingPwd c

theorem Reproduced.recordable {g : Cde} {packageDir rootName : CString} {logExists : Bool}
    {c : CommandLine} {e : Effects} (h : Reproduced g packageDir rootName logExists c e) :
    Recordable g rootName logExists c e := by
  obtain ⟨r, e', hrecord, hr⟩ := h
  obtain ⟨⟨scripts, e₁⟩, hscripts, hrecord⟩ := bind_eq_ok.1 hrecord
  obtain ⟨rfl, rfl⟩ := Prod.mk.inj (Except.ok.inj hrecord)
  obtain ⟨hruns, hne, hdepth⟩ := createScripts_ok hscripts
  refine ⟨(logLine_iff c).1 hr.command, (cd_iff _ _ _).1 hr.cd, hdepth, ?_⟩
  rw [← hne]
  exact (scripts_iff hruns).1 hr.scripts

/-- **The recorded command is the original one** exactly for the recordable commands. -/
theorem reproduced_iff {g : Cde} (hex : g.execMode = false) (hroot : isAbspath g.rootDir = true)
    (hpwd : isAbspath g.startingPwd = true) (packageDir rootName : CString) (logExists : Bool)
    (c : CommandLine) (e : Effects) :
    Reproduced g packageDir rootName logExists c e ↔ Recordable g rootName logExists c e := by
  constructor
  · exact Reproduced.recordable
  · intro h
    obtain ⟨scripts, e', hscripts⟩ :
        ∃ scripts e', createConvenienceScripts g packageDir c e = .ok (scripts, e') :=
      createScripts_total hex hroot hpwd h.depth
    obtain ⟨hruns, hne, -⟩ := createScripts_ok hscripts
    refine ⟨_, e', bind_eq_ok.2 ⟨_, hscripts, rfl⟩, ?_⟩
    refine ⟨(logLine_iff c).2 h.args, (cd_iff _ _ _).2 h.pwd, (scripts_iff hruns).2 ?_⟩
    rw [hne]
    exact h.quotes

/-- `ptu -o pkg cat "it's here" "-"` in bob's directory. -/
theorem reproduced_quote : Reproduced bobAudit (str "/home/bob/pkg") (str "cde-root") false
    ⟨[str "-o", str "pkg"], str "cat", [str "it's here", str "-"]⟩ {} := by
  refine (reproduced_iff rfl rfl rfl _ _ _ _ _).2 ⟨by decide, by decide, ?_, ?_⟩
  · exact Or.inr (Or.inr (by decide))
  · intro _
    decide

/-- Four commands that are lost: an empty argument, a single quote in the starting directory
and one in an option, and the root as starting directory. -/
theorem reproduced_lossy :
    (¬ Reproduced bobAudit (str "/home/bob/pkg") (str "cde-root") false
      ⟨[], str "grep", [[], str "notes"]⟩ {}) ∧
    (¬ Reproduced { bobAudit with startingPwd := str "/home/o'brien" } (str "/home/bob/pkg")
      (str "cde-root") false ⟨[], str "ls", []⟩ {}) ∧
    (¬ Reproduced bobAudit (str "/home/bob/pkg") (str "cde-root") false
      ⟨[str "-o", str "bob's"], str "ls", []⟩ {}) ∧
    ¬ Reproduced { bobAudit with startingPwd := str "/" } (str "/home/bob/pkg")
      (str "cde-root") false ⟨[], str "ls", []⟩ {} := by
  refine ⟨?_, ?_, ?_, ?_⟩
  · intro h
    exact h.recordable.args [] (by decide) rfl
  · intro h
    rcases h.recordable.pwd with hlog | hquote
    · exact absurd hlog (by decide)
    · exact hquote (by decide)
  · intro h
    exact h.recordable.quotes ⟨rfl, Or.inr (by decide)⟩ (str "bob's") (by decide) (by decide)
  · intro h
    rcases h.recordable.depth with hcapture | htarget | hdepth
    · exact absurd hcapture (by decide)
    · exact absurd htarget (by decide +kernel)
    · exact hdepth.1 (by decide)

end Ptu
