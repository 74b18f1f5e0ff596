import Ptu.Proof.Execve

/-!
# The new argument vector in exec mode

* `Chosen`: which vector is laid out for a program or for a script.
* `new_argv_iff`: **the new vector is read as the intended one**, unless the process passes an empty
  `argv`: the loops start with `argv[1]`, and what stands behind the NULL is then taken for the
  arguments; or unless the interpreter of a script is ignored where it is redirected.
* `stores_fit_iff`: **nothing in the segment is written beyond its end**, exactly if the strings
  and the array fit: the lengths of the paths, the words of the first line and the arguments of
  the process are not checked.
-/

namespace Ptu

open Capacity Memory

variable {env : ExecEnv} {g : Cde} {p : Personality} {st : ExecState} {exeFilename ld : CString}
variable {scriptCommand : Option CString} {l : NewArgv}

/-- The vector that is laid out. A program without the linker of the package keeps its own. -/
inductive Chosen (env : ExecEnv) (g : Cde) (st : ExecState) (ldLinuxFullpath : CString) :
    Option CString → NewArgv → Prop
  | elf {file program : CString} {e : Effects} :
    env.useLinkerFromPackage = true →
    env.strcpyFromChild st.child.mem (st.tcp.uArg fileArg) = some file →
    javaFullpath g file st = .ok (program, e) →
    Chosen env g st ldLinuxFullpath none (.elf ldLinuxFullpath program)
  | linkerScript (command : CString) :
    env.useLinkerFromPackage = true →
    Chosen env g st ldLinuxFullpath (some command) (.linkerScript ldLinuxFullpath (strtok command blank))
  | script {command token redirected : CString} {rest : List CString} {e : Effects} :
    env.useLinkerFromPackage = false →
    strtok command blank = token :: rest →
    redirectFilenameIntoCderoot g token st.tcp.currentDir st.tcp.pIgnores st.e = .ok (some redirected, e) →
    Chosen env g st ldLinuxFullpath (some command) (.script redirected rest)

theorem Chosen.startWith_eq (h : Chosen env g st ld scriptCommand l) :
    ∃ e perceived, startWith env g p exeFilename ld scriptCommand st =
      (l.run p st.tcp st.child).map
        fun child => { st with e, child, perceivedProgramFullpath := perceived } := by
  cases h with
  | @elf file program e huse hfile hjava =>
    refine ⟨e, some program, ?_⟩
    simp only [startWith, startElf, hfile, hjava, huse, if_true, NewArgv.run]
    change (elfArgv p st.tcp ld program st.child >>= _) = _
    cases elfArgv p st.tcp ld program st.child <;> rfl
  | linkerScript command huse =>
    refine ⟨st.e, (strtok command blank).head?, ?_⟩
    simp only [startWith, startScript, huse, pure_bind, NewArgv.run]
    cases scriptArgv p st.tcp true ld (strtok command blank) st.child <;> rfl
  | @script command token redirected rest e huse htokens hredirect =>
    refine ⟨e, some token, ?_⟩
    have hld : scriptArgv p st.tcp false ld (redirected :: rest) st.child =
        scriptArgv p st.tcp false [] (redirected :: rest) st.child := rfl
    simp only [startWith, startScript, huse, htokens, hredirect, NewArgv.run, ← hld]
    change (scriptArgv p st.tcp false ld (redirected :: rest) st.child >>= _) = _
    cases scriptArgv p st.tcp false ld (redirected :: rest) st.child <;> rfl

/-! ## A first token that is not redirected -/

/-- The tests of `redirect_filename_into_cderoot` in exec mode that end with NULL. -/
def Ignored (g : Cde) (filename cwd : CString) (pIgnores : Option ProcessIgnore) (e : Effects) : Prop :=
  ∃ base e₁ path, extractSandboxedPwd g cwd pIgnores e = .ok (base, e₁) ∧
    canonicalizePath filename base = .ok path ∧ getRepoPathId g path = none ∧
    (isCdeBinary path = true ∨ ∃ e₂, ignorePath g path pIgnores e₁ = .ok (true, e₂))

theorem redirect_eq_none_iff {filename cwd : CString} {pIgnores : Option ProcessIgnore} {e : Effects}
    (hex : g.execMode = true) :
    (∃ e', redirectFilenameIntoCderoot g filename cwd pIgnores e = .ok (none, e')) ↔
      Ignored g filename cwd pIgnores e := by
  constructor
  · rintro ⟨e', h⟩
    obtain ⟨base, e₁, path, hbase, hpath, h⟩ := (redirect_iff hex).1 h
    refine ⟨base, e₁, path, hbase, hpath, ?_⟩
    cases h with
    | binary hrepo hbin => exact ⟨Option.not_isSome_iff_eq_none.1 (by simp [hrepo]), .inl hbin⟩
    | ignored hrepo _ hignore => exact ⟨Option.not_isSome_iff_eq_none.1 (by simp [hrepo]), .inr ⟨e', hignore⟩⟩
  · rintro ⟨base, e₁, path, hbase, hpath, hnone, hignored⟩
    have hrepo : (getRepoPathId g path).isSome = false := by rw [hnone]; rfl
    cases hbin : isCdeBinary path with
    | true => exact ⟨e₁, (redirect_iff hex).2 ⟨base, e₁, path, hbase, hpath, .binary hrepo hbin⟩⟩
    | false =>
      obtain ⟨e₂, hignore⟩ := hignored.resolve_left (by simp [hbin])
      exact ⟨e₂, (redirect_iff hex).2 ⟨base, e₁, path, hbase, hpath, .ignored hrepo hbin hignore⟩⟩

/-- Without the linker of the package, the first token of the command is one that is ignored. -/
def TokenIgnored (env : ExecEnv) (g : Cde) (st : ExecState) (scriptCommand : Option CString) : Prop :=
  env.useLinkerFromPackage = false ∧ ∃ command token rest, scriptCommand = some command ∧
    strtok command blank = token :: rest ∧ Ignored g token st.tcp.currentDir st.tcp.pIgnores st.e

/-- The vector that is meant: a first token that is ignored stays as it is. -/
inductive Intended (env : ExecEnv) (g : Cde) (st : ExecState) (ldLinuxFullpath : CString) :
    Option CString → NewArgv → Prop
  | chosen {scriptCommand : Option CString} {l : NewArgv} :
    Chosen env g st ldLinuxFullpath scriptCommand l → Intended env g st ldLinuxFullpath scriptCommand l
  | ignored {command token : CString} {rest : List CString} :
    env.useLinkerFromPackage = false →
    strtok command blank = token :: rest →
    Ignored g token st.tcp.currentDir st.tcp.pIgnores st.e →
    Intended env g st ldLinuxFullpath (some command) (.script token rest)

theorem Chosen.not_tokenIgnored (h : Chosen env g st ld scriptCommand l) (hex : g.execMode = true) :
    ¬ TokenIgnored env g st scriptCommand := by
  rintro ⟨huse, command, token, rest, hcommand, htokens, hignored⟩
  cases h with
  | elf => cases hcommand
  | linkerScript command huse' =>
    rw [huse] at huse'
    cases huse'
  | @script command token' redirected rest' e _ htokens' hredirect =>
    obtain rfl := Option.some.inj hcommand
    obtain ⟨rfl, rfl⟩ := List.cons.inj (htokens.symm.trans htokens')
    obtain ⟨e', hnone⟩ := (redirect_eq_none_iff hex).2 hignored
    rw [hnone] at hredirect
    cases hredirect

/-- `strcpy` reads from NULL. -/
theorem TokenIgnored.startWith_eq (h : TokenIgnored env g st scriptCommand) (hex : g.execMode = true) :
    startWith env g p exeFilename ld scriptCommand st = .error .segv := by
  obtain ⟨huse, command, token, rest, rfl, htokens, hignored⟩ := h
  obtain ⟨e', hnone⟩ := (redirect_eq_none_iff hex).2 hignored
  simp only [startWith, startScript, huse, htokens, hnone]
  rfl

/-! ## What the vector holds -/

/-- The process has the text `s` at `v`, not in the segment. -/
def TextOutside (tcp : ShmTcb) (mem : Mem) (s : CString) (v : Word) : Prop :=
  Holds mem v (s ++ [0]) ∧ Outside tcp v (s ++ [0]).length

/-- The process around a system call `execve(file, argv, …)`: the segment is attached in its address
space, and what it passes stands elsewhere. Of an empty `argv` also the word behind the NULL is
elsewhere. -/
structure ExecveMemory (p : Personality) (tcp : ShmTcb) (mem : Mem) (file : CString) (argv : List CString)
    (vs : List Word) : Prop where
  attached : tcp.childshm ≠ 0
  segment : tcp.childshm.toNat + sharedPageSize ≤ 256 ^ wordsize p
  pointer : tcp.uArg fileArg ≠ 0 ∧ (tcp.uArg fileArg).toNat < 256 ^ wordsize p
  file : TextOutside tcp mem file (tcp.uArg fileArg)
  words : WordsAt p mem (tcp.uArg argvArg) vs
  texts : List.Forall₂ (TextOutside tcp mem) argv vs
  outside : Outside tcp (tcp.uArg argvArg) ((max argv.length 1 + 1) * wordsize p)

/-- **The kernel reads `texts` as the arguments**, and the first of them as the path. -/
structure Rebuilt (p : Personality) (child : Child) (texts : List CString) : Prop where
  argv : Decodes p child.mem (child.regs (argreg p argvArg)) (texts.map .text)
  path : ∃ first, texts.head? = some first ∧ Holds child.mem (child.regs (argreg p fileArg)) (first ++ [0])

section

variable {tcp : ShmTcb} {m : Mem} {regs : Regs} {child child' : Child} {pre junk : List Byte}
variable {file : CString} {argv : List CString} {vs : List Word}

theorem Laid.entryAt (h : Laid tcp m regs pre junk child) (hall : List.Forall₂ (TextOutside tcp m) argv vs) :
    List.Forall₂ (EntryAt child.mem) (argv.map .text) vs := by
  induction hall with
  | nil => exact .nil
  | cons htext _ ih => exact .cons ((h.holds_iff htext.2).2 htext.1) ih

/-- Behind the first word of an `argv` that is not empty, and behind an empty one with a second
NULL, the loops find its tail. -/
theorem ExecveMemory.argvMemory (h : ExecveMemory p tcp m file argv vs)
    (hnext : argv ≠ [] ∨ WordAt p m (tcp.uArg argvArg + BitVec.ofNat 64 (wordsize p)) 0) :
    ArgvMemory p tcp m vs.tail := by
  have hlen := h.texts.length_eq
  refine ⟨h.attached, h.segment, h.pointer, ?_, fun i hi => ?_⟩
  · rcases vs with _ | ⟨v, vs⟩
    · exact hnext.resolve_left fun hne => hne (List.length_eq_zero_iff.1 hlen)
    · exact h.words.2.2
  · have hcount : vs.tail.length + 1 = max argv.length 1 := by
      rw [List.length_tail, hlen]
      omega
    have hout := h.outside (wordsize p + i) (by rw [hcount] at hi; rw [Nat.add_mul]; omega)
    rwa [add_ofNat_add] at hout

theorem ExecveMemory.tail (h : ExecveMemory p tcp m file argv vs) :
    List.Forall₂ (TextOutside tcp m) argv.tail vs.tail ∧ ∀ v ∈ vs.tail, v ≠ 0 ∧ v.toNat < 256 ^ wordsize p := by
  refine ⟨?_, fun v hv => h.words.forall v (List.mem_of_mem_tail hv)⟩
  cases h.texts with
  | nil => exact .nil
  | cons _ hall => exact hall

theorem NewArgv.texts_eq_cons (l : NewArgv) : ∃ first rest, l.texts = first :: rest := by
  cases l <;> exact ⟨_, _, rfl⟩

/-- The file that the process executes is passed by its pointer. -/
theorem NewArgv.entryAt_own (l : NewArgv) (h : Laid tcp m regs pre junk child)
    (hfile : TextOutside tcp m file (tcp.uArg fileArg)) :
    List.Forall₂ (EntryAt child.mem) ((l.own file).map .text) (l.own (tcp.uArg fileArg)) := by
  refine h.entryAt ?_
  cases l with
  | elf ld program => exact .nil
  | linkerScript ld tokens => exact .cons hfile .nil
  | script token tokens => exact .cons hfile .nil

/-- **What has been laid out with the tail of `argv` is the intended vector.** -/
theorem LaidWords.rebuilt (l : NewArgv) (hmem : ExecveMemory p tcp m file argv vs)
    (h : LaidWords p tcp m regs (strings l.texts) (l.pointers tcp ++ vs.tail ++ [0]) child) :
    Rebuilt p (setExecve p tcp (strings l.texts).length child) (l.texts ++ l.own file ++ argv.tail) := by
  obtain ⟨htail, hvs⟩ := hmem.tail
  obtain ⟨hstrs, hat⟩ := l.read hmem.attached hmem.segment hmem.pointer hvs h
  obtain ⟨hargv, hpath, hsame⟩ := setExecve_argv p tcp (strings l.texts).length child
  obtain ⟨junk, -, hlaid⟩ := h
  refine ⟨?_, ?_⟩
  · rw [hargv, hsame, List.map_append, List.map_append]
    refine ⟨_, hat, List.rel_append (List.rel_append ?_ ?_) (hlaid.entryAt htail)⟩
    · exact entryAt_strings (by rwa [inChild_zero])
    · exact l.entryAt_own hlaid hmem.file
  · obtain ⟨first, rest, hfirst⟩ := l.texts_eq_cons
    have hsplit : strings (first :: rest) = first ++ [0] ++ strings rest := rfl
    rw [hfirst, hsplit, holds_append] at hstrs
    rw [hpath, hsame]
    exact ⟨first, by rw [hfirst]; rfl, hstrs.1⟩

/-- Behind an empty `argv`, the intended vector is laid out only if there is another NULL. -/
theorem NewArgv.null_of_rebuilt (l : NewArgv) {child₁ : Child} (hmem : ExecveMemory p tcp m file [] [])
    (hlaid : Laid tcp m regs (strings l.texts) [] child)
    (hvector : layVector p tcp (strings l.texts).length (l.pointers tcp) child = .ok child₁)
    (h : Rebuilt p (setExecve p tcp (strings l.texts).length child₁) (l.texts ++ l.own file)) :
    WordAt p m (tcp.uArg argvArg + BitVec.ofNat 64 (wordsize p)) 0 := by
  obtain ⟨us, hlaid₁, hus, hnull⟩ := hlaid.layVector_reads (l.pointers_ne_nil tcp) hvector
  obtain ⟨-, hat⟩ := l.read hmem.attached hmem.segment hmem.pointer hus hlaid₁
  obtain ⟨hargv, -, hsame⟩ := setExecve_argv p tcp (strings l.texts).length child₁
  obtain ⟨qs, hqs, hall⟩ := h.argv
  rw [hargv, hsame] at hqs
  -- the array is read in one way only, so nothing has been copied
  obtain rfl := hat.unique hqs
  have hlen := hall.length_eq
  have hown : (l.own file).length = (l.own ()).length := by cases l <;> rfl
  rw [List.length_map, List.length_append, List.length_append, l.pointers_length, hown] at hlen
  refine hnull (fun i hi => ?_) (List.length_eq_zero_iff.1 (by omega))
  have htwo : (max ([] : List CString).length 1 + 1) * wordsize p = wordsize p + wordsize p := Nat.two_mul _
  have hout := hmem.outside (wordsize p + i) (by omega)
  rwa [add_ofNat_add] at hout

end

/-- A vector that is chosen is laid out and read back. -/
theorem Chosen.rebuilt_iff {file : CString} {argv : List CString} {vs : List Word}
    (hchosen : Chosen env g st ld scriptCommand l) (hmem : ExecveMemory p st.tcp st.child.mem file argv vs)
    (hpage : l.FitsPage p (argv.length - 1)) :
    (∃ st', startWith env g p exeFilename ld scriptCommand st = .ok st' ∧
      Rebuilt p st'.child (l.texts ++ l.own file ++ argv.tail)) ↔
    l.tokens.length ≤ 200 ∧
      (argv ≠ [] ∨ WordAt p st.child.mem (st.tcp.uArg argvArg + BitVec.ofNat 64 (wordsize p)) 0) := by
  obtain ⟨e, perceived, hstart⟩ := hchosen.startWith_eq (p := p)
  rw [hstart]
  constructor
  · rintro ⟨st', hst', h⟩
    obtain ⟨c, hrun, rfl⟩ := map_eq_ok.1 hst'
    rw [NewArgv.run_eq] at hrun
    obtain ⟨c₁, hlay, hrun⟩ := bind_eq_ok.1 hrun
    obtain ⟨c₂, hvector, hrun⟩ := bind_eq_ok.1 hrun
    obtain rfl := Except.ok.inj hrun
    obtain ⟨⟨-, htokens⟩, hlaid⟩ := (l.lay_okIff _ _).of_ok hlay
    refine ⟨htokens, or_iff_not_imp_left.2 fun hnil => ?_⟩
    obtain rfl := not_not.1 hnil
    obtain rfl := List.forall₂_nil_left_iff.1 hmem.texts
    exact l.null_of_rebuilt hmem hlaid hvector (by simpa using h)
  · rintro ⟨htokens, hnext⟩
    have hcount : vs.tail.length = argv.length - 1 := by rw [List.length_tail, hmem.texts.length_eq]
    obtain ⟨c, hrun, c₀, rfl, hlaid⟩ :=
      (l.run_okIff (hmem.argvMemory hnext)).ok ⟨htokens, by rwa [hcount]⟩
    exact ⟨_, map_eq_ok.2 ⟨_, hrun, rfl⟩, hlaid.rebuilt l hmem⟩

/-- **The new vector is the intended one** exactly if the first token is not ignored where it is
redirected, the array of the tokens is large enough, and the process passes some argument, or a
second NULL behind an empty `argv`. -/
theorem new_argv_iff {file : CString} {argv : List CString} {vs : List Word} (hex : g.execMode = true)
    (hintended : Intended env g st ld scriptCommand l)
    (hmem : ExecveMemory p st.tcp st.child.mem file argv vs) (hpage : l.FitsPage p (argv.length - 1)) :
    (∃ st', startWith env g p exeFilename ld scriptCommand st = .ok st' ∧
      Rebuilt p st'.child (l.texts ++ l.own file ++ argv.tail)) ↔
    ¬ TokenIgnored env g st scriptCommand ∧ l.tokens.length ≤ 200 ∧
      (argv ≠ [] ∨ WordAt p st.child.mem (st.tcp.uArg argvArg + BitVec.ofNat 64 (wordsize p)) 0) := by
  cases hintended with
  | chosen hchosen => rw [hchosen.rebuilt_iff hmem hpage, and_iff_right (hchosen.not_tokenIgnored hex)]
  | ignored huse htokens hignored =>
    have htoken : TokenIgnored env g st _ := ⟨huse, _, _, _, rfl, htokens, hignored⟩
    refine iff_of_false ?_ fun h => h.1 htoken
    rintro ⟨st', hst', -⟩
    rw [htoken.startWith_eq hex] at hst'
    cases hst'

theorem execveState_memory :
    ExecveMemory .native (execveState 0x7000).tcp (execveState 0x7000).child.mem (str "/s") [str "/s", str "x"]
      [0x1000, 0x3000] where
  attached := by decide
  segment := by decide
  pointer := by decide
  file := by unfold TextOutside Holds Outside; decide +kernel
  words := execveState_argv
  texts := by
    refine .cons ?_ (.cons ?_ .nil)
    all_goals unfold TextOutside Holds Outside; decide +kernel
  outside := by unfold Outside; decide +kernel

theorem new_argv_iff_sh :
    ∃ st', startWith smallEnv optReplay .native [] (str "/ld.so") (some (str "/bin/sh -e"))
        (execveState 0x7000) = .ok st' ∧
      Rebuilt .native st'.child [str "/ld.so", str "/bin/sh", str "-e", str "/s", str "x"] :=
  (new_argv_iff rfl (.chosen (.linkerScript (str "/bin/sh -e") rfl)) execveState_memory (by decide)).2
    ⟨fun h => absurd h.1 (by decide), by decide, .inl (by simp)⟩

/-- A native process at `execve("/s", {NULL}, {"x", NULL})` with the environment behind the NULL. -/
def emptyArgvState : ExecState :=
  { execveState 0x7000 with
    child := {
      regs := (execveState 0x7000).child.regs
      mem := ((Mem.store (fun _ => none) 0x1000 (str "/s" ++ [0])).store 0x2000
        (words .native [0, 0x3000, 0])).store 0x3000 (str "x" ++ [0]) } }

theorem emptyArgvState_argvMemory :
    ArgvMemory .native emptyArgvState.tcp emptyArgvState.child.mem [0x3000] where
  attached := by decide
  segment := by decide
  file := by decide
  words := by
    refine ⟨by decide, ⟨by decide, ?_⟩, by decide, ?_⟩
    all_goals unfold Holds; decide +kernel
  outside := by unfold Outside; decide +kernel

/-- The script gets the environment as its argument. -/
theorem new_argv_empty :
    WordsAt .native emptyArgvState.child.mem (emptyArgvState.tcp.uArg argvArg) [] ∧
    ∃ st', startWith smallEnv optReplay .native [] (str "/ld.so") (some (str "/bin/sh")) emptyArgvState =
        .ok st' ∧
      Decodes .native st'.child.mem (st'.child.regs (argreg .native argvArg))
        [.text (str "/ld.so"), .text (str "/bin/sh"), .pointer 0x1000, .pointer 0x3000] ∧
      ¬ Rebuilt .native st'.child [str "/ld.so", str "/bin/sh", str "/s"] := by
  have hnil : WordsAt .native emptyArgvState.child.mem (emptyArgvState.tcp.uArg argvArg) [] := by
    refine ⟨by decide, ?_⟩
    unfold Holds
    decide +kernel
  have hchosen : Chosen smallEnv optReplay emptyArgvState (str "/ld.so") (some (str "/bin/sh")) _ :=
    .linkerScript _ rfl
  obtain ⟨e, perceived, hstart⟩ := hchosen.startWith_eq (p := .native)
  obtain ⟨c, hrun⟩ : ∃ c, scriptArgv .native emptyArgvState.tcp true (str "/ld.so") [str "/bin/sh"]
      emptyArgvState.child = .ok c := scriptArgv_total emptyArgvState_argvMemory (by decide) (by decide)
  have hdec := scriptArgv_decodes emptyArgvState_argvMemory hrun
  refine ⟨hnil, _, by rw [hstart]; exact map_eq_ok.2 ⟨c, hrun, rfl⟩, hdec, fun h => ?_⟩
  exact absurd (hdec.length_eq h.argv) (by decide)

/-! ## What fits -/

theorem Chosen.startWith_okIff {args : List Word} (h : Chosen env g st ld scriptCommand l)
    (hmem : ArgvMemory p st.tcp st.child.mem args) :
    OkIff Fatal.segv (l.tokens.length ≤ 200 ∧ l.FitsPage p args.length) (fun _ => True)
      (startWith env g p exeFilename ld scriptCommand st) := by
  obtain ⟨e, perceived, hstart⟩ := h.startWith_eq (p := p)
  rw [hstart]
  exact (l.run_okIff hmem).map fun _ _ => trivial

theorem Modify.run_okIff (M : Modify) (strcpyFromChild : StrcpyFromChild) {tcp : ShmTcb} {child : Child}
    {e e' : Effects} {r1 r2 : Option CString} (hex : g.execMode = true) (hshm : tcp.childshm ≠ 0)
    (h : M.redirections g strcpyFromChild tcp child e = .ok (r1, r2, e')) :
    OkIff Fatal.segv (roomFor r1 + roomFor r2 ≤ sharedPageSize) (fun _ => True)
      (M.run g strcpyFromChild p tcp child e) := by
  rw [Modify.run_eq hex hshm h]
  exact (storePair_okIff ..).map fun _ _ => trivial

/-- A program is started with the linker of the host: the vector is laid out all the same, and then
the redirected path is stored over it. -/
structure HostLinker (env : ExecEnv) (g : Cde) (st : ExecState) (exeFilename program : CString)
    (redirected : Option CString) : Prop where
  linker : env.useLinkerFromPackage = false
  paths : ∃ file e e', env.strcpyFromChild st.child.mem (st.tcp.uArg fileArg) = some file ∧
    javaFullpath g file st = .ok (program, e) ∧
    redirectFilenameIntoCderoot g exeFilename st.tcp.currentDir st.tcp.pIgnores e = .ok (redirected, e')

theorem elfArgv_okIff {tcp : ShmTcb} {child : Child} {args : List Word} (program : CString)
    (hmem : ArgvMemory p tcp child.mem args) :
    OkIff Fatal.segv ((NewArgv.elf ld program).FitsPage p args.length) (fun _ => True)
      (elfArgv p tcp ld program child) := by
  have hrun := ((NewArgv.elf ld program).run_okIff hmem).congr (and_iff_right (Nat.zero_le 200))
  cases helf : elfArgv p tcp ld program child with
  | error e =>
    have herr : (NewArgv.elf ld program).run p tcp child = .error e := by
      rw [NewArgv.run, helf]
      rfl
    rw [herr] at hrun
    rcases hrun with ⟨-, c, hc, -⟩ | ⟨hfits, he⟩
    · cases hc
    · obtain rfl := Except.error.inj he
      exact okIff_error hfits
  | ok r =>
    have hok : (NewArgv.elf ld program).run p tcp child = .ok (setExecve p tcp r.1 r.2) := by
      rw [NewArgv.run, helf]
      rfl
    exact okIff_ok (hrun.of_ok hok).1 trivial

theorem HostLinker.startElf_okIff {args : List Word} {program : CString} {redirected : Option CString}
    (h : HostLinker env g st exeFilename program redirected) (hex : g.execMode = true)
    (hmem : ArgvMemory p st.tcp st.child.mem args) :
    OkIff Fatal.segv ((NewArgv.elf ld program).FitsPage p args.length ∧ roomFor redirected ≤ sharedPageSize)
      (fun _ => True) (startElf env g p exeFilename ld st) := by
  obtain ⟨file, e, e', hfile, hjava, hredirect⟩ := h.paths
  have hstart : startElf env g p exeFilename ld st = (do
      let r ← elfArgv p st.tcp ld program st.child
      let s ← modifySyscallSingleArg g p st.tcp 1 exeFilename r.2 e
      return { st with tcp := s.1, child := s.2.1, e := s.2.2, perceivedProgramFullpath := some program }) := by
    simp only [startElf, hfile, hjava, h.linker, Bool.false_eq_true, if_false]
    rfl
  rw [hstart]
  refine (elfArgv_okIff program hmem).bind (fun r hfits _ => ?_) And.left
  have hmodify : OkIff Fatal.segv _ _ (modifySyscallSingleArg g p st.tcp 1 exeFilename r.2 e) :=
    (Modify.singleArg 0 exeFilename).run_okIff env.strcpyFromChild hex hmem.attached
      (bind_eq_ok.2 ⟨_, hredirect, rfl⟩)
  refine (hmodify.congr ?_).bind (fun _ hfits' _ => okIff_ok hfits' trivial) id
  rw [and_iff_right hfits]
  rfl

/-- **Everything is stored within the segment** exactly if it fits. `args` are the words that the
tracer reads from `argv[1]` on. -/
theorem stores_fit_iff (env : ExecEnv) (p : Personality) (st : ExecState) (exeFilename ld : CString)
    (hex : g.execMode = true) :
    (∀ args scriptCommand l, ArgvMemory p st.tcp st.child.mem args → Chosen env g st ld scriptCommand l →
      (startWith env g p exeFilename ld scriptCommand st ≠ .error .segv ↔
        l.tokens.length ≤ 200 ∧ l.FitsPage p args.length)) ∧
    (∀ args program redirected, ArgvMemory p st.tcp st.child.mem args →
      HostLinker env g st exeFilename program redirected →
      (startElf env g p exeFilename ld st ≠ .error .segv ↔
        (NewArgv.elf ld program).FitsPage p args.length ∧ roomFor redirected ≤ sharedPageSize)) ∧
    ∀ (M : Modify) (strcpyFromChild : StrcpyFromChild) (tcp : ShmTcb) (child : Child) (e : Effects) r1 r2 e',
      tcp.childshm ≠ 0 → M.redirections g strcpyFromChild tcp child e = .ok (r1, r2, e') →
      (M.run g strcpyFromChild p tcp child e ≠ .error .segv ↔ roomFor r1 + roomFor r2 ≤ sharedPageSize) := by
  refine ⟨fun args scriptCommand l hmem hchosen => ?_, fun args program redirected hmem hlinker => ?_,
    fun M strcpyFromChild tcp child e r1 r2 e' hshm h => ?_⟩
  · exact (hchosen.startWith_okIff hmem).ne_error_iff
  · exact (hlinker.startElf_okIff hex hmem).ne_error_iff
  · exact (M.run_okIff strcpyFromChild hex hshm h).ne_error_iff

/-- The linker of the host is used. -/
def hostLinkerEnv : ExecEnv := { smallEnv with useLinkerFromPackage := false }

theorem hostLinkerEnv_hostLinker :
    HostLinker hostLinkerEnv optReplay (execveState 0x7000) (str "/s") (str "/s")
      (some (str "/opt/cde-package/cde-root/s")) :=
  ⟨rfl, str "/s", {}, {}, rfl, rfl, rfl⟩

theorem stores_fit_short :
    startWith smallEnv optReplay .native [] (str "/ld.so") (some (str "/bin/sh -e")) (execveState 0x7000) ≠
      .error .segv ∧
    startElf hostLinkerEnv optReplay .native (str "/s") (str "/ld.so") (execveState 0x7000) ≠ .error .segv ∧
    (Modify.singleArg 0 (str "/s")).run optReplay (readString 8) .native (execveState 0x7000).tcp
      (execveState 0x7000).child {} ≠ .error .segv := by
  have hscript : Chosen smallEnv optReplay (execveState 0x7000) (str "/ld.so") (some (str "/bin/sh -e")) _ :=
    .linkerScript _ rfl
  have hredirect : (Modify.singleArg 0 (str "/s")).redirections optReplay (readString 8) (execveState 0x7000).tcp
      (execveState 0x7000).child {} = .ok (some (str "/opt/cde-package/cde-root/s"), none, {}) := rfl
  obtain ⟨hchosen, -, hmodify⟩ := stores_fit_iff smallEnv .native (execveState 0x7000) [] (str "/ld.so")
    (show optReplay.execMode = true from rfl)
  obtain ⟨-, helf, -⟩ := stores_fit_iff hostLinkerEnv .native (execveState 0x7000) (str "/s") (str "/ld.so")
    (show optReplay.execMode = true from rfl)
  refine ⟨?_, ?_, ?_⟩
  · exact (hchosen _ _ _ execveState_argvMemory hscript).2 ⟨by decide, by decide⟩
  · exact (helf _ _ _ execveState_argvMemory hostLinkerEnv_hostLinker).2 ⟨by decide, by decide⟩
  · exact (hmodify _ _ _ _ _ _ _ _ (by decide) hredirect).2 (by decide)

/-- A native process at `execve("/s", {"/s", "/s", …, NULL}, …)` with `n + 1` arguments. -/
def manyArgsState (n : ℕ) : ExecState :=
  { execveState 0x100000 with
    child := {
      regs := (execveState 0x100000).child.regs
      mem := (Mem.store (fun _ => none) 0x1000 (str "/s" ++ [0])).store 0x2000
        (words .native (List.replicate (n + 1) 0x1000 ++ [0])) } }

theorem manyArgsState_argvMemory {n : ℕ} (hn : n < 2 ^ 16) :
    ArgvMemory .native (manyArgsState n).tcp (manyArgsState n).child.mem (List.replicate n 0x1000) where
  attached := (by decide : (0x100000 : Word) ≠ 0)
  segment := (by decide : (0x100000 : Word).toNat + sharedPageSize ≤ 256 ^ 8)
  file := (by decide : (0x1000 : Word) ≠ 0 ∧ (0x1000 : Word).toNat < 256 ^ 8)
  words := by
    have hlen : (words .native (List.replicate (n + 1) 0x1000 ++ [0])).length ≤ 2 ^ 64 := by
      rw [words_length, List.length_append, List.length_replicate, List.length_singleton, wordsize]
      omega
    have hwords : WordsAt .native (manyArgsState n).child.mem 0x2000 (List.replicate (n + 1) 0x1000) :=
      wordsAt_of_holds (holds_store _ _ hlen) fun v hv => by
        obtain rfl := List.eq_of_mem_replicate hv
        decide
    exact hwords.2.2
  outside := by
    intro i hi
    rw [List.length_replicate, wordsize] at hi
    change sharedPageSize ≤ (0x2000 + BitVec.ofNat 64 8 + BitVec.ofNat 64 i - 0x100000 : Word).toNat
    have hsize : sharedPageSize = 16384 := by decide
    have hargv : (0x2000 : Word).toNat = 8192 := rfl
    have hshm : (0x100000 : Word).toNat = 1048576 := rfl
    rw [hsize, BitVec.toNat_sub, BitVec.toNat_add, BitVec.toNat_add, hargv, hshm]
    simp only [BitVec.toNat_ofNat]
    omega

/-- The array is longer than the segment. -/
theorem stores_beyond_segment :
    startWith smallEnv optReplay .native [] (str "/ld.so") (some (str "/bin/sh"))
      (manyArgsState 3000) = .error .segv := by
  have hchosen : Chosen smallEnv optReplay (manyArgsState 3000) (str "/ld.so")
      (some (str "/bin/sh")) _ :=
    .linkerScript _ rfl
  by_contra hne
  have hfits := ((hchosen.startWith_okIff (manyArgsState_argvMemory (by decide))).ne_error_iff.1 hne).2
  rw [List.length_replicate] at hfits
  exact absurd hfits (by decide)

end Ptu
