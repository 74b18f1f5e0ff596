import Ptu.Lib.History
import Ptu.Proof.Directives

/-!
# Reading the options file back

A file of `cde.options` is the version line and the directives, with blank lines, comments and
indentation. `CDE_init_options` reads the directives back exactly if they are readable, the first
line is the version and `getline` never meets a moved pointer without room (`accepts_iff`;
`OptionsFile.fits_iff` says what that means for the lines). The file that `CDE_init` writes itself
is never accepted.
-/

namespace Ptu

/-! ## Files -/

/-- The values of a directive. -/
def Directive.values : Directive → List CString
  | .set _ v => [v]
  | .process pi => pi.processName :: pi.processIgnorePrefixPaths

/-- A printed options file. -/
structure OptionsFile where
  directives : List Directive
  /-- the lines before the version line -/
  before : List CString
  indent : CString
  /-- what follows the version -/
  note : CString
  /-- the lines after the version line -/
  rest : List CString
  before_filler : ∀ line ∈ before, IsFiller line
  indent_isIndent : IsIndent indent
  note_noNewline : newline ∉ note
  layout : Layout (directives.flatMap Directive.lines) rest
  values_noNewline : ∀ d ∈ directives, ∀ v ∈ d.values, newline ∉ v

namespace OptionsFile

variable (file : OptionsFile)

def versionLine : CString := file.indent ++ (optionsVersionNum ++ file.note)

def lines : List CString := file.before ++ file.versionLine :: file.rest

def text : CString := Delimited.terminated newline file.lines

/-- The first line passes for the version. -/
def Versioned : Prop := ∀ line ∈ file.before.head?, startsWith (strip line) optionsVersionNum = true

/-- `getline` finds room for every line. -/
def Fits (grow : ℕ → ℕ → ℕ) : Prop := ∃ b, file.lines.foldlM (LineBuffer.read grow) {} = .ok b

end OptionsFile

/-! ## The buffer -/

section

open History

variable {grow : ℕ → ℕ → ℕ} {lines : List CString}

/-- The leading spaces of a line. -/
def indentOf (line : CString) : ℕ := (line.takeWhile isspace).length

def totalIndent : List CString → ℕ
  | [] => 0
  | line :: lines => indentOf line + totalIndent lines

/-- The lines up to the first indented one, that are read with the pointer at the start of the buffer. -/
def linesAtStart : List CString → List CString
  | [] => []
  | line :: lines => if indentOf line = 0 then line :: linesAtStart lines else [line]

/-- The size of a buffer after some lines have been read into it. -/
def bufferSize (grow : ℕ → ℕ → ℕ) (size : ℕ) (lines : List CString) : ℕ :=
  lines.foldl (fun size line => if line.length + 2 ≤ size then size else grow size (line.length + 2)) size

/-- A moved pointer only moves on, and the buffer stays as large as it is. -/
theorem readAll_moved {size offset : ℕ} (hoffset : offset ≠ 0) :
    (∃ b, lines.foldlM (LineBuffer.read grow) ⟨size, offset⟩ = .ok b) ↔
      EachAfter (fun earlier line => offset + totalIndent earlier + (line.length + 2) ≤ size) lines := by
  induction lines generalizing offset with
  | nil => exact iff_of_true ⟨_, rfl⟩ eachAfter_nil
  | cons line lines ih =>
    rw [eachAfter_cons, List.foldlM_cons, LineBuffer.read]
    by_cases hroom : offset + (line.length + 2) ≤ size
    · have hmoved : offset + indentOf line ≠ 0 := by omega
      simp only [hoffset, hroom, if_true, if_false, totalIndent, Nat.add_zero, true_and]
      refine (ih hmoved).trans ?_
      simp only [Nat.add_assoc]
    · simp only [hoffset, hroom, if_false, totalIndent, Nat.add_zero, false_and, iff_false]
      rintro ⟨b, hb⟩
      cases hb

/-- **The lines that are read**: as long as the pointer has not been moved the buffer can grow, and behind an
indented line there must be room for every line. -/
theorem readAll_iff {size : ℕ} :
    (∃ b, lines.foldlM (LineBuffer.read grow) ⟨size, 0⟩ = .ok b) ↔
      EachAfter (fun earlier line => totalIndent earlier ≠ 0 →
        totalIndent earlier + (line.length + 2) ≤ bufferSize grow size (linesAtStart lines)) lines := by
  induction lines generalizing size with
  | nil => exact iff_of_true ⟨_, rfl⟩ eachAfter_nil
  | cons line lines ih =>
    have hread : LineBuffer.read grow ⟨size, 0⟩ line = .ok ⟨bufferSize grow size [line], indentOf line⟩ := rfl
    rw [eachAfter_cons, List.foldlM_cons, hread]
    refine Iff.trans ?_ (and_iff_right fun hmoved => absurd rfl hmoved).symm
    by_cases hindent : indentOf line = 0
    · simp only [linesAtStart, hindent, if_true, totalIndent, Nat.zero_add]
      exact ih
    · simp only [linesAtStart, hindent, if_false, totalIndent]
      refine (readAll_moved hindent).trans ?_
      have hmoved : ∀ earlier, indentOf line + totalIndent earlier ≠ 0 := fun earlier => by omega
      simp only [ne_eq, hmoved, not_false_eq_true, forall_const]

/-- **`getline` finds room for every line exactly if all lines behind the first indented one fit, from where the
indentations so far have moved the pointer to, into the buffer that it has by then.** -/
theorem OptionsFile.fits_iff (file : OptionsFile) (grow : ℕ → ℕ → ℕ) :
    file.Fits grow ↔ EachAfter (fun earlier line => totalIndent earlier ≠ 0 →
      totalIndent earlier + (line.length + 2) ≤ bufferSize grow 0 (linesAtStart file.lines)) file.lines :=
  readAll_iff

theorem OptionsFile.not_fits (file : OptionsFile) {earlier later : List CString} {line : CString}
    (hlines : file.lines = earlier ++ line :: later) (hindent : totalIndent earlier ≠ 0)
    (hsize : bufferSize grow 0 (linesAtStart file.lines) < line.length + 2) : ¬ file.Fits grow := by
  intro hfits
  have hroom := (file.fits_iff grow).1 hfits earlier line later hlines hindent
  omega

end

/-! ## Lines of a file -/

/-- `CDE_init_options` on a file whose lines all end with a newline. -/
theorem initOptions_terminated (env : OptionsEnv) {lines : List CString}
    (h : ∀ line ∈ lines, newline ∉ line) :
    initOptions env (some (Delimited.terminated newline lines)) =
      (lines.foldlM (readLine env) ({}, {})).map Prod.snd := by
  have hlines := Delimited.splitOn_eq_concat_nil_iff.2 ⟨h, rfl⟩
  simp only [initOptions, initOptionsFrom, hlines, List.dropLast_concat, List.getLast?_concat]
  cases lines.foldlM (readLine env) ({}, {}) <;> rfl

/-- The buffer and what has been read do not depend on each other. -/
theorem foldlM_readLine (env : OptionsEnv) : ∀ (lines : List CString) (b b' : LineBuffer) (p p' : Parsed),
    lines.foldlM (readLine env) (b, p) = .ok (b', p') ↔
      lines.foldlM (LineBuffer.read env.grow) b = .ok b' ∧
        lines.foldlM (parseLine env.appDir) p = .ok p'
  | [], b, b', p, p' => by
    simp only [List.foldlM_nil, pure, Except.pure, Except.ok.injEq, Prod.mk.injEq]
  | line :: lines, b, b', p, p' => by
    simp only [List.foldlM_cons, bind_eq_ok, readLine]
    constructor
    · rintro ⟨⟨b₁, p₁⟩, ⟨b₂, hread, p₂, hparse, hpair⟩, hrest⟩
      obtain ⟨rfl, rfl⟩ := Prod.mk.inj (Except.ok.inj hpair)
      obtain ⟨hbuffer, hparsed⟩ := (foldlM_readLine env lines b₂ b' p₂ p').1 hrest
      exact ⟨⟨b₂, hread, hbuffer⟩, p₂, hparse, hparsed⟩
    · rintro ⟨⟨b₁, hread, hbuffer⟩, p₁, hparse, hparsed⟩
      exact ⟨(b₁, p₁), ⟨b₁, hread, p₁, hparse, rfl⟩,
        (foldlM_readLine env lines b₁ b' p₁ p').2 ⟨hbuffer, hparsed⟩⟩

theorem initOptions_eq_ok (env : OptionsEnv) {lines : List CString}
    (h : ∀ line ∈ lines, newline ∉ line) {p : Parsed} :
    initOptions env (some (Delimited.terminated newline lines)) = .ok p ↔
      (∃ b, lines.foldlM (LineBuffer.read env.grow) {} = .ok b) ∧
        lines.foldlM (parseLine env.appDir) {} = .ok p := by
  rw [initOptions_terminated env h]
  constructor
  · intro hrun
    cases hfold : lines.foldlM (readLine env) ({}, {}) with
    | error x =>
      rw [hfold] at hrun
      exact nomatch hrun
    | ok r =>
      rw [hfold] at hrun
      obtain rfl : r.2 = p := Except.ok.inj hrun
      obtain ⟨hbuffer, hparsed⟩ := (foldlM_readLine env lines {} r.1 {} r.2).1 hfold
      exact ⟨⟨r.1, hbuffer⟩, hparsed⟩
  · rintro ⟨⟨b, hbuffer⟩, hparsed⟩
    rw [(foldlM_readLine env lines {} b {} p).2 ⟨hbuffer, hparsed⟩]
    rfl

theorem OptionKey.line_noNewline (key : OptionKey) {v : CString} (hv : newline ∉ v) :
    newline ∉ key.line v := by
  have htoken : newline ∉ key.token := by
    rcases key with k | _ | _
    · cases k <;> decide
    · decide
    · decide
  intro hmem
  rcases List.mem_append.1 hmem with hmem | hmem
  · exact htoken hmem
  · rcases List.mem_cons.1 hmem with hmem | hmem
    · exact absurd hmem (by decide)
    · exact hv hmem

theorem Directive.lines_noNewline {d : Directive} (hd : ∀ v ∈ d.values, newline ∉ v) :
    ∀ line ∈ d.lines, newline ∉ line := by
  cases d with
  | set k v =>
    intro line hline
    rw [List.mem_singleton.1 hline]
    exact OptionKey.line_noNewline _ (hd v List.mem_cons_self)
  | process pi =>
    obtain ⟨hname, hpaths⟩ := List.forall_mem_cons.1 hd
    have hbrace : newline ∉ [openBrace] ∧ newline ∉ [closeBrace] := by decide
    rw [Directive.lines, List.forall_mem_cons, List.forall_mem_cons]
    refine ⟨OptionKey.line_noNewline _ hname, hbrace.1, ?_⟩
    intro line hline
    rcases List.mem_append.1 hline with hline | hline
    · obtain ⟨path, hpath, rfl⟩ := List.mem_map.1 hline
      exact OptionKey.line_noNewline _ (hpaths path hpath)
    · rw [List.mem_singleton.1 hline]
      exact hbrace.2

theorem Layout.noNewline {core file : List CString} (h : Layout core file)
    (hcore : ∀ line ∈ core, newline ∉ line) : ∀ line ∈ file, newline ∉ line := by
  induction h with
  | nil => exact hcore
  | filler hfiller _ ih => exact List.forall_mem_cons.2 ⟨hfiller.noNewline, ih hcore⟩
  | line hindent _ ih =>
    obtain ⟨hline, hrest⟩ := List.forall_mem_cons.1 hcore
    refine List.forall_mem_cons.2 ⟨?_, ih hrest⟩
    intro hmem
    rcases List.mem_append.1 hmem with hmem | hmem
    · exact hindent.noNewline hmem
    · exact hline hmem

namespace OptionsFile

variable (file : OptionsFile)

theorem versionLine_noNewline : newline ∉ file.versionLine := by
  have hversion : newline ∉ optionsVersionNum := by decide
  simp only [versionLine, List.mem_append, not_or]
  exact ⟨file.indent_isIndent.noNewline, hversion, file.note_noNewline⟩

theorem lines_noNewline : ∀ line ∈ file.lines, newline ∉ line := by
  intro line hline
  rcases List.mem_append.1 hline with hline | hline
  · exact (file.before_filler line hline).noNewline
  · rcases List.mem_cons.1 hline with rfl | hline
    · exact file.versionLine_noNewline
    · refine file.layout.noNewline ?_ line hline
      intro core hcore
      obtain ⟨d, hd, hmem⟩ := List.mem_flatMap.1 hcore
      exact Directive.lines_noNewline (file.values_noNewline d hd) core hmem

/-- The version line starts with the version and is a comment. -/
theorem strip_versionLine : ∃ t, strip file.versionLine = optionsVersionNum ++ t := by
  have hlast : optionsVersionNum = optionsVersionNum.dropLast ++ [49] := by decide
  have hsplit : ∀ t, optionsVersionNum ++ t = optionsVersionNum.dropLast ++ 49 :: t := by
    intro t
    conv_lhs => rw [hlast, List.append_assoc, List.singleton_append]
  have hfirst : (optionsVersionNum ++ file.note).dropWhile isspace = optionsVersionNum ++ file.note := by
    obtain ⟨t, ht⟩ : ∃ t, optionsVersionNum = sharp :: t := ⟨_, rfl⟩
    rw [ht, List.cons_append, List.dropWhile_cons_of_neg (by decide)]
  refine ⟨strRstrip file.note, ?_⟩
  rw [versionLine, strip_indent file.indent_isIndent, strip, hfirst, hsplit,
    strRstrip_append_cons (by decide), ← hsplit]

theorem versionLine_filler : IsFiller file.versionLine := by
  refine ⟨file.versionLine_noNewline, ?_⟩
  rw [versionLine, List.dropWhile_append_of_pos file.indent_isIndent.spaces]
  intro c hc
  exact (Option.some.inj hc).symm

/-- **Reading a file** is checking its first line and reading the directives. -/
theorem foldlM_lines {appDir : CString} {p : Parsed} : file.lines.foldlM (parseLine appDir) {} = .ok p ↔
    file.Versioned ∧
      (file.directives.flatMap Directive.lines).foldlM (parseLine appDir) afterVersion = .ok p := by
  have hstart : ∀ {line : CString}, startsWith (strip line) optionsVersionNum = true →
      parseLine appDir {} line = .ok afterVersion := by
    intro line h
    simp only [parseLine, h, if_true]
    rfl
  cases hbefore : file.before with
  | nil =>
    obtain ⟨t, ht⟩ := file.strip_versionLine
    have hversion : startsWith (strip file.versionLine) optionsVersionNum = true := by
      rw [ht]
      exact List.isPrefixOf_iff_prefix.2 (List.prefix_append _ _)
    have hversioned : file.Versioned := by simp [Versioned, hbefore]
    rw [lines, hbefore, List.nil_append, List.foldlM_cons, hstart hversion]
    simp only [hversioned, true_and]
    rw [← foldlM_layout file.layout rfl]
    rfl
  | cons line before =>
    have hfiller := file.before_filler
    rw [hbefore, List.forall_mem_cons] at hfiller
    have hrest : Layout (file.directives.flatMap Directive.lines)
        (before ++ file.versionLine :: file.rest) := by
      have hall := hfiller.2
      clear hbefore hfiller
      induction before with
      | nil => exact .filler file.versionLine_filler file.layout
      | cons l ls ih =>
        obtain ⟨hl, hls⟩ := List.forall_mem_cons.1 hall
        exact .filler hl (ih hls)
    have hversioned : file.Versioned ↔ startsWith (strip line) optionsVersionNum = true := by
      simp [Versioned, hbefore]
    rw [lines, hbefore, List.cons_append, List.foldlM_cons, hversioned, ← foldlM_layout hrest rfl]
    by_cases hline : startsWith (strip line) optionsVersionNum = true
    · rw [hstart hline]
      simp only [hline, true_and]
      rfl
    · have hfail : ∀ q, parseLine appDir {} line ≠ .ok q := by
        intro q hq
        simp [parseLine, hline] at hq
      rw [bind_eq_ok]
      constructor
      · rintro ⟨q, hq, -⟩
        exact absurd hq (hfail q)
      · rintro ⟨hversion, -⟩
        exact absurd hversion hline

end OptionsFile

/-! ## The generated file -/

theorem foldlM_isFirstLine {appDir : CString} : ∀ (lines : List CString) {st st' : Parsed},
    lines.foldlM (parseLine appDir) st = .ok st' → lines ≠ [] → st'.isFirstLine = false
  | [line], st, st', h, _ => by
    rw [List.foldlM_cons] at h
    exact parseLine_isFirstLine ((bind_pure _).symm.trans h)
  | line :: next :: lines, st, st', h, _ => by
    rw [List.foldlM_cons, bind_eq_ok] at h
    obtain ⟨st₁, -, hrest⟩ := h
    exact foldlM_isFirstLine (next :: lines) hrest (List.cons_ne_nil _ _)

/-- The stray line is no directive. -/
theorem parseLine_strayLine {appDir : CString} {st st' : Parsed} (hfirst : st.isFirstLine = false) :
    parseLine appDir st strayLine ≠ .ok st' := by
  have hstrip : strip strayLine = strayLine := by decide
  have htokens : strtok strayLine equalsSign = [strayLine] := strtok_word (by decide) (by decide)
  have hkey : findKey strayLine = none := by decide
  obtain ⟨t, hcons⟩ : ∃ t, strayLine = slash :: t := ⟨_, rfl⟩
  intro h
  rw [parseLine, if_neg (by simp [hfirst]), hstrip] at h
  have hstripped : parseStripped appDir st strayLine = parseTokens appDir st [strayLine] := by
    rw [← htokens]
    conv_lhs => rw [hcons]
    rw [parseStripped, if_neg (by decide), if_neg (by decide), if_neg (by decide), ← hcons]
  rw [hstripped, parseTokens, hkey] at h
  cases h

theorem terminated_eq_concat {lines : List CString} (h : lines ≠ []) :
    ∃ t, Delimited.terminated newline lines = t ++ [newline] := by
  obtain ⟨before, line, rfl⟩ := (List.eq_nil_or_concat lines).resolve_left h
  refine ⟨Delimited.terminated newline before ++ line, ?_⟩
  simp [Delimited.terminated]

/-- **The generated file is not accepted.** -/
theorem defaultOptions_rejected (env : OptionsEnv) (localNetworkSettings : Bool) (p : Parsed) :
    initOptions env (some (defaultOptions localNetworkSettings)) ≠ .ok p := by
  have hne : defaultLinesBefore ≠ [] := List.cons_ne_nil _ _
  obtain ⟨before, hbefore⟩ := terminated_eq_concat hne
  set after := Delimited.terminated newline (networkLines localNetworkSettings ++ defaultLinesAfter)
  have hstray : newline ∉ strayLine := by decide
  -- the stray line is one of the pieces, and not the first one
  have hpieces : (defaultOptions localNetworkSettings).splitOn newline =
      before.splitOn newline ++ strayLine :: after.splitOn newline := by
    have htext : defaultOptions localNetworkSettings =
        before ++ newline :: (strayLine ++ newline :: after) := by
      rw [defaultOptions, defaultLines, Delimited.terminated, List.flatMap_append, List.flatMap_cons,
        ← Delimited.terminated, hbefore]
      simp [after, Delimited.terminated]
    have hline : (strayLine ++ newline :: after).splitOn newline = strayLine :: after.splitOn newline :=
      List.splitOnP_append_cons_of_forall_mem
        (fun x hx => by simpa using ne_of_mem_of_not_mem hx hstray) newline (by simp) _
    rw [htext, ← hline]
    exact List.splitOnP_append_cons before _ (by simp)
  have hdropLast : ((defaultOptions localNetworkSettings).splitOn newline).dropLast =
      before.splitOn newline ++ strayLine :: (after.splitOn newline).dropLast := by
    rw [hpieces, List.dropLast_append_of_ne_nil (List.cons_ne_nil _ _),
      List.dropLast_cons_of_ne_nil (List.splitOn_ne_nil _ _)]
  intro h
  obtain ⟨⟨b, p'⟩, hrun, -⟩ := bind_eq_ok.1 h
  have hparse := ((foldlM_readLine env _ _ _ _ _).1 hrun).2
  rw [hdropLast, List.foldlM_append, bind_eq_ok] at hparse
  obtain ⟨st, hfold, hrest⟩ := hparse
  rw [List.foldlM_cons, bind_eq_ok] at hrest
  obtain ⟨st', hread, -⟩ := hrest
  exact parseLine_strayLine (foldlM_isFirstLine _ hfold (List.splitOn_ne_nil _ _)) hread

/-! ## Acceptance -/

/-- A run accepts the options it finds: those of a given file with exactly the printed values,
or the file it writes itself. -/
def Accepts (env : OptionsEnv) : Option OptionsFile → Prop
  | none => ∃ p, loadOptions env none = .ok p
  | some file => ∃ p, loadOptions env (some file.text) = .ok p ∧ p.Holds file.directives

/-- The files that are read back. -/
structure Acceptable (env : OptionsEnv) (file : OptionsFile) : Prop where
  versioned : file.Versioned
  fits : file.Fits env.grow
  readable : Readable env.appDir file.directives

theorem accepts_file_iff (env : OptionsEnv) (file : OptionsFile) :
    Accepts env (some file) ↔ Acceptable env file := by
  have hload : loadOptions env (some file.text) = initOptions env (some file.text) := by
    rw [loadOptions]
    split_ifs <;> rfl
  have hrun : ∀ p, loadOptions env (some file.text) = .ok p ↔ file.Fits env.grow ∧ file.Versioned ∧
      (file.directives.flatMap Directive.lines).foldlM (parseLine env.appDir) afterVersion = .ok p := by
    intro p
    rw [hload, OptionsFile.text, initOptions_eq_ok env file.lines_noNewline, file.foldlM_lines]
    rfl
  have hholds := run_holds_iff env.appDir file.directives
  constructor
  · rintro ⟨p, hp, hdirectives⟩
    obtain ⟨hfits, hversioned, hread⟩ := (hrun p).1 hp
    exact ⟨hversioned, hfits, hholds.1 ⟨p, hread, hdirectives⟩⟩
  · rintro ⟨hversioned, hfits, hreadable⟩
    obtain ⟨p, hread, hdirectives⟩ := hholds.2 hreadable
    exact ⟨p, (hrun p).2 ⟨hfits, hversioned, hread⟩, hdirectives⟩

theorem Layout.refl : ∀ core : List CString, Layout core core
  | [] => .nil
  | _ :: core => .line (w := []) ⟨by simp, by simp⟩ (Layout.refl core)

/-- The directives as they are printed, with nothing added. -/
def printed (ds : List Directive) (h : ∀ d ∈ ds, ∀ v ∈ d.values, newline ∉ v) : OptionsFile where
  directives := ds
  before := []
  indent := []
  note := []
  rest := ds.flatMap Directive.lines
  before_filler := by simp
  indent_isIndent := ⟨by simp, by simp⟩
  note_noNewline := by simp
  layout := Layout.refl _
  values_noNewline := h

/-- `getline` starts with 120 bytes and at least doubles a buffer. -/
def glibcGrow (size needed : ℕ) : ℕ := max (if size = 0 then 120 else 2 * size) needed

def bobOptions : OptionsEnv where
  execMode := false
  cderootDir := []
  appDir := str "/home/bob/cde-package"
  localNetworkSettings := true
  grow := glibcGrow

example : Accepts bobOptions (some (printed
    [.set .ignorePrefix (str "/dev/"), .process ⟨str "/usr/bin/ssh", [str "/home/bob/.ssh"]⟩]
    (by decide))) := by
  refine (accepts_file_iff _ _).2 ⟨by simp [OptionsFile.Versioned, printed], ⟨_, rfl⟩, ?_⟩
  refine ⟨?_, ?_, ?_, ?_, ?_, by decide, by decide⟩
  · intro k _ v hv
    refine stored_eq_self_iff.1 ?_
    cases k <;> simp [arrayValues, printed] at hv
    rw [hv]
    decide
  · intro v hv
    simp [arrayValues, printed] at hv
  · intro pi hpi
    simp [processBlocks, printed] at hpi
    rw [hpi]
    exact stored_eq_self_iff.1 (by decide)
  · intro pi hpi path hpath
    simp [processBlocks, printed] at hpi
    rw [hpi] at hpath
    rw [List.mem_singleton.1 hpath]
    exact stored_eq_self_iff.1 (by decide)
  · intro k
    cases k <;> decide

theorem not_accepts_none (env : OptionsEnv) : ¬ Accepts env none := by
  rintro ⟨p, hp⟩
  rw [loadOptions] at hp
  split_ifs at hp
  · exact nomatch hp
  · exact defaultOptions_rejected env _ p hp

/-- **The options file reads back what it says** exactly if it is given and acceptable. -/
theorem accepts_iff (env : OptionsEnv) (source : Option OptionsFile) :
    Accepts env source ↔ ∃ file, source = some file ∧ Acceptable env file := by
  cases source with
  | none =>
    refine iff_of_false (not_accepts_none env) ?_
    rintro ⟨file, hfile, -⟩
    exact nomatch hfile
  | some file =>
    rw [accepts_file_iff]
    constructor
    · intro h
      exact ⟨file, rfl, h⟩
    · rintro ⟨file', hfile, h⟩
      rw [Option.some.inj hfile]
      exact h

/-- A value that does not fit into the first buffer. -/
def longValue : CString := List.replicate 120 97

/-- An indented line, and then a long one. -/
def indentedFile : OptionsFile where
  directives := [.set .ignorePrefix (str "/dev/"), .set .ignoreExact longValue]
  before := []
  indent := []
  note := []
  rest := [str "  " ++ (OptionKey.array .ignorePrefix).line (str "/dev/"),
    [] ++ (OptionKey.array .ignoreExact).line longValue]
  before_filler := by simp
  indent_isIndent := ⟨by simp, by simp⟩
  note_noNewline := by simp
  layout := .line ⟨by decide, by simp [str, isspace]⟩ (.line ⟨by simp, by simp⟩ .nil)
  values_noNewline := by simp [Directive.values, longValue]; decide

/-- The long line would be written to the pointer that was moved by the indentation. -/
theorem indentedFile_not_fits : ¬ indentedFile.Fits glibcGrow := by
  have hlength : ([] ++ (OptionKey.array .ignoreExact).line longValue).length = 133 := by
    simp only [OptionKey.line, longValue, List.length_append, List.length_cons, List.length_replicate]
    decide
  have hsize : bufferSize glibcGrow 0 (linesAtStart indentedFile.lines) = 120 := by decide
  have hlines : indentedFile.lines = [indentedFile.versionLine,
      str "  " ++ (OptionKey.array .ignorePrefix).line (str "/dev/")] ++
        ([] ++ (OptionKey.array .ignoreExact).line longValue) :: [] := rfl
  refine indentedFile.not_fits hlines (by decide) ?_
  rw [hsize, hlength]
  decide

/-- Files that are not read back: the generated one, a value with an `=`, a repository, a list
of 100 entries, 50 blocks, a block with 20 prefixes, and a long line after an indented one. -/
theorem options_lost :
    ¬ Accepts bobOptions none ∧
    ¬ Accepts bobOptions (some (printed [.set .ignoreExact (str "/a=b")] (by decide))) ∧
    ¬ Accepts bobOptions (some (printed [.set .multiRepoPath (str "repo1")] (by decide))) ∧
    ¬ Accepts bobOptions (some (printed (List.replicate 100 (.set .ignoreExact (str "/a")))
      (by simp [Directive.values]; decide))) ∧
    ¬ Accepts bobOptions (some (printed (List.replicate 50 (.process ⟨str "/a", []⟩))
      (by simp [Directive.values]; decide))) ∧
    ¬ Accepts bobOptions (some (printed [.process ⟨str "/a", List.replicate 20 (str "/b")⟩]
      (by decide))) ∧
    ¬ Accepts bobOptions (some indentedFile) := by
  simp only [accepts_file_iff]
  refine ⟨not_accepts_none _, ?_, ?_, ?_, ?_, ?_, ?_⟩
  · intro h
    have hback := h.readable.values .ignoreExact (by decide) (str "/a=b") (by decide)
    exact hback.noEquals (by decide)
  · intro h
    exact absurd (h.readable.no_repos (by decide)) (by decide)
  · intro h
    have hlt := h.readable.arrays_lt .ignoreExact
    simp [printed, arrayValues] at hlt
  · intro h
    have hlt := h.readable.processes_lt
    simp [printed, processBlocks] at hlt
  · intro h
    exact absurd (h.readable.prefixes_lt ⟨str "/a", List.replicate 20 (str "/b")⟩ (by decide)) (by decide)
  · intro h
    exact indentedFile_not_fits h.fits

end Ptu
