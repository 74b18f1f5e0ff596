import Ptu.Proof.Shebang
import Ptu.Spec.Options

/-!
# Lines of the options file

What `CDE_init_options` makes of a single line. A `key=value` line adds the first token of the
value (`stored`), which is the value itself exactly when it is not empty, has no `=` and does
not end with white space (`stored_eq_self_iff`). Comments, blank lines and indentation change
nothing after the first line (`foldlM_layout`).
-/

namespace Ptu

variable {appDir : CString} {st st' : Parsed}

/-! ## Values -/

/-- What is kept of the value behind `key=`. -/
def stored (v : CString) : Option CString := (strtok (strRstrip v) equalsSign).head?

/-- A value that is kept as it is. -/
structure ReadsBack (v : CString) : Prop where
  ne_nil : v ≠ []
  noEquals : equalsSign ∉ v
  noSpace : strRstrip v = v

theorem strRstrip_append_cons {c : Byte} (hc : isspace c = false) (a b : CString) :
    strRstrip (a ++ c :: b) = a ++ c :: strRstrip b := by
  unfold strRstrip
  induction b using List.reverseRecOn with
  | nil => rw [List.rdropWhile_concat_neg _ _ _ (by simp [hc]), List.rdropWhile_nil]
  | append_singleton b x ih =>
    have hassoc : a ++ c :: (b ++ [x]) = (a ++ c :: b) ++ [x] := by simp
    by_cases hx : isspace x = true
    · rw [hassoc, List.rdropWhile_concat_pos _ _ _ hx, List.rdropWhile_concat_pos _ _ _ hx, ih]
    · rw [hassoc, List.rdropWhile_concat_neg _ _ _ hx, List.rdropWhile_concat_neg _ _ _ hx, ← hassoc]

theorem stored_of_noEquals {v : CString} (h : equalsSign ∉ v) :
    stored v = if strRstrip v = [] then none else some (strRstrip v) := by
  obtain ⟨ws, hws, -⟩ := strRstrip_eq_append v
  have hkept : equalsSign ∉ strRstrip v := by
    intro hmem
    exact h (by rw [hws]; exact List.mem_append_left _ hmem)
  unfold stored
  split_ifs with hnil
  · rw [hnil]
    rfl
  · rw [strtok_word hnil hkept]
    rfl

/-- **When a value is read back.** -/
theorem stored_eq_self_iff {v : CString} : stored v = some v ↔ ReadsBack v := by
  constructor
  · intro h
    obtain ⟨ws, htokens⟩ := List.head?_eq_some_iff.1 h
    obtain ⟨-, -, -, -, hne, hequals, -, -⟩ := strtok_cons_inv htokens
    rw [stored_of_noEquals hequals] at h
    split_ifs at h with hnil
    exact ⟨hne, hequals, Option.some.inj h⟩
  · rintro ⟨hne, hequals, hspace⟩
    rw [stored_of_noEquals hequals, hspace, if_neg hne]

/-! ## Arrays -/

/-- The array that a key fills. -/
def Parsed.array (st : Parsed) : ArrayKey → List CString
  | .ignoreExact => st.opts.ignoreExactPaths
  | .ignorePrefix => st.opts.ignorePrefixPaths
  | .ignoreEnvironmentVar => st.ignoreEnvvars
  | .redirectExact => st.opts.redirectExactPaths
  | .redirectPrefix => st.opts.redirectPrefixPaths
  | .ignoreSubstr => st.opts.ignoreSubstrPaths
  | .redirectSubstr => st.opts.redirectSubstrPaths
  | .multiRepoPath => st.opts.multiRepoPaths

def Parsed.setArray (st : Parsed) (k : ArrayKey) (a : List CString) : Parsed :=
  match k with
  | .ignoreExact => { st with opts.ignoreExactPaths := a }
  | .ignorePrefix => { st with opts.ignorePrefixPaths := a }
  | .ignoreEnvironmentVar => { st with ignoreEnvvars := a }
  | .redirectExact => { st with opts.redirectExactPaths := a }
  | .redirectPrefix => { st with opts.redirectPrefixPaths := a }
  | .ignoreSubstr => { st with opts.ignoreSubstrPaths := a }
  | .redirectSubstr => { st with opts.redirectSubstrPaths := a }
  | .multiRepoPath => { st with opts.multiRepoPaths := a }

theorem Parsed.array_setArray (st : Parsed) (k k' : ArrayKey) (a : List CString) :
    (st.setArray k a).array k' = if k' = k then a else st.array k' := by
  cases k <;> cases k' <;> rfl

theorem Parsed.setArray_array (st : Parsed) (k : ArrayKey) : st.setArray k (st.array k) = st := by
  cases k <;> rfl

/-- The rest of the state. -/
theorem Parsed.setArray_rest (st : Parsed) (k : ArrayKey) (a : List CString) :
    (st.setArray k a).isFirstLine = st.isFirstLine ∧ (st.setArray k a).inBraces = st.inBraces ∧
      (st.setArray k a).opts.processIgnores = st.opts.processIgnores := by
  cases k <;> exact ⟨rfl, rfl, rfl⟩

def Parsed.setProcesses (st : Parsed) (ps : List ProcessIgnore) : Parsed :=
  { st with opts.processIgnores := ps }

theorem Parsed.array_setProcesses (st : Parsed) (ps : List ProcessIgnore) (k : ArrayKey) :
    (st.setProcesses ps).array k = st.array k := by
  cases k <;> rfl

/-- What an array gets for the value `p`. -/
def entry (appDir : CString) (k : ArrayKey) (p : CString) : CString :=
  if k = .multiRepoPath then appDir ++ str "/" ++ p else p

theorem addToArrayInternal_eq_ok {a a' : List CString} {p name : CString} :
    addToArrayInternal a p name = .ok a' ↔ a.length + 1 < 100 ∧ a' = a ++ [p] := by
  rw [addToArrayInternal]
  simp only [ite_throw_eq_ok, List.length_append, List.length_singleton, not_le]
  refine and_congr_right fun _ => ?_
  exact ⟨fun h => (Except.ok.inj h).symm, fun h => congrArg Except.ok h.symm⟩

/-- **An array takes 99 entries.** -/
theorem addOption_array_eq_ok {k : ArrayKey} {p : CString} :
    addOption appDir st (.array k) p = .ok st' ↔
      (st.array k).length + 1 < 100 ∧ st' = st.setArray k (st.array k ++ [entry appDir k p]) := by
  have hadd : ∀ (name : CString) (f : List CString → Parsed),
      (addToArrayInternal (st.array k) (entry appDir k p) name >>= fun a => pure (f a)) = .ok st' ↔
        (st.array k).length + 1 < 100 ∧ st' = f (st.array k ++ [entry appDir k p]) := by
    intro name f
    rw [bind_eq_ok]
    constructor
    · rintro ⟨a, ha, hst⟩
      obtain ⟨hlen, rfl⟩ := addToArrayInternal_eq_ok.1 ha
      exact ⟨hlen, (Except.ok.inj hst).symm⟩
    · rintro ⟨hlen, rfl⟩
      exact ⟨_, addToArrayInternal_eq_ok.2 ⟨hlen, rfl⟩, rfl⟩
  cases k <;> exact hadd _ _

theorem addIgnoreProcess_eq_ok {p : CString} : addOption appDir st .ignoreProcess p = .ok st' ↔
    st.opts.processIgnores.length + 1 < 50 ∧
      st' = st.setProcesses (st.opts.processIgnores ++ [⟨p, []⟩]) := by
  rw [addOption, addIgnoreProcess]
  simp only [ite_throw_eq_ok, List.length_append, List.length_singleton, not_le]
  refine and_congr_right fun _ => ?_
  exact ⟨fun h => (Except.ok.inj h).symm, fun h => congrArg Except.ok h.symm⟩

/-- A prefix goes to the process that was named last. -/
theorem addProcessIgnorePrefix_eq_ok {p : CString} {before : List ProcessIgnore} {cur : ProcessIgnore}
    (h : st.opts.processIgnores = before ++ [cur]) :
    addOption appDir st .processIgnorePrefix p = .ok st' ↔
      cur.processIgnorePrefixPaths.length + 1 < 20 ∧
        st' = st.setProcesses
          (before ++ [⟨cur.processName, cur.processIgnorePrefixPaths ++ [p]⟩]) := by
  have hlast : st.opts.processIgnores.getLast? = some cur := by rw [h, List.getLast?_concat]
  have hinit : st.opts.processIgnores.dropLast = before := by rw [h, List.dropLast_concat]
  rw [addOption, addProcessIgnorePrefix]
  simp only [hlast, hinit, ite_throw_eq_ok, List.length_append, List.length_singleton, not_le]
  refine and_congr_right fun _ => ?_
  exact ⟨fun h => (Except.ok.inj h).symm, fun h => congrArg Except.ok h.symm⟩

/-- **What a directive can do**: it adds an entry to its array, or it changes the blocks. -/
theorem addOption_cases {key : OptionKey} {p : CString} (h : addOption appDir st key p = .ok st') :
    (∃ k, key = .array k ∧ st' = st.setArray k (st.array k ++ [entry appDir k p])) ∨
      (∀ k, key ≠ .array k) ∧ ∃ ps, st' = st.setProcesses ps := by
  rcases key with k | _ | _
  · exact Or.inl ⟨k, rfl, (addOption_array_eq_ok.1 h).2⟩
  · exact Or.inr ⟨nofun, _, (addIgnoreProcess_eq_ok.1 h).2⟩
  · rcases List.eq_nil_or_concat st.opts.processIgnores with hnil | ⟨before, cur, hcat⟩
    · rw [addOption, addProcessIgnorePrefix, hnil] at h
      exact nomatch h
    · rw [List.concat_eq_append] at hcat
      exact Or.inr ⟨nofun, _, ((addProcessIgnorePrefix_eq_ok hcat).1 h).2⟩

/-- No directive touches the flags. -/
theorem addOption_flags {key : OptionKey} {p : CString} (h : addOption appDir st key p = .ok st') :
    st'.isFirstLine = st.isFirstLine ∧ st'.inBraces = st.inBraces := by
  rcases addOption_cases h with ⟨k, -, rfl⟩ | ⟨-, ps, rfl⟩
  · exact ⟨(st.setArray_rest k _).1, (st.setArray_rest k _).2.1⟩
  · exact ⟨rfl, rfl⟩

/-! ## Keys -/

/-- A key starts with no character that has another meaning. -/
theorem OptionKey.token_cons (key : OptionKey) : ∃ c t, key.token = c :: t ∧ isspace c = false ∧
    c ≠ sharp ∧ c ≠ openBrace ∧ c ≠ closeBrace ∧ equalsSign ∉ c :: t := by
  rcases key with k | _ | _
  · cases k <;> exact ⟨_, _, rfl, by decide, by decide, by decide, by decide, by decide⟩
  · exact ⟨_, _, rfl, by decide, by decide, by decide, by decide, by decide⟩
  · exact ⟨_, _, rfl, by decide, by decide, by decide, by decide, by decide⟩

theorem findKey_token (key : OptionKey) : findKey key.token = some key := by
  rcases key with k | _ | _
  · cases k <;> decide
  · decide
  · decide

/-- The line `key=value`. -/
def OptionKey.line (key : OptionKey) (v : CString) : CString := key.token ++ equalsSign :: v

/-- **A `key=value` line** adds what is stored of the value, in or out of braces as the key
demands. -/
theorem parseLine_key (key : OptionKey) (v : CString) (hfirst : st.isFirstLine = false)
    (hbraces : st.inBraces = true ↔ key = .processIgnorePrefix) :
    parseLine appDir st (key.line v) = (stored v).elim (.ok st) (addOption appDir st key) := by
  obtain ⟨c, t, htoken, hspace, hsharp, hopen, hclose, hequals⟩ := key.token_cons
  have hstrip : strip (key.line v) = c :: (t ++ equalsSign :: strRstrip v) := by
    rw [strip, OptionKey.line, htoken, List.cons_append, List.dropWhile_cons_of_neg (by simp [hspace]),
      ← List.cons_append, strRstrip_append_cons (by decide), List.cons_append]
  have htokens : strtok (c :: (t ++ equalsSign :: strRstrip v)) equalsSign =
      key.token :: strtok (strRstrip v) equalsSign := by
    rw [← List.cons_append, strtok_word_append (List.cons_ne_nil c t) hequals, htoken]
  have hinside : ¬ (key = .processIgnorePrefix ∧ st.inBraces = false) := by
    rintro ⟨hkey, hout⟩
    rw [hbraces.2 hkey] at hout
    exact absurd hout (by decide)
  have houtside : ¬ (st.inBraces = true ∧ key ≠ .processIgnorePrefix) := by
    rintro ⟨hin, hkey⟩
    exact hkey (hbraces.1 hin)
  rw [parseLine, if_neg (by simp [hfirst]), hstrip]
  simp only [parseStripped, hsharp, hopen, hclose, if_false, htokens, parseTokens, findKey_token,
    hinside, houtside, stored]
  cases strtok (strRstrip v) equalsSign <;> rfl

/-- The tokens of a line are a key and what is added to it. -/
theorem parseTokens_cases {tokens : List CString} (h : parseTokens appDir st tokens = .ok st') :
    st' = st ∨ ∃ key, ∃ p ∈ tokens, addOption appDir st key p = .ok st' := by
  cases tokens with
  | nil => exact Or.inl (Except.ok.inj h).symm
  | cons token rest =>
    rw [parseTokens] at h
    cases hkey : findKey token with
    | none =>
      rw [hkey] at h
      cases h
    | some key =>
      simp only [hkey, ite_throw_eq_ok] at h
      obtain ⟨-, -, h⟩ := h
      cases rest with
      | nil => exact Or.inl (Except.ok.inj h).symm
      | cons p _ => exact Or.inr ⟨key, p, by simp, h⟩

/-- **What a line can do**: it changes the flags, or it adds one token. -/
theorem parseLine_cases {line : CString} (h : parseLine appDir st line = .ok st') :
    (∃ inBraces, st' = { st with isFirstLine := false, inBraces }) ∨
      st.isFirstLine = false ∧
        ∃ key, ∃ p ∈ strtok (strip line) equalsSign, addOption appDir st key p = .ok st' := by
  unfold parseLine at h
  split_ifs at h with hfirst hversion
  · exact Or.inl ⟨st.inBraces, (Except.ok.inj h).symm⟩
  · have hfirst' : st.isFirstLine = false := by simpa using hfirst
    have hsame : ∀ inBraces, { st with isFirstLine := false, inBraces } = { st with inBraces } := by
      intro inBraces
      rw [← hfirst']
    cases hline : strip line with
    | nil =>
      rw [hline] at h
      exact Or.inl ⟨st.inBraces, by rw [hsame]; exact (Except.ok.inj h).symm⟩
    | cons c t =>
      rw [hline, parseStripped] at h
      split_ifs at h
      · exact Or.inl ⟨st.inBraces, by rw [hsame]; exact (Except.ok.inj h).symm⟩
      · exact Or.inl ⟨true, by rw [hsame]; exact (Except.ok.inj h).symm⟩
      · exact Or.inl ⟨false, by rw [hsame]; exact (Except.ok.inj h).symm⟩
      · rcases parseTokens_cases h with rfl | hadd
        · exact Or.inl ⟨st'.inBraces, by rw [hsame]⟩
        · exact Or.inr ⟨hfirst', hadd⟩

/-! ## What may be added anywhere -/

/-- A blank line or a comment. -/
structure IsFiller (line : CString) : Prop where
  noNewline : newline ∉ line
  blank : ∀ c ∈ (line.dropWhile isspace).head?, c = sharp

structure IsIndent (w : CString) : Prop where
  noNewline : newline ∉ w
  spaces : ∀ c ∈ w, isspace c = true

/-- The lines of a file with the given lines, in order and perhaps indented, and fillers. -/
inductive Layout : List CString → List CString → Prop where
  | nil : Layout [] []
  | filler {line : CString} {core file : List CString} :
    IsFiller line → Layout core file → Layout core (line :: file)
  | line {w line : CString} {core file : List CString} :
    IsIndent w → Layout core file → Layout (line :: core) ((w ++ line) :: file)

theorem parseLine_filler {line : CString} (h : IsFiller line) (hfirst : st.isFirstLine = false) :
    parseLine appDir st line = .ok st := by
  rw [parseLine, if_neg (by simp [hfirst]), strip]
  have hblank := h.blank
  cases hline : line.dropWhile isspace with
  | nil => rfl
  | cons c t =>
    rw [hline] at hblank
    obtain rfl : c = sharp := hblank c rfl
    have hstrip : strRstrip (sharp :: t) = sharp :: strRstrip t :=
      strRstrip_append_cons (by decide) [] t
    rw [hstrip, parseStripped, if_pos rfl]

theorem strip_indent {w : CString} (h : IsIndent w) (line : CString) : strip (w ++ line) = strip line := by
  rw [strip, strip, List.dropWhile_append_of_pos h.spaces]

theorem parseLine_indent {w : CString} (h : IsIndent w) (line : CString) :
    parseLine appDir st (w ++ line) = parseLine appDir st line := by
  rw [parseLine, parseLine, strip_indent h]

/-- Only the first line is the first line. -/
theorem parseLine_isFirstLine {line : CString} (h : parseLine appDir st line = .ok st') :
    st'.isFirstLine = false := by
  rcases parseLine_cases h with ⟨inBraces, rfl⟩ | ⟨hfirst, key, p, -, hadd⟩
  · rfl
  · rw [(addOption_flags hadd).1, hfirst]

/-- **Fillers and indentation change nothing** after the first line. -/
theorem foldlM_layout {core file : List CString} (h : Layout core file) (hfirst : st.isFirstLine = false) :
    file.foldlM (parseLine appDir) st = core.foldlM (parseLine appDir) st := by
  induction h generalizing st with
  | nil => rfl
  | filler hfiller _ ih =>
    rw [List.foldlM_cons, parseLine_filler hfiller hfirst]
    exact ih hfirst
  | line hindent _ ih =>
    rw [List.foldlM_cons, List.foldlM_cons, parseLine_indent hindent]
    cases hline : parseLine appDir st _ with
    | error x => rfl
    | ok st₁ => exact ih (parseLine_isFirstLine hline)

end Ptu
