import Mathlib.Data.List.Perm.Basic
import Ptu.Proof.Options
import Ptu.Proof.Redirect

/-!
# The order of the rules

`ignore_path` asks for each array only whether one of its entries matches, so its answer depends on which rules
there are and not on their order.

* `array_initOptionsFrom`: the arrays after loading are those before it with the rules of the text behind them.
* `ignorePath_congr`, `ignorePath_false_mono`, `ignorePath_true_mono`: what the answer depends on, and in which
  direction.
* `ignore_order_monotone`: **two files with the same rules give the same answers, one more redirect rule never
  ignores more, and one more ignore rule never ignores less**.
-/

namespace Ptu

variable {appDir : CString} {st st' : Parsed} {env : OptionsEnv} {k : ArrayKey}

/-! ## The rules of a text -/

/-- A directive that fills an array: its key and its value. -/
abbrev Rule := ArrayKey × CString

/-- The rule in the tokens of a line, whose value is the second token. -/
def tokensRule : List CString → Option Rule
  | token :: value :: _ =>
    match findKey token with
    | some (.array k) => some (k, value)
    | _ => none
  | _ => none

/-- The rule on a line, none for a comment, a brace or a directive of an `ignore_process` block. -/
def lineRule (line : CString) : Option Rule :=
  if (strip line).head?.any (· ∈ [sharp, openBrace, closeBrace]) then none
  else tokensRule (strtok (strip line) equalsSign)

/-- The rules of an options file. -/
def textRules (text : CString) : List Rule := (text.splitOn newline).filterMap lineRule

/-- The values for the array of `k`. -/
def ruleValues (rules : List Rule) (k : ArrayKey) : List CString :=
  rules.filterMap fun r => if r.1 = k then some r.2 else none

theorem mem_ruleValues {rules : List Rule} {v : CString} : v ∈ ruleValues rules k ↔ (k, v) ∈ rules := by
  simp only [ruleValues, List.mem_filterMap]
  constructor
  · rintro ⟨⟨k', v'⟩, hmem, hval⟩
    split_ifs at hval with hk
    obtain rfl : v' = v := Option.some.inj hval
    obtain rfl : k' = k := hk
    exact hmem
  · intro hmem
    exact ⟨(k, v), hmem, if_pos rfl⟩

/-! ## Loading -/

theorem addOption_array {key : OptionKey} {p : CString} (h : addOption appDir st key p = .ok st') :
    st'.array k = st.array k ++ if key = .array k then [entry appDir k p] else [] := by
  rcases addOption_cases h with ⟨k', rfl, rfl⟩ | ⟨hkey, ps, rfl⟩
  · rw [Parsed.array_setArray]
    by_cases hk : k = k'
    · subst hk
      simp
    · have hne : ¬ OptionKey.array k' = .array k := fun h' => hk (OptionKey.array.inj h').symm
      rw [if_neg hk, if_neg hne, List.append_nil]
  · rw [Parsed.array_setProcesses, if_neg (hkey k), List.append_nil]

theorem parseTokens_array {tokens : List CString} (h : parseTokens appDir st tokens = .ok st') :
    st'.array k = st.array k ++ (ruleValues (tokensRule tokens).toList k).map (entry appDir k) := by
  match tokens with
  | [] =>
    obtain rfl : st = st' := Except.ok.inj h
    simp [tokensRule, ruleValues]
  | token :: rest =>
    rw [parseTokens] at h
    cases hkey : findKey token with
    | none =>
      rw [hkey] at h
      cases h
    | some key =>
      simp only [hkey, ite_throw_eq_ok] at h
      obtain ⟨-, -, h⟩ := h
      cases rest with
      | nil =>
        obtain rfl : st = st' := Except.ok.inj h
        simp [tokensRule, ruleValues]
      | cons p _ =>
        rw [addOption_array h]
        rcases key with k' | _ | _
        · by_cases hk : k' = k
          · simp [tokensRule, hkey, ruleValues, hk]
          · simp [tokensRule, hkey, ruleValues, hk]
        · simp [tokensRule, hkey, ruleValues]
        · simp [tokensRule, hkey, ruleValues]

theorem lineRule_version {line : CString} (h : startsWith (strip line) optionsVersionNum = true) :
    lineRule line = none := by
  have hhead : (strip line).head? = some sharp := by
    cases hline : strip line with
    | nil =>
      rw [hline] at h
      exact absurd h (by decide)
    | cons c t =>
      rw [hline] at h
      obtain ⟨rest, hrest⟩ := startsWith_iff.1 h
      exact congrArg List.head? hrest.symm
  rw [lineRule, hhead]
  rfl

/-- **A line adds its rule.** -/
theorem parseLine_array {line : CString} (h : parseLine appDir st line = .ok st') :
    st'.array k = st.array k ++ (ruleValues (lineRule line).toList k).map (entry appDir k) := by
  have hkeep : ∀ st₁ : Parsed, st₁.array k = st.array k → lineRule line = none →
      st₁.array k = st.array k ++ (ruleValues (lineRule line).toList k).map (entry appDir k) := by
    intro st₁ hsame hnone
    rw [hsame, hnone]
    simp [ruleValues]
  have hflags : ∀ first braces, Parsed.array { st with isFirstLine := first, inBraces := braces } k = st.array k := by
    intro first braces
    cases k <;> rfl
  unfold parseLine at h
  split_ifs at h with hfirst hversion
  · rw [← Except.ok.inj h]
    exact hkeep _ (hflags false st.inBraces) (lineRule_version hversion)
  · cases hline : strip line with
    | nil =>
      rw [hline] at h
      obtain rfl : st = st' := Except.ok.inj h
      exact hkeep _ rfl (by rw [lineRule, hline]; rfl)
    | cons c t =>
      rw [hline, parseStripped] at h
      have hnone : c ∈ [sharp, openBrace, closeBrace] → lineRule line = none := by
        intro hc
        rw [lineRule, hline, if_pos (by simpa using hc)]
      split_ifs at h with hsharp hopen hprocesses hclose
      · obtain rfl : st = st' := Except.ok.inj h
        exact hkeep _ rfl (hnone (by simp [hsharp]))
      · rw [← Except.ok.inj h]
        exact hkeep _ (hflags st.isFirstLine true) (hnone (by simp [hopen]))
      · rw [← Except.ok.inj h]
        exact hkeep _ (hflags st.isFirstLine false) (hnone (by simp [hclose]))
      · have hrule : lineRule line = tokensRule (strtok (c :: t) equalsSign) := by
          rw [lineRule, hline, if_neg (by simp [hsharp, hopen, hclose])]
        rw [hrule]
        exact parseTokens_array h

theorem foldlM_parseLine_array {lines : List CString} (h : lines.foldlM (parseLine appDir) st = .ok st') :
    st'.array k = st.array k ++ (ruleValues (lines.filterMap lineRule) k).map (entry appDir k) := by
  induction lines generalizing st with
  | nil =>
    obtain rfl : st = st' := Except.ok.inj h
    simp [ruleValues]
  | cons line lines ih =>
    rw [List.foldlM_cons] at h
    obtain ⟨st₁, hline, hrest⟩ := bind_eq_ok.1 h
    have hsplit : (line :: lines).filterMap lineRule = (lineRule line).toList ++ lines.filterMap lineRule := by
      rw [List.filterMap_cons]
      cases lineRule line <;> rfl
    rw [ih hrest, parseLine_array hline, hsplit, ruleValues, ruleValues, ruleValues, List.filterMap_append,
      List.map_append, List.append_assoc]

/-- **The arrays after loading** are those before it with the rules of the text behind them. -/
theorem array_initOptionsFrom {start p : Parsed} {text : CString} (h : initOptionsFrom env start (some text) = .ok p) :
    p.array k = start.array k ++ (ruleValues (textRules text) k).map (entry env.appDir k) := by
  obtain ⟨⟨b, p₁⟩, hlines, h⟩ := bind_eq_ok.1 h
  obtain ⟨hlast, h⟩ := ite_throw_eq_ok.1 h
  obtain rfl : p₁ = p := Except.ok.inj h
  have hparse := ((foldlM_readLine env _ _ _ _ _).1 hlines).2
  -- behind the last newline there is nothing
  have hpieces : text.splitOn newline = (text.splitOn newline).dropLast ++ [[]] :=
    (List.dropLast_append_getLast? [] (not_not.1 hlast)).symm
  have hrules : textRules text = (text.splitOn newline).dropLast.filterMap lineRule := by
    have hnil : lineRule [] = none := by decide
    rw [textRules, hpieces, List.filterMap_append, List.filterMap_cons, hnil]
    simp
  rw [hrules]
  exact foldlM_parseLine_array hparse

/-! ## The answer -/

/-- The keys `redirect_*`. -/
def ArrayKey.redirects : ArrayKey → Bool
  | .redirectExact | .redirectPrefix | .redirectSubstr => true
  | _ => false

/-- The keys `ignore_*`. -/
def ArrayKey.ignores : ArrayKey → Bool
  | .ignoreExact | .ignorePrefix | .ignoreSubstr | .ignoreEnvironmentVar => true
  | _ => false

/-- The rule `k=p` matches a path. -/
def ArrayKey.applies (k : ArrayKey) (p filename : CString) : Bool :=
  match k with
  | .ignoreExact | .redirectExact => filename == p
  | .ignorePrefix | .redirectPrefix => startsWith filename p
  | .ignoreSubstr | .redirectSubstr => strstr filename p
  | .ignoreEnvironmentVar | .multiRepoPath => false

/-- Some rule with one of the keys `keys` matches. -/
def Parsed.Hits (st : Parsed) (keys : ArrayKey → Bool) (filename : CString) : Prop :=
  ∃ k, keys k = true ∧ ∃ p ∈ st.array k, k.applies p filename = true

theorem Parsed.Hits.mono {keys : ArrayKey → Bool} {filename : CString} (h : st.Hits keys filename)
    (hsub : ∀ k, keys k = true → st.array k ⊆ st'.array k) : st'.Hits keys filename := by
  obtain ⟨k, hk, p, hp, happlies⟩ := h
  exact ⟨k, hk, p, hsub k hk hp, happlies⟩

theorem matchesRules_iff {exact pre substr : List CString} {filename : CString} :
    matchesRules exact pre substr filename = true ↔
      (∃ p ∈ exact, (filename == p) = true) ∨ (∃ p ∈ pre, startsWith filename p = true) ∨
        ∃ p ∈ substr, strstr filename p = true := by
  simp [matchesRules, or_assoc]

theorem redirects_iff {filename : CString} :
    st.opts.redirects filename = true ↔ st.Hits ArrayKey.redirects filename := by
  rw [Options.redirects, matchesRules_iff]
  constructor
  · rintro (h | h | h)
    · exact ⟨.redirectExact, rfl, h⟩
    · exact ⟨.redirectPrefix, rfl, h⟩
    · exact ⟨.redirectSubstr, rfl, h⟩
  · rintro ⟨k, hk, p, hp, happlies⟩
    cases k with
    | redirectExact => exact .inl ⟨p, hp, happlies⟩
    | redirectPrefix => exact .inr (.inl ⟨p, hp, happlies⟩)
    | redirectSubstr => exact .inr (.inr ⟨p, hp, happlies⟩)
    | _ => cases hk

theorem ignores_iff {filename : CString} : st.opts.ignores filename = true ↔ st.Hits ArrayKey.ignores filename := by
  rw [Options.ignores, matchesRules_iff]
  constructor
  · rintro (h | h | h)
    · exact ⟨.ignoreExact, rfl, h⟩
    · exact ⟨.ignorePrefix, rfl, h⟩
    · exact ⟨.ignoreSubstr, rfl, h⟩
  · rintro ⟨k, hk, p, hp, happlies⟩
    cases k with
    | ignoreExact => exact .inl ⟨p, hp, happlies⟩
    | ignorePrefix => exact .inr (.inl ⟨p, hp, happlies⟩)
    | ignoreSubstr => exact .inr (.inr ⟨p, hp, happlies⟩)
    | ignoreEnvironmentVar => cases happlies
    | _ => cases hk

/-- The global variables after the options have been read. -/
def Cde.withOptions (g : Cde) (p : Parsed) : Cde := { g with opts := p.opts }

section Answer

variable {g : Cde} {filename : CString} {pIgnores : Option ProcessIgnore} {e e₁ : Effects}

/-- **The answer depends on the rules only by which kind of them matches.** -/
theorem ignorePath_congr (hredirects : st.opts.redirects filename = st'.opts.redirects filename)
    (hignores : st.opts.ignores filename = st'.opts.ignores filename) :
    ignorePath (g.withOptions st) filename pIgnores e = ignorePath (g.withOptions st') filename pIgnores e := by
  unfold ignorePath Cde.withOptions
  simp only [hredirects, hignores]
  rfl

/-- With more matches of redirect rules and fewer of ignore rules a path stays redirected. -/
theorem ignorePath_false_mono (hredirects : st.opts.redirects filename = true → st'.opts.redirects filename = true)
    (hignores : st'.opts.ignores filename = true → st.opts.ignores filename = true)
    (h : ignorePath (g.withOptions st) filename pIgnores e = .ok (false, e₁)) :
    ∃ e₂, ignorePath (g.withOptions st') filename pIgnores e = .ok (false, e₂) := by
  obtain ⟨habs, hrules⟩ := ignorePath_false h
  by_cases hr : st'.opts.redirects filename = true
  · -- the new rule redirects, unless the process ignores the path
    have hprocess : pIgnores.any (·.ignores filename) = false := (Bool.or_eq_false_iff.1 hrules).1
    have hignored : ignored (g.withOptions st').opts pIgnores filename = false := by
      simp [ignored, Cde.withOptions, hprocess, hr]
    refine ⟨e, ?_⟩
    rw [ignorePath_abs habs, hignored]
    simp [Cde.withOptions, hr]
  · have hr₀ : st.opts.redirects filename = false := by simpa using fun h' => hr (hredirects h')
    have hi₀ : st.opts.ignores filename = false := by
      have := (Bool.or_eq_false_iff.1 hrules).2
      simpa [Cde.withOptions, hr₀] using this
    have hi : st'.opts.ignores filename = false := Bool.eq_false_iff.2 (mt hignores (Bool.eq_false_iff.1 hi₀))
    refine ⟨e₁, ?_⟩
    rw [← h]
    exact ignorePath_congr (by rw [hr₀]; simpa using hr) (by rw [hi, hi₀])

/-- With fewer matches of redirect rules and more of ignore rules a path stays ignored. -/
theorem ignorePath_true_mono (hredirects : st'.opts.redirects filename = true → st.opts.redirects filename = true)
    (hignores : st.opts.ignores filename = true → st'.opts.ignores filename = true)
    (h : ignorePath (g.withOptions st) filename pIgnores e = .ok (true, e₁)) :
    ∃ e₂, ignorePath (g.withOptions st') filename pIgnores e = .ok (true, e₂) := by
  by_cases habs : isAbspath filename = true
  · by_cases hignored : ignored st'.opts pIgnores filename = true
    · refine ⟨e, ?_⟩
      rw [ignorePath_abs habs]
      exact if_pos hignored
    · obtain ⟨hprocess, hrules⟩ := Bool.or_eq_false_iff.1 (Bool.not_eq_true _ ▸ hignored)
      -- a redirected path had been ignored only by the process
      have hr₀ : st.opts.redirects filename = false := by
        by_contra hne
        have hr₀ := eq_true_of_ne_false hne
        rw [ignorePath_abs habs] at h
        simp [ignored, Cde.withOptions, hprocess, hr₀] at h
      have hr : st'.opts.redirects filename = false :=
        Bool.eq_false_iff.2 (mt hredirects (Bool.eq_false_iff.1 hr₀))
      have hi : st'.opts.ignores filename = false := by simpa [hr] using hrules
      have hi₀ : st.opts.ignores filename = false := Bool.eq_false_iff.2 (mt hignores (Bool.eq_false_iff.1 hi))
      refine ⟨e₁, ?_⟩
      rw [← h]
      exact ignorePath_congr (by rw [hr, hr₀]) (by rw [hi, hi₀])
  · refine ⟨e₁, ?_⟩
    rw [ignorePath_rel (by simpa using habs)] at h ⊢
    exact h

end Answer

/-! ## Two files -/

section Files

variable {ruleOptions : List RuleOption} {text text' : CString} {p p' : Parsed}

/-- Two runs with the same options on the command line: what is in the one array is in the other if the rules
for it are. -/
theorem array_subset (h : initOptionsAfter env ruleOptions (some text) = .ok p)
    (h' : initOptionsAfter env ruleOptions (some text') = .ok p')
    (hrules : ∀ v, (k, v) ∈ textRules text → (k, v) ∈ textRules text') : p.array k ⊆ p'.array k := by
  obtain ⟨start, hstart, hload⟩ := bind_eq_ok.1 h
  obtain ⟨start', hstart', hload'⟩ := bind_eq_ok.1 h'
  obtain rfl : start = start' := Except.ok.inj (hstart.symm.trans hstart')
  rw [array_initOptionsFrom hload, array_initOptionsFrom hload']
  intro x hx
  rcases List.mem_append.1 hx with hx | hx
  · exact List.mem_append_left _ hx
  · obtain ⟨v, hv, rfl⟩ := List.mem_map.1 hx
    have hv' : v ∈ ruleValues (textRules text') k := mem_ruleValues.2 (hrules v (mem_ruleValues.1 hv))
    exact List.mem_append_right _ (List.mem_map_of_mem hv')

section Hits

variable {keys : ArrayKey → Bool} {filename v : CString}

theorem hits_of_perm (h : initOptionsAfter env ruleOptions (some text) = .ok p)
    (h' : initOptionsAfter env ruleOptions (some text') = .ok p') (hperm : (textRules text).Perm (textRules text'))
    (hit : p.Hits keys filename) : p'.Hits keys filename :=
  hit.mono fun _ _ => array_subset h h' fun _ hv => hperm.subset hv

/-- What matched before one more rule is there still matches. -/
theorem hits_of_added (h : initOptionsAfter env ruleOptions (some text) = .ok p)
    (h' : initOptionsAfter env ruleOptions (some text') = .ok p')
    (hperm : (textRules text').Perm ((k, v) :: textRules text))
    (hit : p.Hits keys filename) : p'.Hits keys filename :=
  hit.mono fun _ _ => array_subset h h' fun _ hv => hperm.symm.subset (List.mem_cons_of_mem _ hv)

/-- The rule that is added is no match for other keys than its own. -/
theorem hits_of_other (h : initOptionsAfter env ruleOptions (some text) = .ok p)
    (h' : initOptionsAfter env ruleOptions (some text') = .ok p')
    (hperm : (textRules text').Perm ((k, v) :: textRules text))
    (hk : keys k = false) (hit : p'.Hits keys filename) : p.Hits keys filename := by
  refine hit.mono fun k' hk' => array_subset h' h fun v' hv' => ?_
  rcases List.mem_cons.1 (hperm.subset hv') with heq | hmem
  · obtain rfl : k' = k := (Prod.mk.inj heq).1
    rw [hk] at hk'
    cases hk'
  · exact hmem

end Hits

theorem ArrayKey.ignores_of_redirects (hk : k.redirects = true) : k.ignores = false := by
  cases k <;> first | rfl | cases hk

theorem ArrayKey.redirects_of_ignores (hk : k.ignores = true) : k.redirects = false := by
  cases k <;> first | rfl | cases hk

/-- **Ignore decisions do not depend on the order of the rules and are monotone**: two files with the same rules in
any order give the same answers, for every path and every process; one more redirect rule never turns 0 into 1, and
one more ignore rule never turns 1 into 0. -/
theorem ignore_order_monotone (h : initOptionsAfter env ruleOptions (some text) = .ok p)
    (h' : initOptionsAfter env ruleOptions (some text') = .ok p') (g : Cde) (filename : CString)
    (pIgnores : Option ProcessIgnore) (e : Effects) :
    ((textRules text).Perm (textRules text') →
      ignorePath (g.withOptions p) filename pIgnores e = ignorePath (g.withOptions p') filename pIgnores e) ∧
    (∀ k v, k.redirects = true → (textRules text').Perm ((k, v) :: textRules text) →
      ∀ e₁, ignorePath (g.withOptions p) filename pIgnores e = .ok (false, e₁) →
        ∃ e₂, ignorePath (g.withOptions p') filename pIgnores e = .ok (false, e₂)) ∧
    (∀ k v, k.ignores = true → (textRules text').Perm ((k, v) :: textRules text) →
      ∀ e₁, ignorePath (g.withOptions p) filename pIgnores e = .ok (true, e₁) →
        ∃ e₂, ignorePath (g.withOptions p') filename pIgnores e = .ok (true, e₂)) := by
  refine ⟨fun hperm => ?_, fun k v hk hperm e₁ hanswer => ?_, fun k v hk hperm e₁ hanswer => ?_⟩
  · apply ignorePath_congr
    · rw [Bool.eq_iff_iff, redirects_iff, redirects_iff]
      exact ⟨hits_of_perm h h' hperm, hits_of_perm h' h hperm.symm⟩
    · rw [Bool.eq_iff_iff, ignores_iff, ignores_iff]
      exact ⟨hits_of_perm h h' hperm, hits_of_perm h' h hperm.symm⟩
  · refine ignorePath_false_mono ?_ ?_ hanswer
    · rw [redirects_iff, redirects_iff]
      exact hits_of_added h h' hperm
    · rw [ignores_iff, ignores_iff]
      exact hits_of_other h h' hperm (ArrayKey.ignores_of_redirects hk)
  · refine ignorePath_true_mono ?_ ?_ hanswer
    · rw [redirects_iff, redirects_iff]
      exact hits_of_other h h' hperm (ArrayKey.redirects_of_ignores hk)
    · rw [ignores_iff, ignores_iff]
      exact hits_of_added h h' hperm

end Files

/-- An options file with the given lines. -/
def rulesFile (lines : List CString) : CString := Delimited.terminated newline (optionsVersionNum :: lines)

/-- What is read with `-i /etc/hosts` on the command line. -/
def keepParsed (pre substr exact : List CString) : Parsed where
  isFirstLine := false
  opts.ignoreExactPaths := str "/etc/hosts" :: exact
  opts.ignorePrefixPaths := pre
  opts.redirectExactPaths := [str "/tmp/keep"]
  opts.redirectSubstrPaths := substr

/-- `/tmp/` and `/var/` are ignored except for `/tmp/keep`: the rules in another order, one more redirect rule and
one more ignore rule. -/
theorem ignore_order_keep :
    ignorePath (bobAudit.withOptions (keepParsed [str "/tmp/", str "/var/"] [] [])) (str "/tmp/keep") none {} =
      ignorePath (bobAudit.withOptions (keepParsed [str "/var/", str "/tmp/"] [] [])) (str "/tmp/keep") none {} ∧
    (∃ e, ignorePath (bobAudit.withOptions (keepParsed [str "/tmp/", str "/var/"] [str "keep"] [])) (str "/tmp/keep")
      none {} = .ok (false, e)) ∧
    ∃ e, ignorePath (bobAudit.withOptions (keepParsed [str "/tmp/", str "/var/"] [] [str "/dev"])) (str "/tmp/a")
      none {} = .ok (true, e) := by
  have hload : initOptionsAfter bobOptions [.i (str "/etc/hosts")] (some (rulesFile [str "ignore_prefix=/tmp/",
      str "ignore_prefix=/var/", str "redirect_exact=/tmp/keep"])) =
      .ok (keepParsed [str "/tmp/", str "/var/"] [] []) := by decide +kernel
  have hswapped : initOptionsAfter bobOptions [.i (str "/etc/hosts")] (some (rulesFile [str "redirect_exact=/tmp/keep",
      str "ignore_prefix=/var/", str "ignore_prefix=/tmp/"])) =
      .ok (keepParsed [str "/var/", str "/tmp/"] [] []) := by decide +kernel
  have hredirect : initOptionsAfter bobOptions [.i (str "/etc/hosts")] (some (rulesFile [str "ignore_prefix=/tmp/",
      str "redirect_substr=keep", str "ignore_prefix=/var/", str "redirect_exact=/tmp/keep"])) =
      .ok (keepParsed [str "/tmp/", str "/var/"] [str "keep"] []) := by decide +kernel
  have hignore : initOptionsAfter bobOptions [.i (str "/etc/hosts")] (some (rulesFile [str "ignore_prefix=/tmp/",
      str "ignore_prefix=/var/", str "redirect_exact=/tmp/keep", str "ignore_exact=/dev"])) =
      .ok (keepParsed [str "/tmp/", str "/var/"] [] [str "/dev"]) := by decide +kernel
  refine ⟨?_, ?_, ?_⟩
  · exact (ignore_order_monotone hload hswapped bobAudit _ none {}).1 (by decide +kernel)
  · exact (ignore_order_monotone hload hredirect bobAudit _ none {}).2.1 .redirectSubstr (str "keep") rfl
      (by decide +kernel) {} rfl
  · exact (ignore_order_monotone hload hignore bobAudit _ none {}).2.2 .ignoreExact (str "/dev") rfl
      (by decide +kernel) {} rfl

end Ptu
