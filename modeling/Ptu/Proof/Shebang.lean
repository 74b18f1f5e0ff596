import Ptu.Lib.Delimited
import Ptu.Spec.Execve

/-!
# Script commands

The kernel reads the first line of a script as an interpreter and at most one argument,
separated by spaces or tabs. The tracer cuts it at every space and at no tab, after it has
removed white space of any kind at the end.

* `strtok_cons_inv`: what the first token of a string is.
* `strtok_eq_kernelWords_iff`: **when the tracer reads a script command as the kernel does.**
-/

namespace Ptu

/-! ## Tokens -/

section

variable {s w t : CString} {d : Byte} {ws : List CString}

theorem strtok_nil (d : Byte) : strtok [] d = [] := rfl

theorem strtok_cons_delim (t : CString) (d : Byte) : strtok (d :: t) d = strtok t d := by
  have hsplit : (d :: t).splitOn d = [] :: t.splitOn d := Delimited.splitOn_append_cons List.not_mem_nil t
  simp [strtok, hsplit]

/-- Delimiters in front do not matter. -/
theorem strtok_append_delims (h : ∀ c ∈ s, c = d) (t : CString) : strtok (s ++ t) d = strtok t d := by
  induction s with
  | nil => rfl
  | cons c s ih =>
    obtain rfl := h c (by simp)
    rw [List.cons_append, strtok_cons_delim, ih fun x hx => h x (by simp [hx])]

theorem strtok_word (hw : w ≠ []) (hd : d ∉ w) : strtok w d = [w] := by
  simp [strtok, List.splitOn_eq_singleton hd, hw]

theorem strtok_word_append (hw : w ≠ []) (hd : d ∉ w) (t : CString) :
    strtok (w ++ d :: t) d = w :: strtok t d := by
  simp [strtok, Delimited.splitOn_append_cons hd, hw]

/-- The first token is what stands in front of the first delimiter. -/
theorem strtok_cons_of_ne {c : Byte} (hc : c ≠ d) (s : CString) :
    ∃ v rest, c :: s = v ++ rest ∧ v ≠ [] ∧ d ∉ v ∧ (rest = [] ∨ rest.head? = some d) ∧
      strtok (c :: s) d = v :: strtok rest d := by
  set v := (c :: s).takeWhile (· != d) with hv
  have hvne : v ≠ [] := by simp [hv, hc]
  have hdv : d ∉ v := fun hmem => by simpa using List.mem_takeWhile_imp hmem
  have hcut : v ++ (c :: s).dropWhile (· != d) = c :: s := List.takeWhile_append_dropWhile
  cases hrest : (c :: s).dropWhile (· != d) with
  | nil =>
    rw [hrest, List.append_nil] at hcut
    refine ⟨v, [], by rw [hcut, List.append_nil], hvne, hdv, .inl rfl, ?_⟩
    rw [← hcut, strtok_word hvne hdv, strtok_nil]
  | cons x rest =>
    have hx : x = d := by
      have := List.head?_dropWhile_not (· != d) (c :: s)
      rw [hrest] at this
      simpa using this
    subst hx
    rw [hrest] at hcut
    refine ⟨v, x :: rest, hcut.symm, hvne, hdv, .inr rfl, ?_⟩
    rw [← hcut, strtok_word_append hvne hdv, strtok_cons_delim]

/-- **The first token of a string**: in front of it are delimiters only, behind it is the end or
a delimiter. -/
theorem strtok_cons_inv (h : strtok s d = w :: ws) :
    ∃ s₀ rest, s = s₀ ++ w ++ rest ∧ (∀ c ∈ s₀, c = d) ∧ w ≠ [] ∧ d ∉ w ∧
      (rest = [] ∨ rest.head? = some d) ∧ strtok rest d = ws := by
  induction s with
  | nil => cases h
  | cons c s ih =>
    by_cases hc : c = d
    · subst hc
      rw [strtok_cons_delim] at h
      obtain ⟨s₀, rest, rfl, hs₀, hword⟩ := ih h
      refine ⟨c :: s₀, rest, by simp, ?_, hword⟩
      intro x hx
      rcases List.mem_cons.1 hx with hx | hx
      · exact hx
      · exact hs₀ x hx
    · obtain ⟨v, rest, hcut, hvne, hdv, hrest, hstrtok⟩ := strtok_cons_of_ne hc s
      rw [hstrtok] at h
      obtain ⟨rfl, rfl⟩ := List.cons.inj h
      exact ⟨[], rest, hcut, by simp, hvne, hdv, hrest, rfl⟩

theorem strtok_eq_nil (h : strtok s d = []) : ∀ c ∈ s, c = d := by
  induction s with
  | nil => simp
  | cons c s ih =>
    by_cases hc : c = d
    · subst hc
      rw [strtok_cons_delim] at h
      intro x hx
      rcases List.mem_cons.1 hx with hx | hx
      · exact hx
      · exact ih h x hx
    · obtain ⟨v, rest, -, -, -, -, hstrtok⟩ := strtok_cons_of_ne hc s
      rw [hstrtok] at h
      cases h

/-- A token is not empty and has no delimiter. -/
theorem strtok_isWord (hw : w ∈ strtok s d) : w ≠ [] ∧ d ∉ w := by
  obtain ⟨hsplit, hne⟩ := List.mem_filter.1 hw
  exact ⟨by simpa using hne, Delimited.notMem_of_mem_splitOn hsplit⟩

/-- A token is a part of the string. -/
theorem strtok_subset : ∀ w ∈ strtok s d, w ⊆ s := by
  intro w hw
  obtain ⟨ws, hws⟩ : ∃ ws, strtok s d = ws := ⟨_, rfl⟩
  rw [hws] at hw
  induction ws generalizing s with
  | nil => cases hw
  | cons v ws ih =>
    obtain ⟨s₀, rest, rfl, -, -, -, -, hrest⟩ := strtok_cons_inv hws
    rcases List.mem_cons.1 hw with rfl | hw
    · exact fun c hc => by simp [hc]
    · exact fun c hc => by simp [ih hw hrest hc]

end

/-! ## What the kernel reads -/

/-- The characters that separate words for the kernel. -/
def isBlank (c : Byte) : Bool := c == blank || c == tab

/-- The text behind `#!` from the interpreter on. -/
def afterBlanks (text : CString) : CString := text.dropWhile isBlank

/-- The interpreter: the text up to the first space or tab. -/
def kernelInterpreter (text : CString) : CString := (afterBlanks text).takeWhile (!isBlank ·)

/-- What follows the interpreter. -/
def afterInterpreter (text : CString) : CString := (afterBlanks text).dropWhile (!isBlank ·)

/-- The argument: the remaining text without the blanks around it. -/
def kernelArgument (text : CString) : CString :=
  ((afterInterpreter text).dropWhile isBlank).rdropWhile isBlank

/-- What the kernel puts in front of the script in the argument vector. -/
def kernelWords (text : CString) : List CString :=
  if kernelArgument text = [] then [kernelInterpreter text]
  else [kernelInterpreter text, kernelArgument text]

/-- The script command is one that the tracer reads as the kernel does: no tab in front of a
word, no space in the argument, no other white space at the end. -/
def PlainShebang (text : CString) : Prop :=
  tab ∉ text.takeWhile isBlank ∧
  (kernelArgument text ≠ [] → tab ∉ (afterInterpreter text).takeWhile isBlank) ∧
  blank ∉ kernelArgument text ∧
  ∀ w ∈ (kernelWords text).getLast?, strRstrip w = w

instance (text : CString) : Decidable (PlainShebang text) := inferInstanceAs (Decidable (_ ∧ _ ∧ _ ∧ _))

section

variable {s t w text : CString}

/-- In a text that starts with spaces and goes on with something else, the blanks in front are
the spaces. -/
theorem takeWhile_blanks (hs : ∀ c ∈ s, c = blank) (hw : w ≠ []) (hb : ∀ c ∈ w.head?, isBlank c = false)
    (t : CString) :
    (s ++ (w ++ t)).takeWhile isBlank = s ∧ (s ++ (w ++ t)).dropWhile isBlank = w ++ t := by
  obtain ⟨c, w', rfl⟩ := List.exists_cons_of_ne_nil hw
  have hc := hb c rfl
  have hs' : ∀ c ∈ s, isBlank c = true := fun c hc => by rw [hs c hc]; rfl
  rw [List.takeWhile_append_of_pos hs', List.dropWhile_append_of_pos hs']
  simp [hc]

theorem strRstrip_append_space (hs : ∀ c ∈ s, isspace c = true) : strRstrip (w ++ s) = strRstrip w := by
  induction s using List.reverseRecOn with
  | nil => rw [List.append_nil]
  | append_singleton s c ih =>
    rw [← List.append_assoc, strRstrip, List.rdropWhile_concat_pos _ _ _ (hs c (by simp))]
    exact ih fun x hx => hs x (by simp [hx])

theorem isspace_of_isBlank {c : Byte} (h : isBlank c = true) : isspace c = true := by
  rcases Bool.or_eq_true_iff.1 h with h | h
  · rw [beq_iff_eq.1 h]; rfl
  · rw [beq_iff_eq.1 h]; rfl

/-- A text that does not end in white space is not shortened behind another one. -/
theorem strRstrip_append_of_eq (hw : w ≠ []) (h : strRstrip w = w) (s : CString) :
    strRstrip (s ++ w) = s ++ w := by
  obtain ⟨w', c, rfl⟩ := (List.eq_nil_or_concat' w).resolve_left hw
  have hc : ¬ isspace c = true := by
    intro hc
    rw [strRstrip, List.rdropWhile_concat_pos _ _ _ hc] at h
    have hlen := congrArg List.length h
    have hle := (List.rdropWhile_prefix isspace w').length_le
    simp at hlen
    omega
  rw [← List.append_assoc, strRstrip, List.rdropWhile_concat_neg _ _ _ hc]

/-- The end of a stripped text is stripped. -/
theorem strRstrip_suffix (h : strRstrip (s ++ w) = s ++ w) : strRstrip w = w := by
  rcases List.eq_nil_or_concat' w with rfl | ⟨w', c, rfl⟩
  · rfl
  · by_cases hc : isspace c = true
    · rw [← List.append_assoc, strRstrip, List.rdropWhile_concat_pos _ _ _ hc] at h
      have hlen := congrArg List.length h
      have hle := (List.rdropWhile_prefix isspace (s ++ w')).length_le
      simp at hlen hle
      omega
    · rw [strRstrip, List.rdropWhile_concat_neg _ _ _ hc]

theorem strRstrip_idem (s : CString) : strRstrip (strRstrip s) = strRstrip s :=
  List.rdropWhile_idempotent isspace s

/-- What is cut off at the end is white space. -/
theorem strRstrip_eq_append (s : CString) : ∃ t, s = strRstrip s ++ t ∧ ∀ c ∈ t, isspace c = true :=
  ⟨s.rtakeWhile isspace, (List.rdropWhile_append_rtakeWhile ..).symm, fun _ => List.mem_rtakeWhile_imp⟩

/-- The text is cut into the blanks in front, the interpreter and what follows it. -/
theorem text_eq (text : CString) :
    text = text.takeWhile isBlank ++ (kernelInterpreter text ++ afterInterpreter text) := by
  unfold kernelInterpreter afterInterpreter afterBlanks
  rw [List.takeWhile_append_dropWhile, List.takeWhile_append_dropWhile]

/-- What follows the interpreter is cut into blanks, the argument and blanks. -/
theorem afterInterpreter_eq (text : CString) :
    ∃ tail, (∀ c ∈ tail, isBlank c = true) ∧
      afterInterpreter text = (afterInterpreter text).takeWhile isBlank ++ (kernelArgument text ++ tail) := by
  refine ⟨((afterInterpreter text).dropWhile isBlank).rtakeWhile isBlank, fun c => List.mem_rtakeWhile_imp, ?_⟩
  unfold kernelArgument
  rw [List.rdropWhile_append_rtakeWhile, List.takeWhile_append_dropWhile]

theorem kernelInterpreter_nonblank {c : Byte} (h : c ∈ kernelInterpreter text) : isBlank c = false := by
  simpa using List.mem_takeWhile_imp h

theorem blank_notMem_kernelInterpreter (text : CString) : blank ∉ kernelInterpreter text :=
  fun h => absurd (kernelInterpreter_nonblank h) (by decide)

/-- The argument starts with no blank. -/
theorem kernelArgument_head {c : Byte} (h : c ∈ (kernelArgument text).head?) : isBlank c = false := by
  have hpre : kernelArgument text <+: (afterInterpreter text).dropWhile isBlank := List.rdropWhile_prefix ..
  obtain ⟨tail, htail⟩ := hpre
  have hhead : ((afterInterpreter text).dropWhile isBlank).head? = some c := by
    rw [← htail, List.head?_append, Option.mem_def.1 h]
    rfl
  have := List.head?_dropWhile_not isBlank (afterInterpreter text)
  rw [hhead] at this
  exact this

/-- The text behind the interpreter starts with a blank. -/
theorem afterInterpreter_head {c : Byte} (h : c ∈ (afterInterpreter text).head?) : isBlank c = true := by
  have := List.head?_dropWhile_not (!isBlank ·) (afterBlanks text)
  rw [show (afterBlanks text).dropWhile (!isBlank ·) = afterInterpreter text from rfl, Option.mem_def.1 h] at this
  simpa using this

/-- Blanks without a tab are spaces. -/
theorem eq_blank_of_takeWhile (h : tab ∉ s.takeWhile isBlank) : ∀ c ∈ s.takeWhile isBlank, c = blank := by
  intro c hc
  have hblank : isBlank c = true := List.mem_takeWhile_imp hc
  rcases Bool.or_eq_true_iff.1 hblank with hb | hb
  · exact beq_iff_eq.1 hb
  · rw [beq_iff_eq.1 hb] at hc
    exact absurd hc h

theorem afterInterpreter_subset (text : CString) : afterInterpreter text ⊆ text := by
  intro c hc
  rw [text_eq text]
  exact List.mem_append_right _ (List.mem_append_right _ hc)

/-- The words are parts of the text. -/
theorem kernelWords_subset : ∀ w ∈ kernelWords text, w ⊆ text := by
  have hinterp : kernelInterpreter text ⊆ text := by
    intro c hc
    rw [text_eq text]
    exact List.mem_append_right _ (List.mem_append_left _ hc)
  have harg : kernelArgument text ⊆ text := by
    obtain ⟨tail, -, hafter⟩ := afterInterpreter_eq text
    intro c hc
    apply afterInterpreter_subset text
    rw [hafter]
    exact List.mem_append_right _ (List.mem_append_left _ hc)
  intro w hw
  unfold kernelWords at hw
  split at hw
  · obtain rfl := List.mem_singleton.1 hw
    exact hinterp
  · rcases List.mem_cons.1 hw with rfl | hw
    · exact hinterp
    · obtain rfl := List.mem_singleton.1 hw
      exact harg

theorem kernelWords_of_nil (h : kernelArgument text = []) : kernelWords text = [kernelInterpreter text] :=
  if_pos h

theorem kernelWords_of_ne (h : kernelArgument text ≠ []) :
    kernelWords text = [kernelInterpreter text, kernelArgument text] :=
  if_neg h

theorem PlainShebang.strtok_eq (hinterp : kernelInterpreter text ≠ []) (h : PlainShebang text) :
    strtok (strRstrip text) blank = kernelWords text := by
  obtain ⟨htab, hgap, hspace, hlast⟩ := h
  obtain ⟨tail, htail, hafter⟩ := afterInterpreter_eq text
  have hfront := eq_blank_of_takeWhile htab
  have hword := blank_notMem_kernelInterpreter text
  by_cases harg : kernelArgument text = []
  · rw [kernelWords_of_nil harg] at hlast ⊢
    have hafter' : ∀ c ∈ afterInterpreter text, isspace c = true := by
      intro c hc
      rw [hafter, harg, List.nil_append] at hc
      rcases List.mem_append.1 hc with hc | hc
      · exact isspace_of_isBlank (List.mem_takeWhile_imp hc)
      · exact isspace_of_isBlank (htail c hc)
    have hstrip : strRstrip text = text.takeWhile isBlank ++ kernelInterpreter text := by
      conv_lhs => rw [text_eq text, ← List.append_assoc]
      rw [strRstrip_append_space hafter', strRstrip_append_of_eq hinterp (hlast _ rfl)]
    rw [hstrip, strtok_append_delims hfront, strtok_word hinterp hword]
  · rw [kernelWords_of_ne harg] at hlast ⊢
    have hspaces := eq_blank_of_takeWhile (hgap harg)
    -- the blanks between the two words are spaces, and there is at least one
    obtain ⟨gap, hgapeq⟩ : ∃ gap, (afterInterpreter text).takeWhile isBlank = blank :: gap := by
      cases hcase : afterInterpreter text with
      | nil => simp [kernelArgument, hcase] at harg
      | cons c rest =>
        have hhead : c ∈ (afterInterpreter text).head? := by simp [hcase]
        have hc := afterInterpreter_head hhead
        rw [List.takeWhile_cons_of_pos hc]
        have := hspaces c (by rw [hcase, List.takeWhile_cons_of_pos hc]; simp)
        exact ⟨_, by rw [this]⟩
    have hstrip : strRstrip text = text.takeWhile isBlank ++
        (kernelInterpreter text ++ blank :: (gap ++ kernelArgument text)) := by
      conv_lhs => rw [text_eq text, hafter, hgapeq]
      have := strRstrip_append_of_eq harg (hlast _ rfl)
        (text.takeWhile isBlank ++ (kernelInterpreter text ++ blank :: gap))
      simp only [List.append_assoc, List.cons_append] at this ⊢
      rw [← this]
      have hs := strRstrip_append_space (fun c hc => isspace_of_isBlank (htail c hc))
        (w := text.takeWhile isBlank ++ (kernelInterpreter text ++ blank :: (gap ++ kernelArgument text)))
      simpa only [List.append_assoc, List.cons_append] using hs
    rw [hstrip, strtok_append_delims hfront, strtok_word_append hinterp hword, strtok_append_delims,
      strtok_word harg hspace]
    intro c hc
    exact hspaces c (by rw [hgapeq]; simp [hc])

/-- A stripped text ends with its last token. -/
theorem rest_eq_nil (hstrip : strRstrip (s ++ t) = s ++ t) (h : strtok t blank = []) : t = [] := by
  have hspace : ∀ c ∈ t, isspace c = true := fun c hc => by rw [strtok_eq_nil h c hc]; rfl
  have ht := strRstrip_suffix hstrip
  rw [← ht]
  exact List.rdropWhile_eq_nil_iff.2 hspace

theorem plainShebang_of_strtok (hinterp : kernelInterpreter text ≠ [])
    (h : strtok (strRstrip text) blank = kernelWords text) : PlainShebang text := by
  obtain ⟨ws, htext, hws⟩ := strRstrip_eq_append text
  have hstrip := strRstrip_idem text
  have hhead : ∀ c ∈ (kernelInterpreter text).head?, isBlank c = false :=
    fun c hc => kernelInterpreter_nonblank (List.mem_of_mem_head? hc)
  by_cases harg : kernelArgument text = []
  · rw [kernelWords_of_nil harg] at h
    obtain ⟨s₀, rest, hcut, hs₀, -, -, -, hrest⟩ := strtok_cons_inv h
    rw [hcut] at hstrip htext
    obtain rfl := rest_eq_nil hstrip hrest
    rw [List.append_nil] at hstrip htext
    refine ⟨?_, fun hne => absurd harg hne, by simp [harg], ?_⟩
    · rw [htext, List.append_assoc, (takeWhile_blanks hs₀ hinterp hhead ws).1]
      exact fun hmem => absurd (hs₀ _ hmem) (by decide)
    · rw [kernelWords_of_nil harg]
      rintro w ⟨⟩
      exact strRstrip_suffix hstrip
  · rw [kernelWords_of_ne harg] at h
    obtain ⟨s₀, rest, hcut, hs₀, -, -, hrest, htokens⟩ := strtok_cons_inv h
    obtain ⟨s₁, rest', rfl, hs₁, -, hspace, -, hrest'⟩ := strtok_cons_inv htokens
    rw [hcut] at hstrip htext
    rw [← List.append_assoc] at hstrip
    obtain rfl := rest_eq_nil hstrip hrest'
    simp only [List.append_nil] at hrest hstrip htext
    -- the blanks that the kernel sees are the spaces that the tracer cuts at
    have hargHead : ∀ c ∈ (kernelArgument text).head?, isBlank c = false := fun c => kernelArgument_head
    obtain ⟨s₁', rfl⟩ : ∃ s₁', s₁ = blank :: s₁' := by
      rcases s₁ with _ | ⟨c, s₁'⟩
      · rcases hrest with hnil | hhead'
        · exact absurd hnil harg
        · exact absurd (hargHead _ hhead') (by decide)
      · exact ⟨s₁', by rw [hs₁ c (by simp)]⟩
    have htext' : text = s₀ ++ (kernelInterpreter text ++ (blank :: s₁' ++ (kernelArgument text ++ ws))) := by
      conv_lhs => rw [htext]
      simp only [List.append_assoc]
    have hfront := takeWhile_blanks hs₀ hinterp hhead (blank :: s₁' ++ (kernelArgument text ++ ws))
    have hafter : afterInterpreter text = blank :: s₁' ++ (kernelArgument text ++ ws) := by
      unfold afterInterpreter afterBlanks
      conv_lhs => rw [htext', hfront.2]
      rw [List.dropWhile_append_of_pos fun c hc => by simp [kernelInterpreter_nonblank hc]]
      rfl
    refine ⟨?_, fun _ => ?_, hspace, ?_⟩
    · rw [htext', hfront.1]
      exact fun hmem => absurd (hs₀ _ hmem) (by decide)
    · rw [hafter, (takeWhile_blanks hs₁ harg hargHead ws).1]
      exact fun hmem => absurd (hs₁ _ hmem) (by decide)
    · rw [kernelWords_of_ne harg]
      rintro w ⟨⟩
      rw [← List.append_assoc] at hstrip
      exact strRstrip_suffix hstrip

/-- **When the tracer reads a script command as the kernel does.** -/
theorem strtok_eq_kernelWords_iff (hinterp : kernelInterpreter text ≠ []) :
    strtok (strRstrip text) blank = kernelWords text ↔ PlainShebang text :=
  ⟨plainShebang_of_strtok hinterp, PlainShebang.strtok_eq hinterp⟩

example : PlainShebang (str " /usr/bin/env python	") := by decide

example : ¬ PlainShebang (str "/bin/sh -e -x") := by decide

/-! ## The first line of a file -/

theorem strRstrip_hash (text : CString) : strRstrip (str "#!" ++ text) = str "#!" ++ strRstrip text := by
  obtain ⟨ws, htext, hws⟩ := strRstrip_eq_append text
  conv_lhs => rw [htext, ← List.append_assoc, strRstrip_append_space hws]
  by_cases hnil : strRstrip text = []
  · rw [hnil]; rfl
  · exact strRstrip_append_of_eq hnil (strRstrip_idem text) _

/-- The script command of a file whose first line is `#!` and a text. -/
theorem getScriptCommand_shebang {content : List Byte} {path : CString}
    (hline : content.takeWhile (· != newline) = str "#!" ++ text) (hnul : 0 ∉ text) (hne : text ≠ []) :
    getScriptCommand path content = some (strRstrip text) := by
  have hcut : (str "#!" ++ text).takeWhile (· != 0) = str "#!" ++ text := by
    have hhash : (0 : Byte) ∉ str "#!" := by decide
    apply List.takeWhile_eq_self_iff.2
    intro c hc
    rcases List.mem_append.1 hc with hc | hc
    · simpa using ne_of_mem_of_not_mem hc hhash
    · simpa using ne_of_mem_of_not_mem hc hnul
  have hlen : 2 < (str "#!" ++ text).length := by
    have := List.length_pos_iff.2 hne
    have htwo : (str "#!").length = 2 := rfl
    rw [List.length_append, htwo]
    omega
  unfold getScriptCommand
  simp only [hline, hcut, strRstrip_hash]
  have hread : decide (2 < (str "#!" ++ text).length + if content.contains newline then 1 else 0) = true :=
    decide_eq_true (by omega)
  rw [hread, Bool.true_and, if_pos (startsWith_iff.2 (List.prefix_append _ _))]
  rfl

end

end Ptu
