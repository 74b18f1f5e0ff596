import Ptu.Proof.CommandLine

/-!
# Quoted arguments alone

What `malloc_quoted_arg_str` makes of one argument: `quoted_arg_exact`, **it is one word of the shell
and fits into the memory that is allocated for it**. The memory is computed from the number of unsafe
characters, of which the single quotes, the only ones that need more room, are some.
-/

namespace Ptu

open Shell (literal)

variable {s : CString}

theorem numUnsafeChars_eq_zero : numUnsafeChars s = 0 ↔ s.all safechars.contains = true := by
  unfold numUnsafeChars
  rw [List.countP_eq_zero, List.all_eq_true]
  refine forall₂_congr fun c _ => ?_
  rw [Bool.not_eq_true', Bool.not_eq_false]

theorem squote_not_safe : safechars.contains squote = false := by decide +kernel

/-- Each single quote becomes five characters. -/
theorem length_replaced (s : CString) :
    (s.flatMap fun c => if c = squote then str "'\"'\"'" else [c]).length = s.length + 4 * s.count squote := by
  induction s with
  | nil => rfl
  | cons c s ih =>
    rw [List.flatMap_cons, List.length_append, ih, List.length_cons, List.count_cons]
    by_cases hc : c = squote
    · have hfive : (str "'\"'\"'").length = 5 := by decide
      rw [if_pos hc, if_pos (beq_iff_eq.2 hc), hfive]
      omega
    · rw [if_neg hc, if_neg fun h => hc (beq_iff_eq.1 h), List.length_singleton]
      omega

theorem count_squote_le (s : CString) : s.count squote ≤ numUnsafeChars s := by
  refine List.countP_mono_left fun c _ hc => ?_
  obtain rfl := beq_iff_eq.1 hc
  rw [squote_not_safe]
  rfl

/-- **The quoted argument fits into the memory that is allocated.** -/
theorem length_mallocQuotedArgStr (s : CString) : (mallocQuotedArgStr s ++ [0]).length ≤ quotedArgRoom s := by
  unfold mallocQuotedArgStr quotedArgRoom
  rw [List.length_append, List.length_singleton]
  by_cases hsafe : s.all safechars.contains = true
  · rw [if_pos hsafe, if_pos (numUnsafeChars_eq_zero.2 hsafe)]
  · have hquotes := count_squote_le s
    rw [if_neg hsafe, if_neg fun h => hsafe (numUnsafeChars_eq_zero.1 h), List.length_append, List.length_cons,
      length_replaced, List.length_singleton]
    omega

/-- **A quoted argument is read back as one word**, unless it is empty, and it fits into the memory that
is allocated for it, which is never more than `argstr_len + 3 + 4 * num_unsafe_chars`. -/
theorem quoted_arg_exact (hs : s ≠ []) :
    shellWords (mallocQuotedArgStr s ++ [newline]) = some [literal s] ∧
      (mallocQuotedArgStr s ++ [0]).length ≤ quotedArgRoom s ∧
      quotedArgRoom s ≤ s.length + 3 + 4 * numUnsafeChars s := by
  refine ⟨?_, length_mallocQuotedArgStr s, ?_⟩
  · refine (Shell.split_newline (n := newline) (by decide)).2
      ⟨Shell.State.start.push .unquoted (literal s), ?_, rfl, rfl⟩
    rw [run_mallocQuotedArgStr s rfl, if_neg hs]
  · unfold quotedArgRoom
    split_ifs <;> omega

/-- A single quote and a blank. -/
theorem quoted_arg_apostrophe :
    mallocQuotedArgStr (str "it's 5") = str "'it'\"'\"'s 5'" ∧
      shellWords (str "'it'\"'\"'s 5'" ++ [newline]) = some [literal (str "it's 5")] := by
  have hquoted : mallocQuotedArgStr (str "it's 5") = str "'it'\"'\"'s 5'" := by decide +kernel
  refine ⟨hquoted, ?_⟩
  rw [← hquoted]
  exact (quoted_arg_exact (by decide)).1

end Ptu
