import Ptu.Proof.Quoted

/-!
# The room for the arguments

`print_begin_execve_prov` gives `print_arg_prov` an array of `KEYLEN * 10` bytes. An argument alone
may be longer: up to `max_strlen` of its bytes are quoted, each by up to four characters.

* `length_stringQuote_eq`: the length of a quoted string.
* `args_fit_iff`: **the text of the arguments fits exactly if the quoted arguments, with four more
  characters each, do**. What the abbreviations leave out is never enough.
-/

namespace Ptu

variable {xflag n : ℕ} {s : CString} {args : List CString}

/-! ## The length of a quoted string -/

/-- How many characters `string_quote` writes for `c`, where `next` is the byte behind it. -/
def byteWidth (c : Byte) (next : Option Byte) : ℕ :=
  if (escapeLetter c).isSome then 2
  else if isprint c then 1
  else if next.any isdigit then 4
  else if c.toNat < 8 then 2
  else if c.toNat < 64 then 3
  else 4

def plainWidth : CString → ℕ
  | [] => 0
  | c :: s => byteWidth c s.head? + plainWidth s

/-- How many characters the bytes of a string are quoted by. -/
def quotedWidth (xflag : ℕ) (s : CString) : ℕ :=
  if usehex xflag s.length s then 4 * s.length else plainWidth s

theorem length_quoteByte (c : Byte) (next : Option Byte) : (quoteByte c next).length = byteWidth c next := by
  unfold quoteByte byteWidth
  cases escapeLetter c with
  | some letter => rfl
  | none =>
    simp only [Option.isSome_none, Bool.false_eq_true, if_false, octal]
    split_ifs <;> rfl

theorem length_quotePlain_eq (hs : s.length ≤ n) : (quotePlain n s).length = plainWidth s := by
  induction n generalizing s with
  | zero =>
    obtain rfl := List.length_eq_zero_iff.1 (Nat.le_zero.1 hs)
    rfl
  | succ n ih =>
    cases s with
    | nil => rfl
    | cons c s =>
      rw [List.length_cons] at hs
      rw [quotePlain, List.length_append, length_quoteByte, ih (by omega), plainWidth]

theorem usehex_of_le (hs : s.length ≤ n) : usehex xflag n s = usehex xflag s.length s := by
  unfold usehex
  rw [List.take_of_length_le hs, List.take_length]

/-- **The length of a quoted string** that is not cut off. -/
theorem length_stringQuote_eq (hs : s.length ≤ n) :
    (stringQuote xflag n s).1.length = quotedWidth xflag s + 2 := by
  rw [stringQuote_fst, List.length_append, List.length_cons, List.length_singleton, quoteBody, quotedWidth,
    usehex_of_le hs]
  split_ifs with hhex
  · rw [length_quoteHex, List.take_of_length_le hs]
  · rw [length_quotePlain_eq hs]

theorem length_le_quotedWidth (xflag : ℕ) (s : CString) : s.length ≤ quotedWidth xflag s := by
  have hlen := length_stringQuote xflag s.length s
  rw [length_stringQuote_eq (Nat.le_refl _)] at hlen
  omega

/-! ## The length of the text -/

/-- What an argument takes: its quoted bytes, the quotation marks and a separator or the brackets. -/
def argsWidth (xflag : ℕ) : List CString → ℕ
  | [] => 0
  | arg :: args => quotedWidth xflag arg + 4 + argsWidth xflag args

theorem argsWidth_cons (arg : CString) (args : List CString) :
    argsWidth xflag (arg :: args) = quotedWidth xflag arg + 4 + argsWidth xflag args := rfl

theorem length_quotedArgs {sep : CString} (hargs : ∀ arg ∈ args, arg.length ≤ maxStrlen) (hne : args ≠ []) :
    (quotedArgs xflag sep args).length + 2 = sep.length + argsWidth xflag args := by
  induction args generalizing sep with
  | nil => exact absurd rfl hne
  | cons arg args ih =>
    obtain ⟨harg, htail⟩ := List.forall_mem_cons.1 hargs
    have hsep : (str ", ").length = 2 := rfl
    rw [quotedArgs, List.length_append, List.length_append, length_stringQuote_eq harg, argsWidth_cons]
    rcases eq_or_ne args [] with rfl | hargs
    · simp only [quotedArgs, argsWidth, List.length_nil]
      omega
    · have hrest : (quotedArgs xflag (str ", ") args).length + 2 = (str ", ").length + argsWidth xflag args :=
        ih htail hargs
      omega

/-- Few and short arguments are written in full. -/
theorem printArgLoop_full {sep : CString} (hargs : ∀ arg ∈ args, arg.length ≤ maxStrlen)
    (hn : n + args.length < maxStrlen / 2) : printArgLoop xflag n sep args = quotedArgs xflag sep args := by
  induction args generalizing n sep with
  | nil => exact if_pos hn
  | cons arg args ih =>
    obtain ⟨harg, htail⟩ := List.forall_mem_cons.1 hargs
    rw [List.length_cons] at hn
    rw [printArgLoop, if_pos (by omega), getStrProv_of_le harg, ih htail (by omega), quotedArgs]

theorem four_mul_length_le (xflag : ℕ) (args : List CString) : 4 * args.length ≤ argsWidth xflag args := by
  induction args with
  | nil => exact Nat.le_refl 0
  | cons arg args ih =>
    rw [argsWidth_cons, List.length_cons]
    omega

theorem length_le_argsWidth (xflag : ℕ) {arg : CString} (h : arg ∈ args) : arg.length ≤ argsWidth xflag args := by
  induction args with
  | nil => exact absurd h List.not_mem_nil
  | cons first args ih =>
    rw [argsWidth_cons]
    rcases List.mem_cons.1 h with rfl | h
    · have hlen := length_le_quotedWidth xflag arg
      omega
    · have hrest := ih h
      omega

/-- **The text of the arguments fits** into the array, with its NUL. -/
def ArgsFit (xflag : ℕ) (args : List CString) : Prop :=
  ∃ text, printArgProv xflag args = .ok text ∧ (text ++ [0]).length ≤ 1024 * 10

theorem argText_brackets : (str "[").length = 1 ∧ (str "]").length = 1 := by decide

/-- The length of a text that is written in full. -/
theorem length_argText (hargs : ∀ arg ∈ args, arg.length ≤ maxStrlen) (hne : args ≠ []) :
    (str "[" ++ quotedArgs xflag [] args ++ str "]").length = argsWidth xflag args := by
  have hquoted : (quotedArgs xflag [] args).length + 2 = ([] : CString).length + argsWidth xflag args :=
    length_quotedArgs hargs hne
  have hbrackets := argText_brackets
  rw [List.length_nil] at hquoted
  rw [List.length_append, List.length_append]
  omega

theorem ArgsFit.argsWidth_lt (h : ArgsFit xflag args) : argsWidth xflag args < 1024 * 10 := by
  obtain ⟨text, hok, hfits⟩ := h
  obtain ⟨hfull, hargs⟩ := printArgProv_eq hok
  rw [List.length_append, List.length_singleton] at hfits
  rcases eq_or_ne args [] with rfl | hne
  · exact Nat.zero_lt_succ _
  · rw [← length_argText hargs hne, ← hfull]
    omega

theorem argsFit_of_argsWidth_lt (h : argsWidth xflag args < 1024 * 10) : ArgsFit xflag args := by
  have hmax : maxStrlen = 10240 := rfl
  have hargs : ∀ arg ∈ args, arg.length ≤ maxStrlen := by
    intro arg harg
    have hlen := length_le_argsWidth xflag harg
    omega
  have hcount := four_mul_length_le xflag args
  have hfull : printArgLoop xflag 0 [] args = quotedArgs xflag [] args := printArgLoop_full hargs (by omega)
  have hlen : (str "[" ++ quotedArgs xflag [] args ++ str "]").length < 1024 * 10 := by
    rcases eq_or_ne args [] with rfl | hne
    · exact (by decide : (str "[" ++ [] ++ str "]").length < 1024 * 10)
    · rw [length_argText hargs hne]
      exact h
  refine ⟨str "[" ++ quotedArgs xflag [] args ++ str "]", ?_, ?_⟩
  · unfold printArgProv
    simp only [hfull]
    rw [if_pos hlen]
  · rw [List.length_append, List.length_singleton]
    omega

/-- **The arguments fit exactly if the sum of their quoted lengths, with four for each, is below the
size of the array.** -/
theorem args_fit_iff (xflag : ℕ) (args : List CString) : ArgsFit xflag args ↔ argsWidth xflag args < 1024 * 10 :=
  ⟨ArgsFit.argsWidth_lt, argsFit_of_argsWidth_lt⟩

theorem plainWidth_replicate (n : ℕ) : plainWidth (List.replicate n 97) = n := by
  induction n with
  | zero => rfl
  | succ n ih =>
    have hwidth : ∀ next, byteWidth 97 next = 1 := fun _ => rfl
    rw [List.replicate_succ, plainWidth, hwidth, ih]
    omega

/-- One argument of 10236 letters does not fit. -/
theorem args_too_long : ¬ ArgsFit 0 [List.replicate 10236 97] := by
  intro h
  have husehex : usehex 0 (List.replicate 10236 (97 : Byte)).length (List.replicate 10236 97) = false := rfl
  have hlt := h.argsWidth_lt
  rw [argsWidth_cons, quotedWidth, husehex, if_neg Bool.false_ne_true, plainWidth_replicate] at hlt
  exact absurd hlt (by decide)

end Ptu
