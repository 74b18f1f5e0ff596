import Ptu.Spec.ProvLog

/-!
# Reading back quoted strings

What `string_quote` writes for a string that is not cut off determines the string
(`stringQuote_inj`), whatever follows, and so does what `print_arg_prov` writes for a list of
arguments that fits into its array (`printArgProv_inj`).

* `quoteByte_cases`: the three ways in which a byte is written.
* `numeral_inj`: an octal number of fewer than three digits is never followed by a digit, so it
  ends where it seems to end.
-/

namespace Ptu

variable {c c' : Byte} {next next' : Option Byte} {s s' x x' : CString} {xflag n : ℕ}

/-! ## Digits -/

theorem isdigit_iff : isdigit c = true ↔ 48 ≤ c.toNat ∧ c.toNat ≤ 57 := by
  simp [isdigit, UInt8.le_iff_toNat_le]

theorem toNat_digitByte (hn : n < 10) : (digitByte n).toNat = 48 + n := by
  simp only [digitByte, Nat.toUInt8_eq, UInt8.toNat_ofNat']
  omega

theorem isdigit_digitByte (hn : n < 10) : isdigit (digitByte n) = true := by
  rw [isdigit_iff, toNat_digitByte hn]
  omega

/-- The number that octal digits stand for. -/
def octalValue (digits : CString) : ℕ := digits.foldl (fun value d => 8 * value + (d.toNat - 48)) 0

/-- The digits that `quoteByte` writes behind the backslash. -/
def numeral (c : Byte) (next : Option Byte) : CString := if next.any isdigit then octal3 c else octal c

theorem numeral_cases (c : Byte) (next : Option Byte) : numeral c next = octal3 c ∨
    next.any isdigit = false ∧ c.toNat < 64 ∧
      (numeral c next = [digitByte (c.toNat / 8 % 8), digitByte (c.toNat % 8)] ∨
        c.toNat < 8 ∧ numeral c next = [digitByte (c.toNat % 8)]) := by
  unfold numeral octal
  by_cases hnext : next.any isdigit = true
  · rw [if_pos hnext]
    exact .inl rfl
  · rw [if_neg hnext]
    have hno : next.any isdigit = false := by simpa using hnext
    by_cases h8 : c.toNat < 8
    · rw [if_pos h8]
      exact .inr ⟨hno, by omega, .inr ⟨h8, rfl⟩⟩
    · rw [if_neg h8]
      by_cases h64 : c.toNat < 64
      · rw [if_pos h64]
        exact .inr ⟨hno, h64, .inl rfl⟩
      · rw [if_neg h64]
        exact .inl rfl

theorem octalValue_numeral (c : Byte) (next : Option Byte) : octalValue (numeral c next) = c.toNat := by
  have hc : c.toNat < 256 := c.toNat_lt
  have h2 : (digitByte (c.toNat / 64)).toNat = 48 + c.toNat / 64 := toNat_digitByte (by omega)
  have h1 : (digitByte (c.toNat / 8 % 8)).toNat = 48 + c.toNat / 8 % 8 := toNat_digitByte (by omega)
  have h0 : (digitByte (c.toNat % 8)).toNat = 48 + c.toNat % 8 := toNat_digitByte (by omega)
  obtain h | ⟨-, h64, h | ⟨h8, h⟩⟩ := numeral_cases c next
  · rw [h]
    simp only [octalValue, octal3, List.foldl_cons, List.foldl_nil, h2, h1, h0]
    omega
  · rw [h]
    simp only [octalValue, List.foldl_cons, List.foldl_nil, h1, h0]
    omega
  · rw [h]
    simp only [octalValue, List.foldl_cons, List.foldl_nil, h0]
    omega

theorem isdigit_of_mem_numeral {d : Byte} (hd : d ∈ numeral c next) : isdigit d = true := by
  have hc : c.toNat < 256 := c.toNat_lt
  have h2 : isdigit (digitByte (c.toNat / 64)) = true := isdigit_digitByte (by omega)
  have h1 : isdigit (digitByte (c.toNat / 8 % 8)) = true := isdigit_digitByte (by omega)
  have h0 : isdigit (digitByte (c.toNat % 8)) = true := isdigit_digitByte (by omega)
  obtain h | ⟨-, -, h | ⟨-, h⟩⟩ := numeral_cases c next
  all_goals
    rw [h] at hd
    simp only [octal3, List.mem_cons, List.not_mem_nil, or_false] at hd
    rcases hd with rfl | rfl | rfl <;> assumption

theorem numeral_ne_nil (c : Byte) (next : Option Byte) : numeral c next ≠ [] := by
  obtain h | ⟨-, -, h | ⟨-, h⟩⟩ := numeral_cases c next <;> rw [h] <;> exact List.cons_ne_nil _ _

theorem length_numeral_le (c : Byte) (next : Option Byte) : (numeral c next).length ≤ 3 := by
  obtain h | ⟨-, -, h | ⟨-, h⟩⟩ := numeral_cases c next <;> rw [h] <;> simp [octal3]

theorem not_isdigit_next (h : (numeral c next).length < 3) : next.any isdigit = false := by
  obtain h3 | ⟨hno, -⟩ := numeral_cases c next
  · rw [h3] at h
    simp [octal3] at h
  · exact hno

/-- Where one text begins with more digits than the other, the other goes on with a digit. -/
theorem exists_isdigit_of_length_lt {ds ds' : CString} (hds' : ∀ d ∈ ds', isdigit d = true)
    (h : ds ++ x = ds' ++ x') (hlt : ds.length < ds'.length) : x.head?.any isdigit = true := by
  obtain ⟨more, hmore, hx⟩ | ⟨more, hmore, -⟩ := List.append_eq_append_iff.1 h
  · cases more with
    | nil =>
      rw [hmore, List.append_nil] at hlt
      omega
    | cons d more =>
      rw [hx]
      exact hds' d (by rw [hmore]; simp)
  · rw [hmore, List.length_append] at hlt
    omega

/-- **Octal digits can be read back.** -/
theorem numeral_inj (hx : x.head?.any isdigit = true → next.any isdigit = true)
    (hx' : x'.head?.any isdigit = true → next'.any isdigit = true)
    (h : numeral c next ++ x = numeral c' next' ++ x') : c = c' ∧ x = x' := by
  have hle := length_numeral_le c next
  have hle' := length_numeral_le c' next'
  have hlen : (numeral c next).length = (numeral c' next').length := by
    rcases Nat.lt_trichotomy (numeral c next).length (numeral c' next').length with hlt | heq | hlt
    · have hdigit := hx (exists_isdigit_of_length_lt (fun d => isdigit_of_mem_numeral) h hlt)
      have hno : next.any isdigit = false := not_isdigit_next (c := c) (by omega)
      rw [hno] at hdigit
      cases hdigit
    · exact heq
    · have hdigit := hx' (exists_isdigit_of_length_lt (fun d => isdigit_of_mem_numeral) h.symm hlt)
      have hno : next'.any isdigit = false := not_isdigit_next (c := c') (by omega)
      rw [hno] at hdigit
      cases hdigit
  obtain ⟨hdigits, hrest⟩ := List.append_inj h hlen
  have hvalue : c.toNat = c'.toNat := by
    rw [← octalValue_numeral c next, ← octalValue_numeral c' next', hdigits]
  exact ⟨UInt8.toNat_inj.1 hvalue, hrest⟩

/-! ## Bytes -/

theorem escapeLetter_mem {letter : Byte} (h : escapeLetter c = some letter) :
    (c, letter) ∈ [(dquote, dquote), (backslash, backslash), (12, 102), (10, 110), (13, 114), (9, 116), (11, 118)] := by
  unfold escapeLetter at h
  split_ifs at h with h1 h2 h3 h4 h5 h6
  · rcases Bool.or_eq_true _ _ ▸ h1 with h1 | h1
    · simp [← Option.some.inj h, beq_iff_eq.1 h1]
    · simp [← Option.some.inj h, beq_iff_eq.1 h1]
  all_goals simp_all

theorem escapeLetter_inj {letter : Byte} (h : escapeLetter c = some letter) (h' : escapeLetter c' = some letter) :
    c = c' := by
  have hmem := escapeLetter_mem h
  have hmem' := escapeLetter_mem h'
  simp only [List.mem_cons, Prod.mk.injEq, List.not_mem_nil, or_false] at hmem hmem'
  rcases hmem with ⟨rfl, rfl⟩ | ⟨rfl, rfl⟩ | ⟨rfl, rfl⟩ | ⟨rfl, rfl⟩ | ⟨rfl, rfl⟩ | ⟨rfl, rfl⟩ | ⟨rfl, rfl⟩ <;>
    simpa [dquote, backslash, eq_comm] using hmem'

/-- The letters are neither digits nor the `x` of a hexadecimal number. -/
theorem escapeLetter_spec {letter : Byte} (h : escapeLetter c = some letter) :
    isdigit letter = false ∧ letter ≠ 120 ∧ letter ≠ newline := by
  have hmem := escapeLetter_mem h
  simp only [List.mem_cons, Prod.mk.injEq, List.not_mem_nil, or_false] at hmem
  rcases hmem with ⟨-, rfl⟩ | ⟨-, rfl⟩ | ⟨-, rfl⟩ | ⟨-, rfl⟩ | ⟨-, rfl⟩ | ⟨-, rfl⟩ | ⟨-, rfl⟩ <;> decide

/-- **How a byte is written**: with a letter, as it is, or as a number. -/
theorem quoteByte_cases (c : Byte) (next : Option Byte) :
    (∃ letter, escapeLetter c = some letter ∧ quoteByte c next = [backslash, letter]) ∨
    (isprint c = true ∧ c ≠ dquote ∧ c ≠ backslash ∧ quoteByte c next = [c]) ∨
    quoteByte c next = backslash :: numeral c next := by
  unfold quoteByte
  cases hletter : escapeLetter c with
  | some letter => exact .inl ⟨letter, rfl, rfl⟩
  | none =>
    by_cases hprint : isprint c = true
    · have hplain : c ≠ dquote ∧ c ≠ backslash := by
        constructor <;> rintro rfl <;> exact absurd hletter (by decide)
      exact .inr (.inl ⟨hprint, hplain.1, hplain.2, if_pos hprint⟩)
    · exact .inr (.inr (if_neg hprint))

/-- A byte that is no digit does not begin with one when it is quoted. -/
theorem isdigit_of_quoteByte (h : (quoteByte c next ++ x).head?.any isdigit = true) : isdigit c = true := by
  obtain ⟨letter, -, hq⟩ | ⟨-, -, -, hq⟩ | hq := quoteByte_cases c next
  · rw [hq] at h
    exact absurd h (by simp only [List.cons_append, List.head?_cons]; decide)
  · rw [hq] at h
    exact h
  · rw [hq] at h
    exact absurd h (by simp only [List.cons_append, List.head?_cons]; decide)

theorem quoteByte_ne_dquote : quoteByte c next ++ x ≠ dquote :: x' := by
  intro h
  obtain ⟨letter, -, hq⟩ | ⟨-, hne, -, hq⟩ | hq := quoteByte_cases c next
  · rw [hq] at h
    exact absurd (List.cons.inj h).1 (by decide)
  · rw [hq] at h
    exact hne (List.cons.inj h).1
  · rw [hq] at h
    exact absurd (List.cons.inj h).1 (by decide)

/-- **A quoted byte can be read back**, if what is behind it begins with a digit only where the
byte behind it is one. -/
theorem quoteByte_inj (hx : x.head?.any isdigit = true → next.any isdigit = true)
    (hx' : x'.head?.any isdigit = true → next'.any isdigit = true)
    (h : quoteByte c next ++ x = quoteByte c' next' ++ x') : c = c' ∧ x = x' := by
  -- a number does not begin like a letter
  have hnumber : ∀ {c c' letter : Byte} {next : Option Byte} {x x' : CString}, escapeLetter c' = some letter →
      numeral c next ++ x = letter :: x' → False := by
    intro c c' letter next x x' hletter h
    obtain ⟨d, ds, hds⟩ := List.exists_cons_of_ne_nil (numeral_ne_nil c next)
    rw [hds] at h
    have hdigit : isdigit d = true := isdigit_of_mem_numeral (c := c) (hds ▸ List.mem_cons_self)
    rw [(List.cons.inj h).1, (escapeLetter_spec hletter).1] at hdigit
    cases hdigit
  obtain ⟨k, hk, hq⟩ | ⟨-, -, hne, hq⟩ | hq := quoteByte_cases c next
  · rw [hq] at h
    obtain ⟨k', hk', hq'⟩ | ⟨-, -, hne', hq'⟩ | hq' := quoteByte_cases c' next'
    · rw [hq'] at h
      obtain ⟨hletter, hrest⟩ := List.cons.inj (List.cons.inj h).2
      rw [hletter] at hk
      exact ⟨escapeLetter_inj hk hk', hrest⟩
    · rw [hq'] at h
      exact absurd (List.cons.inj h).1.symm hne'
    · rw [hq'] at h
      exact (hnumber hk (List.cons.inj h).2.symm).elim
  · rw [hq] at h
    obtain ⟨k', hk', hq'⟩ | ⟨-, -, hne', hq'⟩ | hq' := quoteByte_cases c' next'
    · rw [hq'] at h
      exact absurd (List.cons.inj h).1 hne
    · rw [hq'] at h
      exact List.cons.inj h
    · rw [hq'] at h
      exact absurd (List.cons.inj h).1 hne
  · rw [hq] at h
    obtain ⟨k', hk', hq'⟩ | ⟨-, -, hne', hq'⟩ | hq' := quoteByte_cases c' next'
    · rw [hq'] at h
      exact (hnumber hk' (List.cons.inj h).2).elim
    · rw [hq'] at h
      exact absurd (List.cons.inj h).1.symm hne'
    · rw [hq'] at h
      exact numeral_inj hx hx' (List.cons.inj h).2

/-! ## Strings -/

theorem isdigit_of_quotePlain (h : (quotePlain n s ++ dquote :: x).head?.any isdigit = true) :
    s.head?.any isdigit = true := by
  cases n with
  | zero => exact absurd h (by simp only [quotePlain, List.nil_append, List.head?_cons]; decide)
  | succ n =>
    cases s with
    | nil => exact absurd h (by simp only [quotePlain, List.nil_append, List.head?_cons]; decide)
    | cons c s =>
      rw [quotePlain, List.append_assoc] at h
      exact isdigit_of_quoteByte h

theorem quotePlain_inj (hs : s.length ≤ n) (hs' : s'.length ≤ n)
    (h : quotePlain n s ++ dquote :: x = quotePlain n s' ++ dquote :: x') : s = s' ∧ x = x' := by
  induction n generalizing s s' with
  | zero =>
    rw [List.length_eq_zero_iff.1 (by omega : s.length = 0), List.length_eq_zero_iff.1 (by omega : s'.length = 0)] at *
    exact ⟨rfl, (List.cons.inj h).2⟩
  | succ n ih =>
    cases s with
    | nil =>
      cases s' with
      | nil => exact ⟨rfl, (List.cons.inj h).2⟩
      | cons c' s' =>
        rw [quotePlain, quotePlain, List.append_assoc] at h
        exact absurd h.symm quoteByte_ne_dquote
    | cons c s =>
      cases s' with
      | nil =>
        rw [quotePlain, quotePlain, List.append_assoc] at h
        exact absurd h quoteByte_ne_dquote
      | cons c' s' =>
        rw [quotePlain, quotePlain, List.append_assoc, List.append_assoc] at h
        obtain ⟨rfl, hrest⟩ := quoteByte_inj isdigit_of_quotePlain isdigit_of_quotePlain h
        simp only [List.length_cons] at hs hs'
        obtain ⟨rfl, hx⟩ := ih (by omega) (by omega) hrest
        exact ⟨rfl, hx⟩

theorem hexDigit_inj {n n' : ℕ} (hn : n < 16) (hn' : n' < 16) (h : hexDigit n = hexDigit n') : n = n' := by
  have hvalue := congrArg UInt8.toNat h
  unfold hexDigit at hvalue
  split_ifs at hvalue <;> simp only [Nat.toUInt8_eq, UInt8.toNat_ofNat'] at hvalue <;> omega

theorem hexByte_inj (h : hexByte c ++ x = hexByte c' ++ x') : c = c' ∧ x = x' := by
  have hc : c.toNat < 256 := c.toNat_lt
  have hc' : c'.toNat < 256 := c'.toNat_lt
  obtain ⟨hhigh, htail⟩ := List.cons.inj (List.cons.inj (List.cons.inj h).2).2
  obtain ⟨hlow, hrest⟩ := List.cons.inj htail
  have hdiv := hexDigit_inj (by omega) (by omega) hhigh
  have hmod := hexDigit_inj (by omega) (by omega) hlow
  exact ⟨UInt8.toNat_inj.1 (by omega), hrest⟩

theorem quoteHex_inj (h : s.flatMap hexByte ++ dquote :: x = s'.flatMap hexByte ++ dquote :: x') : s = s' ∧ x = x' := by
  induction s generalizing s' with
  | nil =>
    cases s' with
    | nil => exact ⟨rfl, (List.cons.inj h).2⟩
    | cons c' s' => exact absurd (List.cons.inj h).1 (by decide)
  | cons c s ih =>
    cases s' with
    | nil => exact absurd (List.cons.inj h).1 (by decide)
    | cons c' s' =>
      rw [List.flatMap_cons, List.flatMap_cons, List.append_assoc, List.append_assoc] at h
      obtain ⟨rfl, hrest⟩ := hexByte_inj h
      obtain ⟨rfl, hx⟩ := ih hrest
      exact ⟨rfl, hx⟩

/-- A string in hexadecimal numbers does not begin like any other one. -/
theorem quotePlain_ne_hexByte : quotePlain n s ++ dquote :: x ≠ hexByte c' ++ x' := by
  intro h
  have hquote : (dquote :: x : CString) ≠ hexByte c' ++ x' := by
    intro h
    exact absurd (List.cons.inj h).1 (by decide)
  cases n with
  | zero => exact hquote h
  | succ n =>
    cases s with
    | nil => exact hquote h
    | cons c s =>
      rw [quotePlain, List.append_assoc] at h
      obtain ⟨k, hk, hq⟩ | ⟨-, -, hne, hq⟩ | hq := quoteByte_cases c s.head?
      · rw [hq] at h
        exact (escapeLetter_spec hk).2.1 (List.cons.inj (List.cons.inj h).2).1
      · rw [hq] at h
        exact hne (List.cons.inj h).1
      · rw [hq] at h
        obtain ⟨d, ds, hds⟩ := List.exists_cons_of_ne_nil (numeral_ne_nil c s.head?)
        have hdigit : isdigit d = true := isdigit_of_mem_numeral (c := c) (hds ▸ List.mem_cons_self)
        rw [hds] at h
        rw [(List.cons.inj (List.cons.inj h).2).1] at hdigit
        exact absurd hdigit (by decide)

/-- The bytes between the quotation marks. -/
def quoteBody (xflag n : ℕ) (s : CString) : CString :=
  if usehex xflag n s then (s.take n).flatMap hexByte else quotePlain n s

theorem stringQuote_fst : (stringQuote xflag n s).1 = dquote :: quoteBody xflag n s ++ [dquote] := rfl

/-- Only a string with some byte in it is written in hexadecimal numbers where others are not. -/
theorem ne_nil_of_usehex (hs : usehex xflag n s = true) (hs' : usehex xflag n s' = false) : s ≠ [] := by
  rintro rfl
  unfold usehex at hs hs'
  split_ifs at hs hs' with hmany hone
  simp at hs

/-- **A quoted string that is not cut off can be read back.** -/
theorem stringQuote_inj (hs : s.length ≤ n) (hs' : s'.length ≤ n)
    (h : (stringQuote xflag n s).1 ++ x = (stringQuote xflag n s').1 ++ x') : s = s' ∧ x = x' := by
  rw [stringQuote_fst, stringQuote_fst] at h
  have hbody : quoteBody xflag n s ++ dquote :: x = quoteBody xflag n s' ++ dquote :: x' := by
    simpa using h
  -- one string in hexadecimal numbers, the other one not
  have hmixed : ∀ {s s' x x' : CString}, s.length ≤ n → usehex xflag n s = true → usehex xflag n s' = false →
      (s.take n).flatMap hexByte ++ dquote :: x ≠ quotePlain n s' ++ dquote :: x' := by
    intro s s' x x' hs husehex hplain heq
    obtain ⟨c, t, rfl⟩ := List.exists_cons_of_ne_nil (ne_nil_of_usehex husehex hplain)
    rw [List.take_of_length_le hs, List.flatMap_cons, List.append_assoc] at heq
    exact quotePlain_ne_hexByte heq.symm
  unfold quoteBody at hbody
  cases husehex : usehex xflag n s with
  | true =>
    cases husehex' : usehex xflag n s' with
    | true =>
      rw [husehex, husehex', if_pos rfl, if_pos rfl, List.take_of_length_le hs, List.take_of_length_le hs'] at hbody
      exact quoteHex_inj hbody
    | false =>
      rw [husehex, husehex', if_pos rfl, if_neg Bool.false_ne_true] at hbody
      exact absurd hbody (hmixed hs husehex husehex')
  | false =>
    cases husehex' : usehex xflag n s' with
    | true =>
      rw [husehex, husehex', if_pos rfl, if_neg Bool.false_ne_true] at hbody
      exact absurd hbody.symm (hmixed hs' husehex' husehex)
    | false =>
      rw [husehex, husehex', if_neg Bool.false_ne_true, if_neg Bool.false_ne_true] at hbody
      exact quotePlain_inj hs hs' hbody

/-! ## Lists of arguments -/

/-- What the loop of `print_arg_prov` writes if nothing is left out. -/
def quotedArgs (xflag : ℕ) : CString → List CString → CString
  | _, [] => []
  | sep, arg :: args => sep ++ (stringQuote xflag maxStrlen arg).1 ++ quotedArgs xflag (str ", ") args

theorem length_quoteByte_pos (c : Byte) (next : Option Byte) : 0 < (quoteByte c next).length := by
  obtain ⟨k, -, hq⟩ | ⟨-, -, -, hq⟩ | hq := quoteByte_cases c next <;> rw [hq] <;> simp

theorem length_quotePlain (n : ℕ) (s : CString) : min n s.length ≤ (quotePlain n s).length := by
  induction n generalizing s with
  | zero => simp
  | succ n ih =>
    cases s with
    | nil => simp
    | cons c s =>
      have hpos := length_quoteByte_pos c s.head?
      have hrest := ih s
      rw [quotePlain, List.length_append, List.length_cons]
      omega

theorem length_quoteHex (s : CString) : (s.flatMap hexByte).length = 4 * s.length := by
  induction s with
  | nil => rfl
  | cons c s ih =>
    have hbyte : (hexByte c).length = 4 := rfl
    rw [List.flatMap_cons, List.length_append, ih, hbyte, List.length_cons]
    omega

/-- A quoted string is at least as long as what is quoted of it, with its quotation marks. -/
theorem length_stringQuote (xflag n : ℕ) (s : CString) : min n s.length + 2 ≤ (stringQuote xflag n s).1.length := by
  have hbody : min n s.length ≤ (quoteBody xflag n s).length := by
    unfold quoteBody
    split_ifs
    · rw [length_quoteHex, List.length_take]
      omega
    · exact length_quotePlain n s
  rw [stringQuote_fst, List.length_append, List.length_cons, List.length_singleton]
  omega

theorem getStrProv_eq : getStrProv xflag s =
    if (stringQuote xflag maxStrlen s).2 then (stringQuote xflag maxStrlen s).1 ++ str "..."
    else (stringQuote xflag maxStrlen s).1 := rfl

theorem getStrProv_of_le (hs : s.length ≤ maxStrlen) : getStrProv xflag s = (stringQuote xflag maxStrlen s).1 := by
  have hterminated : (stringQuote xflag maxStrlen s).2 = false := decide_eq_false (by omega)
  rw [getStrProv_eq, hterminated, if_neg Bool.false_ne_true]

theorem length_le_getStrProv (xflag : ℕ) (s : CString) : min maxStrlen s.length + 2 ≤ (getStrProv xflag s).length := by
  have hlen := length_stringQuote xflag maxStrlen s
  rw [getStrProv_eq]
  split_ifs
  · rw [List.length_append]
    omega
  · exact hlen

/-- **Where the text is short nothing has been left out of it**: neither bytes of an argument nor
arguments. -/
theorem printArgLoop_eq {sep : CString} {args : List CString}
    (h : (printArgLoop xflag n sep args).length < 2 * (maxStrlen / 2 - n)) :
    printArgLoop xflag n sep args = quotedArgs xflag sep args ∧ ∀ arg ∈ args, arg.length ≤ maxStrlen := by
  have hmax : maxStrlen / 2 = 5120 ∧ maxStrlen = 10240 := by decide
  induction args generalizing n sep with
  | nil =>
    have hn : n < maxStrlen / 2 := by omega
    exact ⟨if_pos hn, fun arg harg => absurd harg List.not_mem_nil⟩
  | cons arg args ih =>
    have hn : n < maxStrlen / 2 := by omega
    have hloop : printArgLoop xflag n sep (arg :: args) =
        sep ++ getStrProv xflag arg ++ printArgLoop xflag (n + 1) (str ", ") args := if_pos hn
    have hlen := length_le_getStrProv xflag arg
    rw [hloop, List.length_append, List.length_append] at h
    obtain ⟨hrest, hshort⟩ := ih
      (by omega : (printArgLoop xflag (n + 1) (str ", ") args).length < 2 * (maxStrlen / 2 - (n + 1)))
    have harg : arg.length ≤ maxStrlen := by omega
    refine ⟨?_, List.forall_mem_cons.2 ⟨harg, hshort⟩⟩
    rw [hloop, hrest, getStrProv_of_le harg, quotedArgs]

theorem printArgProv_eq {args : List CString} {text : CString} (h : printArgProv xflag args = .ok text) :
    text = str "[" ++ quotedArgs xflag [] args ++ str "]" ∧ ∀ arg ∈ args, arg.length ≤ maxStrlen := by
  unfold printArgProv at h
  simp only at h
  split_ifs at h with hfits
  have hmax : maxStrlen / 2 = 5120 := by decide
  have hbrackets : (str "[").length = 1 ∧ (str "]").length = 1 := by decide
  rw [List.length_append, List.length_append] at hfits
  obtain ⟨hloop, hshort⟩ := printArgLoop_eq (by omega : (printArgLoop xflag 0 [] args).length < 2 * (maxStrlen / 2 - 0))
  rw [hloop] at h
  exact ⟨(Except.ok.inj h).symm, hshort⟩

theorem quotedArgs_inj {sep : CString} {args args' : List CString} (hsep : sep = [] ∨ sep = str ", ")
    (hargs : ∀ arg ∈ args, arg.length ≤ maxStrlen) (hargs' : ∀ arg ∈ args', arg.length ≤ maxStrlen)
    (h : quotedArgs xflag sep args ++ str "]" = quotedArgs xflag sep args' ++ str "]") : args = args' := by
  -- the closing bracket does not begin like an argument
  have hclose : ∀ {sep y : CString}, sep = [] ∨ sep = str ", " → str "]" ≠ sep ++ dquote :: y := by
    rintro sep y (rfl | rfl) h
    · exact absurd (List.cons.inj h).1 (by decide)
    · exact absurd (List.cons.inj h).1 (by decide)
  induction args generalizing args' sep with
  | nil =>
    cases args' with
    | nil => rfl
    | cons arg' args' =>
      rw [quotedArgs, quotedArgs, stringQuote_fst] at h
      simp only [List.append_assoc, List.cons_append, List.nil_append] at h
      exact absurd h (hclose hsep)
  | cons arg args ih =>
    cases args' with
    | nil =>
      rw [quotedArgs, quotedArgs, stringQuote_fst] at h
      simp only [List.append_assoc, List.cons_append, List.nil_append] at h
      exact absurd h.symm (hclose hsep)
    | cons arg' args' =>
      rw [quotedArgs, quotedArgs, List.append_assoc, List.append_assoc, List.append_assoc, List.append_assoc] at h
      obtain ⟨hshort, htail⟩ := List.forall_mem_cons.1 hargs
      obtain ⟨hshort', htail'⟩ := List.forall_mem_cons.1 hargs'
      obtain ⟨harg, hrest⟩ := stringQuote_inj hshort hshort' (List.append_cancel_left h)
      rw [harg, ih (.inr rfl) htail htail' hrest]

/-- **The arguments can be read back** from the text that `print_arg_prov` writes. -/
theorem printArgProv_inj {args args' : List CString} {text : CString} (h : printArgProv xflag args = .ok text)
    (h' : printArgProv xflag args' = .ok text) : args = args' := by
  obtain ⟨htext, hshort⟩ := printArgProv_eq h
  obtain ⟨htext', hshort'⟩ := printArgProv_eq h'
  rw [htext, List.append_assoc, List.append_assoc] at htext'
  exact quotedArgs_inj (.inl rfl) hshort hshort' (List.append_cancel_left htext')

end Ptu
