import Ptu.Lib.Delimited
import Ptu.Proof.Quoted

/-!
# Reading back the provenance log

The log has one line for each record, with blanks between the fields, but only the arguments of a
program are quoted. So a path with a newline can look like several records
(`log_forged`), and a blank in the path of an `EXECVE` can look like the end of the path. Without
these the log determines the events (`log_unambiguous`).

* `scan`: where the quotation marks of a text are. It shows that the list of arguments at the end
  of a line begins at one place only, so blanks in the working directory do no harm.
* `ProvEntry.fields_inj`, `ProvEvent.record_inj`: the fields of a line determine the event.
-/

namespace Ptu

open Delimited

variable {xflag n m : ℕ} {c : Byte} {s x : CString}

/-! ## Numbers -/

theorem isdigit_of_mem_decimal (h : c ∈ decimal n) : isdigit c = true := by
  obtain ⟨ch, hch, rfl⟩ := List.mem_map.1 h
  have hdigit := Char.isDigit_iff_toNat.1 (Nat.isDigit_of_mem_toDigits (by decide) (by decide) hch)
  have hbounds : 48 ≤ ch.toNat ∧ ch.toNat ≤ 57 := hdigit
  rw [isdigit_iff, Nat.toUInt8_eq, UInt8.toNat_ofNat']
  omega

theorem decimal_inj (h : decimal n = decimal m) : n = m := by
  -- the bytes give the digits back
  have hread : ∀ k, (decimal k).map (fun c => Char.ofNat c.toNat) = Nat.toDigits 10 k := by
    intro k
    rw [decimal, List.map_map]
    refine (List.map_congr_left fun ch hch => ?_).trans (List.map_id _)
    have hdigit := Char.isDigit_iff_toNat.1 (Nat.isDigit_of_mem_toDigits (by decide) (by decide) hch)
    have hbounds : 48 ≤ ch.toNat ∧ ch.toNat ≤ 57 := hdigit
    have hbyte : ch.toNat.toUInt8.toNat = ch.toNat := by
      rw [Nat.toUInt8_eq, UInt8.toNat_ofNat']
      omega
    simp only [Function.comp_apply, hbyte, Char.ofNat_toNat, id]
  have hdigits : Nat.toDigits 10 n = Nat.toDigits 10 m := by rw [← hread n, ← hread m, h]
  rw [← Nat.ofDigitChars_toDigits (b := 10) (n := n) (by decide) (by decide), hdigits,
    Nat.ofDigitChars_toDigits (by decide) (by decide)]

theorem mem_signedDecimal {t : ℤ} (h : c ∈ signedDecimal t) : isdigit c = true ∨ c = 45 := by
  cases t with
  | ofNat n => exact .inl (isdigit_of_mem_decimal h)
  | negSucc n =>
    rcases List.mem_append.1 h with hsign | hdigit
    · exact .inr (List.mem_singleton.1 hsign)
    · exact .inl (isdigit_of_mem_decimal hdigit)

theorem signedDecimal_inj {t t' : ℤ} (h : signedDecimal t = signedDecimal t') : t = t' := by
  -- a number without a sign begins with a digit
  have hsign : ∀ {n m : ℕ}, decimal n ≠ str "-" ++ decimal m := by
    intro n m h
    have hmem : (45 : Byte) ∈ decimal n := by rw [h]; exact List.mem_cons_self
    exact absurd (isdigit_of_mem_decimal hmem) (by decide)
  cases t with
  | ofNat n =>
    cases t' with
    | ofNat n' => rw [decimal_inj h]
    | negSucc n' => exact absurd h hsign
  | negSucc n =>
    cases t' with
    | ofNat n' => exact absurd h.symm hsign
    | negSucc n' =>
      have hnat := decimal_inj (List.append_cancel_left h)
      rw [Nat.succ.inj hnat]

/-- A number contains neither a blank nor a newline. -/
theorem notMem_signedDecimal {t : ℤ} (hc : isdigit c = false ∧ c ≠ 45) : c ∉ signedDecimal t := by
  intro h
  rcases mem_signedDecimal h with hdigit | hminus
  · rw [hc.1] at hdigit
    cases hdigit
  · exact hc.2 hminus

theorem notMem_decimal (hc : isdigit c = false) : c ∉ decimal n := by
  intro h
  rw [isdigit_of_mem_decimal h] at hc
  cases hc

/-! ## Where the arguments begin -/

/-- Where a byte of a list of arguments stands. -/
inductive ScanState where
  | outside
  | inside
  /-- behind a backslash -/
  | escaped
  /-- there is no such list of arguments -/
  | bad
  deriving DecidableEq

def scan : ScanState → Byte → ScanState
  | .outside, c =>
    if c = dquote then .inside else if c ∈ str ", ]" then .outside else .bad
  | .inside, c => if c = dquote then .outside else if c = backslash then .escaped else .inside
  | .escaped, _ => .inside
  | .bad, _ => .bad

@[simp] theorem foldl_scan_bad (s : CString) : s.foldl scan .bad = .bad := by
  induction s with
  | nil => rfl
  | cons c s ih => exact ih

theorem foldl_scan_inside (hs : ∀ c ∈ s, c ≠ dquote ∧ c ≠ backslash) : s.foldl scan .inside = .inside := by
  induction s with
  | nil => rfl
  | cons c s ih =>
    obtain ⟨⟨hquote, hslash⟩, htail⟩ := List.forall_mem_cons.1 hs
    rw [List.foldl_cons, scan, if_neg hquote, if_neg hslash]
    exact ih htail

/-- Where the arguments are read as if the inside were outside, a byte is no quotation mark. -/
theorem scan_outside_of_ne (hc : c ≠ dquote) : scan .outside c = .outside ∨ scan .outside c = .bad := by
  rw [scan, if_neg hc]
  split_ifs
  · exact .inl rfl
  · exact .inr rfl

theorem isdigit_ne {d : Byte} (hd : isdigit d = true) : d ≠ dquote ∧ d ≠ backslash ∧ d ≠ newline := by
  refine ⟨?_, ?_, ?_⟩ <;> rintro rfl <;> exact absurd hd (by decide)

theorem hexDigit_ne (hn : n < 16) : hexDigit n ≠ dquote ∧ hexDigit n ≠ backslash ∧ hexDigit n ≠ newline := by
  have hvalue : 48 ≤ (hexDigit n).toNat ∧ (hexDigit n).toNat ≠ 92 := by
    unfold hexDigit
    split_ifs <;> simp only [Nat.toUInt8_eq, UInt8.toNat_ofNat'] <;> omega
  refine ⟨?_, ?_, ?_⟩ <;> intro h <;> rw [h] at hvalue <;> revert hvalue <;> decide

/-- What a piece of quoted text does to the state: nothing if it is read inside quotation marks,
and outside of them it is either made of separators or no text of arguments at all. -/
structure Neutral (s : CString) : Prop where
  inside : s.foldl scan .inside = .inside
  outside : s.foldl scan .outside = .outside ∨ s.foldl scan .outside = .bad
  newline : newline ∉ s

theorem neutral_nil : Neutral [] := ⟨rfl, .inl rfl, List.not_mem_nil⟩

theorem Neutral.append (hs : Neutral s) (hx : Neutral x) : Neutral (s ++ x) where
  inside := by rw [List.foldl_append, hs.inside, hx.inside]
  outside := by
    rw [List.foldl_append]
    rcases hs.outside with h | h
    · rw [h]
      exact hx.outside
    · rw [h]
      exact .inr (foldl_scan_bad x)
  newline := by
    rw [List.mem_append, not_or]
    exact ⟨hs.newline, hx.newline⟩

/-- A backslash with what it escapes. -/
theorem neutral_escape {letter : Byte} (hletter : letter ≠ newline)
    (hs : ∀ c ∈ s, c ≠ dquote ∧ c ≠ backslash ∧ c ≠ newline) : Neutral (backslash :: letter :: s) where
  inside := by
    have hrest : s.foldl scan .inside = .inside := foldl_scan_inside fun c hc => ⟨(hs c hc).1, (hs c hc).2.1⟩
    exact hrest
  outside := .inr (foldl_scan_bad s)
  newline := by
    intro h
    rcases List.mem_cons.1 h with h | h
    · exact absurd h (by decide)
    · rcases List.mem_cons.1 h with h | h
      · exact hletter h.symm
      · exact (hs _ h).2.2 rfl

theorem neutral_quoteByte (c : Byte) (next : Option Byte) : Neutral (quoteByte c next) := by
  obtain ⟨k, hk, hq⟩ | ⟨hprint, hquote, hslash, hq⟩ | hq := quoteByte_cases c next
  · rw [hq]
    exact neutral_escape (escapeLetter_spec hk).2.2 fun c hc => absurd hc List.not_mem_nil
  · rw [hq]
    refine ⟨foldl_scan_inside ?_, scan_outside_of_ne hquote, ?_⟩
    · intro d hd
      rw [List.mem_singleton.1 hd]
      exact ⟨hquote, hslash⟩
    · intro h
      rw [← List.mem_singleton.1 h] at hprint
      exact absurd hprint (by decide)
  · rw [hq]
    obtain ⟨d, ds, hds⟩ := List.exists_cons_of_ne_nil (numeral_ne_nil c next)
    have hdigits : ∀ e ∈ d :: ds, isdigit e = true := by
      intro e he
      exact isdigit_of_mem_numeral (c := c) (hds ▸ he)
    rw [hds]
    exact neutral_escape (isdigit_ne (hdigits d List.mem_cons_self)).2.2
      fun e he => isdigit_ne (hdigits e (List.mem_cons_of_mem _ he))

theorem neutral_quotePlain (n : ℕ) (s : CString) : Neutral (quotePlain n s) := by
  induction n generalizing s with
  | zero => exact neutral_nil
  | succ n ih =>
    cases s with
    | nil => exact neutral_nil
    | cons c s => exact (neutral_quoteByte c s.head?).append (ih s)

theorem neutral_quoteHex (s : CString) : Neutral (s.flatMap hexByte) := by
  induction s with
  | nil => exact neutral_nil
  | cons c s ih =>
    have hc : c.toNat < 256 := c.toNat_lt
    have hbyte : Neutral (backslash :: 120 :: [hexDigit (c.toNat / 16), hexDigit (c.toNat % 16)]) := by
      refine neutral_escape (by decide) ?_
      intro d hd
      simp only [List.mem_cons, List.not_mem_nil, or_false] at hd
      rcases hd with rfl | rfl
      · exact hexDigit_ne (by omega)
      · exact hexDigit_ne (by omega)
    exact hbyte.append ih

theorem neutral_quoteBody (xflag n : ℕ) (s : CString) : Neutral (quoteBody xflag n s) := by
  unfold quoteBody
  split_ifs
  · exact neutral_quoteHex _
  · exact neutral_quotePlain n s

/-- A quoted string, read from its beginning. -/
theorem scan_stringQuote (xflag n : ℕ) (s : CString) :
    (stringQuote xflag n s).1.foldl scan .outside = .outside := by
  rw [stringQuote_fst, List.cons_append, List.foldl_cons, List.foldl_append]
  have hbody : (quoteBody xflag n s).foldl scan (scan .outside dquote) = .inside := (neutral_quoteBody xflag n s).inside
  rw [hbody]
  rfl

/-- A quoted string, read as if it stood inside another one. -/
theorem scan_stringQuote_inside (xflag n : ℕ) (s : CString) :
    (stringQuote xflag n s).1.foldl scan .inside = .inside ∨ (stringQuote xflag n s).1.foldl scan .inside = .bad := by
  rw [stringQuote_fst, List.cons_append, List.foldl_cons, List.foldl_append]
  rcases (neutral_quoteBody xflag n s).outside with h | h
  · have hbody : (quoteBody xflag n s).foldl scan (scan .inside dquote) = .outside := h
    rw [hbody]
    exact .inl rfl
  · have hbody : (quoteBody xflag n s).foldl scan (scan .inside dquote) = .bad := h
    rw [hbody]
    exact .inr rfl

theorem scan_quotedArgs {sep : CString} (hsep : sep = [] ∨ sep = str ", ") (args : List CString) :
    (quotedArgs xflag sep args).foldl scan .outside = .outside := by
  induction args generalizing sep with
  | nil => rfl
  | cons arg args ih =>
    have hstart : sep.foldl scan .outside = .outside := by
      rcases hsep with rfl | rfl <;> decide
    rw [quotedArgs, List.foldl_append, List.foldl_append, hstart, scan_stringQuote]
    exact ih (.inr rfl)

theorem scan_quotedArgs_inside {sep : CString} (hsep : sep = [] ∨ sep = str ", ") (args : List CString) :
    (quotedArgs xflag sep args).foldl scan .inside = .inside ∨
      (quotedArgs xflag sep args).foldl scan .inside = .bad := by
  induction args generalizing sep with
  | nil => exact .inl rfl
  | cons arg args ih =>
    have hstart : sep.foldl scan .inside = .inside := by
      rcases hsep with rfl | rfl <;> decide
    rw [quotedArgs, List.foldl_append, List.foldl_append, hstart]
    rcases scan_stringQuote_inside xflag maxStrlen arg with h | h
    · rw [h]
      exact ih (.inr rfl)
    · rw [h]
      exact .inr (foldl_scan_bad _)

theorem newline_notMem_quotedArgs {sep : CString} (hsep : sep = [] ∨ sep = str ", ") (args : List CString) :
    newline ∉ quotedArgs xflag sep args := by
  induction args generalizing sep with
  | nil => exact List.not_mem_nil
  | cons arg args ih =>
    have hstart : newline ∉ sep := by
      rcases hsep with rfl | rfl <;> decide
    have hbody := (neutral_quoteBody xflag maxStrlen arg).newline
    have hquote : newline ≠ dquote := by decide
    rw [quotedArgs, stringQuote_fst]
    simp only [List.mem_append, List.mem_cons, List.not_mem_nil, or_false, not_or]
    exact ⟨⟨hstart, ⟨hquote, hbody⟩, hquote⟩, ih (.inr rfl)⟩

theorem newline_notMem_printArgProv {args : List CString} {text : CString} (h : printArgProv xflag args = .ok text) :
    newline ∉ text := by
  have hbrackets : newline ∉ str "[" ∧ newline ∉ str "]" := by decide
  rw [(printArgProv_eq h).1, List.mem_append, List.mem_append, not_or, not_or]
  exact ⟨⟨hbrackets.1, newline_notMem_quotedArgs (.inl rfl) args⟩, hbrackets.2⟩

/-- **No list of arguments ends in another one with a blank in front of it.** The bracket of the
second one would have to stand inside a string of the first, but then its quotation marks would
end strings where they begin them. -/
theorem printArgProv_ne_append {args args' : List CString} {text text' : CString}
    (h : printArgProv xflag args = .ok text) (h' : printArgProv xflag args' = .ok text') (u : CString) :
    text ≠ u ++ blank :: text' := by
  intro heq
  rw [(printArgProv_eq h).1, (printArgProv_eq h').1] at heq
  cases u with
  | nil => exact absurd (List.cons.inj heq).1 (by decide)
  | cons b u =>
    obtain ⟨-, htail⟩ := List.cons.inj heq
    have hwhole : (quotedArgs xflag [] args ++ str "]").foldl scan .outside = .outside := by
      rw [List.foldl_append, scan_quotedArgs (.inl rfl)]
      decide
    have hinside : (quotedArgs xflag [] args' ++ str "]").foldl scan .inside ≠ .outside := by
      have hends : (quotedArgs xflag [] args').foldl scan .inside = .inside ∨
          (quotedArgs xflag [] args').foldl scan .inside = .bad := scan_quotedArgs_inside (.inl rfl) args'
      rw [List.foldl_append]
      rcases hends with h | h
      · rw [h]
        decide
      · rw [h]
        decide
    have hsplit : quotedArgs xflag [] args ++ str "]" =
        u ++ blank :: 91 :: (quotedArgs xflag [] args' ++ str "]") := htail
    rw [hsplit, List.foldl_append] at hwhole
    cases hstate : u.foldl scan .outside with
    | outside =>
      rw [hstate] at hwhole
      have hbad : (quotedArgs xflag [] args' ++ str "]").foldl scan .bad = .outside := hwhole
      rw [foldl_scan_bad] at hbad
      cases hbad
    | inside =>
      rw [hstate] at hwhole
      exact hinside hwhole
    | escaped =>
      rw [hstate] at hwhole
      exact hinside hwhole
    | bad =>
      rw [hstate, foldl_scan_bad] at hwhole
      cases hwhole

/-- **The working directory and the arguments can be read back** from the end of a line. -/
theorem currentDir_args_inj {dir dir' : CString} {args args' : List CString} {text text' : CString}
    (h : printArgProv xflag args = .ok text) (h' : printArgProv xflag args' = .ok text')
    (heq : dir ++ blank :: text = dir' ++ blank :: text') : dir = dir' ∧ args = args' := by
  -- the text of the arguments does not begin further to the left
  have hlonger : ∀ {u text text' : CString} {args args' : List CString}, printArgProv xflag args = .ok text →
      printArgProv xflag args' = .ok text' → blank :: text = u ++ blank :: text' → u = [] ∧ text = text' := by
    intro u text text' args args' h h' heq
    cases u with
    | nil => exact ⟨rfl, (List.cons.inj heq).2⟩
    | cons b u => exact absurd (List.cons.inj heq).2 (printArgProv_ne_append h h' u)
  obtain ⟨u, hdir, hrest⟩ | ⟨u, hdir, hrest⟩ := List.append_eq_append_iff.1 heq
  · obtain ⟨rfl, htext⟩ := hlonger h h' hrest
    rw [htext] at h
    exact ⟨by rw [hdir, List.append_nil], printArgProv_inj h h'⟩
  · obtain ⟨rfl, htext⟩ := hlonger h' h hrest
    rw [htext] at h'
    exact ⟨by rw [hdir, List.append_nil], printArgProv_inj h h'⟩

/-! ## Records -/

/-- The kinds of records. -/
inductive ProvKind where
  | io (verb : ProvVerb)
  | execve
  | execve2
  | spawn
  | mem
  | lexit
  | ptrace
  | exit
  deriving DecidableEq

/-- The first field of an entry. -/
def ProvKind.text : ProvKind → CString
  | .io verb => verb.text
  | .execve => str "EXECVE"
  | .execve2 => str "EXECVE2"
  | .spawn => str "SPAWN"
  | .mem => str "MEM"
  | .lexit => str "LEXIT"
  | .ptrace => str "PTRACE"
  | .exit => str "EXIT"

def ProvKind.all : List ProvKind :=
  [.io .read, .io .write, .io .readWrite, .io .unknownIo, .io .close, .execve, .execve2, .spawn, .mem, .lexit,
    .ptrace, .exit]

theorem ProvKind.find_text (k : ProvKind) : all.find? (fun k' => k'.text == k.text) = some k := by
  cases k with
  | io verb => cases verb <;> decide
  | _ => decide

theorem ProvKind.text_inj {k k' : ProvKind} (h : k.text = k'.text) : k = k' := by
  have hfind := k.find_text
  rw [h, k'.find_text] at hfind
  exact (Option.some.inj hfind).symm

theorem ProvKind.notMem_text (k : ProvKind) : blank ∉ k.text ∧ newline ∉ k.text := by
  cases k with
  | io verb => cases verb <;> decide
  | _ => decide

def ProvEntry.kind : ProvEntry → ProvKind
  | .io verb _ => .io verb
  | .execve _ _ _ _ => .execve
  | .execve2 _ => .execve2
  | .spawn _ => .spawn
  | .mem _ => .mem
  | .lexit => .lexit
  | .ptrace => .ptrace
  | .exit => .exit

/-- The paths of an entry keep to its line, and in an `EXECVE` the path to its field; the arguments
fit into their array. -/
def ProvEntry.Plain (xflag : ℕ) : ProvEntry → Prop
  | .io _ path => newline ∉ path
  | .execve _ path currentDir args =>
    newline ∉ path ∧ blank ∉ path ∧ newline ∉ currentDir ∧ ∃ argstr, printArgProv xflag args = .ok argstr
  | _ => True

theorem isdigit_blank : isdigit blank = false ∧ blank ≠ 45 := by decide

theorem isdigit_newline : isdigit newline = false ∧ newline ≠ 45 := by decide

/-- The fields of an entry: its kind, and others that keep to their line. -/
theorem ProvEntry.fields_spec {e : ProvEntry} (hplain : e.Plain xflag) :
    ∃ rest, e.fields xflag = .ok (e.kind.text :: rest) ∧ ∀ w ∈ rest, newline ∉ w := by
  cases e with
  | io verb path =>
    have hpath : newline ∉ path := hplain
    exact ⟨[path], rfl, by simpa using hpath⟩
  | execve pid path dir args =>
    obtain ⟨hpath, -, hdir, argstr, hargs⟩ := hplain
    refine ⟨[decimal pid, path, dir, argstr], ?_, ?_⟩
    · rw [ProvEntry.fields, hargs]
      rfl
    · have hpid : newline ∉ decimal pid := notMem_decimal isdigit_newline.1
      have hargstr := newline_notMem_printArgProv hargs
      simp only [List.mem_cons, List.not_mem_nil, or_false, forall_eq_or_imp, forall_eq]
      exact ⟨hpid, hpath, hdir, hargstr⟩
  | execve2 ppid => exact ⟨[signedDecimal ppid], rfl, by simpa using notMem_signedDecimal isdigit_newline⟩
  | spawn pid => exact ⟨[decimal pid], rfl, by simpa using notMem_decimal isdigit_newline.1⟩
  | mem rss => exact ⟨[decimal rss], rfl, by simpa using notMem_decimal isdigit_newline.1⟩
  | lexit => exact ⟨[], rfl, by simp⟩
  | ptrace => exact ⟨[], rfl, by simp⟩
  | exit => exact ⟨[], rfl, by simp⟩

/-- **The fields of a line determine the entry.** -/
theorem ProvEntry.fields_inj {e e' : ProvEntry} {fields fields' : List CString} (hplain : e.Plain xflag)
    (hplain' : e'.Plain xflag) (hfields : e.fields xflag = .ok fields) (hfields' : e'.fields xflag = .ok fields')
    (h : [blank].intercalate fields = [blank].intercalate fields') : e = e' := by
  obtain ⟨rest, hrest, -⟩ := e.fields_spec hplain
  obtain ⟨rest', hrest', -⟩ := e'.fields_spec hplain'
  rw [← Except.ok.inj (hrest.symm.trans hfields), ← Except.ok.inj (hrest'.symm.trans hfields')] at h
  obtain ⟨htext, -, heq⟩ := intercalate_inj e.kind.notMem_text.1 e'.kind.notMem_text.1 h
  have hkind := ProvKind.text_inj htext
  -- the remaining fields of the two entries
  have hsame : ∀ {e : ProvEntry} {w : CString} {ws rest : List CString}, e.fields xflag = .ok (w :: ws) →
      e.fields xflag = .ok (e.kind.text :: rest) → rest = ws := by
    intro e w ws rest hws hrest
    exact (List.cons.inj (Except.ok.inj (hrest.symm.trans hws))).2
  cases e with
  | io verb path =>
    cases e' with
    | io verb' path' =>
      rw [hsame rfl hrest, hsame rfl hrest', List.intercalate_singleton, List.intercalate_singleton] at heq
      rw [heq, ProvKind.io.inj hkind]
    | _ => cases hkind
  | execve pid path dir args =>
    cases e' with
    | execve pid' path' dir' args' =>
      obtain ⟨-, hpath, -, argstr, hargs⟩ := hplain
      obtain ⟨-, hpath', -, argstr', hargs'⟩ := hplain'
      rw [hsame (by rw [ProvEntry.fields, hargs]; rfl) hrest,
        hsame (by rw [ProvEntry.fields, hargs']; rfl) hrest'] at heq
      obtain ⟨hpid, -, heq⟩ := intercalate_inj (notMem_decimal isdigit_blank.1) (notMem_decimal isdigit_blank.1) heq
      obtain ⟨hsamepath, -, heq⟩ := intercalate_inj hpath hpath' heq
      rw [List.intercalate_cons_cons, List.intercalate_cons_cons, List.intercalate_singleton,
        List.intercalate_singleton, List.append_assoc, List.append_assoc] at heq
      obtain ⟨hdir, hsameargs⟩ := currentDir_args_inj hargs hargs' heq
      rw [decimal_inj hpid, hsamepath, hdir, hsameargs]
    | _ => cases hkind
  | execve2 ppid =>
    cases e' with
    | execve2 ppid' =>
      rw [hsame rfl hrest, hsame rfl hrest', List.intercalate_singleton, List.intercalate_singleton] at heq
      rw [signedDecimal_inj heq]
    | _ => cases hkind
  | spawn pid =>
    cases e' with
    | spawn pid' =>
      rw [hsame rfl hrest, hsame rfl hrest', List.intercalate_singleton, List.intercalate_singleton] at heq
      rw [decimal_inj heq]
    | _ => cases hkind
  | mem rss =>
    cases e' with
    | mem rss' =>
      rw [hsame rfl hrest, hsame rfl hrest', List.intercalate_singleton, List.intercalate_singleton] at heq
      rw [decimal_inj heq]
    | _ => cases hkind
  | lexit => cases e' <;> first | rfl | cases hkind
  | ptrace => cases e' <;> first | rfl | cases hkind
  | exit => cases e' <;> first | rfl | cases hkind

/-! ## The log -/

/-- The line of an event without its newline. -/
def ProvEvent.record (xflag : ℕ) (event : ProvEvent) : CString :=
  [blank].intercalate (signedDecimal event.time :: decimal event.pid :: ((event.entry.fields xflag).toOption.getD []))

theorem ProvEvent.record_eq {event : ProvEvent} {fields : List CString} (h : event.entry.fields xflag = .ok fields) :
    event.record xflag = [blank].intercalate (signedDecimal event.time :: decimal event.pid :: fields) := by
  rw [ProvEvent.record, h]
  rfl

theorem ProvEvent.line_eq {event : ProvEvent} (hplain : event.entry.Plain xflag) :
    event.line xflag = .ok (event.record xflag ++ [newline]) := by
  obtain ⟨rest, hfields, -⟩ := event.entry.fields_spec hplain
  rw [ProvEvent.record_eq hfields, ProvEvent.line, hfields]
  rfl

theorem ProvEvent.newline_notMem_record {event : ProvEvent} (hplain : event.entry.Plain xflag) :
    newline ∉ event.record xflag := by
  obtain ⟨rest, hfields, hrest⟩ := event.entry.fields_spec hplain
  rw [ProvEvent.record_eq hfields]
  refine notMem_intercalate (by decide) ?_
  simp only [List.forall_mem_cons]
  exact ⟨notMem_signedDecimal isdigit_newline, notMem_decimal isdigit_newline.1, event.entry.kind.notMem_text.2, hrest⟩

theorem ProvEvent.record_inj {event event' : ProvEvent} (hplain : event.entry.Plain xflag)
    (hplain' : event'.entry.Plain xflag) (h : event.record xflag = event'.record xflag) : event = event' := by
  obtain ⟨rest, hfields, -⟩ := event.entry.fields_spec hplain
  obtain ⟨rest', hfields', -⟩ := event'.entry.fields_spec hplain'
  rw [ProvEvent.record_eq hfields, ProvEvent.record_eq hfields'] at h
  obtain ⟨htime, -, h⟩ := intercalate_inj (notMem_signedDecimal isdigit_blank) (notMem_signedDecimal isdigit_blank) h
  obtain ⟨hpid, -, h⟩ := intercalate_inj (notMem_decimal isdigit_blank.1) (notMem_decimal isdigit_blank.1) h
  have hentry := ProvEntry.fields_inj hplain hplain' hfields hfields' h
  exact ProvEvent.ext (signedDecimal_inj htime) (decimal_inj hpid) hentry

theorem logText_eq {events : List ProvEvent} (hplain : ∀ event ∈ events, event.entry.Plain xflag) :
    logText xflag events = .ok (terminated newline (events.map (ProvEvent.record xflag))) := by
  induction events with
  | nil => rfl
  | cons event events ih =>
    obtain ⟨hevent, htail⟩ := List.forall_mem_cons.1 hplain
    rw [logText, ProvEvent.line_eq hevent, ih htail, List.map_cons, terminated_cons]
    exact congrArg Except.ok (List.append_cons _ _ _).symm

/-- **The log is unambiguous** for events whose paths keep to their lines and fields. All of them
are written, and different sequences of them leave different texts. -/
theorem log_unambiguous (xflag : ℕ) (events events' : List ProvEvent)
    (hplain : ∀ event ∈ events, event.entry.Plain xflag) (hplain' : ∀ event ∈ events', event.entry.Plain xflag) :
    (∃ text, logText xflag events = .ok text) ∧ (logText xflag events = logText xflag events' → events = events') := by
  rw [logText_eq hplain, logText_eq hplain']
  refine ⟨⟨_, rfl⟩, fun h => ?_⟩
  exact terminated_map_inj (fun event => ProvEvent.newline_notMem_record)
    (fun event event' => ProvEvent.record_inj) hplain hplain' (Except.ok.inj h)

/-- A program that is executed and writes to a file. -/
def copySession : List ProvEvent :=
  [⟨7, 4, .execve 5 (str "/bin/cp") (str "/home/my files") [str "cp", str "a b", str "\"\n\x01"]⟩,
    ⟨8, 5, .io .write (str "/home/my files/c [\"d\"]")⟩, ⟨-1, 5, .exit⟩]

theorem log_unambiguous_copy : (∀ event ∈ copySession, event.entry.Plain 0) ∧
    ∃ text, logText 0 copySession = .ok text := by
  have hplain : ∀ event ∈ copySession, event.entry.Plain 0 := by
    simp only [copySession, List.forall_mem_cons, ProvEntry.Plain]
    exact ⟨⟨by decide, by decide, by decide, _, rfl⟩, by decide, trivial, fun event h => absurd h List.not_mem_nil⟩
  exact ⟨hplain, (log_unambiguous 0 copySession copySession hplain hplain).1⟩

/-- **A file name can look like a record**, and a blank like the end of a program's path. -/
theorem log_forged :
    logText 0 [⟨7, 5, .io .read (str "/a\n7 5 EXIT")⟩] = logText 0 [⟨7, 5, .io .read (str "/a")⟩, ⟨7, 5, .exit⟩] ∧
    logText 0 [⟨7, 5, .execve 6 (str "/a /b") (str "/c") []⟩] =
      logText 0 [⟨7, 5, .execve 6 (str "/a") (str "/b /c") []⟩] ∧
    (⟨7, 5, .execve 6 (str "/a /b") (str "/c") []⟩ : ProvEvent) ≠ ⟨7, 5, .execve 6 (str "/a") (str "/b /c") []⟩ := by
  decide

end Ptu
