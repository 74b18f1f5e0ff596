import Mathlib.Data.List.DropRight
import Mathlib.Tactic.SplitIfs

/-!
# C strings

A C string is the list of its bytes, without the terminating NUL. The functions of
`string.h` that the tracer uses are modelled on these lists; so are the helpers of
`strutils.c`.
-/

namespace Ptu

abbrev Byte := UInt8

abbrev CString := List Byte

/-- A string literal. -/
def str (s : String) : CString := s.toList.map fun c => c.toNat.toUInt8

/-- `'/'` -/
abbrev slash : Byte := 47

/-- `' '` -/
abbrev blank : Byte := 32

/-- `'\t'` -/
abbrev tab : Byte := 9

/-- `'\n'` -/
abbrev newline : Byte := 10

/-- How a run of the tracer stops before its time. -/
inductive Fatal where
  /-- a failed `assert` -/
  | assertion
  /-- `exit(1)` after a message on stderr -/
  | exit (message : CString)
  /-- a dereference of NULL or beyond an array -/
  | segv
  /-- a recursion for which the stack has no room left -/
  | stackOverflow
  deriving DecidableEq, Repr

/-- A sequence of steps succeeds when each of them does. -/
theorem bind_eq_ok {α β : Type} {x : Except Fatal α} {f : α → Except Fatal β} {r : β} :
    x >>= f = .ok r ↔ ∃ a, x = .ok a ∧ f a = .ok r := by
  cases x with
  | error a => simp [Bind.bind, Except.bind]
  | ok a => simp [Bind.bind, Except.bind]

theorem map_eq_ok {α β : Type} {x : Except Fatal α} {f : α → β} {r : β} :
    x.map f = .ok r ↔ ∃ a, x = .ok a ∧ f a = r := by
  cases x with
  | error a => simp [Except.map]
  | ok a => simp [Except.map]

/-- A check that throws has been passed when a result comes out. -/
theorem ite_throw_eq_ok {c : Prop} [Decidable c] {α β : Type} {x : Fatal} {j : α → Except Fatal β}
    {k : Except Fatal β} {r : β} : (if c then (throw x >>= j) else k) = .ok r ↔ ¬ c ∧ k = .ok r := by
  split_ifs with hc
  · simp only [hc, not_true_eq_false, false_and, iff_false]
    intro hthrow
    cases hthrow
  · simp only [hc, not_false_eq_true, true_and]

/-- What every round keeps holds after the loop. -/
theorem foldlM_invariant {α σ : Type} {I : σ → Prop} {f : σ → α → Except Fatal σ} {l : List α} {s s' : σ}
    (hkeep : ∀ s a s', I s → a ∈ l → f s a = .ok s' → I s') (hs : I s) (h : l.foldlM f s = .ok s') : I s' := by
  induction l generalizing s with
  | nil =>
    rw [← Except.ok.inj h]
    exact hs
  | cons a l ih =>
    rw [List.foldlM_cons] at h
    obtain ⟨s₁, hround, hrest⟩ := bind_eq_ok.1 h
    have hs₁ := hkeep s a s₁ hs List.mem_cons_self hround
    exact ih (fun s b s' hI hb => hkeep s b s' hI (List.mem_cons_of_mem _ hb)) hs₁ hrest

/-- A loop over an index of which every round succeeds, from where the rounds before it lead to. -/
theorem foldlM_range_total {σ : Type} {I : ℕ → σ → Prop} {f : σ → ℕ → Except Fatal σ} {s : σ} {n : ℕ}
    (hround : ∀ i s, i < n → I i s → ∃ s', f s i = .ok s' ∧ I (i + 1) s') (hs : I 0 s) :
    ∃ s', (List.range n).foldlM f s = .ok s' ∧ I n s' := by
  induction n with
  | zero => exact ⟨s, rfl, hs⟩
  | succ n ih =>
    obtain ⟨s₁, hloop, hs₁⟩ := ih fun i s hi => hround i s (Nat.lt_succ_of_lt hi)
    obtain ⟨s₂, hlast, hs₂⟩ := hround n s₁ (Nat.lt_succ_self n) hs₁
    refine ⟨s₂, ?_, hs₂⟩
    rw [List.range_succ, List.foldlM_append, hloop]
    refine bind_eq_ok.2 ⟨s₁, rfl, ?_⟩
    rw [List.foldlM_cons, hlast]
    rfl

/-- `IS_ABSPATH(p)` -/
def isAbspath (p : CString) : Bool := p.head? == some slash

/-- `strncmp(s, p, strlen(p)) == 0` -/
def startsWith (s p : CString) : Bool := p.isPrefixOf s

/-- `strstr(s, p) != NULL` -/
def strstr (s p : CString) : Bool := s.tails.any p.isPrefixOf

/-- `endswith(str, suffix)` -/
def endswith (s suffix : CString) : Bool := suffix.isSuffixOf s

/-- `isspace(c)` in the C locale. -/
def isspace (c : Byte) : Bool := c == 32 || (9 ≤ c && c ≤ 13)

/-- The tokens that `strtok(s, delim)` and then `strtok(NULL, delim)` return. -/
def strtok (s : CString) (delim : Byte) : List CString := (s.splitOn delim).filter (!·.isEmpty)

/-- `str_rstrip(s)`: cut after the last character that is no space. -/
def strRstrip (s : CString) : CString := s.rdropWhile isspace

/-- `dirname(path)` -/
def dirname (path : CString) : CString :=
  let path' := path.rdropWhile (· == slash)
  let dir := path'.rdropWhile (· != slash)
  if path = [] then str "."
  else if path' = [] then str "/"
  else if dir = [] then str "."
  else if dir.rdropWhile (· == slash) = [] then str "/"
  else dir.rdropWhile (· == slash)

theorem isAbspath_iff {p : CString} : isAbspath p = true ↔ ∃ q, p = slash :: q := by
  cases p with
  | nil => simp [isAbspath]
  | cons c q => simp [isAbspath]

@[simp] theorem isAbspath_cons (q : CString) : isAbspath (slash :: q) = true := by simp [isAbspath]

theorem isAbspath_append {p : CString} (q : CString) (h : isAbspath p = true) :
    isAbspath (p ++ q) = true := by
  obtain ⟨p', rfl⟩ := isAbspath_iff.1 h
  simp

@[simp] theorem startsWith_iff {s p : CString} : startsWith s p = true ↔ p <+: s :=
  List.isPrefixOf_iff_prefix

@[simp] theorem startsWith_nil (s : CString) : startsWith s [] = true := startsWith_iff.2 List.nil_prefix

@[simp] theorem endswith_iff {s p : CString} : endswith s p = true ↔ p <:+ s :=
  List.isSuffixOf_iff_suffix

end Ptu
