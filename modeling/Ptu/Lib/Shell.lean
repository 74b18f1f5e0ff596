import Mathlib.Data.List.Basic
import Mathlib.Tactic.SplitIfs

/-!
# Words of a shell command

How a POSIX shell cuts the text of a simple command into words and removes the quotes:
blanks separate words, a newline ends the command, and single quotes, double quotes and
the backslash keep the characters they cover. The only expansion that is followed is
`$@` in double quotes; a text with any other expansion, or with an operator, is more than
a list of words and is not accepted.

The alphabet is arbitrary, `kind` says what a character is to the shell. The main result,
`quotedFields_iff`, is about writing each item between single quotes without looking at
it: the items are read back exactly when none of them has a single quote.
-/

namespace Shell

/-- What a character is to the shell. -/
inductive Kind where
  | blank | newline | single | double | escape | dollar | backquote | atSign
  /-- an operator, a pattern or a comment -/
  | special
  | plain
  deriving DecidableEq, Repr

/-- A part of a word after the quotes are gone: a character, or all the arguments. -/
inductive Piece (α : Type) where
  | lit (c : α)
  | args
  deriving DecidableEq, Repr

abbrev Word (α : Type) := List (Piece α)

/-- The word whose characters all stand for themselves. -/
def literal {α : Type} (s : List α) : Word α := s.map .lit

/-- Which quotes the next character is in. -/
inductive Mode (α : Type) where
  | unquoted
  /-- after a backslash -/
  | escape
  | single
  | double
  /-- after the backslash `b` in double quotes -/
  | doubleEscape (b : α)
  /-- after a `$` in double quotes -/
  | dollar
  /-- after the newline -/
  | ended
  deriving DecidableEq, Repr

/-- The words read so far, and the one that is being read. -/
structure State (α : Type) where
  mode : Mode α
  done : List (Word α)
  current : Option (Word α)
  deriving DecidableEq, Repr

namespace State

variable {α : Type}

def start : State α := ⟨.unquoted, [], none⟩

/-- The words, with the one that is being read. -/
def words (s : State α) : List (Word α) := s.done ++ s.current.toList

/-- Read `ps` in the current word, which they start if there is none. -/
def push (s : State α) (m : Mode α) (ps : Word α) : State α :=
  ⟨m, s.done, some (s.current.getD [] ++ ps)⟩

/-- The current word is over. -/
def close (s : State α) (m : Mode α) : State α := ⟨m, s.words, none⟩

/-- The words of a command that is over. -/
def ended (s : State α) : Option (List (Word α)) :=
  match s.mode with
  | .ended => some s.words
  | _ => none

end State

section Split

variable {α : Type} (kind : α → Kind)

def stepUnquoted (s : State α) (c : α) : Option (State α) :=
  match kind c with
  | .blank => some (s.close .unquoted)
  | .newline => some (s.close .ended)
  | .single => some (s.push .single [])
  | .double => some (s.push .double [])
  | .escape => some { s with mode := .escape }
  | .atSign | .plain => some (s.push .unquoted [.lit c])
  | .dollar | .backquote | .special => none

def stepDouble (s : State α) (c : α) : Option (State α) :=
  match kind c with
  | .double => some (s.push .unquoted [])
  | .escape => some { s with mode := .doubleEscape c }
  | .dollar => some { s with mode := .dollar }
  | .backquote => none
  | _ => some (s.push .double [.lit c])

/-- A backslash in double quotes escapes only what is special there. -/
def stepDoubleEscape (b : α) (s : State α) (c : α) : State α :=
  match kind c with
  | .newline => { s with mode := .double }
  | .double | .escape | .dollar | .backquote => s.push .double [.lit c]
  | _ => s.push .double [.lit b, .lit c]

def step (s : State α) (c : α) : Option (State α) :=
  match s.mode with
  | .unquoted => stepUnquoted kind s c
  | .escape =>
    -- a backslash and a newline join two lines
    if kind c = .newline then some { s with mode := .unquoted } else some (s.push .unquoted [.lit c])
  | .single => some (if kind c = .single then s.push .unquoted [] else s.push .single [.lit c])
  | .double => stepDouble kind s c
  | .doubleEscape b => some (stepDoubleEscape kind b s c)
  | .dollar => if kind c = .atSign then some (s.push .double [.args]) else none
  | .ended => none

def run (s : State α) (text : List α) : Option (State α) := text.foldlM (step kind) s

/-- The words of the one command that `text` is. -/
def split (text : List α) : Option (List (Word α)) := (run kind .start text).bind State.ended

end Split

/-! ### Runs over quoted and unquoted text -/

section Run

variable {α : Type} {kind : α → Kind}

theorem literal_append (s t : List α) : literal (s ++ t) = literal s ++ literal t := List.map_append

theorem literal_injective : Function.Injective (literal : List α → Word α) :=
  List.map_injective_iff.2 fun _ _ h => Piece.lit.inj h

theorem run_cons (s : State α) (c : α) (t : List α) :
    run kind s (c :: t) = (step kind s c).bind fun s' => run kind s' t := rfl

theorem run_append (s : State α) (t u : List α) :
    run kind s (t ++ u) = (run kind s t).bind fun s' => run kind s' u :=
  List.foldlM_append

namespace State

variable (s : State α) (m m' : Mode α) (ps qs : Word α)

theorem push_push : (s.push m ps).push m' qs = s.push m' (ps ++ qs) := by
  simp [push]

theorem push_words : (s.push m ps).words = s.done ++ [s.current.getD [] ++ ps] := rfl

theorem close_words : (s.close m).words = s.words := by simp [close, words]

/-- A word that starts after a blank. -/
theorem close_push_words : ((s.close m).push m' ps).words = s.words ++ [ps] := by
  simp [push_words, close]

end State

/-- Characters without a meaning to the shell stand for themselves. -/
theorem run_plain : ∀ {t : List α} {s : State α}, (∀ c ∈ t, kind c = .plain ∨ kind c = .atSign) →
    s.mode = .unquoted → t ≠ [] → run kind s t = some (s.push .unquoted (literal t))
  | [], s, _, _, hne => absurd rfl hne
  | c :: t, s, hplain, hmode, _ => by
    have hstep : step kind s c = some (s.push .unquoted [.lit c]) := by
      rcases hplain c List.mem_cons_self with hc | hc <;> simp only [step, hmode, stepUnquoted, hc]
    rw [run_cons, hstep, Option.bind_some]
    rcases eq_or_ne t [] with rfl | ht
    · rfl
    · rw [run_plain (fun d hd => hplain d (List.mem_cons_of_mem c hd)) rfl ht, State.push_push]
      rfl

/-- In single quotes every other character stands for itself. -/
theorem run_single : ∀ {t : List α} {s : State α} {ps : Word α}, (∀ c ∈ t, kind c ≠ .single) →
    run kind (s.push .single ps) t = some (s.push .single (ps ++ literal t))
  | [], s, ps, _ => by simp [run, literal]
  | c :: t, s, ps, hsingle => by
    have hc : kind c ≠ .single := hsingle c List.mem_cons_self
    have hstep : step kind (s.push .single ps) c = some (s.push .single (ps ++ [.lit c])) := by
      rw [← State.push_push s .single .single]
      exact congrArg some (if_neg hc)
    rw [run_cons, hstep, Option.bind_some,
      run_single fun d hd => hsingle d (List.mem_cons_of_mem c hd), List.append_assoc]
    rfl

variable {q : α}

/-- A text between single quotes is read as it is when it has none itself. -/
theorem run_quoted {t : List α} {s : State α} (hq : kind q = .single) (hmode : s.mode = .unquoted)
    (ht : ∀ c ∈ t, kind c ≠ .single) :
    run kind s (q :: t ++ [q]) = some (s.push .unquoted (literal t)) := by
  have hopen : step kind s q = some (s.push .single []) := by
    simp only [step, hmode, stepUnquoted, hq]
  have hclose : step kind (s.push .single (literal t)) q = some (s.push .unquoted (literal t)) := by
    rw [← List.append_nil (literal t), ← State.push_push s .single .unquoted, List.append_nil]
    exact congrArg some (if_pos hq)
  rw [List.cons_append, run_cons, hopen, Option.bind_some, run_append, run_single ht,
    Option.bind_some, List.nil_append, run_cons, hclose]
  rfl

/-- A blank between two words. -/
theorem run_blank {b : α} {s : State α} (hb : kind b = .blank) (hmode : s.mode = .unquoted)
    (t : List α) : run kind s (b :: t) = run kind (s.close .unquoted) t := by
  rw [run_cons]
  simp only [step, hmode, stepUnquoted, hb, Option.bind_some]

/-- Every item between single quotes, after a blank. -/
def quotedFields (b q : α) (items : List (List α)) : List α :=
  items.flatMap fun t => b :: (q :: t ++ [q])

theorem run_quotedFields {b : α} (hb : kind b = .blank) (hq : kind q = .single) :
    ∀ {items : List (List α)} {s : State α}, (∀ t ∈ items, ∀ c ∈ t, kind c ≠ .single) →
      s.mode = .unquoted → ∃ s', run kind s (quotedFields b q items) = some s' ∧
        s'.mode = .unquoted ∧ s'.words = s.words ++ items.map literal
  | [], s, _, hmode => ⟨s, rfl, hmode, by simp⟩
  | t :: items, s, hsingle, hmode => by
    have ht : ∀ c ∈ t, kind c ≠ .single := hsingle t List.mem_cons_self
    obtain ⟨s', hrun, hmode', hwords⟩ := run_quotedFields hb hq
      (s := (s.close .unquoted).push .unquoted (literal t))
      (fun u hu => hsingle u (List.mem_cons_of_mem t hu)) rfl
    refine ⟨s', ?_, hmode', ?_⟩
    · rw [quotedFields, List.flatMap_cons, List.cons_append, run_blank hb hmode, run_append,
        run_quoted hq rfl ht, Option.bind_some]
      exact hrun
    · rw [hwords, State.close_push_words, List.append_assoc]
      rfl

end Run

/-! ### What quoting costs

Every character of the text is at most one character of a word. A single quote that is
kept costs at least one more character, for the double quote or the backslash that keeps
it; each word but the first costs a blank, and each other single quote is lost.
-/

section Cost

variable {α : Type} (kind : α → Kind)

/-- The single quotes of a text. -/
def singles (t : List α) : ℕ := t.countP (kind · == .single)

theorem singles_append (t u : List α) : singles kind (t ++ u) = singles kind t + singles kind u :=
  List.countP_append

/-- The single quotes that were kept in a word. -/
def keptSingles (ps : Word α) : ℕ :=
  ps.countP fun
    | .lit c => kind c == .single
    | .args => false

theorem keptSingles_append (ps qs : Word α) :
    keptSingles kind (ps ++ qs) = keptSingles kind ps + keptSingles kind qs := List.countP_append

theorem keptSingles_literal (t : List α) : keptSingles kind (literal t) = singles kind t := by
  simp only [keptSingles, literal, singles, List.countP_map]
  rfl

/-- The characters spent on quotes that are still open. -/
def Mode.spent : Mode α → ℕ
  | .unquoted | .single | .ended => 0
  | .escape | .double | .dollar => 1
  | .doubleEscape _ => 2

namespace State

variable {kind} (s : State α)

/-- All that has been read, without the bounds of the words. -/
def content : Word α := s.words.flatten

variable (kind) in
/-- A lower bound for the characters that were needed to come here, apart from the single
quotes that are lost. -/
def cost : ℕ :=
  s.content.length + s.done.length + max s.mode.spent (min 1 (keptSingles kind s.content))

variable (m : Mode α) (ps : Word α)

theorem content_push : (s.push m ps).content = s.content ++ ps := by
  cases hc : s.current with
  | none => simp [content, words, push, hc]
  | some w => simp [content, words, push, hc]

theorem content_close : (s.close m).content = s.content := by rw [content, close_words, content]

theorem cost_push : (s.push m ps).cost kind = s.content.length + ps.length + s.done.length +
    max m.spent (min 1 (keptSingles kind s.content + keptSingles kind ps)) := by
  rw [cost, content_push, List.length_append, keptSingles_append]
  rfl

theorem cost_close : (s.close m).cost kind ≤ s.content.length + s.done.length + 1 +
    max m.spent (min 1 (keptSingles kind s.content)) := by
  have hdone : (s.close m).done.length ≤ s.done.length + 1 := by
    cases hc : s.current <;> simp [close, words, hc]
  rw [cost, content_close]
  simp only [close] at hdone ⊢
  omega

end State

variable {kind} {s s' : State α} {c : α}

theorem singles_singleton_of_ne (h : kind c ≠ .single) : singles kind [c] = 0 := by
  simp [singles, h]

theorem singles_singleton_of_eq (h : kind c = .single) : singles kind [c] = 1 := by
  simp [singles, h]

/-- Reading `c` turned `s` into `s'` and paid for it. -/
def Paid (kind : α → Kind) (s s' : State α) (c : α) : Prop :=
  s'.cost kind + singles kind [c] + keptSingles kind s.content ≤
    s.cost kind + 1 + keptSingles kind s'.content

theorem paid_push {m : Mode α} {ps : Word α}
    (h : ps.length + max m.spent (min 1 (keptSingles kind s.content + keptSingles kind ps)) +
      singles kind [c] ≤
        max s.mode.spent (min 1 (keptSingles kind s.content)) + 1 + keptSingles kind ps) :
    Paid kind s (s.push m ps) c := by
  rw [Paid, State.cost_push, State.content_push, keptSingles_append, State.cost]
  omega

theorem paid_mode {m : Mode α} (hm : m.spent ≤ s.mode.spent + 1) (hc : kind c ≠ .single) :
    Paid kind s { s with mode := m } c := by
  have hcontent : ({ s with mode := m } : State α).content = s.content := rfl
  rw [Paid, State.cost, State.cost, hcontent, singles_singleton_of_ne hc]
  simp only
  omega

theorem paid_close {m : Mode α} (hm : m.spent = 0) (hc : kind c ≠ .single) :
    Paid kind s (s.close m) c := by
  have hclose : (s.close m).cost kind ≤ _ := s.cost_close m
  have hcost : s.cost kind = s.content.length + s.done.length +
      max s.mode.spent (min 1 (keptSingles kind s.content)) := rfl
  rw [Paid, State.content_close, singles_singleton_of_ne hc]
  omega

theorem keptSingles_lit (c : α) : keptSingles kind [.lit c] = singles kind [c] :=
  keptSingles_literal kind [c]

theorem stepUnquoted_paid (hmode : s.mode = .unquoted) (h : stepUnquoted kind s c = some s') :
    Paid kind s s' c := by
  have hspent : s.mode.spent = 0 := by rw [hmode]; rfl
  cases hc : kind c <;> simp only [stepUnquoted, hc, Option.some.injEq, reduceCtorEq] at h <;> subst h
  case blank => exact paid_close rfl (by simp [hc])
  case newline => exact paid_close rfl (by simp [hc])
  case escape => exact paid_mode (by simp [Mode.spent]) (by simp [hc])
  all_goals
    apply paid_push
    rw [hspent]
    simp [keptSingles, singles, hc, Mode.spent]
    try omega

theorem stepDouble_paid (hmode : s.mode = .double) (h : stepDouble kind s c = some s') :
    Paid kind s s' c := by
  have hspent : s.mode.spent = 1 := by rw [hmode]; rfl
  have hlit : Paid kind s (s.push .double [.lit c]) c := by
    apply paid_push
    rw [keptSingles_lit, hspent]
    simp only [List.length_singleton, Mode.spent]
    omega
  have hclose : kind c = .double → Paid kind s (s.push .unquoted []) c := by
    intro hc
    apply paid_push
    rw [hspent, singles_singleton_of_ne (by simp [hc])]
    simp only [Mode.spent, keptSingles, List.countP_nil, List.length_nil]
    omega
  cases hc : kind c <;> simp only [stepDouble, hc, Option.some.injEq, reduceCtorEq] at h <;> subst h
  case double => exact hclose hc
  case escape => exact paid_mode (by rw [hspent]; exact Nat.le_refl 2) (by simp [hc])
  case dollar => exact paid_mode (by rw [hspent]; exact Nat.le_succ 1) (by simp [hc])
  all_goals exact hlit

theorem stepDoubleEscape_paid {b : α} (hmode : s.mode = .doubleEscape b) :
    Paid kind s (stepDoubleEscape kind b s c) c := by
  have hspent : s.mode.spent = 2 := by rw [hmode]; rfl
  have hone : Paid kind s (s.push .double [.lit c]) c := by
    apply paid_push
    rw [keptSingles_lit, hspent]
    simp only [List.length_singleton, Mode.spent]
    omega
  have htwo : Paid kind s (s.push .double [.lit b, .lit c]) c := by
    have hkept : keptSingles kind [.lit b, .lit c] = singles kind [b] + singles kind [c] := by
      rw [← keptSingles_lit, ← keptSingles_lit]
      exact keptSingles_append kind [.lit b] [.lit c]
    apply paid_push
    rw [hkept, hspent]
    simp only [List.length_cons, List.length_nil, Mode.spent]
    omega
  cases hc : kind c <;> simp only [stepDoubleEscape, hc]
  case newline => exact paid_mode (by simp [Mode.spent]) (by simp [hc])
  all_goals first | exact hone | exact htwo

theorem step_paid (h : step kind s c = some s') : Paid kind s s' c := by
  cases hmode : s.mode <;> simp only [step, hmode] at h
  case unquoted => exact stepUnquoted_paid hmode h
  case double => exact stepDouble_paid hmode h
  case doubleEscape b =>
    rw [← Option.some.inj h]
    exact stepDoubleEscape_paid hmode
  case ended => exact nomatch h
  case escape =>
    split_ifs at h with hc <;> rw [← Option.some.inj h]
    · exact paid_mode (by simp [Mode.spent]) (by simp [hc])
    · apply paid_push
      rw [keptSingles_lit, hmode]
      simp only [List.length_singleton, Mode.spent]
      omega
  case single =>
    rw [← Option.some.inj h]
    split_ifs with hc
    · apply paid_push
      rw [hmode, singles_singleton_of_eq hc]
      simp only [List.length_nil, Mode.spent, keptSingles, List.countP_nil]
      omega
    · apply paid_push
      rw [keptSingles_lit, hmode, singles_singleton_of_ne hc]
      simp only [List.length_singleton, Mode.spent]
      omega
  case dollar =>
    split_ifs at h with hc
    rw [← Option.some.inj h]
    apply paid_push
    rw [hmode, singles_singleton_of_ne (by simp [hc])]
    simp only [List.length_singleton, Mode.spent]
    omega

/-- What a whole text costs is at most its length. -/
theorem run_cost : ∀ {t : List α} {s s' : State α}, run kind s t = some s' →
    s'.cost kind + singles kind t + keptSingles kind s.content ≤
      s.cost kind + t.length + keptSingles kind s'.content
  | [], s, s', h => by
    have hs : s = s' := Option.some.inj h
    subst hs
    simp [singles]
  | c :: t, s, s', h => by
    rw [run_cons, Option.bind_eq_some_iff] at h
    obtain ⟨s₁, hstep, hrun⟩ := h
    have hfirst : Paid kind s s₁ c := step_paid hstep
    have hrest := run_cost hrun
    have hsingles : singles kind (c :: t) = singles kind [c] + singles kind t :=
      singles_append kind [c] t
    rw [Paid] at hfirst
    rw [hsingles, List.length_cons]
    omega

end Cost

/-! ### Items between single quotes -/

section Fields

variable {α : Type} {kind : α → Kind} {b q d v a n : α}

/-- Reading `t` leaves no quote open and gives the words `ws`. -/
def Reads (kind : α → Kind) (t : List α) (ws : List (Word α)) : Prop :=
  ∃ s, run kind .start t = some s ∧ s.mode = .unquoted ∧ s.words = ws

theorem split_append_eq_some {t u : List α} {ws : List (Word α)} : split kind (t ++ u) = some ws ↔
    ∃ s, run kind .start t = some s ∧ (run kind s u).bind State.ended = some ws := by
  rw [split, run_append, Option.bind_assoc, Option.bind_eq_some_iff]

/-- A newline ends a command whose quotes are closed. -/
theorem split_newline (hn : kind n = .newline) {t : List α} {ws : List (Word α)} :
    split kind (t ++ [n]) = some ws ↔ Reads kind t ws := by
  rw [split_append_eq_some, Reads]
  refine exists_congr fun s => and_congr_right fun _ => ?_
  cases hmode : s.mode <;>
    simp [run, step, stepUnquoted, stepDouble, stepDoubleEscape, State.ended, State.close,
      State.push, State.words, hmode, hn]

/-- The arguments in double quotes are a word of their own after closed quotes only. -/
theorem split_args (hb : kind b = .blank) (hd : kind d = .double) (hv : kind v = .dollar)
    (ha : kind a = .atSign) (hn : kind n = .newline) {t : List α} {ws : List (Word α)} :
    split kind (t ++ [b, d, v, a, d, n]) = some (ws ++ [[.args]]) ↔ Reads kind t ws := by
  rw [split_append_eq_some, Reads]
  refine exists_congr fun s => and_congr_right fun _ => ?_
  cases hmode : s.mode <;>
    simp [run, step, stepUnquoted, stepDouble, stepDoubleEscape, State.ended, State.close,
      State.push, State.words, hmode, hb, hd, hv, ha, hn]
  case unquoted =>
    rw [← List.append_assoc]
    exact List.append_left_inj [[Piece.args]]
  case escape =>
    -- the blank is kept, so the word is longer than `$@`
    intro _ hword
    have hlen := congrArg List.length hword
    simp at hlen

theorem singles_quotedFields (hb : kind b = .blank) (hq : kind q = .single)
    (items : List (List α)) :
    singles kind (quotedFields b q items) = 2 * items.length + singles kind items.flatten := by
  induction items with
  | nil => rfl
  | cons t items ih =>
    have hfield : singles kind (b :: (q :: t ++ [q])) = 2 + singles kind t := by
      simp [singles, hb, hq]
      omega
    rw [quotedFields, List.flatMap_cons, singles_append, hfield, ← quotedFields, ih,
      List.flatten_cons, singles_append, List.length_cons]
    omega

theorem length_quotedFields (items : List (List α)) :
    (quotedFields b q items).length = 3 * items.length + items.flatten.length := by
  induction items with
  | nil => rfl
  | cons t items ih =>
    rw [quotedFields, List.flatMap_cons, List.length_append, ← quotedFields, ih]
    simp only [List.length_cons, List.length_append, List.length_nil, List.flatten_cons]
    omega

theorem flatten_map_literal (items : List (List α)) :
    (items.map literal).flatten = literal items.flatten := by
  rw [literal, List.map_flatten]
  rfl

/-- **Blind quoting.** Items between single quotes are read back exactly when none of them
has a single quote: one that is kept needs a character more than the text has. -/
theorem quotedFields_iff (hb : kind b = .blank) (hq : kind q = .single) {head : List α}
    (hplain : ∀ c ∈ head, kind c = .plain ∨ kind c = .atSign) (hne : head ≠ [])
    (items : List (List α)) :
    Reads kind (head ++ quotedFields b q items) (literal head :: items.map literal) ↔
      ∀ t ∈ items, ∀ c ∈ t, kind c ≠ .single := by
  constructor
  · rintro ⟨s, hrun, hmode, hwords⟩
    have hhead : singles kind head = 0 := by
      rw [singles, List.countP_eq_zero]
      intro c hc
      rcases hplain c hc with h | h <;> simp [h]
    have hcontent : s.content = literal (head ++ items.flatten) := by
      rw [State.content, hwords, List.flatten_cons, flatten_map_literal, literal_append]
    have hcount : items.length ≤ s.done.length := by
      have hlen := congrArg List.length hwords
      have hcurrent : s.current.toList.length ≤ 1 := by cases s.current <;> simp
      rw [State.words, List.length_append, List.length_cons, List.length_map] at hlen
      omega
    have hcost := run_cost hrun
    have hkept : singles kind items.flatten = 0 := by
      rw [State.cost, hcontent, keptSingles_literal, singles_append, singles_append, hhead,
        singles_quotedFields hb hq, List.length_append, length_quotedFields, hmode] at hcost
      simp only [literal, List.length_map, List.length_append, State.cost, State.start, State.content,
        State.words, keptSingles, Mode.spent] at hcost
      simp at hcost
      omega
    intro t ht c hc hsingle
    rw [singles, List.countP_eq_zero] at hkept
    exact hkept c (List.mem_flatten.2 ⟨t, ht, hc⟩) (by simp [hsingle])
  · intro hitems
    have hstart : run kind .start head = some (State.start.push .unquoted (literal head)) :=
      run_plain hplain rfl hne
    obtain ⟨s, hrun, hmode, hwords⟩ := run_quotedFields hb hq hitems
      (s := State.start.push .unquoted (literal head)) rfl
    refine ⟨s, ?_, hmode, hwords⟩
    rw [run_append, hstart, Option.bind_some, hrun]

end Fields

end Shell
