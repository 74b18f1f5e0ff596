import Mathlib.Data.List.Basic

/-!
# Lexical normalisation of pathnames

A pathname is a list of components `.`, `..` and names. Its lexical normal form is
computed on a stack of names, without looking at any file system: `.` changes
nothing, `..` pops the last name (and does nothing on the empty stack), a name is
pushed.
-/

namespace Pathname

variable {N : Type*}

/-- A component of a pathname. -/
inductive Comp (N : Type*) where
  | here
  | up
  | name (n : N)
  deriving DecidableEq, Repr

/-- What a component does to the stack of names. -/
def Comp.push (st : List N) : Comp N → List N
  | .here => st
  | .up => st.dropLast
  | .name n => st ++ [n]

/-- **The lexical normal form** of the components `cs`, read from the stack `st`. -/
def norm (st : List N) (cs : List (Comp N)) : List N := cs.foldl Comp.push st

/-- A list of names as components. -/
def names (p : List N) : List (Comp N) := p.map Comp.name

@[simp] theorem names_nil : names ([] : List N) = [] := rfl

@[simp] theorem names_cons (a : N) (p : List N) : names (a :: p) = .name a :: names p := rfl

@[simp] theorem names_append (p q : List N) : names (p ++ q) = names p ++ names q := by
  simp [names]

@[simp] theorem norm_nil (st : List N) : norm st [] = st := rfl

@[simp] theorem norm_cons (st : List N) (c : Comp N) (cs : List (Comp N)) :
    norm st (c :: cs) = norm (c.push st) cs := rfl

theorem norm_append (st : List N) (cs ds : List (Comp N)) :
    norm st (cs ++ ds) = norm (norm st cs) ds := by
  simp [norm, List.foldl_append]

/-- Names are only pushed. -/
@[simp] theorem norm_names (st p : List N) : norm st (names p) = st ++ p := by
  induction p generalizing st with
  | nil => simp
  | cons a p ih => simp [Comp.push, ih]

/-- Components without `..` leave the stack as it is and push their own names. -/
theorem norm_of_no_up {cs : List (Comp N)} (h : .up ∉ cs) (st : List N) : norm st cs = st ++ norm [] cs := by
  induction cs generalizing st with
  | nil => simp
  | cons c cs ih =>
    obtain ⟨hc, hcs⟩ := not_or.1 fun h' => h (List.mem_cons.2 h')
    rw [norm_cons, norm_cons, ih hcs (c.push st), ih hcs (c.push [])]
    cases c with
    | here => simp [Comp.push]
    | up => exact absurd rfl hc
    | name n => simp [Comp.push]

/-- The names of a normal form come from the stack or from the components. -/
theorem mem_norm {st : List N} {cs : List (Comp N)} {a : N} (h : a ∈ norm st cs) :
    a ∈ st ∨ .name a ∈ cs := by
  induction cs generalizing st with
  | nil => exact Or.inl h
  | cons c cs ih =>
    rcases ih h with h' | h'
    · cases c with
      | here => exact Or.inl h'
      | up => exact Or.inl ((List.dropLast_sublist st).subset h')
      | name n =>
        rcases List.mem_append.1 h' with h'' | h''
        · exact Or.inl h''
        · right; simp at h''; subst h''; exact List.mem_cons_self
    · exact Or.inr (List.mem_cons_of_mem _ h')

/-! ## Components without `.` -/

/-- The components other than `.`. -/
def strip (cs : List (Comp N)) : List (Comp N) :=
  cs.filter fun c => match c with | .here => false | _ => true

@[simp] theorem strip_nil : strip ([] : List (Comp N)) = [] := rfl

@[simp] theorem strip_here (cs : List (Comp N)) : strip (.here :: cs) = strip cs := rfl

@[simp] theorem strip_up (cs : List (Comp N)) : strip (.up :: cs) = .up :: strip cs := rfl

@[simp] theorem strip_name (a : N) (cs : List (Comp N)) :
    strip (.name a :: cs) = .name a :: strip cs := rfl

@[simp] theorem strip_append (cs ds : List (Comp N)) : strip (cs ++ ds) = strip cs ++ strip ds := by
  simp [strip]

@[simp] theorem strip_names (p : List N) : strip (names p) = names p := by
  induction p with
  | nil => rfl
  | cons a p ih => simp [ih]

/-- `.` plays no role in the normal form. -/
theorem norm_strip (st : List N) (cs : List (Comp N)) : norm st (strip cs) = norm st cs := by
  induction cs generalizing st with
  | nil => rfl
  | cons c cs ih => cases c <;> simp [Comp.push, ih]

/-- `j` times `..` pops `j` names. -/
theorem norm_up (st : List N) (j : ℕ) :
    norm st (List.replicate j .up) = st.take (st.length - j) := by
  induction j generalizing st with
  | zero => simp
  | succ j ih =>
    rw [List.replicate_succ, norm_cons, ih, Comp.push, List.dropLast_eq_take, List.take_take]
    congr 1
    simp only [List.length_take]; omega

end Pathname
