import Mathlib.Data.List.Induction
import Ptu.Lib.Lexical

/-!
# Walking a tree with symbolic links

A tree maps the real path of each object (the list of names from the root) to a
directory, a file or a symbolic link. `walk` follows a pathname through it the way a
kernel does: component by component, `..` taken from the directory reached, each link
replaced by its target, at most `b` links in all. A guard `ok` is tested at every
position passed; with the guard `fun _ => true` this is plain lookup, with the guard
"below `D`" it is lookup that must not leave `D`.

* `Res`: the same as a derivation that counts the links followed.
* `walk_iff_res`: the two agree.
* `Res.mono`: a lookup survives every extension of the tree.
* `Res.append`, `Res.split`: lookup is compositional.
* `Res.move`: a lookup inside a directory is the same in a copy of it at another place.
* `Res.norm`: the lexical normal form leads to the same object, as long as no `..`
  cancels the name of a link.
-/

namespace Pathname

variable {N C L : Type*}

/-- What a real path can name. -/
inductive Node (C L : Type*) where
  | dir
  | file (c : C)
  | link (l : L)
  deriving DecidableEq, Repr

/-- Where a link points: from the root, or from the directory that holds it. -/
structure Target (N : Type*) where
  abs : Bool
  comps : List (Comp N)

/-- The directory from which a link found in `cur` is read. -/
def Target.base (t : Target N) (cur : List N) : List N := if t.abs then [] else cur

/-- A tree, by real paths. -/
abbrev Tree (N C L : Type*) := List N → Option (Node C L)

/-- Is there a directory at `p`? -/
def isDir (T : Tree N C L) (p : List N) : Bool :=
  match T p with
  | some .dir => true
  | _ => false

theorem isDir_iff {T : Tree N C L} {p : List N} : isDir T p = true ↔ T p = some .dir := by
  unfold isDir
  split <;> simp_all

section Walk

variable (tgt : L → Target N) (T : Tree N C L) (ok : List N → Bool) (follow : Bool)

/-- Walk until a link has to be followed; `jump` does the rest from there. -/
def walkStep (jump : List N → List (Comp N) → Option (List N)) :
    List N → List (Comp N) → Option (List N)
  | cur, [] => if ok cur then some cur else none
  | cur, c :: cs =>
    if ok cur && isDir T cur then
      match c with
      | .here => walkStep jump cur cs
      | .up => walkStep jump cur.dropLast cs
      | .name a =>
        match T (cur ++ [a]) with
        | none => none
        | some (.link l) =>
          -- a link in last position is the object itself when links are not followed
          if cs.isEmpty && !follow then (if ok (cur ++ [a]) then some (cur ++ [a]) else none)
          else jump ((tgt l).base cur) ((tgt l).comps ++ cs)
        | some _ => walkStep jump (cur ++ [a]) cs
    else none

/-- **Lookup** of `cs` from the directory `cur`, following at most `b` links. -/
def walk : ℕ → List N → List (Comp N) → Option (List N)
  | 0 => walkStep tgt T ok follow fun _ _ => none
  | b + 1 => walkStep tgt T ok follow (walk b)

/-- The links followed by a walk, each with the directory that holds it. -/
def followedStep (jump : List N → List (Comp N) → List (List N × L)) :
    List N → List (Comp N) → List (List N × L)
  | _, [] => []
  | cur, .here :: cs => followedStep jump cur cs
  | cur, .up :: cs => followedStep jump cur.dropLast cs
  | cur, .name a :: cs =>
    match T (cur ++ [a]) with
    | none => []
    | some (.link l) => (cur, l) :: jump ((tgt l).base cur) ((tgt l).comps ++ cs)
    | some _ => followedStep jump (cur ++ [a]) cs

/-- The links that lookup of `cs` from `cur` follows, up to `b` of them. -/
def followed : ℕ → List N → List (Comp N) → List (List N × L)
  | 0 => followedStep tgt T fun _ _ => []
  | b + 1 => followedStep tgt T (followed b)

end Walk

section Res

variable (tgt : L → Target N) (T : Tree N C L) (P : List N → Prop) (Q : List N → L → Prop)

/-- **Lookup as a derivation.** `Res tgt T P Q n cur cs r`: from `cur`, the components
`cs` lead to `r` and follow `n` links, every position on the way satisfies `P`, and
every link followed satisfies `Q`. -/
inductive Res : ℕ → List N → List (Comp N) → List N → Prop
  | nil {cur : List N} (hP : P cur) : Res 0 cur [] cur
  | here {n : ℕ} {cur r : List N} {cs : List (Comp N)} (hP : P cur) (hd : T cur = some .dir)
      (h : Res n cur cs r) : Res n cur (.here :: cs) r
  | up {n : ℕ} {cur r : List N} {cs : List (Comp N)} (hP : P cur) (hd : T cur = some .dir)
      (h : Res n cur.dropLast cs r) : Res n cur (.up :: cs) r
  | name {n : ℕ} {cur r : List N} {a : N} {cs : List (Comp N)} {nd : Node C L} (hP : P cur)
      (hd : T cur = some .dir) (ha : T (cur ++ [a]) = some nd) (hl : ∀ l, nd ≠ .link l)
      (h : Res n (cur ++ [a]) cs r) : Res n cur (.name a :: cs) r
  | link {n₁ n₂ : ℕ} {cur m r : List N} {a : N} {cs : List (Comp N)} {l : L} (hP : P cur)
      (hd : T cur = some .dir) (ha : T (cur ++ [a]) = some (.link l)) (hQ : Q cur l)
      (h₁ : Res n₁ ((tgt l).base cur) (tgt l).comps m) (h₂ : Res n₂ m cs r) :
      Res (n₁ + n₂ + 1) cur (.name a :: cs) r

end Res

variable {tgt : L → Target N} {T T' : Tree N C L} {P P' : List N → Prop} {Q Q' : List N → L → Prop}

namespace Res

variable {n n₁ n₂ : ℕ} {cur m r : List N} {cs ds : List (Comp N)}

theorem append (h₁ : Res tgt T P Q n₁ cur cs m) (h₂ : Res tgt T P Q n₂ m ds r) :
    Res tgt T P Q (n₁ + n₂) cur (cs ++ ds) r := by
  induction h₁ with
  | nil hP => simpa using h₂
  | here hP hd _ ih => exact .here hP hd (ih h₂)
  | up hP hd _ ih => exact .up hP hd (ih h₂)
  | name hP hd ha hl _ ih => exact .name hP hd ha hl (ih h₂)
  | @link k₁ k₂ _ _ _ _ _ _ hP hd ha hQ h₁ _ _ ih =>
    have := Res.link hP hd ha hQ h₁ (ih h₂)
    rwa [show k₁ + (k₂ + n₂) + 1 = k₁ + k₂ + 1 + n₂ by omega] at this

theorem end_ok (h : Res tgt T P Q n cur cs r) : P r := by
  induction h with
  | nil hP => exact hP
  | here _ _ _ ih => exact ih
  | up _ _ _ ih => exact ih
  | name _ _ _ _ _ ih => exact ih
  | link _ _ _ _ _ _ _ ih => exact ih

theorem start_ok (h : Res tgt T P Q n cur cs r) : P cur := by
  cases h <;> assumption

theorem split (h : Res tgt T P Q n cur (cs ++ ds) r) :
    ∃ n₁ n₂ m, n = n₁ + n₂ ∧ Res tgt T P Q n₁ cur cs m ∧ Res tgt T P Q n₂ m ds r := by
  induction cs generalizing n cur with
  | nil => exact ⟨0, n, cur, by omega, .nil h.start_ok, h⟩
  | cons c cs ih =>
    cases h with
    | here hP hd h =>
      obtain ⟨n₁, n₂, m, hn, h₁, h₂⟩ := ih h
      exact ⟨n₁, n₂, m, hn, .here hP hd h₁, h₂⟩
    | up hP hd h =>
      obtain ⟨n₁, n₂, m, hn, h₁, h₂⟩ := ih h
      exact ⟨n₁, n₂, m, hn, .up hP hd h₁, h₂⟩
    | name hP hd ha hl h =>
      obtain ⟨n₁, n₂, m, hn, h₁, h₂⟩ := ih h
      exact ⟨n₁, n₂, m, hn, .name hP hd ha hl h₁, h₂⟩
    | @link k₁ k₂ _ _ _ _ _ _ hP hd ha hQ h h' =>
      obtain ⟨n₁, n₂, m, hn, h₁, h₂⟩ := ih h'
      exact ⟨k₁ + n₁ + 1, n₂, m, by omega, .link hP hd ha hQ h h₁, h₂⟩

/-- **A lookup survives an extension of the tree**, and weaker side conditions. -/
theorem mono (hT : ∀ p nd, T p = some nd → T' p = some nd) (hP : ∀ p, P p → P' p)
    (hQ : ∀ p l, Q p l → Q' p l) (h : Res tgt T P Q n cur cs r) : Res tgt T' P' Q' n cur cs r := by
  induction h with
  | nil h => exact .nil (hP _ h)
  | here h hd _ ih => exact .here (hP _ h) (hT _ _ hd) ih
  | up h hd _ ih => exact .up (hP _ h) (hT _ _ hd) ih
  | name h hd ha hl _ ih => exact .name (hP _ h) (hT _ _ hd) (hT _ _ ha) hl ih
  | link h hd ha hq _ _ ih₁ ih₂ => exact .link (hP _ h) (hT _ _ hd) (hT _ _ ha) (hQ _ _ hq) ih₁ ih₂

/-- **Lookup is deterministic**: the object and the number of links followed. -/
theorem det (h : Res tgt T P Q n₁ cur cs m) (h' : Res tgt T P' Q' n₂ cur cs r) : n₁ = n₂ ∧ m = r := by
  induction h generalizing n₂ r with
  | nil _ => cases h' with | nil _ => exact ⟨rfl, rfl⟩
  | here _ _ _ ih => cases h' with | here _ _ h' => exact ih h'
  | up _ _ _ ih => cases h' with | up _ _ h' => exact ih h'
  | name _ _ ha hl _ ih =>
    cases h' with
    | name _ _ _ _ h' => exact ih h'
    | link _ _ ha' _ _ _ => rw [ha] at ha'; exact absurd (Option.some.inj ha') (hl _)
  | link _ _ ha _ _ _ ih₁ ih₂ =>
    cases h' with
    | name _ _ ha' hl' _ => rw [ha] at ha'; exact absurd (Option.some.inj ha').symm (hl' _)
    | link _ _ ha' _ h₁ h₂ =>
      rw [ha] at ha'; cases ha'
      obtain ⟨rfl, rfl⟩ := ih₁ h₁
      obtain ⟨rfl, rfl⟩ := ih₂ h₂
      exact ⟨rfl, rfl⟩

/-- A lookup that goes on starts in a directory. -/
theorem dir_of_ne_nil (h : Res tgt T P Q n cur cs r) (hne : cs ≠ []) : T cur = some .dir := by
  cases h with
  | nil _ => exact absurd rfl hne
  | here _ hd _ => exact hd
  | up _ hd _ => exact hd
  | name _ hd _ _ _ => exact hd
  | link _ hd _ _ _ _ => exact hd

/-- What the name of a link leads to, one link less. -/
theorem of_link {a : N} {l : L} (h : Res tgt T P Q n cur [.name a] r) (ha : T (cur ++ [a]) = some (.link l)) :
    ∃ n', n = n' + 1 ∧ Q cur l ∧ Res tgt T P Q n' ((tgt l).base cur) (tgt l).comps r := by
  cases h with
  | name _ _ ha' hl _ =>
    rw [ha] at ha'
    exact absurd (Option.some.inj ha').symm (hl l)
  | link _ _ ha' hQ h₁ h₂ =>
    rw [ha] at ha'
    cases ha'
    cases h₂ with
    | nil _ => exact ⟨_, rfl, hQ, h₁⟩

/-- `.` components can be left out. -/
theorem strip (h : Res tgt T P Q n cur cs r) : Res tgt T P Q n cur (strip cs) r := by
  induction h with
  | nil hP => exact .nil hP
  | here _ _ _ ih => exact ih
  | up hP hd _ ih => exact .up hP hd ih
  | name hP hd ha hl _ ih => exact .name hP hd ha hl ih
  | link hP hd ha hQ h₁ _ _ ih => exact .link hP hd ha hQ h₁ ih

/-- `.` components can be put in, as long as a `.` at the end is in a directory. -/
theorem unstrip (h : Res tgt T P Q n cur (Pathname.strip cs) r)
    (hend : T r = some .dir ∨ cs.getLast? ≠ some .here) : Res tgt T P Q n cur cs r := by
  induction cs generalizing n cur with
  | nil => exact h
  | cons c cs ih =>
    have hend' : T r = some .dir ∨ cs.getLast? ≠ some .here := by
      rcases hend with hd | hl
      · exact Or.inl hd
      · cases cs with
        | nil => right; simp
        | cons d ds => right; simpa [List.getLast?_cons_cons] using hl
    cases c with
    | here =>
      refine .here h.start_ok ?_ (ih h hend')
      rw [strip_here] at h
      by_cases hs : Pathname.strip cs = []
      · -- only `.` is left, so the walk ends here and ends in a directory
        rw [hs] at h
        cases h with
        | nil _ =>
          rcases hend with hd | hl
          · exact hd
          · exfalso; apply hl
            clear ih hend' hl
            induction cs with
            | nil => rfl
            | cons d ds ihd =>
              cases d with
              | here => rw [List.getLast?_cons_cons]; exact ihd hs
              | up => simp at hs
              | name a => simp at hs
      · exact h.dir_of_ne_nil hs
    | up =>
      rw [strip_up] at h
      cases h with | up hP hd h => exact .up hP hd (ih h hend')
    | name a =>
      rw [strip_name] at h
      cases h with
      | name hP hd ha hl h => exact .name hP hd ha hl (ih h hend')
      | link hP hd ha hQ h₁ h₂ => exact .link hP hd ha hQ h₁ (ih h₂ hend')

/-- A first part that follows no links can be cut off. -/
theorem append_iff (h : Res tgt T P Q 0 cur cs m) :
    Res tgt T P Q n cur (cs ++ ds) r ↔ Res tgt T P Q n m ds r := by
  constructor
  · intro h'
    obtain ⟨n₁, n₂, m', rfl, h₁, h₂⟩ := h'.split
    obtain ⟨rfl, rfl⟩ := h.det h₁
    rwa [Nat.zero_add]
  · intro h'
    have := h.append h'
    rwa [Nat.zero_add] at this

/-- Down through directories, by their names. -/
theorem dirs {d p : List N} (hd : ∀ q, q <+: p → T (d ++ q) = some .dir) (hP : ∀ q, q <+: p → P (d ++ q)) :
    Res tgt T P Q 0 d (names p) (d ++ p) := by
  induction p generalizing d with
  | nil => rw [List.append_nil]; exact .nil (by simpa using hP [] (List.nil_prefix))
  | cons a p ih =>
    have h0 := hd [] (List.nil_prefix)
    have hP0 := hP [] (List.nil_prefix)
    rw [List.append_nil] at h0 hP0
    have hsplit : ∀ q, d ++ a :: q = d ++ [a] ++ q := by simp
    have ha : T (d ++ [a]) = some .dir := hd [a] (by simp)
    rw [names_cons, hsplit]
    refine .name hP0 h0 ha (by simp) (ih ?_ ?_)
    · intro q hq
      rw [← hsplit]; exact hd (a :: q) (by simpa using hq)
    · intro q hq
      rw [← hsplit]; exact hP (a :: q) (by simpa using hq)

/-- Up again. -/
theorem ups {d p : List N} {j : ℕ} (hj : j ≤ p.length) (hd : ∀ q, q <+: p → T (d ++ q) = some .dir)
    (hP : ∀ q, q <+: p → P (d ++ q)) :
    Res tgt T P Q 0 (d ++ p) (List.replicate j .up) (d ++ p.take (p.length - j)) := by
  induction j generalizing p with
  | zero => simpa using Res.nil (hP p (List.prefix_refl p))
  | succ j ih =>
    rcases List.eq_nil_or_concat' p with rfl | ⟨p', a, rfl⟩
    · simp at hj
    · have hpre : p' <+: p' ++ [a] := List.prefix_append _ _
      simp only [List.length_append, List.length_singleton] at hj ⊢
      have ih' := ih (by omega) (fun q hq => hd q (hq.trans hpre)) (fun q hq => hP q (hq.trans hpre))
      rw [List.replicate_succ, show p'.length + 1 - (j + 1) = p'.length - j by omega,
        List.take_append_of_le_length (by omega)]
      refine .up (hP _ (List.prefix_refl _)) (hd _ (List.prefix_refl _)) ?_
      rwa [← List.append_assoc, List.dropLast_concat]

/-- **Going up `j` directories is the same as leaving out their names.** -/
theorem lex_iff {d p ns : List N} {j : ℕ} (hj : j ≤ p.length)
    (hd : ∀ q, q <+: p → T (d ++ q) = some .dir) (hP : ∀ q, q <+: p → P (d ++ q)) :
    Res tgt T P Q n d (names (p.take (p.length - j) ++ ns)) r ↔
      Res tgt T P Q n (d ++ p) (List.replicate j .up ++ names ns) r := by
  have hpre : p.take (p.length - j) <+: p := List.take_prefix _ _
  have h₁ : Res tgt T P Q 0 d (names (p.take (p.length - j))) (d ++ p.take (p.length - j)) :=
    dirs (fun q hq => hd q (hq.trans hpre)) (fun q hq => hP q (hq.trans hpre))
  rw [names_append, h₁.append_iff, (ups hj hd hP).append_iff]

/-- A `.` at the end is in a directory. -/
theorem last_here (h : Res tgt T P Q n cur cs r) (hl : cs.getLast? = some .here) : T r = some .dir := by
  obtain ⟨cs', rfl⟩ := List.getLast?_eq_some_iff.1 hl
  obtain ⟨_, _, m, -, -, h₂⟩ := h.split
  cases h₂ with
  | here _ hd h₂ => cases h₂ with | nil _ => exact hd

/-- What a lookup finds exists and is no link, if that holds where it starts and every object
is in a directory. -/
theorem end_node (hT : ∀ p a nd, T (p ++ [a]) = some nd → T p = some .dir)
    (h : Res tgt T P Q n cur cs r) (hcur : ∃ nd, T cur = some nd ∧ ∀ l, nd ≠ .link l) :
    ∃ nd, T r = some nd ∧ ∀ l, nd ≠ .link l := by
  have hdir : ∀ {p}, T p = some .dir → ∃ nd, T p = some nd ∧ ∀ l : L, nd ≠ .link l :=
    fun hp => ⟨.dir, hp, by simp⟩
  induction h with
  | nil _ => exact hcur
  | here _ _ _ ih => exact ih hcur
  | @up _ cur _ _ _ hd _ ih =>
    refine ih (hdir ?_)
    rcases List.eq_nil_or_concat' cur with rfl | ⟨p, a, rfl⟩
    · exact hd
    · rw [List.dropLast_concat]; exact hT p a _ hd
  | name _ _ ha hl _ ih => exact ih ⟨_, ha, hl⟩
  | @link _ _ cur _ _ _ _ l _ hd _ _ _ _ ih₁ ih₂ =>
    refine ih₂ (ih₁ (hdir ?_))
    unfold Target.base
    split_ifs
    · -- the root is a directory, as some object is in one
      have hroot : ∀ p : List N, T p = some .dir → T [] = some .dir := by
        intro p
        induction p using List.reverseRec with
        | nil => exact id
        | append_singleton p a ihp => exact fun hp => ihp (hT p a _ hp)
      exact hroot cur hd
    · exact hd

/-- **A lookup that stays inside `D` is the same in a copy of `D` at another place**, if the links there are
relative. `D` is not the root, as `..` leads out of a copy of it. -/
theorem move {D E d : List N} (hD : D ≠ []) (hT : ∀ q, T' (E ++ q) = T (D ++ q))
    (hrel : ∀ q l, T (D ++ q) = some (.link l) → (tgt l).abs = false)
    (h : Res tgt T (fun p => D <+: p) Q n (D ++ d) cs r) :
    ∃ e, r = D ++ e ∧ Res tgt T' (fun p => E <+: p) (fun _ _ => True) n (E ++ d) cs (E ++ e) := by
  have hin : ∀ q, E <+: E ++ q := fun q => List.prefix_append E q
  have hdir : ∀ {q}, T (D ++ q) = some .dir → T' (E ++ q) = some .dir := fun h => (hT _).trans h
  generalize hcur : D ++ d = cur at h
  induction h generalizing d with
  | nil _ =>
    subst hcur
    exact ⟨d, rfl, .nil (hin d)⟩
  | here _ hd _ ih =>
    subst hcur
    obtain ⟨e, rfl, hres⟩ := ih rfl
    exact ⟨e, rfl, .here (hin d) (hdir hd) hres⟩
  | up _ hd h ih =>
    subst hcur
    -- the walk does not leave `D` upwards
    have hne : d ≠ [] := by
      rintro rfl
      have hlen := h.start_ok.length_le
      rw [List.append_nil, List.length_dropLast] at hlen
      have hpos := List.length_pos_iff.2 hD
      omega
    obtain ⟨e, rfl, hres⟩ := ih (List.dropLast_append_of_ne_nil hne).symm
    refine ⟨e, rfl, .up (hin d) (hdir hd) ?_⟩
    rwa [List.dropLast_append_of_ne_nil hne]
  | @name _ _ _ a _ nd _ hd ha hl _ ih =>
    subst hcur
    rw [List.append_assoc] at ha
    have ha' : T' (E ++ d ++ [a]) = some nd := by rw [List.append_assoc, hT, ha]
    obtain ⟨e, rfl, hres⟩ := ih (List.append_assoc _ _ _).symm
    rw [← List.append_assoc] at hres
    exact ⟨e, rfl, .name (hin d) (hdir hd) ha' hl hres⟩
  | @link _ _ _ _ _ a _ l _ hd ha _ _ _ ih₁ ih₂ =>
    subst hcur
    rw [List.append_assoc] at ha
    have ha' : T' (E ++ d ++ [a]) = some (.link l) := by rw [List.append_assoc, hT, ha]
    have hbase : ∀ p, (tgt l).base p = p := fun p => by rw [Target.base, hrel _ _ ha, if_neg Bool.false_ne_true]
    obtain ⟨m, rfl, hres₁⟩ := ih₁ (hbase _).symm
    obtain ⟨e, rfl, hres₂⟩ := ih₂ rfl
    rw [← hbase (E ++ d)] at hres₁
    exact ⟨e, rfl, .link (hin d) (hdir hd) ha' trivial hres₁ hres₂⟩

end Res

/-! ## The walk and its derivations -/

section Agree

variable {ok : List N → Bool} {follow : Bool} {b n : ℕ} {cur m r : List N} {a : N} {l : L}
variable {cs ds : List (Comp N)}

theorem walk_nil (h : ok cur = true) : walk tgt T ok follow b cur [] = some cur := by
  cases b <;> simp [walk, walkStep, h]

theorem walk_here (h : ok cur = true) (hd : T cur = some .dir) :
    walk tgt T ok follow b cur (.here :: cs) = walk tgt T ok follow b cur cs := by
  cases b <;> simp [walk, walkStep, h, isDir_iff.2 hd]

theorem walk_up (h : ok cur = true) (hd : T cur = some .dir) :
    walk tgt T ok follow b cur (.up :: cs) = walk tgt T ok follow b cur.dropLast cs := by
  cases b <;> simp [walk, walkStep, h, isDir_iff.2 hd]

theorem walk_name {nd : Node C L} (h : ok cur = true) (hd : T cur = some .dir)
    (ha : T (cur ++ [a]) = some nd) (hl : ∀ l, nd ≠ .link l) :
    walk tgt T ok follow b cur (.name a :: cs) = walk tgt T ok follow b (cur ++ [a]) cs := by
  cases nd with
  | dir => cases b <;> simp [walk, walkStep, h, isDir_iff.2 hd, ha]
  | file c => cases b <;> simp [walk, walkStep, h, isDir_iff.2 hd, ha]
  | link l => exact absurd rfl (hl l)

theorem walk_none (h : ok cur = true) (hd : T cur = some .dir) (ha : T (cur ++ [a]) = none) :
    walk tgt T ok follow b cur (.name a :: cs) = none := by
  cases b <;> simp [walk, walkStep, h, isDir_iff.2 hd, ha]

theorem walk_link (h : ok cur = true) (hd : T cur = some .dir) (ha : T (cur ++ [a]) = some (.link l))
    (hf : cs ≠ [] ∨ follow = true) :
    walk tgt T ok follow (b + 1) cur (.name a :: cs) =
      walk tgt T ok follow b ((tgt l).base cur) ((tgt l).comps ++ cs) := by
  have hc : (cs.isEmpty && !follow) = false := by
    rcases hf with hf | hf
    · simp [hf]
    · simp [hf]
  simp [walk, walkStep, h, isDir_iff.2 hd, ha, hc]

/-- The object in last position, links not followed. -/
theorem walk_last {nd : Node C L} (h : ok cur = true) (hd : T cur = some .dir)
    (ha : T (cur ++ [a]) = some nd) (h' : ok (cur ++ [a]) = true) :
    walk tgt T ok false b cur [.name a] = some (cur ++ [a]) := by
  cases nd with
  | link l => cases b <;> simp [walk, walkStep, h, isDir_iff.2 hd, ha, h']
  | dir => rw [walk_name h hd ha (by simp)]; exact walk_nil h'
  | file c => rw [walk_name h hd ha (by simp)]; exact walk_nil h'

/-- **A derivation can be walked**, and the rest of the pathname with what is left of
the bound. -/
theorem walk_append (h : Res tgt T (fun p => ok p = true) Q n cur cs m)
    (hf : ds ≠ [] ∨ follow = true) (hn : n ≤ b) :
    walk tgt T ok follow b cur (cs ++ ds) = walk tgt T ok follow (b - n) m ds := by
  induction h generalizing b ds with
  | nil _ => simp
  | here hP hd _ ih => rw [List.cons_append, walk_here hP hd]; exact ih hf hn
  | up hP hd _ ih => rw [List.cons_append, walk_up hP hd]; exact ih hf hn
  | name hP hd ha hl _ ih => rw [List.cons_append, walk_name hP hd ha hl]; exact ih hf hn
  | @link k₁ k₂ _ _ _ _ cs _ hP hd ha _ _ _ ih₁ ih₂ =>
    obtain ⟨b, rfl⟩ : ∃ b', b = b' + 1 := ⟨b - 1, by omega⟩
    have hf' : cs ++ ds ≠ [] ∨ follow = true := by
      rcases hf with hf | hf
      · left; simp [hf]
      · exact Or.inr hf
    rw [List.cons_append, walk_link hP hd ha hf', ih₁ hf' (by omega), ih₂ hf (by omega)]
    congr 1; omega

theorem walk_of_res (h : Res tgt T (fun p => ok p = true) Q n cur cs r) (hn : n ≤ b) :
    walk tgt T ok true b cur cs = some r := by
  have hw : walk tgt T ok true b cur (cs ++ []) = walk tgt T ok true (b - n) r [] :=
    walk_append h (Or.inr rfl) hn
  rw [List.append_nil] at hw
  rw [hw]; exact walk_nil h.end_ok

theorem followed_here : followed tgt T b cur (.here :: cs) = followed tgt T b cur cs := by
  cases b <;> rfl

theorem followed_up : followed tgt T b cur (.up :: cs) = followed tgt T b cur.dropLast cs := by
  cases b <;> rfl

theorem followed_name {nd : Node C L} (ha : T (cur ++ [a]) = some nd) (hl : ∀ l, nd ≠ .link l) :
    followed tgt T b cur (.name a :: cs) = followed tgt T b (cur ++ [a]) cs := by
  cases nd with
  | dir => cases b <;> simp [followed, followedStep, ha]
  | file c => cases b <;> simp [followed, followedStep, ha]
  | link l => exact absurd rfl (hl l)

theorem followed_link (ha : T (cur ++ [a]) = some (.link l)) :
    followed tgt T (b + 1) cur (.name a :: cs) =
      (cur, l) :: followed tgt T b ((tgt l).base cur) ((tgt l).comps ++ cs) := by
  simp [followed, followedStep, ha]

theorem mem_followed_link (ha : T (cur ++ [a]) = some (.link l)) :
    (cur, l) ∈ followed tgt T b cur (.name a :: cs) := by
  cases b <;> simp [followed, followedStep, ha]

/-- The links that the rest of a pathname follows are among those of the whole. -/
theorem followed_append (h : Res tgt T P Q n cur cs m) (hn : n ≤ b) {x : List N × L}
    (hx : x ∈ followed tgt T (b - n) m ds) : x ∈ followed tgt T b cur (cs ++ ds) := by
  induction h generalizing b ds with
  | nil _ => exact hx
  | here _ _ _ ih =>
    rw [List.cons_append, followed_here]
    exact ih hn hx
  | up _ _ _ ih =>
    rw [List.cons_append, followed_up]
    exact ih hn hx
  | name _ _ ha hl _ ih =>
    rw [List.cons_append, followed_name ha hl]
    exact ih hn hx
  | @link k₁ k₂ _ _ _ _ cs _ _ _ ha _ _ _ ih₁ ih₂ =>
    obtain ⟨b, rfl⟩ : ∃ b', b = b' + 1 := ⟨b - 1, by omega⟩
    rw [show b + 1 - (k₁ + k₂ + 1) = b - k₁ - k₂ by omega] at hx
    rw [List.cons_append, followed_link ha]
    exact List.mem_cons_of_mem _ (ih₁ (by omega) (ih₂ (by omega) hx))

/-- **A derivation follows the links `followed` lists**, also if it is for the first part of a pathname. -/
theorem res_followed (h : Res tgt T P Q n cur cs m) (hn : n ≤ b) :
    Res tgt T P (fun d l => (d, l) ∈ followed tgt T b cur (cs ++ ds)) n cur cs m := by
  induction h generalizing b ds with
  | nil hP => exact .nil hP
  | here hP hd _ ih =>
    rw [List.cons_append, followed_here]
    exact .here hP hd (ih hn)
  | up hP hd _ ih =>
    rw [List.cons_append, followed_up]
    exact .up hP hd (ih hn)
  | name hP hd ha hl _ ih =>
    rw [List.cons_append, followed_name ha hl]
    exact .name hP hd ha hl (ih hn)
  | @link k₁ k₂ _ q _ _ cs _ hP hd ha _ h₁ _ ih₁ ih₂ =>
    obtain ⟨b, rfl⟩ : ∃ b', b = b' + 1 := ⟨b - 1, by omega⟩
    rw [List.cons_append, followed_link ha]
    refine .link (m := q) hP hd ha List.mem_cons_self ?_ ?_
    · exact (ih₁ (by omega)).mono (fun _ _ h => h) (fun _ h => h) (fun _ _ hk => List.mem_cons_of_mem _ hk)
    · refine (ih₂ (by omega)).mono (fun _ _ h => h) (fun _ h => h)
        fun d l (hk : (d, l) ∈ followed tgt T (b - k₁) q (cs ++ ds)) => ?_
      exact List.mem_cons_of_mem _ (followed_append h₁ (by omega) hk)

theorem res_of_walkStep {jump : List N → List (Comp N) → Option (List N)}
    (hj : ∀ cur cs r, jump cur cs = some r → ∃ n < b,
      Res tgt T (fun p => ok p = true) (fun _ _ => True) n cur cs r)
    (h : walkStep tgt T ok true jump cur cs = some r) :
    ∃ n ≤ b, Res tgt T (fun p => ok p = true) (fun _ _ => True) n cur cs r := by
  induction cs generalizing cur with
  | nil =>
    simp only [walkStep] at h
    split at h
    · cases h; exact ⟨0, Nat.zero_le _, .nil ‹_›⟩
    · cases h
  | cons c cs ih =>
    simp only [walkStep] at h
    split at h
    · rename_i hc
      simp only [Bool.and_eq_true] at hc
      obtain ⟨hP, hd⟩ := hc
      rw [isDir_iff] at hd
      cases c with
      | here => obtain ⟨n, hn, hr⟩ := ih h; exact ⟨n, hn, .here hP hd hr⟩
      | up => obtain ⟨n, hn, hr⟩ := ih h; exact ⟨n, hn, .up hP hd hr⟩
      | name a =>
        cases ha : T (cur ++ [a]) with
        | none => simp [ha] at h
        | some nd =>
          cases nd with
          | link l =>
            simp only [ha, Bool.not_true, Bool.and_false, Bool.false_eq_true, if_false] at h
            obtain ⟨n, hn, hr⟩ := hj _ _ _ h
            obtain ⟨n₁, n₂, m, rfl, h₁, h₂⟩ := hr.split
            exact ⟨n₁ + n₂ + 1, hn, .link hP hd ha trivial h₁ h₂⟩
          | dir =>
            simp only [ha] at h
            obtain ⟨n, hn, hr⟩ := ih h
            exact ⟨n, hn, .name hP hd ha (by simp) hr⟩
          | file c =>
            simp only [ha] at h
            obtain ⟨n, hn, hr⟩ := ih h
            exact ⟨n, hn, .name hP hd ha (by simp) hr⟩
    · cases h

/-- **The walk and its derivations agree.** -/
theorem walk_iff_res : walk tgt T ok true b cur cs = some r ↔
    ∃ n ≤ b, Res tgt T (fun p => ok p = true) (fun _ _ => True) n cur cs r := by
  constructor
  · intro h
    induction b generalizing cur cs r with
    | zero => exact res_of_walkStep (by simp) h
    | succ b ih =>
      refine res_of_walkStep (fun cur cs r hr => ?_) h
      obtain ⟨n, hn, hr⟩ := ih hr
      exact ⟨n, by omega, hr⟩
  · rintro ⟨n, hn, hr⟩
    exact walk_of_res hr hn

/-- A successful walk has a derivation, which follows the links `followed` lists. -/
theorem res_of_walk (h : walk tgt T ok true b cur cs = some r) :
    ∃ n ≤ b, Res tgt T (fun p => ok p = true) (fun d l => (d, l) ∈ followed tgt T b cur cs) n cur cs r := by
  obtain ⟨n, hn, hr⟩ := walk_iff_res.1 h
  have hlisted : Res tgt T (fun p => ok p = true) (fun d l => (d, l) ∈ followed tgt T b cur (cs ++ [])) n cur cs r :=
    res_followed hr hn
  rw [List.append_nil] at hlisted
  exact ⟨n, hn, hlisted⟩

/-! ## Lookup that does not follow the last link -/

theorem res_of_walkStep_last {jump : List N → List (Comp N) → Option (List N)}
    (hj : ∀ cur cs r, jump cur (cs ++ [.name a]) = some r → ∃ n < b, ∃ d,
      Res tgt T (fun p => ok p = true) (fun _ _ => True) n cur cs d ∧ T d = some .dir ∧ r = d ++ [a] ∧
        T r ≠ none)
    (h : walkStep tgt T ok false jump cur (cs ++ [.name a]) = some r) :
    ∃ n ≤ b, ∃ d, Res tgt T (fun p => ok p = true) (fun _ _ => True) n cur cs d ∧ T d = some .dir ∧
      r = d ++ [a] ∧ T r ≠ none := by
  induction cs generalizing cur with
  | nil =>
    simp only [List.nil_append, walkStep, List.isEmpty_nil, Bool.not_false, Bool.and_self, if_true] at h
    split at h
    · rename_i hc
      obtain ⟨hok, hdir⟩ := Bool.and_eq_true_iff.1 hc
      have hend : r = cur ++ [a] ∧ T (cur ++ [a]) ≠ none := by
        cases ha : T (cur ++ [a]) with
        | none => simp [ha] at h
        | some nd =>
          refine ⟨?_, by simp⟩
          cases nd <;> simp only [ha] at h <;> split at h <;> cases h <;> rfl
      obtain ⟨rfl, hsome⟩ := hend
      exact ⟨0, Nat.zero_le _, cur, .nil hok, isDir_iff.1 hdir, rfl, hsome⟩
    · cases h
  | cons c cs ih =>
    rw [List.cons_append] at h
    simp only [walkStep] at h
    split at h
    · rename_i hc
      obtain ⟨hok, hdir⟩ := Bool.and_eq_true_iff.1 hc
      rw [isDir_iff] at hdir
      cases c with
      | here =>
        obtain ⟨n, hn, d, hres, hrest⟩ := ih h
        exact ⟨n, hn, d, .here hok hdir hres, hrest⟩
      | up =>
        obtain ⟨n, hn, d, hres, hrest⟩ := ih h
        exact ⟨n, hn, d, .up hok hdir hres, hrest⟩
      | name x =>
        cases hx : T (cur ++ [x]) with
        | none => simp [hx] at h
        | some nd =>
          cases nd with
          | link l =>
            have hmore : (cs ++ [Comp.name a]).isEmpty = false := by simp
            simp only [hx, hmore, Bool.false_and, Bool.false_eq_true, if_false] at h
            rw [← List.append_assoc] at h
            obtain ⟨n, hn, d, hres, hrest⟩ := hj _ _ _ h
            obtain ⟨n₁, n₂, m, rfl, h₁, h₂⟩ := hres.split
            exact ⟨n₁ + n₂ + 1, hn, d, .link hok hdir hx trivial h₁ h₂, hrest⟩
          | dir =>
            simp only [hx] at h
            obtain ⟨n, hn, d, hres, hrest⟩ := ih h
            exact ⟨n, hn, d, .name hok hdir hx (by simp) hres, hrest⟩
          | file c =>
            simp only [hx] at h
            obtain ⟨n, hn, d, hres, hrest⟩ := ih h
            exact ⟨n, hn, d, .name hok hdir hx (by simp) hres, hrest⟩
    · cases h

/-- **A name in last position is looked up in the directory before it.** -/
theorem res_of_walk_last (h : walk tgt T ok false b cur (cs ++ [.name a]) = some r) :
    ∃ n ≤ b, ∃ d, Res tgt T (fun p => ok p = true) (fun _ _ => True) n cur cs d ∧ T d = some .dir ∧
      r = d ++ [a] ∧ T r ≠ none := by
  induction b generalizing cur cs r with
  | zero => exact res_of_walkStep_last (by simp) h
  | succ b ih =>
    refine res_of_walkStep_last (fun cur cs r hr => ?_) h
    obtain ⟨n, hn, hrest⟩ := ih hr
    exact ⟨n, by omega, hrest⟩

/-- **A walk survives every extension of the tree**, also one that ends at a link. -/
theorem walkStep_mono {jump jump' : List N → List (Comp N) → Option (List N)}
    (hT : ∀ p nd, T p = some nd → T' p = some nd) (hj : ∀ cur cs r, jump cur cs = some r → jump' cur cs = some r)
    (h : walkStep tgt T ok follow jump cur cs = some r) : walkStep tgt T' ok follow jump' cur cs = some r := by
  induction cs generalizing cur with
  | nil => exact h
  | cons c cs ih =>
    simp only [walkStep] at h ⊢
    split at h
    · rename_i hok
      obtain ⟨hcur, hdir⟩ := Bool.and_eq_true_iff.1 hok
      rw [hcur, isDir_iff.2 (hT _ _ (isDir_iff.1 hdir)), Bool.and_self, if_pos rfl]
      cases c with
      | here => exact ih h
      | up => exact ih h
      | name a =>
        cases ha : T (cur ++ [a]) with
        | none => simp [ha] at h
        | some nd =>
          simp only [ha] at h
          simp only [hT _ _ ha]
          cases nd with
          | dir => exact ih h
          | file c => exact ih h
          | link l =>
            dsimp only at h ⊢
            split_ifs at h ⊢
            · exact h
            · exact hj _ _ _ h
    · cases h

theorem walk_mono (hT : ∀ p nd, T p = some nd → T' p = some nd) (h : walk tgt T ok follow b cur cs = some r) :
    walk tgt T' ok follow b cur cs = some r := by
  induction b generalizing cur cs r with
  | zero => exact walkStep_mono hT (fun _ _ _ hr => hr) h
  | succ b ih => exact walkStep_mono hT (fun _ _ _ hr => ih hr) h

theorem walkStep_follow {jump jump' : List N → List (Comp N) → Option (List N)}
    (hj : ∀ cur cs, (∀ a, cs.getLast? ≠ some (.name a)) → jump cur cs = jump' cur cs)
    (hl : ∀ a, cs.getLast? ≠ some (.name a)) :
    walkStep tgt T ok false jump cur cs = walkStep tgt T ok true jump' cur cs := by
  induction cs generalizing cur with
  | nil => rfl
  | cons c cs ih =>
    have hl' : ∀ a, cs.getLast? ≠ some (.name a) := by
      intro a ha
      apply hl a
      rw [List.getLast?_cons, ha]
      rfl
    simp only [walkStep]
    split
    · cases c with
      | here => exact ih hl'
      | up => exact ih hl'
      | name x =>
        have hne : cs ≠ [] := by
          rintro rfl
          exact hl x rfl
        have hempty : cs.isEmpty = false := by simpa using hne
        dsimp only
        cases hx : T (cur ++ [x]) with
        | none => rfl
        | some nd =>
          cases nd with
          | link l =>
            simp only [hempty, Bool.false_and, Bool.false_eq_true, if_false, Bool.not_true]
            apply hj
            intro a ha
            apply hl' a
            rw [← ha, List.getLast?_append_of_ne_nil _ hne]
          | dir => exact ih hl'
          | file c => exact ih hl'
    · rfl

/-- A pathname that does not end in a name is looked up in the same way with and without the
last link. -/
theorem walk_follow (hl : ∀ a, cs.getLast? ≠ some (.name a)) :
    walk tgt T ok false b cur cs = walk tgt T ok true b cur cs := by
  induction b generalizing cur cs with
  | zero => exact walkStep_follow (fun _ _ _ => rfl) hl
  | succ b ih => exact walkStep_follow (fun _ _ h => ih h) hl

end Agree

/-! ## Lexical normal forms -/

section Norm

/-- Is there a link at `p`? -/
def isLink (T : Tree N C L) (p : List N) : Bool :=
  match T p with
  | some (.link _) => true
  | _ => false

theorem isLink_of {l : L} {p : List N} (h : T p = some (.link l)) : isLink T p = true := by
  simp [isLink, h]

variable (tgt T) in
/-- No `..` among the components cancels the name of a link when they are normalised from the
stack `st`; at most `b` links are followed to find out. -/
def lexSafe (b : ℕ) : List N → List (Comp N) → Bool
  | _, [] => true
  | st, .here :: cs => lexSafe b st cs
  | st, .up :: cs =>
    !(walk tgt T (fun _ => true) false b [] (names st)).any (isLink T) && lexSafe b st.dropLast cs
  | st, .name a :: cs => lexSafe b (st ++ [a]) cs

variable {b n k : ℕ} {st cur r : List N} {cs : List (Comp N)}

/-- The directory above the last name of a stack, when that name is no link. -/
theorem Res.dropLast (h : Res tgt T (fun _ => True) (fun _ _ => True) n [] (names st) cur) (hb : n ≤ b)
    (hlink : (walk tgt T (fun _ => true) false b [] (names st)).any (isLink T) = false) :
    Res tgt T (fun _ => True) (fun _ _ => True) n [] (names st.dropLast) cur.dropLast := by
  rcases List.eq_nil_or_concat' st with rfl | ⟨st', a, rfl⟩
  · cases h with
    | nil _ => exact .nil trivial
  · rw [List.dropLast_concat]
    rw [names_append] at h hlink
    obtain ⟨n₁, n₂, m, rfl, h₁, h₂⟩ := h.split
    cases h₂ with
    | name _ _ _ _ h₂ =>
      cases h₂ with
      | nil _ => rwa [List.dropLast_concat]
    | link _ hd ha _ _ _ =>
      -- then `lstat` finds a link
      exfalso
      have h₁' : Res tgt T (fun p => (fun _ => true) p = true) (fun _ _ => True) n₁ [] (names st') m :=
        h₁.mono (fun _ _ h => h) (fun _ _ => rfl) (fun _ _ h => h)
      have hw : walk tgt T (fun _ => true) false b [] (names st' ++ [.name a]) = some (m ++ [a]) := by
        rw [walk_append h₁' (Or.inl (by simp)) (by omega), walk_last rfl hd ha rfl]
      rw [show names [a] = [Comp.name a] from rfl, hw] at hlink
      simp [isLink_of ha] at hlink

/-- **Lexical normalisation leads to the same object** when no `..` cancels the name of a link.
The walk has reached `cur`, and so does the stack `st` from the root. -/
theorem Res.norm (h : Res tgt T (fun _ => True) (fun _ _ => True) n cur cs r)
    (hst : Res tgt T (fun _ => True) (fun _ _ => True) k [] (names st) cur) (hb : k + n ≤ b)
    (hsafe : lexSafe tgt T b st cs = true) :
    ∃ m ≤ k + n, Res tgt T (fun _ => True) (fun _ _ => True) m [] (names (Pathname.norm st cs)) r := by
  induction h generalizing k st with
  | nil _ => exact ⟨k, by omega, hst⟩
  | here _ _ _ ih => exact ih hst hb hsafe
  | up _ _ _ ih =>
    simp only [lexSafe, Bool.and_eq_true, Bool.not_eq_true'] at hsafe
    exact ih (hst.dropLast (by omega) hsafe.1) hb hsafe.2
  | name hP hd ha hl _ ih =>
    have hst' := hst.append (Res.name hP hd ha hl (.nil trivial))
    rw [show [Comp.name _] = names [_] from rfl, ← names_append] at hst'
    exact ih hst' hb hsafe
  | @link n₁ n₂ _ _ _ _ _ _ hP hd ha hQ h₁ _ _ ih₂ =>
    have hst' := hst.append (Res.link hP hd ha hQ h₁ (.nil trivial))
    rw [show [Comp.name _] = names [_] from rfl, ← names_append] at hst'
    obtain ⟨m, hm, hr⟩ := ih₂ hst' (by omega) hsafe
    exact ⟨m, by omega, hr⟩

end Norm

end Pathname
