import Ptu.Proof.Resolve
import Ptu.Spec.Okapi

/-!
# Mirrored trees

While okapi runs, the file system `F` is the source `S` plus mirrored objects below the
destination directory `D`: the object at `D ++ q` is a copy of the one at `q`, links to
absolute paths being rewritten (`munge`). `Mirror` is this invariant.

A mirrored link does not lead anywhere until its target is mirrored, too. `Complete F k`
says that all mirrored links that follow at most `k` links lead inside `D` to the copy of
what they lead to in `S`; `Step` is what the mirroring functions guarantee.
-/

namespace Ptu

open Pathname

/-! ## Links -/

/-- `"../"`, `n` times. -/
def dotdots (n : ℕ) : CString := (List.replicate n (str "../")).flatten

theorem length_dotdots (n : ℕ) : (dotdots n).length = 3 * n := by
  induction n with
  | zero => rfl
  | succ n ih =>
    have hcons : dotdots (n + 1) = str "../" ++ dotdots n := by simp [dotdots, List.replicate_succ]
    have hthree : (str "../").length = 3 := rfl
    rw [hcons, List.length_append, ih, hthree]
    omega

/-- The text of a mirrored link in the directory `dir`. -/
def munge (dir : List CString) (t : CString) : CString :=
  if isAbspath t then str "./" ++ dotdots dir.length ++ t else t

/-- The `..` components of a link in the directory `dir` come before all names and do not lead
above the root; a link to an absolute path has none. -/
def tame (dir : List CString) (t : CString) : Bool :=
  let cs := strip (comps t)
  (cs.dropWhile (· == .up)).all (· != .up) &&
    decide ((cs.takeWhile (· == .up)).length ≤ if isAbspath t then 0 else dir.length)

/-- The rewritten text of a link in the directory `dir` fits, with its NUL, into the buffer of okapi. A link to a
relative path is not rewritten. -/
def fitsBuffer (dir : List CString) (t : CString) : Bool :=
  !isAbspath t || decide (2 + 3 * dir.length + t.length < maxPathLen)

/-- A link that okapi can mirror: it is tame and fits. -/
def mirrorable (dir : List CString) (t : CString) : Bool := tame dir t && fitsBuffer dir t

theorem mirrorable_iff {dir : List CString} {t : CString} :
    mirrorable dir t = true ↔ tame dir t = true ∧ fitsBuffer dir t = true := Bool.and_eq_true_iff

/-- The real directory that a link in `dir` is read from. -/
def linkBase (dir : List CString) (t : CString) : List CString := if isAbspath t then [] else dir

/-- The components of a tame link, without `.`. -/
theorem tame_comps {dir : List CString} {t : CString} (h : tame dir t = true) :
    ∃ j ns, strip (comps t) = List.replicate j .up ++ names ns ∧ j ≤ (linkBase dir t).length ∧
      ValidPath ns := by
  simp only [tame, Bool.and_eq_true, decide_eq_true_eq] at h
  obtain ⟨hall, hj⟩ := h
  set cs := strip (comps t) with hcs
  have hups : cs.takeWhile (· == .up) = List.replicate (cs.takeWhile (· == .up)).length .up := by
    refine List.eq_replicate_iff.2 ⟨rfl, fun c hc => ?_⟩
    simpa using List.mem_takeWhile_imp hc
  -- what is left has neither `..` nor `.`
  have hnames : ∀ l : List (Comp CString), (∀ c ∈ l, c ∈ cs) → l.all (· != .up) = true →
      ∃ ns, l = names ns ∧ ValidPath ns := by
    intro l
    induction l with
    | nil => exact fun _ _ => ⟨[], rfl, by simp [ValidPath]⟩
    | cons c l ih =>
      intro hmem hl
      simp only [List.all_cons, Bool.and_eq_true] at hl
      obtain ⟨ns, rfl, hns⟩ := ih (fun x hx => hmem x (List.mem_cons_of_mem _ hx)) hl.2
      have hc := hmem c List.mem_cons_self
      rw [hcs, strip, List.mem_filter] at hc
      cases c with
      | here => simp at hc
      | up => simp at hl
      | name a =>
        refine ⟨a :: ns, rfl, fun n hn => ?_⟩
        rcases List.mem_cons.1 hn with rfl | hn
        · exact comps_valid hc.1
        · exact hns n hn
  obtain ⟨ns, hns, hvalid⟩ := hnames (cs.dropWhile (· == .up))
    (fun c hc => (List.dropWhile_sublist _).subset hc) hall
  refine ⟨(cs.takeWhile (· == .up)).length, ns, ?_, ?_, hvalid⟩
  · rw [← hups, ← hns, List.takeWhile_append_dropWhile]
  · unfold linkBase
    split_ifs at hj ⊢ with habs
    · simpa using hj
    · exact hj

theorem comps_dotdots (n : ℕ) (t : CString) : comps (dotdots n ++ t) = List.replicate n .up ++ comps t := by
  induction n with
  | zero => simp [dotdots]
  | succ n ih =>
    have hcons : dotdots (n + 1) ++ t = str ".." ++ slash :: (dotdots n ++ t) := by
      simp [dotdots, List.replicate_succ, str]
    rw [hcons, comps_append_slash, ih, List.replicate_succ]
    rfl

/-- **A rewritten link** goes up to the destination directory and then on as before. -/
theorem pathComps_munge {t : CString} (ht : t ≠ []) (dir : List CString) :
    pathComps (munge dir t) =
      if isAbspath t then .here :: (List.replicate dir.length .up ++ pathComps t) else pathComps t := by
  unfold munge
  split_ifs with habs
  · have hlast : (str "./" ++ dotdots dir.length ++ t).getLast? = t.getLast? := by
      rw [List.getLast?_append]
      cases hl : t.getLast? with
      | none => exact absurd (List.getLast?_eq_none_iff.1 hl) ht
      | some c => rfl
    have hcons : str "./" ++ dotdots dir.length ++ t = str "." ++ slash :: (dotdots dir.length ++ t) := by
      simp [str]
    have hcomps : comps (str "./" ++ dotdots dir.length ++ t) =
        .here :: (List.replicate dir.length .up ++ comps t) := by
      rw [hcons, comps_append_slash, comps_dotdots]; rfl
    unfold pathComps
    rw [hlast, hcomps]; simp
  · rfl

theorem strip_pathComps (t : CString) : strip (pathComps t) = strip (comps t) := by
  unfold pathComps
  split_ifs
  · simp
  · simp

theorem isAbspath_munge (dir : List CString) (t : CString) : isAbspath (munge dir t) = false := by
  unfold munge
  split_ifs with habs
  · rfl
  · simpa using habs

theorem munge_ne_nil {t : CString} (ht : t ≠ []) (dir : List CString) : munge dir t ≠ [] := by
  unfold munge
  split_ifs
  · simp [ht]
  · exact ht

/-! ## The invariant -/

section Invariant

variable {S F F' F'' : Fs} {D : List CString}

/-- Directories all the way up. -/
theorem WellFormed.dir_of_prefix (hF : WellFormed F) {p q : List CString} (hp : F p = some .dir)
    (hq : q <+: p) : F q = some .dir := by
  induction p using List.reverseRec with
  | nil => rw [List.prefix_nil.1 hq]; exact hp
  | append_singleton p a ih =>
    rcases List.prefix_concat_iff.1 hq with rfl | hq
    · exact hp
    · exact ih (hF.parent p a _ hp) hq

theorem Fs.set_mono {p : List CString} {nd : Node File CString} (hnew : F p = none) :
    ∀ q nd', F q = some nd' → F.set p nd q = some nd' := by
  intro q nd' hq
  unfold Fs.set
  rw [if_neg]
  · exact hq
  · rintro rfl; rw [hnew] at hq; cases hq

/-- Lookup in the source that follows only links that okapi can mirror. -/
abbrev ResS (S : Fs) : ℕ → List CString → List (Comp CString) → List CString → Prop :=
  Res readTarget S (fun _ => True) (fun d t => mirrorable d t = true)

/-- Lookup that stays inside `D`. -/
abbrev ResD (D : List CString) (F : Fs) : ℕ → List CString → List (Comp CString) → List CString → Prop :=
  Res readTarget F (fun p => D.isPrefixOf p = true) (fun _ _ => True)

theorem isPrefixOf_append (D q : List CString) : D.isPrefixOf (D ++ q) = true :=
  List.isPrefixOf_iff_prefix.2 (List.prefix_append D q)

/-- The object `nd` is what okapi makes of the object of `S` at `q`. -/
def Copy (S : Fs) (q : List CString) : Node File CString → Prop
  | .dir => S q = some .dir
  | .file f => ∃ f', S q = some (.file f') ∧ f'.content = f.content
  | .link t' => ∃ t, S q = some (.link t) ∧ t' = munge q.dropLast t

/-- **The file system while okapi runs.** -/
structure Mirror (S : Fs) (D : List CString) (F : Fs) : Prop where
  wf : WellFormed F
  ext : ∀ p nd, S p = some nd → F p = some nd
  frame : ∀ p, F p ≠ S p → ∃ q, q ≠ [] ∧ p = D ++ q
  copy : ∀ q nd, q ≠ [] → F (D ++ q) = some nd → Copy S q nd

/-- An empty directory has nothing below it. -/
theorem WellFormed.below_empty (hS : WellFormed S) (hempty : ∀ a, S (D ++ [a]) = none) {q : List CString}
    (hq : q ≠ []) : S (D ++ q) = none := by
  by_contra hne
  obtain ⟨nd, hnd⟩ := Option.ne_none_iff_exists'.1 hne
  obtain ⟨a, q', rfl⟩ := List.exists_cons_of_ne_nil hq
  have hD : S (D ++ [a]) ≠ none := by
    rcases List.eq_nil_or_concat' q' with rfl | ⟨q'', b, rfl⟩
    · rw [hnd]; simp
    · rw [← List.cons_append, ← List.append_assoc] at hnd
      rw [hS.dir_of_prefix (hS.parent _ _ _ hnd) (q := D ++ [a]) (by simp)]; simp
  exact hD (hempty a)

/-- `S` itself, when the destination is an empty directory. -/
theorem Mirror.init (hS : WellFormed S) (hempty : ∀ a, S (D ++ [a]) = none) : Mirror S D S := by
  refine ⟨hS, fun _ _ h => h, fun p h => absurd rfl h, ?_⟩
  intro q nd hq hnd
  rw [hS.below_empty hempty hq] at hnd
  cases hnd

theorem Copy.dir {q : List CString} {nd : Node File CString} (h : Copy S q nd) (hS : S q = some .dir) :
    nd = .dir := by
  cases nd with
  | dir => rfl
  | file f => obtain ⟨f', hf, -⟩ := h; rw [hS] at hf; cases hf
  | link t => obtain ⟨t', ht, -⟩ := h; rw [hS] at ht; cases ht

theorem Copy.file {q : List CString} {nd : Node File CString} {f : File} (h : Copy S q nd)
    (hS : S q = some (.file f)) : ∃ f', nd = .file f' ∧ f'.content = f.content := by
  cases nd with
  | dir => rw [Copy, hS] at h; cases h
  | file f' =>
    obtain ⟨f'', hf, hc⟩ := h
    rw [hS] at hf
    cases hf
    exact ⟨f', rfl, hc.symm⟩
  | link t => obtain ⟨t', ht, -⟩ := h; rw [hS] at ht; cases ht

theorem Copy.link {q : List CString} {nd : Node File CString} {t : CString} (h : Copy S q nd)
    (hS : S q = some (.link t)) : nd = .link (munge q.dropLast t) := by
  cases nd with
  | dir => rw [Copy, hS] at h; cases h
  | file f => obtain ⟨f', hf, -⟩ := h; rw [hS] at hf; cases hf
  | link t' =>
    obtain ⟨t'', ht, rfl⟩ := h
    rw [hS] at ht
    cases ht
    rfl

namespace Mirror

variable {q d : List CString} {a : CString} {n : ℕ}

theorem dir_of_prefix (hM : Mirror S D F) {B : List CString} (hB : F (D ++ B) = some .dir) (hq : q <+: B) :
    F (D ++ q) = some .dir :=
  hM.wf.dir_of_prefix hB ((List.prefix_append_right_inj D).2 hq)

/-- **One more object.** -/
theorem set (hM : Mirror S D F) (hD : ValidPath D) (hS : WellFormed S) {nd : Node File CString}
    (hd : F (D ++ d) = some .dir) (hnew : F (D ++ (d ++ [a])) = none)
    (hcopy : Copy S (d ++ [a]) nd) : Mirror S D (F.set (D ++ (d ++ [a])) nd) := by
  have hvalid : ValidPath (d ++ [a]) := by
    cases nd with
    | dir => exact hS.valid _ _ hcopy
    | file f => obtain ⟨f', hf, -⟩ := hcopy; exact hS.valid _ _ hf
    | link t => obtain ⟨t', ht, -⟩ := hcopy; exact hS.valid _ _ ht
  have hold : ∀ {p nd'}, F p = some nd' → F.set (D ++ (d ++ [a])) nd p = some nd' :=
    Fs.set_mono hnew _ _
  refine ⟨⟨hold hM.wf.root, ?_, ?_, ?_⟩, fun p nd' hp => hold (hM.ext p nd' hp), ?_, ?_⟩
  · intro p b nd' hp
    unfold Fs.set at hp
    split_ifs at hp with h
    · rw [← List.append_assoc] at h
      obtain ⟨rfl, -⟩ := List.append_inj' h rfl
      exact hold hd
    · exact hold (hM.wf.parent p b nd' hp)
  · intro p nd' hp
    unfold Fs.set at hp
    split_ifs at hp with h
    · rw [h]; exact validPath_append.2 ⟨hD, hvalid⟩
    · exact hM.wf.valid p nd' hp
  · intro p t hp
    unfold Fs.set at hp
    split_ifs at hp with h
    · cases hp
      obtain ⟨t', ht', rfl⟩ := hcopy
      exact munge_ne_nil (hS.target _ _ ht') _
    · exact hM.wf.target p t hp
  · intro p hp
    by_cases h : p = D ++ (d ++ [a])
    · exact ⟨d ++ [a], by simp, h⟩
    · refine hM.frame p (fun h' => hp ?_)
      unfold Fs.set
      rw [if_neg h]; exact h'
  · intro q nd' hq hp
    unfold Fs.set at hp
    split_ifs at hp with h
    · cases hp
      rw [List.append_cancel_left h]; exact hcopy
    · exact hM.copy q nd' hq hp

/-- What lookup finds inside `D` is a copy. -/
theorem reached (hM : Mirror S D F) (hD : F D = some .dir) {cs : List (Comp CString)} {r : List CString}
    (h : ResD D F n D cs (D ++ r)) : ∃ nd, F (D ++ r) = some nd ∧ (r ≠ [] → Copy S r nd) := by
  obtain ⟨nd, hnd, -⟩ := h.end_node hM.wf.parent ⟨.dir, hD, by simp⟩
  exact ⟨nd, hnd, fun hr => hM.copy r nd hr hnd⟩

theorem reached_dir (hM : Mirror S D F) (hD : F D = some .dir) {cs : List (Comp CString)} {r : List CString}
    (h : ResD D F n D cs (D ++ r)) (hr : S r = some .dir) : F (D ++ r) = some .dir := by
  by_cases hnil : r = []
  · rw [hnil, List.append_nil]; exact hD
  · obtain ⟨nd, hnd, hcopy⟩ := hM.reached hD h
    rw [hnd, (hcopy hnil).dir hr]

/-- **A mirrored link leads where its text leads**, read from the copy of its directory. -/
theorem res_link (hM : Mirror S D F) (hS : WellFormed S) {t t' : CString} {r : List CString}
    (hd : F (D ++ d) = some .dir) (ha : F (D ++ (d ++ [a])) = some (.link t'))
    (ht : S (d ++ [a]) = some (.link t)) (h : ResD D F n (D ++ linkBase d t) (pathComps t) (D ++ r)) :
    ResD D F (n + 1) (D ++ d) [.name a] (D ++ r) := by
  have hPd : ∀ q, q <+: d → D.isPrefixOf (D ++ q) = true := fun q _ => isPrefixOf_append D q
  obtain rfl : t' = munge d t := by
    have := (hM.copy _ _ (by simp) ha).link ht
    rw [List.dropLast_concat] at this
    exact Node.link.inj this
  have hbase : (readTarget (munge d t)).base (D ++ d) = D ++ d := by
    simp [Target.base, readTarget, isAbspath_munge]
  have hwalk : ResD D F n (D ++ d) (pathComps (munge d t)) (D ++ r) := by
    rw [pathComps_munge (hS.target _ _ ht)]
    unfold linkBase at h
    split_ifs at h ⊢ with habs
    · have hup : ResD D F 0 (D ++ d) (List.replicate d.length .up) (D ++ d.take (d.length - d.length)) :=
        Res.ups (Nat.le_refl _) (fun q hq => hM.dir_of_prefix hd hq) hPd
      rw [Nat.sub_self, List.take_zero] at hup
      exact .here (isPrefixOf_append D d) hd (hup.append_iff.2 h)
    · exact h
  rw [← List.append_assoc] at ha
  refine Res.link (isPrefixOf_append D d) hd ha trivial ?_ (.nil (isPrefixOf_append D r))
  rw [hbase]; exact hwalk

/-- The text of a tame link, as a path inside `D` from the root of the mirror. -/
theorem res_text (hM : Mirror S D F) (hD : F D = some .dir) {t : CString} {j : ℕ} {ns r : List CString}
    (htext : strip (comps t) = List.replicate j .up ++ names ns) (hj : j ≤ (linkBase d t).length)
    (hbase : F (D ++ linkBase d t) = some .dir) (hsource : ResS S n (linkBase d t) (pathComps t) r)
    (h : ResD D F n D (names ((linkBase d t).take ((linkBase d t).length - j) ++ ns)) (D ++ r)) :
    ResD D F n (D ++ linkBase d t) (pathComps t) (D ++ r) := by
  have hlex := (Res.lex_iff hj (fun q hq => hM.dir_of_prefix hbase hq)
    (fun q _ => isPrefixOf_append D q)).1 h
  rw [← htext, ← strip_pathComps] at hlex
  refine hlex.unstrip ?_
  by_cases hl : (pathComps t).getLast? = some .here
  · exact Or.inl (hM.reached_dir hD h (hsource.last_here hl))
  · exact Or.inr hl

end Mirror

/-! ## Progress -/

/-- All mirrored links that follow at most `k` links lead inside `D`. -/
def Complete (S : Fs) (D : List CString) (F : Fs) (k : ℕ) : Prop :=
  ∀ d a t, F (D ++ (d ++ [a])) = some (.link t) → ∀ n r, n ≤ k → ResS S n d [.name a] r →
    ResD D F n (D ++ d) [.name a] (D ++ r)

theorem Complete.mono {k k' : ℕ} (h : Complete S D F k) (hk : k' ≤ k) : Complete S D F k' :=
  fun d a t ha n r hn hr => h d a t ha n r (by omega) hr

theorem ResD.mono (hmono : ∀ p nd, F p = some nd → F' p = some nd) {n : ℕ} {cur r : List CString}
    {cs : List (Comp CString)} (h : ResD D F n cur cs r) : ResD D F' n cur cs r :=
  Res.mono hmono (fun _ h => h) (fun _ _ h => h) h

/-- **What mirroring does**: it keeps the invariant, it only adds objects, and the links it
adds lead inside `D`. -/
structure Step (S : Fs) (D : List CString) (F F' : Fs) : Prop where
  mirror : Mirror S D F'
  mono : ∀ p nd, F p = some nd → F' p = some nd
  done : ∀ d a t, F (D ++ (d ++ [a])) = none → F' (D ++ (d ++ [a])) = some (.link t) →
    ∀ n r, ResS S n d [.name a] r → ResD D F' n (D ++ d) [.name a] (D ++ r)

namespace Step

theorem refl (hM : Mirror S D F) : Step S D F F :=
  ⟨hM, fun _ _ h => h, fun d a t h h' => by rw [h] at h'; cases h'⟩

theorem trans (h₁ : Step S D F F') (h₂ : Step S D F' F'') : Step S D F F'' := by
  refine ⟨h₂.mirror, fun p nd h => h₂.mono p nd (h₁.mono p nd h), ?_⟩
  intro d a t hF hF'' n r hr
  cases hF' : F' (D ++ (d ++ [a])) with
  | none => exact h₂.done d a t hF' hF'' n r hr
  | some nd =>
    obtain rfl : nd = .link t := Option.some.inj ((h₂.mono _ _ hF').symm.trans hF'')
    exact (h₁.done d a t hF hF' n r hr).mono h₂.mono

/-- Links that led somewhere still do. -/
theorem complete (h : Step S D F F') {k : ℕ} (hk : Complete S D F k) : Complete S D F' k := by
  intro d a t ha n r hn hr
  cases hF : F (D ++ (d ++ [a])) with
  | none => exact h.done d a t hF ha n r hr
  | some nd =>
    obtain rfl : nd = .link t := Option.some.inj ((h.mono _ _ hF).symm.trans ha)
    exact (hk d a t hF n r hn hr).mono h.mono

/-- One more object that is no link. -/
theorem set (hM : Mirror S D F) (hD : ValidPath D) (hS : WellFormed S) {d : List CString} {a : CString}
    {nd : Node File CString} (hd : F (D ++ d) = some .dir) (hnew : F (D ++ (d ++ [a])) = none)
    (hcopy : Copy S (d ++ [a]) nd) (hnl : ∀ t, nd ≠ .link t) :
    Step S D F (F.set (D ++ (d ++ [a])) nd) := by
  refine ⟨hM.set hD hS hd hnew hcopy, Fs.set_mono hnew, ?_⟩
  intro d' a' t hF hF'
  unfold Fs.set at hF'
  split_ifs at hF' with h
  · exact absurd (Option.some.inj hF') (hnl t)
  · rw [hF] at hF'; cases hF'

end Step

end Invariant

end Ptu
