import Ptu.Proof.Okapi

/-!
# What mirroring can do

The functions of `okapi.c` level by level, for every file system: where the recursion is called, with
what, and what else can come of a call (`createMirrorDir_cases`, `createMirrorTarget_cases`,
`mirrorSymlink_cases`, `createMirrorFile_cases`). **Mirroring only adds objects of the source to the
destination** (`Grown`, `mirrorSymlink_grows`), and nothing is lost (`Grown.mono`).
-/

namespace Ptu

open Pathname

variable {h : Host} {S F F' F'' : Fs} {src dst X Y T f : CString} {p : List CString} {dir : Bool}
  {r : MirrorSymlink}

/-! ## Nothing is lost -/

/-- Every object of `F` is in `F'`, unchanged. -/
def Extends (F F' : Fs) : Prop := ∀ q nd, F q = some nd → F' q = some nd

theorem Extends.refl (F : Fs) : Extends F F := fun _ _ hq => hq

theorem Extends.trans (h₁ : Extends F F') (h₂ : Extends F' F'') : Extends F F'' :=
  fun q nd hq => h₂ q nd (h₁ q nd hq)

theorem lookup_mono (hF : Extends F F') {b : ℕ} {follow : Bool} {cwd : List CString}
    (hl : lookup F b follow cwd X = some p) : lookup F' b follow cwd X = some p := by
  unfold lookup at hl ⊢
  split_ifs at hl ⊢ with hnil
  · exact walk_mono hF hl
  · exact walk_mono hF hl

theorem lstat_mono (hF : Extends F F') {nd : Node File CString} (hl : lstat h F X = some nd) :
    lstat h F' X = some nd := by
  obtain ⟨q, hq, hnd⟩ := Option.bind_eq_some_iff.1 hl
  exact Option.bind_eq_some_iff.2 ⟨q, lookup_mono hF hq, hF q nd hnd⟩

theorem realpath_mono (hF : Extends F F') (hl : realpath h F X = some p) : realpath h F' X = some p :=
  lookup_mono hF hl

/-- A new object has a new name. -/
theorem newEntry_eq_none (hnew : newEntry h F dir X = .ok p) : F p = none := by
  unfold newEntry at hnew
  cases hwalk : walk readTarget F (fun _ => true) true h.maxLinks [] (comps X).dropLast with
  | none => simp [hwalk] at hnew
  | some d =>
    by_cases hd : isDir F d = true
    · simp only [hwalk, hd, if_true] at hnew
      cases hlast : (comps X).getLast? with
      | none => simp [hlast] at hnew
      | some c =>
        cases c with
        | here => simp [hlast] at hnew
        | up => simp [hlast] at hnew
        | name a =>
          simp only [hlast] at hnew
          split_ifs at hnew with hsome
          obtain rfl := Except.ok.inj hnew
          simpa using hsome
    · simp [hwalk, hd] at hnew

theorem newEntry_extends (hnew : newEntry h F dir X = .ok p) (nd : Node File CString) : Extends F (F.set p nd) :=
  Fs.set_mono (newEntry_eq_none hnew)

theorem mkdir_extends (h : Host) (F : Fs) (X : CString) : Extends F (mkdir h F X) := by
  unfold mkdir
  cases hnew : newEntry h F true X with
  | error e => exact .refl F
  | ok p => exact newEntry_extends hnew .dir

theorem symlink_extends (h : Host) (F : Fs) (text X : CString) : Extends F (symlink h F text X) := by
  unfold symlink
  cases hnew : newEntry h F false X with
  | error e => exact .refl F
  | ok p => exact newEntry_extends hnew (.link text)

/-- What lookup finds cannot be created. -/
theorem newEntry_of_realpath (hX : isAbspath X = true) (hreal : realpath h F X = some p) :
    newEntry h F dir X = .error .eexist := by
  unfold realpath lookup at hreal
  rw [if_neg (ne_nil_of_isAbspath hX), if_pos hX] at hreal
  obtain ⟨n, hn, hres⟩ := walk_iff_res.1 hreal
  have hres' : Resolves F n [] (comps X ++ if X.getLast? = some slash then [.here] else []) p :=
    hres.mono (fun _ _ h => h) (fun _ _ => trivial) (fun _ _ h => h)
  obtain ⟨n₁, n₂, q, rfl, h₁, h₂⟩ := hres'.split
  unfold newEntry
  rcases List.eq_nil_or_concat' (comps X) with hnil | ⟨cs, c, hc⟩
  · -- the root directory
    rw [hnil] at h₁ ⊢
    have hroot : F [] = some .dir := by
      cases h₁ with
      | nil _ =>
        have hlast : X.getLast? = some slash := by
          rw [List.getLast?_eq_some_getLast (ne_nil_of_isAbspath hX),
            eq_slash_of_comps_nil hnil _ (List.getLast_mem _)]
        rw [if_pos hlast] at h₂
        exact h₂.dir_of_ne_nil (by simp)
    have hwalk : walk readTarget F (fun _ => true) true h.maxLinks [] [] = some [] := walk_nil rfl
    simp only [List.dropLast_nil, hwalk, isDir_iff.2 hroot, if_true, List.getLast?_nil]
  · rw [hc] at h₁ ⊢
    obtain ⟨m₁, m₂, d, rfl, hd₁, hd₂⟩ := h₁.split
    have hd : F d = some .dir := hd₂.dir_of_ne_nil (by simp)
    have hwalk := walk_of_res (b := h.maxLinks) (Resolves.walkable hd₁) (by omega)
    rw [List.dropLast_concat, List.getLast?_concat]
    simp only [hwalk, isDir_iff.2 hd, if_true]
    cases c with
    | here => rfl
    | up => rfl
    | name a =>
      have hsome : (F (d ++ [a])).isSome = true := by
        cases hd₂ with
        | name _ _ ha _ _ => rw [ha]; rfl
        | link _ _ ha _ _ _ => rw [ha]; rfl
      simp only [hsome, if_true]

/-- A hard link or a copy is a new file. -/
theorem linkOrCopy_extends {nd : Node File CString} (hY : isAbspath Y = true) (hX : lstat h F X = some nd)
    (hok : linkOrCopy h F X Y = .ok F') : Extends F F' := by
  -- a name that can be created, or cannot for another reason, leads nowhere
  have hreal : newEntry h F false Y ≠ .error .eexist → realpath h F Y = none := by
    intro hne
    by_contra hsome
    obtain ⟨q, hq⟩ := Option.ne_none_iff_exists'.1 hsome
    exact hne (newEntry_of_realpath hY hq)
  unfold linkOrCopy link at hok
  rw [hX] at hok
  cases hnew : newEntry h F false Y with
  | error err =>
    cases err with
    | eexist =>
      simp only [hnew] at hok
      rw [← Except.ok.inj hok]
      exact .refl F
    | other =>
      simp only [hnew, okapiCopyFile, hreal (by simp [hnew])] at hok
      cases hok
  | ok q =>
    simp only [hnew] at hok
    by_cases hlink : (h.hardLink X Y && nd != .dir) = true
    · rw [if_pos hlink] at hok
      rw [← Except.ok.inj hok]
      exact newEntry_extends hnew nd
    · rw [if_neg hlink] at hok
      simp only [okapiCopyFile, hreal (by simp [hnew]), hnew] at hok
      rw [← Except.ok.inj hok]
      exact newEntry_extends hnew _

theorem linkOrCopy_ne_overflow (h : Host) (F : Fs) (X Y : CString) : linkOrCopy h F X Y ≠ .error .stackOverflow := by
  have hcopy : okapiCopyFile h F X Y ≠ .error .stackOverflow := by
    unfold okapiCopyFile
    cases realpath h F Y with
    | none => cases newEntry h F false Y <;> simp
    | some p =>
      dsimp only
      split
      · simp
      · simp
  unfold linkOrCopy
  split
  · simp
  · simp
  · exact hcopy

/-! ## The file system grows -/

/-- What may become of the file system in mirroring: directories and links of the source are made in
the destination under their own names, and files are copied to their canonical paths. -/
inductive Grown (h : Host) (src dst : CString) (S : Fs) : Fs → Prop
  | refl : Grown h src dst S S
  | dir {F : Fs} {Y : CString} (hF : Grown h src dst S F) (hl : lstat h F (src ++ Y) = some .dir) :
      Grown h src dst S (mkdir h F (dst ++ Y))
  | link {F : Fs} {Y t text : CString} {d : List CString} (hF : Grown h src dst S F)
      (hl : lstat h F (src ++ Y) = some (.link t)) (hreal : realpath h F (dirname (src ++ Y)) = some d)
      (htext : linkText src d t = .ok text) : Grown h src dst S (symlink h F text (dst ++ Y))
  | file {F F' : Fs} {T original : CString} {c : File} (hF : Grown h src dst S F)
      (hl : lstat h F T = some (.file c)) (hcanon : canonicalizeAbspath T = .ok original)
      (hcopy : linkOrCopy h F T (dst ++ original.drop src.length) = .ok F') : Grown h src dst S F'

theorem Grown.trans (h₁ : Grown h src dst S F) (h₂ : Grown h src dst F F') : Grown h src dst S F' := by
  induction h₂ with
  | refl => exact h₁
  | dir _ hl ih => exact .dir ih hl
  | link _ hl hreal htext ih => exact .link ih hl hreal htext
  | file _ hl hcanon hcopy ih => exact .file ih hl hcanon hcopy

theorem Grown.mono (hF : Grown h src dst S F) (hdst : isAbspath dst = true) : Extends S F := by
  induction hF with
  | refl => exact .refl S
  | dir _ _ ih => exact ih.trans (mkdir_extends h _ _)
  | link _ _ _ _ ih => exact ih.trans (symlink_extends h _ _ _)
  | file _ hl _ hcopy ih => exact ih.trans (linkOrCopy_extends (isAbspath_append _ hdst) hl hcopy)

/-! ## Other errors -/

theorem bind_ne_overflow {α β : Type} {x : Except Fatal α} {k : α → Except Fatal β} (hx : x ≠ .error .stackOverflow)
    (hk : ∀ a, k a ≠ .error .stackOverflow) : x >>= k ≠ .error .stackOverflow := by
  cases x with
  | error e =>
    intro he
    exact hx (congrArg Except.error (Except.error.inj he))
  | ok a => exact hk a

theorem newPathFromAbspath_ne_overflow (X : CString) : newPathFromAbspath X ≠ .error .stackOverflow := by
  unfold newPathFromAbspath
  split_ifs
  · simp
  · simp

theorem canonicalizeAbspath_ne_overflow (T : CString) : canonicalizeAbspath T ≠ .error .stackOverflow :=
  bind_ne_overflow (newPathFromAbspath_ne_overflow T) fun p => by simp [pure, Except.pure]

/-! ## One call -/

/-- **What a round of `create_mirror_dirs` can do**: call the recursion on a link that has no entry
in the destination yet, or something without it. -/
theorem createMirrorDir_cases (h : Host) (src dst : CString) (F : Fs) (dn : CString) :
    (lstat h F (dst ++ dn) = none ∧ (∃ t, lstat h F (src ++ dn) = some (.link t)) ∧
      ∀ r, createMirrorDir h r src dst F dn = r dn src dst F) ∨
    ∃ x, (∀ r, createMirrorDir h r src dst F dn = x) ∧ x ≠ .error .stackOverflow ∧
      ∀ F', x = .ok F' → Grown h src dst F F' := by
  unfold createMirrorDir
  by_cases hdst : (lstat h F (dst ++ dn)).isSome = true
  · simp only [hdst, if_true]
    exact Or.inr ⟨_, fun _ => rfl, by simp, fun F' hF' => Except.ok.inj hF' ▸ .refl⟩
  · simp only [hdst, Bool.false_eq_true, if_false]
    by_cases habs : isAbspath (src ++ dn) = true
    · simp only [habs, Bool.not_true, Bool.false_eq_true, if_false]
      cases hsrc : lstat h F (src ++ dn) with
      | none => exact Or.inr ⟨_, fun _ => rfl, by simp, fun F' hF' => Except.ok.inj hF' ▸ .refl⟩
      | some nd =>
        cases nd with
        | link t => exact Or.inl ⟨by simpa using hdst, ⟨t, rfl⟩, fun _ => rfl⟩
        | dir => exact Or.inr ⟨_, fun _ => rfl, by simp, fun F' hF' => Except.ok.inj hF' ▸ .dir .refl hsrc⟩
        | file c => exact Or.inr ⟨_, fun _ => rfl, by simp, fun F' hF' => by cases hF'⟩
    · simp only [habs]
      exact Or.inr ⟨_, fun _ => rfl, by simp, fun F' hF' => by cases hF'⟩

/-- A target that is no link. -/
theorem createMirrorTarget_object {nd : Node File CString} (hpre : startsWith T src = true)
    (habs : isAbspath (T.drop src.length) = true) (hl : lstat h F T = some nd) (hnd : ∀ t, nd ≠ .link t)
    (r : MirrorSymlink) :
    createMirrorTarget h r T src dst F = canonicalizeAbspath T >>= fun original =>
      if startsWith original src && isAbspath (original.drop src.length) then
        createMirrorDirs h r (original.drop src.length) src dst (decide (nd ≠ .dir)) F >>= fun F' =>
          if nd = .dir then .ok F' else linkOrCopy h F' T (dst ++ original.drop src.length)
      else .error .assertion := by
  unfold createMirrorTarget
  simp only [hpre, habs, hl, Bool.not_true, Bool.false_eq_true, if_false]
  cases nd with
  | link t => exact absurd rfl (hnd t)
  | dir =>
    refine congrArg _ (funext fun original => ?_)
    cases startsWith original src <;> cases isAbspath (original.drop src.length)
    · rfl
    · rfl
    · rfl
    · exact (bind_pure _).symm
  | file c =>
    refine congrArg _ (funext fun original => ?_)
    cases startsWith original src <;> cases isAbspath (original.drop src.length) <;> rfl

/-- **What mirroring a target can do**: call the recursion on a link, make the directories of another
object and copy it, or something without the recursion. -/
theorem createMirrorTarget_cases (h : Host) (src dst T : CString) (F : Fs) :
    (∃ t, lstat h F T = some (.link t) ∧
      ∀ r, createMirrorTarget h r T src dst F = r (T.drop src.length) src dst F) ∨
    (∃ nd original, lstat h F T = some nd ∧ (∀ t, nd ≠ .link t) ∧ canonicalizeAbspath T = .ok original ∧
      ∀ r, createMirrorTarget h r T src dst F =
        createMirrorDirs h r (original.drop src.length) src dst (decide (nd ≠ .dir)) F >>= fun F' =>
          if nd = .dir then .ok F' else linkOrCopy h F' T (dst ++ original.drop src.length)) ∨
    ∃ x, (∀ r, createMirrorTarget h r T src dst F = x) ∧ x ≠ .error .stackOverflow ∧ ∀ F', x = .ok F' → F' = F := by
  have hfail : ∀ e : Fatal, e ≠ .stackOverflow → (Except.error e : Except Fatal Fs) ≠ .error .stackOverflow ∧
      ∀ F', (Except.error e : Except Fatal Fs) = .ok F' → F' = F := by
    intro e he
    exact ⟨fun h => he (Except.error.inj h), fun F' hF' => by cases hF'⟩
  by_cases hguard : startsWith T src = true ∧ isAbspath (T.drop src.length) = true
  · obtain ⟨hpre, habs⟩ := hguard
    cases hl : lstat h F T with
    | none =>
      refine Or.inr (Or.inr ⟨.ok F, fun r => ?_, by simp, fun F' hF' => (Except.ok.inj hF').symm⟩)
      unfold createMirrorTarget
      simp only [hpre, habs, hl, Bool.not_true, Bool.false_eq_true, if_false]
      rfl
    | some nd =>
      by_cases hlink : ∃ t, nd = .link t
      · obtain ⟨t, rfl⟩ := hlink
        refine Or.inl ⟨t, rfl, fun r => ?_⟩
        unfold createMirrorTarget
        simp only [hpre, habs, hl, Bool.not_true, Bool.false_eq_true, if_false]
      · have hnd : ∀ t, nd ≠ .link t := fun t ht => hlink ⟨t, ht⟩
        have hobject : ∀ r, createMirrorTarget h r T src dst F = _ :=
          createMirrorTarget_object hpre habs hl hnd
        cases hcanon : canonicalizeAbspath T with
        | error e =>
          have he : e ≠ .stackOverflow := fun he => canonicalizeAbspath_ne_overflow T (by rw [hcanon, he])
          exact Or.inr (Or.inr ⟨.error e, fun r => by rw [hobject, hcanon]; rfl, hfail e he⟩)
        | ok original =>
          rw [hcanon] at hobject
          by_cases hok : (startsWith original src && isAbspath (original.drop src.length)) = true
          · exact Or.inr (Or.inl ⟨nd, original, rfl, hnd, rfl, fun r => (hobject r).trans (if_pos hok)⟩)
          · exact Or.inr (Or.inr ⟨_, fun r => (hobject r).trans (if_neg hok), hfail _ (by simp)⟩)
  · refine Or.inr (Or.inr ⟨.error .assertion, fun r => ?_, hfail _ (by simp)⟩)
    unfold createMirrorTarget
    cases hpre : startsWith T src with
    | false => rfl
    | true =>
      have habs : isAbspath (T.drop src.length) = false := by
        rw [Bool.eq_false_iff]
        exact fun habs => hguard ⟨hpre, habs⟩
      simp only [habs]
      rfl

/-- **What a call can do** on its first level. -/
theorem mirrorSymlink_cases (h : Host) (src dst X : CString) (F : Fs) :
    (∃ t d, lstat h F (src ++ X) = some (.link t) ∧ realpath h F (dirname (src ++ X)) = some d ∧
      isAbspath dst = true ∧
      ∀ n, createMirrorSymlinkAndTarget h (n + 1) X src dst F =
        createMirrorDirs h (createMirrorSymlinkAndTarget h n) X src dst true F >>= fun fs =>
          linkText src d t >>= fun text =>
            createMirrorTarget h (createMirrorSymlinkAndTarget h n) (targetAbspath d t) src dst
              (symlink h fs text (dst ++ X))) ∨
    ∃ e, e ≠ .stackOverflow ∧ ∀ n, createMirrorSymlinkAndTarget h (n + 1) X src dst F = .error e := by
  by_cases hguard : isAbspath X = true ∧ isAbspath dst = true ∧ isAbspath (src ++ X) = true
  · obtain ⟨hX, hdst, hsrc⟩ := hguard
    have hfail : ∀ e, e ≠ .stackOverflow → (∀ n, createMirrorSymlinkAndTarget h (n + 1) X src dst F = .error e) →
        ∃ e, e ≠ .stackOverflow ∧ ∀ n, createMirrorSymlinkAndTarget h (n + 1) X src dst F = .error e :=
      fun e he hrun => ⟨e, he, hrun⟩
    by_cases hlink : ∃ t, lstat h F (src ++ X) = some (.link t)
    · obtain ⟨t, hl⟩ := hlink
      by_cases ht : t = []
      · refine Or.inr (hfail .assertion (by simp) fun n => ?_)
        unfold createMirrorSymlinkAndTarget
        simp only [hX, hdst, hsrc, hl, ht, Bool.not_true, Bool.or_self, Bool.false_eq_true, if_false]
        rfl
      · cases hreal : realpath h F (dirname (src ++ X)) with
        | some d => exact Or.inl ⟨t, d, hl, rfl, hdst, fun n => mirrorSymlink_succ hX hdst hsrc hl ht hreal⟩
        | none =>
          refine Or.inr (hfail .assertion (by simp) fun n => ?_)
          unfold createMirrorSymlinkAndTarget
          simp only [hX, hdst, hsrc, hl, ht, hreal, Bool.not_true, Bool.or_self, Bool.false_eq_true, if_false]
          rfl
    · cases hl : lstat h F (src ++ X) with
      | none =>
        refine Or.inr (hfail (.exit (str "FATAL ERROR: lstat('" ++ (src ++ X) ++ str "') failed\n")) (by simp)
          fun n => ?_)
        unfold createMirrorSymlinkAndTarget
        simp only [hX, hdst, hsrc, hl, Bool.not_true, Bool.or_self, Bool.false_eq_true, if_false]
        rfl
      | some nd =>
        refine Or.inr (hfail .assertion (by simp) fun n => ?_)
        unfold createMirrorSymlinkAndTarget
        simp only [hX, hdst, hsrc, hl, Bool.not_true, Bool.or_self, Bool.false_eq_true, if_false]
        cases nd with
        | link t => exact absurd ⟨t, hl⟩ hlink
        | dir => rfl
        | file c => rfl
  · refine Or.inr ⟨.assertion, by simp, fun n => ?_⟩
    unfold createMirrorSymlinkAndTarget
    cases hX : isAbspath X with
    | false => rfl
    | true =>
      cases hdst : isAbspath dst with
      | false => rfl
      | true =>
        have hsrc : isAbspath (src ++ X) = false := by
          rw [Bool.eq_false_iff]
          exact fun hsrc => hguard ⟨hX, hdst, hsrc⟩
        simp only [hsrc]
        rfl

theorem createMirrorDirs_assert (hguard : ¬ (isAbspath dst = true ∧ isAbspath X = true)) (r : MirrorSymlink)
    (pop : Bool) : createMirrorDirs h r X src dst pop F = .error .assertion := by
  unfold createMirrorDirs newPathFromAbspath
  cases hdst : isAbspath dst with
  | false => rfl
  | true =>
    have hX : isAbspath X = false := by
      rw [Bool.eq_false_iff]
      exact fun hX => hguard ⟨hdst, hX⟩
    simp only [hX]
    rfl

/-- **What `create_mirror_file` can do**: follow a link, make the directories of another object and
copy it, or something without the recursion. -/
theorem createMirrorFile_cases (h : Host) (src dst f : CString) (S : Fs) :
    (∃ t, lstat h S (src ++ f) = some (.link t) ∧
      ∀ n, createMirrorFile h n f src dst S = createMirrorSymlinkAndTarget h n f src dst S) ∨
    (∃ nd, lstat h S (src ++ f) = some nd ∧ (∀ t, nd ≠ .link t) ∧ isAbspath dst = true ∧
      ∀ n, createMirrorFile h n f src dst S =
        createMirrorDirs h (createMirrorSymlinkAndTarget h n) f src dst (decide (nd ≠ .dir)) S >>= fun F =>
          if nd = .dir then .ok F else linkOrCopy h F (src ++ f) (dst ++ f)) ∨
    ∃ x, (∀ n, createMirrorFile h n f src dst S = x) ∧ x ≠ .error .stackOverflow ∧ ∀ F, x = .ok F → F = S := by
  have hstays : (Except.ok S : Except Fatal Fs) ≠ .error .stackOverflow ∧
      ∀ F, (Except.ok S : Except Fatal Fs) = .ok F → F = S :=
    ⟨by simp, fun F hF => (Except.ok.inj hF).symm⟩
  unfold createMirrorFile
  by_cases hguard : isAbspath f = true ∧ isAbspath dst = true ∧ isAbspath (src ++ f) = true
  · obtain ⟨hf, hdst, hsrc⟩ := hguard
    simp only [hf, hdst, hsrc, Bool.not_true, Bool.or_self, Bool.false_eq_true, if_false]
    cases hl : lstat h S (src ++ f) with
    | none => exact Or.inr (Or.inr ⟨.ok S, fun n => rfl, hstays⟩)
    | some nd =>
      cases nd with
      | link t =>
        by_cases hfresh : isFresh h S (dst ++ f) (stat h S (src ++ f)) = true
        · exact Or.inr (Or.inr ⟨.ok S, fun n => if_pos hfresh, hstays⟩)
        · exact Or.inl ⟨t, rfl, fun n => if_neg hfresh⟩
      | dir =>
        refine Or.inr (Or.inl ⟨.dir, rfl, by simp, trivial, fun n => ?_⟩)
        exact (bind_pure _).symm
      | file c =>
        by_cases hfresh : isFresh h S (dst ++ f) (some (.file c)) = true
        · exact Or.inr (Or.inr ⟨.ok S, fun n => if_pos hfresh, hstays⟩)
        · exact Or.inr (Or.inl ⟨.file c, rfl, by simp, trivial, fun n => if_neg hfresh⟩)
  · refine Or.inr (Or.inr ⟨.error .assertion, fun n => ?_, by simp, fun F hF => by cases hF⟩)
    cases hf : isAbspath f with
    | false => rfl
    | true =>
      cases hdst : isAbspath dst with
      | false => rfl
      | true =>
        have hsrc : isAbspath (src ++ f) = false := by
          rw [Bool.eq_false_iff]
          exact fun hsrc => hguard ⟨hf, hdst, hsrc⟩
        simp only [hsrc]
        rfl

/-! ## What is left behind -/

/-- Every result of `r` has grown. -/
def CallGrows (h : Host) (src dst : CString) (r : MirrorSymlink) : Prop :=
  ∀ X F F', r X src dst F = .ok F' → Grown h src dst F F'

theorem createMirrorDir_grown (hr : CallGrows h src dst r) (hok : createMirrorDir h r src dst F Y = .ok F') :
    Grown h src dst F F' := by
  rcases createMirrorDir_cases h src dst F Y with ⟨-, -, hcall⟩ | ⟨x, hx, -, hgrown⟩
  · rw [hcall] at hok
    exact hr _ _ _ hok
  · rw [hx] at hok
    exact hgrown F' hok

theorem createMirrorDirs_grown {pop : Bool} (hr : CallGrows h src dst r)
    (hok : createMirrorDirs h r X src dst pop F = .ok F') : Grown h src dst F F' := by
  by_cases hguard : isAbspath dst = true ∧ isAbspath X = true
  · rw [createMirrorDirs_eq hguard.1 hguard.2] at hok
    refine foldlM_invariant ?_ .refl hok
    intro F₁ i F₂ hF₁ _ hround
    exact hF₁.trans (createMirrorDir_grown hr hround)
  · rw [createMirrorDirs_assert hguard] at hok
    cases hok

theorem createMirrorTarget_grown (hdst : isAbspath dst = true) (hr : CallGrows h src dst r)
    (hok : createMirrorTarget h r T src dst F = .ok F') : Grown h src dst F F' := by
  rcases createMirrorTarget_cases h src dst T F with
    ⟨t, -, hcall⟩ | ⟨nd, original, hl, hnd, hcanon, hdirs⟩ | ⟨x, hx, -, hsame⟩
  · rw [hcall] at hok
    exact hr _ _ _ hok
  · rw [hdirs] at hok
    obtain ⟨F₁, hdirs, hok⟩ := bind_eq_ok.1 hok
    have hgrown := createMirrorDirs_grown hr hdirs
    cases nd with
    | link t => exact absurd rfl (hnd t)
    | dir =>
      rw [← Except.ok.inj hok]
      exact hgrown
    | file c => exact hgrown.trans (.file .refl (lstat_mono (hgrown.mono hdst) hl) hcanon hok)
  · rw [hx] at hok
    rw [hsame F' hok]
    exact .refl

theorem mirrorSymlink_grows (h : Host) (src dst : CString) (n : ℕ) :
    CallGrows h src dst (createMirrorSymlinkAndTarget h n) := by
  induction n with
  | zero =>
    intro X F F' hok
    cases hok
  | succ n ih =>
    intro X F F' hok
    rcases mirrorSymlink_cases h src dst X F with ⟨t, d, hl, hreal, hdst, hrun⟩ | ⟨e, -, hrun⟩
    · rw [hrun] at hok
      obtain ⟨F₁, hdirs, hok⟩ := bind_eq_ok.1 hok
      obtain ⟨text, htext, hok⟩ := bind_eq_ok.1 hok
      have hgrown := createMirrorDirs_grown ih hdirs
      have hext := hgrown.mono hdst
      have hlink := hgrown.link (lstat_mono hext hl) (realpath_mono hext hreal) htext
      exact hlink.trans (createMirrorTarget_grown hdst ih hok)
    · rw [hrun] at hok
      cases hok

theorem mirrorSymlink_extends {n : ℕ} (hok : createMirrorSymlinkAndTarget h n X src dst F = .ok F') :
    Extends F F' := by
  refine (mirrorSymlink_grows h src dst n X F F' hok).mono ?_
  cases n with
  | zero => cases hok
  | succ n =>
    rcases mirrorSymlink_cases h src dst X F with ⟨t, d, -, -, hdst, -⟩ | ⟨e, -, hrun⟩
    · exact hdst
    · rw [hrun] at hok
      cases hok

end Ptu
