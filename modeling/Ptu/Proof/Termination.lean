import Ptu.Lib.Fuel
import Ptu.Proof.Growth

/-!
# Does mirroring end?

`create_mirror_symlink_and_target` calls itself on the target of a link that is a link again, and on
links among the directories of the link and of its target, if they have no entry in the destination.

* `linkChain`: a path, the target of the link at this path, the target of the link there, and so on.
* `mirrorDirLink_returns`, `createMirrorDirs_returns`: links that lead to directories are mirrored, whatever
  is in the destination.
* `createMirrorTarget_returns`, `createMirrorTarget_endless`: what a chain with and without an end comes to.
* `mirror_terminates_iff`: **`create_mirror_file` ends if and only if the chain of links from its
  argument does.**
-/

namespace Ptu

open Pathname Fuel

variable {h : Host} {S F : Fs} {src dst X Y T f : CString} {r r' : MirrorSymlink}

/-! ## More fuel -/

theorem createMirrorDirs_below {pop : Bool} (hr : ∀ X F, Below .stackOverflow (r X src dst F) (r' X src dst F)) :
    Below .stackOverflow (createMirrorDirs h r X src dst pop F) (createMirrorDirs h r' X src dst pop F) := by
  by_cases hguard : isAbspath dst = true ∧ isAbspath X = true
  · rw [createMirrorDirs_eq hguard.1 hguard.2, createMirrorDirs_eq hguard.1 hguard.2]
    apply Below.foldlM
    intro F i
    rcases createMirrorDir_cases h src dst F (render ((mirrorNames X pop).take (i + 1))) with
      ⟨-, -, hcall⟩ | ⟨x, hx, -⟩
    · rw [hcall, hcall]
      exact hr _ _
    · rw [hx, hx]
      exact Below.refl x
  · rw [createMirrorDirs_assert hguard, createMirrorDirs_assert hguard]
    exact Below.refl _

theorem createMirrorTarget_below (hr : ∀ X F, Below .stackOverflow (r X src dst F) (r' X src dst F)) :
    Below .stackOverflow (createMirrorTarget h r T src dst F) (createMirrorTarget h r' T src dst F) := by
  rcases createMirrorTarget_cases h src dst T F with ⟨t, -, hcall⟩ | ⟨nd, original, -, -, -, hdirs⟩ | ⟨x, hx, -⟩
  · rw [hcall, hcall]
    exact hr _ _
  · rw [hdirs, hdirs]
    exact (createMirrorDirs_below hr).bind fun F' => Below.refl _
  · rw [hx, hx]
    exact Below.refl x

/-- **More fuel does not change a result.** -/
theorem mirrorSymlink_steady (h : Host) (src dst : CString) :
    ∀ X F, Steady .stackOverflow (createMirrorSymlinkAndTarget h · X src dst F) := by
  intro X F n
  induction n generalizing X F with
  | zero => exact below_error _
  | succ n ih =>
    rcases mirrorSymlink_cases h src dst X F with ⟨t, d, -, -, -, hrun⟩ | ⟨e, -, hrun⟩
    · show Below .stackOverflow (createMirrorSymlinkAndTarget h (n + 1) X src dst F)
        (createMirrorSymlinkAndTarget h (n + 1 + 1) X src dst F)
      rw [hrun n, hrun (n + 1)]
      refine (createMirrorDirs_below ih).bind fun fs => ?_
      exact (Below.refl _).bind fun text => createMirrorTarget_below ih
    · show Below .stackOverflow (createMirrorSymlinkAndTarget h (n + 1) X src dst F)
        (createMirrorSymlinkAndTarget h (n + 1 + 1) X src dst F)
      rw [hrun n, hrun (n + 1)]
      exact Below.refl _

theorem createMirrorDirs_steady (h : Host) (src dst X : CString) (pop : Bool) (F : Fs) :
    Steady .stackOverflow fun n => createMirrorDirs h (createMirrorSymlinkAndTarget h n) X src dst pop F :=
  fun n => createMirrorDirs_below fun X F => mirrorSymlink_steady h src dst X F n

/-! ## The chain of links -/

/-- The path of the target, if there is a link at `X`. -/
def linkTarget (h : Host) (S : Fs) (X : CString) : Option CString :=
  match lstat h S X with
  | some (.link t) => (realpath h S (dirname X)).map fun d => targetAbspath d t
  | _ => none

/-- **The chain of links from `f`**: each path is the target of the link at the one before. -/
def linkChain (h : Host) (S : Fs) (f : CString) : ℕ → Option CString
  | 0 => some f
  | n + 1 => (linkChain h S f n).bind (linkTarget h S)

theorem linkTarget_eq_some : linkTarget h S X = some T ↔
    ∃ t d, lstat h S X = some (.link t) ∧ realpath h S (dirname X) = some d ∧ T = targetAbspath d t := by
  unfold linkTarget
  constructor
  · intro hT
    split at hT
    · rename_i t hl
      obtain ⟨d, hreal, rfl⟩ := Option.map_eq_some_iff.1 hT
      exact ⟨t, d, hl, hreal, rfl⟩
    · cases hT
  · rintro ⟨t, d, hl, hreal, rfl⟩
    rw [hl, hreal]
    rfl

theorem linkTarget_eq_none {nd : Node File CString} (hl : lstat h S X = some nd) (hnd : ∀ t, nd ≠ .link t) :
    linkTarget h S X = none := by
  unfold linkTarget
  rw [hl]
  cases nd with
  | link t => exact absurd rfl (hnd t)
  | dir => rfl
  | file c => rfl

theorem linkChain_succ (hT : linkTarget h S f = some T) (n : ℕ) : linkChain h S f (n + 1) = linkChain h S T n := by
  induction n with
  | zero => exact hT
  | succ n ih => exact congrArg (·.bind (linkTarget h S)) ih

/-- The links on the way to `X` are tame, and their rewritten texts fit. -/
def LinksFit (h : Host) (S : Fs) (X : CString) : Prop :=
  ∀ x ∈ followed readTarget S h.maxLinks [] (pathComps X), tame x.1 x.2 = true ∧ fitsBuffer x.1 x.2 = true

section Objects

variable {s : CString} {B ns : List CString} {j : ℕ}

theorem LinksFit.res (hfit : LinksFit h S X) {cs ds : List (Comp CString)} (hcs : pathComps X = cs ++ ds) {m : ℕ}
    {e : List CString} (hres : Resolves S m [] cs e) (hm : m ≤ h.maxLinks) : ResS S m [] cs e := by
  refine (res_followed hres hm).mono (fun _ _ h => h) (fun _ h => h)
    fun d t (hx : (d, t) ∈ followed readTarget S h.maxLinks [] (cs ++ ds)) => ?_
  rw [← hcs] at hx
  exact mirrorable_iff.2 (hfit (d, t) hx)

/-- A path that `lstat` finds no directory at ends in a name. -/
theorem TextAt.object (hX : TextAt S X s B j ns) (hS : WellFormed S) (hs : s ≠ []) (hfit : LinksFit h S X)
    {nd : Node File CString} (hl : lstat h S X = some nd) (hnd : nd ≠ .dir) :
    ∃ ns' a d m, m ≤ h.maxLinks ∧ PathAt S X B j ns' a d m ∧ S (d ++ [a]) = some nd := by
  obtain ⟨cs, a, m, d, hcs, hres, hd, hm, hnode⟩ := lstat_inv hS hX.abs hl hnd
  -- the last name is in the text of the link
  obtain ⟨us, x, hus⟩ := (List.eq_nil_or_concat' (pathComps s)).resolve_left (pathComps_ne_nil hs)
  have hsplit : (names B ++ us) ++ [x] = cs ++ [.name a] := by
    rw [← hcs, hX.text, hus, List.append_assoc]
  obtain ⟨rfl, hx⟩ := List.append_inj' hsplit rfl
  obtain rfl := List.head_eq_of_cons_eq hx
  have hparent := (hX.full_iff hS).1 (hfit.res hcs hres hm)
  obtain ⟨ns', -, hpath⟩ := hX.pathAt hS hus hparent hd
  exact ⟨ns', a, d, m, hm, hpath, hnode⟩

/-- A path that `lstat` finds a directory at. -/
theorem TextAt.directory (hX : TextAt S X s B j ns) (hS : WellFormed S) (hfit : LinksFit h S X)
    (hl : lstat h S X = some .dir) :
    ∃ m e, m ≤ h.maxLinks ∧ ResS S m [] (names (Ptu.components X)) e ∧ S e = some .dir := by
  obtain ⟨m, e, hm, hres, he⟩ := lstat_eq_dir hX.abs hl
  have hall : ResS S m [] (pathComps X) e := hfit.res (List.append_nil _).symm hres hm
  rw [hX.text, hX.full_iff hS] at hall
  refine ⟨m, e, hm, ?_, he⟩
  rw [hX.components]
  exact hX.lex hS hX.tame hall

/-- The next link. -/
theorem PathAt.next {a t : CString} {d : List CString} {m : ℕ} (hX : PathAt S X B j ns a d m) (hS : WellFormed S)
    (hm : m ≤ h.maxLinks) (hfit : LinksFit h S X) (ht : S (d ++ [a]) = some (.link t)) :
    linkTarget h S X = some (targetAbspath d t) ∧ fitsBuffer d t = true ∧
      ∃ j ns, TextAt S (targetAbspath d t) t (linkBase d t) j ns := by
  obtain ⟨cs, hcs, hstrip⟩ := hX.text
  have hmem : (d, t) ∈ followed readTarget S h.maxLinks [] (pathComps X) := by
    rw [hcs]
    exact followed_append (hX.src_parent hS hstrip) hm (mem_followed_link ht)
  obtain ⟨htame, hbuf⟩ := hfit (d, t) hmem
  have hlstat : lstat h S X = some (.link t) := by rw [hX.lstat_eq hS (fun _ _ hq => hq) hm, ht]
  have hreal := hX.realpath_dirname hS (fun _ _ hq => hq) hm
  exact ⟨linkTarget_eq_some.2 ⟨t, d, hlstat, hreal, rfl⟩, hbuf,
    TextAt.of_link hS hX.dir (hS.target _ _ ht) htame⟩

end Objects

/-- What every path of the chain is like: after a real directory there is the text of a tame link. -/
theorem linkChain_text (hS : WellFormed S) (hf : Canonical f)
    (hfit : ∀ n X, linkChain h S f n = some X → LinksFit h S X) {n : ℕ} (hX : linkChain h S f n = some X) :
    ∃ s B j ns, s ≠ [] ∧ TextAt S X s B j ns := by
  induction n generalizing X with
  | zero =>
    obtain rfl := Option.some.inj hX
    obtain ⟨P, hP, rfl⟩ := canonical_iff.1 hf
    refine ⟨render P, [], 0, P, ne_nil_of_isAbspath (isAbspath_render P), isAbspath_render P, rfl, ?_, Nat.le_refl _,
      hS.root, hP⟩
    rw [strip_pathComps, comps_render hP, strip_names]
    rfl
  | succ n ih =>
    obtain ⟨Y, hY, hnext⟩ := Option.bind_eq_some_iff.1 hX
    obtain ⟨s, B, j, ns, hs, htext⟩ := ih hY
    obtain ⟨t, d, hl, hreal, rfl⟩ := linkTarget_eq_some.1 hnext
    obtain ⟨ns', a, d', m, hm, hpath, hlink⟩ := htext.object hS hs (hfit n Y hY) hl (by simp)
    obtain rfl : d' = d :=
      Option.some.inj ((hpath.realpath_dirname hS (fun _ _ hq => hq) hm).symm.trans hreal)
    obtain ⟨-, -, j', ns'', htext'⟩ := hpath.next hS hm (hfit n Y hY) hlink
    exact ⟨t, _, j', ns'', hS.target _ _ hlink, htext'⟩

/-- **The chain ends if the kernel finds something at the path.** Lookup follows a link less at each step. -/
theorem linkChain_ends_of_resolves (hS : WellFormed S) {m : ℕ} {r : List CString} (hX : isAbspath X = true)
    (hm : m ≤ h.maxLinks) (hres : Resolves S m [] (pathComps X) r) : ∃ n, linkChain h S X n = none := by
  induction m using Nat.strong_induction_on generalizing X with
  | _ m ih =>
    cases hnext : linkTarget h S X with
    | none => exact ⟨1, hnext⟩
    | some T =>
      obtain ⟨t, d, hl, hreal, rfl⟩ := linkTarget_eq_some.1 hnext
      obtain ⟨cs, a, m', d', hcs, hparent, hd', hm', hlink⟩ := lstat_inv hS hX hl (by simp)
      obtain rfl : d' = d := Option.some.inj ((realpath_dirname hX hcs hparent hd' hm').symm.trans hreal)
      rw [hcs] at hres
      obtain ⟨m₁, c, e, rfl, h₁, h₂⟩ := hres.split
      obtain ⟨-, rfl⟩ := h₁.det hparent
      obtain ⟨c', hc', -, htarget⟩ := h₂.of_link hlink
      have ht := hS.target _ _ hlink
      have hfull : Resolves S c' [] (pathComps (targetAbspath e t)) r := by
        rw [pathComps_targetAbspath ht (hS.valid _ _ hd')]
        exact (Res.dirs (d := []) (fun q hq => hS.dir_of_prefix (q := q) (linkBase_dir hS hd' t) hq)
          (fun _ _ => trivial)).append_iff.2 htarget
      obtain ⟨n, hn⟩ := ih c' (by omega) (isAbspath_targetAbspath e t) (by omega) hfull
      exact ⟨n + 1, (linkChain_succ hnext n).trans hn⟩

/-! ## Links to directories -/

section DirLinks

variable {fuel n m c : ℕ} {a : CString} {d e : List CString}

/-- With this fuel, links to directories are mirrored that follow at most `w` links. -/
def DirLinksReturn (h : Host) (S : Fs) (dst : CString) (fuel w : ℕ) : Prop :=
  ∀ F X B j ns a d m c r, m + c ≤ w → Extends S F → PathAt S X B j ns a d m →
    (∃ t, S (d ++ [a]) = some (.link t)) → ResS S c d [.name a] r → S r = some .dir →
      ∃ F', createMirrorSymlinkAndTarget h fuel X [] dst F = .ok F'

theorem createMirrorDir_returns (hS : WellFormed S) (hrec : DirLinksReturn h S dst fuel n) (hn : n ≤ h.maxLinks)
    {p : List CString} (hv : ValidPath (p ++ [a])) (hp : ResS S m [] (names p) d) (ha : ResS S c d [.name a] e)
    (he : S e = some .dir) (hmc : m + c ≤ n) (hF : Extends S F) :
    ∃ F', createMirrorDir h (createMirrorSymlinkAndTarget h fuel) [] dst F (render (p ++ [a])) = .ok F' := by
  have hX := PathAt.render hS hv hp (ha.dir_of_ne_nil (by simp))
  have hl : lstat h F ([] ++ render (p ++ [a])) = F (d ++ [a]) := hX.lstat_eq hS hF (by omega)
  have habs : isAbspath ([] ++ render (p ++ [a])) = true := hX.abs
  unfold createMirrorDir
  by_cases hsome : (lstat h F (dst ++ render (p ++ [a]))).isSome = true
  · exact ⟨F, if_pos hsome⟩
  · simp only [hsome, habs, hl, Bool.not_true, Bool.false_eq_true, if_false]
    have hleads := ha
    cases ha with
    | name _ _ ha' _ h' =>
      cases h' with
      | nil _ =>
        rw [hF _ _ he]
        exact ⟨_, rfl⟩
    | link _ _ ha' _ _ _ =>
      rw [hF _ _ ha']
      exact hrec F _ [] 0 p a d m _ e hmc hF hX ⟨_, ha'⟩ hleads he

/-- **The directories of a path are mirrored**, whatever is in the destination. -/
theorem createMirrorDirs_returns (hS : WellFormed S) (hdst : isAbspath dst = true)
    (hrec : DirLinksReturn h S dst fuel n) (hn : n ≤ h.maxLinks) (hX : isAbspath X = true) {pop : Bool}
    (hL : ResS S n [] (names (mirrorNames X pop)) e) (he : S e = some .dir) (hF : Extends S F) :
    ∃ F', createMirrorDirs h (createMirrorSymlinkAndTarget h fuel) X [] dst pop F = .ok F' ∧
      Grown h [] dst F F' := by
  have hv := validPath_mirrorNames hX pop
  obtain ⟨F', hok, -⟩ : ∃ F', (List.range (mirrorNames X pop).length).foldlM (fun fs i =>
      createMirrorDir h (createMirrorSymlinkAndTarget h fuel) [] dst fs
        (render ((mirrorNames X pop).take (i + 1)))) F = .ok F' ∧ Extends S F' := by
    generalize mirrorNames X pop = L at hL hv
    refine foldlM_range_total (I := fun _ F' => Extends S F') ?_ hF
    intro i F₁ hi hF₁
    have hcons : L.drop i = L.get ⟨i, hi⟩ :: L.drop (i + 1) := List.drop_eq_getElem_cons hi
    have htake : L.take (i + 1) = L.take i ++ [L.get ⟨i, hi⟩] := by
      rw [List.take_add_one, List.getElem?_eq_getElem hi]
      rfl
    generalize L.get ⟨i, hi⟩ = a at hcons htake
    have hsplit : ResS S n [] (names (L.take i) ++ ([.name a] ++ names (L.drop (i + 1)))) e := by
      rw [← List.take_append_drop i L, hcons, names_append] at hL
      exact hL
    obtain ⟨m, c, q, rfl, h₁, hrest⟩ := hsplit.split
    obtain ⟨c₁, c₂, q', rfl, h₂, h₃⟩ := hrest.split
    -- what the name leads to is a directory
    have hq' : S q' = some .dir := by
      by_cases hnil : L.drop (i + 1) = []
      · rw [hnil] at h₃
        cases h₃ with
        | nil _ => exact he
      · exact h₃.dir_of_ne_nil (by simpa [names] using hnil)
    have hv' : ValidPath (L.take i ++ [a]) := htake ▸ hv.of_prefix (List.take_prefix _ _)
    obtain ⟨F₂, hround⟩ := createMirrorDir_returns hS hrec hn hv' h₁ h₂ hq' (by omega) hF₁
    rw [htake]
    exact ⟨F₂, hround, hF₁.trans ((createMirrorDir_grown (mirrorSymlink_grows h [] dst fuel) hround).mono hdst)⟩
  rw [← createMirrorDirs_eq hdst hX] at hok
  exact ⟨F', hok, createMirrorDirs_grown (mirrorSymlink_grows h [] dst fuel) hok⟩

/-- A target that is a directory or leads to one. -/
theorem createMirrorTarget_dir_returns {t : CString} {B ns : List CString} {j : ℕ} (hS : WellFormed S)
    (hdst : isAbspath dst = true) (hrec : DirLinksReturn h S dst fuel n) (hn : n ≤ h.maxLinks) (ht : t ≠ [])
    (hT : TextAt S T t B j ns) (hleads : ResS S n B (pathComps t) e) (he : S e = some .dir) (hF : Extends S F) :
    ∃ F', createMirrorTarget h (createMirrorSymlinkAndTarget h fuel) T [] dst F = .ok F' := by
  have hsrc : ∀ {m cur cs r}, ResS S m cur cs r → Resolves F m cur cs r :=
    fun hr => hr.mono hF (fun _ h => h) (fun _ _ _ => trivial)
  have hdirs : lstat h F T = some .dir →
      ∃ F', createMirrorTarget h (createMirrorSymlinkAndTarget h fuel) T [] dst F = .ok F' := by
    intro hl
    have hL : ResS S n [] (names (mirrorNames (render (components T)) false)) e := by
      rw [show mirrorNames (render (components T)) false = components T from
        components_render (validPath_components hT.abs), hT.components]
      exact hT.lex hS hT.tame hleads
    obtain ⟨F', hok, -⟩ := createMirrorDirs_returns hS hdst hrec hn (isAbspath_render _) hL he hF
    rw [createMirrorTarget_eq hT.abs, hl]
    exact ⟨F', hok⟩
  have hfull : ResS S n [] (pathComps T) e := by
    rw [hT.text]
    exact (hT.full_iff hS).2 hleads
  obtain ⟨cs, x, hcs⟩ := (List.eq_nil_or_concat' (pathComps t)).resolve_left (pathComps_ne_nil ht)
  by_cases hname : ∃ a, x = .name a
  · obtain ⟨a, rfl⟩ := hname
    rw [hcs] at hleads
    obtain ⟨m, c, q, rfl, h₁, h₂⟩ := hleads.split
    obtain ⟨ns', -, hpath⟩ := hT.pathAt hS hcs h₁ (h₂.dir_of_ne_nil (by simp))
    have hl : lstat h F T = F (q ++ [a]) := hpath.lstat_eq hS hF (by omega)
    have hlast := h₂
    cases h₂ with
    | name _ _ ha _ h' =>
      cases h' with
      | nil _ => exact hdirs (by rw [hl, hF _ _ he])
    | link _ _ ha _ _ _ =>
      rw [createMirrorTarget_eq hT.abs, hl, hF _ _ ha]
      exact hrec F T B j ns' a q m _ e (Nat.le_refl _) hF hpath ⟨_, ha⟩ hlast he
  · -- the text does not end in a name, so `lstat` finds the directory itself
    have hnoname : ∀ a, (pathComps T).getLast? ≠ some (.name a) := by
      intro a ha
      rw [hT.text, hcs, ← List.append_assoc, List.getLast?_concat] at ha
      exact hname ⟨a, Option.some.inj ha⟩
    apply hdirs
    obtain ⟨m, r, hm, hres, hr⟩ : ∃ m r, m ≤ h.maxLinks ∧ Resolves F m [] (pathComps T) r ∧ F r = some .dir :=
      ⟨n, e, hn, hsrc hfull, hF _ _ he⟩
    have hl : lstat h F T = stat h F T := by
      unfold lstat stat lookup
      rw [walk_follow hnoname]
    rw [hl, stat_of_res hT.abs hres hm, hr]

/-- **A link that leads to a directory is mirrored**, whatever is in the destination. By induction on the
nesting: the directory part and the target follow fewer links than the whole path. -/
theorem mirrorDirLink_returns (hS : WellFormed S) (hdst : isAbspath dst = true) :
    ∀ fuel w, w < fuel → w ≤ h.maxLinks → DirLinksReturn h S dst fuel w := by
  intro fuel
  induction fuel with
  | zero =>
    intro w hw
    omega
  | succ fuel ih =>
    rintro w hw hwb F X B j ns a d m c r hmc hF hX ⟨t, ht⟩ hr hdir
    obtain ⟨n, rfl, hlink, hleads⟩ : ∃ n, c = n + 1 ∧ mirrorable d t = true ∧
        ResS S n (linkBase d t) (pathComps t) r := hr.of_link ht
    obtain ⟨htame, hfits⟩ := mirrorable_iff.1 hlink
    have htne := hS.target _ _ ht
    have hlst : lstat h F X = some (.link t) := by rw [hX.lstat_eq hS hF (by omega), hF _ _ ht]
    rw [mirrorSymlink_eq hX.abs hdst hlst htne (hX.realpath_dirname hS hF (by omega)) (hS.valid _ _ hX.dir) hfits]
    -- the directory part
    have hL : ResS S m [] (names (mirrorNames X true)) d := by
      rw [show mirrorNames X true = (components X).dropLast from rfl, hX.components, List.dropLast_concat]
      exact hX.parent
    obtain ⟨F₁, hok₁, hgrown⟩ := createMirrorDirs_returns hS hdst (ih m (by omega) (by omega)) (by omega) hX.abs hL
      hX.dir hF
    rw [hok₁]
    -- the target
    obtain ⟨j', ns', htext⟩ := TextAt.of_link hS hX.dir htne htame
    exact createMirrorTarget_dir_returns hS hdst (ih n (by omega) (by omega)) (by omega) htne htext hleads hdir
      ((hF.trans (hgrown.mono hdst)).trans (symlink_extends h F₁ _ _))

end DirLinks

/-! ## Following the chain -/

section Chain

variable {n : ℕ}

/-- The directories of a path are mirrored with one fuel for all paths. -/
theorem createMirrorDirs_enough (hS : WellFormed S) (hdst : isAbspath dst = true) (hX : isAbspath X = true)
    {pop : Bool} {m : ℕ} {e : List CString} (hm : m ≤ h.maxLinks)
    (hL : ResS S m [] (names (mirrorNames X pop)) e) (he : S e = some .dir) (hF : Extends S F) :
    ∃ F', Grown h [] dst F F' ∧
      createMirrorDirs h (createMirrorSymlinkAndTarget h (h.maxLinks + 1)) X [] dst pop F = .ok F' := by
  obtain ⟨F', hok, hgrown⟩ := createMirrorDirs_returns hS hdst
    (mirrorDirLink_returns hS hdst (h.maxLinks + 1) m (by omega) hm) hm hX hL he hF
  exact ⟨F', hgrown, hok⟩

/-- **From a link of the chain to the next path**: with enough fuel always, with less perhaps. -/
theorem createMirrorTarget_link {a t : CString} {B ns d : List CString} {j m : ℕ} (hS : WellFormed S)
    (hdst : isAbspath dst = true) (hX : PathAt S X B j ns a d m) (hm : m ≤ h.maxLinks)
    (ht : S (d ++ [a]) = some (.link t)) (hfits : fitsBuffer d t = true) (hF : Grown h [] dst S F) :
    ∃ F', Grown h [] dst S F' ∧ ∀ n,
      (n ≤ h.maxLinks ∧
        createMirrorTarget h (createMirrorSymlinkAndTarget h (n + 1)) X [] dst F = .error .stackOverflow) ∨
      createMirrorTarget h (createMirrorSymlinkAndTarget h (n + 1)) X [] dst F =
        createMirrorTarget h (createMirrorSymlinkAndTarget h n) (targetAbspath d t) [] dst F' := by
  have hext := hF.mono hdst
  have hvd := hS.valid _ _ hX.dir
  have hL : ResS S m [] (names (mirrorNames X true)) d := by
    rw [show mirrorNames X true = (components X).dropLast from rfl, hX.components, List.dropLast_concat]
    exact hX.parent
  obtain ⟨F₁, hF₁, hok⟩ := createMirrorDirs_enough hS hdst hX.abs hm hL hX.dir hext
  have hlst : ∀ {F}, Extends S F → lstat h F X = some (.link t) := by
    intro F hF
    rw [hX.lstat_eq hS hF hm, hF _ _ ht]
  have hreal : ∀ {F}, Extends S F → realpath h F (dirname X) = some d := fun hF => hX.realpath_dirname hS hF hm
  have hext₁ := hext.trans (hF₁.mono hdst)
  refine ⟨symlink h F₁ (munge d t) (dst ++ X),
    .link (hF.trans hF₁) (hlst hext₁) (hreal hext₁) (linkText_nil hvd hfits), fun n => ?_⟩
  rw [createMirrorTarget_eq hX.abs, hlst hext]
  simp only [mirrorSymlink_eq hX.abs hdst (hlst hext) (hS.target _ _ ht) (hreal hext) hvd hfits]
  have hsteady := createMirrorDirs_steady h [] dst X true F
  by_cases hn : h.maxLinks + 1 ≤ n
  · right
    rw [hsteady.eq_ok hok hn]
    rfl
  · rcases hsteady.bot_or_ok hok n with hbot | hdirs
    · left
      refine ⟨by omega, ?_⟩
      rw [hbot]
      rfl
    · right
      rw [hdirs]
      rfl

/-- **A chain with an end is followed to its end**, and what is there is mirrored. -/
theorem createMirrorTarget_returns (hS : WellFormed S) (hdst : isAbspath dst = true) (hf : Canonical f)
    (hfit : ∀ n X, linkChain h S f n = some X → LinksFit h S X)
    (hmissing : ∀ n X, linkChain h S f n = some X → lstat h S X = none →
      ∀ F, Grown h [] dst S F → lstat h F X = none)
    {k : ℕ} (hend : linkChain h S f (n + k) = none) (hX : linkChain h S f n = some X)
    (hF : Grown h [] dst S F) :
    createMirrorTarget h (createMirrorSymlinkAndTarget h (h.maxLinks + 1 + k)) X [] dst F ≠ .error .stackOverflow := by
  induction k generalizing n X F with
  | zero =>
    rw [Nat.add_zero, hX] at hend
    cases hend
  | succ k ih =>
    obtain ⟨s, B, j, ns, hs, htext⟩ := linkChain_text hS hf hfit hX
    have hext := hF.mono hdst
    have hcomp : components (render (components X)) = components X :=
      components_render (validPath_components htext.abs)
    -- the directories are made with any fuel from `maxLinks + 1` on
    have hmore : ∀ {Y pop F'},
        createMirrorDirs h (createMirrorSymlinkAndTarget h (h.maxLinks + 1)) Y [] dst pop F = .ok F' →
        createMirrorDirs h (createMirrorSymlinkAndTarget h (h.maxLinks + 1 + (k + 1))) Y [] dst pop F = .ok F' :=
      fun hok => (createMirrorDirs_steady h [] dst _ _ F).eq_ok hok (by omega)
    cases hl : lstat h S X with
    | none =>
      rw [createMirrorTarget_eq htext.abs, hmissing n X hX hl F hF]
      simp
    | some nd =>
      cases nd with
      | link t =>
        obtain ⟨ns', a, d, m, hm, hpath, hlink⟩ := htext.object hS hs (hfit n X hX) hl (by simp)
        obtain ⟨hnext, hfits, -⟩ := hpath.next hS hm (hfit n X hX) hlink
        obtain ⟨F', hF', hstep⟩ := createMirrorTarget_link hS hdst hpath hm hlink hfits hF
        rcases hstep (h.maxLinks + 1 + k) with ⟨hle, -⟩ | hgo
        · omega
        · rw [show h.maxLinks + 1 + (k + 1) = h.maxLinks + 1 + k + 1 from rfl, hgo]
          refine ih (n := n + 1) ?_ (Option.bind_eq_some_iff.2 ⟨X, hX, hnext⟩) hF'
          rw [← hend]
          congr 1
          omega
      | dir =>
        obtain ⟨m, e, hm, hL, he⟩ := htext.directory hS (hfit n X hX) hl
        have hnames : ResS S m [] (names (mirrorNames (render (components X)) false)) e := by
          rwa [show mirrorNames (render (components X)) false = _ from hcomp]
        obtain ⟨F', -, hok⟩ := createMirrorDirs_enough hS hdst (isAbspath_render (components X)) hm hnames he hext
        rw [createMirrorTarget_eq htext.abs, lstat_mono hext hl]
        simp only [hmore hok]
        simp
      | file c =>
        obtain ⟨ns', a, d, m, hm, hpath, -⟩ := htext.object hS hs (hfit n X hX) hl (by simp)
        have hL : ResS S m [] (names (mirrorNames (render (components X)) true)) d := by
          rw [show mirrorNames (render (components X)) true = (components (render (components X))).dropLast from rfl,
            hcomp, hpath.components, List.dropLast_concat]
          exact hpath.parent
        obtain ⟨F', -, hok⟩ := createMirrorDirs_enough hS hdst (isAbspath_render (components X)) hm hL hpath.dir hext
        rw [createMirrorTarget_eq htext.abs, lstat_mono hext hl]
        simp only [hmore hok]
        exact linkOrCopy_ne_overflow h F' X _

/-- **A chain without an end is followed for ever**, whatever is in the destination. -/
theorem createMirrorTarget_endless (hS : WellFormed S) (hdst : isAbspath dst = true) (hf : Canonical f)
    (hfit : ∀ n X, linkChain h S f n = some X → LinksFit h S X) (hendless : ∀ n, linkChain h S f n ≠ none)
    (fuel : ℕ) : createMirrorTarget h (createMirrorSymlinkAndTarget h fuel) f [] dst S = .error .stackOverflow := by
  -- every path of the chain is a link
  have hlinks : ∀ n X, linkChain h S f n = some X → ∃ B j ns a d m t, m ≤ h.maxLinks ∧ PathAt S X B j ns a d m ∧
      S (d ++ [a]) = some (.link t) := by
    intro n X hX
    obtain ⟨T, hT⟩ := Option.ne_none_iff_exists'.1 (hendless (n + 1))
    obtain ⟨Y, hY, hnext⟩ := Option.bind_eq_some_iff.1 hT
    obtain rfl := Option.some.inj (hY.symm.trans hX)
    obtain ⟨t, -, hl, -⟩ := linkTarget_eq_some.1 hnext
    obtain ⟨s, B, j, ns, hs, htext⟩ := linkChain_text hS hf hfit hX
    obtain ⟨ns', a, d, m, hm, hpath, hlink⟩ := htext.object hS hs (hfit n Y hX) hl (by simp)
    exact ⟨B, j, ns', a, d, m, t, hm, hpath, hlink⟩
  refine eq_bot_of_progress
    (x := fun (s : CString × Fs) n => createMirrorTarget h (createMirrorSymlinkAndTarget h n) s.1 [] dst s.2)
    (I := fun s => (∃ n, linkChain h S f n = some s.1) ∧ Grown h [] dst S s.2) ?_ ?_
    (s := (f, S)) ⟨⟨0, rfl⟩, .refl⟩ fuel
  · rintro ⟨X, F⟩ ⟨⟨n, hX⟩, hF⟩
    obtain ⟨B, j, ns, a, d, m, t, hm, hpath, hlink⟩ := hlinks n X hX
    have hext := hF.mono hdst
    have hl : lstat h F X = some (.link t) := by rw [hpath.lstat_eq hS hext hm, hext _ _ hlink]
    show createMirrorTarget h (createMirrorSymlinkAndTarget h 0) X [] dst F = _
    rw [createMirrorTarget_eq hpath.abs, hl]
    rfl
  · rintro ⟨X, F⟩ k ⟨⟨n, hX⟩, hF⟩
    obtain ⟨B, j, ns, a, d, m, t, hm, hpath, hlink⟩ := hlinks n X hX
    obtain ⟨hnext, hfits, -⟩ := hpath.next hS hm (hfit n X hX) hlink
    obtain ⟨F', hF', hstep⟩ := createMirrorTarget_link hS hdst hpath hm hlink hfits hF
    rcases hstep k with ⟨-, hbot⟩ | hgo
    · exact Or.inl hbot
    · exact Or.inr ⟨(targetAbspath d t, F'), ⟨⟨n + 1, Option.bind_eq_some_iff.2 ⟨X, hX, hnext⟩⟩, hF'⟩, hgo⟩

end Chain

/-- `create_mirror_file` treats its argument like a target, if there is no copy that is new enough. -/
theorem createMirrorFile_canonical (hS : WellFormed S) (hdst : isAbspath dst = true) (hf : Canonical f) :
    ((∃ n, linkChain h S f n = none) ∧ ∀ fuel, createMirrorFile h fuel f [] dst S = .ok S) ∨
    ∀ fuel, createMirrorFile h fuel f [] dst S =
      createMirrorTarget h (createMirrorSymlinkAndTarget h fuel) f [] dst S := by
  obtain ⟨P, hP, rfl⟩ := canonical_iff.1 hf
  have habs : isAbspath (render P) = true := isAbspath_render P
  have hcomp : render (components (render P)) = render P := by rw [components_render hP]
  unfold createMirrorFile
  simp only [createMirrorTarget_eq habs, hcomp, habs, hdst, List.nil_append, Bool.not_true, Bool.or_self,
    Bool.false_eq_true, if_false]
  cases hl : lstat h S (render P) with
  | none => exact Or.inr fun fuel => rfl
  | some nd =>
    cases nd with
    | dir => exact Or.inr fun fuel => rfl
    | file c =>
      by_cases hfresh : isFresh h S (dst ++ render P) (some (.file c)) = true
      · exact Or.inl ⟨⟨1, linkTarget_eq_none hl (by simp)⟩, fun fuel => if_pos hfresh⟩
      · exact Or.inr fun fuel => if_neg hfresh
    | link t =>
      by_cases hfresh : isFresh h S (dst ++ render P) (stat h S (render P)) = true
      · refine Or.inl ⟨?_, fun fuel => if_pos hfresh⟩
        have hsome : stat h S (render P) ≠ none := by
          intro hnone
          rw [hnone] at hfresh
          cases hfresh
        unfold stat at hsome
        cases hr : lookup S h.maxLinks true [] (render P) with
        | none =>
          rw [hr] at hsome
          exact absurd rfl hsome
        | some r =>
          obtain ⟨m, hm, hres⟩ := (resolve_abs habs).1 hr
          exact linkChain_ends_of_resolves hS habs hm hres
      · exact Or.inr fun fuel => if_neg hfresh

/-- A link to a link to a file beside it. -/
def plainLinks : Fs := Fs.ofList
  [([], .dir), ([str "f"], .file ⟨str "text", 0⟩), ([str "k"], .link (str "/f")), ([str "l"], .link (str "k")),
   ([str "r"], .dir)]

theorem plainLinks_chain {n : ℕ} (hX : linkChain {} plainLinks (str "/l") n = some X) :
    X = str "/l" ∨ X = str "//k" ∨ X = str "/f" := by
  match n with
  | 0 => exact Or.inl (Option.some.inj hX).symm
  | 1 =>
    have hchain : linkChain {} plainLinks (str "/l") 1 = some (str "//k") := by decide +kernel
    exact Or.inr (Or.inl (Option.some.inj (hX.symm.trans hchain)))
  | 2 =>
    have hchain : linkChain {} plainLinks (str "/l") 2 = some (str "/f") := by decide +kernel
    exact Or.inr (Or.inr (Option.some.inj (hX.symm.trans hchain)))
  | n + 3 =>
    have hnone : linkChain {} plainLinks (str "/l") (n + 3) = none := by
      clear hX
      induction n with
      | zero => decide +kernel
      | succ n ih =>
        show (linkChain {} plainLinks (str "/l") (n + 3)).bind _ = none
        rw [ih]
        rfl
    rw [hnone] at hX
    cases hX

/-- A link to itself. -/
def selfLink : Fs := Fs.ofList
  [([], .dir), ([str "d"], .dir), ([str "d", str "a"], .link (str "a")), ([str "r"], .dir)]

theorem selfLink_chain (n : ℕ) : linkChain {} selfLink (str "/d/a") n = some (str "/d/a") := by
  induction n with
  | zero => rfl
  | succ n ih =>
    show (linkChain {} selfLink (str "/d/a") n).bind _ = _
    rw [ih]
    decide +kernel

end Ptu
