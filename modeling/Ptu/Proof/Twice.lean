import Ptu.Proof.Redirect

/-!
# Redirecting twice

A path that was redirected is not redirected into cde-root a second time (`redirect_twice`). In
streaming mode a redirection may fetch files, so the second one sees another trie and other files
on the host; nothing is fetched twice, and the second one changes nothing (`Later`).
-/

namespace Ptu

open Pathname

variable {g : Cde} {e e' e₁ e₂ : Effects} {pi : Option ProcessIgnore}

/-! ## Nothing is fetched twice -/

/-- There is nothing left to fetch for the path `p`. -/
def Fetched (g : Cde) (p : CString) (e : Effects) : Prop :=
  g.streamingMode = true → startsWith p g.cderootDir = false → trieContains p e.trie = .ok true

/-- What was fetched before stays fetched. -/
def Later (g : Cde) (e e' : Effects) : Prop := ∀ p, Fetched g p e → Fetched g p e'

theorem Later.refl (g : Cde) (e : Effects) : Later g e e := fun _ h => h

theorem Later.trans (h : Later g e e₁) (h' : Later g e₁ e₂) : Later g e e₂ := fun p hp => h' p (h p hp)

theorem streamFile_later {p : CString} (h : streamFile g p e = .ok e') :
    trieContains p e'.trie = .ok true ∧
      ∀ q, trieContains q e.trie = .ok true → trieContains q e'.trie = .ok true := by
  unfold streamFile at h
  obtain ⟨b, hb, h⟩ := bind_eq_ok.1 h
  cases b with
  | true =>
    obtain rfl := Except.ok.inj h
    exact ⟨hb, fun _ hq => hq⟩
  | false =>
    obtain ⟨e₁, hmirror, h⟩ := bind_eq_ok.1 h
    obtain ⟨t, ht, h⟩ := bind_eq_ok.1 h
    obtain rfl := Except.ok.inj h
    rw [(createMirrorFile_frame hmirror).1] at ht
    exact ⟨trieContains_insert ht, fun q hq => (trieContains_insert_iff ht).2 (Or.inr hq)⟩

/-- **`create_abspath_within_cderoot` fetches the path.** -/
theorem createAbspath_later (hex : g.execMode = true) {p r : CString}
    (h : createAbspathWithinCderoot g p e = .ok (r, e')) : Fetched g p e' ∧ Later g e e' := by
  unfold createAbspathWithinCderoot at h
  obtain ⟨-, h⟩ := ite_throw_eq_ok.1 h
  rw [if_pos hex] at h
  by_cases hs : startsWith p g.cderootDir = true
  · rw [if_pos hs] at h
    cases h
    refine ⟨fun _ hn => ?_, Later.refl g e⟩
    rw [hs] at hn
    cases hn
  · rw [if_neg hs] at h
    by_cases hst : g.streamingMode = true
    · rw [if_pos hst] at h
      obtain ⟨e₁, hfetch, h⟩ := bind_eq_ok.1 h
      cases h
      obtain ⟨hp, hold⟩ := streamFile_later hfetch
      exact ⟨fun _ _ => hp, fun q hq hst hs => hold q (hq hst hs)⟩
    · rw [if_neg hst] at h
      obtain ⟨e₁, hpure, h⟩ := bind_eq_ok.1 h
      cases h
      cases hpure
      exact ⟨fun hst' => absurd hst' hst, Later.refl g e⟩

/-- What was fetched is found without another access. -/
theorem createAbspath_fetched (hex : g.execMode = true) {p : CString} (hp : isAbspath p = true)
    (h : Fetched g p e) : createAbspathWithinCderoot g p e = .ok (withinCderoot g p, e) := by
  unfold createAbspathWithinCderoot withinCderoot
  simp only [hp, hex, Bool.not_true, Bool.false_eq_true, if_false, if_true]
  by_cases hs : startsWith p g.cderootDir = true
  · rw [if_pos hs, if_pos hs]
    rfl
  · rw [if_neg hs, if_neg hs]
    by_cases hst : g.streamingMode = true
    · have hhit : streamFile g p e = .ok e := by
        unfold streamFile
        rw [h hst (Bool.eq_false_iff.2 hs)]
        rfl
      rw [if_pos hst, hhit]
      rfl
    · rw [if_neg hst]
      rfl

/-- **`ignore_path` a second time**: it changes nothing, and the verdict is the same unless the
host has changed. -/
theorem ignorePath_settled (hex : g.execMode = true) {p : CString} {b : Bool}
    (h : ignorePath g p pi e = .ok (b, e')) :
    Later g e e' ∧ ∀ e₂, Later g e' e₂ → ∃ b', ignorePath g p pi e₂ = .ok (b', e₂) ∧
      (g.execFromOutside = false ∨ e₂.fs = e'.fs → b' = b) := by
  by_cases hp : isAbspath p = true
  · rw [ignorePath_abs hp] at h
    simp only [ignorePath_abs hp]
    by_cases hig : ignored g.opts pi p = true
    · simp only [if_pos hig] at h ⊢
      cases h
      exact ⟨Later.refl g e, fun e₂ _ => ⟨true, rfl, fun _ => rfl⟩⟩
    · simp only [if_neg hig] at h ⊢
      by_cases hout : (g.execFromOutside && !g.opts.redirects p) = true
      · simp only [if_pos hout] at h ⊢
        obtain ⟨⟨r, e₁⟩, hcreate, heq⟩ := map_eq_ok.1 h
        cases heq
        obtain ⟨hfetched, hlater⟩ := createAbspath_later hex hcreate
        obtain rfl := createAbspath_ok hex hcreate
        refine ⟨hlater, fun e₂ h₂ => ⟨!g.stat e₂.fs (withinCderoot g p), ?_, ?_⟩⟩
        · rw [createAbspath_fetched hex hp (h₂ p hfetched)]
          rfl
        · rintro (hin | hsame)
          · rw [hin] at hout
            cases hout
          · rw [hsame]
      · simp only [if_neg hout] at h ⊢
        cases h
        exact ⟨Later.refl g e, fun e₂ _ => ⟨false, rfl, fun _ => rfl⟩⟩
  · have hrel : isAbspath p = false := by simpa using hp
    rw [ignorePath_rel hrel] at h
    simp only [ignorePath_rel hrel]
    split_ifs at h ⊢
    cases h
    exact ⟨Later.refl g e, fun e₂ _ => ⟨true, rfl, fun _ => rfl⟩⟩

/-! ## The working directory -/

/-- `extract_sandboxed_pwd` by the verdict of `ignore_path`. -/
theorem extract_eq (hex : g.execMode = true) {cwd : CString} {ig : Bool}
    (h : ignorePath g cwd pi e = .ok (ig, e')) :
    extractSandboxedPwd g cwd pi e =
      if startsWith cwd g.cderootDir then
        .ok (if cwd.drop g.cderootDir.length = [] then str "/" else cwd.drop g.cderootDir.length, e')
      else if ig || g.execFromOutside || (getRepoPathId g cwd).isSome then .ok (cwd, e')
      else .error (.exit (outsideMessage cwd)) := by
  unfold extractSandboxedPwd
  simp only [hex, Bool.not_true, Bool.false_eq_true, if_false, h]
  cases startsWith cwd g.cderootDir with
  | true =>
    simp only [Bool.not_true, Bool.and_false, Bool.false_eq_true, if_false, if_true]
    split_ifs <;> rfl
  | false =>
    cases ig <;> cases g.execFromOutside <;> cases (getRepoPathId g cwd).isSome <;> rfl

theorem extract_settled (hex : g.execMode = true) {cwd base : CString}
    (h : extractSandboxedPwd g cwd pi e = .ok (base, e')) :
    Later g e e' ∧ ∀ e₂, Later g e' e₂ → extractSandboxedPwd g cwd pi e₂ = .ok (base, e₂) := by
  have hignore : ∃ r, ignorePath g cwd pi e = .ok r := by
    unfold extractSandboxedPwd at h
    obtain ⟨-, h⟩ := ite_throw_eq_ok.1 h
    obtain ⟨r, hr, -⟩ := bind_eq_ok.1 h
    exact ⟨r, hr⟩
  obtain ⟨⟨ig, e₁⟩, hig⟩ := hignore
  rw [extract_eq hex hig] at h
  have hstate : e₁ = e' := by
    split_ifs at h
    all_goals cases h
    all_goals rfl
  subst hstate
  obtain ⟨hlater, hagain⟩ := ignorePath_settled hex hig
  refine ⟨hlater, fun e₂ h₂ => ?_⟩
  obtain ⟨ig', hig', hsame⟩ := hagain e₂ h₂
  rw [extract_eq hex hig']
  by_cases hs : startsWith cwd g.cderootDir = true
  · simp only [if_pos hs] at h ⊢
    cases h
    rfl
  · simp only [if_neg hs] at h ⊢
    -- outside of cde-root the verdict matters only if it does not depend on the host
    have hcond : (ig' || g.execFromOutside || (getRepoPathId g cwd).isSome) =
        (ig || g.execFromOutside || (getRepoPathId g cwd).isSome) := by
      cases hout : g.execFromOutside with
      | true => simp
      | false => rw [hsame (Or.inl hout)]
    rw [hcond]
    split_ifs at h ⊢
    cases h
    rfl

/-! ## The path -/

theorem Redirected.later (hex : g.execMode = true) {q : CString} {r : Option CString}
    (h : Redirected g pi q e r e') : Later g e e' := by
  cases h with
  | repo _ => exact Later.refl g e
  | binary _ _ => exact Later.refl g e
  | ignored _ _ hig => exact (ignorePath_settled hex hig).1
  | inside _ _ hig hcreate => exact (ignorePath_settled hex hig).1.trans (createAbspath_later hex hcreate).2

/-- The canonical form of a path within cde-root starts with `cde_cderoot_dir`. -/
theorem canonicalize_within (hroot : Canonical g.cderootDir) {q : CString} (hq : Canonical q)
    (base : CString) : ∃ q', canonicalizePath (withinCderoot g q) base = .ok q' ∧ Canonical q' ∧
      startsWith q' g.cderootDir = true := by
  unfold withinCderoot
  obtain ⟨p, hp, rfl⟩ := canonical_iff.1 hq
  by_cases hs : startsWith (render p) g.cderootDir = true
  · rw [if_pos hs]
    refine ⟨render p, ?_, hq, hs⟩
    rw [canonicalizePath, if_pos (isAbspath_render p)]
    exact hq
  · rw [if_neg hs]
    obtain ⟨c, hc, hroot'⟩ := canonical_iff.1 hroot
    rw [hroot'] at hs ⊢
    have hne : c ≠ [] := by
      rintro rfl
      exact hs (startsWith_iff.2 ⟨joinSlash p, rfl⟩)
    refine ⟨render (c ++ p), ?_, ?_, ?_⟩
    · rw [canonicalizePath_abs _ (isAbspath_append _ (isAbspath_render c)), comps_render_append hc hp,
        norm_names, List.nil_append]
    · exact canonical_iff.2 ⟨c ++ p, validPath_append.2 ⟨hc, hp⟩, rfl⟩
    · rw [render_append p hne]
      exact startsWith_iff.2 (List.prefix_append _ _)

/-- **A path that starts with `cde_cderoot_dir` stays as it is**, whatever rule it meets. -/
theorem redirected_within (hex : g.execMode = true) {q : CString} (hq : isAbspath q = true)
    (hs : startsWith q g.cderootDir = true) (e : Effects) :
    ∃ r, Redirected g pi q e r e ∧ (r = none ∨ r = some q) := by
  cases hrepo : (getRepoPathId g q).isSome with
  | true => exact ⟨some q, .repo hrepo, Or.inr rfl⟩
  | false =>
    cases hcde : isCdeBinary q with
    | true => exact ⟨none, .binary hrepo hcde, Or.inl rfl⟩
    | false =>
      have hcreate : ∀ e, createAbspathWithinCderoot g q e = .ok (q, e) :=
        fun e => createAbspath_within hex hq hs
      obtain ⟨b, hb⟩ : ∃ b, ignorePath g q pi e = .ok (b, e) := by
        rw [ignorePath_abs hq, hcreate]
        split_ifs
        · exact ⟨_, rfl⟩
        · exact ⟨_, rfl⟩
        · exact ⟨_, rfl⟩
      cases b with
      | true => exact ⟨none, .ignored hrepo hcde hb, Or.inl rfl⟩
      | false => exact ⟨some q, .inside hrepo hcde hb (hcreate e), Or.inr rfl⟩

/-- A redirection returns if nothing has to be fetched. -/
theorem redirected_total (hex : g.execMode = true) {q : CString} (hq : isAbspath q = true)
    (hns : g.streamingMode = false) (e : Effects) : ∃ r e', Redirected g pi q e r e' := by
  cases hrepo : (getRepoPathId g q).isSome with
  | true => exact ⟨some q, e, .repo hrepo⟩
  | false =>
    cases hcde : isCdeBinary q with
    | true => exact ⟨none, e, .binary hrepo hcde⟩
    | false =>
      obtain ⟨b, e₁, hb⟩ : ∃ b e₁, ignorePath g q pi e = .ok (b, e₁) := by
        obtain ⟨e₁, hcreate⟩ := createAbspath_total hex hq (fetchable_of_not_streaming hns q e)
        rw [ignorePath_abs hq, hcreate]
        split_ifs
        · exact ⟨_, _, rfl⟩
        · exact ⟨_, _, rfl⟩
        · exact ⟨_, _, rfl⟩
      cases b with
      | true => exact ⟨none, e₁, .ignored hrepo hcde hb⟩
      | false =>
        obtain ⟨e', hcreate⟩ := createAbspath_total hex hq (fetchable_of_not_streaming hns q e₁)
        exact ⟨_, e', .inside hrepo hcde hb hcreate⟩

/-- **A second redirection does nothing.** -/
theorem redirected_settled (hex : g.execMode = true) (hroot : Canonical g.cderootDir) {f base q : CString}
    {r : Option CString} (hq : canonicalizePath f base = .ok q) (hred : Redirected g pi q e r e') :
    ∃ q' r', canonicalizePath (r.getD f) base = .ok q' ∧ Redirected g pi q' e' r' e' ∧
      canonicalizePath (r'.getD (r.getD f)) base = canonicalizePath (r.getD f) base := by
  have hcanonical : Canonical q := canonical_iff.2 (canonicalizePath_render hq)
  have hself : ∀ {q : CString}, Canonical q → canonicalizePath q base = .ok q := by
    intro q hq
    obtain ⟨p, -, rfl⟩ := canonical_iff.1 hq
    rw [canonicalizePath, if_pos (isAbspath_render p)]
    exact hq
  cases hred with
  | repo hrepo => exact ⟨q, some q, hself hcanonical, .repo hrepo, rfl⟩
  | binary hrepo hcde => exact ⟨q, none, hq, .binary hrepo hcde, rfl⟩
  | ignored hrepo hcde hig =>
    -- the host is still as it was when the verdict was made
    obtain ⟨b, hb, hsame⟩ := (ignorePath_settled hex hig).2 e' (Later.refl g e')
    rw [hsame (Or.inr rfl)] at hb
    exact ⟨q, none, hq, .ignored hrepo hcde hb, rfl⟩
  | inside hrepo hcde hig hcreate =>
    obtain rfl := createAbspath_ok hex hcreate
    obtain ⟨q', hq', hcanonical', hs⟩ := canonicalize_within hroot hcanonical base
    have habs' : isAbspath q' = true := by
      obtain ⟨p, -, rfl⟩ := canonical_iff.1 hcanonical'
      exact isAbspath_render p
    obtain ⟨r', hred', hcases⟩ : ∃ r', Redirected g pi q' e' r' e' ∧ (r' = none ∨ r' = some q') :=
      redirected_within hex habs' hs e'
    refine ⟨q', r', hq', hred', ?_⟩
    rcases hcases with rfl | rfl
    · rfl
    · exact (hself hcanonical').trans hq'.symm

/-- **Redirecting twice is redirecting once**: what a file name is redirected to (the name itself
for NULL) names the same path after another redirection, which changes nothing else. -/
theorem redirect_twice (hex : g.execMode = true) (hroot : Canonical g.cderootDir) {cwd cwd' : CString}
    (hpwd : extractSandboxedPwd g cwd pi e = .ok (cwd', e₁)) (habs : isAbspath cwd' = true) (f : CString) :
    (g.streamingMode = false → ∃ r e', redirectFilenameIntoCderoot g f cwd pi e = .ok (r, e')) ∧
    ∀ r e', redirectFilenameIntoCderoot g f cwd pi e = .ok (r, e') →
      ∃ r', redirectFilenameIntoCderoot g (r.getD f) cwd pi e' = .ok (r', e') ∧
        canonicalizePath (r'.getD (r.getD f)) cwd' = canonicalizePath (r.getD f) cwd' := by
  constructor
  · intro hns
    have hq := canonicalizePath_eq (f := f) (Or.inr habs)
    obtain ⟨r, e', hred⟩ : ∃ r e', Redirected g pi _ e₁ r e' := redirected_total hex (isAbspath_render _) hns e₁
    exact ⟨r, e', (redirect_iff hex).2 ⟨cwd', e₁, _, hpwd, hq, hred⟩⟩
  · intro r e' hr
    obtain ⟨base, e₀, q, hbase, hq, hred⟩ := (redirect_iff hex).1 hr
    obtain ⟨rfl, rfl⟩ : base = cwd' ∧ e₀ = e₁ := by
      rw [hpwd] at hbase
      cases hbase
      exact ⟨rfl, rfl⟩
    have hbase' := (extract_settled hex hpwd).2 e' (hred.later hex)
    obtain ⟨q', r', hq', hred', hsame⟩ := redirected_settled hex hroot hq hred
    exact ⟨r', (redirect_iff hex).2 ⟨base, e', q', hbase', hq', hred'⟩, hsame⟩

/-- The root directory is redirected to a path with a slash at its end. -/
theorem redirect_twice_root :
    ∃ r', redirectFilenameIntoCderoot optReplay (str "/opt/cde-package/cde-root/")
        (str "/opt/cde-package/cde-root/tmp") none {} = .ok (r', {}) ∧
      canonicalizePath (r'.getD (str "/opt/cde-package/cde-root/")) (str "/tmp") =
        canonicalizePath (str "/opt/cde-package/cde-root/") (str "/tmp") := by
  have hpwd : extractSandboxedPwd optReplay (str "/opt/cde-package/cde-root/tmp") none {} =
      .ok (str "/tmp", {}) := rfl
  have hr : redirectFilenameIntoCderoot optReplay (str "/..") (str "/opt/cde-package/cde-root/tmp") none {} =
      .ok (some (str "/opt/cde-package/cde-root/"), {}) := rfl
  exact (redirect_twice rfl (by decide) hpwd (by decide) (str "/..")).2 _ _ hr

end Ptu
