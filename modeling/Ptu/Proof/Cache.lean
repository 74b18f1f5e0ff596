import Ptu.Proof.TrieSet
import Ptu.Spec.Cache

/-!
# The cache after a restart

* `cachedFilesTrie_iff`: what `CDE_init` reads from `locally-cached-files.txt`.
* `streamRun_spec`: a run fetches the paths that it misses, inserts them and writes them to the file.
* `cache_restart_iff`: **the next run finds the same paths in its trie**, unless a path with a
  newline was fetched or the file could not be opened.
-/

namespace Ptu

open Delimited

variable {g : Cde} {e e' : Effects} {t t' : Trie} {file : Option CString} {p q path : CString}
variable {lines paths new : List CString} {F F' : Fs}

/-! ## Loading -/

/-- **What `CDE_init` reads**: lines that end with a newline. -/
theorem cachedFilesTrie_iff {text : CString} :
    cachedFilesTrie (some text) = .ok t ↔
      ∃ lines, (∀ line ∈ lines, newline ∉ line) ∧ text = terminated newline lines ∧
        lines.foldlM seedLine trieNew = .ok t := by
  unfold cachedFilesTrie
  dsimp only
  rw [bind_eq_ok]
  constructor
  · rintro ⟨t₁, hfold, h⟩
    obtain ⟨hlast, h⟩ := ite_throw_eq_ok.1 h
    obtain rfl := Except.ok.inj h
    have hpieces := List.dropLast_append_getLast? [] (not_not.1 hlast)
    obtain ⟨hlines, htext⟩ := splitOn_eq_concat_nil_iff.1 hpieces.symm
    exact ⟨_, hlines, htext, hfold⟩
  · rintro ⟨lines, hlines, htext, hfold⟩
    have hpieces := splitOn_eq_concat_nil_iff.2 ⟨hlines, htext⟩
    refine ⟨t, ?_, ?_⟩
    · rw [hpieces, List.dropLast_concat]
      exact hfold
    · rw [hpieces, List.getLast?_concat]
      rfl

/-- The trie has only what stands in the lines. -/
theorem foldlM_seedLine_contains (h : lines.foldlM seedLine t = .ok t') (hq : trieContains q t' = .ok true) :
    trieContains q t = .ok true ∨ ∃ line ∈ lines, q = line.takeWhile (· != 0) := by
  refine foldlM_invariant (I := fun t₁ => trieContains q t₁ = .ok true →
    trieContains q t = .ok true ∨ ∃ line ∈ lines, q = line.takeWhile (· != 0)) ?_ Or.inl h hq
  intro t₁ line t₂ ih hmem hline hq
  unfold seedLine at hline
  dsimp only at hline
  split_ifs at hline with hnil
  · obtain rfl := Except.ok.inj hline
    exact ih hq
  · rcases (trieContains_insert_iff hline).1 hq with heq | hold
    · exact Or.inr ⟨line, hmem, heq⟩
    · exact ih hold

/-- No path with a newline is loaded. -/
theorem noNewline_of_loaded (h : cachedFilesTrie file = .ok t) (hq : trieContains q t = .ok true) : newline ∉ q := by
  cases file with
  | none =>
    obtain rfl := Except.ok.inj h
    exact absurd hq (trieContains_new q)
  | some text =>
    obtain ⟨lines, hlines, -, hfold⟩ := cachedFilesTrie_iff.1 h
    rcases foldlM_seedLine_contains hfold hq with hnew | ⟨line, hmem, rfl⟩
    · exact absurd hnew (trieContains_new q)
    · intro hnl
      exact hlines line hmem ((List.takeWhile_prefix _).subset hnl)

/-- Lines that are appended to the file are read after the old ones. -/
theorem cachedFilesTrie_append (hload : cachedFilesTrie file = .ok t) (hnew : ∀ p ∈ new, newline ∉ p)
    (hfold : new.foldlM seedLine t = .ok t') :
    cachedFilesTrie (some (file.getD [] ++ terminated newline new)) = .ok t' := by
  rw [cachedFilesTrie_iff]
  cases file with
  | none =>
    obtain rfl := Except.ok.inj hload
    exact ⟨new, hnew, rfl, hfold⟩
  | some text =>
    obtain ⟨lines, hlines, rfl, hold⟩ := cachedFilesTrie_iff.1 hload
    refine ⟨lines ++ new, ?_, by rw [terminated_append]; rfl, ?_⟩
    · intro line hline
      rcases List.mem_append.1 hline with hline | hline
      · exact hlines line hline
      · exact hnew line hline
    · rw [List.foldlM_append, hold]
      exact hfold

/-! ## A run -/

/-- A path that is passed to `create_abspath_within_cderoot`. -/
structure StreamPath (p : CString) : Prop where
  abs : isAbspath p = true
  ascii : isAscii p = true
  nul : 0 ∉ p

/-- There is something to fetch for the path `p`. -/
def missing (g : Cde) (t : Trie) (p : CString) : Bool :=
  !startsWith p g.cderootDir && (trieContains p t).toOption != some true

/-- The paths that a run fetches: those that are missing at its start, each of them once. -/
def fetchList (g : Cde) (t : Trie) (paths : List CString) : List CString := (paths.filter (missing g t)).eraseDups

/-- `create_mirror_file` for one path after the other. -/
def fetchAll (g : Cde) (paths : List CString) (fs : Fs) : Except Fatal Fs :=
  if g.noAppCapture then .ok fs
  else paths.foldlM (fun fs p => createMirrorFile g.host g.stackDepth p g.remoteRootDir g.cderootDir fs) fs

theorem missing_iff : missing g t p = true ↔ startsWith p g.cderootDir = false ∧ trieContains p t ≠ .ok true := by
  unfold missing
  cases startsWith p g.cderootDir with
  | true => simp
  | false =>
    cases trieContains p t with
    | error x => simp [Except.toOption]
    | ok b => cases b <;> simp [Except.toOption]

theorem mem_fetchList : p ∈ fetchList g t paths ↔ p ∈ paths ∧ missing g t p = true := by
  rw [fetchList, List.mem_eraseDups, List.mem_filter]

/-- After an insertion the path is not missing any more. -/
theorem missing_insert (h : trieInsert path t = .ok t') (p : CString) :
    missing g t' p = (missing g t p && !(p == path)) := by
  rw [Bool.eq_iff_iff, Bool.and_eq_true, missing_iff, missing_iff, Ne, trieContains_insert_iff h]
  simp only [Bool.not_eq_true', beq_eq_false_iff_ne]
  tauto

theorem fetchList_missing (hmiss : missing g t path = true) (h : trieInsert path t = .ok t') :
    fetchList g t (path :: paths) = path :: fetchList g t' paths := by
  unfold fetchList
  rw [List.filter_cons_of_pos hmiss, List.eraseDups_cons, List.filter_filter]
  congr 3
  funext p
  rw [missing_insert h, Bool.and_comm]

theorem fetchList_present (hmiss : missing g t path = false) : fetchList g t (path :: paths) = fetchList g t paths := by
  unfold fetchList
  rw [List.filter_cons_of_neg (by simp [hmiss])]

theorem fetchAll_cons (h : fetchAll g (p :: paths) e.fs = .ok F) :
    ∃ e₁, createMirrorFileInCdePackage g ⟨p, g.remoteRootDir, g.cderootDir⟩ e = .ok e₁ ∧
      fetchAll g paths e₁.fs = .ok F := by
  unfold fetchAll at h ⊢
  unfold createMirrorFileInCdePackage
  split_ifs at h ⊢
  · exact ⟨e, rfl, h⟩
  · rw [List.foldlM_cons] at h
    obtain ⟨fs, hfetch, hrest⟩ := bind_eq_ok.1 h
    exact ⟨{ e with fs, mirrored := _ }, bind_eq_ok.2 ⟨fs, hfetch, rfl⟩, hrest⟩

/-- Nothing happens for a path that is there. -/
theorem createAbspath_present (hexec : g.execMode = true) (hp : StreamPath p) (h : missing g e.trie p = false) :
    (createAbspathWithinCderoot g p e).map Prod.snd = .ok e := by
  have hfetched : Fetched g p e := by
    intro _ hout
    by_contra hmiss
    rw [missing_iff.2 ⟨hout, hmiss⟩] at h
    cases h
  rw [createAbspath_fetched hexec hp.abs hfetched]
  rfl

/-- Another path is fetched, inserted and written to the file. -/
theorem createAbspath_missing (hexec : g.execMode = true) (hstream : g.streamingMode = true) (hp : StreamPath p)
    (h : missing g e.trie p = true) {e₁ : Effects}
    (hfetch : createMirrorFileInCdePackage g ⟨p, g.remoteRootDir, g.cderootDir⟩ e = .ok e₁) :
    ∃ e', (createAbspathWithinCderoot g p e).map Prod.snd = .ok e' ∧ trieInsert p e.trie = .ok e'.trie ∧
      e'.cached = (if g.cachedFilesFp then e.cached ++ [p] else e.cached) ∧ e'.fs = e₁.fs := by
  obtain ⟨hout, hmiss⟩ := missing_iff.1 h
  obtain ⟨b, hb⟩ := trieContains_ascii hp.ascii e.trie
  obtain rfl : b = false := by
    cases b with
    | false => rfl
    | true => exact absurd hb hmiss
  obtain ⟨t, ht⟩ := trieInsert_ascii hp.ascii e.trie
  obtain ⟨htrie, hcached, -⟩ := createMirrorFile_frame hfetch
  unfold createAbspathWithinCderoot streamFile
  simp only [hp.abs, hexec, hstream, hout, hb, hfetch, htrie, hcached, ht, Bool.not_true, Bool.false_eq_true, if_false,
    if_true, Bind.bind, Except.bind]
  exact ⟨_, rfl, rfl, rfl, rfl⟩

/-- **A run** fetches the paths that are missing, inserts them and writes them to the file, each of them once. -/
theorem streamRun_spec (hexec : g.execMode = true) (hstream : g.streamingMode = true)
    (hpaths : ∀ p ∈ paths, StreamPath p) (hfetch : fetchAll g (fetchList g e.trie paths) e.fs = .ok F) :
    ∃ e', streamRun g paths e = .ok e' ∧
      (fetchList g e.trie paths).foldlM (fun t p => trieInsert p t) e.trie = .ok e'.trie ∧
      e'.cached = e.cached ++ (if g.cachedFilesFp then fetchList g e.trie paths else []) := by
  induction paths generalizing e with
  | nil => exact ⟨e, rfl, rfl, by simp [fetchList]⟩
  | cons path paths ih =>
    obtain ⟨hpath, htail⟩ := List.forall_mem_cons.1 hpaths
    have hcons : ∀ e₁, (createAbspathWithinCderoot g path e).map Prod.snd = .ok e₁ →
        streamRun g (path :: paths) e = streamRun g paths e₁ := by
      intro e₁ h
      unfold streamRun
      rw [List.foldlM_cons, h]
      rfl
    cases hmiss : missing g e.trie path with
    | false =>
      rw [fetchList_present hmiss] at hfetch ⊢
      obtain ⟨e', hrun, hspec⟩ := ih htail hfetch
      exact ⟨e', (hcons e (createAbspath_present hexec hpath hmiss)).trans hrun, hspec⟩
    | true =>
      obtain ⟨t, ht⟩ := trieInsert_ascii hpath.ascii e.trie
      rw [fetchList_missing hmiss ht] at hfetch ⊢
      obtain ⟨e₁, hone, hrest⟩ := fetchAll_cons hfetch
      obtain ⟨e₂, hstep, htrie, hcached, hfs⟩ := createAbspath_missing hexec hstream hpath hmiss hone
      obtain rfl : t = e₂.trie := Except.ok.inj (ht.symm.trans htrie)
      rw [← hfs] at hrest
      obtain ⟨e', hrun, hfold, hcached'⟩ := ih htail hrest
      refine ⟨e', (hcons e₂ hstep).trans hrun, ?_, ?_⟩
      · rw [List.foldlM_cons, htrie]
        exact hfold
      · rw [hcached', hcached]
        split_ifs
        · simp
        · rfl

/-! ## The next run -/

/-- The lines of a run are read back as they were inserted. -/
theorem foldlM_seedLine_eq (hnew : ∀ p ∈ new, StreamPath p) (t : Trie) :
    new.foldlM seedLine t = new.foldlM (fun t p => trieInsert p t) t := by
  induction new generalizing t with
  | nil => rfl
  | cons p new ih =>
    obtain ⟨hp, htail⟩ := List.forall_mem_cons.1 hnew
    have hall : p.takeWhile (· != 0) = p := by
      rw [List.takeWhile_eq_self_iff]
      intro c hc
      rw [bne_iff_ne]
      rintro rfl
      exact hp.nul hc
    have hne : p ≠ [] := by
      rintro rfl
      exact absurd hp.abs (by simp [isAbspath])
    have hseed : seedLine t p = trieInsert p t := by
      unfold seedLine
      rw [hall]
      exact if_neg hne
    rw [List.foldlM_cons, List.foldlM_cons, hseed]
    congr 1
    funext t₁
    exact ih htail t₁

theorem mem_fetchList_iff {p : CString} : p ∈ fetchList g t paths ↔
    p ∈ paths ∧ startsWith p g.cderootDir = false ∧ trieContains p t ≠ .ok true := by
  rw [mem_fetchList, missing_iff]

/-- What holds of the paths that are fetched, as a condition on all paths. -/
theorem forall_mem_fetchList {P : CString → Prop} : (∀ p ∈ fetchList g t paths, P p) ↔
    ∀ p ∈ paths, startsWith p g.cderootDir = true ∨ trieContains p t = .ok true ∨ P p := by
  constructor
  · intro h p hp
    cases hout : startsWith p g.cderootDir with
    | true => exact Or.inl rfl
    | false =>
      by_cases hold : trieContains p t = .ok true
      · exact Or.inr (Or.inl hold)
      · exact Or.inr (Or.inr (h p (mem_fetchList_iff.2 ⟨hp, hout, hold⟩)))
  · intro h p hp
    obtain ⟨hmem, hout, hmiss⟩ := mem_fetchList_iff.1 hp
    rcases h p hmem with hin | hold | hgood
    · rw [hout] at hin
      cases hin
    · exact absurd hold hmiss
    · exact hgood

/-- **The cache survives a restart** if and only if every path that the run has passed was inside
cde-root or in the trie before, or was written to the file and has no newline. The fetches get through: where
one of them ends the run, there is no end of the run to compare with. -/
theorem cache_restart_iff (hexec : g.execMode = true) (hstream : g.streamingMode = true)
    (hload : cachedFilesTrie file = .ok t) (hpaths : ∀ p ∈ paths, StreamPath p)
    (hfetch : ∃ F', fetchAll g (fetchList g t paths) F = .ok F') :
    (∃ e' t', streamRun g paths { fs := F, trie := t } = .ok e' ∧
      cachedFilesTrie (cachedFile g file e') = .ok t' ∧ ∀ q, trieContains q t' = trieContains q e'.trie) ↔
    ∀ p ∈ paths, startsWith p g.cderootDir = true ∨ trieContains p t = .ok true ∨
      g.cachedFilesFp = true ∧ newline ∉ p := by
  obtain ⟨F', hfetch⟩ := hfetch
  obtain ⟨e', hrun, hfold, hcached⟩ := streamRun_spec (e := { fs := F, trie := t }) hexec hstream hpaths hfetch
  have hnew : ∀ p, p ∈ fetchList g t paths ↔ p ∈ paths ∧ startsWith p g.cderootDir = false ∧
      trieContains p t ≠ .ok true := fun p => mem_fetchList_iff
  dsimp only at hfold hcached
  rw [← forall_mem_fetchList]
  generalize fetchList g t paths = new at hfold hcached hnew ⊢
  constructor
  · rintro ⟨e'', t', hrun', hload', hsame⟩ p hp
    obtain rfl : e' = e'' := Except.ok.inj (hrun.symm.trans hrun')
    obtain ⟨-, -, hmiss⟩ := (hnew p).1 hp
    have hfound : trieContains p t' = .ok true := by
      rw [hsame]
      rw [← mem_members, members_insertAll hfold]
      exact Or.inl hp
    refine ⟨?_, noNewline_of_loaded hload' hfound⟩
    by_contra hfp
    unfold cachedFile at hload'
    rw [if_neg hfp, hload] at hload'
    obtain rfl := Except.ok.inj hload'
    exact hmiss hfound
  · intro hgood
    refine ⟨e', e'.trie, hrun, ?_, fun _ => rfl⟩
    have hpath : ∀ p ∈ new, StreamPath p := fun p hp => hpaths p ((hnew p).1 hp).1
    rw [← foldlM_seedLine_eq hpath] at hfold
    rw [List.nil_append] at hcached
    unfold cachedFile
    by_cases hfp : g.cachedFilesFp = true
    · rw [if_pos hfp] at hcached ⊢
      rw [hcached]
      exact cachedFilesTrie_append hload (fun p hp => (hgood p hp).2) hfold
    · -- nothing was fetched
      have hnil : new = [] := List.eq_nil_iff_forall_not_mem.2 fun p hp => hfp (hgood p hp).1
      rw [hnil] at hfold
      rw [if_neg hfp, hload]
      exact hfold

/-- A package `/r` that streams from a remote machine, which is mounted at `/s`. -/
def streamCde : Cde := { execMode := true, streamingMode := true, cderootDir := str "/r", remoteRootDir := str "/s" }

def remoteFs : Fs := Fs.ofList
  [([], .dir), ([str "r"], .dir), ([str "s"], .dir), ([str "s", str "a"], .file ⟨str "text", 1⟩)]

/-- Two paths, one of them twice, of which the remote machine has one. -/
theorem cache_restart_libs :
    ∃ e' t', streamRun streamCde [str "/a", str "/b", str "/a"] { fs := remoteFs, trie := trieNew } = .ok e' ∧
      cachedFilesTrie (cachedFile streamCde none e') = .ok t' ∧
      ∀ q, trieContains q t' = trieContains q e'.trie := by
  have hpaths : ∀ p ∈ [str "/a", str "/b", str "/a"], StreamPath p ∧ newline ∉ p := by
    intro p hp
    simp only [List.mem_cons, List.not_mem_nil, or_false] at hp
    rcases hp with rfl | rfl | rfl
    · exact ⟨⟨rfl, rfl, by simp [str]⟩, by simp [str, newline]⟩
    · exact ⟨⟨rfl, rfl, by simp [str]⟩, by simp [str, newline]⟩
    · exact ⟨⟨rfl, rfl, by simp [str]⟩, by simp [str, newline]⟩
  have hfetch : ∃ F', fetchAll streamCde (fetchList streamCde trieNew [str "/a", str "/b", str "/a"]) remoteFs =
      .ok F' := ⟨_, rfl⟩
  exact (cache_restart_iff rfl rfl rfl (fun p hp => (hpaths p hp).1) hfetch).2
    fun p hp => Or.inr (Or.inr ⟨rfl, (hpaths p hp).2⟩)

/-- One path with a newline: the next run does not find it, but finds `/b`, which was never fetched. -/
theorem cache_restart_newline :
    ∃ e' t', streamRun streamCde [str "/a\n/b"] { trie := trieNew } = .ok e' ∧
      cachedFilesTrie (cachedFile streamCde none e') = .ok t' ∧
      trieContains (str "/a\n/b") e'.trie = .ok true ∧ trieContains (str "/a\n/b") t' = .ok false ∧
      trieContains (str "/b") e'.trie = .ok false ∧ trieContains (str "/b") t' = .ok true :=
  ⟨_, _, rfl, rfl, by decide, by decide, by decide, by decide⟩

end Ptu
