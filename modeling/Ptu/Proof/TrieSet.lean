import Mathlib.Data.Set.Insert
import Ptu.Proof.Twice

/-!
# The trie is a set of strings

A trie stands for the set of the strings that `TrieContains` finds in it.

* `members_insert`, `members_insertAll`: insertions add their strings to the set, and nothing else.
* `trie_is_set`: **after any insertions into a new trie, exactly the inserted strings are found**.
* `streaming_safe_iff`: **`create_abspath_within_cderoot` gets through the trie** if and only if the path is
  ASCII or already within cde-root, whatever the trie has.
-/

namespace Ptu

variable {g : Cde} {e : Effects} {t t' : Trie} {p q s : CString} {strings : List CString}

/-! ## Members -/

/-- The set that a trie stands for. -/
def Trie.members (t : Trie) : Set CString := {q | trieContains q t = .ok true}

theorem mem_members : q ∈ t.members ↔ trieContains q t = .ok true := Iff.rfl

theorem members_new : trieNew.members = ∅ := by
  ext q
  exact iff_of_false (trieContains_new q) (Set.notMem_empty q)

/-- **An insertion adds its string.** -/
theorem members_insert (h : trieInsert s t = .ok t') : t'.members = insert s t.members := by
  ext q
  exact trieContains_insert_iff h

/-- **Insertions add their strings**, in any order and with any prefixes shared. -/
theorem members_insertAll (h : strings.foldlM (fun t s => trieInsert s t) t = .ok t') :
    t'.members = {q | q ∈ strings} ∪ t.members := by
  induction strings generalizing t with
  | nil =>
    obtain rfl : t = t' := Except.ok.inj h
    simp
  | cons s strings ih =>
    rw [List.foldlM_cons] at h
    obtain ⟨t₁, hinsert, hrest⟩ := bind_eq_ok.1 h
    rw [ih hrest, members_insert hinsert]
    ext q
    simp only [Set.mem_union, Set.mem_insert_iff, Set.mem_ofPred_eq, List.mem_cons]
    tauto

theorem insertAll_ascii (h : ∀ s ∈ strings, isAscii s = true) (t : Trie) :
    ∃ t', strings.foldlM (fun t s => trieInsert s t) t = .ok t' := by
  induction strings generalizing t with
  | nil => exact ⟨t, rfl⟩
  | cons s strings ih =>
    obtain ⟨hs, hstrings⟩ := List.forall_mem_cons.1 h
    obtain ⟨t₁, hinsert⟩ := trieInsert_ascii hs t
    obtain ⟨t', hrest⟩ := ih hstrings t₁
    refine ⟨t', ?_⟩
    rw [List.foldlM_cons, hinsert]
    exact hrest

/-- **The trie is a set.** Insertions of ASCII strings into a new trie return, and then a lookup of an ASCII string
returns whether it was inserted. -/
theorem trie_is_set (h : ∀ s ∈ strings, isAscii s = true) :
    ∃ t, strings.foldlM (fun t s => trieInsert s t) trieNew = .ok t ∧
      ∀ q, isAscii q = true → trieContains q t = .ok (decide (q ∈ strings)) := by
  obtain ⟨t, ht⟩ := insertAll_ascii h trieNew
  refine ⟨t, ht, fun q hq => ?_⟩
  have hmembers : trieContains q t = .ok true ↔ q ∈ strings := by
    rw [← mem_members, members_insertAll ht, members_new, Set.union_empty]
    rfl
  obtain ⟨found, hfound⟩ := trieContains_ascii hq t
  rw [hfound, Except.ok.injEq] at hmembers
  rw [hfound, Except.ok.injEq, Bool.eq_iff_iff, hmembers, decide_eq_true_iff]

/-- Two strings with a common start, neither of which is there by itself. -/
theorem trie_is_set_shared :
    ∃ t, [str "/lib/a", str "/lib/b"].foldlM (fun t s => trieInsert s t) trieNew = .ok t ∧
      ∀ q, isAscii q = true → trieContains q t = .ok (decide (q ∈ [str "/lib/a", str "/lib/b"])) :=
  trie_is_set (by decide)

/-! ## Any bytes -/

/-- What is found has no byte beyond the children. -/
theorem isAscii_of_contains (h : trieContains q t = .ok true) : isAscii q = true := by
  induction q generalizing t with
  | nil => rfl
  | cons c q ih =>
    rw [trieContains] at h
    split_ifs at h with hc
    cases hchild : t.children ⟨c.toNat, hc⟩ with
    | none =>
      rw [hchild] at h
      cases h
    | some child =>
      rw [hchild] at h
      have hrest := ih h
      simp only [isAscii, List.all_cons, Bool.and_eq_true, decide_eq_true_eq] at hrest ⊢
      exact ⟨hc, hrest⟩

/-- **Streaming is safe for ASCII paths only.** A path outside of cde-root is looked up and, if it is not found,
inserted; both get through with every index below 128 if and only if the path is ASCII. In between the file is
mirrored, which may fail for reasons of its own. -/
theorem streaming_safe_iff (hexec : g.execMode = true) (hstream : g.streamingMode = true) (hp : Canonical p)
    (e : Effects) (hfetch : startsWith p g.cderootDir = false → trieContains p e.trie = .ok false →
      ∃ e', createMirrorFileInCdePackage g ⟨p, g.remoteRootDir, g.cderootDir⟩ e = .ok e') :
    (∃ r, createAbspathWithinCderoot g p e = .ok r) ↔ startsWith p g.cderootDir = true ∨ isAscii p = true := by
  have habs : isAbspath p = true := by
    obtain ⟨names, -, rfl⟩ := canonical_iff.1 hp
    exact isAbspath_render names
  constructor
  · rintro ⟨⟨r, e'⟩, hok⟩
    by_cases hwithin : startsWith p g.cderootDir = true
    · exact .inl hwithin
    · -- it is in the trie now
      have hfetched := (createAbspath_later hexec hok).1
      exact .inr (isAscii_of_contains (hfetched hstream (Bool.eq_false_iff.2 hwithin)))
  · rintro (hwithin | hascii)
    · exact ⟨_, createAbspath_within hexec habs hwithin⟩
    · have hfetchable : Fetchable g p e := by
        intro _
        cases hs : startsWith p g.cderootDir with
        | true => exact .inl rfl
        | false =>
          obtain ⟨found, hfound⟩ := trieContains_ascii hascii e.trie
          cases found with
          | true => exact .inr (.inl hfound)
          | false => exact .inr (.inr ⟨hascii, hfetch hs hfound⟩)
      obtain ⟨e', hok⟩ := createAbspath_total hexec habs hfetchable
      exact ⟨_, hok⟩

/-- A run in streaming mode. -/
def optStream : Cde := { optReplay with streamingMode := true }

theorem streaming_safe_home : ∃ r, createAbspathWithinCderoot optStream (str "/home/bob") {} = .ok r :=
  (streaming_safe_iff rfl rfl (by decide +kernel) {} fun _ _ => ⟨_, rfl⟩).2 (.inr (by decide))

/-- `/home/ü`: in a new trie the lookup ends early and the insertion fails its assertion; once another path below
`/home` has been fetched, the lookup reads beyond the children. -/
theorem streaming_umlaut :
    createAbspathWithinCderoot optStream (str "/home/" ++ [195, 188]) {} = .error .assertion ∧
    ∃ e, (createAbspathWithinCderoot optStream (str "/home/a") {}).map Prod.snd = .ok e ∧
      createAbspathWithinCderoot optStream (str "/home/" ++ [195, 188]) e = .error .segv :=
  ⟨rfl, _, rfl, rfl⟩

end Ptu
