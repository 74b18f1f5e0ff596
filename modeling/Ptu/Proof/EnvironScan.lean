import Ptu.Proof.Environ

/-!
# The scan of a captured environment

The loop of `load_environment_vars_from_mem` ends at an empty entry. A file from `/proc` has none, so
one has to come from the zeros behind the file in its last page.

* `examinedOffsets_lt_iff`: the scan stays in the memory exactly if an empty entry comes.
* `load_ok_iff_examined`: which is when the loader ends.
* `environ_scan_iff`: **the scan of a mapped file stays in its pages exactly if the file does not fill its
  last page, or has an empty entry itself**.
-/

namespace Ptu

open Delimited

variable {mem rest content : List Byte} {entry : CString} {entries : List CString} {o : ℕ}

/-! ## The scan -/

/-- The offsets of one round, and the rounds behind it. -/
theorem examinedLoop_entry {fuel offset : ℕ} (hne : entry ≠ []) (hnul : 0 ∉ entry) :
    examinedLoop (fuel + 1) offset (entry ++ 0 :: mem) =
      List.range' offset (entry.length + 1) ++ examinedLoop fuel (offset + entry.length + 1) mem := by
  obtain ⟨c, s, rfl⟩ := List.exists_cons_of_ne_nil hne
  have hc : c ≠ 0 := fun h => hnul (by rw [h]; exact List.mem_cons_self)
  have htake := takeWhile_append_cons (p := mem) hnul
  have hdrop := dropWhile_append_cons (p := mem) hnul
  rw [List.cons_append] at htake hdrop ⊢
  rw [examinedLoop, if_neg hc]
  simp only [htake, hdrop]

/-- **The scan stays in the memory exactly if an empty entry comes.** -/
theorem examinedLoop_lt_iff {fuel offset : ℕ} (hfuel : mem.length < fuel) :
    (∀ o ∈ examinedLoop fuel offset mem, o < offset + mem.length) ↔ ∃ entries, Stored mem entries := by
  have hend : ∀ {mem : List Byte}, 0 ∉ mem → ¬ ∃ entries, Stored mem entries := by
    rintro mem hmem ⟨entries, hstored⟩
    exact hmem hstored.mem_zero
  induction fuel generalizing mem offset with
  | zero => omega
  | succ fuel ih =>
    cases mem with
    | nil => exact iff_of_false (by simp [examinedLoop]) (hend List.not_mem_nil)
    | cons c mem =>
      by_cases hc : c = 0
      · subst hc
        refine iff_of_true ?_ ⟨[], stored_zero.2 rfl⟩
        rw [examinedLoop, if_pos rfl]
        intro o ho
        rw [List.mem_singleton.1 ho, List.length_cons]
        omega
      by_cases hnul : 0 ∈ c :: mem
      · obtain ⟨entry, next, hcut, hentry⟩ := List.eq_append_cons_of_mem hnul
        have hne : entry ≠ [] := by
          rintro rfl
          exact hc (List.cons.inj hcut).1
        have hlen : (c :: mem).length = entry.length + 1 + next.length := by
          rw [hcut, List.length_append, List.length_cons]
          omega
        have hrange : ∀ o ∈ List.range' offset (entry.length + 1), o < offset + (c :: mem).length := by
          intro o ho
          have := (List.mem_range'_1.1 ho).2
          omega
        have hsum : offset + (c :: mem).length = offset + entry.length + 1 + next.length := by omega
        have hnext : next.length < fuel := by omega
        rw [hsum] at hrange ⊢
        rw [hcut, examinedLoop_entry hne hentry, List.forall_mem_append, and_iff_right hrange]
        refine (ih hnext).trans ?_
        simp only [stored_append hne hentry]
        constructor
        · rintro ⟨tail, hstored⟩
          exact ⟨entry :: tail, tail, rfl, hstored⟩
        · rintro ⟨_, tail, rfl, hstored⟩
          exact ⟨tail, hstored⟩
      · -- the last entry has no NUL, and the scan runs out of the memory
        have hkeep : ∀ b ∈ c :: mem, (b != 0) = true := by
          intro b hb
          rw [bne_iff_ne]
          rintro rfl
          exact hnul hb
        have htake : (c :: mem).takeWhile (· != 0) = c :: mem := List.takeWhile_eq_self_iff.2 hkeep
        refine iff_of_false (fun h => ?_) (hend hnul)
        have hlast : offset + (c :: mem).length ∈ examinedLoop (fuel + 1) offset (c :: mem) := by
          rw [examinedLoop, if_neg hc]
          refine List.mem_append_left _ (List.mem_range'_1.2 ?_)
          rw [htake]
          omega
        exact Nat.lt_irrefl _ (h _ hlast)

theorem examinedOffsets_lt_iff : (∀ o ∈ examinedOffsets mem, o < mem.length) ↔ ∃ entries, Stored mem entries := by
  have h : (∀ o ∈ examinedOffsets mem, o < 0 + mem.length) ↔ ∃ entries, Stored mem entries :=
    examinedLoop_lt_iff (Nat.lt_succ_self mem.length)
  rwa [Nat.zero_add] at h

/-- The loader ends exactly if it stays in the memory. -/
theorem load_ok_iff_examined {ignored : List IgnoredVar} {environ : Environ} :
    (∃ e, loadEnvironmentVarsFromMem ignored mem environ = .ok e) ↔ ∀ o ∈ examinedOffsets mem, o < mem.length := by
  rw [examinedOffsets_lt_iff]
  simp only [load_iff]
  constructor
  · rintro ⟨e, entries, hstored, -⟩
    exact ⟨entries, hstored⟩
  · rintro ⟨entries, hstored⟩
    exact ⟨_, entries, hstored, rfl⟩

/-- The scan ends at the empty entry, whatever is behind it. -/
theorem examinedLoop_stored {fuel offset : ℕ} (h : Stored mem entries) (ho : o ∈ examinedLoop fuel offset mem) :
    o < offset + (terminated 0 entries).length + 1 := by
  induction entries generalizing mem offset fuel with
  | nil =>
    obtain ⟨-, rest, rfl⟩ := h
    cases fuel with
    | zero => exact absurd ho List.not_mem_nil
    | succ fuel =>
      rw [terminated_nil, List.nil_append, examinedLoop, if_pos rfl] at ho
      rw [List.mem_singleton.1 ho]
      omega
  | cons entry entries ih =>
    obtain ⟨hentries, rest, rfl⟩ := h
    obtain ⟨⟨hne, hnul⟩, htail⟩ := List.forall_mem_cons.1 hentries
    rw [terminated_cons, List.length_append, List.length_cons]
    cases fuel with
    | zero => exact absurd ho List.not_mem_nil
    | succ fuel =>
      rw [terminated_cons, List.append_assoc, List.cons_append, examinedLoop_entry hne hnul] at ho
      rcases List.mem_append.1 ho with ho | ho
      · have := (List.mem_range'_1.1 ho).2
        omega
      · have := ih ⟨htail, rest, rfl⟩ ho
        omega

/-! ## Mapped files -/

/-- `n` rounded up to whole pages. -/
def roundUp (n : ℕ) : ℕ := (n + pageSize - 1) / pageSize * pageSize

theorem length_mapped (content : List Byte) : (mapped content).length = roundUp content.length := by
  unfold mapped roundUp pageSize
  rw [List.length_append, List.length_replicate]
  omega

/-- **The scan stays in the pages of the file**, whatever is mapped behind them. -/
def ScanStays (content : List Byte) : Prop :=
  ∀ after, ∀ o ∈ examinedOffsets (mapped content ++ after), o < roundUp content.length

theorem scanStays_iff_stored : ScanStays content ↔ ∃ entries, Stored (mapped content) entries := by
  constructor
  · intro h
    have hinside := h []
    rw [List.append_nil, ← length_mapped] at hinside
    exact examinedOffsets_lt_iff.1 hinside
  · rintro ⟨entries, hentries, rest, hmem⟩ after o ho
    have hstored : Stored (mapped content ++ after) entries :=
      ⟨hentries, rest ++ after, by rw [hmem, List.append_assoc, List.cons_append]⟩
    have hlt := examinedLoop_stored hstored ho
    rw [← length_mapped, hmem, List.length_append, List.length_cons]
    omega

/-- Entries that are not empty are not followed by an empty one. -/
theorem not_stored_terminated (h : ∀ s ∈ entries, s ≠ [] ∧ 0 ∉ s) : ¬ ∃ found, Stored (terminated 0 entries) found := by
  induction entries with
  | nil =>
    rintro ⟨found, hstored⟩
    exact absurd hstored.mem_zero List.not_mem_nil
  | cons entry entries ih =>
    obtain ⟨⟨hne, hnul⟩, htail⟩ := List.forall_mem_cons.1 h
    rintro ⟨found, hstored⟩
    rw [terminated_cons, stored_append hne hnul] at hstored
    obtain ⟨tail, -, htail'⟩ := hstored
    exact ih htail ⟨tail, htail'⟩

theorem mapped_of_full (h : content.length % pageSize = 0) : mapped content = content := by
  have hzero : (pageSize - content.length % pageSize) % pageSize = 0 := by
    rw [h, Nat.sub_zero, Nat.mod_self]
  rw [mapped, hzero, List.replicate_zero, List.append_nil]

/-- The entries in front of the first empty one. -/
theorem stored_of_empty (h : ∀ s ∈ entries, 0 ∉ s) (hempty : [] ∈ entries) (after : List Byte) :
    ∃ found, Stored (terminated 0 entries ++ after) found := by
  obtain ⟨before, behind, rfl, hbefore⟩ := List.eq_append_cons_of_mem hempty
  refine ⟨before, fun s hs => ⟨?_, h s (List.mem_append_left _ hs)⟩, terminated 0 behind ++ after, ?_⟩
  · rintro rfl
    exact hbefore hs
  · rw [terminated_append, terminated_cons, List.nil_append, List.append_assoc, List.cons_append]

/-- **The scan of a captured environment stays in its pages exactly if the file does not fill its last
page, or has an empty entry.** -/
theorem environ_scan_iff (hentries : ∀ s ∈ entries, 0 ∉ s) :
    ScanStays (terminated 0 entries) ↔ (terminated 0 entries).length % pageSize ≠ 0 ∨ [] ∈ entries := by
  rw [scanStays_iff_stored]
  constructor
  · intro hstored
    by_contra hno
    obtain ⟨hfull, hempty⟩ := not_or.1 hno
    rw [mapped_of_full (not_not.1 hfull)] at hstored
    refine not_stored_terminated (fun s hs => ⟨?_, hentries s hs⟩) hstored
    rintro rfl
    exact hempty hs
  · intro h
    by_cases hempty : [] ∈ entries
    · exact stored_of_empty hentries hempty _
    · refine ⟨entries, stored_mapped (fun s hs => ⟨?_, hentries s hs⟩) (h.resolve_right hempty)⟩
      rintro rfl
      exact hempty hs

/-- A file of one short entry. -/
theorem environ_scan_short : ScanStays (terminated 0 [str "A=1"]) :=
  (environ_scan_iff (by decide)).2 (.inl (by decide))

/-- A file of one entry that fills a page with its NUL. -/
theorem environ_scan_full : ¬ ScanStays (terminated 0 [str "A=" ++ List.replicate 4093 49]) := by
  have hlen : (terminated 0 [str "A=" ++ List.replicate 4093 49]).length = 4096 := by
    have hname : (str "A=").length = 2 := by decide
    rw [terminated_cons, terminated_nil, List.length_append, List.length_append, List.length_replicate, hname]
    rfl
  have hentry : ∀ s ∈ [str "A=" ++ List.replicate 4093 49], s ≠ [] ∧ 0 ∉ s := by
    intro s hs
    rw [List.mem_singleton.1 hs]
    refine ⟨List.append_ne_nil_of_left_ne_nil (by decide) _, fun hnul => ?_⟩
    rcases List.mem_append.1 hnul with hnul | hnul
    · exact absurd hnul (by decide)
    · exact absurd (List.eq_of_mem_replicate hnul) (by decide)
  rw [scanStays_iff_stored, mapped_of_full (by rw [hlen]; decide)]
  exact not_stored_terminated hentry

end Ptu
