import Mathlib.Data.List.Infix
import Mathlib.Tactic.SplitIfs
import Ptu.Spec.Umove

/-!
# Strings fetched from a traced process

* `moveBytes_spec`: what the word loop copies is what stands in the memory, up to the end of the
  buffer, to a word at which it returns, or to the end of the readable memory.
* `strcpyFromChildOrNull_text`: a text that is shorter than the buffer is fetched as it is.
* `fetched_string_iff`: **a fetched string is terminated** if and only if it ends within the buffer,
  by a NUL or, where the memory ends, by a NUL that was in the buffer before.
-/

namespace Ptu

open Memory

variable {mem : Mem} {stop : List Byte → Bool} {a addr : Word} {u bs : List Byte} {len : ℕ}

/-- Memory is mapped in pages, so a word is mapped as a whole or not at all. -/
def WordMapped (mem : Mem) : Prop :=
  ∀ a : Word, a.toNat % 8 = 0 → ∀ i < 8, mem (a + BitVec.ofNat 64 i) = none → mem a = none

theorem peekData_eq_some (h : peekData mem a = some u) : u.length = 8 ∧ Holds mem a u := Holds.of_load h

theorem WordMapped.peekData_eq_none (hmap : WordMapped mem) (ha : a.toNat % 8 = 0)
    (h : peekData mem a = none) : mem a = none := by
  by_contra hmem
  obtain ⟨u, hu⟩ := load_total (m := mem) (a := a) (n := 8) fun i hi hnone => hmem (hmap a ha i hi hnone)
  unfold peekData at h
  rw [h] at hu
  cases hu

/-- The bytes `bs` are copied from the address `a` on into a buffer of `len` bytes. -/
structure Moved (mem : Mem) (stop : List Byte → Bool) (a : Word) (len : ℕ) (bs : List Byte) : Prop where
  holds : Holds mem a bs
  length_le : bs.length ≤ len
  ended : bs.length = len ∨ (∃ u, stop u = true ∧ u <:+ bs) ∨ mem (a + BitVec.ofNat 64 bs.length) = none

theorem Moved.nil (mem : Mem) (stop : List Byte → Bool) (a : Word) : Moved mem stop a 0 [] :=
  ⟨holds_nil mem a, Nat.le_refl _, .inl rfl⟩

/-- The loop returns at a word. -/
theorem Moved.last (hu : Holds mem a u) (hstop : stop u = true) (len : ℕ) : Moved mem stop a len (u.take len) := by
  refine ⟨hu.take len, by rw [List.length_take]; omega, ?_⟩
  rcases Nat.le_total len u.length with hclip | hfit
  · exact .inl (by rw [List.length_take]; omega)
  · exact .inr (.inl ⟨u, hstop, by rw [List.take_of_length_le hfit]⟩)

/-- The loop goes on behind a word. -/
theorem Moved.next (hu : Holds mem a u)
    (hrest : Moved mem stop (a + BitVec.ofNat 64 u.length) (len - u.length) bs) :
    Moved mem stop a len (u.take len ++ bs) := by
  have hle := hrest.length_le
  rcases Nat.le_total len u.length with hclip | hfit
  · -- the word is the last one of the buffer
    have hnil : bs = [] := List.length_eq_zero_iff.1 (by omega)
    rw [hnil, List.append_nil]
    have hlen : (u.take len).length = len := by rw [List.length_take]; omega
    exact ⟨hu.take len, by omega, .inl hlen⟩
  · rw [List.take_of_length_le hfit]
    refine ⟨holds_append.2 ⟨hu, hrest.holds⟩, by rw [List.length_append]; omega, ?_⟩
    rcases hrest.ended with hfull | ⟨v, hv, hsuf⟩ | hend
    · exact .inl (by rw [List.length_append]; omega)
    · exact .inr (.inl ⟨v, hv, hsuf.trans (List.suffix_append u bs)⟩)
    · exact .inr (.inr (by rw [List.length_append, add_ofNat_add]; exact hend))

theorem moveWords_spec (hmap : WordMapped mem) {fuel : ℕ} {started : Bool} (hfuel : len ≤ fuel)
    (haddr : addr.toNat % 8 = 0) (h : moveWords mem stop fuel started addr len = some bs) :
    Moved mem stop addr len bs := by
  induction fuel generalizing started addr len bs with
  | zero =>
    obtain rfl : len = 0 := by omega
    rw [moveWords] at h
    · obtain rfl := Option.some.inj h
      exact Moved.nil mem stop addr
    · simp
  | succ fuel ih =>
    cases len with
    | zero =>
      rw [moveWords] at h
      · obtain rfl := Option.some.inj h
        exact Moved.nil mem stop addr
      · simp
    | succ len =>
      rw [moveWords] at h
      cases hpeek : peekData mem addr with
      | none =>
        rw [hpeek] at h
        cases started with
        | false => cases h
        | true =>
          obtain rfl := Option.some.inj h
          have hend := hmap.peekData_eq_none haddr hpeek
          exact ⟨holds_nil mem addr, Nat.zero_le _, .inr (.inr (by rw [List.length_nil, BitVec.add_zero, hend]))⟩
      | some u =>
        rw [hpeek] at h
        obtain ⟨hlen, hu⟩ := peekData_eq_some hpeek
        dsimp only at h
        split_ifs at h with hstop
        · obtain rfl := Option.some.inj h
          exact Moved.last hu hstop _
        · obtain ⟨rest, hrest, rfl⟩ := Option.map_eq_some_iff.1 h
          have hnext : (addr + 8).toNat % 8 = 0 := by
            have hlt := addr.isLt
            rw [BitVec.toNat_add, (by rfl : (8 : Word).toNat = 8)]
            omega
          have hmoved := ih (by omega) hnext hrest
          apply Moved.next hu
          rw [hlen]
          exact hmoved

/-- **What is copied.** -/
theorem moveBytes_spec (hmap : WordMapped mem) (h : moveBytes mem stop addr len = some bs) :
    Moved mem stop addr len bs := by
  unfold moveBytes at h
  obtain ⟨n, hn⟩ : ∃ n, addr.toNat % 8 = n := ⟨_, rfl⟩
  simp only [hn] at h
  split_ifs at h with haligned
  · exact moveWords_spec hmap (Nat.le_refl _) (by omega) h
  · cases hpeek : peekData mem (addr - BitVec.ofNat 64 n) with
    | none =>
      rw [hpeek] at h
      cases h
    | some u =>
      rw [hpeek] at h
      obtain ⟨hlen, hword⟩ := peekData_eq_some hpeek
      have hlt := addr.isLt
      have h8 : (8 : Word).toNat = 8 := rfl
      have hu : Holds mem addr (u.drop n) := by
        have hdrop := hword.drop (by omega : n ≤ u.length)
        rwa [BitVec.sub_add_cancel] at hdrop
      dsimp only at h
      split_ifs at h with hstop
      · obtain rfl := Option.some.inj h
        exact Moved.last hu hstop _
      · obtain ⟨rest, hrest, rfl⟩ := Option.map_eq_some_iff.1 h
        have hnext : addr - BitVec.ofNat 64 n + 8 = addr + BitVec.ofNat 64 (u.drop n).length := by
          apply BitVec.eq_of_toNat_eq
          rw [List.length_drop]
          simp only [BitVec.toNat_add, BitVec.toNat_sub, BitVec.toNat_ofNat, h8]
          omega
        have hstart : (addr - BitVec.ofNat 64 n + 8).toNat % 8 = 0 := by
          simp only [BitVec.toNat_add, BitVec.toNat_sub, BitVec.toNat_ofNat, h8]
          omega
        have hmoved := moveWords_spec hmap (by omega) hstart hrest
        apply Moved.next hu
        rw [← hnext, List.length_drop, hlen]
        exact hmoved

/-- A copy that has started does not fail. -/
theorem moveWords_started (mem : Mem) (stop : List Byte → Bool) (fuel : ℕ) (addr : Word) (len : ℕ) :
    ∃ bs, moveWords mem stop fuel true addr len = some bs := by
  induction fuel generalizing addr len with
  | zero => exact ⟨[], by rw [moveWords]; simp⟩
  | succ fuel ih =>
    cases len with
    | zero => exact ⟨[], by rw [moveWords]; simp⟩
    | succ len =>
      rw [moveWords]
      cases peekData mem addr with
      | none => exact ⟨[], rfl⟩
      | some u =>
        dsimp only
        split_ifs
        · exact ⟨_, rfl⟩
        · obtain ⟨rest, hrest⟩ := ih (addr + 8) (len + 1 - 8)
          rw [hrest]
          exact ⟨_, rfl⟩

/-- Memory in which the bytes of a word are all mapped or all unmapped. -/
def WholeWords (mem : Mem) : Prop :=
  ∀ a : Word, a.toNat % 8 = 0 → ∀ i < 8, ∀ j < 8, mem (a + BitVec.ofNat 64 i) = none →
    mem (a + BitVec.ofNat 64 j) = none

theorem WholeWords.wordMapped (h : WholeWords mem) : WordMapped mem := by
  intro a ha i hi hnone
  have hfirst := h a ha i hi 0 (by decide) hnone
  rwa [BitVec.add_zero] at hfirst

theorem WholeWords.congr (h : WholeWords mem) {mem' : Mem} (hmem : ∀ x, mem' x = none ↔ mem x = none) :
    WholeWords mem' := by
  intro a ha i hi j hj hnone
  exact (hmem _).2 (h a ha i hi j hj ((hmem _).1 hnone))

/-- The word of a byte that can be read can be read. -/
theorem WholeWords.peekData_total (h : WholeWords mem) (ha : a.toNat % 8 = 0) {n : ℕ} (hn : n < 8)
    (hmem : mem (a + BitVec.ofNat 64 n) ≠ none) : ∃ u, peekData mem a = some u :=
  load_total fun i hi hnone => hmem (h a ha i hi n hn hnone)

/-- **A copy fails only if the first byte cannot be read.** -/
theorem moveBytes_total (hmap : WholeWords mem) (hmem : mem addr ≠ none) (stop : List Byte → Bool) {len : ℕ}
    (hlen : 0 < len) : ∃ bs, moveBytes mem stop addr len = some bs := by
  obtain ⟨n, hn⟩ : ∃ n, addr.toNat % 8 = n := ⟨_, rfl⟩
  have hlt := addr.isLt
  have haligned : (addr - BitVec.ofNat 64 n).toNat % 8 = 0 := by
    simp only [BitVec.toNat_sub, BitVec.toNat_ofNat]
    omega
  obtain ⟨u, hu⟩ : ∃ u, peekData mem (addr - BitVec.ofNat 64 n) = some u :=
    hmap.peekData_total haligned (by omega : n < 8) (by rwa [BitVec.sub_add_cancel])
  unfold moveBytes
  simp only [hn]
  split_ifs with hzero
  · obtain ⟨len, rfl⟩ : ∃ k, len = k + 1 := ⟨len - 1, by omega⟩
    rw [hzero, BitVec.sub_zero] at hu
    rw [moveWords, hu]
    dsimp only
    split_ifs
    · exact ⟨_, rfl⟩
    · obtain ⟨rest, hrest⟩ := moveWords_started mem stop len (addr + 8) (len + 1 - 8)
      rw [hrest]
      exact ⟨_, rfl⟩
  · rw [hu]
    dsimp only
    split_ifs
    · exact ⟨_, rfl⟩
    · obtain ⟨rest, hrest⟩ := moveWords_started mem stop len (addr - BitVec.ofNat 64 n + 8) (len - (8 - n))
      rw [hrest]
      exact ⟨_, rfl⟩

/-! ## Strings -/

/-- The string at `a` up to its first NUL or the end of the memory, cut to `n` bytes. -/
def childString (mem : Mem) : ℕ → Word → CString
  | 0, _ => []
  | n + 1, a =>
    match mem a with
    | none => []
    | some c => if c = 0 then [] else c :: childString mem n (a + 1)

theorem childString_eq {s : CString} {n : ℕ} (hs : Holds mem a s) (hnul : 0 ∉ s) (hlen : s.length ≤ n)
    (hend : s.length = n ∨ mem (a + BitVec.ofNat 64 s.length) = some 0 ∨
      mem (a + BitVec.ofNat 64 s.length) = none) : childString mem n a = s := by
  induction s generalizing a n with
  | nil =>
    cases n with
    | zero => rfl
    | succ n =>
      rw [List.length_nil, BitVec.add_zero] at hend
      rcases hend with hn | hzero | hnone
      · omega
      · simp [childString, hzero]
      · simp [childString, hnone]
  | cons c s ih =>
    obtain ⟨n, rfl⟩ : ∃ k, n = k + 1 := ⟨n - 1, by simp only [List.length_cons] at hlen; omega⟩
    have hc : mem a = some c := by
      have hfirst := hs 0 (by simp)
      rwa [BitVec.add_zero] at hfirst
    have hne : c ≠ 0 := fun hzero => hnul (by simp [hzero])
    obtain ⟨-, hrest⟩ : Holds mem a [c] ∧ Holds mem (a + 1) s := holds_append.1 hs
    simp only [List.length_cons] at hlen hend
    rw [add_ofNat_succ] at hend
    have hih : childString mem n (a + 1) = s := by
      apply ih hrest (fun hmem => hnul (List.mem_cons_of_mem _ hmem)) (by omega)
      rcases hend with hn | hend
      · exact .inl (by omega)
      · exact .inr hend
    rw [childString, hc]
    simp only [if_neg hne, hih]

/-- What `strdup` makes of a buffer that starts with the string `s`. -/
theorem takeWhile_append_of_nul {s rest : List Byte} (hs : 0 ∉ s) :
    (s ++ rest).takeWhile (· != 0) = s ++ rest.takeWhile (· != 0) := by
  apply List.takeWhile_append_of_pos
  intro c hc
  have hne : c ≠ 0 := fun hzero => hs (hzero ▸ hc)
  simpa using hne

/-- Behind bytes without a NUL, the buffer ends the string with what it had there before. -/
theorem takeWhile_buffer_iff {s path : List Byte} (hs : 0 ∉ s) :
    (0 ∈ s ++ path.drop s.length ∧ (s ++ path.drop s.length).takeWhile (· != 0) = s) ↔
      path[s.length]? = some 0 := by
  have hget : path[s.length]? = (path.drop s.length).head? := by simp
  rw [takeWhile_append_of_nul hs, hget]
  cases path.drop s.length with
  | nil => simpa using hs
  | cons c rest =>
    rw [List.head?_cons, Option.some.injEq]
    constructor
    · rintro ⟨-, hstring⟩
      have hnil : (c :: rest).takeWhile (· != 0) = [] := by simpa using hstring
      rw [List.takeWhile_cons] at hnil
      split_ifs at hnil with hcond
      simpa using hcond
    · rintro rfl
      exact ⟨by simp, by simp⟩

/-- **A fetched string is terminated**, and it is the string of the process, if and only if it ends
within the buffer: by a NUL of its own or, at the end of the memory, by one that the buffer has there
from before. -/
theorem fetched_string_iff {path bytes : List Byte} (hmap : WordMapped mem) (hpath : path.length = maxPathLen)
    (h : umovestr mem addr maxPathLen = some bytes) :
    (0 ∈ bytes ++ path.drop bytes.length ∧
        strcpyFromChildOrNull path mem addr = .ok (some (childString mem (maxPathLen - 1) addr))) ↔
      (childString mem maxPathLen addr).length < maxPathLen ∧
        (mem (addr + BitVec.ofNat 64 (childString mem maxPathLen addr).length) = none →
          path[(childString mem maxPathLen addr).length]? = some 0) := by
  have hmoved := moveBytes_spec hmap h
  have hle := hmoved.length_le
  have hmax : maxPathLen = 4096 := rfl
  unfold strcpyFromChildOrNull
  rw [h]
  dsimp only
  by_cases hnul : 0 ∈ bytes
  · -- the bytes up to the first NUL are the string
    obtain ⟨s, rest, rfl, hs⟩ := List.eq_append_cons_of_mem hnul
    obtain ⟨hholds, hzero⟩ := holds_append.1 hmoved.holds
    have hend : mem (addr + BitVec.ofNat 64 s.length) = some 0 := by
      have hfirst := hzero 0 (by simp)
      rwa [BitVec.add_zero] at hfirst
    have hshort : s.length < maxPathLen := by
      simp only [List.length_append, List.length_cons] at hle
      omega
    have hlong := childString_eq hholds hs (by omega : s.length ≤ maxPathLen) (.inr (.inl hend))
    have hcut := childString_eq hholds hs (by omega : s.length ≤ maxPathLen - 1) (.inr (.inl hend))
    have hmem : 0 ∈ s ++ 0 :: rest ++ path.drop (s ++ 0 :: rest).length := by simp
    rw [hlong, hcut, if_pos hmem, List.append_assoc, takeWhile_append_of_nul hs]
    refine iff_of_true ⟨by simp, by simp⟩ ⟨hshort, fun hnone => ?_⟩
    rw [hend] at hnone
    cases hnone
  · by_cases hfull : bytes.length = maxPathLen
    · -- a string as long as the buffer leaves no room for a NUL
      have hlong := childString_eq hmoved.holds hnul hle (.inl hfull)
      have hdrop : path.drop bytes.length = [] := List.drop_eq_nil_of_le (by omega)
      rw [hlong, hdrop, List.append_nil]
      refine iff_of_false ?_ ?_
      · rintro ⟨hmem, -⟩
        exact hnul hmem
      · rintro ⟨hlt, -⟩
        omega
    · have hend : mem (addr + BitVec.ofNat 64 bytes.length) = none := by
        rcases hmoved.ended with hlen | ⟨u, hu, hsuf⟩ | hend
        · exact absurd hlen hfull
        · exact absurd (hsuf.subset (by simpa using hu)) hnul
        · exact hend
      have hlong := childString_eq hmoved.holds hnul hle (.inr (.inr hend))
      have hcut := childString_eq hmoved.holds hnul (by omega : bytes.length ≤ maxPathLen - 1) (.inr (.inr hend))
      -- what follows the string is what the buffer had before
      rw [hlong, hcut, ← takeWhile_buffer_iff hnul]
      constructor
      · rintro ⟨hmem, hstring⟩
        rw [if_pos hmem] at hstring
        exact ⟨by omega, fun _ => ⟨hmem, Option.some.inj (Except.ok.inj hstring)⟩⟩
      · rintro ⟨-, hzero⟩
        obtain ⟨hmem, hstring⟩ := hzero hend
        exact ⟨hmem, by rw [if_pos hmem, hstring]⟩

/-- **A text shorter than the buffer is fetched as it is**, whatever the buffer has before. -/
theorem strcpyFromChildOrNull_text (hmap : WholeWords mem) {s : CString} (hnul : 0 ∉ s) (hlen : s.length < maxPathLen)
    (h : Holds mem addr (s ++ [0])) (path : List Byte) : strcpyFromChildOrNull path mem addr = .ok (some s) := by
  have hbyte : ∀ i ≤ s.length, mem (addr + BitVec.ofNat 64 i) ≠ none := by
    intro i hi
    rw [h i (by rw [List.length_append, List.length_singleton]; omega)]
    simp
  have hfirst : mem addr ≠ none := by
    have hmem := hbyte 0 (Nat.zero_le _)
    rwa [BitVec.add_zero] at hmem
  obtain ⟨bytes, hbytes⟩ : ∃ bytes, umovestr mem addr maxPathLen = some bytes :=
    moveBytes_total hmap hfirst _ (by decide)
  have hmoved := moveBytes_spec hmap.wordMapped hbytes
  -- the copy does not end before the NUL
  have hlong : s.length < bytes.length := by
    by_contra hshort
    have hpre : bytes <+: s := hmoved.holds.load_isPrefix (holds_append.1 h).1.load (by omega)
    rcases hmoved.ended with hfull | ⟨u, hu, hsuf⟩ | hend
    · omega
    · exact hnul (hpre.subset (hsuf.subset (by simpa using hu)))
    · exact hbyte bytes.length (by omega) hend
  obtain ⟨rest, rfl⟩ : s ++ [0] <+: bytes :=
    h.load_isPrefix hmoved.holds.load (by rw [List.length_append, List.length_singleton]; omega)
  unfold strcpyFromChildOrNull
  rw [hbytes]
  dsimp only
  rw [if_pos (by simp), List.append_assoc, List.append_assoc, takeWhile_append_of_nul hnul]
  simp

/-- A memory of zeros with the string `/tmp/x` at an address that is no multiple of eight. -/
def tmpMemory : Mem := Mem.store (fun _ => some 0) 0x1003 (str "/tmp/x")

theorem tmpMemory_mapped : WordMapped tmpMemory := by
  intro a _ i _ hnone
  exact absurd hnone (store_ne_none _ _ (by simp))

theorem fetched_string_tmp :
    0 ∈ str "/tmp/x" ++ [0, 0, 0, 0, 0, 0, 0] ++ (List.replicate maxPathLen 98).drop 13 ∧
      strcpyFromChildOrNull (List.replicate maxPathLen 98) tmpMemory 0x1003 =
        .ok (some (childString tmpMemory (maxPathLen - 1) 0x1003)) := by
  have hstring : childString tmpMemory maxPathLen 0x1003 = str "/tmp/x" := by rfl
  have hpath : (List.replicate maxPathLen (98 : Byte)).length = maxPathLen := List.length_replicate
  refine (fetched_string_iff tmpMemory_mapped hpath rfl).2 ⟨?_, ?_⟩
  · rw [hstring]
    decide
  · rw [hstring]
    intro hnone
    exact absurd hnone (by decide)

/-- A memory without a NUL. -/
def fullMemory : Mem := fun _ => some 97

/-- **A long string is not terminated**: `strdup` reads beyond the buffer. -/
theorem fetched_string_endless :
    ∃ bytes, umovestr fullMemory 0x1000 maxPathLen = some bytes ∧
      0 ∉ bytes ++ (List.replicate maxPathLen 98).drop bytes.length ∧
      strcpyFromChildOrNull (List.replicate maxPathLen 98) fullMemory 0x1000 = .error .segv := by
  have hmap : WordMapped fullMemory := by
    intro a _ i _ hnone
    cases hnone
  obtain ⟨bytes, hbytes⟩ := Option.isSome_iff_exists.1
    (by decide +kernel : (umovestr fullMemory 0x1000 maxPathLen).isSome = true)
  have hmoved := moveBytes_spec hmap hbytes
  have hnul : 0 ∉ bytes := by
    intro hmem
    obtain ⟨i, hi, hget⟩ := List.getElem_of_mem hmem
    have hbyte := hmoved.holds i hi
    simp only [fullMemory, List.get_eq_getElem, hget] at hbyte
    cases hbyte
  have hbuffer : 0 ∉ bytes ++ (List.replicate maxPathLen 98).drop bytes.length := by
    intro hmem
    rcases List.mem_append.1 hmem with hmem | hmem
    · exact hnul hmem
    · exact absurd (List.eq_of_mem_replicate (List.mem_of_mem_drop hmem)) (by decide)
  refine ⟨bytes, hbytes, hbuffer, ?_⟩
  unfold strcpyFromChildOrNull
  rw [hbytes]
  exact if_neg hbuffer

end Ptu
