import Mathlib.Tactic.SplitIfs
import Ptu.Spec.Symlink

/-!
# Copies into the memory of a traced process

`memcpy_to_child` writes words of eight bytes in steps of four.

* `memcpyToChildOrExit_ok`: a copy that meets no unmapped word is `memcpyToChild`.
* `memcpyToChild_eq`: that is one store, of the source and of what the last word has beyond it.
* `memcpy_delivers`: **the destination then has the bytes of the source**, for every size.
* `memcpy_frame_iff`: **only the destination changes** if and only if there is no full step or the
  bytes behind the destination are already those behind the source.
-/

namespace Ptu

open Memory

variable {beyond : List Byte} {mem mem' : Mem} {dst : Word} {src : List Byte}

/-- A copy in which every word is mapped. -/
def memcpyToChild (beyond : List Byte) : Mem → Word → List Byte → Mem
  | mem, dst, a :: b :: c :: d :: src =>
    memcpyToChild beyond (mem.store dst (a :: b :: c :: d :: (src ++ beyond).take 4)) (dst + 4) src
  | mem, dst, src => mem.store dst src

/-- What the last full word has beyond a source of `n` bytes. -/
def spill (beyond : List Byte) (n : ℕ) : List Byte :=
  if n < 4 then [] else beyond.take (4 - n % 4)

theorem spill_length_le (beyond : List Byte) (n : ℕ) : (spill beyond n).length ≤ 4 := by
  unfold spill
  split_ifs
  · simp
  · rw [List.length_take]
    omega

theorem spill_add_four (beyond : List Byte) {n : ℕ} (h : 4 ≤ n) : spill beyond (n + 4) = spill beyond n := by
  unfold spill
  rw [if_neg (by omega), if_neg (by omega), Nat.add_mod_right]

theorem length_lt_four (h : ∀ a b c d rest, src = a :: b :: c :: d :: rest → False) : src.length < 4 := by
  rcases src with _ | ⟨a, _ | ⟨b, _ | ⟨c, _ | ⟨d, rest⟩⟩⟩⟩
  · simp
  · simp
  · simp
  · simp
  · exact (h a b c d rest rfl).elim

/-- **A copy is one store**, of the source and of what the last word has beyond it. -/
theorem memcpyToChild_eq (beyond : List Byte) (mem : Mem) (dst : Word) (src : List Byte)
    (hlen : src.length + 8 ≤ 2 ^ 64) :
    memcpyToChild beyond mem dst src = mem.store dst (src ++ spill beyond src.length) := by
  fun_induction memcpyToChild beyond mem dst src with
  | case1 mem dst a b c d src ih =>
    simp only [List.length_cons] at hlen
    rw [ih (by omega)]
    rcases Nat.lt_or_ge src.length 4 with hshort | hlong
    · -- the last word already has the rest of the source
      have hword : (src ++ beyond).take 4 = src ++ beyond.take (4 - src.length) := by
        rw [List.take_append, List.take_of_length_le (by omega)]
      have hmod : (src.length + 4) % 4 = src.length := by omega
      have hrest : spill beyond (a :: b :: c :: d :: src).length = beyond.take (4 - src.length) := by
        unfold spill
        simp only [List.length_cons]
        rw [if_neg (by omega), hmod]
      have hholds : Holds (mem.store dst ([a, b, c, d] ++ (src ++ beyond.take (4 - src.length)))) dst
          ([a, b, c, d] ++ (src ++ beyond.take (4 - src.length))) :=
        holds_store _ _ (by simp only [List.length_append, List.length_cons, List.length_nil, List.length_take]; omega)
      have hsrc := (holds_append.1 (holds_append.1 hholds).2).1
      have hempty : spill beyond src.length = [] := if_pos hshort
      rw [hempty, List.append_nil, hword, hrest]
      exact hsrc.store_self
    · have hword : (src ++ beyond).take 4 = src.take 4 := List.take_append_of_le_length hlong
      have hspill := spill_length_le beyond src.length
      rw [hword]
      have hstore : (mem.store dst ([a, b, c, d] ++ src.take 4)).store (dst + BitVec.ofNat 64 [a, b, c, d].length)
          (src ++ spill beyond src.length) = mem.store dst ([a, b, c, d] ++ (src ++ spill beyond src.length)) :=
        store_store mem dst _ (by rw [List.length_append, List.length_take]; omega)
          (by simp only [List.length_append, List.length_cons, List.length_nil]; omega)
      simp only [List.length_cons]
      rw [spill_add_four beyond hlong]
      exact hstore
  | case2 mem dst src hshort =>
    rw [spill, if_pos (length_lt_four hshort), List.append_nil]

/-- **The text stands in the memory of the process**, whatever stands behind it. -/
theorem holds_memcpyToChild (beyond : List Byte) (mem : Mem) (dst : Word) (src : List Byte)
    (hlen : src.length + 8 ≤ 2 ^ 64) : Holds (memcpyToChild beyond mem dst src) dst src := by
  have hspill := spill_length_le beyond src.length
  rw [memcpyToChild_eq beyond mem dst src hlen]
  exact (holds_append.1 (holds_store mem dst (by rw [List.length_append]; omega))).1

/-! ## Words that are not mapped -/

theorem pokeData_eq_ok {a : Word} {word : List Byte} (h : pokeData mem a word = .ok mem') :
    mem' = mem.store a word := by
  unfold pokeData at h
  split_ifs at h
  exact (Except.ok.inj h).symm

/-- Writing back what was read changes nothing behind the first bytes. -/
theorem store_append_drop {a : Word} {dw bs : List Byte} (h : mem.load a 8 = some dw) (hbs : bs.length ≤ 8) :
    mem.store a (bs ++ dw.drop bs.length) = mem.store a bs := by
  obtain ⟨hlen, hholds⟩ := Holds.of_load h
  have hrest : Holds (mem.store a bs) (a + BitVec.ofNat 64 bs.length) (dw.drop bs.length) := by
    have hdrop := hholds.drop (by omega : bs.length ≤ dw.length)
    refine hdrop.congr fun i hi => store_other ?_
    rw [List.length_drop] at hi
    rw [← add_ofNat_add, sub_toNat a (by omega)]
    omega
  have happend : (mem.store a (bs ++ [])).store (a + BitVec.ofNat 64 bs.length) (dw.drop bs.length) =
      mem.store a (bs ++ dw.drop bs.length) := store_store mem a _ (by simp) (by rw [List.length_drop]; omega)
  rw [← happend, List.append_nil, hrest.store_self]

/-- **A copy that meets no unmapped word** is the copy without such words. -/
theorem memcpyToChildOrExit_ok (h : memcpyToChildOrExit beyond mem dst src = .ok mem') :
    mem' = memcpyToChild beyond mem dst src := by
  fun_induction memcpyToChild beyond mem dst src with
  | case1 mem dst a b c d src ih =>
    rw [memcpyToChildOrExit] at h
    obtain ⟨mem₁, hpoke, h⟩ := bind_eq_ok.1 h
    rw [pokeData_eq_ok hpoke] at h
    exact ih h
  | case2 mem dst src hshort =>
    have hlt := length_lt_four hshort
    have hcases : src = [] ∨ ∃ dw, mem.load dst 8 = some dw ∧
        pokeData mem dst (src ++ dw.drop src.length) = .ok mem' := by
      rcases src with _ | ⟨a, src⟩
      · exact .inl rfl
      · right
        rw [memcpyToChildOrExit] at h
        · cases hload : mem.load dst 8 with
          | none =>
            rw [hload] at h
            cases h
          | some dw =>
            rw [hload] at h
            exact ⟨dw, rfl, h⟩
        · exact hshort
        · simp
    rcases hcases with rfl | ⟨dw, hload, hpoke⟩
    · rw [memcpyToChildOrExit] at h
      rw [(holds_nil mem dst).store_self, Except.ok.inj h]
    · rw [pokeData_eq_ok hpoke, store_append_drop hload (by omega)]

theorem pokeData_total {a : Word} (word : List Byte) (h : ∀ i < 8, mem (a + BitVec.ofNat 64 i) ≠ none) :
    pokeData mem a word = .ok (mem.store a word) := by
  obtain ⟨dw, hdw⟩ := load_total h
  unfold pokeData
  rw [hdw]
  rfl

theorem memcpyToChildOrExit_total (beyond : List Byte)
    (h : ∀ i < src.length + 8, mem (dst + BitVec.ofNat 64 i) ≠ none) :
    memcpyToChildOrExit beyond mem dst src = .ok (memcpyToChild beyond mem dst src) := by
  have hword : ∀ i < 8, mem (dst + BitVec.ofNat 64 i) ≠ none := fun i hi => h i (by omega)
  fun_induction memcpyToChild beyond mem dst src with
  | case1 mem dst a b c d src ih =>
    rw [memcpyToChildOrExit, pokeData_total _ hword]
    have hnext : ∀ i < src.length + 8,
        mem.store dst (a :: b :: c :: d :: (src ++ beyond).take 4) (dst + 4 + BitVec.ofNat 64 i) ≠ none := by
      intro i hi
      apply store_ne_none
      have hmapped := h (4 + i) (by simp only [List.length_cons]; omega)
      rwa [add_ofNat_add] at hmapped
    exact ih hnext fun i hi => hnext i (by omega)
  | case2 mem dst src hshort =>
    have hlt := length_lt_four hshort
    obtain ⟨dw, hdw⟩ := load_total hword
    rcases src with _ | ⟨a, src⟩
    · rw [memcpyToChildOrExit, (holds_nil mem dst).store_self]
    · have hpoke := pokeData_total (a :: src ++ dw.drop (a :: src).length) hword
      rw [store_append_drop hdw (by omega)] at hpoke
      rw [memcpyToChildOrExit, hdw]
      · exact hpoke
      · exact hshort
      · simp

/-! ## What is delivered -/

/-- **The bytes are delivered**: if the copy returns, the bytes of the source stand at the destination, and it returns
if the words it may write are mapped. The stores overlap by four bytes, and the last one is merged into a word that was
partly written before. -/
theorem memcpy_delivers (beyond : List Byte) (mem : Mem) (dst : Word) (hsize : src.length < 2 ^ 31) :
    (∀ mem', memcpyToChildOrExit beyond mem dst src = .ok mem' → Holds mem' dst src) ∧
      ((∀ i < src.length + 8, mem (dst + BitVec.ofNat 64 i) ≠ none) →
        ∃ mem', memcpyToChildOrExit beyond mem dst src = .ok mem' ∧ Holds mem' dst src) := by
  have hholds : Holds (memcpyToChild beyond mem dst src) dst src := holds_memcpyToChild beyond mem dst src (by omega)
  refine ⟨fun mem' hok => ?_, fun hmapped => ⟨_, memcpyToChildOrExit_total beyond hmapped, hholds⟩⟩
  rw [memcpyToChildOrExit_ok hok]
  exact hholds

/-- A memory of zeros. -/
def zeros : Mem := fun _ => some 0

/-- Seven bytes: one full step and three bytes merged into the word behind it. -/
theorem memcpy_delivers_seven :
    ∃ mem', memcpyToChildOrExit [9, 9, 9, 9] zeros 16 [1, 2, 3, 4, 5, 6, 7] = .ok mem' ∧
      Holds mem' 16 [1, 2, 3, 4, 5, 6, 7] := by
  refine (memcpy_delivers [9, 9, 9, 9] zeros 16 (by decide)).2 fun i _ => ?_
  simp [zeros]

/-! ## The frame of a copy -/

/-- **Only the destination changes** if and only if there is no full step, or the bytes behind the
destination are already those that the tracer has behind the source. -/
theorem memcpy_frame_iff (hsize : src.length < 2 ^ 31)
    (h : memcpyToChildOrExit beyond mem dst src = .ok mem') :
    (∀ x, src.length ≤ (x - dst).toNat → mem' x = mem x) ↔
      src.length < 4 ∨
        Holds mem (dst + BitVec.ofNat 64 src.length) (beyond.take (4 - src.length % 4)) := by
  have hspill := spill_length_le beyond src.length
  have hframe := store_frame_iff mem dst (src ++ spill beyond src.length) 0 src.length
    (by rw [List.length_append]; omega)
  rw [BitVec.add_zero, Nat.sub_zero, Nat.zero_add, List.drop_left] at hframe
  rw [memcpyToChildOrExit_ok h, memcpyToChild_eq _ _ _ _ (by omega), hframe]
  unfold spill
  by_cases hshort : src.length < 4
  · rw [if_pos hshort]
    exact iff_of_true (holds_nil _ _) (.inl hshort)
  · rw [if_neg hshort]
    exact (or_iff_right hshort).symm

/-- Five bytes, where the three behind them are zero on both sides. -/
theorem memcpy_frame_zeros :
    ∃ mem', memcpyToChildOrExit [0, 0, 0, 9] zeros 16 [1, 2, 3, 4, 5] = .ok mem' ∧
      ∀ x : Word, 5 ≤ (x - 16).toNat → mem' x = zeros x := by
  have hmapped : ∀ i < ([1, 2, 3, 4, 5] : List Byte).length + 8, zeros (16 + BitVec.ofNat 64 i) ≠ none := by
    intro i _
    simp [zeros]
  have hok := memcpyToChildOrExit_total [0, 0, 0, 9] hmapped
  refine ⟨_, hok, (memcpy_frame_iff (by decide) hok).2 (.inr ?_)⟩
  unfold Holds
  decide

/-- Four bytes are copied and eight are changed. -/
theorem memcpy_changes_more :
    (memcpyToChildOrExit [9, 9, 9, 9] zeros 16 [1, 2, 3, 4]).map (fun mem => mem 20) = .ok (some 9) ∧
      zeros 20 = some 0 := by
  decide

end Ptu
