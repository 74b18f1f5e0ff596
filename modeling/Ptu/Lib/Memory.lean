import Mathlib.Algebra.Group.Nat.Defs
import Mathlib.Data.List.Basic

/-!
# Byte memory

A memory of 64-bit addresses, some of which are mapped to a byte. `store` writes a block
of bytes, `load` reads one; addresses wrap around.

* `holds_store`, `Holds.store_next`: what a block holds after a store, and that a block
  written behind it leaves it alone.
* `store_frame_iff`: when a store leaves alone what is outside of a block.
* `store_load`: **writing back what was read undoes every change inside the block.**
-/

namespace Memory

abbrev Addr := BitVec 64

abbrev Mem := Addr → Option UInt8

/-- Write the bytes `bs` at `a`. -/
def Mem.store (m : Mem) (a : Addr) (bs : List UInt8) : Mem :=
  fun x => if h : (x - a).toNat < bs.length then some (bs.get ⟨(x - a).toNat, h⟩) else m x

/-- The bytes `bs` stand at `a`. -/
def Holds (m : Mem) (a : Addr) (bs : List UInt8) : Prop :=
  ∀ i (h : i < bs.length), m (a + BitVec.ofNat 64 i) = some (bs.get ⟨i, h⟩)

/-- Read `n` bytes at `a`, if all of them are mapped. -/
def Mem.load (m : Mem) : Addr → ℕ → Option (List UInt8)
  | _, 0 => some []
  | a, n + 1 => do
    let b ← m a
    let bs ← m.load (a + 1) n
    return b :: bs

/-- The number with the given bytes, the least significant one first. -/
def littleEndian : List UInt8 → ℕ
  | [] => 0
  | b :: bs => b.toNat + 256 * littleEndian bs

/-- The `n` least significant bytes of a number, the least significant one first. -/
def bytesLE : ℕ → ℕ → List UInt8
  | 0, _ => []
  | n + 1, x => (x % 256).toUInt8 :: bytesLE n (x / 256)

variable {m m' : Mem} {a x : Addr} {bs cs : List UInt8} {n : ℕ}

theorem holds_nil (m : Mem) (a : Addr) : Holds m a [] := fun i hi => absurd hi (Nat.not_lt_zero i)

theorem sub_toNat (a : Addr) {i : ℕ} (hi : i < 2 ^ 64) : (a + BitVec.ofNat 64 i - a).toNat = i := by
  rw [BitVec.add_comm, BitVec.add_sub_cancel, BitVec.toNat_ofNat, Nat.mod_eq_of_lt hi]

theorem add_sub_toNat (x a : Addr) : a + BitVec.ofNat 64 (x - a).toNat = x := by
  rw [BitVec.ofNat_toNat, BitVec.setWidth_eq, BitVec.add_comm, BitVec.sub_add_cancel]

theorem add_ofNat_succ (a : Addr) (i : ℕ) :
    a + BitVec.ofNat 64 (i + 1) = a + 1 + BitVec.ofNat 64 i := by
  rw [BitVec.ofNat_add, BitVec.add_comm (BitVec.ofNat 64 i), BitVec.add_assoc]; rfl

theorem store_other (h : bs.length ≤ (x - a).toNat) : m.store a bs x = m x := by
  unfold Mem.store
  rw [dif_neg (by omega)]

/-- A store unmaps nothing. -/
theorem store_ne_none (a : Addr) (bs : List UInt8) (h : m x ≠ none) : m.store a bs x ≠ none := by
  unfold Mem.store
  split
  · simp
  · exact h

theorem holds_store (m : Mem) (a : Addr) (hlen : bs.length ≤ 2 ^ 64) : Holds (m.store a bs) a bs := by
  intro i hi
  have hsub := sub_toNat a (by omega : i < 2 ^ 64)
  unfold Mem.store
  rw [dif_pos (by omega)]
  simp only [hsub]

/-- Seen from an address behind it, a byte lies at the far end of the memory. -/
theorem add_sub_add_toNat (a : Addr) {i k : ℕ} (hi : i < k) (hk : k ≤ 2 ^ 64) :
    (a + BitVec.ofNat 64 i - (a + BitVec.ofNat 64 k)).toNat = 2 ^ 64 + i - k := by
  rw [BitVec.toNat_sub, BitVec.toNat_add, BitVec.toNat_add, BitVec.toNat_ofNat, BitVec.toNat_ofNat]
  have ha := a.isLt
  omega

/-- Seen from an address before it, it is as much closer. -/
theorem sub_add_toNat {k : ℕ} (hk : k ≤ (x - a).toNat) :
    (x - (a + BitVec.ofNat 64 k)).toNat = (x - a).toNat - k := by
  have ha := a.isLt
  have hx := x.isLt
  rw [BitVec.toNat_sub] at hk ⊢
  rw [BitVec.toNat_sub, BitVec.toNat_add, BitVec.toNat_ofNat]
  omega

/-- A block written right behind another one leaves that one alone. -/
theorem Holds.store_next (h : Holds m a bs) (hlen : bs.length + cs.length ≤ 2 ^ 64) :
    Holds (m.store (a + BitVec.ofNat 64 bs.length) cs) a bs := by
  intro i hi
  have hfar := add_sub_add_toNat a hi (by omega)
  rw [store_other (by omega), h i hi]

theorem Holds.of_load (h : m.load a n = some bs) : bs.length = n ∧ Holds m a bs := by
  induction n generalizing a bs with
  | zero =>
    obtain rfl := Option.some.inj h
    exact ⟨rfl, holds_nil m a⟩
  | succ n ih =>
    simp only [Mem.load, Option.bind_eq_bind, Option.bind_eq_some_iff, Option.pure_def,
      Option.some.injEq] at h
    obtain ⟨b, hb, cs, hcs, rfl⟩ := h
    obtain ⟨hlen, hholds⟩ := ih hcs
    refine ⟨by rw [List.length_cons, hlen], fun i hi => ?_⟩
    rcases i with _ | i
    · rw [BitVec.add_zero, hb]; rfl
    · rw [add_ofNat_succ, hholds i (by simpa using hi)]; rfl

theorem load_total (h : ∀ i < n, m (a + BitVec.ofNat 64 i) ≠ none) : ∃ bs, m.load a n = some bs := by
  induction n generalizing a with
  | zero => exact ⟨[], rfl⟩
  | succ n ih =>
    obtain ⟨b, hb⟩ := Option.ne_none_iff_exists'.1 (h 0 (by omega))
    rw [BitVec.add_zero] at hb
    obtain ⟨bs, hbs⟩ := ih (a := a + 1) fun i hi => by
      have := h (i + 1) (by omega)
      rwa [add_ofNat_succ] at this
    exact ⟨b :: bs, by rw [Mem.load, hb, hbs]; rfl⟩

/-- A longer block starts with the bytes that stand there. -/
theorem Holds.load_isPrefix (h : Holds m a bs) (hload : m.load a n = some cs) (hlen : bs.length ≤ n) :
    bs <+: cs := by
  obtain ⟨hcs, hholds⟩ := Holds.of_load hload
  have htake : bs = cs.take bs.length := by
    apply List.ext_get
    · rw [List.length_take]; omega
    · intro i hi hi'
      have hb := h i hi
      rw [hholds i (by omega)] at hb
      simpa using (Option.some.inj hb).symm
  rw [htake]
  exact List.take_prefix _ _

theorem littleEndian_append (bs cs : List UInt8) :
    littleEndian (bs ++ cs) = littleEndian bs + 256 ^ bs.length * littleEndian cs := by
  induction bs with
  | nil => simp [littleEndian]
  | cons b bs ih =>
    rw [List.cons_append, littleEndian, littleEndian, ih, List.length_cons, Nat.pow_succ]
    rw [Nat.mul_add, ← Nat.mul_assoc, Nat.mul_comm 256 (256 ^ _), Nat.add_assoc]

theorem littleEndian_lt (bs : List UInt8) : littleEndian bs < 256 ^ bs.length := by
  induction bs with
  | nil => simp [littleEndian]
  | cons b bs ih =>
    have hb := b.toNat_lt
    rw [littleEndian, List.length_cons, Nat.pow_succ]
    omega

theorem bytesLE_length (n x : ℕ) : (bytesLE n x).length = n := by
  induction n generalizing x with
  | zero => rfl
  | succ n ih => rw [bytesLE, List.length_cons, ih]

theorem littleEndian_bytesLE (n x : ℕ) : littleEndian (bytesLE n x) = x % 256 ^ n := by
  induction n generalizing x with
  | zero => simp [bytesLE, littleEndian, Nat.mod_one]
  | succ n ih =>
    have hbyte : ((x % 256).toUInt8).toNat = x % 256 := by
      simp [Nat.toUInt8]
    rw [bytesLE, littleEndian, ih, hbyte, Nat.pow_succ, Nat.mul_comm (256 ^ n), Nat.mod_mul]

theorem bytesLE_littleEndian (bs : List UInt8) : bytesLE bs.length (littleEndian bs) = bs := by
  induction bs with
  | nil => rfl
  | cons b bs ih =>
    have hlt : b.toNat < 256 := b.toNat_lt
    have hdiv : (b.toNat + 256 * littleEndian bs) / 256 = littleEndian bs := by omega
    simp only [List.length_cons, littleEndian, bytesLE, hdiv, ih]
    congr 1
    apply UInt8.toNat_inj.1
    simp

theorem bytesLE_add (n k x : ℕ) : bytesLE (n + k) x = bytesLE n x ++ bytesLE k (x / 256 ^ n) := by
  induction n generalizing x with
  | zero => simp [bytesLE]
  | succ n ih =>
    rw [Nat.succ_add, bytesLE, ih, bytesLE, List.cons_append, Nat.div_div_eq_div_mul, Nat.pow_succ,
      Nat.mul_comm 256]

/-! ## Blocks one behind the other -/

theorem add_ofNat_add (a : Addr) (i j : ℕ) :
    a + BitVec.ofNat 64 (i + j) = a + BitVec.ofNat 64 i + BitVec.ofNat 64 j := by
  rw [BitVec.ofNat_add, BitVec.add_assoc]

theorem holds_append :
    Holds m a (bs ++ cs) ↔ Holds m a bs ∧ Holds m (a + BitVec.ofNat 64 bs.length) cs := by
  constructor
  · intro h
    refine ⟨fun i hi => ?_, fun i hi => ?_⟩
    · rw [h i (by rw [List.length_append]; omega)]
      simp [List.getElem_append_left hi]
    · rw [← add_ofNat_add, h (bs.length + i) (by rw [List.length_append]; omega)]
      simp
  · rintro ⟨hbs, hcs⟩ i hi
    by_cases hlt : i < bs.length
    · rw [hbs i hlt]
      simp [List.getElem_append_left hlt]
    · have hi' : i - bs.length < cs.length := by rw [List.length_append] at hi; omega
      have haddr : a + BitVec.ofNat 64 i = a + BitVec.ofNat 64 bs.length + BitVec.ofNat 64 (i - bs.length) := by
        rw [← add_ofNat_add, Nat.add_sub_cancel' (by omega)]
      rw [haddr, hcs _ hi']
      simp [List.getElem_append_right (by omega : bs.length ≤ i)]

theorem Holds.take (h : Holds m a bs) (k : ℕ) : Holds m a (bs.take k) := by
  rw [← List.take_append_drop k bs] at h
  exact (holds_append.1 h).1

theorem Holds.drop (h : Holds m a bs) {k : ℕ} (hk : k ≤ bs.length) :
    Holds m (a + BitVec.ofNat 64 k) (bs.drop k) := by
  rw [← List.take_append_drop k bs] at h
  have hdrop := (holds_append.1 h).2
  rwa [List.length_take, Nat.min_eq_left hk] at hdrop

/-- A text up to the first `c` is read in one way only. -/
theorem text_unique {c : UInt8} (hbs : c ∉ bs) (hcs : c ∉ cs) (h : Holds m a (bs ++ [c]))
    (h' : Holds m a (cs ++ [c])) : bs = cs := by
  induction bs generalizing a cs with
  | nil =>
    rcases cs with _ | ⟨d, cs⟩
    · rfl
    · have hfirst := h 0 (by simp)
      rw [h' 0 (by simp)] at hfirst
      have hd : d = c := by simpa using hfirst
      exact absurd (by simp [hd]) hcs
  | cons b bs ih =>
    have hfirst := h 0 (by simp)
    rcases cs with _ | ⟨d, cs⟩
    · rw [h' 0 (by simp)] at hfirst
      have hb : b = c := by simpa using hfirst.symm
      exact absurd (by simp [hb]) hbs
    · rw [h' 0 (by simp)] at hfirst
      have hbd : d = b := by simpa using hfirst
      obtain ⟨-, hrest⟩ : Holds m a [b] ∧ Holds m (a + 1) (bs ++ [c]) := holds_append.1 h
      obtain ⟨-, hrest'⟩ : Holds m a [d] ∧ Holds m (a + 1) (cs ++ [c]) := holds_append.1 h'
      rw [hbd, ih (fun hm => hbs (by simp [hm])) (fun hm => hcs (by simp [hm])) hrest hrest']

theorem Holds.load (h : Holds m a bs) : m.load a bs.length = some bs := by
  obtain ⟨cs, hcs⟩ := load_total (m := m) (a := a) (n := bs.length) fun i hi => by rw [h i hi]; simp
  obtain ⟨hlen, -⟩ := Holds.of_load hcs
  have hpre := h.load_isPrefix hcs (Nat.le_refl _)
  rw [hcs, hpre.eq_of_length hlen.symm]

/-- A block is read the same in a memory with the same bytes there. -/
theorem Holds.congr (h : Holds m a bs)
    (hm : ∀ i < bs.length, m' (a + BitVec.ofNat 64 i) = m (a + BitVec.ofNat 64 i)) : Holds m' a bs :=
  fun i hi => (hm i hi).trans (h i hi)

/-- **A block written over the end of another one extends it.** -/
theorem store_store (m : Mem) (a : Addr) (ds : List UInt8) (hcs : cs.length ≤ ds.length)
    (hlen : bs.length + ds.length ≤ 2 ^ 64) :
    (m.store a (bs ++ cs)).store (a + BitVec.ofNat 64 bs.length) ds = m.store a (bs ++ ds) := by
  funext x
  have hoff : (x - (a + BitVec.ofNat 64 bs.length)).toNat =
      if (x - a).toNat < bs.length then 2 ^ 64 + (x - a).toNat - bs.length else (x - a).toNat - bs.length := by
    have hx := x.isLt
    have ha := a.isLt
    simp only [BitVec.toNat_sub, BitVec.toNat_add, BitVec.toNat_ofNat]
    split <;> omega
  by_cases hlt : (x - a).toNat < bs.length
  · rw [if_pos hlt] at hoff
    rw [store_other (by omega)]
    unfold Mem.store
    rw [dif_pos (by rw [List.length_append]; omega), dif_pos (by rw [List.length_append]; omega)]
    simp only [List.get_eq_getElem, List.getElem_append_left hlt]
  · rw [if_neg hlt] at hoff
    by_cases hin : (x - a).toNat - bs.length < ds.length
    · unfold Mem.store
      rw [dif_pos (by omega), dif_pos (by rw [List.length_append]; omega)]
      simp only [List.get_eq_getElem, hoff, List.getElem_append_right (by omega : bs.length ≤ (x - a).toNat)]
    · rw [store_other (by omega), store_other (by rw [List.length_append]; omega),
        store_other (by rw [List.length_append]; omega)]

/-- **Writing back what was read undoes every change inside the block.** -/
theorem store_load (h : m.load a n = some bs) (hx : n ≤ (x - a).toNat → m' x = m x) :
    m'.store a bs x = m x := by
  obtain ⟨hlen, hholds⟩ := Holds.of_load h
  by_cases hin : (x - a).toNat < bs.length
  · have hbyte := hholds _ hin
    rw [add_sub_toNat] at hbyte
    unfold Mem.store
    rw [dif_pos hin, hbyte]
  · rw [store_other (by omega), hx (by omega)]

/-- Writing what stands there already changes nothing. -/
theorem Holds.store_self (h : Holds m a bs) : m.store a bs = m := by
  funext x
  by_cases hin : (x - a).toNat < bs.length
  · have hbyte := h _ hin
    rw [add_sub_toNat] at hbyte
    unfold Mem.store
    rw [dif_pos hin, hbyte]
  · exact store_other (by omega)

/-- **A store changes nothing outside of the first `n` bytes at `a`** if and only if the part of it
beyond them stands there already. -/
theorem store_frame_iff (m : Mem) (a : Addr) (bs : List UInt8) (j n : ℕ) (hlen : j + bs.length ≤ 2 ^ 64) :
    (∀ x, n ≤ (x - a).toNat → m.store (a + BitVec.ofNat 64 j) bs x = m x) ↔
      Holds m (a + BitVec.ofNat 64 (j + (n - j))) (bs.drop (n - j)) := by
  have hblock := holds_store m (a + BitVec.ofNat 64 j) (by omega : bs.length ≤ 2 ^ 64)
  constructor
  · intro h i hi
    rw [List.length_drop] at hi
    have hbyte := hblock (n - j + i) (by omega)
    have hout : n ≤ (a + BitVec.ofNat 64 (j + (n - j + i)) - a).toNat := by
      rw [sub_toNat a (by omega)]
      omega
    rw [← add_ofNat_add, h _ hout] at hbyte
    rw [← add_ofNat_add, Nat.add_assoc, hbyte]
    simp
  · intro h x hx
    by_cases hin : (x - (a + BitVec.ofNat 64 j)).toNat < bs.length
    · -- such a byte lies in the part of the block that is beyond the first `n` bytes
      obtain ⟨i, hi⟩ : ∃ i, (x - (a + BitVec.ofNat 64 j)).toNat = i := ⟨_, rfl⟩
      have haddr : a + BitVec.ofNat 64 (j + i) = x := by
        rw [add_ofNat_add, ← hi, add_sub_toNat]
      rw [hi] at hin
      have hfar : n - j ≤ i := by
        rw [← haddr, sub_toNat a (by omega)] at hx
        omega
      have hold := h (i - (n - j)) (by rw [List.length_drop]; omega)
      have hnew := hblock i hin
      rw [← add_ofNat_add, (by omega : j + (n - j) + (i - (n - j)) = j + i), haddr] at hold
      rw [← add_ofNat_add, haddr] at hnew
      rw [hold, hnew]
      simp [Nat.add_sub_cancel' hfar]
    · exact store_other (by omega)

/-! ## Blocks apart from each other -/

variable {b : Addr} {k : ℕ}

/-- No byte of the `n` bytes at `a` is one of the `k` bytes at `b`. -/
def Apart (a : Addr) (n : ℕ) (b : Addr) (k : ℕ) : Prop :=
  ∀ i < n, k ≤ (a + BitVec.ofNat 64 i - b).toNat

theorem Apart.mono (h : Apart a n b k) {j : ℕ} (hj : j ≤ k) : Apart a n b j :=
  fun i hi => Nat.le_trans hj (h i hi)

/-- A block that ends before the other one starts is apart from it. -/
theorem Apart.of_le (h : a.toNat + n ≤ b.toNat) (hk : b.toNat + k ≤ 2 ^ 64) : Apart a n b k := by
  intro i hi
  have hb := b.isLt
  rw [BitVec.toNat_sub, BitVec.toNat_add, BitVec.toNat_ofNat]
  omega

/-- A store leaves the blocks apart from it alone. -/
theorem Holds.store_apart (h : Holds m a bs) (hapart : Apart a bs.length b cs.length) :
    Holds (m.store b cs) a bs :=
  h.congr fun i hi => store_other (hapart i hi)

end Memory
