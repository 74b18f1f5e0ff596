import Ptu.Lib.Memory

/-!
# Records of numbers

A record is a row of named fields of fixed widths, each of which is a number in one of the two byte orders. A table is
a row of records of one shape.

* `Shape.get_put`: **a field is read back from a record**, whatever comes behind the record.
* `Shape.table_put`: **a table is read back**.
* `Shape.get_append`: a field depends on the bytes of the record only.
-/

namespace Fields

open Memory

/-- Where the least significant byte of a number is. -/
inductive Order where
  | little
  | big
  deriving DecidableEq, Repr

def Order.decode : Order → List UInt8 → ℕ
  | .little, bs => littleEndian bs
  | .big, bs => littleEndian bs.reverse

def Order.encode : Order → ℕ → ℕ → List UInt8
  | .little, w, n => bytesLE w n
  | .big, w, n => (bytesLE w n).reverse

@[simp] theorem Order.length_encode (o : Order) (w n : ℕ) : (o.encode w n).length = w := by
  cases o with
  | little => exact bytesLE_length w n
  | big => exact (List.length_reverse).trans (bytesLE_length w n)

theorem Order.decode_encode (o : Order) {w n : ℕ} (h : n < 256 ^ w) : o.decode (o.encode w n) = n := by
  have hle : littleEndian (bytesLE w n) = n := by rw [littleEndian_bytesLE, Nat.mod_eq_of_lt h]
  cases o with
  | little => exact hle
  | big => rw [decode, encode, List.reverse_reverse, hle]

/-- The fields of a record and their widths. -/
abbrev Shape (F : Type*) := List (F × ℕ)

namespace Shape

variable {F : Type*} {s : Shape F} {o : Order} {v : F → ℕ} {f : F} {bs rest : List UInt8}

/-- The number of bytes of a record. -/
def size : Shape F → ℕ
  | [] => 0
  | p :: s => p.2 + size s

/-- The bytes of a record. -/
def put (o : Order) (s : Shape F) (v : F → ℕ) : List UInt8 := s.flatMap fun p => o.encode p.2 (v p.1)

/-- Every value has room in its field. -/
def Fits (s : Shape F) (v : F → ℕ) : Prop := ∀ p ∈ s, v p.1 < 256 ^ p.2

@[simp] theorem length_put : (put o s v).length = s.size := by
  induction s with
  | nil => rfl
  | cons p s ih => rw [put, List.flatMap_cons, List.length_append, ← put, ih, Order.length_encode, size]

variable [DecidableEq F]

/-- A field of a record. -/
def get (decode : List UInt8 → ℕ) : Shape F → List UInt8 → F → ℕ
  | [], _, _ => 0
  | (g, w) :: s, bs, f => if f = g then decode (bs.take w) else get decode s (bs.drop w) f

theorem get_put (hfits : s.Fits v) (hf : f ∈ s.map Prod.fst) (rest : List UInt8) :
    get o.decode s (put o s v ++ rest) f = v f := by
  induction s with
  | nil => cases hf
  | cons p s ih =>
    obtain ⟨g, w⟩ := p
    have hput : put o ((g, w) :: s) v ++ rest = o.encode w (v g) ++ (put o s v ++ rest) := by simp [put]
    rw [hput, get]
    split_ifs with hfg
    · rw [List.take_left' (o.length_encode w (v g)), hfg]
      exact o.decode_encode (hfits (g, w) (by simp))
    · rw [List.drop_left' (o.length_encode w (v g))]
      refine ih (fun p hp => hfits p (by simp [hp])) ?_
      simpa [hfg] using hf

theorem get_append (decode : List UInt8 → ℕ) (h : s.size ≤ bs.length) (rest : List UInt8) (f : F) :
    get decode s (bs ++ rest) f = get decode s bs f := by
  induction s generalizing bs with
  | nil => rfl
  | cons p s ih =>
    obtain ⟨g, w⟩ := p
    have hsize : w + size s ≤ bs.length := h
    rw [get, get, List.take_append_of_le_length (by omega), List.drop_append_of_le_length (by omega)]
    rw [ih (by rw [List.length_drop]; omega)]

/-! ## Tables -/

/-- The first `n` records of a table. -/
def table (decode : List UInt8 → ℕ) (s : Shape F) (n : ℕ) (bs : List UInt8) : List (F → ℕ) :=
  (List.range n).map fun i => s.get decode (bs.drop (i * s.size))

omit [DecidableEq F] in
theorem drop_flatMap_put {vs : List (F → ℕ)} {i : ℕ} (hi : i < vs.length) (rest : List UInt8) :
    (vs.flatMap (put o s) ++ rest).drop (i * s.size) = put o s vs[i] ++
    ((vs.drop (i + 1)).flatMap (put o s) ++ rest) := by
  induction vs generalizing i with
  | nil => cases hi
  | cons v vs ih =>
    rw [List.flatMap_cons, List.append_assoc]
    cases i with
    | zero => simp
    | succ i =>
      have hmul : (i + 1) * s.size = s.size + i * s.size := by rw [Nat.succ_mul, Nat.add_comm]
      rw [hmul, ← List.drop_drop, List.drop_left' length_put, ih (by simpa using hi)]
      rfl

theorem table_put {vs : List (F → ℕ)} (hall : ∀ f, f ∈ s.map Prod.fst) (hfits : ∀ v ∈ vs, s.Fits v)
    (rest : List UInt8) : table o.decode s vs.length (vs.flatMap (put o s) ++ rest) = vs := by
  unfold table
  refine List.ext_getElem (by simp) fun i hi hi' => funext fun f => ?_
  rw [List.getElem_map, List.getElem_range]
  rw [drop_flatMap_put hi' rest]
  exact get_put (hfits _ (List.getElem_mem hi')) (hall f) _

end Shape

end Fields
