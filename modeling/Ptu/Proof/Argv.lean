import Mathlib.Data.List.Forall2
import Ptu.Lib.Capacity
import Ptu.Proof.Args
import Ptu.Spec.Argv

/-!
# The layout of the new argument vector

* `Laid`, `LaidWords`: what the tracer has written into the segment so far, from its start on.
* `NewArgv.run_okIff`: **a new vector is laid out exactly if it fits**: one statement for programs
  and for scripts with and without the linker of the package.
* `scriptArgv_decodes`: **the new vector of a script, read as the kernel reads it**, is the linker,
  the tokens, the script and its arguments.
* `Decodes.tokens_unique`: the texts of a vector are read in one way only.
-/

namespace Ptu

open Capacity Memory

variable {p : Personality} {tcp : ShmTcb} {child child' : Child} {m : Mem} {regs : Regs}
variable {pre junk bytes : List Byte} {vs : List Word}

/-! ## Words -/

def wordBytes (p : Personality) (v : Word) : List Byte := bytesLE (wordsize p) v.toNat

def words (p : Personality) (vs : List Word) : List Byte := vs.flatMap (wordBytes p)

theorem wordBytes_length (p : Personality) (v : Word) : (wordBytes p v).length = wordsize p := bytesLE_length ..

theorem words_length (p : Personality) (vs : List Word) : (words p vs).length = vs.length * wordsize p := by
  induction vs with
  | nil => simp [words]
  | cons v vs ih =>
    rw [words, List.flatMap_cons, List.length_append, wordBytes_length, List.length_cons, Nat.add_mul]
    rw [words] at ih
    omega

/-- A word of the process stands at `a`. -/
def WordAt (p : Personality) (mem : Mem) (a v : Word) : Prop :=
  v.toNat < 256 ^ wordsize p ∧ Holds mem a (wordBytes p v)

/-- An array of words that ends with NULL stands at `a`. -/
def WordsAt (p : Personality) (mem : Mem) : Word → List Word → Prop
  | a, [] => WordAt p mem a 0
  | a, v :: vs => v ≠ 0 ∧ WordAt p mem a v ∧ WordsAt p mem (a + BitVec.ofNat 64 (wordsize p)) vs

theorem words_append (p : Personality) (vs vs' : List Word) : words p (vs ++ vs') = words p vs ++ words p vs' :=
  List.flatMap_append

theorem words_singleton (p : Personality) (v : Word) : words p [v] = wordBytes p v := by simp [words]

theorem wordAt_zero {mem : Mem} {a : Word} (h : Holds mem a (wordBytes p 0)) : WordAt p mem a 0 :=
  ⟨by cases p <;> decide, h⟩

/-- What a word is read as. -/
theorem WordAt.load {mem : Mem} {a v : Word} (h : WordAt p mem a v) :
    mem.load a (wordsize p) = some (wordBytes p v) ∧ BitVec.ofNat 64 (littleEndian (wordBytes p v)) = v := by
  obtain ⟨hlt, hholds⟩ := h
  have hload := hholds.load
  rw [wordBytes_length] at hload
  refine ⟨hload, ?_⟩
  rw [wordBytes, littleEndian_bytesLE, Nat.mod_eq_of_lt hlt, BitVec.ofNat_toNat, BitVec.setWidth_eq]

theorem wordAt_of_load {mem : Mem} {a : Word} {word : List Byte} (h : mem.load a (wordsize p) = some word) :
    WordAt p mem a (BitVec.ofNat 64 (littleEndian word)) := by
  obtain ⟨hlen, hholds⟩ := Holds.of_load h
  have hlt := littleEndian_lt word
  have hpow : 256 ^ wordsize p ≤ 2 ^ 64 := by cases p <;> decide
  rw [hlen] at hlt
  have hnat : (BitVec.ofNat 64 (littleEndian word)).toNat = littleEndian word := by
    rw [BitVec.toNat_ofNat, Nat.mod_eq_of_lt (by omega)]
  refine ⟨by rwa [hnat], ?_⟩
  rwa [wordBytes, hnat, ← hlen, bytesLE_littleEndian]

theorem WordAt.unique {mem : Mem} {a v v' : Word} (h : WordAt p mem a v) (h' : WordAt p mem a v') : v = v' := by
  obtain ⟨hload, hv⟩ := h.load
  obtain ⟨hload', hv'⟩ := h'.load
  rw [hload] at hload'
  rw [← hv, ← hv', Option.some.inj hload']

theorem WordsAt.unique {mem : Mem} {a : Word} {vs vs' : List Word} (h : WordsAt p mem a vs)
    (h' : WordsAt p mem a vs') : vs = vs' := by
  induction vs generalizing a vs' with
  | nil =>
    rcases vs' with _ | ⟨v', vs'⟩
    · rfl
    · exact absurd (WordAt.unique h h'.2.1).symm h'.1
  | cons v vs ih =>
    rcases vs' with _ | ⟨v', vs'⟩
    · exact absurd (h.2.1.unique h') h.1
    · rw [h.2.1.unique h'.2.1, ih h.2.2 h'.2.2]

/-- An array that has been written can be read. -/
theorem wordsAt_of_holds {mem : Mem} {a : Word} {vs : List Word} (h : Holds mem a (words p (vs ++ [0])))
    (hvs : ∀ v ∈ vs, v ≠ 0 ∧ v.toNat < 256 ^ wordsize p) : WordsAt p mem a vs := by
  induction vs generalizing a with
  | nil => exact wordAt_zero (by simpa [words] using h)
  | cons v vs ih =>
    obtain ⟨hv, hlt⟩ := hvs v (by simp)
    have hsplit : words p (v :: vs ++ [0]) = wordBytes p v ++ words p (vs ++ [0]) := by simp [words]
    rw [hsplit, holds_append, wordBytes_length] at h
    exact ⟨hv, ⟨hlt, h.1⟩, ih h.2 fun x hx => hvs x (by simp [hx])⟩

/-! ## Writing into the segment -/

/-- The tracer has written `pre` into the segment of a process with memory `m`, and behind it
`junk`, which the next store covers. -/
structure Laid (tcp : ShmTcb) (m : Mem) (regs : Regs) (pre junk : List Byte) (child : Child) : Prop where
  mem : child.mem = m.store tcp.childshm (pre ++ junk)
  room : (pre ++ junk).length ≤ sharedPageSize
  regs : child.regs = regs

theorem Laid.init (tcp : ShmTcb) (child : Child) : Laid tcp child.mem child.regs [] [] child where
  mem := by
    funext x
    exact (store_other (by simp)).symm
  room := by decide
  regs := rfl

/-- A store covers what the one before it has left over. -/
theorem Laid.poke (h : Laid tcp m regs pre junk child) (hjunk : junk.length ≤ bytes.length) :
    OkIff Fatal.segv (pre.length + bytes.length ≤ sharedPageSize) (Laid tcp m regs (pre ++ bytes) [])
      (pokeShm tcp pre.length bytes child) := by
  unfold pokeShm
  split_ifs with hfull
  · exact okIff_error (by omega)
  · have hsize : sharedPageSize ≤ 2 ^ 64 := by decide
    have hroom : pre.length + bytes.length ≤ sharedPageSize := by omega
    refine okIff_ok hroom ⟨?_, by simpa using hroom, h.regs⟩
    change child.mem.store _ bytes = _
    rw [h.mem, store_store m _ bytes hjunk (by omega), List.append_nil]

/-- `n` bytes from `a` on are not in the segment. -/
def Outside (tcp : ShmTcb) (a : Word) (n : ℕ) : Prop :=
  ∀ i < n, sharedPageSize ≤ (a + BitVec.ofNat 64 i - tcp.childshm).toNat

/-- What stands outside the segment is not touched. -/
theorem Laid.holds_iff {a : Word} {bs : List Byte} (h : Laid tcp m regs pre junk child)
    (hout : Outside tcp a bs.length) : Holds child.mem a bs ↔ Holds m a bs := by
  have hsame : ∀ i < bs.length, child.mem (a + BitVec.ofNat 64 i) = m (a + BitVec.ofNat 64 i) := by
    intro i hi
    have hfar := hout i hi
    have hroom := h.room
    rw [h.mem, store_other (by omega)]
  exact ⟨fun hc => hc.congr fun i hi => (hsame i hi).symm, fun hm => hm.congr hsame⟩

theorem Laid.wordAt_iff {a v : Word} (h : Laid tcp m regs pre junk child) (hout : Outside tcp a (wordsize p)) :
    WordAt p child.mem a v ↔ WordAt p m a v :=
  and_congr_right' (h.holds_iff (by rwa [wordBytes_length]))

/-! ## The array -/

/-- The words `vs` stand behind `pre`, and behind them less than the next word covers. -/
def LaidWords (p : Personality) (tcp : ShmTcb) (m : Mem) (regs : Regs) (pre : List Byte) (vs : List Word)
    (child : Child) : Prop :=
  ∃ junk, junk.length ≤ 8 ∧ Laid tcp m regs (pre ++ words p vs) junk child

theorem Laid.laidWords (p : Personality) (h : Laid tcp m regs pre [] child) :
    LaidWords p tcp m regs pre [] child :=
  ⟨[], by simp, by simpa [words] using h⟩

/-- A word is written with eight bytes; of a 32-bit process the upper ones are left for the next
word to cover. -/
theorem LaidWords.word {k : ℕ} (h : LaidWords p tcp m regs pre vs child) (hk : k = vs.length) (v : Word) :
    OkIff Fatal.segv (pre.length + k * wordsize p + 8 ≤ sharedPageSize) (LaidWords p tcp m regs pre (vs ++ [v]))
      (pokeWord p tcp pre.length k v child) := by
  obtain ⟨junk, hjunk, h⟩ := h
  have height : 8 = wordsize p + (8 - wordsize p) := by cases p <;> rfl
  have hbytes : bytesLE 8 v.toNat = wordBytes p v ++ bytesLE (8 - wordsize p) (v.toNat / 256 ^ wordsize p) := by
    conv_lhs => rw [height, bytesLE_add]
    rfl
  have hlen : (bytesLE 8 v.toNat).length = 8 := bytesLE_length ..
  have hpoke := h.poke (hlen.symm ▸ hjunk)
  rw [List.length_append, words_length, hlen, ← hk] at hpoke
  refine hpoke.mono fun c hc => ⟨bytesLE (8 - wordsize p) (v.toNat / 256 ^ wordsize p), ?_, ?_⟩
  · rw [bytesLE_length]
    omega
  · obtain ⟨hmem, hroom, hregs⟩ := hc
    rw [hbytes] at hmem hroom
    rw [words_append, words_singleton]
    exact ⟨by rw [hmem]; simp, by simpa using hroom, hregs⟩

/-- Several words, the last of them with eight bytes. -/
theorem LaidWords.words {k : ℕ} {qs : List Word} (h : LaidWords p tcp m regs pre vs child) (hk : k = vs.length) :
    OkIff Fatal.segv (qs = [] ∨ pre.length + (k + (qs.length - 1)) * wordsize p + 8 ≤ sharedPageSize)
      (LaidWords p tcp m regs pre (vs ++ qs)) (pokeWords p tcp pre.length k qs child) := by
  induction qs generalizing k vs child with
  | nil => exact okIff_ok (.inl rfl) (by rwa [List.append_nil])
  | cons q qs ih =>
    refine (h.word hk q).bind (fun c hfits hc => ?_) fun hroom => ?_
    · rw [List.append_cons]
      refine (ih hc (by simp [hk])).congr ?_
      rcases qs with _ | ⟨q', qs⟩
      · simpa using hfits
      · have hcount : k + 1 + ((q' :: qs).length - 1) = k + ((q :: q' :: qs).length - 1) := by simp; omega
        rw [hcount]
        simp
    · have hle : k * wordsize p ≤ (k + ((q :: qs).length - 1)) * wordsize p := Nat.mul_le_mul_right _ (by omega)
      have hroom := hroom.resolve_left (by simp)
      omega

/-- A round of the loop reads the next word of the array, or its NULL. -/
theorem Laid.copyArgv_step {newArgvRaw first n i : ℕ} (h : Laid tcp m regs pre junk child)
    (hvs : WordsAt p m (tcp.uArg argvArg + BitVec.ofNat 64 (i * wordsize p)) vs)
    (hout : Outside tcp (tcp.uArg argvArg + BitVec.ofNat 64 (i * wordsize p)) ((vs.length + 1) * wordsize p)) :
    copyArgv p tcp newArgvRaw first (n + 1) i child = (do
      let child ← pokeWord p tcp newArgvRaw (i + first) (vs.head?.getD 0) child
      if vs.head?.getD 0 = 0 then return child
      copyArgv p tcp newArgvRaw first n (i + 1) child) := by
  have hword : WordAt p m (tcp.uArg argvArg + BitVec.ofNat 64 (i * wordsize p)) (vs.head?.getD 0) := by
    rcases vs with _ | ⟨v, vs⟩
    · exact hvs
    · exact hvs.2.1
  have hread := (h.wordAt_iff fun k hk => hout k (by rw [Nat.add_mul]; omega)).2 hword
  obtain ⟨hload, hcur⟩ := hread.load
  simp only [copyArgv, hload, hcur]

/-- What stands behind the first word of the array. -/
theorem Outside.tail {i : ℕ} {v : Word}
    (hout : Outside tcp (tcp.uArg argvArg + BitVec.ofNat 64 (i * wordsize p))
      (((v :: vs).length + 1) * wordsize p)) :
    Outside tcp (tcp.uArg argvArg + BitVec.ofNat 64 ((i + 1) * wordsize p)) ((vs.length + 1) * wordsize p) := by
  intro k hk
  have haddr : tcp.uArg argvArg + BitVec.ofNat 64 ((i + 1) * wordsize p) + BitVec.ofNat 64 k =
      tcp.uArg argvArg + BitVec.ofNat 64 (i * wordsize p) + BitVec.ofNat 64 (wordsize p + k) := by
    rw [Nat.add_mul, Nat.one_mul, ← add_ofNat_add, ← add_ofNat_add, Nat.add_assoc]
  rw [haddr]
  refine hout _ ?_
  simp only [List.length_cons, Nat.add_mul, Nat.one_mul] at hk ⊢
  omega

theorem WordsAt.tail {i : ℕ} {v : Word}
    (hvs : WordsAt p m (tcp.uArg argvArg + BitVec.ofNat 64 (i * wordsize p)) (v :: vs)) :
    WordsAt p m (tcp.uArg argvArg + BitVec.ofNat 64 ((i + 1) * wordsize p)) vs := by
  have haddr : tcp.uArg argvArg + BitVec.ofNat 64 ((i + 1) * wordsize p) =
      tcp.uArg argvArg + BitVec.ofNat 64 (i * wordsize p) + BitVec.ofNat 64 (wordsize p) := by
    rw [Nat.add_mul, Nat.one_mul, add_ofNat_add]
  rw [haddr]
  exact hvs.2.2

/-- **The loop copies the array up to its NULL**, if there is room for it. -/
theorem LaidWords.copyArgv {first n i : ℕ} {us : List Word} (h : LaidWords p tcp m regs pre us child)
    (hk : i + first = us.length)
    (hvs : WordsAt p m (tcp.uArg argvArg + BitVec.ofNat 64 (i * wordsize p)) vs)
    (hout : Outside tcp (tcp.uArg argvArg + BitVec.ofNat 64 (i * wordsize p)) ((vs.length + 1) * wordsize p)) :
    OkIff Fatal.segv (vs.length < n ∧ pre.length + (us.length + vs.length) * wordsize p + 8 ≤ sharedPageSize)
      (LaidWords p tcp m regs pre (us ++ vs ++ [0])) (copyArgv p tcp pre.length first n i child) := by
  induction n generalizing i vs us child with
  | zero => exact okIff_error (by simp)
  | succ n ih =>
    obtain ⟨junk, -, hlaid⟩ := id h
    rw [hlaid.copyArgv_step hvs hout]
    rcases vs with _ | ⟨v, vs⟩
    · refine (h.word hk 0).bind (fun c hfits hc => ?_) fun ⟨_, hroom⟩ => by simpa [hk] using hroom
      exact okIff_ok ⟨Nat.succ_pos n, by simpa [hk] using hfits⟩ (by simpa using hc)
    · have hv : ((v :: vs).head?.getD 0) ≠ 0 := hvs.1
      have hlen : (us ++ [v]).length + vs.length = us.length + (v :: vs).length := by simp; omega
      refine (h.word hk v).bind (fun c _ hc => ?_) fun ⟨_, hroom⟩ => ?_
      · have hrest := ih hc (by rw [List.length_append, ← hk]; simp; omega) hvs.tail hout.tail
        rw [hlen, List.append_assoc us] at hrest
        rw [if_neg hv]
        exact hrest.congr (and_congr_left' Nat.succ_lt_succ_iff.symm)
      · have hle : us.length * wordsize p ≤ (us.length + (v :: vs).length) * wordsize p :=
          Nat.mul_le_mul_right _ (by omega)
        rw [hk]
        omega

/-- Whatever the loop has copied is an array, and if it is empty, then NULL stood there. -/
theorem LaidWords.copyArgv_reads {first n i : ℕ} {us : List Word} (h : LaidWords p tcp m regs pre us child)
    (hk : i + first = us.length) (hcopy : Ptu.copyArgv p tcp pre.length first n i child = .ok child') :
    ∃ vs, LaidWords p tcp m regs pre (us ++ vs ++ [0]) child' ∧
      (∀ v ∈ vs, v ≠ 0 ∧ v.toNat < 256 ^ wordsize p) ∧
      (Outside tcp (tcp.uArg argvArg + BitVec.ofNat 64 (i * wordsize p)) (wordsize p) → vs = [] →
        WordAt p m (tcp.uArg argvArg + BitVec.ofNat 64 (i * wordsize p)) 0) := by
  induction n generalizing i us child with
  | zero => cases hcopy
  | succ n ih =>
    obtain ⟨junk, -, hlaid⟩ := id h
    rw [Ptu.copyArgv] at hcopy
    cases hload : child.mem.load (tcp.uArg argvArg + BitVec.ofNat 64 (i * wordsize p)) (wordsize p) with
    | none =>
      rw [hload] at hcopy
      cases hcopy
    | some word =>
      simp only [hload] at hcopy
      have hword := wordAt_of_load hload
      obtain ⟨c, hc, hcopy⟩ := bind_eq_ok.1 hcopy
      have h₁ := ((h.word hk _).of_ok hc).2
      by_cases h0 : BitVec.ofNat 64 (littleEndian word) = 0
      · rw [if_pos h0] at hcopy
        obtain rfl := Except.ok.inj hcopy
        rw [h0] at h₁ hword
        exact ⟨[], by simpa using h₁, by simp, fun hout _ => (hlaid.wordAt_iff hout).1 hword⟩
      · rw [if_neg h0] at hcopy
        obtain ⟨vs, hvs, hall, -⟩ := ih h₁ (by rw [List.length_append, ← hk]; simp; omega) hcopy
        refine ⟨_ :: vs, by simpa using hvs, fun v hv => ?_, by simp⟩
        rcases List.mem_cons.1 hv with rfl | hv
        · exact ⟨h0, hword.1⟩
        · exact hall v hv

/-- Strings one behind the other. -/
def strings (tokens : List CString) : List Byte := tokens.flatMap (· ++ [0])

/-- Where they start, the first one at `n`. -/
def offsets : ℕ → List CString → List ℕ
  | _, [] => []
  | n, token :: tokens => n :: offsets (n + token.length + 1) tokens

theorem offsets_length (n : ℕ) (tokens : List CString) : (offsets n tokens).length = tokens.length := by
  induction tokens generalizing n with
  | nil => rfl
  | cons token tokens ih => rw [offsets, List.length_cons, ih, List.length_cons]

/-- A string starts in front of the end of all of them. -/
theorem offsets_lt {n : ℕ} {tokens : List CString} : ∀ x ∈ offsets n tokens, x < n + (strings tokens).length := by
  induction tokens generalizing n with
  | nil => simp [offsets]
  | cons token tokens ih =>
    intro x hx
    have hlen : (strings (token :: tokens)).length = token.length + 1 + (strings tokens).length := by
      simp [strings]; omega
    rcases List.mem_cons.1 hx with rfl | hx
    · omega
    · have := ih x hx
      omega

/-- The strings are written, unless they or the places where they start are too many. -/
theorem Laid.layTokens {tokens : List CString} {starts : List ℕ} (h : Laid tcp m regs pre [] child)
    (hstarts : starts.length ≤ 200) :
    OkIff Fatal.segv
      (pre.length + (strings tokens).length ≤ sharedPageSize ∧ starts.length + tokens.length ≤ 200)
      (fun r => r.1 = (pre ++ strings tokens).length ∧ r.2.1 = starts ++ offsets pre.length tokens ∧
        Laid tcp m regs (pre ++ strings tokens) [] r.2.2)
      (layTokens tcp tokens pre.length starts child) := by
  induction tokens generalizing pre starts child with
  | nil => exact okIff_ok ⟨by simpa [strings] using h.room, hstarts⟩ (by simpa [strings, offsets] using h)
  | cons token tokens ih =>
    have hlen : (pre ++ (token ++ [0])).length = pre.length + token.length + 1 := by simp; omega
    have hstrs : strings (token :: tokens) = token ++ [0] ++ strings tokens := rfl
    refine (h.poke (by simp)).bind (fun c _ hc => ?_) fun ⟨hroom, _⟩ => ?_
    · split_ifs with hfull
      · exact okIff_error fun ⟨_, hmany⟩ => by rw [List.length_cons] at hmany; omega
      · have hrest := ih hc (show (starts ++ [pre.length]).length ≤ 200 by simp; omega)
        rw [hlen] at hrest
        refine (hrest.congr ?_).mono fun r ⟨h₁, h₂, h₃⟩ => ?_
        · rw [hstrs]
          simp only [List.length_append, List.length_cons, List.length_nil]
          omega
        · rw [hstrs, ← List.append_assoc pre]
          exact ⟨h₁, by rw [h₂, offsets, List.append_assoc]; rfl, h₃⟩
    · rw [hstrs, List.length_append] at hroom
      omega

/-! ## Reading the vector -/

/-- An entry of an argument vector: a text, or a pointer that the process passed itself. -/
inductive ArgvEntry where
  | text (s : CString)
  | pointer (v : Word)
  deriving DecidableEq, Repr

/-- The pointer `q` is such an entry. -/
def EntryAt (mem : Mem) (entry : ArgvEntry) (q : Word) : Prop :=
  match entry with
  | .text s => Holds mem q (s ++ [0])
  | .pointer v => q = v

/-- **What the kernel reads as an argument vector at `a`.** -/
def Decodes (p : Personality) (mem : Mem) (a : Word) (entries : List ArgvEntry) : Prop :=
  ∃ qs, WordsAt p mem a qs ∧ List.Forall₂ (EntryAt mem) entries qs

/-- The strings stand where the pointers point to. -/
theorem entryAt_strings {mem : Mem} {n : ℕ} {tokens : List CString}
    (h : Holds mem (tcp.inChild n) (strings tokens)) :
    List.Forall₂ (EntryAt mem) (tokens.map .text) ((offsets n tokens).map tcp.inChild) := by
  induction tokens generalizing n with
  | nil => exact .nil
  | cons token tokens ih =>
    have hsplit : strings (token :: tokens) = (token ++ [0]) ++ strings tokens := by simp [strings]
    rw [hsplit, holds_append] at h
    refine .cons h.1 (ih ?_)
    have haddr : tcp.inChild (n + token.length + 1) =
        tcp.inChild n + BitVec.ofNat 64 (token ++ [0]).length := by
      rw [ShmTcb.inChild, ShmTcb.inChild, ← add_ofNat_add]
      congr 2
      simp; omega
    rw [haddr]
    exact h.2

theorem entryAt_pointers (mem : Mem) (vs : List Word) :
    List.Forall₂ (EntryAt mem) (vs.map .pointer) vs := by
  induction vs with
  | nil => exact .nil
  | cons v vs ih => exact .cons rfl ih

theorem entryAt_tokens_unique {mem : Mem} {qs : List Word} {tokens tokens' : List CString}
    {rest : List ArgvEntry} (h : List.Forall₂ (EntryAt mem) (tokens.map .text ++ rest) qs)
    (h' : List.Forall₂ (EntryAt mem) (tokens'.map .text ++ rest) qs) (hnul : ∀ t ∈ tokens, 0 ∉ t)
    (hnul' : ∀ t ∈ tokens', 0 ∉ t) (hlen : tokens.length = tokens'.length) : tokens = tokens' := by
  induction tokens generalizing tokens' qs with
  | nil => exact (List.length_eq_zero_iff.1 hlen.symm).symm
  | cons t tokens ih =>
    rcases tokens' with _ | ⟨t', tokens'⟩
    · cases hlen
    · rcases h with _ | ⟨ht, h⟩
      rcases h' with _ | ⟨ht', h'⟩
      have hhead := text_unique (hnul t (by simp)) (hnul' t' (by simp)) ht ht'
      have htail := ih h h' (fun x hx => hnul x (by simp [hx])) (fun x hx => hnul' x (by simp [hx]))
        (Nat.succ.inj hlen)
      rw [hhead, htail]

/-- **The texts of a vector are read in one way only.** -/
theorem Decodes.tokens_unique {mem : Mem} {a : Word} {entry : ArgvEntry} {tokens tokens' : List CString}
    {rest : List ArgvEntry} (h : Decodes p mem a (entry :: (tokens.map .text ++ rest)))
    (h' : Decodes p mem a (entry :: (tokens'.map .text ++ rest))) (hnul : ∀ t ∈ tokens, 0 ∉ t)
    (hnul' : ∀ t ∈ tokens', 0 ∉ t) : tokens = tokens' := by
  obtain ⟨qs, hqs, hall⟩ := h
  obtain ⟨qs', hqs', hall'⟩ := h'
  obtain rfl := hqs.unique hqs'
  have hlen : tokens.length = tokens'.length := by
    have := hall.length_eq.trans hall'.length_eq.symm
    simpa using this
  rcases hall with _ | ⟨-, hall⟩
  rcases hall' with _ | ⟨-, hall'⟩
  exact entryAt_tokens_unique hall hall' hnul hnul' hlen

theorem Decodes.length_eq {mem : Mem} {a : Word} {entries entries' : List ArgvEntry}
    (h : Decodes p mem a entries) (h' : Decodes p mem a entries') : entries.length = entries'.length := by
  obtain ⟨qs, hqs, hall⟩ := h
  obtain ⟨qs', hqs', hall'⟩ := h'
  rw [hall.length_eq, hall'.length_eq, hqs.unique hqs']

theorem WordsAt.forall {mem : Mem} {a : Word} {vs : List Word} (h : WordsAt p mem a vs) :
    ∀ v ∈ vs, v ≠ 0 ∧ v.toNat < 256 ^ wordsize p := by
  induction vs generalizing a with
  | nil => simp
  | cons v vs ih =>
    intro x hx
    rcases List.mem_cons.1 hx with rfl | hx
    · exact ⟨h.1, h.2.1.1⟩
    · exact ih h.2.2 x hx

/-- The process around a system call `execve(file, argv, …)` with `argv[1], argv[2], …` in `args`:
the segment is attached in its address space, and the array is not in the segment. -/
structure ArgvMemory (p : Personality) (tcp : ShmTcb) (mem : Mem) (args : List Word) : Prop where
  attached : tcp.childshm ≠ 0
  segment : tcp.childshm.toNat + sharedPageSize ≤ 256 ^ wordsize p
  file : tcp.uArg fileArg ≠ 0 ∧ (tcp.uArg fileArg).toNat < 256 ^ wordsize p
  words : WordsAt p mem (tcp.uArg argvArg + BitVec.ofNat 64 (wordsize p)) args
  outside : Outside tcp (tcp.uArg argvArg + BitVec.ofNat 64 (wordsize p)) ((args.length + 1) * wordsize p)

/-- An address in the segment is a pointer of the process. -/
theorem inChild_ne_zero (hattached : tcp.childshm ≠ 0)
    (hsegment : tcp.childshm.toNat + sharedPageSize ≤ 256 ^ wordsize p) {n : ℕ} (hn : n < sharedPageSize) :
    tcp.inChild n ≠ 0 ∧ (tcp.inChild n).toNat < 256 ^ wordsize p := by
  have hpow : 256 ^ wordsize p ≤ 2 ^ 64 := by cases p <;> decide
  have hne : tcp.childshm.toNat ≠ 0 := fun h0 => hattached (BitVec.eq_of_toNat_eq h0)
  have haddr : (tcp.inChild n).toNat = tcp.childshm.toNat + n := by
    rw [ShmTcb.inChild, BitVec.toNat_add, BitVec.toNat_ofNat]
    omega
  refine ⟨fun h0 => ?_, by omega⟩
  rw [h0] at haddr
  have hzero : (0 : Word).toNat = 0 := rfl
  omega

theorem inChild_zero (tcp : ShmTcb) : tcp.inChild 0 = tcp.childshm := by simp [ShmTcb.inChild]

theorem setExecve_argv (p : Personality) (tcp : ShmTcb) (newArgvRaw : ℕ) (child : Child) :
    (setExecve p tcp newArgvRaw child).regs (argreg p argvArg) = tcp.inChild newArgvRaw ∧
      (setExecve p tcp newArgvRaw child).regs (argreg p fileArg) = tcp.childshm ∧
      (setExecve p tcp newArgvRaw child).mem = child.mem := by
  cases p <;> exact ⟨rfl, rfl, rfl⟩

/-! ## The array behind the strings -/

/-- The words `qs`, and behind them the arguments of the process. -/
def layVector (p : Personality) (tcp : ShmTcb) (newArgvRaw : ℕ) (qs : List Word) (child : Child) :
    Except Fatal Child := do
  let child ← pokeWords p tcp newArgvRaw 0 qs child
  copyArgv p tcp newArgvRaw (qs.length - 1) sharedPageSize 1 child

section Vector

variable {strs : List Byte} {qs args : List Word}

/-- **Behind the strings `strs`, the words `qs` and the arguments of the process form an array.** -/
theorem Laid.layVector (h : Laid tcp m regs strs [] child) (hmem : ArgvMemory p tcp m args) (hqs : qs ≠ []) :
    OkIff Fatal.segv (strs.length + (qs.length + args.length) * wordsize p + 8 ≤ sharedPageSize)
      (LaidWords p tcp m regs strs (qs ++ args ++ [0])) (layVector p tcp strs.length qs child) := by
  have hpos := List.length_pos_iff.2 hqs
  have hmul := Nat.add_mul qs.length args.length (wordsize p)
  refine ((h.laidWords p).words rfl).bind (fun c _ hc => ?_) fun hroom => .inr ?_
  · rw [List.nil_append] at hc
    refine (hc.copyArgv (by omega) (by rw [Nat.one_mul]; exact hmem.words)
      (by rw [Nat.one_mul]; exact hmem.outside)).congr ?_
    have hle : args.length * 1 ≤ args.length * wordsize p := Nat.mul_le_mul_left _ (by cases p <;> decide)
    exact ⟨fun hfits => hfits.2, fun hroom => ⟨by omega, hroom⟩⟩
  · have hle : (qs.length - 1) * wordsize p ≤ (qs.length + args.length) * wordsize p :=
      Nat.mul_le_mul_right _ (by omega)
    rw [List.length_nil, Nat.zero_add]
    omega

/-- The same for arguments that are not known. -/
theorem Laid.layVector_reads (h : Laid tcp m regs strs [] child) (hqs : qs ≠ [])
    (hlay : Ptu.layVector p tcp strs.length qs child = .ok child') :
    ∃ vs, LaidWords p tcp m regs strs (qs ++ vs ++ [0]) child' ∧ (∀ v ∈ vs, v ≠ 0 ∧ v.toNat < 256 ^ wordsize p) ∧
      (Outside tcp (tcp.uArg argvArg + BitVec.ofNat 64 (wordsize p)) (wordsize p) → vs = [] →
        WordAt p m (tcp.uArg argvArg + BitVec.ofNat 64 (wordsize p)) 0) := by
  have hpos := List.length_pos_iff.2 hqs
  obtain ⟨c, hc, hcopy⟩ := bind_eq_ok.1 hlay
  have hlaid := (((h.laidWords p).words rfl).of_ok hc).2
  rw [List.nil_append] at hlaid
  have hreads := hlaid.copyArgv_reads (by omega) hcopy
  rwa [Nat.one_mul] at hreads

/-- What has been laid out is read back. -/
theorem LaidWords.wordsAt (h : LaidWords p tcp m regs strs (vs ++ [0]) child)
    (hvs : ∀ v ∈ vs, v ≠ 0 ∧ v.toNat < 256 ^ wordsize p) :
    Holds child.mem tcp.childshm strs ∧ WordsAt p child.mem (tcp.inChild strs.length) vs := by
  obtain ⟨junk, -, hlaid⟩ := h
  have hsize : sharedPageSize ≤ 2 ^ 64 := by decide
  have hroom := hlaid.room
  have hholds : Holds child.mem tcp.childshm (strs ++ Ptu.words p (vs ++ [0]) ++ junk) := by
    rw [hlaid.mem]
    exact holds_store _ _ (by omega)
  rw [List.append_assoc, holds_append, holds_append] at hholds
  exact ⟨hholds.1, wordsAt_of_holds hholds.2.1 hvs⟩

end Vector

theorem pokeWords_append {newArgvRaw k : ℕ} {vs ws : List Word} :
    pokeWords p tcp newArgvRaw k (vs ++ ws) child = (do
      let c ← pokeWords p tcp newArgvRaw k vs child
      pokeWords p tcp newArgvRaw (k + vs.length) ws c) := by
  induction vs generalizing k child with
  | nil => rfl
  | cons v vs ih =>
    have hcount : k + (v :: vs).length = k + 1 + vs.length := by rw [List.length_cons]; omega
    simp only [List.cons_append, pokeWords, ih, hcount, bind_assoc]

/-- Steps are compared where the first one has a result. -/
theorem bind_congr_ok {α β : Type} {x : Except Fatal α} {f g : α → Except Fatal β}
    (h : ∀ a, x = .ok a → f a = g a) : x >>= f = x >>= g := by
  cases x with
  | error e => rfl
  | ok a => exact h a rfl

theorem layVector_append (p : Personality) (tcp : ShmTcb) (newArgvRaw : ℕ) (qs : List Word) (q : Word)
    (child : Child) : layVector p tcp newArgvRaw (qs ++ [q]) child = (do
      let child ← pokeWords p tcp newArgvRaw 0 qs child
      let child ← pokeWord p tcp newArgvRaw qs.length q child
      copyArgv p tcp newArgvRaw qs.length sharedPageSize 1 child) := by
  have hlast : ∀ c, pokeWords p tcp newArgvRaw qs.length [q] c = pokeWord p tcp newArgvRaw qs.length q c :=
    fun c => bind_pure _
  simp only [layVector, pokeWords_append, bind_assoc, List.length_append, List.length_singleton, Nat.zero_add,
    Nat.add_sub_cancel, hlast]

/-! ## The three vectors -/

/-- What is laid out for a program, and for a script with and without the linker of the package. -/
inductive NewArgv where
  | elf (ldLinuxFullpath perceivedProgramFullpath : CString)
  | linkerScript (ldLinuxFullpath : CString) (tokens : List CString)
  | script (token : CString) (tokens : List CString)

namespace NewArgv

variable {l : NewArgv} {args : List Word}

/-- The strings at the start of the segment. -/
def texts : NewArgv → List CString
  | elf ldLinuxFullpath perceivedProgramFullpath => [ldLinuxFullpath, perceivedProgramFullpath]
  | linkerScript ldLinuxFullpath tokens => ldLinuxFullpath :: tokens
  | script token tokens => token :: tokens

/-- Those of `script_command_token_starts`. -/
def tokens : NewArgv → List CString
  | elf _ _ => []
  | linkerScript _ tokens => tokens
  | script token tokens => token :: tokens

/-- A script is passed as the process has named it. -/
def own {α : Type} (file : α) : NewArgv → List α
  | elf _ _ => []
  | linkerScript _ _ | script _ _ => [file]

/-- The words in front of `argv[1]`. -/
def pointers (tcp : ShmTcb) (l : NewArgv) : List Word :=
  (offsets 0 l.texts).map tcp.inChild ++ l.own (tcp.uArg fileArg)

/-- The strings and the array, with `n` arguments of the process, fit into the segment. -/
def FitsPage (p : Personality) (l : NewArgv) (n : ℕ) : Prop :=
  (strings l.texts).length + (l.texts.length + (l.own ()).length + n) * wordsize p + 8 ≤ sharedPageSize

instance (p : Personality) (l : NewArgv) (n : ℕ) : Decidable (l.FitsPage p n) := inferInstanceAs (Decidable (_ ≤ _))

def lay (tcp : ShmTcb) (child : Child) : NewArgv → Except Fatal Child
  | elf ldLinuxFullpath perceivedProgramFullpath => do
    let child ← pokeShm tcp 0 (ldLinuxFullpath ++ [0]) child
    pokeShm tcp (ldLinuxFullpath.length + 1) (perceivedProgramFullpath ++ [0]) child
  | linkerScript ldLinuxFullpath tokens => do
    let child ← pokeShm tcp 0 (ldLinuxFullpath ++ [0]) child
    let (_, _, child) ← layTokens tcp tokens (ldLinuxFullpath.length + 1) [] child
    return child
  | script token tokens => do
    let (_, _, child) ← layTokens tcp (token :: tokens) 0 [] child
    return child

def run (p : Personality) (tcp : ShmTcb) (child : Child) : NewArgv → Except Fatal Child
  | elf ldLinuxFullpath perceivedProgramFullpath => do
    let (newArgvRaw, child) ← elfArgv p tcp ldLinuxFullpath perceivedProgramFullpath child
    return setExecve p tcp newArgvRaw child
  | linkerScript ldLinuxFullpath tokens => scriptArgv p tcp true ldLinuxFullpath tokens child
  | script token tokens => scriptArgv p tcp false [] (token :: tokens) child

theorem pointers_length (tcp : ShmTcb) : (l.pointers tcp).length = l.texts.length + (l.own ()).length := by
  rw [pointers, List.length_append, List.length_map, offsets_length]
  cases l <;> rfl

theorem pointers_ne_nil (tcp : ShmTcb) : l.pointers tcp ≠ [] := by cases l <;> simp [pointers, texts, offsets]

/-- The strings are laid out first. -/
theorem lay_okIff (l : NewArgv) (tcp : ShmTcb) (child : Child) :
    OkIff Fatal.segv ((strings l.texts).length ≤ sharedPageSize ∧ l.tokens.length ≤ 200)
      (Laid tcp child.mem child.regs (strings l.texts) []) (l.lay tcp child) := by
  have hinit := Laid.init tcp child
  cases l with
  | elf ld program =>
    have hlen : (ld ++ [0]).length = ld.length + 1 := by simp
    have hstrs : strings (elf ld program).texts = ld ++ [0] ++ (program ++ [0]) := by simp [texts, strings]
    rw [hstrs]
    refine (hinit.poke (by simp)).bind (fun c _ hc => ?_) fun ⟨hroom, _⟩ => ?_
    · rw [List.nil_append] at hc
      have hpoke : OkIff _ _ _ (pokeShm tcp _ (program ++ [0]) c) := hc.poke (by simp)
      rw [hlen] at hpoke
      refine hpoke.congr ?_
      simp [tokens]
      omega
    · rw [List.length_append] at hroom
      rw [List.length_nil]
      omega
  | linkerScript ld tokens =>
    have hlen : (ld ++ [0]).length = ld.length + 1 := by simp
    have hstrs : strings (linkerScript ld tokens).texts = ld ++ [0] ++ strings tokens := rfl
    rw [hstrs]
    refine (hinit.poke (by simp)).bind (fun c _ hc => ?_) fun ⟨hroom, _⟩ => ?_
    · rw [List.nil_append] at hc
      have hlay : OkIff _ _ _ (layTokens tcp tokens _ [] c) := hc.layTokens (by simp)
      rw [hlen] at hlay
      refine (hlay.congr ?_).bind (fun r hfits hr => okIff_ok hfits hr.2.2) id
      simp [NewArgv.tokens]
      omega
    · rw [List.length_append] at hroom
      rw [List.length_nil]
      omega
  | script token tokens =>
    refine ((hinit.layTokens (by simp)).congr ?_).bind (fun r hfits hr => okIff_ok hfits hr.2.2) id
    simp [texts, NewArgv.tokens]

/-- Without the linker the first word is written twice. -/
theorem pokeWord_pokeWords (newArgvRaw k : ℕ) (v : Word) (vs : List Word) (child : Child) :
    (do
      let child ← pokeWord p tcp newArgvRaw k v child
      pokeWords p tcp newArgvRaw k (v :: vs) child) = pokeWords p tcp newArgvRaw k (v :: vs) child := by
  simp only [pokeWords, pokeWord, pokeShm]
  split_ifs with hfull
  · rfl
  · have hsize : sharedPageSize ≤ 2 ^ 64 := by decide
    have hself := (holds_store child.mem (tcp.childshm + BitVec.ofNat 64 (newArgvRaw + k * wordsize p))
      (show (bytesLE 8 v.toNat).length ≤ 2 ^ 64 by omega)).store_self
    change (do
      let c ← (Except.ok { child with mem := _ } : Except Fatal Child)
      pokeWords p tcp newArgvRaw (k + 1) vs c) = _
    rw [hself]

theorem run_eq (l : NewArgv) (p : Personality) (tcp : ShmTcb) (child : Child) :
    l.run p tcp child = (do
      let child ← l.lay tcp child
      let child ← layVector p tcp (strings l.texts).length (l.pointers tcp) child
      return setExecve p tcp (strings l.texts).length child) := by
  have hinit := Laid.init tcp child
  cases l with
  | elf ld program =>
    have hlen : (strings (elf ld program).texts).length = ld.length + 1 + (program.length + 1) := by
      simp [texts, strings]; omega
    have hpointers : (elf ld program).pointers tcp = [tcp.childshm, tcp.inChild (ld.length + 1)] := by
      simp [pointers, texts, offsets, own, inChild_zero]
    rw [hlen, hpointers]
    simp only [run, elfArgv, lay, layVector, pokeWords, bind_assoc, pure_bind]
    rfl
  | linkerScript ld tokens =>
    simp only [run, scriptArgv, lay, if_true, bind_assoc, pure_bind]
    refine bind_congr_ok fun c₁ h₁ => bind_congr_ok fun ⟨newArgvRaw, starts, c₂⟩ h₂ => ?_
    have hlen : (ld ++ [0]).length = ld.length + 1 := by simp
    have hlaid := ((hinit.poke (by simp)).of_ok h₁).2
    rw [List.nil_append] at hlaid
    obtain ⟨rfl, rfl, -⟩ := ((hlaid.layTokens (by simp)).of_ok (hlen.symm ▸ h₂)).2
    have hpointers : (linkerScript ld tokens).pointers tcp =
        tcp.childshm :: (offsets (ld ++ [0]).length tokens).map tcp.inChild ++ [tcp.uArg fileArg] := by
      simp [pointers, texts, offsets, own, inChild_zero]
    rw [hpointers, List.nil_append, layVector_append, List.length_cons, List.length_map]
    simp only [pokeWords, bind_assoc]
    rfl
  | script token tokens =>
    simp only [run, scriptArgv, lay, Bool.false_eq_true, if_false, bind_assoc, pure_bind]
    refine bind_congr_ok fun ⟨newArgvRaw, starts, c₂⟩ h₂ => ?_
    obtain ⟨rfl, rfl, -⟩ := ((hinit.layTokens (by simp)).of_ok h₂).2
    have hstarts : (offsets 0 (token :: tokens)).map tcp.inChild =
        tcp.childshm :: (offsets (0 + token.length + 1) tokens).map tcp.inChild := by
      rw [offsets, List.map_cons, inChild_zero]
    have hpointers : (script token tokens).pointers tcp =
        (offsets 0 (token :: tokens)).map tcp.inChild ++ [tcp.uArg fileArg] := rfl
    simp only [List.nil_append, List.length_nil, Nat.add_zero]
    rw [hpointers, layVector_append, ← bind_assoc, hstarts, pokeWord_pokeWords, ← hstarts, List.length_map]
    simp only [bind_assoc]
    rfl

/-- **A new vector is laid out exactly if it fits.** -/
theorem run_okIff (l : NewArgv) (hmem : ArgvMemory p tcp child.mem args) :
    OkIff Fatal.segv (l.tokens.length ≤ 200 ∧ l.FitsPage p args.length)
      (fun c => ∃ c₀, c = setExecve p tcp (strings l.texts).length c₀ ∧
        LaidWords p tcp child.mem child.regs (strings l.texts) (l.pointers tcp ++ args ++ [0]) c₀)
      (l.run p tcp child) := by
  rw [run_eq]
  refine (l.lay_okIff tcp child).bind (fun c hfits hc => ?_) fun ⟨htokens, hpage⟩ => ⟨?_, htokens⟩
  · have hvec := hc.layVector hmem (l.pointers_ne_nil tcp)
    rw [pointers_length] at hvec
    refine (hvec.congr ?_).bind (fun c₀ hfits' h₀ => okIff_ok hfits' ⟨c₀, rfl, h₀⟩) id
    exact (and_iff_right hfits.2).symm
  · rw [FitsPage] at hpage
    omega

/-- The words in front of `argv[1]` are pointers to the strings and to the script. -/
theorem entryAt_pointers (l : NewArgv) {mem : Mem} (h : Holds mem tcp.childshm (strings l.texts)) :
    List.Forall₂ (EntryAt mem) (l.texts.map .text ++ (l.own (tcp.uArg fileArg)).map .pointer) (l.pointers tcp) :=
  List.rel_append (entryAt_strings (by rwa [inChild_zero])) (Ptu.entryAt_pointers _ _)

/-- What has been laid out is read back, also if the arguments are not known. -/
theorem read (l : NewArgv) {vs : List Word} (hattached : tcp.childshm ≠ 0)
    (hsegment : tcp.childshm.toNat + sharedPageSize ≤ 256 ^ wordsize p)
    (hfile : tcp.uArg fileArg ≠ 0 ∧ (tcp.uArg fileArg).toNat < 256 ^ wordsize p)
    (hvs : ∀ v ∈ vs, v ≠ 0 ∧ v.toNat < 256 ^ wordsize p)
    (h : LaidWords p tcp m regs (strings l.texts) (l.pointers tcp ++ vs ++ [0]) child) :
    Holds child.mem tcp.childshm (strings l.texts) ∧
      WordsAt p child.mem (tcp.inChild (strings l.texts).length) (l.pointers tcp ++ vs) := by
  refine h.wordsAt fun v hv => ?_
  obtain ⟨junk, -, hlaid⟩ := h
  have hroom := hlaid.room
  rw [List.length_append, List.length_append] at hroom
  simp only [pointers, List.mem_append, List.mem_map] at hv
  rcases hv with (⟨x, hx, rfl⟩ | hv) | hv
  · have hlt := offsets_lt x hx
    exact inChild_ne_zero hattached hsegment (by omega)
  · obtain rfl : v = tcp.uArg fileArg := by
      cases l with
      | elf ld program => simp [own] at hv
      | linkerScript ld tokens => simpa [own] using hv
      | script token tokens => simpa [own] using hv
    exact hfile
  · exact hvs v hv

end NewArgv

/-- **The new argument vector of a script.** -/
theorem scriptArgv_decodes {ld : CString} {tokens : List CString} {args : List Word}
    (hmem : ArgvMemory p tcp child.mem args) (h : scriptArgv p tcp true ld tokens child = .ok child') :
    Decodes p child'.mem (child'.regs (argreg p argvArg))
      (.text ld :: (tokens.map .text ++ .pointer (tcp.uArg fileArg) :: args.map .pointer)) := by
  obtain ⟨-, c, rfl, hlaid⟩ := ((NewArgv.linkerScript ld tokens).run_okIff hmem).of_ok h
  obtain ⟨hstrs, hat⟩ := NewArgv.read _ hmem.attached hmem.segment hmem.file hmem.words.forall hlaid
  obtain ⟨hargv, -, hsame⟩ := setExecve_argv p tcp (strings (NewArgv.linkerScript ld tokens).texts).length c
  rw [hargv, hsame]
  refine ⟨_, hat, ?_⟩
  have hall := List.rel_append (NewArgv.entryAt_pointers _ hstrs) (entryAt_pointers c.mem args)
  simpa [NewArgv.texts, NewArgv.own] using hall

/-- **It is written if it fits into the segment**, and there are not too many tokens. -/
theorem scriptArgv_total {ld : CString} {tokens : List CString} {args : List Word}
    (hmem : ArgvMemory p tcp child.mem args) (htokens : tokens.length ≤ 200)
    (hroom : (ld ++ [0] ++ strings tokens).length + (tokens.length + 2 + args.length) * wordsize p + 8 ≤
      sharedPageSize) :
    ∃ child', scriptArgv p tcp true ld tokens child = .ok child' := by
  obtain ⟨child', h, -⟩ := ((NewArgv.linkerScript ld tokens).run_okIff hmem).ok ⟨htokens, hroom⟩
  exact ⟨child', h⟩


end Ptu
