import Ptu.Lib.Sentinel
import Ptu.Proof.Path
import Ptu.Spec.PathStack

/-!
# The stack of a path is never overrun

* `grow_simulates`, `component_simulates`, `newPathRounds_total`: over the block of pointers, `new_path_internal` does
  what `newPathInternal` says, one component after the other.
* `path2strStack_eq`: `path2str` has room for what it prints, and it prints `path2str`.
* `path_stack_safe`: **no access leaves its block and no assertion fails**, for every path and every depth.
* `stacksize_le`: the counters are linear in the length of the path.
-/

namespace Ptu

open Sentinel

variable {p : PathStack} {q : Path} {st : StackLoop} {np : NewPath} {n i : ℕ}

/-! ## The block -/

/-- The block holds the components of `q`, and NULL behind them. -/
structure PathStack.Represents (p : PathStack) (q : Path) : Prop where
  size : p.stacksize = q.stacksize
  depth : p.depth = q.depth
  isAbspath : p.isAbspath = q.isAbspath
  cells : Stores .null (q.stack.map .comp) p.stack

namespace PathStack

theorem Represents.length (h : p.Represents q) : (q.stack.map StackCell.comp).length = p.depth := by
  rw [List.length_map, h.depth, Path.depth]

theorem Represents.depth_lt (h : p.Represents q) : p.depth < p.stacksize := by
  have hlt := h.cells.length_lt
  rwa [h.length, p.length_stack] at hlt

theorem Represents.getElem?_depth (h : p.Represents q) : p.stack[p.depth]? = some .null := by
  have htop := h.cells.getElem?_length
  rwa [h.length] at htop

theorem Represents.getElem? (h : p.Represents q) (hi : i < q.stack.length) :
    p.stack[i]? = some (.comp q.stack[i]) := by
  have hcell := h.cells.getElem? (i := i) (by rwa [List.length_map])
  rw [hcell, List.getElem?_map, List.getElem?_eq_getElem hi]
  rfl

theorem write_eq {cell : StackCell} (hi : i < p.stacksize) :
    p.write i cell =
      .ok { p with stack := p.stack.set i cell, length_stack := List.length_set.trans p.length_stack } := by
  rw [write, if_pos hi]

theorem Represents.read (h : p.Represents q) (hi : i < q.stack.length) : p.read i = .ok (.comp q.stack[i]) := by
  rw [PathStack.read, h.getElem? hi]

theorem Represents.name (h : p.Represents q) (hi : i < q.stack.length) : p.name i = .ok q.stack[i] := by
  rw [PathStack.name, h.read hi]
  rfl

/-- `..`: the last component is freed, and NULL stands in its cell. -/
theorem Represents.pop (h : p.Represents q) (hpos : 0 < p.depth) :
    ∃ p', free { p with depth := p.depth - 1 } (p.depth - 1) = .ok () ∧
      write { p with depth := p.depth - 1 } (p.depth - 1) .null = .ok p' ∧
      p'.Represents { q with stack := q.stack.dropLast } := by
  have hdepth : p.depth = q.stack.length := h.depth
  have hlt := h.depth_lt
  have hread : PathStack.read { p with depth := p.depth - 1 } (p.depth - 1) = .ok (.comp q.stack[p.depth - 1]) :=
    h.read (by omega)
  refine ⟨_, ?_, write_eq (by simp only; omega), ⟨h.size, ?_, h.isAbspath, ?_⟩⟩
  · rw [free, hread]
    rfl
  · rw [Path.depth, List.length_dropLast, hdepth]
  · obtain ⟨init, last, hstack⟩ : ∃ init last, q.stack = init ++ [last] := by
      refine (List.eq_nil_or_concat' q.stack).resolve_left fun hnil => ?_
      rw [hnil, List.length_nil] at hdepth
      omega
    have hcells := h.cells
    rw [hstack, List.map_append, List.map_singleton] at hcells
    have hlen : (init.map StackCell.comp).length = p.depth - 1 := by
      rw [List.length_map, hdepth, hstack, List.length_append, List.length_singleton, Nat.add_sub_cancel]
    rw [hstack, List.dropLast_concat, ← hlen]
    exact hcells.pop

/-- A further component, and NULL behind it. -/
theorem Represents.push (h : p.Represents q) (hroom : p.depth + 1 < p.stacksize) (c : CString) :
    ∃ p₁ p₂, p.write p.depth (.comp c) = .ok p₁ ∧
      write { p₁ with depth := p₁.depth + 1 } (p₁.depth + 1) .null = .ok p₂ ∧
      p₂.Represents { q with stack := q.stack ++ [c] } := by
  refine ⟨_, _, write_eq (by omega), write_eq hroom, ⟨h.size, ?_, h.isAbspath, ?_⟩⟩
  · rw [Path.depth, List.length_append, h.depth]
    rfl
  · have hcells := h.cells.push (by rwa [h.length, p.length_stack]) (.comp c)
    rwa [h.length, ← List.map_singleton, ← List.map_append] at hcells

end PathStack

/-! ## One component -/

/-- The variables of the loop after `n` components are those of `NewPath`. `stackleft` is less than what is really
left, and between two rounds of growing it is used up. -/
structure StackLoop.Simulates (n : ℕ) (st : StackLoop) (np : NewPath) : Prop where
  base : st.base.Represents np.base
  left : st.stackleft = np.stackleft
  room : np.stackleft + np.base.depth + 1 ≤ np.base.stacksize
  paid : np.base.stacksize ≤ 2 * (n + np.stackleft) + 1
  size_le : np.base.stacksize ≤ 4 * n + 7

theorem grow_simulates (h : st.Simulates n np) :
    ∃ st', st.grow 3 = .ok st' ∧ st'.Simulates n np.grow ∧ 2 ≤ np.grow.stackleft := by
  have hroom := h.room
  have hpaid := h.paid
  by_cases hleft : np.stackleft ≤ 1
  · have hgrow : np.grow = ⟨{ np.base with stacksize := 2 * np.base.stacksize + 1 }, np.base.stacksize + 1⟩ := by
      rw [NewPath.grow, if_pos hleft]
    have hsize : (st.growRound).stackleft = (np.base.stacksize : ℤ) + 1 := by
      simp [StackLoop.growRound, h.base.size]
    have honce : st.grow 3 = .ok st.growRound := by
      have htwo : ¬ st.growRound.stackleft ≤ 1 := by omega
      have hone : st.stackleft ≤ 1 := by rw [h.left]; omega
      simp only [StackLoop.grow, if_pos hone, if_neg htwo]
    rw [hgrow]
    refine ⟨_, honce, ⟨⟨?_, h.base.depth, h.base.isAbspath, ?_⟩, hsize, ?_, ?_, ?_⟩, ?_⟩
    · simp only [StackLoop.growRound, PathStack.realloc, h.base.size]
      omega
    · refine h.base.cells.realloc _ ?_
      have hlt := h.base.depth_lt
      rw [h.base.length]
      omega
    · simp only [Path.depth] at hroom ⊢
      omega
    · simp only
      omega
    · simp only
      omega
    · simp only
      omega
  · have hgrow : np.grow = np := by rw [NewPath.grow, if_neg hleft]
    have hmore : ¬ st.stackleft ≤ 1 := by rw [h.left]; omega
    rw [hgrow]
    refine ⟨st, ?_, h, by omega⟩
    simp only [StackLoop.grow, if_neg hmore]

theorem component_simulates (h : st.Simulates n np) (hleft : 2 ≤ np.stackleft) (comp : CString) :
    ∃ st', st.component comp = .ok st' ∧ st'.Simulates (n + 1) (np.component comp) := by
  have hroom := h.room
  have hpaid := h.paid
  have hsize := h.size_le
  have hlt := h.base.depth_lt
  have hdepth := h.base.depth
  -- NULL is written where it stands already
  have hskip : ∃ st', (do return (⟨← st.base.write st.base.depth .null, st.stackleft⟩ : StackLoop)) = .ok st' ∧
      st'.Simulates (n + 1) np := by
    rw [PathStack.write_eq hlt]
    refine ⟨_, rfl, ⟨h.base.size, h.base.depth, h.base.isAbspath, ?_⟩, h.left, hroom, by omega, by omega⟩
    have hcells := h.base.cells.set_length
    rwa [h.base.length] at hcells
  unfold StackLoop.component NewPath.component
  split_ifs with hnil hdot hup hpos hpos' hpos'
  · exact hskip
  · exact hskip
  · obtain ⟨p', hfree, hwrite, hp'⟩ := h.base.pop hpos
    refine ⟨⟨p', st.stackleft + 1⟩, ?_, hp', ?_, ?_, by simp only; omega, by simp only; omega⟩
    · exact bind_eq_ok.2 ⟨(), hfree, bind_eq_ok.2 ⟨p', hwrite, rfl⟩⟩
    · simp only
      rw [h.left]
      omega
    · simp only [Path.depth, List.length_dropLast] at hroom hdepth hpos' ⊢
      omega
  · omega
  · omega
  · exact ⟨st, rfl, h.base, h.left, hroom, by omega, by omega⟩
  · obtain ⟨p₁, p₂, hwrite, hwrite', hp₂⟩ := h.base.push (by rw [h.base.size]; omega) comp
    refine ⟨⟨p₂, st.stackleft - 1⟩, ?_, hp₂, ?_, ?_, by simp only; omega, by simp only; omega⟩
    · exact bind_eq_ok.2 ⟨p₁, hwrite, bind_eq_ok.2 ⟨p₂, hwrite', rfl⟩⟩
    · simp only
      rw [h.left]
      omega
    · simp only [Path.depth, List.length_append, List.length_singleton] at hroom ⊢
      omega

/-! ## All components -/

/-- **`new_path_internal` runs to its end**, in the state that `newPathLoop` computes, and every iteration of it ends
in such a state. -/
theorem newPathRounds_total : ∀ (fuel : ℕ) (path : CString) (n : ℕ) (st : StackLoop) (np : NewPath),
    path.length < fuel → st.Simulates n np →
    ∃ rounds last, newPathRounds fuel path st = .ok (rounds ++ [last]) ∧
      (∀ st' ∈ rounds ++ [last], ∃ m np', m ≤ n + path.length + 1 ∧ st'.Simulates m np') ∧
      last.base.Represents (newPathLoop fuel path np).base := by
  intro fuel
  induction fuel with
  | zero =>
    intro path n st np hfuel
    omega
  | succ fuel ih =>
    intro path n st np hfuel h
    obtain ⟨st₁, hgrow, h₁, hleft⟩ := grow_simulates h
    obtain ⟨st₂, hcomponent, h₂⟩ :=
      component_simulates h₁ hleft ((path.dropWhile (· == slash)).takeWhile (· != slash))
    have hlen := List.length_dropWhile_le (· == slash) path
    simp only [newPathRounds, newPathLoop, hgrow]
    cases hrest : (path.dropWhile (· == slash)).dropWhile (· != slash) with
    | nil =>
      refine ⟨[], st₂, bind_eq_ok.2 ⟨st₁, rfl, bind_eq_ok.2 ⟨st₂, hcomponent, rfl⟩⟩, ?_, h₂.base⟩
      intro st' hst'
      obtain rfl := List.mem_singleton.1 hst'
      exact ⟨n + 1, _, by omega, h₂⟩
    | cons c rest =>
      -- the rest is shorter by its slash
      have hshort : rest.length + 1 ≤ path.length := by
        have hdrop := List.length_dropWhile_le (· != slash) (path.dropWhile (· == slash))
        rw [hrest, List.length_cons] at hdrop
        omega
      obtain ⟨rounds, last, hrounds, hall, hlast⟩ := ih rest (n + 1) st₂ _ (by omega) h₂
      refine ⟨st₂ :: rounds, last, bind_eq_ok.2 ⟨st₁, rfl, bind_eq_ok.2 ⟨st₂, hcomponent, ?_⟩⟩, ?_, hlast⟩
      · exact bind_eq_ok.2 ⟨_, hrounds, rfl⟩
      · intro st' hst'
        rcases List.mem_cons.1 hst' with rfl | hst'
        · exact ⟨n + 1, _, by omega, h₂⟩
        · obtain ⟨m, np', hm, h'⟩ := hall st' hst'
          exact ⟨m, np', by omega, h'⟩

/-- A new path and the first `stackleft`. -/
theorem newPathStack_simulates (isAbspath : Bool) :
    ∃ base, newPathStack isAbspath = .ok base ∧ emptyPath base = .ok base ∧
      StackLoop.Simulates 0 ⟨base, (base.stacksize : ℤ) - base.depth - 1⟩ ⟨newPath isAbspath, 0⟩ :=
  ⟨_, rfl, rfl, ⟨rfl, rfl, rfl, List.prefix_refl _⟩, rfl, Nat.le_refl 1, Nat.le_refl 1, (by decide : 1 ≤ 7)⟩

theorem pathStackRounds_total (s : CString) (isAbspath : Bool) :
    ∃ rounds last, pathStackRounds s isAbspath = .ok (rounds ++ [last]) ∧
      (∀ st ∈ rounds ++ [last], ∃ m np, m ≤ s.length + 1 ∧ st.Simulates m np) ∧
      last.base.Represents (newPathInternal s isAbspath) := by
  obtain ⟨base, hnew, hempty, h⟩ := newPathStack_simulates isAbspath
  have hlen : (if isAbspath then s.tail else s).length ≤ s.length := by
    split_ifs
    · simp
    · exact le_rfl
  obtain ⟨rounds, last, hrounds, hall, hlast⟩ := newPathRounds_total _ _ 0 _ _ (Nat.lt_succ_self _) h
  refine ⟨rounds, last, ?_, fun st hst => ?_, hlast⟩
  · rw [pathStackRounds, hnew]
    refine bind_eq_ok.2 ⟨base, rfl, ?_⟩
    cases isAbspath with
    | true => exact bind_eq_ok.2 ⟨base, hempty, hrounds⟩
    | false => exact bind_eq_ok.2 ⟨base, rfl, hrounds⟩
  · obtain ⟨m, np, hm, h'⟩ := hall st hst
    exact ⟨m, np, by omega, h'⟩

/-- **What the counters say** at the end of an iteration. -/
structure StackLoop.Sound (st : StackLoop) : Prop where
  room : st.stackleft ≤ st.base.stacksize - st.base.depth - 1
  depth_lt : st.base.depth < st.base.stacksize
  filled : ∀ i < st.base.depth, ∃ name, st.base.stack[i]? = some (.comp name)
  top : st.base.stack[st.base.depth]? = some .null

theorem StackLoop.Simulates.sound (h : st.Simulates n np) : st.Sound where
  room := by
    have hroom := h.room
    rw [h.left, h.base.size, h.base.depth]
    omega
  depth_lt := h.base.depth_lt
  filled i hi := ⟨_, h.base.getElem? (by rwa [h.base.depth] at hi)⟩
  top := h.base.getElem?_depth

/-- The block is at most linear in the length of the path, so that no `int` overflows before the path is of such a
length. -/
theorem stacksize_le {s : CString} {isAbspath : Bool} {rounds : List StackLoop}
    (h : pathStackRounds s isAbspath = .ok rounds) : ∀ st ∈ rounds, st.base.stacksize ≤ 4 * s.length + 11 := by
  obtain ⟨rounds', last, hrounds, hall, -⟩ := pathStackRounds_total s isAbspath
  obtain rfl := Except.ok.inj (hrounds.symm.trans h)
  intro st hst
  obtain ⟨m, np, hm, h'⟩ := hall st hst
  have hsize := h'.size_le
  rw [h'.base.size]
  omega

/-! ## Freeing and printing -/

/-- The cells that have been freed hold NULL, and the loop stops at the next one that does. -/
theorem freeFrom_total : ∀ (names : List CString) (fuel : ℕ) (p : PathStack) (freed : List StackCell),
    names.length < fuel → Stores .null (freed ++ names.map .comp) p.stack →
    ∃ p', PathStack.freeFrom fuel freed.length p = .ok p' := by
  intro names
  induction names with
  | nil =>
    intro fuel p freed hfuel h
    obtain ⟨fuel, rfl⟩ := Nat.exists_eq_succ_of_ne_zero (Nat.ne_of_gt hfuel)
    rw [List.map_nil, List.append_nil] at h
    have hread : p.read freed.length = .ok .null := by rw [PathStack.read, h.getElem?_length]
    exact ⟨p, bind_eq_ok.2 ⟨_, hread, rfl⟩⟩
  | cons c names ih =>
    intro fuel p freed hfuel h
    rw [List.length_cons] at hfuel
    obtain ⟨fuel, rfl⟩ := Nat.exists_eq_succ_of_ne_zero (Nat.ne_of_gt (Nat.zero_lt_of_lt hfuel))
    rw [List.map_cons] at h
    have hlt : freed.length < (freed ++ StackCell.comp c :: names.map .comp).length := by simp
    have hread : p.read freed.length = .ok (.comp c) := by
      rw [PathStack.read, h.getElem? hlt, List.getElem?_append_right le_rfl, Nat.sub_self]
      rfl
    have hsize : freed.length < p.stacksize := by
      rw [← p.length_stack]
      exact hlt.trans h.length_lt
    have hset := h.set .null
    rw [List.append_cons] at hset
    obtain ⟨p', hrest⟩ := ih fuel { p with
      stack := p.stack.set freed.length .null
      length_stack := List.length_set.trans p.length_stack } (freed ++ [.null]) (by omega) hset
    rw [List.length_append, List.length_singleton] at hrest
    exact ⟨p', bind_eq_ok.2 ⟨_, hread, bind_eq_ok.2 ⟨_, PathStack.write_eq hsize, hrest⟩⟩⟩

/-- `delete_path` frees what the path holds. -/
theorem deletePath_ok (h : p.Represents q) : deletePath p = .ok () := by
  have hlt := h.depth_lt
  obtain ⟨p', hp'⟩ := freeFrom_total q.stack (p.stacksize + 1) p [] (by
    rw [h.depth, Path.depth] at hlt
    omega) h.cells
  exact bind_eq_ok.2 ⟨p', hp', rfl⟩

/-- The bytes of these components, with one more for each. -/
def nameBytes : List CString → ℕ
  | [] => 0
  | name :: names => name.length + 1 + nameBytes names

theorem nameBytes_concat (names : List CString) (name : CString) :
    nameBytes (names ++ [name]) = nameBytes names + (name.length + 1) := by
  induction names with
  | nil => simp [nameBytes]
  | cons a names ih =>
    rw [List.cons_append, nameBytes, nameBytes, ih]
    omega

theorem length_joinSlash_le (names : List CString) : (joinSlash names).length ≤ nameBytes names := by
  induction names with
  | nil => exact Nat.zero_le 0
  | cons a names ih =>
    rw [joinSlash_cons, nameBytes, List.length_append]
    split_ifs
    · simp only [List.length_nil]
      omega
    · rw [render, List.length_cons]
      omega

/-- What is allocated for the first `d` components. -/
theorem allocated_eq (h : p.Represents q) {d : ℕ} (hd : d ≤ q.stack.length) :
    (List.range d).foldlM (fun n i => (p.name i).map fun name => n + (name.length + 1)) 2 =
      .ok (2 + nameBytes (q.stack.take d)) := by
  obtain ⟨n, hn, rfl⟩ := foldlM_range_total (I := fun i n => n = 2 + nameBytes (q.stack.take i)) (n := d)
    (f := fun n i => (p.name i).map fun name => n + (name.length + 1)) (s := 2) (fun i n hi hI => by
      have hlt : i < q.stack.length := by omega
      refine ⟨n + (q.stack[i].length + 1), by rw [h.name hlt]; rfl, ?_⟩
      rw [List.take_succ_eq_append_getElem hlt, nameBytes_concat, hI, Nat.add_assoc]) rfl
  exact hn

theorem DestBuffer.put_eq {allocated : ℕ} {b : DestBuffer} {bytes : CString}
    (hfits : (b.written ++ bytes).length ≤ allocated) :
    b.put allocated bytes = .ok ⟨b.written ++ bytes, b.destlen - bytes.length⟩ := by
  rw [DestBuffer.put, if_pos hfits]

/-- What has been written is a part of `text`, of which `rest` is still to come, and `destlen` counts what is left. -/
structure DestBuffer.Printing (allocated : ℕ) (text rest : CString) (b : DestBuffer) : Prop where
  text_eq : b.written ++ rest = text
  left : b.destlen = allocated - b.written.length

/-- **One round of printing.** There is room for the component, for a slash if another one follows, and for the NUL. -/
theorem path2strRound_ok (h : p.Represents q) {allocated d : ℕ} {text : CString} {b : DestBuffer}
    (hd : d ≤ q.stack.length) (hroom : text.length + 1 ≤ allocated) (hi : i < d)
    (hb : b.Printing allocated text (joinSlash ((q.stack.take d).drop i))) :
    ∃ b', path2strRound p allocated d b i = .ok b' ∧
      b'.Printing allocated text (joinSlash ((q.stack.take d).drop (i + 1))) := by
  have hlt : i < (q.stack.take d).length := by
    rw [List.length_take]
    omega
  obtain ⟨htext, hleft⟩ := hb
  rw [List.drop_eq_getElem_cons hlt, List.getElem_take, joinSlash_cons] at htext
  have hname := h.name (i := i) (by omega)
  generalize q.stack[i] = name at htext hname
  generalize hrest : (q.stack.take d).drop (i + 1) = rest at htext ⊢
  have hlen := congrArg List.length htext
  rw [List.length_append, List.length_append] at hlen
  have hput : b.put allocated name = .ok ⟨b.written ++ name, b.destlen - name.length⟩ :=
    DestBuffer.put_eq (by rw [List.length_append]; omega)
  have hassert : ¬ b.destlen < name.length + 1 := by omega
  by_cases hnext : i + 1 < d
  · have hne : rest ≠ [] := by
      rintro rfl
      rw [List.drop_eq_nil_iff, List.length_take] at hrest
      omega
    rw [if_neg hne, render] at htext hlen
    rw [List.length_cons] at hlen
    have hassert' : ¬ b.destlen - name.length < 2 := by omega
    have hput' : DestBuffer.put allocated ⟨b.written ++ name, b.destlen - name.length⟩ [slash] =
        .ok ⟨b.written ++ name ++ [slash], b.destlen - name.length - (1 : ℕ)⟩ :=
      DestBuffer.put_eq (by simp only [List.length_append, List.length_singleton]; omega)
    refine ⟨⟨b.written ++ name ++ [slash], b.destlen - name.length - (1 : ℕ)⟩, ?_, ⟨?_, ?_⟩⟩
    · refine bind_eq_ok.2 ⟨name, hname, ite_throw_eq_ok.2 ⟨hassert, bind_eq_ok.2 ⟨_, hput, ?_⟩⟩⟩
      rw [if_pos hnext]
      exact ite_throw_eq_ok.2 ⟨hassert', hput'⟩
    · rw [← htext]
      simp
    · simp only [List.length_append, List.length_singleton]
      omega
  · have hnil : rest = [] := by
      rw [← hrest, List.drop_eq_nil_iff, List.length_take]
      omega
    rw [if_pos hnil, List.append_nil] at htext
    refine ⟨⟨b.written ++ name, b.destlen - name.length⟩, ?_, ⟨?_, ?_⟩⟩
    · refine bind_eq_ok.2 ⟨name, hname, ite_throw_eq_ok.2 ⟨hassert, bind_eq_ok.2 ⟨_, hput, ?_⟩⟩⟩
      rw [if_neg hnext]
      rfl
    · rw [hnil, ← htext]
      simp [joinSlash]
    · simp only [List.length_append]
      omega

/-- `path2str` uses the whole path if the depth is out of range. -/
theorem path2str_eq (q : Path) (depth : ℤ) :
    path2str q depth.toNat = (if q.isAbspath then [slash] else []) ++
      joinSlash (q.stack.take (if depth ≤ 0 ∨ (q.depth : ℤ) < depth then q.depth else depth.toNat)) := by
  have hcond : (depth.toNat = 0 ∨ q.depth < depth.toNat) ↔ (depth ≤ 0 ∨ (q.depth : ℤ) < depth) := by omega
  simp only [path2str, hcond]

/-- **`path2str` has room for what it prints**, at every depth. -/
theorem path2strStack_eq (h : p.Represents q) (depth : ℤ) :
    ∃ destlen, path2strStack p depth = .ok (path2str q depth.toNat ++ [0], destlen) ∧
      (path2str q depth.toNat ++ [0]).length ≤ destlen := by
  rw [path2str_eq]
  have hd : (if depth ≤ 0 ∨ (q.depth : ℤ) < depth then q.depth else depth.toNat) ≤ q.stack.length := by
    split_ifs with hrange
    · exact le_rfl
    · simp only [Path.depth] at hrange
      omega
  unfold path2strStack
  rw [h.depth, h.isAbspath]
  generalize (if depth ≤ 0 ∨ (q.depth : ℤ) < depth then q.depth else depth.toNat) = d at hd ⊢
  generalize htext : (if q.isAbspath then [slash] else []) ++ joinSlash (q.stack.take d) = text
  have hroom : text.length + 1 ≤ 2 + nameBytes (q.stack.take d) := by
    have hjoin := length_joinSlash_le (q.stack.take d)
    have hlead : (if q.isAbspath then [slash] else []).length ≤ 1 := by split_ifs <;> simp
    rw [← htext, List.length_append]
    omega
  generalize hallocated : 2 + nameBytes (q.stack.take d) = allocated at hroom
  have hsize := (allocated_eq h hd).trans (congrArg _ hallocated)
  -- the leading slash
  obtain ⟨b, hlead, hb⟩ : ∃ b, (if q.isAbspath then DestBuffer.put allocated ⟨[], allocated⟩ [slash]
      else .ok ⟨[], allocated⟩) = .ok b ∧ b.Printing allocated text (joinSlash ((q.stack.take d).drop 0)) := by
    split_ifs at htext ⊢
    · exact ⟨_, DestBuffer.put_eq (by simp only [List.nil_append, List.length_singleton]; omega), htext, by simp⟩
    · exact ⟨_, rfl, htext, by simp⟩
  obtain ⟨b', hloop, hb'⟩ := foldlM_range_total
    (I := fun i => DestBuffer.Printing allocated text (joinSlash ((q.stack.take d).drop i)))
    (fun i b hi hb => path2strRound_ok h hd hroom hi hb) hb
  have hwritten : b'.written = text := by
    have hall := hb'.text_eq
    rwa [List.drop_of_length_le (List.length_take_le d _), joinSlash, List.append_nil] at hall
  have hnul : (text ++ [0]).length ≤ allocated := by
    rw [List.length_append, List.length_singleton]
    exact hroom
  have hput : b'.put allocated [0] = .ok ⟨text ++ [0], b'.destlen - (1 : ℕ)⟩ := by
    rw [← hwritten] at hnul ⊢
    exact DestBuffer.put_eq hnul
  refine ⟨allocated, bind_eq_ok.2 ⟨allocated, hsize, ?_⟩, hnul⟩
  have hrest : (do
      let d ← (List.range d).foldlM (path2strRound p allocated d) b
      let d ← d.put allocated [0]
      return (d.written, allocated)) = (.ok (text ++ [0], allocated) : Except Fatal (CString × ℕ)) :=
    bind_eq_ok.2 ⟨b', hloop, bind_eq_ok.2 ⟨_, hput, rfl⟩⟩
  cases hq : q.isAbspath with
  | true =>
    rw [hq] at hlead
    exact bind_eq_ok.2 ⟨b, hlead, hrest⟩
  | false =>
    rw [hq] at hlead
    exact bind_eq_ok.2 ⟨b, hlead, hrest⟩

/-- **The stack of a path is never overrun**: every iteration ends with sound counters, the path is freed and printed
at every depth, and none of this leaves a block or fails an assertion. -/
theorem path_stack_safe (s : CString) :
    ∃ rounds base, pathStackRounds (slash :: s) true = .ok rounds ∧ (∀ st ∈ rounds, st.Sound) ∧
      pathStackInternal (slash :: s) true = .ok base ∧ base.Represents (newPathInternal (slash :: s) true) ∧
      deletePath base = .ok () ∧
      ∀ depth : ℤ, ∃ destlen,
        path2strStack base depth = .ok (path2str (newPathInternal (slash :: s) true) depth.toNat ++ [0], destlen) ∧
          (path2str (newPathInternal (slash :: s) true) depth.toNat ++ [0]).length ≤ destlen := by
  obtain ⟨rounds, last, hrounds, hall, hlast⟩ := pathStackRounds_total (slash :: s) true
  refine ⟨rounds ++ [last], last.base, hrounds, fun st hst => ?_, ?_, hlast, deletePath_ok hlast,
    path2strStack_eq hlast⟩
  · obtain ⟨m, np, -, h⟩ := hall st hst
    exact h.sound
  · rw [pathStackInternal, hrounds]
    refine bind_eq_ok.2 ⟨_, rfl, ?_⟩
    rw [List.getLast?_concat]
    rfl

end Ptu
