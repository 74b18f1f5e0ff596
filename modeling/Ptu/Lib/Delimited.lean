import Mathlib.Data.List.Basic

/-!
# Text in fields and records

Lists that are put together from pieces with a delimiter `d` between them (`List.intercalate [d]`)
or behind each of them (`terminated d`). Pieces without a delimiter can be read back: a field up
to the first delimiter is determined by the text (`append_inj_of_head`, `intercalate_inj`), and so
is a list of records (`terminated_map_inj`).
-/

namespace Delimited

variable {α : Type*} {d : α} {v v' p p' : List α} {ws ws' : List (List α)}

/-- A field ends at the first delimiter or at the end of the text. -/
theorem append_inj_of_head (hv : d ∉ v) (hv' : d ∉ v') (hp : ∀ c ∈ p.head?, c = d)
    (hp' : ∀ c ∈ p'.head?, c = d) (h : v ++ p = v' ++ p') : v = v' ∧ p = p' := by
  -- a field that is longer than the other one would contain the delimiter behind it
  have hnil : ∀ {v p p' : List α}, d ∉ v → (∀ c ∈ p'.head?, c = d) → p' = v ++ p → v = [] := by
    intro v p p' hv hp' h
    cases v with
    | nil => rfl
    | cons c v =>
      have hc : c = d := hp' c (by rw [h]; rfl)
      exact absurd (hc ▸ List.mem_cons_self) hv
  induction v generalizing v' with
  | nil =>
    have hv'nil : v' = [] := hnil hv' hp h
    rw [hv'nil] at h ⊢
    exact ⟨rfl, h⟩
  | cons c v ih =>
    cases v' with
    | nil => cases hnil hv hp' h.symm
    | cons c' v' =>
      obtain ⟨rfl, htail⟩ := List.cons.inj h
      obtain ⟨hvv, hpp⟩ := ih (fun hd => hv (List.mem_cons_of_mem _ hd)) (fun hd => hv' (List.mem_cons_of_mem _ hd))
        htail
      exact ⟨by rw [hvv], hpp⟩

theorem append_cons_inj (hv : d ∉ v) (hv' : d ∉ v') (h : v ++ d :: p = v' ++ d :: p') : v = v' ∧ p = p' := by
  have hhead : ∀ p : List α, ∀ c ∈ (d :: p).head?, c = d := by
    intro p c hc
    exact (Option.some.inj hc).symm
  obtain ⟨hvv, htail⟩ := append_inj_of_head hv hv' (hhead p) (hhead p') h
  exact ⟨hvv, (List.cons.inj htail).2⟩

/-- The field in front of the first delimiter. -/
theorem takeWhile_append_cons [BEq α] [LawfulBEq α] (hv : d ∉ v) : (v ++ d :: p).takeWhile (· != d) = v := by
  have hpos : ∀ c ∈ v, (c != d) = true := by
    intro c hc
    rw [bne_iff_ne]
    rintro rfl
    exact hv hc
  rw [List.takeWhile_append_of_pos hpos, List.takeWhile_cons_of_neg (by simp), List.append_nil]

theorem dropWhile_append_cons [BEq α] [LawfulBEq α] (hv : d ∉ v) : (v ++ d :: p).dropWhile (· != d) = d :: p := by
  have hcut := List.takeWhile_append_dropWhile (p := (· != d)) (l := v ++ d :: p)
  rw [takeWhile_append_cons hv] at hcut
  exact List.append_cancel_left hcut

/-- **The first of several fields can be read back**, and so can whether there are more. -/
theorem intercalate_inj (hv : d ∉ v) (hv' : d ∉ v')
    (h : [d].intercalate (v :: ws) = [d].intercalate (v' :: ws')) :
    v = v' ∧ (ws = [] ↔ ws' = []) ∧ [d].intercalate ws = [d].intercalate ws' := by
  -- what stands behind the first field
  have hrest : ∀ (v : List α) (ws : List (List α)), ∃ p, [d].intercalate (v :: ws) = v ++ p ∧
      (∀ c ∈ p.head?, c = d) ∧ (ws = [] → p = []) ∧ (ws ≠ [] → p = d :: [d].intercalate ws) := by
    intro v ws
    by_cases hws : ws = []
    · refine ⟨[], ?_, fun c hc => (by cases hc), fun _ => rfl, fun hne => absurd hws hne⟩
      rw [hws, List.intercalate_singleton, List.append_nil]
    · refine ⟨d :: [d].intercalate ws, ?_, fun c hc => (Option.some.inj hc).symm, fun hnil => absurd hnil hws,
        fun _ => rfl⟩
      rw [List.intercalate_cons_of_ne_nil hws, List.append_assoc, List.singleton_append]
  obtain ⟨p, hp, hhead, hlast, hmore⟩ := hrest v ws
  obtain ⟨p', hp', hhead', hlast', hmore'⟩ := hrest v' ws'
  rw [hp, hp'] at h
  obtain ⟨hvv, rfl⟩ := append_inj_of_head hv hv' hhead hhead' h
  refine ⟨hvv, ?_⟩
  by_cases hws : ws = []
  · have hws' : ws' = [] := by
      by_contra hne
      have := (hlast hws).symm.trans (hmore' hne)
      cases this
    rw [hws, hws']
    exact ⟨Iff.rfl, rfl⟩
  · have hws' : ws' ≠ [] := by
      intro hnil
      have := (hlast' hnil).symm.trans (hmore hws)
      cases this
    exact ⟨iff_of_false hws hws', (List.cons.inj ((hmore hws).symm.trans (hmore' hws'))).2⟩

theorem mem_intercalate {c : α} {w : List α} (hw : w ∈ ws) (hc : c ∈ w) : c ∈ [d].intercalate ws := by
  induction ws with
  | nil => cases hw
  | cons v ws ih =>
    cases ws with
    | nil =>
      obtain rfl : w = v := by simpa using hw
      simpa [List.intercalate] using hc
    | cons u ws =>
      rw [List.intercalate_cons_cons]
      rcases List.mem_cons.1 hw with rfl | hw
      · simp [hc]
      · simp [ih hw]

theorem notMem_intercalate {c : α} (hc : c ≠ d) (hws : ∀ w ∈ ws, c ∉ w) : c ∉ [d].intercalate ws := by
  induction ws with
  | nil => exact List.not_mem_nil
  | cons w ws ih =>
    obtain ⟨hw, htail⟩ := List.forall_mem_cons.1 hws
    by_cases hnil : ws = []
    · rw [hnil, List.intercalate_singleton]
      exact hw
    · rw [List.intercalate_cons_of_ne_nil hnil]
      simp only [List.mem_append, List.mem_singleton, not_or]
      exact ⟨⟨hw, hc⟩, ih htail⟩

/-- The records `ws`, each with the delimiter behind it. -/
def terminated (d : α) (ws : List (List α)) : List α := ws.flatMap (· ++ [d])

@[simp] theorem terminated_nil : terminated d [] = [] := rfl

@[simp] theorem terminated_cons : terminated d (v :: ws) = v ++ d :: terminated d ws := by
  simp [terminated]

theorem terminated_append : terminated d (ws ++ ws') = terminated d ws ++ terminated d ws' := by
  simp [terminated]

/-! ### Lines of a text -/

section SplitOn

variable [BEq α] [LawfulBEq α] {l : List α}

theorem splitOn_append_cons (hv : d ∉ v) (p : List α) : (v ++ d :: p).splitOn d = v :: p.splitOn d :=
  List.splitOnP_append_cons_of_forall_mem (fun x hx => by simpa using ne_of_mem_of_not_mem hx hv) d (by simp) p

theorem notMem_of_mem_splitOn (h : v ∈ l.splitOn d) : d ∉ v := by
  obtain ⟨n, hn⟩ : ∃ n, l.length ≤ n := ⟨_, Nat.le_refl _⟩
  induction n generalizing l with
  | zero =>
    rw [List.length_eq_zero_iff.1 (Nat.le_zero.1 hn), List.splitOn_eq_singleton List.not_mem_nil] at h
    rw [List.mem_singleton.1 h]
    exact List.not_mem_nil
  | succ n ih =>
    by_cases hd : d ∈ l
    · obtain ⟨w, p, rfl, hw⟩ := List.eq_append_cons_of_mem hd
      rw [splitOn_append_cons hw] at h
      rcases List.mem_cons.1 h with rfl | h
      · exact hw
      · refine ih h ?_
        rw [List.length_append, List.length_cons] at hn
        omega
    · rw [List.splitOn_eq_singleton hd] at h
      rw [List.mem_singleton.1 h]
      exact hd

/-- **Lines are read back**, and after them there is nothing. -/
theorem splitOn_eq_concat_nil_iff :
    l.splitOn d = ws ++ [[]] ↔ (∀ w ∈ ws, d ∉ w) ∧ l = terminated d ws := by
  constructor
  · intro h
    have hws : ∀ w ∈ ws, d ∉ w := fun w hw => notMem_of_mem_splitOn (h ▸ List.mem_append_left _ hw)
    refine ⟨hws, ?_⟩
    have hjoin : [d].intercalate (l.splitOn d) = l := List.intercalate_splitOn d
    rw [h] at hjoin
    rw [← hjoin]
    clear h hjoin hws
    induction ws with
    | nil => rfl
    | cons v ws ih =>
      rw [List.cons_append, List.intercalate_cons_of_ne_nil (by simp), ih, terminated_cons, List.append_assoc]
      rfl
  · rintro ⟨hws, rfl⟩
    induction ws with
    | nil => rfl
    | cons v ws ih =>
      obtain ⟨hv, htail⟩ := List.forall_mem_cons.1 hws
      rw [terminated_cons, splitOn_append_cons hv, ih htail]
      rfl

end SplitOn

/-- **A text of records starts with another one** when the records of the other one come first. -/
theorem terminated_isPrefix_iff (hws : ∀ w ∈ ws, d ∉ w) (hws' : ∀ w ∈ ws', d ∉ w) :
    terminated d ws <+: terminated d ws' ↔ ws <+: ws' := by
  induction ws generalizing ws' with
  | nil => simp
  | cons v ws ih =>
    cases ws' with
    | nil => simp
    | cons v' ws' =>
      obtain ⟨hv, hrest⟩ := List.forall_mem_cons.1 hws
      obtain ⟨hv', hrest'⟩ := List.forall_mem_cons.1 hws'
      rw [terminated_cons, terminated_cons, List.cons_prefix_cons, ← ih hrest hrest']
      constructor
      · rintro ⟨t, ht⟩
        rw [List.append_assoc, List.cons_append] at ht
        obtain ⟨hhead, htail⟩ := append_cons_inj hv hv' ht
        exact ⟨hhead, t, htail⟩
      · rintro ⟨rfl, t, ht⟩
        refine ⟨t, ?_⟩
        rw [List.append_assoc, List.cons_append, ht]

/-- **Records without a delimiter can be read back**: if `f` writes the values with the property `P`
in different ways and without a delimiter, then lists of such values are written differently. -/
theorem terminated_map_inj {β : Type*} {f : β → List α} {P : β → Prop} {l l' : List β} (hf : ∀ b, P b → d ∉ f b)
    (hinj : ∀ b b', P b → P b' → f b = f b' → b = b') (hl : ∀ b ∈ l, P b) (hl' : ∀ b ∈ l', P b)
    (h : terminated d (l.map f) = terminated d (l'.map f)) : l = l' := by
  induction l generalizing l' with
  | nil =>
    cases l' with
    | nil => rfl
    | cons b' l' =>
      rw [List.map_cons, terminated_cons] at h
      exact absurd h.symm (by simp)
  | cons b l ih =>
    cases l' with
    | nil =>
      rw [List.map_cons, terminated_cons] at h
      exact absurd h (by simp)
    | cons b' l' =>
      obtain ⟨hb, htail⟩ := List.forall_mem_cons.1 hl
      obtain ⟨hb', htail'⟩ := List.forall_mem_cons.1 hl'
      rw [List.map_cons, List.map_cons, terminated_cons, terminated_cons] at h
      obtain ⟨hfield, hrest⟩ := append_cons_inj (hf b hb) (hf b' hb') h
      rw [hinj b b' hb hb' hfield, ih htail htail' hrest]

end Delimited
