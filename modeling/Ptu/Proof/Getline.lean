import Ptu.Proof.Options

/-!
# The buffer of `getline`

`CDE_init_options` strips a line by moving `line`, the pointer that `getline` owns.

* `initOptionsFrom_readRound`: the options that are read are those of the loop over the variables of `getline`.
* `getline_owned_iff`: **every call gets its own buffer exactly if no line that the loop gets past is indented**.
-/

namespace Ptu

variable {env : OptionsEnv} {v w : LineVars} {st st' : Parsed} {line : CString} {lines : List CString}

/-! ## One call -/

/-- From its own buffer, `getline` always comes to a whole one. -/
theorem LineVars.Owned.getline (h : v.Owned) (grow : ℕ → ℕ → ℕ) (needed : ℕ) :
    ∃ size, v.getline grow needed = .ok ⟨some 0, size, size⟩ := by
  obtain ⟨line, len, capacity⟩ := v
  obtain ⟨hline, hlen⟩ := h
  obtain rfl : len = capacity := hlen
  rcases hline with rfl | rfl
  · exact ⟨_, rfl⟩
  · by_cases hfits : needed ≤ len
    · exact ⟨len, by simp only [LineVars.getline, if_pos hfits]⟩
    · exact ⟨_, by simp only [LineVars.getline, if_neg hfits]; rfl⟩

theorem owned_advance_iff (size n : ℕ) : (LineVars.advance ⟨some 0, size, size⟩ n).Owned ↔ n = 0 := by
  simp [LineVars.Owned, LineVars.advance]

/-- **One round** from a buffer of its own ends as the line is parsed, and with such a buffer exactly if the line is
not indented. -/
theorem readRound_owned (env : OptionsEnv) (h : v.Owned) (st : Parsed) (line : CString) :
    ∃ w : LineVars, (w.Owned ↔ line.takeWhile isspace = []) ∧
      readRound env (v, st) line = (parseRead env st line).map fun st' => (w, st') := by
  obtain ⟨size, hgetline⟩ := h.getline env.grow (line.length + 2)
  refine ⟨LineVars.advance ⟨some 0, size, size⟩ (line.takeWhile isspace).length, ?_, ?_⟩
  · rw [owned_advance_iff, List.length_eq_zero_iff]
  · rw [readRound, hgetline]
    cases hparse : parseRead env st line with
    | error x => rfl
    | ok st' => rfl

/-! ## All calls -/

theorem mem_getlineCalls (env : OptionsEnv) (v : LineVars) (st : Parsed) (lines : List CString) :
    v ∈ getlineCalls env (v, st) lines := by
  cases lines <;> simp [getlineCalls]

/-- The loop gets past these lines. -/
def Passed (env : OptionsEnv) (st : Parsed) (lines : List CString) : Prop :=
  ∃ st', lines.foldlM (parseRead env) st = .ok st'

/-- No line that the loop gets past is indented. -/
def Unindented (env : OptionsEnv) (st : Parsed) (lines : List CString) : Prop :=
  ∀ before line, before ++ [line] <+: lines → Passed env st (before ++ [line]) → line.takeWhile isspace = []

theorem passed_cons (h : parseRead env st line = .ok st') (rest : List CString) :
    Passed env st (line :: rest) ↔ Passed env st' rest := by
  rw [Passed, List.foldlM_cons, h]
  rfl

/-- The program ends at the first line. -/
theorem unindented_cons_error {x : Fatal} (h : parseRead env st line = .error x) (lines : List CString) :
    Unindented env st (line :: lines) := by
  intro before last hpre hpassed
  -- whatever the loop gets past begins with this line
  obtain ⟨rest, hrest⟩ : ∃ rest, before ++ [last] = line :: rest := by
    cases before with
    | nil => exact ⟨[], by rw [(List.cons_prefix_cons.1 hpre).1]; rfl⟩
    | cons first before => exact ⟨before ++ [last], by rw [(List.cons_prefix_cons.1 hpre).1]; rfl⟩
  obtain ⟨st', hfold⟩ := hpassed
  rw [hrest, List.foldlM_cons, h] at hfold
  cases hfold

/-- The first line, and those behind it. -/
theorem unindented_cons (h : parseRead env st line = .ok st') :
    Unindented env st (line :: lines) ↔ line.takeWhile isspace = [] ∧ Unindented env st' lines := by
  constructor
  · intro hall
    refine ⟨hall [] line (by simp) ((passed_cons h []).2 ⟨st', rfl⟩), fun before last hpre hpassed => ?_⟩
    exact hall (line :: before) last (List.cons_prefix_cons.2 ⟨rfl, hpre⟩) ((passed_cons h _).2 hpassed)
  · rintro ⟨hline, hlines⟩ before last hpre hpassed
    cases before with
    | nil =>
      obtain rfl : last = line := (List.cons_prefix_cons.1 hpre).1
      exact hline
    | cons first before =>
      obtain ⟨rfl, hrest⟩ := List.cons_prefix_cons.1 hpre
      exact hlines before last hrest ((passed_cons h _).1 hpassed)

theorem getlineCalls_owned_iff (h : v.Owned) (st : Parsed) :
    (∀ w ∈ getlineCalls env (v, st) lines, w.Owned) ↔ Unindented env st lines := by
  induction lines generalizing v st with
  | nil =>
    refine iff_of_true (fun w hw => ?_) fun before last hpre _ => ?_
    · rw [List.mem_singleton.1 hw]
      exact h
    · simp at hpre
  | cons line lines ih =>
    obtain ⟨w, hw, hround⟩ := readRound_owned env h st line
    cases hparse : parseRead env st line with
    | error x =>
      -- there was one call
      refine iff_of_true (fun u hu => ?_) (unindented_cons_error hparse lines)
      simp only [getlineCalls, hround, hparse, Except.map, List.mem_singleton] at hu
      rw [hu]
      exact h
    | ok st' =>
      have hcalls : getlineCalls env (v, st) (line :: lines) = v :: getlineCalls env (w, st') lines := by
        simp only [getlineCalls, hround, hparse, Except.map]
      rw [hcalls, List.forall_mem_cons, unindented_cons hparse]
      by_cases hindent : line.takeWhile isspace = []
      · rw [ih (hw.2 hindent) st']
        exact and_congr_left fun _ => iff_of_true h hindent
      · refine iff_of_false ?_ fun hall => hindent hall.1
        rintro ⟨-, hall⟩
        exact hindent (hw.1 (hall w (mem_getlineCalls env w st' lines)))

/-- **`getline` gets its own buffer at every call** exactly if no line that the loop gets past is indented. -/
theorem getline_owned_iff (env : OptionsEnv) (start : Parsed) (text : CString) :
    (∀ v ∈ getlineCalls env ({}, start) (text.splitOn newline).dropLast, v.Owned) ↔
      Unindented env start (text.splitOn newline).dropLast :=
  getlineCalls_owned_iff ⟨.inl rfl, rfl⟩ start

/-- The syntax of the comment on `process_ignore_prefix`. -/
def documentedOptions : CString :=
  str "# cde.options v1\nignore_process=/usr/bin/ssh\n\x7b\n  process_ignore_prefix=/home/bob\n\x7d\n"

/-- The call for the closing brace is given a pointer into the block. -/
theorem getline_documented :
    ∃ v ∈ getlineCalls bobOptions ({}, {}) (documentedOptions.splitOn newline).dropLast, ¬ v.Owned :=
  ⟨⟨some 2, 120, 120⟩, by decide +kernel, by decide⟩

/-! ## The buffer as a size and an offset -/

/-- What `LineBuffer` keeps of the variables. -/
def LineVars.buffer (v : LineVars) : LineBuffer := ⟨v.len, v.line.getD 0⟩

/-- Between the calls, `len` is the capacity of the block, and there is no capacity without a block. -/
def LineVars.Tracked (v : LineVars) : Prop := v.len = v.capacity ∧ (v.line = none → v.len = 0)

theorem getline_tracked {grow : ℕ → ℕ → ℕ} {needed : ℕ} (h : v.Tracked) (hget : v.getline grow needed = .ok w)
    (n : ℕ) : (w.advance n).Tracked := by
  obtain ⟨line, len, capacity⟩ := v
  rcases line with _ | _ | offset
  · obtain rfl := Except.ok.inj hget
    exact ⟨rfl, by simp [LineVars.advance]⟩
  · obtain rfl := Except.ok.inj hget
    dsimp only
    split_ifs
    · exact ⟨h.1, by simp [LineVars.advance]⟩
    · exact ⟨rfl, by simp [LineVars.advance]⟩
  · simp only [LineVars.getline] at hget
    split_ifs at hget
    · obtain rfl := Except.ok.inj hget
      exact ⟨h.1, by simp [LineVars.advance]⟩

theorem getline_read (h : v.Tracked) (grow : ℕ → ℕ → ℕ) (line : CString) :
    (v.getline grow (line.length + 2)).map (fun w => (w.advance (line.takeWhile isspace).length).buffer) =
      v.buffer.read grow line := by
  obtain ⟨pointer, len, capacity⟩ := v
  obtain ⟨hlen, hnull⟩ := h
  obtain rfl : len = capacity := hlen
  rcases pointer with _ | _ | offset
  · obtain rfl : len = 0 := hnull rfl
    simp [LineVars.getline, LineVars.buffer, LineVars.advance, LineBuffer.read, Except.map]
  · by_cases hfits : line.length + 2 ≤ len <;>
      simp [LineVars.getline, LineVars.buffer, LineVars.advance, LineBuffer.read, Except.map, hfits]
  · -- a pointer into the block: there is room for the line behind it, or there is not
    by_cases hfits : offset + 1 + (line.length + 2) ≤ len
    · have hlen : line.length + 2 ≤ len := by omega
      simp [LineVars.getline, LineVars.buffer, LineVars.advance, LineBuffer.read, Except.map, hfits, hlen]
    · simp [LineVars.getline, LineVars.buffer, LineBuffer.read, Except.map, hfits]

/-- **The variables of the loop behave as `LineBuffer` says**, one line at a time. -/
theorem readRound_readLine (env : OptionsEnv) (h : v.Tracked) (st : Parsed) (hline : 0 ∉ line) :
    (readRound env (v, st) line).map (fun r => (r.1.buffer, r.2)) = readLine env (v.buffer, st) line := by
  have htext : line.takeWhile (· != 0) = line := by
    rw [List.takeWhile_eq_self_iff]
    intro c hc
    simpa using ne_of_mem_of_not_mem hc hline
  rw [readLine, ← getline_read h, readRound, parseRead, htext]
  cases v.getline env.grow (line.length + 2) with
  | error x => rfl
  | ok w => cases parseLine env.appDir st line <;> rfl

theorem foldlM_readRound (env : OptionsEnv) (h : v.Tracked) (st : Parsed) (hlines : ∀ line ∈ lines, 0 ∉ line) :
    (lines.foldlM (readRound env) (v, st)).map (fun r => (r.1.buffer, r.2)) =
      lines.foldlM (readLine env) (v.buffer, st) := by
  induction lines generalizing v st with
  | nil => rfl
  | cons line lines ih =>
    have hround := readRound_readLine env h st (hlines line List.mem_cons_self)
    rw [List.foldlM_cons, List.foldlM_cons, ← hround]
    cases hr : readRound env (v, st) line with
    | error x => rfl
    | ok r =>
      obtain ⟨w, hget, st', -, hpair⟩ := by
        simpa only [readRound, bind_eq_ok] using hr
      obtain rfl := Except.ok.inj hpair
      exact ih (getline_tracked h hget _) st' fun line hline => hlines line (List.mem_cons_of_mem _ hline)

/-- So `CDE_init_options` returns what the loop over these variables has read. -/
theorem initOptionsFrom_readRound (env : OptionsEnv) (start p : Parsed) {text : CString}
    (hlines : ∀ line ∈ (text.splitOn newline).dropLast, 0 ∉ line) :
    initOptionsFrom env start (some text) = .ok p ↔
      (∃ v, (text.splitOn newline).dropLast.foldlM (readRound env) ({}, start) = .ok (v, p)) ∧
        (text.splitOn newline).getLast? = some [] := by
  have hfold := foldlM_readRound env (v := {}) ⟨rfl, fun _ => rfl⟩ start hlines
  have hbuffer : LineVars.buffer {} = {} := rfl
  rw [hbuffer] at hfold
  simp only [initOptionsFrom, ← hfold]
  cases (text.splitOn newline).dropLast.foldlM (readRound env) ({}, start) with
  | error x =>
    refine iff_of_false (fun h => ?_) ?_
    · cases h
    · rintro ⟨⟨v, h⟩, -⟩
      cases h
  | ok r =>
    by_cases hlast : (text.splitOn newline).getLast? = some []
    · simp only [hlast, and_true]
      constructor
      · intro h
        exact ⟨r.1, by rw [← Except.ok.inj h]⟩
      · rintro ⟨v, h⟩
        rw [Except.ok.inj h]
        rfl
    · refine iff_of_false (fun h => ?_) fun h => hlast h.2
      simp only [Except.map, ne_eq, hlast, not_false_eq_true, if_true] at h
      cases h

end Ptu
