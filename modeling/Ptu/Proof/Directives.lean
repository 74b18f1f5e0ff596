import Mathlib.Data.List.ModifyLast
import Ptu.Proof.OptionLines

/-!
# Directives of the options file

A list of directives is printed one line each (`Directive.lines`) and read by
`CDE_init_options`. `Directive.effect` is what a directive does to the arrays when no limit
stops it; a run that succeeds does exactly this and stays within the limits
(`run_directives`). The arrays hold the printed values exactly if every value is read back
and every limit kept, `run_holds_iff`.
-/

namespace Ptu

variable {appDir : CString} {st st' : Parsed}

/-! ## Directives -/

inductive Directive where
  | set (key : ArrayKey) (value : CString)
  | process (pi : ProcessIgnore)
  deriving DecidableEq, Repr

/-- The printed directive: `key=value`, or a block in braces. -/
def Directive.lines : Directive → List CString
  | .set k v => [(OptionKey.array k).line v]
  | .process pi => OptionKey.ignoreProcess.line pi.processName :: [openBrace] ::
      (pi.processIgnorePrefixPaths.map OptionKey.processIgnorePrefix.line ++ [[closeBrace]])

/-- The values for the array of `k`. -/
def arrayValues (ds : List Directive) (k : ArrayKey) : List CString :=
  ds.flatMap fun
    | .set k' v => if k = k' then [v] else []
    | .process _ => []

/-- The blocks. -/
def processBlocks (ds : List Directive) : List ProcessIgnore :=
  ds.flatMap fun
    | .set _ _ => []
    | .process pi => [pi]

theorem arrayValues_cons (d : Directive) (ds : List Directive) (k : ArrayKey) :
    arrayValues (d :: ds) k = arrayValues [d] k ++ arrayValues ds k := by
  simp [arrayValues]

theorem processBlocks_cons (d : Directive) (ds : List Directive) :
    processBlocks (d :: ds) = processBlocks [d] ++ processBlocks ds := by
  simp [processBlocks]

/-- The arrays hold exactly the printed values. -/
structure Parsed.Holds (st : Parsed) (ds : List Directive) : Prop where
  arrays : ∀ k, st.array k = arrayValues ds k
  processes : st.opts.processIgnores = processBlocks ds

/-- No limit of the arrays has been reached. -/
structure Parsed.Within (st : Parsed) : Prop where
  arrays : ∀ k, (st.array k).length < 100
  processes : st.opts.processIgnores.length < 50
  prefixes : ∀ pi ∈ st.opts.processIgnores, pi.processIgnorePrefixPaths.length < 20

/-! ## What a directive does -/

/-- The processes after an `ignore_process` line. -/
def started (ps : List ProcessIgnore) (name : CString) : List ProcessIgnore :=
  ps ++ (stored name).toList.map (⟨·, []⟩)

/-- The last process gets more prefixes. -/
def attach (ps : List ProcessIgnore) (paths : List CString) : List ProcessIgnore :=
  ps.modifyLast fun cur => ⟨cur.processName, cur.processIgnorePrefixPaths ++ paths⟩

def blockEffect (ps : List ProcessIgnore) (pi : ProcessIgnore) : List ProcessIgnore :=
  attach (started ps pi.processName) (pi.processIgnorePrefixPaths.filterMap stored)

def Directive.effect (appDir : CString) (st : Parsed) : Directive → Parsed
  | .set k v => st.setArray k (st.array k ++ ((stored v).map (entry appDir k)).toList)
  | .process pi => st.setProcesses (blockEffect st.opts.processIgnores pi)

/-- A block can only be opened after some process was named. -/
def Directive.Opens (st : Parsed) : Directive → Prop
  | .set _ _ => True
  | .process pi => started st.opts.processIgnores pi.processName ≠ []

theorem attach_concat (before : List ProcessIgnore) (cur : ProcessIgnore) (paths : List CString) :
    attach (before ++ [cur]) paths =
      before ++ [⟨cur.processName, cur.processIgnorePrefixPaths ++ paths⟩] :=
  List.modifyLast_concat _ cur before

theorem length_attach (ps : List ProcessIgnore) (paths : List CString) :
    (attach ps paths).length = ps.length := by
  rcases List.eq_nil_or_concat ps with rfl | ⟨before, cur, rfl⟩
  · rfl
  · rw [List.concat_eq_append, attach_concat]
    simp

/-- The lines in the braces. -/
theorem run_prefixes : ∀ (paths : List CString) {st : Parsed} {before : List ProcessIgnore}
    {cur : ProcessIgnore}, st.isFirstLine = false → st.inBraces = true →
    st.opts.processIgnores = before ++ [cur] → cur.processIgnorePrefixPaths.length < 20 →
    ((paths.map OptionKey.processIgnorePrefix.line).foldlM (parseLine appDir) st = .ok st' ↔
      (cur.processIgnorePrefixPaths ++ paths.filterMap stored).length < 20 ∧
        st' = st.setProcesses (attach (before ++ [cur]) (paths.filterMap stored)))
  | [], st, before, cur, _, _, hps, hlen => by
    have hsame : st.setProcesses (attach (before ++ [cur]) []) = st := by
      rw [attach_concat, List.append_nil, ← hps]
      rfl
    simp only [List.map_nil, List.foldlM_nil, List.filterMap_nil, List.append_nil, hlen, true_and, hsame]
    exact ⟨fun h => (Except.ok.inj h).symm, fun h => congrArg Except.ok h.symm⟩
  | path :: paths, st, before, cur, hfirst, hin, hps, hlen => by
    have hline : parseLine appDir st (OptionKey.processIgnorePrefix.line path) =
        (stored path).elim (.ok st) (addOption appDir st .processIgnorePrefix) :=
      parseLine_key _ path hfirst (by simp [hin])
    rw [List.map_cons, List.foldlM_cons, hline, bind_eq_ok]
    cases hstored : stored path with
    | none =>
      have hskip : (path :: paths).filterMap stored = paths.filterMap stored :=
        List.filterMap_cons_none hstored
      rw [hskip, ← run_prefixes paths hfirst hin hps hlen]
      simp
    | some p =>
      have hkeep : (path :: paths).filterMap stored = p :: paths.filterMap stored :=
        List.filterMap_cons_some hstored
      rw [hkeep, Option.elim_some]
      constructor
      · rintro ⟨st₁, hadd, hrest⟩
        obtain ⟨hroom, hst₁⟩ := (addProcessIgnorePrefix_eq_ok hps).1 hadd
        have hrun := (run_prefixes paths (by rw [hst₁]; exact hfirst) (by rw [hst₁]; exact hin)
          (by rw [hst₁]; rfl) (by simpa using hroom)).1 hrest
        rw [attach_concat, hst₁] at hrun
        rw [attach_concat]
        simpa [Parsed.setProcesses] using hrun
      · rintro ⟨hroom, hst'⟩
        have hroom₁ : cur.processIgnorePrefixPaths.length + 1 < 20 := by
          simp only [List.length_append, List.length_cons] at hroom
          omega
        obtain ⟨st₁, hst₁⟩ : ∃ st₁, st₁ = st.setProcesses
            (before ++ [⟨cur.processName, cur.processIgnorePrefixPaths ++ [p]⟩]) := ⟨_, rfl⟩
        refine ⟨st₁, (addProcessIgnorePrefix_eq_ok hps).2 ⟨hroom₁, hst₁⟩, ?_⟩
        refine (run_prefixes paths (by rw [hst₁]; exact hfirst) (by rw [hst₁]; exact hin)
          (by rw [hst₁]; rfl) (by simpa using hroom₁)).2 ⟨by simpa using hroom, ?_⟩
        rw [hst', attach_concat, attach_concat, hst₁]
        simp [Parsed.setProcesses]

theorem parseLine_openBrace (hfirst : st.isFirstLine = false) :
    parseLine appDir st [openBrace] = .ok st' ↔
      st.opts.processIgnores ≠ [] ∧ st' = { st with inBraces := true } := by
  have hstrip : strip [openBrace] = [openBrace] := by decide
  rw [parseLine, if_neg (by simp [hfirst]), hstrip, parseStripped, if_neg (by decide), if_pos rfl]
  split_ifs with hps
  · simp [hps]
  · simp [hps, eq_comm]

theorem parseLine_closeBrace (hfirst : st.isFirstLine = false) :
    parseLine appDir st [closeBrace] = .ok { st with inBraces := false } := by
  have hstrip : strip [closeBrace] = [closeBrace] := by decide
  rw [parseLine, if_neg (by simp [hfirst]), hstrip, parseStripped, if_neg (by decide),
    if_neg (by decide), if_pos rfl]

/-- The line that names a process. -/
theorem run_name (name : CString) (hfirst : st.isFirstLine = false) (hout : st.inBraces = false)
    (hlen : st.opts.processIgnores.length < 50) :
    parseLine appDir st (OptionKey.ignoreProcess.line name) = .ok st' ↔
      (started st.opts.processIgnores name).length < 50 ∧
        st' = st.setProcesses (started st.opts.processIgnores name) := by
  rw [parseLine_key _ name hfirst (by simp [hout]), started]
  cases hstored : stored name with
  | none =>
    have hsame : st.setProcesses st.opts.processIgnores = st := rfl
    simp only [Option.elim_none, Option.toList_none, List.map_nil, List.append_nil, hlen, true_and,
      hsame, Except.ok.injEq, eq_comm]
  | some p => simpa using addIgnoreProcess_eq_ok

theorem run_set (k : ArrayKey) (v : CString) (hfirst : st.isFirstLine = false)
    (hout : st.inBraces = false) (hwithin : st.Within) :
    parseLine appDir st ((OptionKey.array k).line v) = .ok st' ↔
      ((Directive.set k v).effect appDir st).Within ∧ st' = (Directive.set k v).effect appDir st := by
  rw [parseLine_key _ v hfirst (by simp [hout]), Directive.effect]
  cases hstored : stored v with
  | none =>
    simp only [Option.elim_none, Option.map_none, Option.toList_none, List.append_nil,
      st.setArray_array, hwithin, true_and, Except.ok.injEq, eq_comm]
  | some p =>
    simp only [Option.elim_some, Option.map_some, Option.toList_some]
    rw [addOption_array_eq_ok]
    refine and_congr_left fun _ => ?_
    obtain ⟨-, -, hps⟩ := st.setArray_rest k (st.array k ++ [entry appDir k p])
    constructor
    · intro hlen
      refine ⟨?_, by rw [hps]; exact hwithin.processes, by rw [hps]; exact hwithin.prefixes⟩
      intro k'
      rw [st.array_setArray]
      split_ifs with hk
      · simpa using hlen
      · exact hwithin.arrays k'
    · intro hnext
      have hlen := hnext.arrays k
      rw [st.array_setArray, if_pos rfl] at hlen
      simpa using hlen

theorem started_prefixes {ps : List ProcessIgnore} (name : CString)
    (h : ∀ pi ∈ ps, pi.processIgnorePrefixPaths.length < 20) :
    ∀ pi ∈ started ps name, pi.processIgnorePrefixPaths.length < 20 := by
  intro pi hpi
  rcases List.mem_append.1 hpi with hpi | hpi
  · exact h pi hpi
  · obtain ⟨p, -, rfl⟩ := List.mem_map.1 hpi
    exact Nat.zero_lt_succ 19

/-- **A block** names a process and gives it prefixes. -/
theorem run_process (pi : ProcessIgnore) (hfirst : st.isFirstLine = false) (hout : st.inBraces = false)
    (hwithin : st.Within) :
    (Directive.process pi).lines.foldlM (parseLine appDir) st = .ok st' ↔
      (Directive.process pi).Opens st ∧ ((Directive.process pi).effect appDir st).Within ∧
        st' = (Directive.process pi).effect appDir st := by
  set ps := started st.opts.processIgnores pi.processName with hps
  set paths := pi.processIgnorePrefixPaths.filterMap stored with hpaths
  set st₂ : Parsed := { st.setProcesses ps with inBraces := true }
  have hfirst₁ : (st.setProcesses ps).isFirstLine = false := hfirst
  have hfirst₃ : (st₂.setProcesses (attach ps paths)).isFirstLine = false := hfirst
  have hlines : (Directive.process pi).lines.foldlM (parseLine appDir) st = .ok st' ↔
      ps.length < 50 ∧ ps ≠ [] ∧ ∃ st₃,
        (pi.processIgnorePrefixPaths.map OptionKey.processIgnorePrefix.line).foldlM
          (parseLine appDir) st₂ = .ok st₃ ∧ parseLine appDir st₃ [closeBrace] = .ok st' := by
    simp only [Directive.lines, List.foldlM_cons, List.foldlM_append, List.foldlM_nil, bind_pure,
      bind_eq_ok, run_name _ hfirst hout hwithin.processes]
    constructor
    · rintro ⟨st₁, ⟨hlen, rfl⟩, st₂', hopen, hrest⟩
      obtain ⟨hne, rfl⟩ := (parseLine_openBrace hfirst₁).1 hopen
      exact ⟨hlen, hne, hrest⟩
    · rintro ⟨hlen, hne, hrest⟩
      exact ⟨_, ⟨hlen, rfl⟩, st₂, (parseLine_openBrace hfirst₁).2 ⟨hne, rfl⟩, hrest⟩
  rw [hlines, Directive.Opens, Directive.effect, blockEffect, ← hps, ← hpaths]
  by_cases hne : ps = []
  · simp [hne]
  obtain ⟨before, cur, hcat⟩ := (List.eq_nil_or_concat ps).resolve_left hne
  rw [List.concat_eq_append] at hcat
  have hcur : ∀ pi ∈ before ++ [cur], pi.processIgnorePrefixPaths.length < 20 := by
    rw [← hcat]
    exact started_prefixes _ hwithin.prefixes
  have hclosed : { st₂.setProcesses (attach ps paths) with inBraces := false } =
      st.setProcesses (attach ps paths) := by
    rw [← hout]
    rfl
  have hnext : (st.setProcesses (attach ps paths)).Within ↔
      ps.length < 50 ∧ (cur.processIgnorePrefixPaths ++ paths).length < 20 := by
    constructor
    · intro h
      refine ⟨length_attach ps paths ▸ h.processes, h.prefixes ⟨cur.processName, _⟩ ?_⟩
      change _ ∈ attach ps paths
      rw [hcat, attach_concat]
      exact List.mem_append_right _ (List.mem_singleton.2 rfl)
    · rintro ⟨hlen, hroom⟩
      refine ⟨?_, ?_, ?_⟩
      · intro k
        rw [st.array_setProcesses]
        exact hwithin.arrays k
      · exact (length_attach ps paths).symm ▸ hlen
      · change ∀ pi ∈ attach ps paths, _
        rw [hcat, attach_concat]
        intro pi hpi
        rcases List.mem_append.1 hpi with hpi | hpi
        · exact hcur pi (List.mem_append_left _ hpi)
        · rw [List.mem_singleton.1 hpi]
          exact hroom
  have hprefixes : ∀ st₃, (pi.processIgnorePrefixPaths.map OptionKey.processIgnorePrefix.line).foldlM
      (parseLine appDir) st₂ = .ok st₃ ↔ (cur.processIgnorePrefixPaths ++ paths).length < 20 ∧
        st₃ = st₂.setProcesses (attach ps paths) := by
    intro st₃
    rw [hcat]
    exact run_prefixes _ hfirst rfl hcat (hcur cur (by simp))
  rw [hnext]
  constructor
  · rintro ⟨hlen, -, st₃, hrun, hclose⟩
    obtain ⟨hroom, rfl⟩ := (hprefixes st₃).1 hrun
    rw [parseLine_closeBrace hfirst₃, hclosed] at hclose
    exact ⟨hne, ⟨hlen, hroom⟩, (Except.ok.inj hclose).symm⟩
  · rintro ⟨-, ⟨hlen, hroom⟩, rfl⟩
    refine ⟨hlen, hne, _, (hprefixes _).2 ⟨hroom, rfl⟩, ?_⟩
    rw [parseLine_closeBrace hfirst₃, hclosed]

/-- **A directive** does its effect, if that stays within the limits. -/
theorem run_directive (d : Directive) (hfirst : st.isFirstLine = false) (hout : st.inBraces = false)
    (hwithin : st.Within) :
    d.lines.foldlM (parseLine appDir) st = .ok st' ↔
      d.Opens st ∧ (d.effect appDir st).Within ∧ st' = d.effect appDir st := by
  cases d with
  | set k v =>
    rw [Directive.lines, List.foldlM_cons, Directive.Opens, true_and, ← run_set k v hfirst hout hwithin]
    simp only [List.foldlM_nil, bind_pure]
  | process pi => exact run_process pi hfirst hout hwithin

theorem Directive.effect_flags (d : Directive) (appDir : CString) (st : Parsed) :
    (d.effect appDir st).isFirstLine = st.isFirstLine ∧ (d.effect appDir st).inBraces = st.inBraces := by
  cases d with
  | set k v => exact ⟨(st.setArray_rest k _).1, (st.setArray_rest k _).2.1⟩
  | process pi => exact ⟨rfl, rfl⟩

/-- A process keeps its prefixes when more are attached. -/
theorem exists_mem_attach {ps : List ProcessIgnore} {pi : ProcessIgnore} (h : pi ∈ ps)
    (paths : List CString) : ∃ pi' ∈ attach ps paths,
      pi.processIgnorePrefixPaths.length ≤ pi'.processIgnorePrefixPaths.length := by
  rcases List.eq_nil_or_concat ps with rfl | ⟨before, cur, rfl⟩
  · exact absurd h List.not_mem_nil
  · rw [List.concat_eq_append] at h ⊢
    rw [attach_concat]
    rcases List.mem_append.1 h with h | h
    · exact ⟨pi, List.mem_append_left _ h, le_rfl⟩
    · refine ⟨_, List.mem_append_right _ (List.mem_singleton.2 rfl), ?_⟩
      rw [List.mem_singleton.1 h]
      simp

/-- The arrays only grow. -/
theorem Parsed.Within.of_effect {d : Directive} (h : (d.effect appDir st).Within) : st.Within := by
  cases d with
  | set k v =>
    obtain ⟨-, -, hps⟩ := st.setArray_rest k (st.array k ++ ((stored v).map (entry appDir k)).toList)
    refine ⟨?_, hps ▸ h.processes, hps ▸ h.prefixes⟩
    intro k'
    have hlen := h.arrays k'
    rw [Directive.effect, st.array_setArray] at hlen
    split_ifs at hlen with hk
    · rw [hk]
      rw [List.length_append] at hlen
      omega
    · exact hlen
  | process pi =>
    have hprocesses := h.processes
    have hprefixes := h.prefixes
    refine ⟨?_, ?_, ?_⟩
    · intro k
      rw [← st.array_setProcesses (blockEffect st.opts.processIgnores pi)]
      exact h.arrays k
    · change (blockEffect _ _).length < 50 at hprocesses
      rw [blockEffect, length_attach, started, List.length_append] at hprocesses
      omega
    · intro pi' hpi'
      obtain ⟨pi'', hmem, hle⟩ := exists_mem_attach
        (List.mem_append_left ((stored pi.processName).toList.map (⟨·, []⟩)) hpi')
        (pi.processIgnorePrefixPaths.filterMap stored)
      exact lt_of_le_of_lt hle (hprefixes pi'' hmem)

/-! ## What all directives do -/

def effects (appDir : CString) (st : Parsed) (ds : List Directive) : Parsed :=
  ds.foldl (Directive.effect appDir) st

/-- **A run that succeeds** does the effects of all directives, within the limits. -/
theorem run_directives : ∀ (ds : List Directive) {st : Parsed}, st.isFirstLine = false →
    st.inBraces = false → st.Within →
    (ds.flatMap Directive.lines).foldlM (parseLine appDir) st = .ok st' →
    st' = effects appDir st ds ∧ st'.Within
  | [], st, _, _, hwithin, h => by
    have hst : st = st' := Except.ok.inj h
    subst hst
    exact ⟨rfl, hwithin⟩
  | d :: ds, st, hfirst, hout, hwithin, h => by
    rw [List.flatMap_cons, List.foldlM_append, bind_eq_ok] at h
    obtain ⟨st₁, hd, hds⟩ := h
    obtain ⟨-, hwithin₁, hst₁⟩ := (run_directive d hfirst hout hwithin).1 hd
    obtain ⟨hfirst₁, hout₁⟩ := d.effect_flags appDir st
    rw [hst₁] at hds
    exact run_directives ds (hfirst₁.trans hfirst) (hout₁.trans hout) hwithin₁ hds

theorem Parsed.Within.of_effects {ds : List Directive} (h : (effects appDir st ds).Within) : st.Within := by
  induction ds generalizing st with
  | nil => exact h
  | cons d ds ih => exact Parsed.Within.of_effect (ih h)

/-- A run succeeds when every process is named and the limits are kept. -/
theorem run_directives_total : ∀ (ds : List Directive) {st : Parsed}, st.isFirstLine = false →
    st.inBraces = false → (∀ pi ∈ processBlocks ds, (stored pi.processName).isSome = true) →
    (effects appDir st ds).Within →
    (ds.flatMap Directive.lines).foldlM (parseLine appDir) st = .ok (effects appDir st ds)
  | [], st, _, _, _, _ => rfl
  | d :: ds, st, hfirst, hout, hnames, hwithin => by
    have hwithin₁ : (d.effect appDir st).Within := Parsed.Within.of_effects hwithin
    have hopens : d.Opens st := by
      cases d with
      | set k v => trivial
      | process pi =>
        obtain ⟨p, hp⟩ := Option.isSome_iff_exists.1 (hnames pi (by simp [processBlocks]))
        simp [Directive.Opens, started, hp]
    obtain ⟨hfirst₁, hout₁⟩ := d.effect_flags appDir st
    rw [List.flatMap_cons, List.foldlM_append, bind_eq_ok]
    refine ⟨_, (run_directive d hfirst hout hwithin₁.of_effect).2 ⟨hopens, hwithin₁, rfl⟩, ?_⟩
    refine run_directives_total ds (hfirst₁.trans hfirst) (hout₁.trans hout) ?_ hwithin
    intro pi hpi
    refine hnames pi ?_
    rw [processBlocks_cons]
    exact List.mem_append_right _ hpi

/-- Each array gets what is stored of its values. -/
theorem array_effects (ds : List Directive) (st : Parsed) (k : ArrayKey) :
    (effects appDir st ds).array k =
      st.array k ++ (arrayValues ds k).filterMap fun v => (stored v).map (entry appDir k) := by
  induction ds generalizing st with
  | nil => exact (List.append_nil _).symm
  | cons d ds ih =>
    have hstep : effects appDir st (d :: ds) = effects appDir (d.effect appDir st) ds := rfl
    rw [hstep, ih, arrayValues_cons, List.filterMap_append, ← List.append_assoc]
    congr 1
    cases d with
    | process pi => exact (st.array_setProcesses _ k).trans (List.append_nil _).symm
    | set k' v =>
      rw [Directive.effect, st.array_setArray]
      split_ifs with hk
      · subst hk
        cases hstored : stored v <;> simp [arrayValues, hstored]
      · simp [arrayValues, hk]

theorem processes_effects (ds : List Directive) (st : Parsed) :
    (effects appDir st ds).opts.processIgnores =
      (processBlocks ds).foldl blockEffect st.opts.processIgnores := by
  induction ds generalizing st with
  | nil => rfl
  | cons d ds ih =>
    have hstep : effects appDir st (d :: ds) = effects appDir (d.effect appDir st) ds := rfl
    rw [hstep, ih, processBlocks_cons, List.foldl_append]
    cases d with
    | process pi => rfl
    | set k v =>
      rw [Directive.effect, (st.setArray_rest k _).2.2]
      rfl

/-! ## Values that are read back -/

theorem filterMap_eq_self_iff {α : Type} {f : α → Option α} {l : List α} :
    l.filterMap f = l ↔ ∀ a ∈ l, f a = some a := by
  induction l with
  | nil => simp
  | cons a l ih =>
    cases ha : f a with
    | none =>
      have hlen := List.length_filterMap_le f l
      rw [List.filterMap_cons_none ha]
      constructor
      · intro h
        have hcons := congrArg List.length h
        rw [List.length_cons] at hcons
        omega
      · intro h
        have hself := h a List.mem_cons_self
        rw [ha] at hself
        exact nomatch hself
    | some b =>
      rw [List.filterMap_cons_some ha, List.cons.injEq, ih, List.forall_mem_cons, ha, Option.some.injEq]

theorem length_blockEffect (ps : List ProcessIgnore) (pi : ProcessIgnore) :
    (blockEffect ps pi).length = ps.length + (stored pi.processName).toList.length := by
  rw [blockEffect, length_attach, started, List.length_append, List.length_map]

theorem length_foldl_blockEffect_le (bs : List ProcessIgnore) (ps : List ProcessIgnore) :
    (bs.foldl blockEffect ps).length ≤ ps.length + bs.length := by
  induction bs generalizing ps with
  | nil => exact le_rfl
  | cons pi bs ih =>
    have hstep := ih (blockEffect ps pi)
    have hone : (stored pi.processName).toList.length ≤ 1 := by cases stored pi.processName <;> simp
    rw [length_blockEffect] at hstep
    rw [List.foldl_cons, List.length_cons]
    omega

/-- A block whose name is not stored leaves a process too few. -/
theorem stored_isSome_of_length (bs : List ProcessIgnore) (ps : List ProcessIgnore)
    (h : (bs.foldl blockEffect ps).length = ps.length + bs.length) :
    ∀ pi ∈ bs, (stored pi.processName).isSome = true := by
  induction bs generalizing ps with
  | nil => simp
  | cons pi bs ih =>
    have hle := length_foldl_blockEffect_le bs (blockEffect ps pi)
    rw [List.foldl_cons, List.length_cons] at h
    rw [length_blockEffect] at hle
    have hsome : (stored pi.processName).isSome = true := by
      cases hstored : stored pi.processName with
      | none =>
        rw [hstored, Option.toList_none, List.length_nil] at hle
        omega
      | some p => rfl
    have hone : (stored pi.processName).toList.length = 1 := by
      obtain ⟨p, hp⟩ := Option.isSome_iff_exists.1 hsome
      rw [hp]
      rfl
    rw [List.forall_mem_cons]
    refine ⟨hsome, ih (blockEffect ps pi) ?_⟩
    rw [length_blockEffect, hone, h]
    omega

theorem blockEffect_of_some {ps : List ProcessIgnore} {pi : ProcessIgnore} {p : CString}
    (h : stored pi.processName = some p) :
    blockEffect ps pi = ps ++ [⟨p, pi.processIgnorePrefixPaths.filterMap stored⟩] := by
  rw [blockEffect, started, h]
  exact attach_concat ps ⟨p, []⟩ _

theorem foldl_blockEffect_of_some (bs ps : List ProcessIgnore)
    (h : ∀ pi ∈ bs, (stored pi.processName).isSome = true) :
    bs.foldl blockEffect ps = ps ++ bs.map fun pi =>
      ⟨(stored pi.processName).getD [], pi.processIgnorePrefixPaths.filterMap stored⟩ := by
  induction bs generalizing ps with
  | nil => exact (List.append_nil ps).symm
  | cons pi bs ih =>
    obtain ⟨hpi, hbs⟩ := List.forall_mem_cons.1 h
    obtain ⟨p, hp⟩ := Option.isSome_iff_exists.1 hpi
    rw [List.foldl_cons, ih _ hbs, blockEffect_of_some hp, List.map_cons, hp, List.append_assoc]
    rfl

/-- **The blocks are read back** exactly if their names and prefixes are. -/
theorem foldl_blockEffect_eq_iff (bs : List ProcessIgnore) :
    bs.foldl blockEffect [] = bs ↔ ∀ pi ∈ bs, stored pi.processName = some pi.processName ∧
      ∀ path ∈ pi.processIgnorePrefixPaths, stored path = some path := by
  constructor
  · intro h
    have hsome := stored_isSome_of_length bs [] (by rw [h, List.length_nil, Nat.zero_add])
    rw [foldl_blockEffect_of_some bs [] hsome, List.nil_append] at h
    intro pi hpi
    have hsame := (List.map_eq_map_iff (g := id)).1 (h.trans (List.map_id bs).symm) pi hpi
    obtain ⟨p, hp⟩ := Option.isSome_iff_exists.1 (hsome pi hpi)
    have hname : p = pi.processName := by
      have := congrArg ProcessIgnore.processName hsame
      rw [hp] at this
      exact this
    have hpaths : pi.processIgnorePrefixPaths.filterMap stored = pi.processIgnorePrefixPaths :=
      congrArg ProcessIgnore.processIgnorePrefixPaths hsame
    exact ⟨hp.trans (congrArg some hname), filterMap_eq_self_iff.1 hpaths⟩
  · intro h
    have hsome : ∀ pi ∈ bs, (stored pi.processName).isSome = true := by
      intro pi hpi
      rw [(h pi hpi).1]
      rfl
    rw [foldl_blockEffect_of_some bs [] hsome, List.nil_append]
    conv_rhs => rw [← List.map_id bs]
    refine List.map_congr_left fun pi hpi => ?_
    rw [(h pi hpi).1, filterMap_eq_self_iff.2 (h pi hpi).2]
    rfl

/-- The directives that are read back. -/
structure Readable (appDir : CString) (ds : List Directive) : Prop where
  values : ∀ k, k ≠ .multiRepoPath → ∀ v ∈ arrayValues ds k, ReadsBack v
  repos : ∀ v ∈ arrayValues ds .multiRepoPath, (stored v).map (appDir ++ str "/" ++ ·) = some v
  names : ∀ pi ∈ processBlocks ds, ReadsBack pi.processName
  prefixes : ∀ pi ∈ processBlocks ds, ∀ path ∈ pi.processIgnorePrefixPaths, ReadsBack path
  arrays_lt : ∀ k, (arrayValues ds k).length < 100
  processes_lt : (processBlocks ds).length < 50
  prefixes_lt : ∀ pi ∈ processBlocks ds, pi.processIgnorePrefixPaths.length < 20

theorem Parsed.Holds.within_iff {ds : List Directive} (h : st.Holds ds) : st.Within ↔
    (∀ k, (arrayValues ds k).length < 100) ∧ (processBlocks ds).length < 50 ∧
      ∀ pi ∈ processBlocks ds, pi.processIgnorePrefixPaths.length < 20 := by
  rw [← h.processes]
  simp only [← h.arrays]
  exact ⟨fun hw => ⟨hw.arrays, hw.processes, hw.prefixes⟩, fun ⟨ha, hp, hpre⟩ => ⟨ha, hp, hpre⟩⟩

/-- The state behind the first line. -/
def afterVersion : Parsed := { isFirstLine := false }

theorem effects_holds_iff (ds : List Directive) : (effects appDir afterVersion ds).Holds ds ↔
    (∀ k, ∀ v ∈ arrayValues ds k, (stored v).map (entry appDir k) = some v) ∧
      ∀ pi ∈ processBlocks ds, stored pi.processName = some pi.processName ∧
        ∀ path ∈ pi.processIgnorePrefixPaths, stored path = some path := by
  have harray : ∀ k, (effects appDir afterVersion ds).array k =
      (arrayValues ds k).filterMap fun v => (stored v).map (entry appDir k) := by
    intro k
    have hempty : afterVersion.array k = [] := by cases k <;> rfl
    rw [array_effects, hempty, List.nil_append]
  have hprocesses : (effects appDir afterVersion ds).opts.processIgnores =
      (processBlocks ds).foldl blockEffect [] := processes_effects ds afterVersion
  constructor
  · rintro ⟨harrays, hblocks⟩
    refine ⟨fun k => ?_, ?_⟩
    · exact filterMap_eq_self_iff.1 ((harray k).symm.trans (harrays k))
    · exact (foldl_blockEffect_eq_iff _).1 (hprocesses.symm.trans hblocks)
  · rintro ⟨hvalues, hblocks⟩
    refine ⟨fun k => ?_, ?_⟩
    · exact (harray k).trans (filterMap_eq_self_iff.2 (hvalues k))
    · exact hprocesses.trans ((foldl_blockEffect_eq_iff _).2 hblocks)

theorem stored_entry_iff {k : ArrayKey} (hk : k ≠ .multiRepoPath) {v : CString} :
    (stored v).map (entry appDir k) = some v ↔ ReadsBack v := by
  have hentry : entry appDir k = id := by
    funext p
    exact if_neg hk
  rw [hentry, Option.map_id, id, stored_eq_self_iff]

theorem readable_iff (ds : List Directive) : Readable appDir ds ↔
    (effects appDir afterVersion ds).Holds ds ∧ (effects appDir afterVersion ds).Within := by
  constructor
  · intro h
    have hholds : (effects appDir afterVersion ds).Holds ds := by
      rw [effects_holds_iff]
      refine ⟨?_, ?_⟩
      · intro k v hv
        by_cases hk : k = .multiRepoPath
        · subst hk
          exact h.repos v hv
        · exact (stored_entry_iff hk).2 (h.values k hk v hv)
      · intro pi hpi
        refine ⟨stored_eq_self_iff.2 (h.names pi hpi), ?_⟩
        intro path hpath
        exact stored_eq_self_iff.2 (h.prefixes pi hpi path hpath)
    exact ⟨hholds, hholds.within_iff.2 ⟨h.arrays_lt, h.processes_lt, h.prefixes_lt⟩⟩
  · rintro ⟨hholds, hwithin⟩
    obtain ⟨harrays, hprocesses, hprefixes⟩ := hholds.within_iff.1 hwithin
    obtain ⟨hvalues, hblocks⟩ := (effects_holds_iff ds).1 hholds
    refine ⟨?_, hvalues .multiRepoPath, ?_, ?_, harrays, hprocesses, hprefixes⟩
    · intro k hk v hv
      exact (stored_entry_iff hk).1 (hvalues k v hv)
    · intro pi hpi
      exact stored_eq_self_iff.1 (hblocks pi hpi).1
    · intro pi hpi path hpath
      exact stored_eq_self_iff.1 ((hblocks pi hpi).2 path hpath)

/-- A repository is stored with `Cde_app_dir` before it, so its value is not read back. -/
theorem Readable.no_repos {ds : List Directive} (happ : equalsSign ∉ appDir) (h : Readable appDir ds) :
    arrayValues ds .multiRepoPath = [] := by
  rw [List.eq_nil_iff_forall_not_mem]
  intro v hv
  obtain ⟨t, hstored, hvalue⟩ := Option.map_eq_some_iff.1 (h.repos v hv)
  obtain ⟨ws, htokens⟩ := List.head?_eq_some_iff.1 hstored
  obtain ⟨-, -, -, -, hne, hequals, -, -⟩ := strtok_cons_inv htokens
  have hnoEquals : equalsSign ∉ v := by
    have hslash : equalsSign ∉ str "/" := by decide
    simp only [← hvalue, List.mem_append, not_or]
    exact ⟨⟨happ, hslash⟩, hequals⟩
  rw [stored_of_noEquals hnoEquals] at hstored
  split_ifs at hstored
  have hrstrip : strRstrip v = t := Option.some.inj hstored
  have hkept : strRstrip t = t := by
    rw [← hrstrip]
    exact List.rdropWhile_idempotent _ _
  -- the stored path ends like the value, so nothing was stripped
  rw [← hvalue, strRstrip_append_of_eq hne hkept] at hrstrip
  have hlen := congrArg List.length hrstrip
  simp only [List.length_append] at hlen
  have hslash : (str "/").length = 1 := by decide
  omega

theorem afterVersion_within : afterVersion.Within := by
  refine ⟨?_, by decide, by decide⟩
  intro k
  cases k <;> decide

/-- **The printed directives are read back** exactly if they are readable. -/
theorem run_holds_iff (appDir : CString) (ds : List Directive) :
    (∃ st, (ds.flatMap Directive.lines).foldlM (parseLine appDir) afterVersion = .ok st ∧ st.Holds ds) ↔
      Readable appDir ds := by
  rw [readable_iff]
  constructor
  · rintro ⟨st, hrun, hholds⟩
    obtain ⟨rfl, hwithin⟩ := run_directives ds rfl rfl afterVersion_within hrun
    exact ⟨hholds, hwithin⟩
  · rintro ⟨hholds, hwithin⟩
    refine ⟨_, run_directives_total ds rfl rfl ?_ hwithin, hholds⟩
    intro pi hpi
    rw [(((effects_holds_iff ds).1 hholds).2 pi hpi).1]
    rfl

end Ptu
