import Ptu.Proof.OptionLines
import Ptu.Spec.Environ

/-!
# Captured environments

* `getenv_loadEntry`: what one entry of a captured environment does to a variable.
* `load_iff`: the loader goes through the entries up to the first empty one.
* `environment_loads`: **a captured environment is loaded completely.**
* `ignored_host_iff`: **ignored variables have the host's values** after two loads only if they occur
  in both files.
-/

namespace Ptu

open Delimited

variable {environ e : Environ} {name n val entry : CString} {ignored : List IgnoredVar}
variable {mem rest : List Byte} {entries : List CString}

/-! ## Variables -/

/-- The name of a variable. -/
structure IsName (n : CString) : Prop where
  ne_nil : n ≠ []
  noEquals : equalsSign ∉ n

theorem isVar_iff : isVar n entry = true ↔ ∃ v, entry = n ++ equalsSign :: v := by
  unfold isVar
  rw [startsWith_iff]
  constructor
  · rintro ⟨v, rfl⟩
    exact ⟨v, by simp⟩
  · rintro ⟨v, rfl⟩
    exact ⟨v, by simp⟩

/-- A string has one name. -/
theorem isVar_append (hn : IsName n) (hname : IsName name) : isVar n (name ++ equalsSign :: val) = true ↔ n = name := by
  rw [isVar_iff]
  constructor
  · rintro ⟨v, h⟩
    exact (append_cons_inj hname.noEquals hn.noEquals h).1.symm
  · rintro rfl
    exact ⟨val, rfl⟩

theorem drop_var (n val : CString) : (n ++ equalsSign :: val).drop (n.length + 1) = val := by
  rw [← List.drop_drop, List.drop_left]
  rfl

theorem getenv_nil (n : CString) : getenv [] n = none := by
  unfold getenv
  split_ifs
  · rfl
  · rfl

theorem getenv_isSome (hn : IsName n) : (getenv environ n).isSome = environ.any (isVar n) := by
  unfold getenv
  rw [if_neg hn.ne_nil, Option.isSome_map, Bool.eq_iff_iff, List.find?_isSome, List.any_eq_true]

/-- **`setenv` keeps the first value.** -/
theorem getenv_setenv (hn : IsName n) (hname : IsName name) :
    getenv (setenv environ name val) n =
      (getenv environ n).or (if n = name then some val else none) := by
  unfold setenv
  rw [if_neg (by simp [hname.ne_nil, hname.noEquals])]
  by_cases hset : environ.any (isVar name) = true
  · rw [if_pos hset]
    split_ifs with heq
    · subst heq
      rw [← getenv_isSome hn] at hset
      rw [Option.or_of_isSome hset]
    · rw [Option.or_none]
  · rw [if_neg hset]
    unfold getenv
    rw [if_neg hn.ne_nil, if_neg hn.ne_nil, List.find?_append, Option.map_or]
    congr 1
    by_cases heq : n = name
    · subst heq
      rw [List.find?_singleton, if_pos ((isVar_append hn hname).2 rfl), if_pos rfl, Option.map_some, drop_var]
    · have hno : ¬ isVar n (name ++ equalsSign :: val) = true := fun h => heq ((isVar_append hn hname).1 h)
      rw [List.find?_singleton, if_neg hno, if_neg heq, Option.map_none]

/-! ## One entry -/

/-- The value that an entry `name=val` gives to its variable. -/
def given (ignored : List IgnoredVar) (name val : CString) : Option CString :=
  (ignored.find? (·.name == name)).elim (some val) (·.value)

theorem loadEntry_var (hname : IsName name) :
    loadEntry ignored environ (name ++ equalsSign :: val) =
      (given ignored name val).elim environ (setenv environ name) := by
  unfold loadEntry given
  rw [takeWhile_append_cons hname.noEquals]
  dsimp only
  rw [drop_var, if_neg (by simp [hname.ne_nil])]
  cases ignored.find? (·.name == name) with
  | none => rfl
  | some v =>
    dsimp only [Option.elim_some]
    cases v.value with
    | none => rfl
    | some value => rfl

/-- An entry sets a variable or is skipped. -/
theorem entry_cases (entry : CString) :
    (∃ name val, IsName name ∧ entry = name ++ equalsSign :: val) ∨
      (∀ n, IsName n → isVar n entry = false) ∧
        ∀ (ignored : List IgnoredVar) (environ : Environ), loadEntry ignored environ entry = environ := by
  by_cases hmem : equalsSign ∈ entry
  · obtain ⟨name, val, rfl, hname⟩ := List.eq_append_cons_of_mem hmem
    by_cases hnil : name = []
    · right
      constructor
      · intro n hn
        rw [Bool.eq_false_iff]
        intro hvar
        obtain ⟨v, hv⟩ := isVar_iff.1 hvar
        exact hn.ne_nil (hnil ▸ (append_cons_inj hname hn.noEquals hv).1.symm)
      · intro ignored environ
        unfold loadEntry
        rw [takeWhile_append_cons hname, if_pos (Or.inr hnil)]
    · exact Or.inl ⟨name, val, ⟨hnil, hname⟩, rfl⟩
  · right
    constructor
    · intro n hn
      rw [Bool.eq_false_iff]
      intro hvar
      obtain ⟨v, rfl⟩ := isVar_iff.1 hvar
      exact hmem (by simp)
    · intro ignored environ
      unfold loadEntry
      rw [if_pos (Or.inl hmem)]

/-- What an entry gives to the variable `n`. -/
def assigned (ignored : List IgnoredVar) (n entry : CString) : Option CString :=
  if isVar n entry then given ignored n (entry.drop (n.length + 1)) else none

/-- **What one entry does to a variable.** -/
theorem getenv_loadEntry (hn : IsName n) :
    getenv (loadEntry ignored environ entry) n = (getenv environ n).or (assigned ignored n entry) := by
  unfold assigned
  rcases entry_cases entry with ⟨name, val, hname, rfl⟩ | ⟨hvar, hskip⟩
  · rw [loadEntry_var hname]
    by_cases heq : n = name
    · subst heq
      rw [if_pos ((isVar_append hn hname).2 rfl), drop_var]
      cases given ignored n val with
      | none => rw [Option.elim_none, Option.or_none]
      | some value => rw [Option.elim_some, getenv_setenv hn hname, if_pos rfl]
    · rw [if_neg (fun h => heq ((isVar_append hn hname).1 h)), Option.or_none]
      cases given ignored name val with
      | none => rfl
      | some value => rw [Option.elim_some, getenv_setenv hn hname, if_neg heq, Option.or_none]
  · rw [hskip, hvar n hn, if_neg (by simp), Option.or_none]

/-- All entries: a variable keeps the first value that it is given. -/
theorem getenv_foldl (hn : IsName n) :
    getenv (entries.foldl (loadEntry ignored) environ) n =
      (getenv environ n).or (entries.findSome? (assigned ignored n)) := by
  induction entries generalizing environ with
  | nil => rw [List.foldl_nil, List.findSome?_nil, Option.or_none]
  | cons entry entries ih =>
    have hcons : (entry :: entries).findSome? (assigned ignored n) =
        (assigned ignored n entry).or (entries.findSome? (assigned ignored n)) := by
      rw [List.findSome?_cons]
      cases assigned ignored n entry with
      | none => rfl
      | some value => rfl
    rw [List.foldl_cons, ih, getenv_loadEntry hn, hcons, Option.or_assoc]

/-- Every string of the environment is the value of its variable. -/
def Proper (environ : Environ) : Prop :=
  ∀ s ∈ environ, ∃ n val, IsName n ∧ s = n ++ equalsSign :: val ∧ getenv environ n = some val

theorem Proper.setenv (h : Proper environ) (hname : IsName name) : Proper (setenv environ name val) := by
  by_cases hset : environ.any (isVar name) = true
  · unfold Ptu.setenv
    rw [if_neg (by simp [hname.ne_nil, hname.noEquals]), if_pos hset]
    exact h
  · have hnew : Ptu.setenv environ name val = environ ++ [name ++ equalsSign :: val] := by
      unfold Ptu.setenv
      rw [if_neg (by simp [hname.ne_nil, hname.noEquals]), if_neg hset]
    intro s hs
    rw [hnew, List.mem_append, List.mem_singleton] at hs
    rcases hs with hs | rfl
    · obtain ⟨n, v, hn, hv, hget⟩ := h s hs
      exact ⟨n, v, hn, hv, by rw [getenv_setenv hn hname, hget, Option.some_or]⟩
    · have hnone : getenv environ name = none := by
        rw [← getenv_isSome hname] at hset
        simpa using hset
      exact ⟨name, val, hname, rfl, by rw [getenv_setenv hname hname, hnone, if_pos rfl, Option.none_or]⟩

theorem Proper.foldl (h : Proper environ) (entries : List CString) :
    Proper (entries.foldl (loadEntry ignored) environ) := by
  induction entries generalizing environ with
  | nil => exact h
  | cons entry entries ih =>
    apply ih
    rcases entry_cases entry with ⟨name, val, hname, rfl⟩ | ⟨-, hskip⟩
    · rw [loadEntry_var hname]
      cases given ignored name val with
      | none => exact h
      | some value => exact h.setenv hname
    · rw [hskip]
      exact h

/-! ## The buffer -/

/-- The entries stand in memory one after the other, and then an empty one. -/
def Stored (mem : List Byte) (entries : List CString) : Prop :=
  (∀ s ∈ entries, s ≠ [] ∧ 0 ∉ s) ∧ ∃ rest, mem = terminated 0 entries ++ 0 :: rest

theorem Stored.mem_zero (h : Stored mem entries) : 0 ∈ mem := by
  obtain ⟨-, rest, rfl⟩ := h
  simp

theorem stored_zero : Stored (0 :: mem) entries ↔ entries = [] := by
  constructor
  · rintro ⟨hentries, rest, hmem⟩
    cases entries with
    | nil => rfl
    | cons s entries =>
      -- the first entry would start with the NUL
      obtain ⟨⟨hne, hnul⟩, -⟩ := List.forall_mem_cons.1 hentries
      obtain ⟨c, s, rfl⟩ := List.exists_cons_of_ne_nil hne
      rw [terminated_cons, List.cons_append, List.cons_append] at hmem
      exact absurd (List.mem_cons.2 (Or.inl (List.cons.inj hmem).1)) hnul
  · rintro rfl
    exact ⟨by simp, mem, rfl⟩

theorem stored_append (hne : entry ≠ []) (hnul : 0 ∉ entry) :
    Stored (entry ++ 0 :: mem) entries ↔ ∃ tail, entries = entry :: tail ∧ Stored mem tail := by
  constructor
  · rintro ⟨hentries, rest, hmem⟩
    cases entries with
    | nil =>
      obtain ⟨hnil, -⟩ := append_cons_inj hnul (List.not_mem_nil) hmem
      exact absurd hnil hne
    | cons s tail =>
      obtain ⟨⟨-, hs⟩, htail⟩ := List.forall_mem_cons.1 hentries
      rw [terminated_cons, List.append_assoc, List.cons_append] at hmem
      obtain ⟨rfl, hrest⟩ := append_cons_inj hnul hs hmem
      exact ⟨tail, rfl, htail, rest, hrest⟩
  · rintro ⟨tail, rfl, htail, rest, rfl⟩
    refine ⟨List.forall_mem_cons.2 ⟨⟨hne, hnul⟩, htail⟩, rest, ?_⟩
    rw [terminated_cons, List.append_assoc, List.cons_append]

theorem loadLoop_iff {fuel : ℕ} (hfuel : mem.length ≤ fuel) :
    loadLoop ignored fuel mem environ = .ok e ↔
      ∃ entries, Stored mem entries ∧ e = entries.foldl (loadEntry ignored) environ := by
  -- memory that ends before a NUL
  have hend : ∀ {mem : List Byte} {P : List CString → Prop}, 0 ∉ mem → ¬ ∃ entries, Stored mem entries ∧ P entries := by
    rintro mem P hmem ⟨entries, hstored, -⟩
    exact hmem hstored.mem_zero
  induction fuel generalizing mem environ with
  | zero =>
    have hnil : mem = [] := List.length_eq_zero_iff.1 (by omega)
    rw [hnil]
    exact iff_of_false (by simp [loadLoop]) (hend (by simp))
  | succ fuel ih =>
    cases mem with
    | nil => exact iff_of_false (by simp [loadLoop]) (hend (by simp))
    | cons c mem =>
      rw [loadLoop]
      by_cases hc : c = 0
      · subst hc
        simp only [if_true, stored_zero, exists_eq_left, List.foldl_nil, Except.ok.injEq]
        exact eq_comm
      · rw [if_neg hc]
        by_cases hnul : 0 ∈ c :: mem
        · obtain ⟨entry, next, hcut, hentry⟩ := List.eq_append_cons_of_mem hnul
          have hne : entry ≠ [] := by
            rintro rfl
            exact hc (List.cons.inj hcut).1
          have hshort : next.length ≤ fuel := by
            have hlen := congrArg List.length hcut
            rw [List.length_append, List.length_cons] at hlen
            rw [List.length_cons] at hfuel hlen
            omega
          rw [hcut, takeWhile_append_cons hentry, dropWhile_append_cons hentry]
          refine (ih hshort).trans ?_
          simp only [stored_append hne hentry]
          constructor
          · rintro ⟨tail, hstored, rfl⟩
            exact ⟨entry :: tail, ⟨tail, rfl, hstored⟩, rfl⟩
          · rintro ⟨_, ⟨tail, rfl, hstored⟩, rfl⟩
            exact ⟨tail, hstored, rfl⟩
        · have hdrop : (c :: mem).dropWhile (· != 0) = [] := by
            rw [List.dropWhile_eq_nil_iff]
            intro b hb
            rw [bne_iff_ne]
            rintro rfl
            exact hnul hb
          rw [hdrop]
          exact iff_of_false (by simp) (hend hnul)

/-- **The loader goes through the entries up to the first empty one**, and it must find one. -/
theorem load_iff :
    loadEnvironmentVarsFromMem ignored mem environ = .ok e ↔
      ∃ entries, Stored mem entries ∧ e = entries.foldl (loadEntry ignored) environ :=
  loadLoop_iff (Nat.le_refl _)

/-- The first entry of a variable that is not ignored. -/
theorem findSome_assigned_iff (hignored : ∀ v ∈ ignored, v.name ≠ n) :
    entries.findSome? (assigned ignored n) = some val ↔
      ∃ before after, entries = before ++ (n ++ equalsSign :: val) :: after ∧ ∀ s ∈ before, isVar n s = false := by
  have hgiven : ∀ v, given ignored n v = some v := by
    intro v
    have hfind : ignored.find? (·.name == n) = none := by
      rw [List.find?_eq_none]
      intro v hv
      simpa using hignored v hv
    unfold given
    rw [hfind]
    rfl
  have hsome : ∀ {s v}, assigned ignored n s = some v ↔ s = n ++ equalsSign :: v := by
    intro s v
    unfold assigned
    constructor
    · intro h
      split_ifs at h with hvar
      obtain ⟨v', rfl⟩ := isVar_iff.1 hvar
      rw [drop_var, hgiven] at h
      rw [Option.some.inj h]
    · rintro rfl
      rw [if_pos (isVar_iff.2 ⟨v, rfl⟩), drop_var, hgiven]
  have hnone : ∀ {s}, assigned ignored n s = none ↔ isVar n s = false := by
    intro s
    unfold assigned
    split_ifs with hvar
    · simp [hgiven, hvar]
    · simpa using hvar
  rw [List.findSome?_eq_some_iff]
  constructor
  · rintro ⟨before, s, after, rfl, hs, hbefore⟩
    exact ⟨before, after, by rw [hsome.1 hs], fun s hs => hnone.1 (hbefore s hs)⟩
  · rintro ⟨before, after, rfl, hbefore⟩
    exact ⟨before, _, after, rfl, hsome.2 rfl, fun s hs => hnone.2 (hbefore s hs)⟩

/-- **A captured environment is loaded completely.** A variable that is not ignored has the value of
its first entry, and no other string is in the environment. -/
theorem environment_loads (hentries : ∀ s ∈ entries, s ≠ [] ∧ 0 ∉ s) (ignored : List IgnoredVar)
    (rest : List Byte) :
    ∃ e, loadEnvironmentVarsFromMem ignored (terminated 0 entries ++ 0 :: rest) [] = .ok e ∧
      (∀ n, IsName n → (∀ v ∈ ignored, v.name ≠ n) → ∀ val, getenv e n = some val ↔
        ∃ before after, entries = before ++ (n ++ equalsSign :: val) :: after ∧
          ∀ s ∈ before, isVar n s = false) ∧
      ∀ s ∈ e, ∃ n val, IsName n ∧ s = n ++ equalsSign :: val ∧ getenv e n = some val := by
  refine ⟨entries.foldl (loadEntry ignored) [], load_iff.2 ⟨entries, ⟨hentries, rest, rfl⟩, rfl⟩, ?_, ?_⟩
  · intro n hn hignored val
    rw [getenv_foldl hn, getenv_nil, Option.none_or]
    exact findSome_assigned_iff hignored
  · have hproper : Proper [] := by
      intro s hs
      exact absurd hs List.not_mem_nil
    exact hproper.foldl entries

/-- The first of two values, a value with a `=` in it, and entries that are skipped. -/
theorem environment_loads_entries :
    ∃ e, loadEnvironmentVarsFromMem [⟨str "B", none⟩]
        (terminated 0 [str "x", str "A=1=2", str "=y", str "B=3", str "A=4"] ++ [0]) [] = .ok e ∧
      getenv e (str "A") = some (str "1=2") := by
  have hentries : ∀ s ∈ [str "x", str "A=1=2", str "=y", str "B=3", str "A=4"], s ≠ [] ∧ 0 ∉ s := by
    simp [str]
  obtain ⟨e, hload, hvars, -⟩ := environment_loads hentries [⟨str "B", none⟩] []
  refine ⟨e, hload, (hvars (str "A") ⟨by simp [str], by simp [str, equalsSign]⟩ (by simp [str]) _).2 ?_⟩
  exact ⟨[str "x"], [str "=y", str "B=3", str "A=4"], rfl, by decide⟩

/-! ## Ignored variables -/

variable {host : Environ} {names : List CString} {content content' : List Byte}

/-- The ignored variables with the values of the host. -/
def saved (host : Environ) (names : List CString) : List IgnoredVar :=
  names.map fun n => ⟨n, getenv host n⟩

theorem addIgnoredVar_saved {p : CString} {vars : List IgnoredVar}
    (h : addIgnoredVar host (saved host names) p = .ok vars) : vars = saved host (names ++ [p]) := by
  obtain ⟨_, -, h⟩ := bind_eq_ok.1 h
  obtain rfl := Except.ok.inj h
  simp [saved, Function.comp_def]

/-- **The values are those of the host**, however often they are saved. -/
theorem ignoredVars_eq (h : ignoredVars host names = .ok ignored) : ignored = saved host names := by
  have hrun : ∀ done, names.foldlM (addIgnoredVar host) (saved host done) = .ok ignored →
      ignored = saved host (done ++ names) := by
    clear h
    induction names with
    | nil =>
      intro done h
      rw [List.append_nil]
      exact (Except.ok.inj h).symm
    | cons p names ih =>
      intro done h
      rw [List.foldlM_cons] at h
      obtain ⟨vars, hadd, h⟩ := bind_eq_ok.1 h
      rw [addIgnoredVar_saved hadd] at h
      rw [ih _ h, List.append_assoc]
      rfl
  exact hrun [] h

/-- An ignored variable is restored when some entry has its name. -/
theorem findSome_saved (hn : n ∈ names) :
    entries.findSome? (assigned (saved host names) n) =
      if entries.any (isVar n) then getenv host n else none := by
  have hgiven : ∀ val, given (saved host names) n val = getenv host n := by
    intro val
    obtain ⟨v, hfind⟩ : ∃ v, (saved host names).find? (·.name == n) = some v := by
      rw [← Option.isSome_iff_exists, List.find?_isSome]
      exact ⟨⟨n, getenv host n⟩, List.mem_map_of_mem hn, by simp⟩
    obtain ⟨m, -, rfl⟩ := List.mem_map.1 (List.mem_of_find?_eq_some hfind)
    have hname : m = n := by simpa using List.find?_some hfind
    unfold given
    rw [hfind, hname]
    rfl
  have hassigned : ∀ s, assigned (saved host names) n s = if isVar n s then getenv host n else none := by
    intro s
    unfold assigned
    rw [hgiven]
  induction entries with
  | nil => rfl
  | cons s entries ih =>
    rw [List.findSome?_cons, hassigned, List.any_cons, ih]
    cases isVar n s with
    | false => rfl
    | true =>
      cases getenv host n with
      | none => simp
      | some v => rfl

/-- A file that restores the ignored variables: its entries end with an empty one, or with zeros
behind the end of the file, and every ignored variable of the host occurs among them. -/
def Restores (host : Environ) (names : List CString) (content : List Byte) : Prop :=
  ∃ entries, Stored (mapped content) entries ∧
    ∀ n ∈ names, getenv host n ≠ none → entries.any (isVar n) = true

theorem load_saved_iff (hnames : ∀ n ∈ names, IsName n) :
    (∃ e, loadEnvironmentVarsFromMem (saved host names) (mapped content) [] = .ok e ∧
      ∀ n ∈ names, getenv e n = getenv host n) ↔ Restores host names content := by
  -- the variables after a load
  have hvars : ∀ {entries : List CString} {n : CString}, n ∈ names →
      (getenv (entries.foldl (loadEntry (saved host names)) []) n = getenv host n ↔
        (getenv host n ≠ none → entries.any (isVar n) = true)) := by
    intro entries n hn
    rw [getenv_foldl (hnames n hn), getenv_nil, Option.none_or, findSome_saved hn]
    cases entries.any (isVar n) with
    | true => simp
    | false => simpa using eq_comm
  constructor
  · rintro ⟨e, hload, he⟩
    obtain ⟨entries, hstored, rfl⟩ := load_iff.1 hload
    exact ⟨entries, hstored, fun n hn => (hvars hn).1 (he n hn)⟩
  · rintro ⟨entries, hstored, hentries⟩
    exact ⟨_, load_iff.2 ⟨entries, hstored, rfl⟩, fun n hn => (hvars hn).2 (hentries n hn)⟩

section Names

variable {st st' : Parsed} {env : OptionsEnv}

/-- The ignored variables of an option file have names. -/
def Named (st : Parsed) : Prop := ∀ n ∈ st.array .ignoreEnvironmentVar, IsName n

theorem Named.addOption {appDir p : CString} {key : OptionKey} (hst : Named st) (hp : IsName p)
    (h : addOption appDir st key p = .ok st') : Named st' := by
  unfold Named
  rcases key with k | _ | _
  · obtain ⟨-, rfl⟩ := addOption_array_eq_ok.1 h
    rw [Parsed.array_setArray]
    split_ifs with hk
    · subst hk
      intro n hn
      rcases List.mem_append.1 hn with hn | hn
      · exact hst n hn
      · rw [List.mem_singleton.1 hn]
        exact hp
    · exact hst
  · obtain ⟨-, rfl⟩ := addIgnoreProcess_eq_ok.1 h
    exact hst
  · rcases List.eq_nil_or_concat' st.opts.processIgnores with hnil | ⟨before, cur, hcat⟩
    · rw [Ptu.addOption, addProcessIgnorePrefix, hnil] at h
      cases h
    · obtain ⟨-, rfl⟩ := (addProcessIgnorePrefix_eq_ok hcat).1 h
      exact hst

theorem Named.parseLine {appDir line : CString} (hst : Named st) (h : parseLine appDir st line = .ok st') :
    Named st' := by
  rcases parseLine_cases h with ⟨_, rfl⟩ | ⟨-, key, p, hp, hadd⟩
  · exact hst
  · obtain ⟨hne, hequals⟩ := strtok_isWord hp
    exact hst.addOption ⟨hne, hequals⟩ hadd

/-- **What `CDE_init_options` reads are names.** -/
theorem initOptions_named {file : Option CString} (h : initOptions env file = .ok st) : Named st := by
  have hkeep : ∀ (s : LineBuffer × Parsed) line s', Named s.2 → readLine env s line = .ok s' → Named s'.2 := by
    intro s line s' hs hline
    obtain ⟨buffer, -, hline⟩ := bind_eq_ok.1 hline
    obtain ⟨parsed, hparsed, hline⟩ := bind_eq_ok.1 hline
    obtain rfl := Except.ok.inj hline
    exact hs.parseLine hparsed
  have hinit : Named {} := by
    intro n hn
    exact absurd hn List.not_mem_nil
  cases file with
  | none => cases h
  | some text =>
    obtain ⟨s, hlines, h⟩ := bind_eq_ok.1 h
    obtain ⟨-, h⟩ := ite_throw_eq_ok.1 h
    rw [← Except.ok.inj h]
    exact foldlM_invariant (I := fun s => Named s.2) (fun s line s' hs _ => hkeep s line s' hs) hinit hlines

end Names

/-- **Ignored variables have the values of the host**, whatever the file, if and only if both files
restore them: a variable is set again only while its name is read from the file. -/
theorem ignored_host_iff {cderootDir repo repo' : CString} {files files' : CString → Except CString (List Byte)}
    (hnames : ∀ n ∈ names, IsName n) (hignored : ignoredVars host names = .ok ignored)
    (hfile : files (fullEnvironmentAbspath cderootDir repo) = .ok content)
    (hfile' : files' (fullEnvironmentAbspath cderootDir repo') = .ok content') :
    (∃ e e', loadEnvironmentVars cderootDir repo files ignored = .ok e ∧
      loadEnvironmentVars cderootDir repo' files' ignored = .ok e' ∧
      ∀ n ∈ names, getenv e n = getenv host n ∧ getenv e' n = getenv host n) ↔
    Restores host names content ∧ Restores host names content' := by
  unfold loadEnvironmentVars
  simp only [hfile, hfile', ignoredVars_eq hignored]
  rw [← load_saved_iff hnames, ← load_saved_iff hnames]
  constructor
  · rintro ⟨e, e', hload, hload', hvars⟩
    exact ⟨⟨e, hload, fun n hn => (hvars n hn).1⟩, ⟨e', hload', fun n hn => (hvars n hn).2⟩⟩
  · rintro ⟨⟨e, hload, hvars⟩, ⟨e', hload', hvars'⟩⟩
    exact ⟨e, e', hload, hload', fun n hn => ⟨hvars n hn, hvars' n hn⟩⟩

/-- The copy of an environment that does not fill its last page. -/
theorem stored_mapped (hentries : ∀ s ∈ entries, s ≠ [] ∧ 0 ∉ s)
    (hpage : (terminated 0 entries).length % pageSize ≠ 0) : Stored (mapped (terminated 0 entries)) entries := by
  obtain ⟨k, hk⟩ : ∃ k, (pageSize - (terminated 0 entries).length % pageSize) % pageSize = k + 1 := by
    have hlt : (terminated 0 entries).length % pageSize < pageSize := Nat.mod_lt _ (by decide)
    refine ⟨pageSize - (terminated 0 entries).length % pageSize - 1, ?_⟩
    rw [Nat.mod_eq_of_lt (by omega)]
    omega
  refine ⟨hentries, List.replicate k 0, ?_⟩
  unfold mapped
  rw [hk, List.replicate_succ]

/-- A host with a `DISPLAY`, which is ignored. -/
def displayHost : Environ := [str "DISPLAY=:0"]

/-- A captured environment with a `DISPLAY` of its own, and one without. -/
def captured (withDisplay : Bool) : List CString := if withDisplay then [str "DISPLAY=:1"] else [str "A=1"]

/-- Their file. -/
def capturedFile (withDisplay : Bool) : CString → Except CString (List Byte) :=
  fun _ => .ok (terminated 0 (captured withDisplay))

theorem stored_captured (withDisplay : Bool) :
    Stored (mapped (terminated 0 (captured withDisplay))) (captured withDisplay) := by
  cases withDisplay with
  | false => exact stored_mapped (by simp [captured, str]) (by decide)
  | true => exact stored_mapped (by simp [captured, str]) (by decide)

theorem ignoredVars_display : ignoredVars displayHost [str "DISPLAY"] = .ok (saved displayHost [str "DISPLAY"]) :=
  rfl

/-- Two files with the variable. -/
theorem ignored_host_display :
    ∃ e e', loadEnvironmentVars (str "/r") (str "a") (capturedFile true)
        (saved displayHost [str "DISPLAY"]) = .ok e ∧
      loadEnvironmentVars (str "/r") (str "b") (capturedFile true)
        (saved displayHost [str "DISPLAY"]) = .ok e' ∧
      ∀ n ∈ [str "DISPLAY"], getenv e n = getenv displayHost n ∧ getenv e' n = getenv displayHost n := by
  have hrestores : Restores displayHost [str "DISPLAY"] (terminated 0 (captured true)) :=
    ⟨captured true, stored_captured true, by intro n hn _; rw [List.mem_singleton.1 hn]; decide⟩
  have hnames : ∀ n ∈ [str "DISPLAY"], IsName n := by
    intro n hn
    rw [List.mem_singleton.1 hn]
    exact ⟨by simp [str], by simp [str, equalsSign]⟩
  have hfile : ∀ repo, capturedFile true (fullEnvironmentAbspath (str "/r") repo) =
      .ok (terminated 0 (captured true)) := fun _ => rfl
  exact (ignored_host_iff hnames ignoredVars_display (hfile _) (hfile _)).2 ⟨hrestores, hrestores⟩

/-- A file without the variable: it is unset, although the host has it. -/
theorem ignored_host_unset :
    ignoredVars displayHost [str "DISPLAY"] = .ok (saved displayHost [str "DISPLAY"]) ∧
      getenv displayHost (str "DISPLAY") = some (str ":0") ∧
      ∃ e, loadEnvironmentVars (str "/r") (str "a") (capturedFile false)
        (saved displayHost [str "DISPLAY"]) = .ok e ∧ getenv e (str "DISPLAY") = none := by
  refine ⟨ignoredVars_display, by decide, _, load_iff.2 ⟨captured false, stored_captured false, rfl⟩, ?_⟩
  decide

end Ptu
