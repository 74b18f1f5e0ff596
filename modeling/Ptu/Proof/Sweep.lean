import Mathlib.Data.List.Count
import Mathlib.Data.List.Nodup
import Ptu.Proof.PidList

/-!
# What one sweep looks at

A sweep of `print_curr_prov` fills the place of a process that is gone with the last entry of the
list, and moves on. So it looks at the entries from the front until what it has not looked at
stands in the holes.

* `sweepLoop_log`: the records of a sweep are those of the entries it looks at.
* `swept_iff`: where it stops.
* `sweep_covers_iff`: **a sweep reports every process once exactly if the entries that it does not
  look at belong to live processes that stand in front of them as well**; in a list without
  repetitions only the last process may be gone.
-/

namespace Ptu

open Unordered

/-! ## The entries that are looked at -/

/-- The process of a record. -/
def PidRecord.pid : PidRecord → ℕ
  | .execve2 p _ => p
  | .mem p _ => p
  | .lexit p => p
  | .exit p => p

variable {stat : ProcStat} {st : PidState} {pid : ℕ}

/-- MEM for a process with an entry in `/proc`, LEXIT for another one. -/
def sweepRecord (stat : ProcStat) (pid : ℕ) : PidRecord :=
  match stat pid with
  | some rss => .mem pid rss
  | none => .lexit pid

theorem sweepRecord_pid (stat : ProcStat) (pid : ℕ) : (sweepRecord stat pid).pid = pid := by
  unfold sweepRecord
  cases stat pid <;> rfl

/-- The entries that a sweep of at most `n` rounds looks at. -/
def swept (stat : ProcStat) : ℕ → List ℕ → List ℕ
  | 0, _ => []
  | _, [] => []
  | n + 1, pid :: rest => pid :: swept stat n (if stat pid = none then rest.dropLast else rest)

/-- How many of these processes are gone. -/
def goneCount (stat : ProcStat) (pids : List ℕ) : ℕ := pids.countP fun pid => (stat pid).isNone

/-- **The records of a sweep are those of the entries that it looks at.** -/
theorem sweepLoop_log {n i : ℕ} (st : PidState) : (sweepLoop stat n i st).log =
    st.log ++ (swept stat n (st.pv.drop i)).map (sweepRecord stat) := by
  induction n generalizing i st with
  | zero => simp [sweepLoop, swept]
  | succ n ih =>
    unfold sweepLoop
    cases hi : st.pv[i]? with
    | none =>
      rw [List.drop_of_length_le (List.getElem?_eq_none_iff.1 hi)]
      simp [swept]
    | some q =>
      obtain ⟨hlt, hq⟩ := List.getElem?_eq_some_iff.1 hi
      have hdrop : st.pv.drop i = q :: st.pv.drop (i + 1) := by rw [List.drop_eq_getElem_cons hlt, hq]
      rw [hdrop, swept, List.map_cons]
      simp only
      cases hstat : stat q with
      | none =>
        simp only
        rw [ih, drop_swapRemove hlt, if_pos trivial]
        simp [sweepRecord, hstat]
      | some rss =>
        simp only
        rw [ih, if_neg (by simp)]
        simp [sweepRecord, hstat]

/-- A list is cut where a sweep stops: what is behind fills the holes in front, and did not do so
one entry earlier. -/
structure SweptTo (stat : ProcStat) (front rest : List ℕ) : Prop where
  before : goneCount stat front.dropLast ≤ rest.length
  filled : rest.length ≤ goneCount stat front

theorem goneCount_cons (stat : ProcStat) (p : ℕ) (l : List ℕ) :
    goneCount stat (p :: l) = goneCount stat l + if stat p = none then 1 else 0 := by
  unfold goneCount
  rw [List.countP_cons]
  simp

theorem SweptTo.cons_none {front rest : List ℕ} {last : ℕ} (h : SweptTo stat front rest)
    (hp : stat pid = none) : SweptTo stat (pid :: front) (rest ++ [last]) := by
  have hfront := goneCount_cons stat pid front
  rw [if_pos hp] at hfront
  refine ⟨?_, ?_⟩
  · cases front with
    | nil => exact Nat.zero_le _
    | cons q front =>
      rw [List.dropLast_cons_cons, goneCount_cons, if_pos hp, List.length_append, List.length_singleton]
      exact Nat.add_le_add_right h.before 1
  · have hfilled := h.filled
    rw [List.length_append, List.length_singleton]
    omega

theorem SweptTo.cons_some {front rest : List ℕ} (h : SweptTo stat front rest) (hp : stat pid ≠ none) :
    SweptTo stat (pid :: front) rest := by
  have hfront := goneCount_cons stat pid front
  rw [if_neg hp] at hfront
  refine ⟨?_, ?_⟩
  · cases front with
    | nil => exact Nat.zero_le _
    | cons q front =>
      rw [List.dropLast_cons_cons, goneCount_cons, if_neg hp]
      exact h.before
  · have hfilled := h.filled
    omega

/-- A sweep looks at the entries in front of such a cut. -/
theorem exists_sweptTo (stat : ProcStat) {n : ℕ} {l : List ℕ} (hn : l.length ≤ n) :
    ∃ rest, l = swept stat n l ++ rest ∧ SweptTo stat (swept stat n l) rest := by
  induction n generalizing l with
  | zero =>
    obtain rfl := List.length_eq_zero_iff.1 (Nat.le_zero.1 hn)
    exact ⟨[], rfl, Nat.le_refl 0, Nat.le_refl 0⟩
  | succ n ih =>
    cases l with
    | nil => exact ⟨[], rfl, Nat.le_refl 0, Nat.le_refl 0⟩
    | cons p l =>
      rw [List.length_cons] at hn
      rw [swept]
      by_cases hp : stat p = none
      · rw [if_pos hp]
        obtain ⟨rest, hl, hcut⟩ := ih (by rw [List.length_dropLast]; omega : l.dropLast.length ≤ n)
        -- the last entry goes to the place of `p`
        rcases List.eq_nil_or_concat' l with rfl | ⟨l', last, rfl⟩
        · have hnil : swept stat n ([] : List ℕ) = [] := by cases n <;> rfl
          rw [List.dropLast_nil, hnil]
          exact ⟨[], rfl, Nat.zero_le _, Nat.zero_le _⟩
        · rw [List.dropLast_concat] at hl hcut ⊢
          refine ⟨rest ++ [last], ?_, hcut.cons_none hp⟩
          rw [List.cons_append, ← List.append_assoc, ← hl]
      · rw [if_neg hp]
        obtain ⟨rest, hl, hcut⟩ := ih (by omega : l.length ≤ n)
        exact ⟨rest, by rw [List.cons_append, ← hl], hcut.cons_some hp⟩

theorem goneCount_le_of_prefix (stat : ProcStat) {l l' : List ℕ} (h : l <+: l') :
    goneCount stat l ≤ goneCount stat l' :=
  h.sublist.countP_le

/-- There is only one such cut. -/
theorem SweptTo.unique {front rest front' rest' : List ℕ} (h : SweptTo stat front rest)
    (h' : SweptTo stat front' rest') (heq : front ++ rest = front' ++ rest') : front = front' := by
  -- of two cuts the later one would come too late
  have hlate : ∀ {f r f' r' : List ℕ}, SweptTo stat f r → SweptTo stat f' r' → ∀ {more : List ℕ},
      f' = f ++ more → r = more ++ r' → more = [] := by
    intro f r f' r' hcut hcut' more hf hr
    by_contra hmore
    have hprefix : f <+: f'.dropLast := by
      rw [hf, List.dropLast_append_of_ne_nil hmore]
      exact List.prefix_append f more.dropLast
    have hle := goneCount_le_of_prefix stat hprefix
    have hlen : r.length = more.length + r'.length := by rw [hr, List.length_append]
    have hpos := List.length_pos_iff.2 hmore
    have hbefore := hcut'.before
    have hfilled := hcut.filled
    omega
  obtain ⟨more, hf, hr⟩ | ⟨more, hf, hr⟩ := List.append_eq_append_iff.1 heq
  · rw [hf, hlate h h' hf hr, List.append_nil]
  · rw [hf, hlate h' h hf hr, List.append_nil]

/-- **Where a sweep stops.** -/
theorem swept_iff {pv front : List ℕ} :
    swept stat pv.length pv = front ↔ ∃ rest, pv = front ++ rest ∧ SweptTo stat front rest := by
  obtain ⟨rest₀, hpv, hcut₀⟩ := exists_sweptTo stat (Nat.le_refl pv.length)
  constructor
  · rintro rfl
    exact ⟨rest₀, hpv, hcut₀⟩
  · rintro ⟨rest, hsplit, hcut⟩
    exact hcut₀.unique hcut (hpv.symm.trans hsplit)

/-! ## Coverage -/

/-- **A sweep covers every process once**: it writes one record for each process of the list, and
that is the right one; those that are gone are taken out. -/
def SweepCovers (stat : ProcStat) (st : PidState) : Prop :=
  ∃ records, (printCurrProv stat st).log = st.log ++ records ∧ ∀ pid ∈ st.pv,
    records.filter (fun r => r.pid == pid) = [sweepRecord stat pid] ∧
      (stat pid = none → pid ∉ (printCurrProv stat st).pv)

theorem sweepRecord_injective (stat : ProcStat) : Function.Injective (sweepRecord stat) := by
  intro p q h
  rw [← sweepRecord_pid stat p, h, sweepRecord_pid]

/-- The records about a process are those of its entries. -/
theorem filter_records (front : List ℕ) (pid : ℕ) :
    (front.map (sweepRecord stat)).filter (fun r => r.pid == pid) =
      List.replicate (front.count pid) (sweepRecord stat pid) := by
  have hpred : (fun r : PidRecord => r.pid == pid) ∘ sweepRecord stat = (· == pid) := by
    funext p
    rw [Function.comp_apply, sweepRecord_pid]
  rw [List.filter_map, hpred, List.filter_beq, List.map_replicate]

/-- What is left of a process that is gone are the entries that the sweep did not look at. -/
theorem count_printCurrProv {front rest : List ℕ} (hpv : st.pv = front ++ rest) (hcut : SweptTo stat front rest)
    (hpid : stat pid = none) : (printCurrProv stat st).pv.count pid = rest.count pid := by
  obtain ⟨records, hlog, -, -, hcount⟩ := sweepLoop_count (n := st.pv.length) (i := 0) stat st pid
  have hswept : swept stat st.pv.length st.pv = front := swept_iff.2 ⟨rest, hpv, hcut⟩
  rw [sweepLoop_log, List.drop_zero, hswept] at hlog
  have hlexit : PidRecord.lexit pid = sweepRecord stat pid := by rw [sweepRecord, hpid]
  rw [← List.append_cancel_left hlog, hlexit, List.count_map_of_injective _ _ (sweepRecord_injective stat), hpv,
    List.count_append, ← hpv] at hcount
  change (sweepLoop stat st.pv.length 0 st).pv.count pid = rest.count pid
  omega

theorem sweepCovers_iff_of_cut {front rest : List ℕ} (hpv : st.pv = front ++ rest) (hcut : SweptTo stat front rest) :
    SweepCovers stat st ↔ front.Nodup ∧ ∀ p ∈ rest, p ∈ front ∧ stat p ≠ none := by
  have hlog : (printCurrProv stat st).log = st.log ++ front.map (sweepRecord stat) := by
    have hswept : swept stat st.pv.length st.pv = front := swept_iff.2 ⟨rest, hpv, hcut⟩
    rw [printCurrProv, sweepLoop_log, List.drop_zero, hswept]
  constructor
  · rintro ⟨records, hlog', hcovers⟩
    obtain rfl := List.append_cancel_left (hlog.symm.trans hlog')
    have hone : ∀ p ∈ st.pv, front.count p = 1 := by
      intro p hp
      have hrecords := congrArg List.length (hcovers p hp).1
      rwa [filter_records, List.length_replicate, List.length_singleton] at hrecords
    refine ⟨List.nodup_iff_count_le_one.2 fun p => ?_, fun p hp => ⟨?_, fun hgone => ?_⟩⟩
    · by_cases hp : p ∈ front
      · exact (hone p (hpv ▸ List.mem_append_left rest hp)).le
      · rw [List.count_eq_zero.2 hp]
        exact Nat.zero_le 1
    · have hcount := hone p (hpv ▸ List.mem_append_right front hp)
      exact List.count_pos_iff.1 (by omega)
    · refine (hcovers p (hpv ▸ List.mem_append_right front hp)).2 hgone ?_
      rw [← List.count_pos_iff, count_printCurrProv hpv hcut hgone]
      exact List.count_pos_iff.2 hp
  · rintro ⟨hnodup, hrest⟩
    refine ⟨front.map (sweepRecord stat), hlog, fun p hp => ⟨?_, fun hgone hleft => ?_⟩⟩
    · have hfront : p ∈ front := by
        rw [hpv] at hp
        rcases List.mem_append.1 hp with hp | hp
        · exact hp
        · exact (hrest p hp).1
      rw [filter_records, List.count_eq_one_of_mem hnodup hfront]
      rfl
    · rw [← List.count_pos_iff, count_printCurrProv hpv hcut hgone] at hleft
      exact (hrest p (List.count_pos_iff.1 hleft)).2 hgone

/-- In a list without repetitions the sweep has to look at every entry. -/
theorem sweepCovers_iff_of_nodup (hnodup : st.pv.Nodup) :
    SweepCovers stat st ↔ ∀ p ∈ st.pv.dropLast, stat p ≠ none := by
  obtain ⟨rest, hpv, hcut⟩ := exists_sweptTo stat (Nat.le_refl st.pv.length)
  have hnone : ∀ l : List ℕ, goneCount stat l = 0 ↔ ∀ p ∈ l, stat p ≠ none := by
    intro l
    simp [goneCount, List.countP_eq_zero, Option.ne_none_iff_isSome]
  rw [sweepCovers_iff_of_cut hpv hcut]
  constructor
  · rintro ⟨-, hrest⟩
    -- nothing can stand behind the cut
    have hnil : rest = [] := by
      rw [List.eq_nil_iff_forall_not_mem]
      intro p hp
      rw [hpv] at hnodup
      exact (List.nodup_append.1 hnodup).2.2 p (hrest p hp).1 p hp rfl
    have hbefore := hcut.before
    rw [hnil, List.append_nil] at hpv
    rw [hnil, ← hpv] at hbefore
    exact (hnone _).1 (Nat.le_zero.1 hbefore)
  · intro hlive
    have hsplit : swept stat st.pv.length st.pv = st.pv :=
      swept_iff.2 ⟨[], (List.append_nil _).symm, ((hnone _).2 hlive).le, Nat.zero_le _⟩
    have hnil : rest = [] := by
      rw [hsplit] at hpv
      exact List.append_right_eq_self.1 hpv.symm
    rw [hsplit, hnil]
    exact ⟨hnodup, fun p hp => absurd hp List.not_mem_nil⟩

/-- **A sweep covers every process once exactly if what it does not look at is a second entry of a
live process**: the list is `front ++ rest`, `front` has no repetitions, its processes that are
gone leave as many holes as there are entries in `rest`, and those are live processes of `front`.
Where no process stands in the list twice this says that only the last one may be gone. -/
theorem sweep_covers_iff (stat : ProcStat) (st : PidState) :
    (SweepCovers stat st ↔ ∃ front rest, st.pv = front ++ rest ∧ SweptTo stat front rest ∧ front.Nodup ∧
      ∀ p ∈ rest, p ∈ front ∧ stat p ≠ none) ∧
    (st.pv.Nodup → (SweepCovers stat st ↔ ∀ p ∈ st.pv.dropLast, stat p ≠ none)) := by
  refine ⟨⟨fun h => ?_, ?_⟩, sweepCovers_iff_of_nodup⟩
  · obtain ⟨rest, hpv, hcut⟩ := exists_sweptTo stat (Nat.le_refl st.pv.length)
    exact ⟨_, rest, hpv, hcut, (sweepCovers_iff_of_cut hpv hcut).1 h⟩
  · rintro ⟨front, rest, hpv, hcut, hnodup, hrest⟩
    exact (sweepCovers_iff_of_cut hpv hcut).2 ⟨hnodup, hrest⟩

/-- Of two processes the first one is gone: the other one takes its place and is passed over. -/
theorem sweep_skips_moved :
    printCurrProv (fun p => if p = 7 then none else some 40) { pv := [7, 8] } = { pv := [8], log := [.lexit 7] } ∧
    ¬ SweepCovers (fun p => if p = 7 then none else some 40) { pv := [7, 8] } := by
  refine ⟨rfl, ?_⟩
  rintro ⟨records, hlog, hcovers⟩
  obtain rfl : [PidRecord.lexit 7] = records := hlog
  exact absurd (hcovers 8 (by decide)).1 (by decide)

end Ptu
