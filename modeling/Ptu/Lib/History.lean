import Mathlib.Data.List.Basic
import Mathlib.Data.List.Induction

/-!
# What happened last

A run is a list of events, the latest one at its end. `EachAfter R l`: every event is related to
the events before it. `LatestIs P Q l`: the last event of `l` that counts, by `Q`, is one of the
kind `P`. `Throughout P l`: `P` holds of the events up to any point.

* `eachAfter_cons`: one event more in front.
* `eachAfter_concat`, `latestIs_concat`, `throughout_concat`: one more event.
* `throughout_iff_eachAfter_of`: a state is right throughout a run exactly if every event is fit.
* `LatestIs.inter`: two accounts of the last event are about the same one.
-/

namespace History

variable {α : Type*} {P P' Q Q' : α → Prop} {l : List α} {a : α}

/-- Every event of `l` is in the relation `R` to the list of the earlier ones. -/
def EachAfter (R : List α → α → Prop) (l : List α) : Prop :=
  ∀ earlier a later, l = earlier ++ a :: later → R earlier a

theorem eachAfter_nil {R : List α → α → Prop} : EachAfter R [] := by
  intro earlier a later h
  simp at h

theorem eachAfter_cons {R : List α → α → Prop} :
    EachAfter R (a :: l) ↔ R [] a ∧ EachAfter (fun earlier => R (a :: earlier)) l := by
  constructor
  · intro h
    exact ⟨h [] a l rfl, fun earlier b later hl => h (a :: earlier) b later (by rw [hl]; rfl)⟩
  · rintro ⟨ha, hl⟩ earlier b later h
    cases earlier with
    | nil =>
      obtain ⟨rfl, -⟩ := List.cons.inj h
      exact ha
    | cons c earlier =>
      obtain ⟨rfl, hsplit⟩ := List.cons.inj h
      exact hl earlier b later hsplit

/-- One of the events is the last one, or stands in front of it. -/
theorem concat_eq_append_cons {earlier later : List α} {b : α} (h : l ++ [a] = earlier ++ b :: later) :
    (l = earlier ∧ a = b ∧ later = []) ∨ ∃ later', later = later' ++ [a] ∧ l = earlier ++ b :: later' := by
  rcases List.eq_nil_or_concat' later with rfl | ⟨later', c, rfl⟩
  · obtain ⟨hl, hab⟩ := List.append_inj' h rfl
    exact .inl ⟨hl, by simpa using hab, rfl⟩
  · have hsplit : l ++ [a] = (earlier ++ b :: later') ++ [c] := by simpa using h
    obtain ⟨hl, hac⟩ := List.append_inj' hsplit rfl
    obtain rfl : a = c := by simpa using hac
    exact .inr ⟨later', rfl, hl⟩

theorem eachAfter_concat {R : List α → α → Prop} : EachAfter R (l ++ [a]) ↔ EachAfter R l ∧ R l a := by
  constructor
  · intro h
    exact ⟨fun earlier b later hl => h earlier b (later ++ [a]) (by simp [hl]), h l a [] rfl⟩
  · rintro ⟨hl, ha⟩ earlier b later h
    rcases concat_eq_append_cons h with ⟨rfl, rfl, -⟩ | ⟨later', -, hsplit⟩
    · exact ha
    · exact hl earlier b later' hsplit

/-- `P` holds of the events up to any point of a run. -/
def Throughout (P : List α → Prop) (l : List α) : Prop := ∀ earlier, earlier <+: l → P earlier

theorem throughout_nil {P : List α → Prop} : Throughout P [] ↔ P [] := by
  constructor
  · intro h
    exact h [] (List.prefix_refl [])
  · intro h earlier hpre
    rw [List.prefix_nil.1 hpre]
    exact h

theorem throughout_concat {P : List α → Prop} : Throughout P (l ++ [a]) ↔ Throughout P l ∧ P (l ++ [a]) := by
  constructor
  · intro h
    exact ⟨fun earlier hpre => h earlier (hpre.trans (List.prefix_append l [a])), h _ (List.prefix_refl _)⟩
  · rintro ⟨hl, ha⟩ earlier hpre
    rcases List.prefix_concat_iff.1 hpre with rfl | hpre
    · exact ha
    · exact hl earlier hpre

/-- **A property of states, for every run** of events `H`: if the state is right at first, and one more
event keeps it right exactly if the event is fit, then it is right throughout exactly if every event is. -/
theorem throughout_iff_eachAfter_of {H : α → Prop} {P : List α → Prop} {R : List α → α → Prop} (hl : ∀ a ∈ l, H a)
    (hnil : P []) (hstep : ∀ l a, (∀ b ∈ l, H b) → H a → P l → (P (l ++ [a]) ↔ R l a)) :
    Throughout P l ↔ EachAfter R l := by
  induction l using List.reverseRecOn with
  | nil => exact iff_of_true (throughout_nil.2 hnil) eachAfter_nil
  | append_singleton l a ih =>
    have hlast : Throughout P l → P l := fun h => h l (List.prefix_refl l)
    have hbefore : ∀ b ∈ l, H b := fun b hb => hl b (List.mem_append_left _ hb)
    have ha : H a := hl a (by simp)
    rw [throughout_concat, eachAfter_concat, ih hbefore]
    constructor
    · rintro ⟨hfit, hnow⟩
      exact ⟨hfit, (hstep l a hbefore ha (hlast ((ih hbefore).2 hfit))).1 hnow⟩
    · rintro ⟨hfit, hnow⟩
      exact ⟨hfit, (hstep l a hbefore ha (hlast ((ih hbefore).2 hfit))).2 hnow⟩

/-- An event `P`, and behind it no event `Q`. -/
def LatestIs (P Q : α → Prop) (l : List α) : Prop :=
  ∃ earlier a later, l = earlier ++ a :: later ∧ P a ∧ ∀ x ∈ later, ¬ Q x

theorem not_latestIs_nil : ¬ LatestIs P Q ([] : List α) := by
  rintro ⟨earlier, a, later, h, -, -⟩
  simp at h

theorem latestIs_concat : LatestIs P Q (l ++ [a]) ↔ P a ∨ ¬ Q a ∧ LatestIs P Q l := by
  constructor
  · rintro ⟨earlier, b, later, h, hb, hlater⟩
    rcases concat_eq_append_cons h with ⟨-, rfl, -⟩ | ⟨later', rfl, hl⟩
    · exact .inl hb
    · exact .inr ⟨hlater a (by simp), earlier, b, later', hl, hb, fun x hx => hlater x (by simp [hx])⟩
  · rintro (ha | ⟨ha, earlier, b, later, rfl, hb, hlater⟩)
    · exact ⟨l, a, [], rfl, ha, by simp⟩
    · refine ⟨earlier, b, later ++ [a], by simp, hb, fun x hx => ?_⟩
      rcases List.mem_append.1 hx with hx | hx
      · exact hlater x hx
      · obtain rfl := List.mem_singleton.1 hx
        exact ha

/-- Events that count, but are not of the kind, come last. -/
theorem not_latestIs_append {m : List α} (hP : ∀ x ∈ m, ¬ P x) (hQ : ∃ x ∈ m, Q x) : ¬ LatestIs P Q (l ++ m) := by
  induction m using List.reverseRecOn with
  | nil =>
    obtain ⟨x, hx, -⟩ := hQ
    cases hx
  | append_singleton m b ih =>
    rw [← List.append_assoc, latestIs_concat]
    rintro (hb | ⟨hb, h⟩)
    · exact hP b (by simp) hb
    · refine ih (fun x hx => hP x (by simp [hx])) ?_ h
      obtain ⟨x, hx, hQx⟩ := hQ
      rcases List.mem_append.1 hx with hx | hx
      · exact ⟨x, hx, hQx⟩
      · obtain rfl := List.mem_singleton.1 hx
        exact absurd hQx hb

theorem LatestIs.imp (h : LatestIs P Q l) (hP : ∀ x, P x → P' x) : LatestIs P' Q l := by
  obtain ⟨earlier, a, later, hl, ha, hlater⟩ := h
  exact ⟨earlier, a, later, hl, hP a ha, hlater⟩

theorem LatestIs.exists_mem (h : LatestIs P Q l) : ∃ a ∈ l, P a := by
  obtain ⟨earlier, a, later, rfl, ha, -⟩ := h
  exact ⟨a, by simp, ha⟩

/-- If both kinds count for `Q`, and what counts for `Q` counts for `Q'`, then the last event for
`Q'` is the last one for `Q`. -/
theorem LatestIs.inter (h : LatestIs P Q l) (h' : LatestIs P' Q' l) (hP : ∀ x, P x → Q x)
    (hP' : ∀ x, P' x → Q x) (hQ : ∀ x, Q x → Q' x) : LatestIs (fun x => P x ∧ P' x) Q' l := by
  induction l using List.reverseRecOn with
  | nil => exact absurd h not_latestIs_nil
  | append_singleton l a ih =>
    rw [latestIs_concat] at h h' ⊢
    rcases h with ha | ⟨hna, h⟩
    · rcases h' with ha' | ⟨hna', -⟩
      · exact .inl ⟨ha, ha'⟩
      · exact absurd (hQ a (hP a ha)) hna'
    · rcases h' with ha' | ⟨hna', h'⟩
      · exact absurd (hP' a ha') hna
      · exact .inr ⟨hna', ih h h'⟩

end History
