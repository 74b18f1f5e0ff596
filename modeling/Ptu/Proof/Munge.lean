import Ptu.Proof.Okapi
import Ptu.Proof.Symlink

/-!
# Munged links are read back

okapi writes a link to an absolute path as `./../..//path` into the package
(`relativeSymlinkTarget`), and `CDE_end_readlink_internal` cuts such a text at its first `//`.

* `munged_munge`: no `//` stands before the one in front of the path.
* `munge_unmunge_iff`: **a program reads the original target**, for every directory and every
  target whose text fits into the buffer of okapi.
-/

namespace Ptu

open Pathname

variable {dir : List CString} {t x buf : CString} {env : LinkEnv} {st : LinkStop}

/-! ## The first `//` -/

/-- **No `//` stands before the one in front of the path.** -/
theorem find_slashes (n : ℕ) (u : CString) :
    (slash :: (dotdots n ++ slash :: u)).tails.find? (startsWith · (str "//")) =
      some (slash :: slash :: u) := by
  induction n with
  | zero => rfl
  | succ n ih =>
    have hcons : dotdots (n + 1) ++ slash :: u = 46 :: 46 :: slash :: (dotdots n ++ slash :: u) := by
      simp [dotdots, List.replicate_succ, str, slash]
    -- a slash with a dot behind it, and two dots
    rw [hcons, List.tails_cons, List.find?_cons_of_neg (by simp [startsWith, str, slash]),
      List.tails_cons, List.find?_cons_of_neg (by simp [startsWith, str]),
      List.tails_cons, List.find?_cons_of_neg (by simp [startsWith, str])]
    exact ih

theorem munged_munge (dir : List CString) (ht : isAbspath t = true) : munged (munge dir t) = some t := by
  obtain ⟨u, rfl⟩ := isAbspath_iff.1 ht
  have htext : munge dir (slash :: u) = 46 :: slash :: (dotdots dir.length ++ slash :: u) := munge_abs dir ht
  have hstart : startsWith (munge dir (slash :: u)) (str "./") = true := by
    rw [htext]
    rfl
  unfold munged
  rw [if_pos hstart, htext, List.tails_cons, List.find?_cons_of_neg (by simp [startsWith, str]),
    find_slashes]
  rfl

/-! ## Reading the link -/

/-- A stop of `CDE_end_readlink_internal` after a call that has put `text` into the buffer, for a path
that is no special file of `/proc`. -/
structure Received (env : LinkEnv) (st : LinkStop) (input output : Fin 6) (text : CString) : Prop where
  exec : env.cde.execMode = true
  rval : 0 ≤ st.uRval
  path : ∃ l, env.strcpyFromChild st.child.mem (st.tcp.uArg input) = some l ∧ perceivedExe env l = none ∧
    l ≠ str "/proc/self/cwd"
  /-- the buffer and the eight bytes behind the text are mapped -/
  mapped : ∀ i < text.length + 8, st.child.mem (st.tcp.uArg output + BitVec.ofNat 64 i) ≠ none
  text : st.returned output = some text

/-- The program finds the un-munged text. -/
theorem Received.returned {input output : Fin 6} {text suffix : CString}
    (h : Received env st input output text) (hun : unmunged env text = some suffix)
    (hlen : text.length < maxPathLen) :
    ∃ st', endReadlinkInternal env input output st = .ok st' ∧ st'.returned output = some suffix := by
  obtain ⟨l, hl, hexe, hcwd⟩ := h.path
  have hshort := (unmunged_isSuffix hun).2
  have hmapped : ∀ i < suffix.length + 9, st.child.mem (st.tcp.uArg output + BitVec.ofNat 64 i) ≠ none :=
    fun i hi => h.mapped i (by omega)
  obtain ⟨st', hst'⟩ := fakeResult_total env hmapped
  refine ⟨st', ?_, returned_fakeResult (by omega) hst'⟩
  unfold endReadlinkInternal
  simp only [hl, h.exec, Bool.not_true, Bool.false_eq_true, if_false, if_neg (Int.not_lt.2 h.rval), hexe,
    if_neg hcwd, h.text, hun]
  exact hst'

/-- **Un-munging inverts munging.** The text that okapi writes for a link to `t` in a directory `dir`
is marked, and the program reads `t` again if it is there in the package, if and only if the text fits
into the buffer of okapi. -/
theorem munge_unmunge_iff (hdir : ValidPath dir) (ht : isAbspath t = true) :
    (∃ text, relativeSymlinkTarget [] (render dir) t = .ok text ∧ startsWith text (str "./") = true ∧
      strstr text (str "//") = true ∧
      ∀ (env : LinkEnv) (st : LinkStop) (input output : Fin 6), Received env st input output text →
        env.lstat (env.cde.cderootDir ++ t) = true →
          ∃ st', endReadlinkInternal env input output st = .ok st' ∧ st'.returned output = some t) ↔
    2 + 3 * dir.length + t.length < maxPathLen := by
  constructor
  · rintro ⟨text, hok, -⟩
    exact ((relativeSymlinkTarget_render hdir ht).1 hok).2
  · intro hfits
    have hok := (relativeSymlinkTarget_render hdir ht).2 ⟨rfl, hfits⟩
    have hlen : (munge dir t).length < maxPathLen := by
      have hdot : (str "./").length = 2 := rfl
      rwa [munge_abs dir ht, List.length_append, List.length_append, length_dotdots, hdot]
    have hmunged := munged_munge dir ht
    refine ⟨munge dir t, hok, ?_, ?_, ?_⟩
    · rw [munge_abs dir ht, List.append_assoc]
      exact List.isPrefixOf_iff_prefix.2 (List.prefix_append _ _)
    · unfold munged at hmunged
      split_ifs at hmunged
      obtain ⟨rest, hfind, -⟩ := Option.map_eq_some_iff.1 hmunged
      unfold strstr
      rw [List.any_eq_true]
      exact ⟨rest, List.mem_of_find?_eq_some hfind, List.find?_some hfind⟩
    · intro env st input output hreceived hexists
      apply hreceived.returned ?_ hlen
      unfold unmunged
      rw [hmunged]
      exact Option.filter_eq_some_iff.2 ⟨rfl, hexists⟩

/-- A link in `/usr/bin` to a library. -/
theorem munge_unmunge_lib :
    ∃ text, relativeSymlinkTarget [] (render [str "usr", str "bin"]) (str "/lib/c") = .ok text ∧
      startsWith text (str "./") = true ∧ strstr text (str "//") = true ∧
      ∀ (env : LinkEnv) (st : LinkStop) (input output : Fin 6), Received env st input output text →
        env.lstat (env.cde.cderootDir ++ str "/lib/c") = true →
          ∃ st', endReadlinkInternal env input output st = .ok st' ∧ st'.returned output = some (str "/lib/c") :=
  (munge_unmunge_iff (by decide) rfl).2 (by decide)

/-- A link in the root directory with a target of 4094 bytes, one less than the kernel allows: the NUL
behind the text is written over the end of the buffer. -/
theorem munge_overflow :
    relativeSymlinkTarget [] (render []) (slash :: List.replicate 4093 97) = .error .segv := by
  have hlen : (slash :: List.replicate 4093 97).length = 4094 := by
    rw [List.length_cons, List.length_replicate]
  have habs : isAbspath (slash :: List.replicate 4093 97) = true := rfl
  generalize slash :: List.replicate 4093 97 = t at hlen habs
  have hlong : strcat (str "./") t = .error .segv := by
    have htwo : (str "./").length = 2 := rfl
    unfold strcat maxPathLen
    rw [List.length_append, hlen, htwo, if_neg (by omega)]
  unfold relativeSymlinkTarget newPathFromAbspath
  simp only [startsWith_nil, List.length_nil, List.drop_zero, isAbspath_render, Bool.not_true,
    Bool.false_eq_true, if_false, if_true, habs]
  show (strcat (str "./") t >>= fun buf =>
    if !startsWith buf (str "./") || !strstr buf (str "//") then _ else _) = _
  rw [hlong]
  rfl

end Ptu
