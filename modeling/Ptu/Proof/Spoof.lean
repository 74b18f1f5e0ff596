import Ptu.Proof.Symlink
import Ptu.Spec.Spoof

/-!
# Spoofed results and the caller's buffer

A traced program calls `readlink`, `readlinkat` or `getcwd` in exec mode with a buffer of some size,
the call succeeds, and the tracer may put another text into the buffer.

* `SpoofedCall.finish_ok`: what the handlers write, and the register they set.
* `spoofed_result_iff`: **the buffer and the return value are respected** if and only if the call is
  not spoofed, or the text fits into the buffer and, for `getcwd`, has the length of the text that the
  kernel has returned: only the handlers of links adjust the return register, and none of them looks
  at the size of the buffer.
-/

namespace Ptu

open Memory

variable {env : LinkEnv} {st st' : LinkStop} {text : CString}

/-- The calls whose results are spoofed. -/
inductive SpoofedCall where
  | readlink
  | readlinkat
  | getcwd
  deriving DecidableEq, Repr

namespace SpoofedCall

/-- The handler at the exit of the call. -/
def finish : SpoofedCall → LinkEnv → LinkStop → Except Fatal LinkStop
  | readlink => endReadlink
  | readlinkat => endReadlinkat
  | getcwd => endGetcwd

/-- The argument with the address of the buffer. -/
def buffer : SpoofedCall → Fin 6
  | readlink => argvArg
  | readlinkat => bufferArg
  | getcwd => fileArg

/-- The argument with the size of the buffer. -/
def sizeArg : SpoofedCall → Fin 6
  | readlink => bufferArg
  | readlinkat => fourthArg
  | getcwd => argvArg

/-- How a text is returned: only `getcwd` terminates and counts the NUL. -/
def result : SpoofedCall → CString → List Byte
  | getcwd, text => text ++ [0]
  | _, text => text

theorem result_of_ne {call : SpoofedCall} (h : call ≠ getcwd) (text : CString) : call.result text = text := by
  cases call with
  | readlink => rfl
  | readlinkat => rfl
  | getcwd => exact absurd rfl h

/-- The text that the handler of links returns in place of the target, if any. -/
def linkReplacement (env : LinkEnv) (input output : Fin 6) (st : LinkStop) : Except Fatal (Option CString) := do
  let some filename := env.strcpyFromChild st.child.mem (st.tcp.uArg input) | throw exitIf
  if let some program := perceivedExe env filename then return some program
  if filename = str "/proc/self/cwd" then
    let (sandboxedPwd, _) ← extractSandboxedPwd env.cde st.tcp.currentDir st.tcp.pIgnores st.effects
    return some sandboxedPwd
  return (st.returned output).bind (unmunged env)

/-- The text that the tracer returns in place of the kernel's one, if any. -/
def replacement : SpoofedCall → LinkEnv → LinkStop → Except Fatal (Option CString)
  | readlink, env, st => linkReplacement env fileArg argvArg st
  | readlinkat, env, st => linkReplacement env argvArg bufferArg st
  | getcwd, env, st => do
    let (sandboxedPwd, _) ← extractSandboxedPwd env.cde st.tcp.currentDir st.tcp.pIgnores st.effects
    return some sandboxedPwd

variable {call : SpoofedCall}

/-! ## What the handlers do -/

/-- What has become of a process when the text `r` is returned in place of the kernel's one. -/
structure Replaced (call : SpoofedCall) (env : LinkEnv) (st st' : LinkStop) (r : Option CString) : Prop where
  kept : r = none → st'.child = st.child
  mem : ∀ text, r = some text →
    st'.child.mem = memcpyToChild env.beyond st.child.mem (st.tcp.uArg call.buffer) (text ++ [0])
  rax : ∀ text, r = some text → call ≠ getcwd → st'.child.regs .rax = BitVec.ofNat 64 text.length
  rax_getcwd : call = getcwd → st'.child.regs .rax = st.child.regs .rax

theorem Replaced.of_fakeResult {e : Effects} (hcall : call ≠ getcwd)
    (h : fakeResult env call.buffer text { st with effects := e } = .ok st') :
    Replaced call env st st' (some text) := by
  obtain ⟨mem, hcopy, h⟩ := bind_eq_ok.1 h
  obtain rfl := Except.ok.inj h
  exact {
    kept := fun hnone => by cases hnone
    mem := by
      intro _ htext
      obtain rfl := Option.some.inj htext
      exact memcpyToChildOrExit_ok hcopy
    rax := by
      intro _ htext _
      obtain rfl := Option.some.inj htext
      exact Regs.set_self st.child.regs .rax _
    rax_getcwd := fun hgetcwd => absurd hgetcwd hcall }

theorem Replaced.of_eq (hcall : call ≠ getcwd) (h : st' = st) : Replaced call env st st' none where
  kept _ := by rw [h]
  mem _ hnone := by cases hnone
  rax _ hnone := by cases hnone
  rax_getcwd hgetcwd := absurd hgetcwd hcall

theorem endReadlinkInternal_ok (call : SpoofedCall) (hexec : env.cde.execMode = true) (hrval : 0 ≤ st.uRval)
    (hcall : call ≠ getcwd) {input : Fin 6} (h : endReadlinkInternal env input call.buffer st = .ok st') :
    ∃ r, linkReplacement env input call.buffer st = .ok r ∧ Replaced call env st st' r := by
  unfold endReadlinkInternal at h
  unfold linkReplacement
  cases hname : env.strcpyFromChild st.child.mem (st.tcp.uArg input) with
  | none =>
    rw [hname] at h
    cases h
  | some filename =>
    simp only [hname, hexec, Bool.not_true, Bool.false_eq_true, if_false, if_neg (Int.not_lt.2 hrval)] at h
    cases hexe : perceivedExe env filename with
    | some program =>
      simp only [hexe] at h ⊢
      exact ⟨_, rfl, .of_fakeResult hcall h⟩
    | none =>
      simp only [hexe] at h ⊢
      by_cases hcwd : filename = str "/proc/self/cwd"
      · simp only [if_pos hcwd] at h ⊢
        obtain ⟨⟨pwd, e⟩, hextract, h⟩ := bind_eq_ok.1 h
        rw [hextract]
        exact ⟨_, rfl, .of_fakeResult hcall h⟩
      · simp only [if_neg hcwd] at h ⊢
        refine ⟨_, rfl, ?_⟩
        cases htarget : st.returned call.buffer with
        | none =>
          simp only [htarget] at h
          exact .of_eq hcall (Except.ok.inj h).symm
        | some target =>
          simp only [htarget] at h
          rw [Option.bind_some]
          cases hun : unmunged env target with
          | none =>
            simp only [hun] at h
            exact .of_eq hcall (Except.ok.inj h).symm
          | some suffix =>
            simp only [hun] at h
            exact .of_fakeResult hcall h

/-- **What a handler does to the process.** -/
theorem finish_ok (hexec : env.cde.execMode = true) (hrval : 0 ≤ st.uRval) (h : call.finish env st = .ok st') :
    ∃ r, call.replacement env st = .ok r ∧ Replaced call env st st' r := by
  cases call with
  | readlink => exact endReadlinkInternal_ok readlink hexec hrval (by decide) h
  | readlinkat => exact endReadlinkInternal_ok readlinkat hexec hrval (by decide) h
  | getcwd =>
    unfold finish endGetcwd at h
    simp only [if_neg (Int.not_lt.2 hrval), hexec, if_true] at h
    obtain ⟨⟨pwd, e⟩, hextract, h⟩ := bind_eq_ok.1 h
    obtain ⟨mem, hcopy, h⟩ := bind_eq_ok.1 h
    obtain rfl := Except.ok.inj h
    refine ⟨some pwd, bind_eq_ok.2 ⟨_, hextract, rfl⟩, ?_⟩
    exact {
      kept := fun hnone => by cases hnone
      mem := by
        intro _ htext
        obtain rfl := Option.some.inj htext
        exact memcpyToChildOrExit_ok hcopy
      rax := fun _ _ hne => absurd rfl hne
      rax_getcwd := fun _ => rfl }

/-! ## The texts -/

/-- The tracer has C strings for the program and the working directory. -/
structure Texts (env : LinkEnv) (st : LinkStop) : Prop where
  program : ∀ s, env.perceivedProgramFullpath = some s → 0 ∉ s ∧ s.length < 2 ^ 31
  currentDir : 0 ∉ st.tcp.currentDir ∧ st.tcp.currentDir.length < 2 ^ 31

/-- The kernel has returned the text `target`. -/
structure Succeeded (call : SpoofedCall) (st : LinkStop) (target : CString) : Prop where
  rval : 0 ≤ st.uRval
  nul : 0 ∉ target
  length : target.length < 2 ^ 31
  buffer : Holds st.child.mem (st.tcp.uArg call.buffer) (call.result target)
  rax : (st.child.regs .rax).toNat = (call.result target).length
  fits : (call.result target).length ≤ (st.tcp.uArg call.sizeArg).toNat

variable {target : CString}

theorem extract_text (htexts : Texts env st) {e e' : Effects} {pwd : CString}
    (h : extractSandboxedPwd env.cde st.tcp.currentDir st.tcp.pIgnores e = .ok (pwd, e')) :
    0 ∉ pwd ∧ pwd.length < 2 ^ 31 := by
  obtain ⟨hnul, hlen⟩ := htexts.currentDir
  rcases extract_isSuffix h with hsuf | rfl
  · exact ⟨fun hmem => hnul (hsuf.subset hmem), Nat.lt_of_le_of_lt hsuf.length_le hlen⟩
  · exact ⟨by decide, by decide⟩

theorem linkReplacement_text (htexts : Texts env st) {input output : Fin 6} (hnul : 0 ∉ target)
    (hlen : target.length < 2 ^ 31) (htarget : st.returned output = some target)
    (h : linkReplacement env input output st = .ok (some text)) : 0 ∉ text ∧ text.length < 2 ^ 31 := by
  unfold linkReplacement at h
  cases hname : env.strcpyFromChild st.child.mem (st.tcp.uArg input) with
  | none =>
    rw [hname] at h
    cases h
  | some filename =>
    simp only [hname] at h
    cases hexe : perceivedExe env filename with
    | some program =>
      simp only [hexe] at h
      obtain rfl := Option.some.inj (Except.ok.inj h)
      exact htexts.program program (perceivedExe_eq_some hexe)
    | none =>
      simp only [hexe] at h
      split_ifs at h
      · obtain ⟨⟨pwd, e⟩, hextract, h⟩ := bind_eq_ok.1 h
        obtain rfl := Option.some.inj (Except.ok.inj h)
        exact extract_text htexts hextract
      · rw [htarget] at h
        have hsuf := (unmunged_isSuffix (Except.ok.inj h)).1
        exact ⟨fun hmem => hnul (hsuf.subset hmem), Nat.lt_of_le_of_lt hsuf.length_le hlen⟩

theorem replacement_text (htexts : Texts env st) (hcall : call.Succeeded st target)
    (h : call.replacement env st = .ok (some text)) : 0 ∉ text ∧ text.length < 2 ^ 31 := by
  have hreturned : call ≠ getcwd → st.returned call.buffer = some target := by
    intro hne
    have hbuffer := hcall.buffer.load
    rw [← hcall.rax, result_of_ne hne] at hbuffer
    exact hbuffer
  cases call with
  | readlink => exact linkReplacement_text htexts hcall.nul hcall.length (hreturned (by decide)) h
  | readlinkat => exact linkReplacement_text htexts hcall.nul hcall.length (hreturned (by decide)) h
  | getcwd =>
    obtain ⟨⟨pwd, e⟩, hextract, h⟩ := bind_eq_ok.1 h
    obtain rfl := Option.some.inj (Except.ok.inj h)
    exact extract_text htexts hextract

/-! ## The buffer -/

/-- **The buffer and the return value are respected**: nothing changes outside of the buffer, and the
return register is the length of the text that is now in it. -/
structure Respected (call : SpoofedCall) (st st' : LinkStop) : Prop where
  frame : ∀ x, (st.tcp.uArg call.sizeArg).toNat ≤ (x - st.tcp.uArg call.buffer).toNat →
    st'.child.mem x = st.child.mem x
  text : ∃ text, 0 ∉ text ∧ Holds st'.child.mem (st.tcp.uArg call.buffer) (call.result text) ∧
    (st'.child.regs .rax).toNat = (call.result text).length ∧
    (call.result text).length ≤ (st.tcp.uArg call.sizeArg).toNat

/-- **When a text can be put into the buffer**: it is as long as the kernel's one if the return
register stays as it is, it fits, and what the copy writes beyond the buffer stands there already. -/
structure Fits (call : SpoofedCall) (env : LinkEnv) (st : LinkStop) (text : CString) : Prop where
  length : call = getcwd → (st.child.regs .rax).toNat = text.length + 1
  size : (call.result text).length ≤ (st.tcp.uArg call.sizeArg).toNat
  beyond : Holds st.child.mem (st.tcp.uArg call.buffer + st.tcp.uArg call.sizeArg)
    ((text ++ [0] ++ spill env.beyond (text.length + 1)).drop (st.tcp.uArg call.sizeArg).toNat)

theorem Replaced.frame_iff (h : call.Replaced env st st' (some text)) (hlen : text.length < 2 ^ 31) :
    (∀ x, (st.tcp.uArg call.sizeArg).toNat ≤ (x - st.tcp.uArg call.buffer).toNat →
        st'.child.mem x = st.child.mem x) ↔
      Holds st.child.mem (st.tcp.uArg call.buffer + st.tcp.uArg call.sizeArg)
        ((text ++ [0] ++ spill env.beyond (text.length + 1)).drop (st.tcp.uArg call.sizeArg).toNat) := by
  have hspill := spill_length_le env.beyond (text.length + 1)
  have hlen0 : (text ++ [0]).length = text.length + 1 := by simp
  have hframe := store_frame_iff st.child.mem (st.tcp.uArg call.buffer)
    (text ++ [0] ++ spill env.beyond (text.length + 1)) 0 (st.tcp.uArg call.sizeArg).toNat
    (by rw [List.length_append]; omega)
  rw [BitVec.add_zero, Nat.sub_zero, Nat.zero_add, BitVec.ofNat_toNat, BitVec.setWidth_eq] at hframe
  rw [h.mem text rfl, memcpyToChild_eq _ _ _ _ (by omega), hlen0]
  exact hframe

theorem Replaced.text_iff (h : call.Replaced env st st' (some text)) (hnul : 0 ∉ text)
    (hlen : text.length < 2 ^ 31) :
    (∃ s, 0 ∉ s ∧ Holds st'.child.mem (st.tcp.uArg call.buffer) (call.result s) ∧
        (st'.child.regs .rax).toNat = (call.result s).length ∧
        (call.result s).length ≤ (st.tcp.uArg call.sizeArg).toNat) ↔
      (call = getcwd → (st.child.regs .rax).toNat = text.length + 1) ∧
        (call.result text).length ≤ (st.tcp.uArg call.sizeArg).toNat := by
  have hmem : Holds st'.child.mem (st.tcp.uArg call.buffer) (text ++ [0]) := by
    rw [h.mem text rfl]
    exact holds_memcpyToChild _ _ _ _ (by simp; omega)
  -- a handler of links sets the return register
  have hlink : call ≠ getcwd → (st'.child.regs .rax).toNat = text.length := by
    intro hne
    rw [h.rax text rfl hne, BitVec.toNat_ofNat, Nat.mod_eq_of_lt (by omega)]
  by_cases hcall : call = getcwd
  · rw [h.rax_getcwd hcall]
    subst hcall
    constructor
    · rintro ⟨s, hs, hholds, hrax, hsize⟩
      obtain rfl := text_unique hs hnul hholds hmem
      exact ⟨fun _ => hrax.trans (by simp [result]), hsize⟩
    · rintro ⟨hrax, hsize⟩
      exact ⟨text, hnul, hmem, (hrax rfl).trans (by simp [result]), hsize⟩
  · simp only [result_of_ne hcall, hlink hcall]
    constructor
    · rintro ⟨s, -, -, hrax, hsize⟩
      exact ⟨fun hc => absurd hc hcall, by omega⟩
    · rintro ⟨-, hsize⟩
      exact ⟨text, hnul, (holds_append.1 hmem).1, rfl, hsize⟩

end SpoofedCall

/-- **A spoofed result respects the buffer and the return value** if and only if the text that is
returned can be put into the buffer. -/
theorem spoofed_result_iff {call : SpoofedCall} {target : CString} (hexec : env.cde.execMode = true)
    (htexts : SpoofedCall.Texts env st) (hcall : call.Succeeded st target)
    (h : call.finish env st = .ok st') :
    call.Respected st st' ↔ ∀ text, call.replacement env st = .ok (some text) → call.Fits env st text := by
  obtain ⟨r, hr, hreplaced⟩ := SpoofedCall.finish_ok hexec hcall.rval h
  cases r with
  | none =>
    have hchild := hreplaced.kept rfl
    refine iff_of_true ⟨fun x _ => by rw [hchild], target, hcall.nul, ?_, ?_, hcall.fits⟩ ?_
    · rw [hchild]
      exact hcall.buffer
    · rw [hchild]
      exact hcall.rax
    · intro text htext
      rw [hr] at htext
      cases htext
  | some text =>
    obtain ⟨hnul, hlen⟩ := SpoofedCall.replacement_text htexts hcall hr
    have hframe := hreplaced.frame_iff hlen
    have htext := hreplaced.text_iff hnul hlen
    constructor
    · rintro ⟨hf, ht⟩ text' htext'
      rw [hr] at htext'
      obtain rfl := Option.some.inj (Except.ok.inj htext')
      obtain ⟨hrax, hsize⟩ := htext.1 ht
      exact ⟨hrax, hsize, hframe.1 hf⟩
    · intro hfits
      obtain ⟨hrax, hsize, hbeyond⟩ := hfits text hr
      exact ⟨hframe.2 hbeyond, htext.2 ⟨hrax, hsize⟩⟩

/-! ## A program below `/home/bob` of a package -/

def pythonLinks : LinkEnv where
  cde := optReplay
  personality := .native
  strcpyFromChild := readString 4096
  pid := 4711
  perceivedProgramFullpath := some (str "/usr/bin/python")
  lstat _ := false
  beyond := [1, 2, 3, 4]

/-- A call with the path `filename` and a buffer of `size` bytes, in which the kernel has put `result`. -/
def spoofedStop (b : Fin 6) (size : Word) (filename result : List Byte) : LinkStop where
  tcp := {
    uArg := fun i => if i = b then 0x20000 else if i = fileArg then 0x2000 else size
    currentDir := str "/opt/cde-package/cde-root/home/bob" }
  child := {
    regs := fun _ => BitVec.ofNat 64 result.length
    mem := (zeros.store 0x2000 (filename ++ [0])).store 0x20000 result }
  uRval := result.length

theorem pythonLinks_texts (b : Fin 6) (size : Word) (filename result : List Byte) :
    SpoofedCall.Texts pythonLinks (spoofedStop b size filename result) where
  program s hs := by
    obtain rfl := Option.some.inj hs
    exact ⟨by decide, by decide⟩
  currentDir := ⟨by show 0 ∉ str _; decide, by show (str _).length < _; decide⟩

/-- With a large buffer, `/proc/self/exe` is answered as it should be. -/
theorem readlink_exe_respected :
    ∃ st', fakeResult pythonLinks argvArg (str "/usr/bin/python")
        (spoofedStop argvArg 4096 (str "/proc/self/exe") (str "/opt")) = .ok st' ∧
      SpoofedCall.readlink.Respected (spoofedStop argvArg 4096 (str "/proc/self/exe") (str "/opt")) st' := by
  have hcall : SpoofedCall.readlink.Succeeded (spoofedStop argvArg 4096 (str "/proc/self/exe") (str "/opt"))
      (str "/opt") := ⟨by decide, by decide, by decide, holds_store _ _ (by decide), by decide, by decide⟩
  have hexec : pythonLinks.cde.execMode = true := rfl
  obtain ⟨st', hst'⟩ : ∃ st', fakeResult pythonLinks argvArg (str "/usr/bin/python")
      (spoofedStop argvArg 4096 (str "/proc/self/exe") (str "/opt")) = .ok st' :=
    fakeResult_total _ fun i _ => store_ne_none _ _ (store_ne_none _ _ (by simp [zeros]))
  refine ⟨st', hst', (spoofed_result_iff hexec (pythonLinks_texts _ _ _ _) hcall hst').2 fun text htext => ?_⟩
  obtain rfl : str "/usr/bin/python" = text := Option.some.inj (Except.ok.inj htext)
  refine ⟨fun hc => absurd hc (by decide), by decide, ?_⟩
  rw [List.drop_eq_nil_of_le (by decide)]
  exact holds_nil _ _

/-- **A buffer of four bytes is overrun**, and `getcwd` returns the length of the host's path for a
text that is shorter. -/
theorem spoofed_result_broken :
    (SpoofedCall.readlink.Succeeded (spoofedStop argvArg 4 (str "/proc/self/exe") (str "/opt")) (str "/opt") ∧
      zeros 0x20004 = some 0 ∧
      (SpoofedCall.readlink.finish pythonLinks (spoofedStop argvArg 4 (str "/proc/self/exe") (str "/opt"))).map
        (fun st' => (st'.child.mem 0x20004, st'.child.regs .rax)) = .ok (some 47, 15)) ∧
    (SpoofedCall.getcwd.Succeeded
        (spoofedStop fileArg 4096 [] (str "/opt/cde-package/cde-root/home/bob" ++ [0]))
        (str "/opt/cde-package/cde-root/home/bob") ∧
      (SpoofedCall.getcwd.finish pythonLinks
          (spoofedStop fileArg 4096 [] (str "/opt/cde-package/cde-root/home/bob" ++ [0]))).map
        (fun st' => (st'.child.mem.load 0x20000 10, st'.child.regs .rax)) =
          .ok (some (str "/home/bob" ++ [0]), 35)) := by
  refine ⟨⟨?_, rfl, ?_⟩, ?_, ?_⟩
  · exact ⟨by decide, by decide, by decide, holds_store _ _ (by decide), by decide, by decide⟩
  · rfl
  · exact ⟨by decide, by decide, by decide, holds_store _ _ (by decide), by decide, by decide⟩
  · rfl

end Ptu
