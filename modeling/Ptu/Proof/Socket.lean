import Ptu.Proof.Args
import Ptu.Proof.Memcpy
import Ptu.Proof.Umove
import Ptu.Spec.Socket

/-!
# Redirected socket addresses

A traced program passes a Unix address to `bind` or `connect` in exec mode.

* `beginSocket_ok`: what the handler does to the process, by the path that it writes.
* `socket_address_iff`: **the address stays valid** if and only if no path is written, or the path and
  the rest of the last word fit into the bytes of the program and the new length is one that the kernel
  accepts. The handler checks neither of them.
-/

namespace Ptu

open Memory

variable {env : SocketEnv} {tcp : ShmTcb} {child child' : Child} {e e' : Effects} {path : CString}

/-- `sizeof(struct sockaddr_un)` -/
def sockaddrUnSize : ℕ := 110

/-- The path that is written into an address of the program, if any. -/
def socketPath (env : SocketEnv) (tcp : ShmTcb) (child : Child) (e : Effects) :
    Except Fatal (Option CString) := do
  if tcp.uArg argvArg = 0 then return none
  let some bytes := umoven child.mem (tcp.uArg argvArg) (addrlenRead (tcp.uArg bufferArg)) | return none
  if 2 < addrlenRead (tcp.uArg bufferArg) ∧ (addrbuf bytes)[2]? ≠ some 0 then
    let some originalPath := env.strcpyFromChild child.mem (tcp.uArg argvArg + 2) | throw exitIf
    let (redirectedPath, _) ←
      redirectFilenameIntoCderoot env.cde originalPath tcp.currentDir tcp.pIgnores e
    return redirectedPath
  else return none

/-- What has become of a process when the path `r` is written. -/
structure Rewritten (env : SocketEnv) (tcp : ShmTcb) (child child' : Child) (r : Option CString) : Prop where
  kept : r = none → child' = child
  path : ∀ path, r = some path →
    child' = { child with
      mem := memcpyToChild env.beyond child.mem (tcp.uArg argvArg + 2) (path ++ [0])
      regs := child.regs.set .rdx (BitVec.ofNat 64 (path.length + 2)) }

theorem Rewritten.of_eq (h : child' = child) : Rewritten env tcp child child' none :=
  ⟨fun _ => h, fun _ hnone => by cases hnone⟩

theorem two_le_addrlenRead (w : Word) : 2 ≤ addrlenRead w := by
  unfold addrlenRead addrbufSize
  split_ifs
  · omega
  · omega

/-- The tracer reads the family of the address. -/
theorem addrbuf_family (hmap : WordMapped child.mem) {addr : Word} {len : ℕ} (hlen : 2 ≤ len)
    (hunix : Holds child.mem addr afUnix) {bytes : List Byte} (h : umoven child.mem addr len = some bytes) :
    (addrbuf bytes).take 2 = afUnix := by
  have hmoved := moveBytes_spec hmap h
  have htwo : 2 ≤ bytes.length := by
    rcases hmoved.ended with hfull | ⟨u, hu, -⟩ | hend
    · omega
    · cases hu
    · by_contra hlt
      have hbyte := hunix bytes.length (by simp only [afUnix, List.length_cons, List.length_nil]; omega)
      rw [hend] at hbyte
      cases hbyte
  obtain ⟨rest, rfl⟩ := hunix.load_isPrefix hmoved.holds.load htwo
  rfl

/-- **What the handler does to the process.** -/
theorem beginSocket_ok (hexec : env.cde.execMode = true) (hmap : WordMapped child.mem)
    (hunix : Holds child.mem (tcp.uArg argvArg) afUnix)
    (h : beginSocketBindOrConnect env tcp child e = .ok (child', e')) :
    ∃ r, socketPath env tcp child e = .ok r ∧ Rewritten env tcp child child' r := by
  unfold beginSocketBindOrConnect at h
  unfold socketPath
  simp only [hexec, Bool.not_true, Bool.false_eq_true, if_false] at h
  by_cases hzero : tcp.uArg argvArg = 0
  · simp only [if_pos hzero] at h ⊢
    exact ⟨none, rfl, .of_eq (Prod.mk.inj (Except.ok.inj h)).1.symm⟩
  · simp only [if_neg hzero] at h ⊢
    cases hbytes : umoven child.mem (tcp.uArg argvArg) (addrlenRead (tcp.uArg bufferArg)) with
    | none =>
      simp only [hbytes] at h
      exact ⟨none, rfl, .of_eq (Prod.mk.inj (Except.ok.inj h)).1.symm⟩
    | some bytes =>
      have hfamily := addrbuf_family hmap (two_le_addrlenRead _) hunix hbytes
      simp only [hbytes, if_pos hfamily] at h ⊢
      split_ifs at h ⊢ with hpath
      · cases hname : env.strcpyFromChild child.mem (tcp.uArg argvArg + 2) with
        | none =>
          simp only [hname] at h
          cases h
        | some originalPath =>
          simp only [hname] at h ⊢
          obtain ⟨⟨r, e₁⟩, hredirect, h⟩ := bind_eq_ok.1 h
          refine ⟨r, bind_eq_ok.2 ⟨_, hredirect, rfl⟩, ?_⟩
          cases r with
          | none => exact .of_eq (Prod.mk.inj (Except.ok.inj h)).1.symm
          | some path =>
            obtain ⟨mem, hcopy, h⟩ := bind_eq_ok.1 h
            obtain ⟨hchild, -⟩ := Prod.mk.inj (Except.ok.inj h)
            refine ⟨fun hnone => (by cases hnone), fun path' hpath' => ?_⟩
            obtain rfl := Option.some.inj hpath'
            rw [← hchild, memcpyToChildOrExit_ok hcopy]
      · exact ⟨none, rfl, .of_eq (Prod.mk.inj (Except.ok.inj h)).1.symm⟩

/-! ## Valid addresses -/

/-- The bytes of the address that the program supplies. -/
def suppliedLength (tcp : ShmTcb) : ℕ := (addrlenArg (tcp.uArg bufferArg)).toNat

/-- **The address stays valid**: nothing changes outside of the bytes that the program has supplied and
the kernel is passed a length that it accepts, or the call is not modified. -/
def AddressValid (tcp : ShmTcb) (child child' : Child) : Prop :=
  ((∀ x, suppliedLength tcp ≤ (x - tcp.uArg argvArg).toNat → child'.mem x = child.mem x) ∧
      (child'.regs .rdx).toNat ≤ sockaddrUnSize) ∨
    child' = child

/-- What is written for a path. -/
def socketBlock (env : SocketEnv) (path : CString) : List Byte :=
  path ++ [0] ++ spill env.beyond (path.length + 1)

/-- **When a path can be written**: what does not fit into the address stands behind it already and the
length is one that the kernel accepts, or the whole block and the length stand there already. -/
def PathFits (env : SocketEnv) (tcp : ShmTcb) (child : Child) (path : CString) : Prop :=
  (Holds child.mem (tcp.uArg argvArg + BitVec.ofNat 64 (2 + (suppliedLength tcp - 2)))
        ((socketBlock env path).drop (suppliedLength tcp - 2)) ∧
      path.length + 2 ≤ sockaddrUnSize) ∨
    (Holds child.mem (tcp.uArg argvArg + 2) (socketBlock env path) ∧
      child.regs .rdx = BitVec.ofNat 64 (path.length + 2))

theorem socketBlock_length_le (env : SocketEnv) (path : CString) :
    (socketBlock env path).length ≤ path.length + 5 := by
  have hspill := spill_length_le env.beyond (path.length + 1)
  simp only [socketBlock, List.length_append, List.length_singleton]
  omega

/-- The process after a path is written. -/
theorem Rewritten.child_eq (h : Rewritten env tcp child child' (some path)) (hlen : path.length < 2 ^ 31) :
    child' = { child with
      mem := child.mem.store (tcp.uArg argvArg + 2) (socketBlock env path)
      regs := child.regs.set .rdx (BitVec.ofNat 64 (path.length + 2)) } := by
  have hsize : (path ++ [0]).length = path.length + 1 := by simp
  rw [h.path path rfl, memcpyToChild_eq _ _ _ _ (by omega), hsize]
  rfl

theorem Rewritten.eq_iff (h : Rewritten env tcp child child' (some path)) (hlen : path.length < 2 ^ 31) :
    child' = child ↔
      Holds child.mem (tcp.uArg argvArg + 2) (socketBlock env path) ∧
        child.regs .rdx = BitVec.ofNat 64 (path.length + 2) := by
  have hblock := socketBlock_length_le env path
  have hchild := h.child_eq hlen
  constructor
  · intro heq
    have hstore := holds_store child.mem (tcp.uArg argvArg + 2)
      (by omega : (socketBlock env path).length ≤ 2 ^ 64)
    have hmem := congrArg Child.mem (hchild.symm.trans heq)
    have hregs := congrFun (congrArg Child.regs (hchild.symm.trans heq)) .rdx
    rw [show child.mem.store (tcp.uArg argvArg + 2) (socketBlock env path) = child.mem from hmem] at hstore
    exact ⟨hstore, hregs.symm.trans (Regs.set_self child.regs .rdx _)⟩
  · rintro ⟨hholds, hrdx⟩
    have hregs : child.regs.set .rdx (BitVec.ofNat 64 (path.length + 2)) = child.regs := by
      funext r
      by_cases hr : r = .rdx
      · rw [hr, Regs.set_self, hrdx]
      · exact Regs.set_of_ne _ _ hr
    rw [hchild, hholds.store_self, hregs]

theorem Rewritten.valid_iff (h : Rewritten env tcp child child' (some path)) (hlen : path.length < 2 ^ 31) :
    AddressValid tcp child child' ↔ PathFits env tcp child path := by
  have hblock := socketBlock_length_le env path
  have hframe := store_frame_iff child.mem (tcp.uArg argvArg) (socketBlock env path) 2 (suppliedLength tcp)
    (by omega)
  have hrdx : (child'.regs .rdx).toNat = path.length + 2 := by
    rw [h.child_eq hlen]
    show (child.regs.set .rdx (BitVec.ofNat 64 (path.length + 2)) .rdx).toNat = path.length + 2
    rw [Regs.set_self, BitVec.toNat_ofNat, Nat.mod_eq_of_lt (by omega)]
  have hmem : child'.mem = child.mem.store (tcp.uArg argvArg + 2) (socketBlock env path) := by
    rw [h.child_eq hlen]
  unfold AddressValid PathFits
  rw [h.eq_iff hlen, hrdx, hmem]
  exact or_congr (and_congr hframe Iff.rfl) Iff.rfl

/-- **A redirected address stays valid** if and only if no path is written or the path can be. -/
theorem socket_address_iff (hexec : env.cde.execMode = true) (hmap : WordMapped child.mem)
    (hunix : Holds child.mem (tcp.uArg argvArg) afUnix)
    (hlen : ∀ path, socketPath env tcp child e = .ok (some path) → path.length < 2 ^ 31)
    (h : beginSocketBindOrConnect env tcp child e = .ok (child', e')) :
    AddressValid tcp child child' ↔
      ∀ path, socketPath env tcp child e = .ok (some path) → PathFits env tcp child path := by
  obtain ⟨r, hr, hrewritten⟩ := beginSocket_ok hexec hmap hunix h
  cases r with
  | none =>
    refine iff_of_true (.inr (hrewritten.kept rfl)) fun path hpath => ?_
    rw [hr] at hpath
    cases hpath
  | some path =>
    rw [hrewritten.valid_iff (hlen path hr)]
    constructor
    · intro hfits path' hpath'
      rw [hr] at hpath'
      obtain rfl := Option.some.inj (Except.ok.inj hpath')
      exact hfits
    · intro hfits
      exact hfits path hr

/-! ## A socket in `/tmp` -/

def optSockets : SocketEnv where
  cde := optReplay
  strcpyFromChild := readString 4096
  beyond := [1, 2, 3, 4]

/-- `connect(fd, addr, addrlen)` -/
def socketTcb (addrlen : Word) : ShmTcb where
  uArg := fun i => if i = argvArg then 0x2000 else addrlen
  currentDir := str "/opt/cde-package/cde-root/home/bob"

/-- A process with the address of the socket `/tmp/s` in its memory. -/
def socketChild : Child where
  regs := fun _ => 0
  mem := zeros.store 0x2000 (afUnix ++ str "/tmp/s")

theorem socketChild_mapped : WordMapped socketChild.mem := by
  intro a _ i _ hnone
  exact absurd hnone (store_ne_none _ _ (by simp [zeros]))

theorem socketChild_unix : Holds socketChild.mem 0x2000 afUnix :=
  (holds_append.1 (holds_store zeros 0x2000 (by decide))).1

/-- A structure of full size has room for the redirected path. -/
theorem socket_address_full :
    ∃ child' e', beginSocketBindOrConnect optSockets (socketTcb 110) socketChild {} = .ok (child', e') ∧
      AddressValid (socketTcb 110) socketChild child' := by
  have hpath : socketPath optSockets (socketTcb 110) socketChild {} =
      .ok (some (str "/opt/cde-package/cde-root/tmp/s")) := by rfl
  have hone : ∀ path, socketPath optSockets (socketTcb 110) socketChild {} = .ok (some path) →
      path = str "/opt/cde-package/cde-root/tmp/s" := by
    intro path h
    rw [hpath] at h
    exact (Option.some.inj (Except.ok.inj h)).symm
  have hexec : optSockets.cde.execMode = true := rfl
  have hunix : Holds socketChild.mem ((socketTcb 110).uArg argvArg) afUnix := socketChild_unix
  have hreturns : (beginSocketBindOrConnect optSockets (socketTcb 110) socketChild {}).isOk = true := by rfl
  cases hok : beginSocketBindOrConnect optSockets (socketTcb 110) socketChild {} with
  | error err =>
    rw [hok] at hreturns
    cases hreturns
  | ok r =>
    refine ⟨r.1, r.2, rfl, (socket_address_iff hexec socketChild_mapped hunix ?_ hok).2 ?_⟩
    · intro path h
      rw [hone path h]
      decide
    · intro path h
      rw [hone path h]
      refine .inl ⟨?_, by decide⟩
      rw [List.drop_eq_nil_of_le (by decide)]
      exact holds_nil _ _

/-- **A tight structure is overrun**: the program supplies nine bytes, and the byte behind them is
changed. -/
theorem socket_address_tight :
    suppliedLength (socketTcb 9) = 9 ∧ socketChild.mem 0x2009 = some 0 ∧
      (beginSocketBindOrConnect optSockets (socketTcb 9) socketChild {}).map
        (fun r => (r.1.mem 0x2009, r.1.regs .rdx)) = .ok (some 101, 33) := by
  refine ⟨by decide, by decide, ?_⟩
  rfl

end Ptu
