import Ptu.Spec.Spoof
import Ptu.Spec.Umove

/-!
# Socket addresses

`CDE_begin_socket_bind_or_connect`, which in exec mode redirects the path of a Unix socket that a
traced program passes to `bind` or `connect`: the path is written into the program's own structure,
and the third argument is set to the new length.
-/

namespace Ptu

open Memory

/-- What the handler sees of the tracer. -/
structure SocketEnv where
  cde : Cde
  strcpyFromChild : StrcpyFromChild
  /-- `CDE_block_net_access` -/
  blockNetAccess : Bool := false
  /-- the bytes of the tracer's memory behind what it copies -/
  beyond : List Byte

/-- `sizeof(addrbuf)` -/
def addrbufSize : ℕ := 128

/-- `AF_UNIX` as the first two bytes of an address. -/
def afUnix : List Byte := [1, 0]

/-- `int addrlen = tcp->u_arg[2]` -/
def addrlenArg (w : Word) : ℤ := (w.setWidth 32).toInt

/-- The number of bytes that are read. -/
def addrlenRead (w : Word) : ℕ :=
  if addrlenArg w < 2 ∨ addrbufSize < addrlenArg w then addrbufSize else (addrlenArg w).toNat

/-- `addrbuf`, after `umoven` has put `bytes` into it. -/
def addrbuf (bytes : List Byte) : List Byte :=
  (bytes ++ List.replicate addrbufSize 0).take (addrbufSize - 1) ++ [0]

/-- `CDE_begin_socket_bind_or_connect` -/
def beginSocketBindOrConnect (env : SocketEnv) (tcp : ShmTcb) (child : Child) (e : Effects) :
    Except Fatal (Child × Effects) := do
  -- only do this redirection in `Cde_exec_mode`
  if !env.cde.execMode then return (child, e)
  let addr := tcp.uArg argvArg
  let addrlen := addrlenRead (tcp.uArg bufferArg)
  if addr = 0 then return (child, e)
  let some bytes := umoven child.mem addr addrlen | return (child, e)
  if (addrbuf bytes).take 2 = afUnix then
    if 2 < addrlen ∧ (addrbuf bytes)[2]? ≠ some 0 then
      let some originalPath := env.strcpyFromChild child.mem (addr + 2) | throw exitIf
      let (redirectedPath, e) ←
        redirectFilenameIntoCderoot env.cde originalPath tcp.currentDir tcp.pIgnores e
      match redirectedPath with
      -- could be null if the path is being ignored
      | none => return (child, e)
      | some path =>
        let mem ← memcpyToChildOrExit env.beyond child.mem (addr + 2) (path ++ [0])
        return ({ child with mem, regs := child.regs.set .rdx (BitVec.ofNat 64 (path.length + 2)) }, e)
    else return (child, e)
  else if env.blockNetAccess then
    -- blank out the `struct sockaddr`
    let mem ← memcpyToChildOrExit env.beyond child.mem addr (List.replicate 16 0)
    return ({ child with mem }, e)
  else return (child, e)

end Ptu
