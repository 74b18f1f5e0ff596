import Ptu.Spec.Symlink

/-!
# Spoofed results

The handlers at the exit of a call that put a text of their own into the buffer of the traced program:
`CDE_end_readlink`, `CDE_end_readlinkat` and `CDE_end_getcwd`.
-/

namespace Ptu

open Memory

/-- The third argument of a call, and the fourth one. -/
abbrev bufferArg : Fin 6 := ⟨2, by decide⟩

abbrev fourthArg : Fin 6 := ⟨3, by decide⟩

/-- `CDE_end_readlinkat` -/
def endReadlinkat (env : LinkEnv) := endReadlinkInternal env argvArg bufferArg

/-- `CDE_end_getcwd` -/
def endGetcwd (env : LinkEnv) (st : LinkStop) : Except Fatal LinkStop := do
  if st.uRval < 0 then return st
  if env.cde.execMode then
    let (sandboxedPwd, effects) ←
      extractSandboxedPwd env.cde st.tcp.currentDir st.tcp.pIgnores st.effects
    let mem ← memcpyToChildOrExit env.beyond st.child.mem (st.tcp.uArg fileArg) (sandboxedPwd ++ [0])
    return { st with child := { st.child with mem }, effects }
  else
    let some tmp := env.strcpyFromChild st.child.mem (st.tcp.uArg fileArg) | throw exitIf
    return { st with tcp := { st.tcp with currentDir := tmp } }

end Ptu
