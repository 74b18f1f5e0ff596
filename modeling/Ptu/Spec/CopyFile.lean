import Ptu.Spec.CString

/-!
# Copying a file block by block

The loop of `okapi_copy_file` on the contents of the two files. The host decides how many
bytes a call of `read` returns; every `write` is complete.
-/

namespace Ptu

/-- `sizeof(buf)` -/
def copyBufSize : ℕ := 4096

/-- `write` of `buf` at the offset `off`. -/
def writeAt (content : List Byte) (off : ℕ) (buf : List Byte) : List Byte :=
  content.take off ++ buf ++ content.drop (off + buf.length)

/-- `read` from a file of which `rest` is left: at least one byte before the end of the file. -/
def readSome (size : ℕ) (rest : List Byte) : List Byte := rest.take (min copyBufSize (max 1 size))

/-- The loop of `okapi_copy_file`: `sizes k` is what the host is ready to return for the call `k`.
Every round but the last reads a byte, so `fuel` above the length of the source never runs out. -/
def copyLoop (sizes : ℕ → ℕ) : ℕ → ℕ → List Byte → ℕ → List Byte → List Byte
  | 0, _, _, _, out => out
  | fuel + 1, k, rest, off, out =>
    match readSome (sizes k) rest with
    | [] => out
    | buf => copyLoop sizes fuel (k + 1) (rest.drop buf.length) (off + buf.length) (writeAt out off buf)

/-- `okapi_copy_file` on the contents: `none` for a source that cannot be opened and for a
destination that does not exist. An old destination is opened without `O_TRUNC`. -/
def okapiCopy (sizes : ℕ → ℕ) (src dst : Option (List Byte)) : List Byte :=
  let out := dst.getD []
  match src with
  | some content => copyLoop sizes (content.length + 1) 0 content 0 out
  | none => out

end Ptu
