import Ptu.Spec.Okapi
import Ptu.Spec.Regs

/-!
# Bytes and strings of a traced process

`umoven` and `umovestr` of `util.c`, which fetch the memory of a traced process word by word, and
`strcpy_from_child_or_null`.
-/

namespace Ptu

open Memory

/-- `ptrace(PTRACE_PEEKDATA, pid, a, 0)`, `none` for `EIO`. -/
def peekData (mem : Mem) (a : Word) : Option (List Byte) := mem.load a 8

/-- The loop of `umoven` and `umovestr`, with the bytes that are copied from an aligned address on;
`umovestr` returns at a word with a NUL. A word that cannot be read ends it, with success if the
copy has started. Each round copies a byte at least, so `fuel` for all of them never runs out. -/
def moveWords (mem : Mem) (stop : List Byte → Bool) : ℕ → Bool → Word → ℕ → Option (List Byte)
  | fuel + 1, started, addr, len + 1 =>
    match peekData mem addr with
    -- ran into 'end of memory'
    | none => if started then some [] else none
    | some u =>
      -- the last word is clipped, the search for a NUL is not
      if stop u then some (u.take (len + 1))
      else (moveWords mem stop fuel true (addr + 8) (len + 1 - 8)).map (u.take (len + 1) ++ ·)
  | _, _, _, _ => some []

/-- `umoven` and `umovestr`: an address that is no multiple of `sizeof(long)` first. -/
def moveBytes (mem : Mem) (stop : List Byte → Bool) (addr : Word) (len : ℕ) : Option (List Byte) :=
  let n := addr.toNat % 8
  if n = 0 then moveWords mem stop len false addr len
  else
    match peekData mem (addr - BitVec.ofNat 64 n) with
    | none => none
    | some u =>
      if stop (u.drop n) then some ((u.drop n).take len)
      else
        (moveWords mem stop len true (addr - BitVec.ofNat 64 n + 8) (len - (8 - n))).map
          ((u.drop n).take len ++ ·)

/-- `umoven`: the bytes that are copied, `none` for -1. -/
def umoven (mem : Mem) (addr : Word) (len : ℕ) : Option (List Byte) :=
  moveBytes mem (fun _ => false) addr len

/-- `umovestr`: the bytes that are copied, `none` for -1. -/
def umovestr (mem : Mem) (addr : Word) (len : ℕ) : Option (List Byte) :=
  moveBytes mem (fun u => u.contains 0) addr len

/-- `strcpy_from_child_or_null`, where `path` is what the buffer has before. A buffer without a NUL is
read beyond its end. -/
def strcpyFromChildOrNull (path : List Byte) (mem : Mem) (addr : Word) : Except Fatal (Option CString) :=
  match umovestr mem addr maxPathLen with
  | none => .ok none
  | some bytes =>
    let path := bytes ++ path.drop bytes.length
    if 0 ∈ path then .ok (some (path.takeWhile (· != 0))) else .error .segv

end Ptu
