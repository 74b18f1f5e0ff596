import Ptu.Spec.Prov

/-!
# The text of the provenance log

The lines that `provenance.c` writes to `prov_logfile`, byte for byte: the formats of its calls of
`fprintf`, and `print_arg_prov` with `get_str_prov` and `string_quote` (`util.c`) for the arguments
of a program. The arguments are given as strings; what is printed for a pointer that cannot be
read is left out.
-/

namespace Ptu

/-- `'"'` -/
abbrev dquote : Byte := 34

/-- `'\\'` -/
abbrev backslash : Byte := 92

/-- `isprint(c)` in the C locale. -/
def isprint (c : Byte) : Bool := 32 ≤ c && c ≤ 126

/-- `isdigit(c)` -/
def isdigit (c : Byte) : Bool := 48 ≤ c && c ≤ 57

/-- `%u` -/
def decimal (n : ℕ) : CString := (Nat.toDigits 10 n).map fun c => c.toNat.toUInt8

/-- `%d` -/
def signedDecimal : ℤ → CString
  | .ofNat n => decimal n
  | .negSucc n => str "-" ++ decimal (n + 1)

/-! ## Quoted strings -/

def digitByte (n : ℕ) : Byte := (48 + n).toUInt8

/-- `%03o` of a byte -/
def octal3 (c : Byte) : CString :=
  [digitByte (c.toNat / 64), digitByte (c.toNat / 8 % 8), digitByte (c.toNat % 8)]

/-- `%o` of a byte -/
def octal (c : Byte) : CString :=
  if c.toNat < 8 then [digitByte (c.toNat % 8)]
  else if c.toNat < 64 then [digitByte (c.toNat / 8 % 8), digitByte (c.toNat % 8)]
  else octal3 c

def hexDigit (n : ℕ) : Byte := if n < 10 then (48 + n).toUInt8 else (87 + n).toUInt8

/-- `\x%02x` of a byte -/
def hexByte (c : Byte) : CString := str "\\x" ++ [hexDigit (c.toNat / 16), hexDigit (c.toNat % 16)]

/-- The bytes that `string_quote` writes as a backslash and a letter of their own. -/
def escapeLetter (c : Byte) : Option Byte :=
  if c == dquote || c == backslash then some c
  else if c == 12 then some 102
  else if c == 10 then some 110
  else if c == 13 then some 114
  else if c == 9 then some 116
  else if c == 11 then some 118
  else none

/-- The `switch` of `string_quote`, where `next` is the byte behind `c`. -/
def quoteByte (c : Byte) (next : Option Byte) : CString :=
  match escapeLetter c with
  | some letter => [backslash, letter]
  | none =>
    if isprint c then [c]
    -- a digit that follows must not be read as a part of the number
    else backslash :: if next.any isdigit then octal3 c else octal c

/-- The last loop of `string_quote`, which quotes at most `n` bytes. -/
def quotePlain : ℕ → CString → CString
  | 0, _ => []
  | _ + 1, [] => []
  | n + 1, c :: s => quoteByte c s.head? ++ quotePlain n s

/-- `usehex` of `string_quote` -/
def usehex (xflag n : ℕ) (s : CString) : Bool :=
  if xflag > 1 then true
  else if xflag = 1 then (s.take n).any fun c => !isprint c && !isspace c
  else false

/-- `string_quote(s, outstr, -1, n + 1)`, which returns whether `s` has more than `n` bytes. -/
def stringQuote (xflag n : ℕ) (s : CString) : CString × Bool :=
  let body := if usehex xflag n s then (s.take n).flatMap hexByte else quotePlain n s
  (dquote :: body ++ [dquote], n < s.length)

/-- `max_strlen`, which no option changes. -/
def maxStrlen : ℕ := 10240

/-- `get_str_prov(dest, tcp, addr, -1)`, where `s` is the string at `addr`. -/
def getStrProv (xflag : ℕ) (s : CString) : CString :=
  let (outstr, unterminated) := stringQuote xflag maxStrlen s
  if unterminated then outstr ++ str "..." else outstr

/-- The loop of `print_arg_prov` from argument number `n` on. All calls are abbreviated. -/
def printArgLoop (xflag : ℕ) : ℕ → CString → List CString → CString
  | n, sep, [] => if n < maxStrlen / 2 then [] else sep ++ str "..."
  | n, sep, arg :: args =>
    if n < maxStrlen / 2 then sep ++ getStrProv xflag arg ++ printArgLoop xflag (n + 1) (str ", ") args
    else sep ++ str "..."

/-- `print_arg_prov`, which writes to an array of `KEYLEN * 10` bytes. -/
def printArgProv (xflag : ℕ) (args : List CString) : Except Fatal CString :=
  let argstr := str "[" ++ printArgLoop xflag 0 [] args ++ str "]"
  if argstr.length < 1024 * 10 then .ok argstr else .error .segv

/-! ## Records -/

def ProvVerb.text : ProvVerb → CString
  | .read => str "READ"
  | .write => str "WRITE"
  | .readWrite => str "READ-WRITE"
  | .unknownIo => str "UNKNOWNIO"
  | .close => str "CLOSE"

/-- What a record says besides its time and the process it begins with. -/
inductive ProvEntry where
  | io (verb : ProvVerb) (path : CString)
  | execve (pid : ℕ) (path currentDir : CString) (args : List CString)
  | execve2 (ppid : ℤ)
  | spawn (pid : ℕ)
  | mem (rss : ℕ)
  | lexit
  | ptrace
  | exit
  deriving DecidableEq, Repr

/-- A record; `EXECVE` and `SPAWN` begin with the parent of the process. -/
@[ext] structure ProvEvent where
  time : ℤ
  pid : ℕ
  entry : ProvEntry
  deriving DecidableEq, Repr

/-- The fields behind the first two. -/
def ProvEntry.fields (xflag : ℕ) : ProvEntry → Except Fatal (List CString)
  | .io verb path => .ok [verb.text, path]
  | .execve pid path currentDir args => do
    let argstr ← printArgProv xflag args
    return [str "EXECVE", decimal pid, path, currentDir, argstr]
  | .execve2 ppid => .ok [str "EXECVE2", signedDecimal ppid]
  | .spawn pid => .ok [str "SPAWN", decimal pid]
  | .mem rss => .ok [str "MEM", decimal rss]
  | .lexit => .ok [str "LEXIT"]
  | .ptrace => .ok [str "PTRACE"]
  | .exit => .ok [str "EXIT"]

/-- The line of a record, as one of `print_io_prov`, `print_begin_execve_prov`,
`print_end_execve_prov`, `print_spawn_prov`, `print_curr_prov`, `print_ptrace_prov`,
`print_exit_prov` and `print_close_prov` writes it. -/
def ProvEvent.line (xflag : ℕ) (event : ProvEvent) : Except Fatal CString := do
  let fields ← event.entry.fields xflag
  return [blank].intercalate (signedDecimal event.time :: decimal event.pid :: fields) ++ [newline]

/-- What a sequence of events leaves in the log. -/
def logText (xflag : ℕ) : List ProvEvent → Except Fatal CString
  | [] => .ok []
  | event :: events => do
    let line ← event.line xflag
    let rest ← logText xflag events
    return line ++ rest

end Ptu
