import Ptu.Lib.Fields
import Ptu.Spec.CString

/-!
# The program interpreter of an ELF file

`find_ELF_program_interpreter` of readelf-mini, which `CDE_begin_execve` asks for the dynamic linker of a program. The
section headers, which it also reads, have no influence on what it finds.
-/

namespace Ptu

open Fields

/-! ## Numbers -/

/-- `b₀ | b₁ << 8 | b₂ << 16 | …` -/
def orShifted (bytes : List Byte) : ℕ := (bytes.zipIdx.map fun p => p.1.toNat <<< (8 * p.2)).foldl (· ||| ·) 0

def byteGetLittleEndian (field : List Byte) : ℕ := orShifted field

def byteGetBigEndian (field : List Byte) : ℕ := orShifted field.reverse

/-! ## The headers -/

/-- The fields of the file header behind `e_ident`. -/
inductive EhdrField where
  | eType | eMachine | eVersion | eEntry | ePhoff | eShoff | eFlags | eEhsize | ePhentsize | ePhnum | eShentsize
  | eShnum | eShstrndx
  deriving DecidableEq, Repr

/-- `Elf32_External_Ehdr` -/
def elf32ExternalEhdr : Shape EhdrField :=
  [(.eType, 2), (.eMachine, 2), (.eVersion, 4), (.eEntry, 4), (.ePhoff, 4), (.eShoff, 4), (.eFlags, 4), (.eEhsize, 2),
    (.ePhentsize, 2), (.ePhnum, 2), (.eShentsize, 2), (.eShnum, 2), (.eShstrndx, 2)]

/-- `Elf64_External_Ehdr` -/
def elf64ExternalEhdr : Shape EhdrField :=
  [(.eType, 2), (.eMachine, 2), (.eVersion, 4), (.eEntry, 8), (.ePhoff, 8), (.eShoff, 8), (.eFlags, 4), (.eEhsize, 2),
    (.ePhentsize, 2), (.ePhnum, 2), (.eShentsize, 2), (.eShnum, 2), (.eShstrndx, 2)]

/-- The fields of a program header. -/
inductive PhdrField where
  | pType | pFlags | pOffset | pVaddr | pPaddr | pFilesz | pMemsz | pAlign
  deriving DecidableEq, Repr

/-- `Elf32_External_Phdr` -/
def elf32ExternalPhdr : Shape PhdrField :=
  [(.pType, 4), (.pOffset, 4), (.pVaddr, 4), (.pPaddr, 4), (.pFilesz, 4), (.pMemsz, 4), (.pFlags, 4), (.pAlign, 4)]

/-- `Elf64_External_Phdr` -/
def elf64ExternalPhdr : Shape PhdrField :=
  [(.pType, 4), (.pFlags, 4), (.pOffset, 8), (.pVaddr, 8), (.pPaddr, 8), (.pFilesz, 8), (.pMemsz, 8), (.pAlign, 8)]

/-- `Elf_Internal_Phdr` -/
abbrev Phdr := PhdrField → ℕ

/-- `elf_header` with the variables that are set along with it. -/
structure ElfHeader where
  eIdent : List Byte
  /-- `is_32bit_elf` -/
  is32bitElf : Bool
  /-- `byte_get` is `byte_get_big_endian` -/
  bigEndian : Bool
  fields : EhdrField → ℕ

/-- `EI_NIDENT` -/
def eiNident : ℕ := 16

/-- `EI_CLASS` -/
def eiClass : ℕ := 4

/-- `EI_DATA` -/
def eiData : ℕ := 5

/-- `ELFCLASS64` -/
def elfclass64 : Byte := 2

/-- `ELFDATA2MSB` -/
def elfdata2msb : Byte := 2

/-- `ELFMAG0` to `ELFMAG3` -/
def elfmag : List Byte := [0x7f, 0x45, 0x4c, 0x46]

/-- `PT_INTERP` -/
def ptInterp : ℕ := 3

/-- `PATH_MAX`, the size of `program_interpreter` -/
def pathMax : ℕ := 4096

namespace ElfHeader

/-- `byte_get` -/
def byteGet (h : ElfHeader) : List Byte → ℕ := if h.bigEndian then byteGetBigEndian else byteGetLittleEndian

/-- The external program header of the class of the file. -/
def externalPhdr (h : ElfHeader) : Shape PhdrField := if h.is32bitElf then elf32ExternalPhdr else elf64ExternalPhdr

end ElfHeader

/-- `get_file_header`, `none` if the file is too short. -/
def getFileHeader (file : List Byte) : Option ElfHeader :=
  if file.length < eiNident then none
  else
    let eIdent := file.take eiNident
    let bigEndian := eIdent[eiData]? == some elfdata2msb
    let is32bitElf := eIdent[eiClass]? != some elfclass64
    let ehdr := if is32bitElf then elf32ExternalEhdr else elf64ExternalEhdr
    let byteGet := if bigEndian then byteGetBigEndian else byteGetLittleEndian
    if file.length < eiNident + ehdr.size then none
    else some { eIdent, is32bitElf, bigEndian, fields := ehdr.get byteGet (file.drop eiNident) }

/-! ## The program headers -/

/-- `fseek` to an offset of type `long`, and what is left of the file there. -/
def fseek (file : List Byte) (offset : ℕ) : Option (List Byte) :=
  if 2 ^ 63 ≤ offset then none else some (file.drop offset)

/-- `get_data` into a new block, which has a zero at its end. -/
def getData (file : List Byte) (offset size nmemb : ℕ) : Option (List Byte) :=
  if size = 0 ∨ nmemb = 0 then none
  else
    match fseek file offset with
    | none => none
    | some rest => if rest.length < size * nmemb then none else some (rest.take (size * nmemb) ++ [0])

/-- The first `n` bytes from the start of a block, `heap` being what lies behind it. -/
def blockBytes (block : List Byte) (heap : ℕ → Byte) (n : ℕ) : List Byte :=
  block.take n ++ (List.range (n - block.length)).map heap

/-- `get_program_headers`. The block has `e_phnum` entries of `e_phentsize` bytes, but the entries are taken from it at
the distance of the structure. -/
def getProgramHeaders (h : ElfHeader) (file : List Byte) (heap : ℕ → Byte) : Option (List Phdr) :=
  let ePhnum := h.fields .ePhnum
  (getData file (h.fields .ePhoff) (h.fields .ePhentsize) ePhnum).map fun phdrs =>
    h.externalPhdr.table h.byteGet ePhnum (blockBytes phdrs heap (ePhnum * h.externalPhdr.size))

/-! ## The interpreter -/

/-- `fscanf` with the format `%4096s`, `none` at the end of the file. -/
def fscanfWord (rest : List Byte) : Option (List Byte) :=
  match rest.dropWhile isspace with
  | [] => none
  | c :: rest => some (((c :: rest).takeWhile (!isspace ·)).take pathMax)

/-- What is found, and how many bytes of `program_interpreter` have been written. -/
structure Interp where
  name : Option CString := none
  written : ℕ := 0
  deriving DecidableEq, Repr

/-- The loop over the program headers. -/
def findInterp (file : List Byte) : List Phdr → Interp → Interp
  | [], found => found
  | segment :: segments, found =>
    if segment .pType = ptInterp then
      match (fseek file (segment .pOffset)).bind fscanfWord with
      | none => found
      | some word => findInterp file segments
          { name := some (word.takeWhile (· != 0)), written := max found.written (word.length + 1) }
    else findInterp file segments found

/-- `find_ELF_program_interpreter` for the bytes of the file, `none` if it cannot be opened. -/
def findElfProgramInterpreter (file : Option (List Byte)) (heap : ℕ → Byte) : Except Fatal Interp :=
  match file with
  | none => .error .assertion
  | some file =>
    match getFileHeader file with
    | none => .ok {}
    | some h =>
      if h.eIdent.take 4 ≠ elfmag then .ok {}
      else if h.fields .ePhnum = 0 then .ok {}
      else
        match getProgramHeaders h file heap with
        | none => .ok {}
        | some segments => .ok (findInterp file segments {})

end Ptu
