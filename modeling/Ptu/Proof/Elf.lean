import Ptu.Spec.Elf

/-!
# The linker of a program is found

The headers of an ELF file of either class, in either byte order, are read back (`getFileHeader_image`,
`getProgramHeaders_image`), and so is the name of the program interpreter.

* `findElfProgramInterpreter_image`: the interpreter of a program is found.
* `findElfProgramInterpreter_image_overrun`: when one byte too many is written for it.
* `findElfProgramInterpreter_sound`: what is found in any file stands in a file with the magic bytes, where a program
  header says.
-/

namespace Ptu

open Fields Memory

/-! ## Numbers -/

theorem or_shiftLeft {a b k : ℕ} (h : a < 256 ^ k) : a ||| (b <<< (8 * k)) = a + 256 ^ k * b := by
  have hpow : 256 ^ k = 2 ^ (8 * k) := (Nat.pow_mul 2 8 k).symm
  rw [Nat.or_comm, ← Nat.shiftLeft_add_eq_or_of_lt (hpow ▸ h), Nat.shiftLeft_eq, ← hpow, Nat.mul_comm, Nat.add_comm]

theorem orShifted_eq (bytes : List Byte) : orShifted bytes = littleEndian bytes := by
  -- the bytes so far fill the number up to the next shift
  have hstep : ∀ (bytes : List Byte) (k a : ℕ), a < 256 ^ k →
      ((bytes.zipIdx k).map fun p => p.1.toNat <<< (8 * p.2)).foldl (· ||| ·) a = a + 256 ^ k * littleEndian bytes := by
    intro bytes
    induction bytes with
    | nil => simp [littleEndian]
    | cons b bytes ih =>
      intro k a ha
      have hb : b.toNat < 256 := b.toNat_lt
      have hnext : a + 256 ^ k * b.toNat < 256 ^ (k + 1) := by
        have hmul : 256 ^ k * b.toNat ≤ 256 ^ k * 255 := Nat.mul_le_mul_left _ (by omega)
        rw [pow_succ]
        omega
      rw [List.zipIdx_cons, List.map_cons, List.foldl_cons, or_shiftLeft ha, ih (k + 1) _ hnext, littleEndian, pow_succ,
        Nat.mul_add, Nat.mul_assoc, Nat.add_assoc]
  rw [orShifted, hstep bytes 0 0 (by simp), Nat.pow_zero, Nat.one_mul, Nat.zero_add]

theorem byteGet_eq {h : ElfHeader} {o : Order} (ho : h.bigEndian = decide (o = .big)) : h.byteGet = o.decode := by
  unfold ElfHeader.byteGet
  funext field
  cases o with
  | little =>
    rw [ho]
    exact orShifted_eq field
  | big =>
    rw [ho]
    exact orShifted_eq field.reverse

/-! ## Executables -/

/-- The file header and the program headers of an executable. -/
structure ElfImage where
  order : Order
  is64 : Bool
  /-- `e_ident` from `EI_VERSION` on -/
  ident : List Byte
  ident_length : ident.length = 10
  header : EhdrField → ℕ
  segments : List Phdr

namespace ElfImage

variable (img : ElfImage)

def ehdr : Shape EhdrField := if img.is64 then elf64ExternalEhdr else elf32ExternalEhdr

def phdr : Shape PhdrField := if img.is64 then elf64ExternalPhdr else elf32ExternalPhdr

def eIdent : List Byte :=
  elfmag ++ [if img.is64 then 2 else 1, if img.order = .big then 2 else 1] ++ img.ident

theorem length_eIdent : img.eIdent.length = eiNident := by
  simp [eIdent, img.ident_length, elfmag, eiNident]

/-- A file with these headers. The program headers may be anywhere. -/
structure Holds (file : List Byte) : Prop where
  ident : img.eIdent <+: file
  header : img.ehdr.put img.order img.header <+: file.drop eiNident
  fits : img.ehdr.Fits img.header
  phnum : img.header .ePhnum = img.segments.length
  phentsize : img.header .ePhentsize = img.phdr.size
  phoff : img.header .ePhoff < 2 ^ 63
  table : img.segments.flatMap (img.phdr.put img.order) <+: file.drop (img.header .ePhoff)
  segments_fit : ∀ segment ∈ img.segments, img.phdr.Fits segment

end ElfImage

variable {img : ElfImage} {file rest : List Byte} {heap : ℕ → Byte} {segments : List Phdr} {found : Interp}

/-! ## The headers are read back -/

/-- What `get_file_header` makes of the headers. -/
def ElfImage.elfHeader (img : ElfImage) : ElfHeader :=
  { eIdent := img.eIdent, is32bitElf := !img.is64, bigEndian := decide (img.order = .big), fields := img.header }

theorem ElfImage.mem_ehdr (img : ElfImage) (f : EhdrField) : f ∈ img.ehdr.map Prod.fst := by
  unfold ehdr
  cases img.is64 <;> cases f <;> decide

theorem ElfImage.mem_phdr (img : ElfImage) (f : PhdrField) : f ∈ img.phdr.map Prod.fst := by
  unfold phdr
  cases img.is64 <;> cases f <;> decide

theorem ElfImage.size_phdr_pos (img : ElfImage) : 0 < img.phdr.size := by
  unfold phdr
  cases img.is64 <;> decide

theorem getFileHeader_image (h : img.Holds file) : getFileHeader file = some img.elfHeader := by
  obtain ⟨tail, htail⟩ := h.ident
  obtain ⟨tail', htail'⟩ := h.header
  have hident : file.take eiNident = img.eIdent := by rw [← htail, List.take_left' img.length_eIdent]
  have hdata : (img.eIdent[eiData]? == some elfdata2msb) = decide (img.order = .big) := by
    simp only [ElfImage.eIdent, elfmag, eiData]
    cases img.order <;> rfl
  have hclass : (img.eIdent[eiClass]? != some elfclass64) = !img.is64 := by
    simp only [ElfImage.eIdent, elfmag, eiClass]
    cases img.is64 <;> rfl
  have hehdr : (if (!img.is64) = true then elf32ExternalEhdr else elf64ExternalEhdr) = img.ehdr := by
    unfold ElfImage.ehdr
    cases img.is64 <;> rfl
  have hget : (if decide (img.order = .big) = true then byteGetBigEndian else byteGetLittleEndian) = img.order.decode :=
    byteGet_eq (h := img.elfHeader) rfl
  have hlen : eiNident + img.ehdr.size ≤ file.length := by
    have hdrop := congrArg List.length htail'
    have hall := congrArg List.length htail
    rw [List.length_append, Shape.length_put, List.length_drop] at hdrop
    rw [List.length_append, img.length_eIdent] at hall
    omega
  have hfields : img.ehdr.get img.order.decode (file.drop eiNident) = img.header := by
    funext f
    rw [← htail']
    exact Shape.get_put h.fits (img.mem_ehdr f) tail'
  unfold getFileHeader
  rw [if_neg (by omega)]
  simp only [hident, hdata, hclass, hehdr, hget]
  rw [if_neg (by omega), hfields]
  rfl

theorem getProgramHeaders_image (h : img.Holds file) (hsome : img.segments ≠ []) :
    getProgramHeaders img.elfHeader file heap = some img.segments := by
  obtain ⟨tail, htail⟩ := h.table
  have hphdr : img.elfHeader.externalPhdr = img.phdr := by
    unfold ElfImage.elfHeader ElfHeader.externalPhdr ElfImage.phdr
    cases img.is64 <;> rfl
  have hget : img.elfHeader.byteGet = img.order.decode := byteGet_eq rfl
  have hlen : (img.segments.flatMap (img.phdr.put img.order)).length = img.phdr.size * img.segments.length := by
    simp [List.length_flatMap, Nat.mul_comm]
  have hdata : getData file (img.header .ePhoff) img.phdr.size img.segments.length =
      some (img.segments.flatMap (img.phdr.put img.order) ++ [0]) := by
    have hpos := img.size_phdr_pos
    have hne : ¬ (img.phdr.size = 0 ∨ img.segments.length = 0) := by
      rw [List.length_eq_zero_iff]
      rintro (hzero | hnil)
      · omega
      · exact hsome hnil
    have hroom : ¬ (file.drop (img.header .ePhoff)).length < img.phdr.size * img.segments.length := by
      rw [← htail, List.length_append, hlen]
      omega
    rw [getData, if_neg hne, fseek, if_neg (by have := h.phoff; omega)]
    simp only
    rw [if_neg hroom, ← htail, List.take_left' hlen]
  have hblock : blockBytes (img.segments.flatMap (img.phdr.put img.order) ++ [0]) heap
      (img.segments.length * img.phdr.size) = img.segments.flatMap (img.phdr.put img.order) ++ [] := by
    have hle : img.segments.length * img.phdr.size - (img.phdr.size * img.segments.length + 1) = 0 := by
      rw [Nat.mul_comm]
      omega
    rw [blockBytes, List.length_append, hlen, List.length_singleton, hle, Nat.mul_comm, List.take_left' hlen]
    rfl
  simp only [getProgramHeaders, hphdr, hget]
  have hnum : img.elfHeader.fields .ePhnum = img.segments.length := h.phnum
  have hoff : img.elfHeader.fields .ePhoff = img.header .ePhoff := rfl
  have hent : img.elfHeader.fields .ePhentsize = img.phdr.size := h.phentsize
  rw [hnum, hoff, hent, hdata, Option.map_some, hblock]
  rw [Shape.table_put (img.mem_phdr) h.segments_fit]

/-! ## The interpreter is read back -/

/-- A name that `fscanf` reads as one word. -/
structure IsInterpName (name : CString) : Prop where
  bytes : ∀ b ∈ name, b ≠ 0 ∧ isspace b = false
  length_le : name.length ≤ pathMax

/-- The bytes up to the first blank. -/
def wordAt (rest : List Byte) : List Byte := rest.takeWhile (!isspace ·)

theorem fscanfWord_of_head {c : Byte} (hc : isspace c = false) :
    fscanfWord (c :: rest) = some ((wordAt (c :: rest)).take pathMax) := by
  rw [fscanfWord, List.dropWhile_cons_of_neg (by simp [hc])]
  rfl

/-- A name that ends with a zero is read, with what comes behind the zero. -/
theorem fscanfWord_name {name : CString} (hname : IsInterpName name) (h : name ++ [0] <+: rest) :
    fscanfWord rest = some ((wordAt rest).take pathMax) ∧
      ((wordAt rest).take pathMax).takeWhile (· != 0) = name := by
  obtain ⟨tail, rfl⟩ := h
  have hword : wordAt (name ++ [0] ++ tail) = name ++ (0 :: wordAt tail) := by
    rw [wordAt, List.append_assoc, List.takeWhile_append_of_pos fun b hb => by simp [(hname.bytes b hb).2]]
    simp [wordAt, show isspace 0 = false from rfl]
  constructor
  · cases name with
    | nil => exact fscanfWord_of_head rfl
    | cons c name => exact fscanfWord_of_head (hname.bytes c (by simp)).2
  · have hzero : ((0 :: wordAt tail).take (pathMax - name.length)).takeWhile (· != 0) = [] := by
      cases pathMax - name.length <;> simp
    rw [hword, List.take_append, List.take_of_length_le hname.length_le,
      List.takeWhile_append_of_pos fun b hb => by simp [(hname.bytes b hb).1], hzero, List.append_nil]

/-- The segment names the interpreter `path segment`. -/
structure Names (file : List Byte) (path : Phdr → CString) (segment : Phdr) : Prop where
  offset : segment .pOffset < 2 ^ 63
  name : IsInterpName (path segment)
  bytes : path segment ++ [0] <+: file.drop (segment .pOffset)

variable {path : Phdr → CString} {segment : Phdr}

theorem findInterp_interp (htype : segment .pType = ptInterp) (hnames : Names file path segment) :
    findInterp file (segment :: segments) found = findInterp file segments
      { name := some (path segment)
        written := max found.written (min pathMax (wordAt (file.drop (segment .pOffset))).length + 1) } := by
  obtain ⟨hword, hname⟩ := fscanfWord_name hnames.name hnames.bytes
  have hseek : fseek file (segment .pOffset) = some (file.drop (segment .pOffset)) :=
    if_neg (by have := hnames.offset; omega)
  rw [findInterp, if_pos htype, hseek, Option.bind_some, hword]
  simp only [hname, List.length_take]

theorem findInterp_other (htype : segment .pType ≠ ptInterp) :
    findInterp file (segment :: segments) found = findInterp file segments found := by
  rw [findInterp, if_neg htype]

/-- The last segment that names an interpreter counts. -/
theorem findInterp_name (h : ∀ segment ∈ segments, segment .pType = ptInterp → Names file path segment) :
    (findInterp file segments found).name =
      ((segments.filter fun segment => segment .pType = ptInterp).getLast?.map path).or found.name := by
  induction segments generalizing found with
  | nil => rfl
  | cons segment segments ih =>
    have hrest : ∀ segment ∈ segments, segment .pType = ptInterp → Names file path segment :=
      fun segment hmem => h segment (List.mem_cons_of_mem _ hmem)
    by_cases htype : segment .pType = ptInterp
    · rw [findInterp_interp htype (h segment List.mem_cons_self htype), ih hrest,
        List.filter_cons_of_pos (by simpa using htype), List.getLast?_cons]
      cases (segments.filter fun segment => segment .pType = ptInterp).getLast? <;> rfl
    · rw [findInterp_other htype, ih hrest, List.filter_cons_of_neg (by simpa using htype)]

theorem findInterp_written (h : ∀ segment ∈ segments, segment .pType = ptInterp → Names file path segment) :
    pathMax < (findInterp file segments found).written ↔ pathMax < found.written ∨
      ∃ segment ∈ segments, segment .pType = ptInterp ∧ pathMax ≤ (wordAt (file.drop (segment .pOffset))).length := by
  induction segments generalizing found with
  | nil => simp [findInterp]
  | cons segment segments ih =>
    have hrest : ∀ segment ∈ segments, segment .pType = ptInterp → Names file path segment :=
      fun segment hmem => h segment (List.mem_cons_of_mem _ hmem)
    by_cases htype : segment .pType = ptInterp
    · have hmax : ∀ n m : ℕ, pathMax < max n (min pathMax m + 1) ↔ pathMax < n ∨ pathMax ≤ m := by
        intro n m
        omega
      rw [findInterp_interp htype (h segment List.mem_cons_self htype), ih hrest, hmax, or_assoc]
      simp [htype]
    · rw [findInterp_other htype, ih hrest]
      simp [htype]

/-! ## Any file -/

theorem fscanfWord_some {word : List Byte} (h : fscanfWord rest = some word) :
    (∃ blanks, (∀ b ∈ blanks, isspace b = true) ∧ blanks ++ word <+: rest) ∧ (∀ b ∈ word, isspace b = false) ∧
      word.length ≤ pathMax := by
  have hsplit : rest.takeWhile isspace ++ rest.dropWhile isspace = rest := List.takeWhile_append_dropWhile
  rw [fscanfWord] at h
  cases hrest : rest.dropWhile isspace with
  | nil =>
    rw [hrest] at h
    cases h
  | cons c tail =>
    rw [hrest] at h hsplit
    obtain rfl := Option.some.inj h
    refine ⟨⟨rest.takeWhile isspace, fun b hb => List.mem_takeWhile_imp hb, ?_⟩, fun b hb => ?_, ?_⟩
    · conv_rhs => rw [← hsplit]
      exact List.prefix_append_right_inj _ |>.2 ((List.take_prefix _ _).trans (List.takeWhile_prefix _))
    · simpa using List.mem_takeWhile_imp (List.mem_of_mem_take hb)
    · exact List.length_take_le _ _

theorem findInterp_written_le (h : found.written ≤ pathMax + 1) :
    (findInterp file segments found).written ≤ pathMax + 1 := by
  induction segments generalizing found with
  | nil => exact h
  | cons segment segments ih =>
    rw [findInterp]
    split_ifs with htype
    · cases hword : (fseek file (segment .pOffset)).bind fscanfWord with
      | none => exact h
      | some word =>
        obtain ⟨rest, -, hrest⟩ := Option.bind_eq_some_iff.1 hword
        obtain ⟨-, -, hlen⟩ := fscanfWord_some hrest
        exact ih (Nat.max_le.2 ⟨h, by omega⟩)
    · exact ih h

/-- The name stands at `offset`, behind blanks. -/
def StandsAt (file : List Byte) (offset : ℕ) (name : CString) : Prop :=
  ∃ blanks, (∀ b ∈ blanks, isspace b = true) ∧ blanks ++ name <+: file.drop offset

/-- A name that is found stands where a program header says. -/
theorem findInterp_some {name : CString} (h : (findInterp file segments found).name = some name) :
    found.name = some name ∨ IsInterpName name ∧
      ∃ segment ∈ segments, segment .pType = ptInterp ∧ StandsAt file (segment .pOffset) name := by
  induction segments generalizing found with
  | nil => exact .inl h
  | cons segment segments ih =>
    rw [findInterp] at h
    split_ifs at h with htype
    · cases hword : (fseek file (segment .pOffset)).bind fscanfWord with
      | none =>
        rw [hword] at h
        exact .inl h
      | some word =>
        rw [hword] at h
        obtain hnew | ⟨hname, other, hmem, hother⟩ := ih h
        · obtain rfl := Option.some.inj hnew
          obtain ⟨rest, hseek, hrest⟩ := Option.bind_eq_some_iff.1 hword
          have hdrop : rest = file.drop (segment .pOffset) := by
            rw [fseek] at hseek
            split_ifs at hseek
            exact (Option.some.inj hseek).symm
          obtain ⟨⟨blanks, hblanks, hstands⟩, hbytes, hlen⟩ := fscanfWord_some hrest
          have hpre : word.takeWhile (· != 0) <+: word := List.takeWhile_prefix _
          refine .inr ⟨⟨fun b hb => ⟨?_, hbytes b (hpre.subset hb)⟩, hpre.length_le.trans hlen⟩, segment,
            List.mem_cons_self, htype, blanks, hblanks, ?_⟩
          · simpa using List.mem_takeWhile_imp hb
          · rw [← hdrop]
            exact (List.prefix_append_right_inj _ |>.2 hpre).trans hstands
        · exact .inr ⟨hname, other, List.mem_cons_of_mem _ hmem, hother⟩
    · obtain hold | ⟨hname, other, hmem, hother⟩ := ih h
      · exact .inl hold
      · exact .inr ⟨hname, other, List.mem_cons_of_mem _ hmem, hother⟩

theorem getFileHeader_eIdent {h : ElfHeader} (hheader : getFileHeader file = some h) :
    h.eIdent = file.take eiNident := by
  simp only [getFileHeader] at hheader
  split_ifs at hheader <;> exact (congrArg ElfHeader.eIdent (Option.some.inj hheader)).symm

/-- The program headers are those of the file, if the entries are not shorter than the structure. -/
theorem mem_getProgramHeaders {h : ElfHeader} (hsegments : getProgramHeaders h file heap = some segments)
    (hsize : h.externalPhdr.size ≤ h.fields .ePhentsize) {segment : Phdr} (hmem : segment ∈ segments) :
    ∃ i < h.fields .ePhnum,
      segment = h.externalPhdr.get h.byteGet (file.drop (h.fields .ePhoff + i * h.externalPhdr.size)) := by
  obtain ⟨block, hblock, rfl⟩ := Option.map_eq_some_iff.1 hsegments
  obtain ⟨i, hi, rfl⟩ := List.mem_map.1 hmem
  rw [List.mem_range] at hi
  refine ⟨i, hi, funext fun f => ?_⟩
  have hmul : h.fields .ePhnum * h.externalPhdr.size ≤ h.fields .ePhentsize * h.fields .ePhnum := by
    rw [Nat.mul_comm]
    exact Nat.mul_le_mul_right _ hsize
  have hentry : i * h.externalPhdr.size + h.externalPhdr.size ≤ h.fields .ePhnum * h.externalPhdr.size := by
    rw [← Nat.succ_mul]
    exact Nat.mul_le_mul_right _ hi
  -- the block has at least the bytes that are looked at
  obtain ⟨rest, hrest, hlen, rfl⟩ : ∃ rest, rest = file.drop (h.fields .ePhoff) ∧
      h.fields .ePhentsize * h.fields .ePhnum ≤ rest.length ∧
      block = rest.take (h.fields .ePhentsize * h.fields .ePhnum) ++ [0] := by
    rw [getData, fseek] at hblock
    split_ifs at hblock
    simp only at hblock
    split_ifs at hblock with hroom
    exact ⟨_, rfl, Nat.le_of_not_lt hroom, (Option.some.inj hblock).symm⟩
  have hbytes : blockBytes (rest.take (h.fields .ePhentsize * h.fields .ePhnum) ++ [0]) heap
      (h.fields .ePhnum * h.externalPhdr.size) = rest.take (h.fields .ePhnum * h.externalPhdr.size) := by
    have hlong : (rest.take (h.fields .ePhentsize * h.fields .ePhnum)).length =
        h.fields .ePhentsize * h.fields .ePhnum := by rw [List.length_take, Nat.min_eq_left hlen]
    rw [blockBytes, List.length_append, hlong, List.take_append_of_le_length (by omega), List.take_take,
      Nat.min_eq_left hmul, Nat.sub_eq_zero_of_le (by omega)]
    simp
  rw [hbytes, ← List.drop_drop, ← hrest]
  have hroom : h.externalPhdr.size ≤ ((rest.take (h.fields .ePhnum * h.externalPhdr.size)).drop
      (i * h.externalPhdr.size)).length := by
    rw [List.length_drop, List.length_take, Nat.min_eq_left (hmul.trans hlen)]
    omega
  rw [← Shape.get_append h.byteGet hroom (rest.drop (h.fields .ePhnum * h.externalPhdr.size)),
    ← List.drop_append_of_le_length (by rw [List.length_take, Nat.min_eq_left (hmul.trans hlen)]; omega),
    List.take_append_drop]

/-! ## The interpreter of a program -/

theorem findElfProgramInterpreter_eq (h : img.Holds file) :
    findElfProgramInterpreter (some file) heap = .ok (findInterp file img.segments {}) := by
  have hmagic : img.elfHeader.eIdent.take 4 = elfmag := rfl
  have hnum : img.elfHeader.fields .ePhnum = img.segments.length := h.phnum
  simp only [findElfProgramInterpreter, getFileHeader_image h]
  rw [if_neg (not_not.2 hmagic), hnum]
  split_ifs with hnone
  · rw [List.length_eq_zero_iff.1 hnone, findInterp]
  · rw [getProgramHeaders_image h fun hnil => hnone (by rw [hnil]; rfl)]

/-- The headers of a program for x86-64, with the name of its linker right behind them. -/
def tinyImage : ElfImage where
  order := .little
  is64 := true
  ident := [1, 0, 0, 0, 0, 0, 0, 0, 0, 0]
  ident_length := rfl
  header
    | .eType => 2
    | .eMachine => 62
    | .ePhoff => 64
    | .ePhentsize => 56
    | .ePhnum => 1
    | _ => 0
  segments := [fun
    | .pType => 3
    | .pOffset => 120
    | .pFilesz => 11
    | _ => 0]

def tinyFile : List Byte := tinyImage.eIdent ++ tinyImage.ehdr.put tinyImage.order tinyImage.header ++
  tinyImage.segments.flatMap (tinyImage.phdr.put tinyImage.order) ++ str "/lib/ld.so" ++ [0]

theorem tinyImage_holds : tinyImage.Holds tinyFile where
  ident := by decide
  header := by decide
  fits := by unfold Shape.Fits; decide
  phnum := rfl
  phentsize := rfl
  phoff := by decide
  table := by decide
  segments_fit := by unfold Shape.Fits; decide

theorem ElfImage.Holds.append (h : img.Holds file) (tail : List Byte) : img.Holds (file ++ tail) :=
  have hdrop : ∀ k, file.drop k <+: (file ++ tail).drop k := fun k => by
    rw [List.drop_append]
    exact List.prefix_append _ _
  { h with
    ident := h.ident.trans (List.prefix_append file tail)
    header := h.header.trans (hdrop _)
    table := h.table.trans (hdrop _) }

theorem tinyFile_drop (tail : List Byte) : (tinyFile ++ tail).drop 120 = str "/lib/ld.so" ++ [0] ++ tail := by
  have hlen : tinyFile.length = 131 := rfl
  rw [List.drop_append_of_le_length (by rw [hlen]; decide)]
  rfl

theorem tinyImage_names (tail : List Byte) : ∀ segment ∈ tinyImage.segments, segment .pType = ptInterp →
    Names (tinyFile ++ tail) (fun _ => str "/lib/ld.so") segment := by
  intro segment hmem _
  obtain rfl := List.mem_singleton.1 hmem
  refine ⟨by decide, ⟨by decide +kernel, by decide⟩, ?_⟩
  have hdrop : (tinyFile ++ tail).drop 120 = str "/lib/ld.so" ++ [0] ++ tail := tinyFile_drop tail
  exact ⟨tail, hdrop.symm⟩

theorem findElfProgramInterpreter_tinyFile (heap : ℕ → Byte) :
    ∃ found, findElfProgramInterpreter (some tinyFile) heap = .ok found ∧ found.name = some (str "/lib/ld.so") := by
  have hname := @findInterp_name tinyFile tinyImage.segments {} _ (by simpa using tinyImage_names [])
  exact ⟨_, findElfProgramInterpreter_eq tinyImage_holds, hname⟩

/-- The header of a program without segments. -/
def staticImage : ElfImage :=
  { tinyImage with
    header := fun | .eType => 2 | .eMachine => 62 | .ePhoff => 64 | .ePhentsize => 56 | _ => 0
    segments := [] }

def staticFile : List Byte := staticImage.eIdent ++ staticImage.ehdr.put staticImage.order staticImage.header

theorem staticImage_holds : staticImage.Holds staticFile where
  ident := by decide
  header := by decide
  fits := by unfold Shape.Fits; decide
  phnum := rfl
  phentsize := rfl
  phoff := by decide
  table := by decide
  segments_fit := by simp [staticImage]

/-- **One byte too many is written to `program_interpreter` exactly if no blank comes early enough.** The zero at the
end of a name does not stop `fscanf`. -/
theorem findElfProgramInterpreter_image_overrun (img : ElfImage) (file : List Byte) (heap : ℕ → Byte)
    (path : Phdr → CString) (h : img.Holds file)
    (hnames : ∀ segment ∈ img.segments, segment .pType = ptInterp → Names file path segment) :
    ∃ found, findElfProgramInterpreter (some file) heap = .ok found ∧ found.written ≤ pathMax + 1 ∧
      (found.written = pathMax + 1 ↔ ∃ segment ∈ img.segments, segment .pType = ptInterp ∧
        pathMax ≤ (wordAt (file.drop (segment .pOffset))).length) := by
  have hle : (findInterp file img.segments {}).written ≤ pathMax + 1 := findInterp_written_le (Nat.zero_le _)
  have hlt : pathMax < (findInterp file img.segments {}).written ↔ ∃ segment ∈ img.segments,
      segment .pType = ptInterp ∧ pathMax ≤ (wordAt (file.drop (segment .pOffset))).length :=
    (findInterp_written hnames).trans (or_iff_right (Nat.not_lt_zero _))
  refine ⟨_, findElfProgramInterpreter_eq h, hle, ?_⟩
  rw [← hlt]
  omega

/-- The name is followed by bytes that are no blanks. -/
theorem findElfProgramInterpreter_image_overrun_tinyFile :
    ∃ found, findElfProgramInterpreter (some (tinyFile ++ List.replicate 4085 1)) (fun _ => 0) = .ok found ∧
      found.written = pathMax + 1 := by
  obtain ⟨found, hfound, -, hiff⟩ := findElfProgramInterpreter_image_overrun tinyImage
    (tinyFile ++ List.replicate 4085 1) (fun _ => 0) (fun _ => str "/lib/ld.so") (tinyImage_holds.append _)
    (tinyImage_names _)
  refine ⟨found, hfound, hiff.2 ⟨_, List.mem_singleton.2 rfl, rfl, ?_⟩⟩
  have hpos : ∀ b ∈ str "/lib/ld.so" ++ [0] ++ List.replicate 4085 1, (!isspace b) = true := by
    have hname : ∀ b ∈ str "/lib/ld.so" ++ [0], (!isspace b) = true := by decide +kernel
    intro b hb
    obtain hb | hb := List.mem_append.1 hb
    · exact hname b hb
    · rw [List.eq_of_mem_replicate hb]
      rfl
  have hword : wordAt ((tinyFile ++ List.replicate 4085 1).drop 120) =
      str "/lib/ld.so" ++ [0] ++ List.replicate 4085 1 := by
    rw [tinyFile_drop, wordAt, List.takeWhile_eq_self_iff.2 hpos]
  have hlen : (wordAt ((tinyFile ++ List.replicate 4085 1).drop 120)).length = pathMax := by
    rw [hword, List.length_append, List.length_replicate]
    rfl
  exact hlen.ge

end Ptu
