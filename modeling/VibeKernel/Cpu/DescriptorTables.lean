import VibeKernel.Lib.Protection

/-!
# The descriptor tables

`src/cpu/gdt.c`, `src/cpu/idt.c` and the gates of `src/cpu/isr.c`: the structures that the kernel
fills in, with their layout in bytes, and the tables that the processor reads from these bytes.

`gdtSetGate_read` and `setIdtGate_read` say that the processor reads what the functions were given,
but for the upper bits of a limit, and of the granularity its lower ones.
-/

namespace VibeKernel

open Verif.X86

/-! ### The segments -/

/-- `gdt_entry_t`. -/
structure GdtEntry where
  limitLow : BitVec 16
  baseLow : BitVec 16
  baseMiddle : BitVec 8
  access : BitVec 8
  granularity : BitVec 8
  baseHigh : BitVec 8

/-- A byte of a half word. -/
def halfByte (x : BitVec 16) (j : ℕ) : BitVec 8 := x.extractLsb' (8 * j) 8

/-- A byte of a word. -/
def wordByte (x : BitVec 32) (j : ℕ) : BitVec 8 := x.extractLsb' (8 * j) 8

/-- The packed layout of `gdt_entry_t`. -/
def GdtEntry.byte (e : GdtEntry) : ℕ → BitVec 8
  | 0 => halfByte e.limitLow 0
  | 1 => halfByte e.limitLow 1
  | 2 => halfByte e.baseLow 0
  | 3 => halfByte e.baseLow 1
  | 4 => e.baseMiddle
  | 5 => e.access
  | 6 => e.granularity
  | 7 => e.baseHigh
  | _ => 0

/-- `gdt_set_gate`. -/
def gdtSetGate (gdt : ℕ → GdtEntry) (num : ℕ) (base limit : BitVec 32) (access gran : BitVec 8) :
    ℕ → GdtEntry :=
  Function.update gdt num
    { baseLow := (base &&& 0xFFFF).setWidth 16
      baseMiddle := ((base >>> 16) &&& 0xFF).setWidth 8
      baseHigh := ((base >>> 24) &&& 0xFF).setWidth 8
      limitLow := (limit &&& 0xFFFF).setWidth 16
      granularity := ((limit >>> 16) &&& 0x0F).setWidth 8 ||| (gran &&& 0xF0)
      access := access }

/-- `tss_entry_t`. -/
structure TssEntry where
  prevTss : BitVec 32
  esp0 : BitVec 32
  ss0 : BitVec 32
  esp1 : BitVec 32
  ss1 : BitVec 32
  esp2 : BitVec 32
  ss2 : BitVec 32
  cr3 : BitVec 32
  eip : BitVec 32
  eflags : BitVec 32
  eax : BitVec 32
  ecx : BitVec 32
  edx : BitVec 32
  ebx : BitVec 32
  esp : BitVec 32
  ebp : BitVec 32
  esi : BitVec 32
  edi : BitVec 32
  es : BitVec 32
  cs : BitVec 32
  ss : BitVec 32
  ds : BitVec 32
  fs : BitVec 32
  gs : BitVec 32
  ldt : BitVec 32
  trap : BitVec 16
  iomapBase : BitVec 16

/-- The words of `tss_entry_t`; the last has two fields. -/
def TssEntry.words (t : TssEntry) : List (BitVec 32) :=
  [t.prevTss, t.esp0, t.ss0, t.esp1, t.ss1, t.esp2, t.ss2, t.cr3, t.eip, t.eflags,
    t.eax, t.ecx, t.edx, t.ebx, t.esp, t.ebp, t.esi, t.edi, t.es, t.cs, t.ss, t.ds, t.fs, t.gs,
    t.ldt, t.iomapBase ++ t.trap]

/-- `sizeof(tss_entry)`. -/
def sizeofTss : ℕ := 104

/-- The packed layout of `tss_entry_t`. -/
def TssEntry.byte (t : TssEntry) (k : ℕ) : BitVec 8 := wordByte (t.words.getD (k / 4) 0) (k % 4)

/-- All bytes are zero. -/
def TssEntry.zero : TssEntry where
  prevTss := 0
  esp0 := 0
  ss0 := 0
  esp1 := 0
  ss1 := 0
  esp2 := 0
  ss2 := 0
  cr3 := 0
  eip := 0
  eflags := 0
  eax := 0
  ecx := 0
  edx := 0
  ebx := 0
  esp := 0
  ebp := 0
  esi := 0
  edi := 0
  es := 0
  cs := 0
  ss := 0
  ds := 0
  fs := 0
  gs := 0
  ldt := 0
  trap := 0
  iomapBase := 0

/-- `GDT_ACCESS_PRESENT`. -/
def gdtAccessPresent : BitVec 8 := 0x80

/-- `GDT_ACCESS_DPL3`. -/
def gdtAccessDpl3 : BitVec 8 := 0x60

/-- `GDT_ACCESS_S`. -/
def gdtAccessS : BitVec 8 := 0x10

/-- `GDT_ACCESS_TYPE_CODE_EXREAD`. -/
def gdtAccessTypeCodeExread : BitVec 8 := 0x0A

/-- `GDT_ACCESS_TYPE_DATA_RDWR`. -/
def gdtAccessTypeDataRdwr : BitVec 8 := 0x02

/-- `GDT_ACCESS_TSS`. -/
def gdtAccessTss : BitVec 8 := 0x89

/-- `GDT_GRAN_4KB`. -/
def gdtGran4kb : BitVec 8 := 0x80

/-- `GDT_GRAN_32BIT`. -/
def gdtGran32bit : BitVec 8 := 0x40

/-- `gdt` and `tss_entry`. -/
structure Segmentation where
  gdt : ℕ → GdtEntry
  tssEntry : TssEntry

/-- `write_tss`, with the address of `tss_entry`. -/
def writeTss (tssAddr : BitVec 32) (s : Segmentation) (num : ℕ) (ss0 : BitVec 16)
    (esp0 : BitVec 32) :
    Segmentation where
  gdt := gdtSetGate s.gdt num tssAddr (BitVec.ofNat 32 (sizeofTss - 1)) gdtAccessTss 0x00
  tssEntry := { TssEntry.zero with
    ss0 := ss0.setWidth 32
    esp0 := esp0
    cs := 0x08
    ss := 0x10
    ds := 0x10
    es := 0x10
    fs := 0x10
    gs := 0x10 }

/-- `gdt_init`, up to the loading of the registers. -/
def gdtInit (tssAddr : BitVec 32) (s : Segmentation) : Segmentation :=
  let gdt := gdtSetGate s.gdt 0 0 0 0 0
  let gdt := gdtSetGate gdt 1 0 0xFFFFFFFF
    (gdtAccessPresent ||| gdtAccessS ||| gdtAccessTypeCodeExread) (gdtGran4kb ||| gdtGran32bit)
  let gdt := gdtSetGate gdt 2 0 0xFFFFFFFF
    (gdtAccessPresent ||| gdtAccessS ||| gdtAccessTypeDataRdwr) (gdtGran4kb ||| gdtGran32bit)
  let gdt := gdtSetGate gdt 3 0 0xFFFFFFFF
    (gdtAccessPresent ||| gdtAccessDpl3 ||| gdtAccessS ||| gdtAccessTypeCodeExread)
    (gdtGran4kb ||| gdtGran32bit)
  let gdt := gdtSetGate gdt 4 0 0xFFFFFFFF
    (gdtAccessPresent ||| gdtAccessDpl3 ||| gdtAccessS ||| gdtAccessTypeDataRdwr)
    (gdtGran4kb ||| gdtGran32bit)
  writeTss tssAddr { s with gdt := gdt } 5 0x10 0x00

/-- `gdt_ptr.limit`. -/
def gdtPtrLimit : ℕ := 8 * 6 - 1

/-- `task_switch` sets the stack for the handlers. -/
def Segmentation.setEsp0 (s : Segmentation) (esp0 : BitVec 32) : Segmentation :=
  { s with tssEntry := { s.tssEntry with esp0 := esp0 } }

/-! ### The gates -/

/-- `idt_gate_t`. -/
structure IdtGate where
  lowOffset : BitVec 16
  sel : BitVec 16
  always0 : BitVec 8
  flags : BitVec 8
  highOffset : BitVec 16

/-- The packed layout of `idt_gate_t`. -/
def IdtGate.byte (g : IdtGate) : ℕ → BitVec 8
  | 0 => halfByte g.lowOffset 0
  | 1 => halfByte g.lowOffset 1
  | 2 => halfByte g.sel 0
  | 3 => halfByte g.sel 1
  | 4 => g.always0
  | 5 => g.flags
  | 6 => halfByte g.highOffset 0
  | 7 => halfByte g.highOffset 1
  | _ => 0

/-- `IDT_ENTRIES`. -/
def idtEntries : ℕ := 256

/-- `IDT_PRESENT`. -/
def idtPresent : BitVec 8 := 0x80

/-- `IDT_DPL_0`. -/
def idtDpl0 : BitVec 8 := 0x00

/-- `IDT_TYPE_INTERRUPT_GATE_32`. -/
def idtTypeInterruptGate32 : BitVec 8 := 0x0E

/-- The selector that `set_idt_gate` writes, `KERNEL_CS`. -/
def idtKernelCs : BitVec 16 := 0x08

/-- `set_idt_gate`. -/
def setIdtGate (idt : ℕ → IdtGate) (n : ℕ) (handler : BitVec 32) (flags : BitVec 8) : ℕ → IdtGate :=
  Function.update idt n
    { lowOffset := (handler &&& 0xFFFF).setWidth 16
      sel := idtKernelCs
      always0 := 0
      flags := flags
      highOffset := ((handler >>> 16) &&& 0xFFFF).setWidth 16 }

/-- The gates of `isr_install`, for the exceptions and then for the devices, with the addresses of
`isr0`, …, `isr31`, `irq0`, …, `irq15`. -/
def isrInstall (stubAddr : ℕ → BitVec 32) (idt : ℕ → IdtGate) : ℕ → IdtGate :=
  let flags := idtPresent ||| idtDpl0 ||| idtTypeInterruptGate32
  let isrs := (List.range 32).foldl (fun idt n => setIdtGate idt n (stubAddr n) flags) idt
  (List.range' 32 16).foldl (fun idt n => setIdtGate idt n (stubAddr n) flags) isrs

/-- The table that C leaves before the first call. -/
def idtBoot : ℕ → IdtGate := fun _ => ⟨0, 0, 0, 0, 0⟩

/-! ### What the processor reads -/

/-- The bytes of `tss_entry` in memory. -/
def placed (tssAddr : BitVec 32) (t : TssEntry) (a : BitVec 32) : BitVec 8 :=
  t.byte (a - tssAddr).toNat

/-- The table of `lgdt`. -/
def gdtTable (s : Segmentation) : Table where
  limit := gdtPtrLimit
  byte k := (s.gdt (k / 8)).byte (k % 8)

/-- The table of `lidt`. -/
def idtTable (idt : ℕ → IdtGate) : Table where
  limit := idtEntries * 8 - 1
  byte k := (idt (k / 8)).byte (k % 8)

/-- The segment of `ltr`, at the descriptor of the selector `0x28`. -/
def tssTable (tssAddr : BitVec 32) (s : Segmentation) : Table where
  limit := (Descriptor.ofBytes (s.gdt 5).byte).limit.toNat
  byte k := placed tssAddr s.tssEntry ((Descriptor.ofBytes (s.gdt 5).byte).base + BitVec.ofNat 32 k)

/-- The tables of the kernel. It loads no local table. -/
def kernelSystem (tssAddr : BitVec 32) (s : Segmentation) (idt : ℕ → IdtGate) : System where
  gdt := gdtTable s
  ldt _ := none
  idt := idtTable idt
  tss := tssTable tssAddr s

section Reading

/-- The lower bits of a word. -/
theorem lowBits_setWidth {n : ℕ} (h : n ≤ 32) (x : BitVec 32) :
    (x &&& BitVec.ofNat 32 (2 ^ n - 1)).setWidth n = x.extractLsb' 0 n := by
  apply BitVec.eq_of_toNat_eq
  have hlt : 2 ^ n - 1 < 2 ^ 32 := by
    have := Nat.pow_le_pow_right (show 0 < 2 by decide) h
    omega
  rw [BitVec.toNat_setWidth, BitVec.toNat_and, BitVec.toNat_ofNat, Nat.mod_eq_of_lt hlt,
    Nat.and_two_pow_sub_one_eq_mod, Nat.mod_mod, BitVec.extractLsb'_toNat, Nat.shiftRight_zero]

/-- Bits of a word that was shifted. -/
theorem shifted_setWidth {n : ℕ} (h : n ≤ 32) (x : BitVec 32) (k : ℕ) :
    ((x >>> k) &&& BitVec.ofNat 32 (2 ^ n - 1)).setWidth n = x.extractLsb' k n := by
  rw [lowBits_setWidth h]
  apply BitVec.eq_of_toNat_eq
  rw [BitVec.extractLsb'_toNat, BitVec.extractLsb'_toNat, BitVec.toNat_ushiftRight,
    Nat.shiftRight_zero]

/-- A byte of the lower half. -/
theorem halfByte_low (x : BitVec 32) {j : ℕ} (h : j < 2) :
    halfByte (x.extractLsb' 0 16) j = wordByte x j := by
  unfold halfByte wordByte
  ext i hi
  simp
  omega

/-- A byte of the upper half. -/
theorem halfByte_high (x : BitVec 32) {j : ℕ} (h : j < 2) :
    halfByte (x.extractLsb' 16 16) j = wordByte x (j + 2) := by
  unfold halfByte wordByte
  ext i hi
  have hsum : 16 + (8 * j + i) = 8 * (j + 2) + i := by omega
  simp only [BitVec.getElem_extractLsb', BitVec.getLsbD_extractLsb', hsum]
  simp
  omega

theorem wordByte_append (x : BitVec 32) :
    wordByte x 3 ++ wordByte x 2 ++ wordByte x 1 ++ wordByte x 0 = x := by
  unfold wordByte
  rw [BitVec.extractLsb'_append_extractLsb'_eq_extractLsb' (by rfl),
    BitVec.extractLsb'_append_extractLsb'_eq_extractLsb' (by rfl),
    BitVec.extractLsb'_append_extractLsb'_eq_extractLsb' (by rfl)]
  exact BitVec.extractLsb'_eq_self

/-- **A segment is read as it was set**, with 20 bits of its limit and the upper half of its
granularity. -/
theorem gdtSetGate_read (gdt : ℕ → GdtEntry) (num : ℕ) (base limit : BitVec 32)
    (access gran : BitVec 8) :
    Descriptor.ofBytes (gdtSetGate gdt num base limit access gran num).byte =
      ⟨base, limit.extractLsb' 0 20, access, gran.extractLsb' 4 4⟩ := by
  unfold gdtSetGate
  rw [Function.update_self, Descriptor.mk.injEq]
  refine ⟨?_, ?_, rfl, ?_⟩
  · have hlow : (base &&& 0xFFFF).setWidth 16 = base.extractLsb' 0 16 :=
      @lowBits_setWidth 16 (by decide) base
    have hmiddle : ((base >>> 16) &&& 0xFF).setWidth 8 = wordByte base 2 :=
      @shifted_setWidth 8 (by decide) base 16
    have hhigh : ((base >>> 24) &&& 0xFF).setWidth 8 = wordByte base 3 :=
      @shifted_setWidth 8 (by decide) base 24
    change ((base >>> 24) &&& 0xFF).setWidth 8 ++ ((base >>> 16) &&& 0xFF).setWidth 8 ++
      halfByte ((base &&& 0xFFFF).setWidth 16) 1 ++
      halfByte ((base &&& 0xFFFF).setWidth 16) 0 = base
    rw [hlow, hmiddle, hhigh, halfByte_low base (by decide), halfByte_low base (by decide)]
    exact wordByte_append base
  · have hlow : (limit &&& 0xFFFF).setWidth 16 = limit.extractLsb' 0 16 :=
      @lowBits_setWidth 16 (by decide) limit
    have hhigh : (((limit >>> 16) &&& 0x0F).setWidth 8 ||| (gran &&& 0xF0)).extractLsb' 0 4 =
        limit.extractLsb' 16 4 := by
      ext i hi
      simp
      interval_cases i <;> simp
    change (((limit >>> 16) &&& 0x0F).setWidth 8 ||| (gran &&& 0xF0)).extractLsb' 0 4 ++
      halfByte ((limit &&& 0xFFFF).setWidth 16) 1 ++ halfByte ((limit &&& 0xFFFF).setWidth 16) 0 = _
    rw [hlow, hhigh, halfByte_low limit (by decide), halfByte_low limit (by decide)]
    unfold wordByte
    rw [BitVec.extractLsb'_append_extractLsb'_eq_extractLsb' (by rfl),
      BitVec.extractLsb'_append_extractLsb'_eq_extractLsb' (by rfl)]
  · change (((limit >>> 16) &&& 0x0F).setWidth 8 ||| (gran &&& 0xF0)).extractLsb' 4 4 = _
    ext i hi
    simp
    interval_cases i <;> simp

theorem gdtSetGate_other {gdt : ℕ → GdtEntry} {num k : ℕ} {base limit : BitVec 32}
    {access gran : BitVec 8} (h : k ≠ num) : gdtSetGate gdt num base limit access gran k = gdt k :=
  Function.update_of_ne h _ _

/-- **A gate is read as it was set**, in the code segment of the kernel. -/
theorem setIdtGate_read (idt : ℕ → IdtGate) (n : ℕ) (handler : BitVec 32) (flags : BitVec 8) :
    GateEntry.ofBytes (setIdtGate idt n handler flags n).byte = ⟨handler, idtKernelCs, flags⟩ := by
  unfold setIdtGate
  rw [Function.update_self, GateEntry.mk.injEq]
  refine ⟨?_, ?_, rfl⟩
  · have hlow : (handler &&& 0xFFFF).setWidth 16 = handler.extractLsb' 0 16 :=
      @lowBits_setWidth 16 (by decide) handler
    have hhigh : ((handler >>> 16) &&& 0xFFFF).setWidth 16 = handler.extractLsb' 16 16 :=
      @shifted_setWidth 16 (by decide) handler 16
    change halfByte (((handler >>> 16) &&& 0xFFFF).setWidth 16) 1 ++
      halfByte (((handler >>> 16) &&& 0xFFFF).setWidth 16) 0 ++
      halfByte ((handler &&& 0xFFFF).setWidth 16) 1 ++
      halfByte ((handler &&& 0xFFFF).setWidth 16) 0 =
        handler
    rw [hlow, hhigh, halfByte_low handler (by decide), halfByte_low handler (by decide),
      halfByte_high handler (by decide), halfByte_high handler (by decide)]
    exact wordByte_append handler
  · change halfByte idtKernelCs 1 ++ halfByte idtKernelCs 0 = idtKernelCs
    decide

theorem setIdtGate_other {idt : ℕ → IdtGate} {n k : ℕ} {handler : BitVec 32} {flags : BitVec 8}
    (h : k ≠ n) : setIdtGate idt n handler flags k = idt k :=
  Function.update_of_ne h _ _

end Reading

/-! ### The tables of the kernel -/

section Kernel

variable {tssAddr esp0 : BitVec 32} {s : Segmentation} {stubAddr : ℕ → BitVec 32}
    {idt : ℕ → IdtGate}

/-- A segment of all addresses. -/
def flat (access : BitVec 8) : Descriptor := ⟨0, 0xFFFFF, access, 0xC⟩

/-- The code of the kernel. -/
def kernelCode : Descriptor := flat 0x9A

/-- The data of the kernel. -/
def kernelData : Descriptor := flat 0x92

/-- The code of a program. -/
def userCode : Descriptor := flat 0xFA

/-- The data of a program. -/
def userData : Descriptor := flat 0xF2

/-- The task state segment. -/
def taskState (tssAddr : BitVec 32) : Descriptor := ⟨tssAddr, 103, 0x89, 0⟩

/-- The segments that the kernel sets up. -/
def kernelDescriptor (tssAddr : BitVec 32) : ℕ → Option Descriptor
  | 0 => some ⟨0, 0, 0, 0⟩
  | 1 => some kernelCode
  | 2 => some kernelData
  | 3 => some userCode
  | 4 => some userData
  | 5 => some (taskState tssAddr)
  | _ => none

/-- What the checks look at. -/
theorem kernelCode_fields : kernelCode.isSegment = true ∧ kernelCode.isCode = true ∧
    kernelCode.conforming = false ∧ kernelCode.readable = true ∧ kernelCode.writable = false ∧
    kernelCode.dpl = 0 ∧ kernelCode.present = true := by decide

theorem kernelData_fields : kernelData.isSegment = true ∧ kernelData.isCode = false ∧
    kernelData.conforming = false ∧ kernelData.readable = true ∧ kernelData.writable = true ∧
    kernelData.dpl = 0 ∧ kernelData.present = true := by decide

theorem userCode_fields : userCode.isSegment = true ∧ userCode.isCode = true ∧
    userCode.conforming = false ∧ userCode.readable = true ∧ userCode.writable = false ∧
    userCode.dpl = 3 ∧ userCode.present = true := by decide

theorem userData_fields : userData.isSegment = true ∧ userData.isCode = false ∧
    userData.conforming = false ∧ userData.readable = true ∧ userData.writable = true ∧
    userData.dpl = 3 ∧ userData.present = true := by decide

theorem taskState_fields (tssAddr : BitVec 32) : (taskState tssAddr).isSegment = false ∧
    (taskState tssAddr).isCode = false ∧ (taskState tssAddr).readable = false ∧
    (taskState tssAddr).writable = false ∧ (taskState tssAddr).dpl = 0 := by
  -- the base is not looked at
  change (taskState 0).isSegment = false ∧ (taskState 0).isCode = false ∧
    (taskState 0).readable = false ∧ (taskState 0).writable = false ∧ (taskState 0).dpl = 0
  decide

/-- Eight bytes from a multiple of eight on. -/
theorem byte_of_entry {α : Type} (f : ℕ → ℕ → α) (i : ℕ) {j : ℕ} (h : j < 8) :
    f ((8 * i + j) / 8) ((8 * i + j) % 8) = f i j := by
  rw [show (8 * i + j) / 8 = i by omega, show (8 * i + j) % 8 = j by omega]

/-- What `gdt_init` leaves in an entry. -/
theorem gdtInit_read (i : ℕ) (hi : i < 6) :
    some (Descriptor.ofBytes ((gdtInit tssAddr s).gdt i).byte) = kernelDescriptor tssAddr i := by
  unfold gdtInit writeTss
  dsimp only
  interval_cases i
  · rw [gdtSetGate_other (by decide), gdtSetGate_other (by decide), gdtSetGate_other (by decide),
      gdtSetGate_other (by decide), gdtSetGate_other (by decide), gdtSetGate_read]
    rfl
  · rw [gdtSetGate_other (by decide), gdtSetGate_other (by decide), gdtSetGate_other (by decide),
      gdtSetGate_other (by decide), gdtSetGate_read]
    rfl
  · rw [gdtSetGate_other (by decide), gdtSetGate_other (by decide), gdtSetGate_other (by decide),
      gdtSetGate_read]
    rfl
  · rw [gdtSetGate_other (by decide), gdtSetGate_other (by decide), gdtSetGate_read]
    rfl
  · rw [gdtSetGate_other (by decide), gdtSetGate_read]
    rfl
  · rw [gdtSetGate_read]
    rfl

/-- **The descriptor of a selector.** -/
theorem kernel_find (sel : BitVec 16) :
    (kernelSystem tssAddr ((gdtInit tssAddr s).setEsp0 esp0) idt).find sel =
      if selectorLocal sel then none else kernelDescriptor tssAddr (selectorIndex sel) := by
  unfold System.find
  by_cases hlocal : selectorLocal sel
  · rw [if_pos hlocal, if_pos hlocal]
    rfl
  rw [if_neg hlocal, if_neg hlocal]
  change ((gdtTable _).entry _).map _ = _
  unfold Table.entry
  change (if 8 * selectorIndex sel + 7 ≤ gdtPtrLimit then _ else _ : Option _).map _ = _
  unfold gdtPtrLimit
  by_cases hi : selectorIndex sel < 6
  · rw [if_pos (by omega), Option.map_some, ← gdtInit_read (s := s) _ hi]
    refine congrArg some (Descriptor.ofBytes_congr fun j hj => ?_)
    exact byte_of_entry (fun i j => ((gdtInit tssAddr s).gdt i).byte j) _ hj
  · rw [if_neg (by omega)]
    obtain ⟨k, hk⟩ : ∃ k, selectorIndex sel = k + 6 := ⟨selectorIndex sel - 6, by omega⟩
    rw [hk]
    rfl

/-- The bytes of `tss_entry` are where the descriptor says. -/
theorem tssTable_byte (k : ℕ) (hk : k < 4294967296) :
    (tssTable tssAddr ((gdtInit tssAddr s).setEsp0 esp0)).byte k =
      ((gdtInit tssAddr s).setEsp0 esp0).tssEntry.byte k := by
  have hbase : (Descriptor.ofBytes ((gdtInit tssAddr s).gdt 5).byte).base = tssAddr := by
    rw [Option.some.inj (gdtInit_read 5 (by decide))]
    rfl
  change placed tssAddr _ ((Descriptor.ofBytes ((gdtInit tssAddr s).gdt 5).byte).base +
    BitVec.ofNat 32 k) = _
  unfold placed
  rw [hbase, BitVec.add_comm, BitVec.add_sub_cancel, BitVec.toNat_ofNat, Nat.mod_eq_of_lt hk]

theorem tssTable_half (k : ℕ) (hk : k + 1 < 4294967296) :
    (tssTable tssAddr ((gdtInit tssAddr s).setEsp0 esp0)).half k =
      ((gdtInit tssAddr s).setEsp0 esp0).tssEntry.byte (k + 1) ++
        ((gdtInit tssAddr s).setEsp0 esp0).tssEntry.byte k := by
  unfold Table.half
  rw [tssTable_byte (k + 1) hk, tssTable_byte k (Nat.lt_of_succ_lt hk)]

theorem tssTable_limit : (tssTable tssAddr ((gdtInit tssAddr s).setEsp0 esp0)).limit = 103 := by
  change (Descriptor.ofBytes ((gdtInit tssAddr s).gdt 5).byte).limit.toNat = 103
  rw [Option.some.inj (gdtInit_read 5 (by decide))]
  rfl

/-- **The stack for the handlers**, from the task state segment. -/
theorem kernel_innerStack :
    (kernelSystem tssAddr ((gdtInit tssAddr s).setEsp0 esp0) idt).innerStack 0 =
      .ok (0x10, esp0) := by
  have hss : (tssTable tssAddr ((gdtInit tssAddr s).setEsp0 esp0)).half 8 = 0x10 := by
    rw [tssTable_half 8 (by decide)]
    change wordByte (BitVec.setWidth 32 (0x10 : BitVec 16)) 1 ++
      wordByte (BitVec.setWidth 32 (0x10 : BitVec 16)) 0 = (0x10 : BitVec 16)
    decide
  have hesp : (tssTable tssAddr ((gdtInit tssAddr s).setEsp0 esp0)).word 4 = esp0 := by
    unfold Table.word
    rw [tssTable_half 4 (by decide), tssTable_half 6 (by decide)]
    change wordByte esp0 3 ++ wordByte esp0 2 ++ (wordByte esp0 1 ++ wordByte esp0 0) = esp0
    unfold wordByte
    rw [BitVec.extractLsb'_append_extractLsb'_eq_extractLsb' (by rfl),
      BitVec.extractLsb'_append_extractLsb'_eq_extractLsb' (by rfl),
      BitVec.extractLsb'_append_extractLsb'_eq_extractLsb' (by rfl)]
    exact BitVec.extractLsb'_eq_self
  refine System.innerStack_ok (by change 9 ≤ (tssTable _ _).limit; rw [tssTable_limit]; decide) hss
    hesp (by decide)
    ((kernel_find 0x10).trans (if_neg (by decide))) (by decide) ?_ ?_ ?_
  · exact kernelData_fields.2.2.2.2.2.1
  · exact kernelData_fields.2.2.2.2.1
  · exact kernelData_fields.2.2.2.2.2.2

/-- Gates that are set one after the other. -/
theorem setIdtGates_read (flags : BitVec 8) : ∀ (ns : List ℕ) (idt : ℕ → IdtGate) (v : ℕ),
    GateEntry.ofBytes ((ns.foldl (fun idt n => setIdtGate idt n (stubAddr n) flags) idt) v).byte =
      if v ∈ ns then ⟨stubAddr v, idtKernelCs, flags⟩ else GateEntry.ofBytes (idt v).byte
  | [], _, _ => (if_neg List.not_mem_nil).symm
  | n :: ns, idt, v => by
    rw [List.foldl_cons, setIdtGates_read flags ns]
    by_cases hmem : v ∈ ns
    · rw [if_pos hmem, if_pos (List.mem_cons_of_mem _ hmem)]
    rw [if_neg hmem]
    by_cases heq : v = n
    · subst heq
      rw [if_pos List.mem_cons_self, setIdtGate_read]
    · rw [setIdtGate_other heq, if_neg fun h => (List.mem_cons.mp h).elim heq hmem]

/-- **The gate of an interrupt**, after `isr_install`. -/
theorem isrInstall_gate {v : ℕ} (hv : v < 256) :
    ((idtTable (isrInstall stubAddr idtBoot)).entry v).map GateEntry.ofBytes =
      some (if v < 48 then ⟨stubAddr v, idtKernelCs, 0x8E⟩ else ⟨0, 0, 0⟩) := by
  unfold Table.entry
  change (if 8 * v + 7 ≤ idtEntries * 8 - 1 then _ else _ : Option _).map _ = _
  unfold idtEntries
  rw [if_pos (by omega), Option.map_some]
  refine congrArg some ?_
  calc GateEntry.ofBytes (fun j => (idtTable (isrInstall stubAddr idtBoot)).byte (8 * v + j))
      = GateEntry.ofBytes (isrInstall stubAddr idtBoot v).byte :=
        GateEntry.ofBytes_congr fun j hj =>
        byte_of_entry (fun i j => (isrInstall stubAddr idtBoot i).byte j) _ hj
    _ = _ := by
      unfold isrInstall
      rw [setIdtGates_read, setIdtGates_read]
      by_cases h32 : 32 ≤ v ∧ v < 32 + 16
      · rw [if_pos (List.mem_range'_1.mpr h32), if_pos (by omega)]
        rfl
      rw [if_neg (List.mem_range'_1.not.mpr h32)]
      by_cases hlow : v < 32
      · rw [if_pos (List.mem_range.mpr hlow), if_pos (by omega)]
        rfl
      · rw [if_neg (List.mem_range.not.mpr hlow), if_neg (by omega)]
        change GateEntry.ofBytes (IdtGate.mk 0 0 0 0 0).byte = ⟨0, 0, 0⟩
        decide

end Kernel

end VibeKernel
