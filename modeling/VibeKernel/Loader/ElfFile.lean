import VibeKernel.Kernel.LowHeap
import VibeKernel.Loader.ElfLoad

/-!
# What an ELF file says

The loader reads a stored file as a function of its bytes. `tablePos` is where it finds the program
headers, and for the header at a position `segmentOut` is what it reads for the segment. Both are
the places the header names only if these are in the file, since no result of `fseek` is looked at.

`Loads` says that the loader gets past a header and `Overruns` that the bytes it reads do not fit
into the block of the segment. `reader_loop` shows that the loop goes through the headers up to the
first one that does not load.
-/

namespace VibeKernel

open Verif

variable {H D : Type} {M : Machine H D} {E : Stop → Prop}

namespace StoredFile

/-! ### Headers and segments -/

/-- The ELF header. -/
def ehdr (x : StoredFile M) : ElfEhdr := ElfEhdr.decode (x.bytes.take elfEhdrSize)

/-- The file has a header, and it is that of an ELF file. -/
def HasEhdr (x : StoredFile M) : Prop := elfEhdrSize ≤ x.bytes.length ∧ elfIsValidHeader x.ehdr

/-- Where the loader finds the program headers. -/
def tablePos (x : StoredFile M) : ℕ := x.seekTo x.ehdr.phoff elfEhdrSize

/-- The program header at a position. -/
def phdrAt (x : StoredFile M) (pos : ℕ) : ElfPhdr :=
  ElfPhdr.decode ((x.bytes.drop pos).take elfPhdrSize)

/-- Where the loader reads the segment of the header at a position. -/
def segmentPos (x : StoredFile M) (pos : ℕ) : ℕ :=
  x.seekTo (x.phdrAt pos).offset (pos + elfPhdrSize)

/-- What it reads there. -/
def segmentOut (x : StoredFile M) (pos : ℕ) : List UInt8 :=
  x.out (x.segmentPos pos) (x.phdrAt pos).filesz

/-- The header at a position, with the bytes of its segment if it has one. -/
def readHeader (x : StoredFile M) (pos : ℕ) : ReadHeader :=
  (x.phdrAt pos, if (x.phdrAt pos).type = ptLoad then x.segmentOut pos else [])

/-- There is a program header at the position. -/
def HasPhdr (x : StoredFile M) (pos : ℕ) : Prop := pos + elfPhdrSize ≤ x.bytes.length

/-- The bytes of the segment are in the file, and there are some. -/
def HasSegment (x : StoredFile M) (pos : ℕ) : Prop :=
  0 < (x.phdrAt pos).filesz ∧ x.segmentPos pos + (x.phdrAt pos).filesz ≤ x.bytes.length

/-- What is read for the segment does not fit into its block. -/
def Overruns (x : StoredFile M) (pos : ℕ) : Prop :=
  x.HasPhdr pos ∧ (x.phdrAt pos).type = ptLoad ∧ (x.phdrAt pos).memsz < (x.segmentOut pos).length

/-- The loader gets past the header. -/
def Loads (x : StoredFile M) (pos : ℕ) : Prop :=
  x.HasPhdr pos ∧ ((x.phdrAt pos).type = ptLoad →
    x.HasSegment pos ∧ (x.segmentOut pos).length ≤ (x.phdrAt pos).memsz)

section Reading

variable {x : StoredFile M} {slot pos n : ℕ} {fd : ℤ} {hfd : fdSlot fd = some slot}

theorem not_overruns_of_loads (h : x.Loads pos) : ¬ x.Overruns pos := by
  rintro ⟨-, htype, hlong⟩
  exact absurd (h.2 htype).2 (Nat.not_le.mpr hlong)

theorem seekTo_inside {o : ℕ} (h : o ≤ x.bytes.length) : x.seekTo o pos = o := if_pos h

/-- Reading a whole item. -/
theorem reads_iff {r : ℤ × List UInt8} {b : ℕ} (h : (x.reader hfd E).Reads pos n r b) :
    r.1 = 1 ↔ 0 < n ∧ pos + n ≤ x.bytes.length := by
  obtain ⟨rfl, hinside, -⟩ := h
  exact (readCount_eq_one (x.out_length_le pos n)).trans
    (and_congr_right fun _ => x.out_full_iff hinside)

/-- What a read inside the file answers. -/
theorem reads_eq {r : ℤ × List UInt8} {b : ℕ} (h : (x.reader hfd E).Reads pos n r b)
    (hend : pos + n ≤ x.bytes.length) : r.2 = (x.bytes.drop pos).take n ∧ b = pos + n := by
  obtain ⟨rfl, hinside, rfl⟩ := h
  have hsmall := x.bytes_small
  refine ⟨x.out_eq (by omega), ?_⟩
  rw [(x.out_full_iff hinside).mpr hend]

/-- A program header is read if there is one. -/
theorem reads_phdr {r : ℤ × List UInt8} {b : ℕ} (h : (x.reader hfd E).Reads pos elfPhdrSize r b) :
    (r.1 = 1 ↔ x.HasPhdr pos) ∧
      (x.HasPhdr pos → ElfPhdr.decode r.2 = x.phdrAt pos ∧ b = pos + elfPhdrSize) := by
  refine ⟨(reads_iff h).trans (and_iff_right (by decide)), fun hp => ?_⟩
  obtain ⟨hbytes, hb⟩ := reads_eq h hp
  exact ⟨by rw [hbytes]; rfl, hb⟩

/-- The bytes of a segment are read where the seek to `p_offset` leads, and the position behind the
header is found again. -/
theorem reads_segment {r : ℤ × List UInt8} {v : ℤ} {c : ℕ}
    (h : (x.reader hfd E).SegmentReads (x.phdrAt pos) (pos + elfPhdrSize) r v c) :
    r.2 = x.segmentOut pos ∧ (r.1 = 1 ↔ x.HasSegment pos) ∧ v = asInt32 (pos + elfPhdrSize) := by
  obtain ⟨hv, b, hb, hr⟩ := h
  have hword : (x.phdrAt pos).offset < 4294967296 := (ElfPhdr.decode_bounds _).1
  have hoffset : ofInt32 (asInt32 (x.phdrAt pos).offset) = (x.phdrAt pos).offset := by
    rw [ofInt32_asInt32, u32_of_lt hword]
  have hb' : b = x.segmentPos pos := by
    rw [show b = _ from hb, hoffset]
    rfl
  subst hb'
  refine ⟨?_, reads_iff hr, hv⟩
  obtain ⟨rfl, -, -⟩ := hr
  rfl

/-- Going back to the position behind the header. -/
theorem seeks_back {v : ℤ} {c d : ℕ} (hv : v = asInt32 pos) (hpos : pos ≤ x.bytes.length)
    (h : (x.reader hfd E).Seeks c v d) : d = pos := by
  have hsmall := x.bytes_small
  rw [show d = _ from h, hv, ofInt32_asInt32, u32_of_lt (by omega), seekTo_inside hpos]

end Reading

/-! ### The loop -/

/-- What the loop over `n` headers from a position on comes to: it goes through all of them, or up
to the first one that does not load. -/
def LoopOutcome (x : StoredFile M) (n pos : ℕ) : Option (ℤ × List ReadHeader) → Prop
  | none => ∃ i < n, x.Overruns (pos + elfPhdrSize * i) ∧ ∀ j < i, x.Loads (pos + elfPhdrSize * j)
  | some (res, out) =>
    (res = 0 ∧ (∀ i < n, x.Loads (pos + elfPhdrSize * i)) ∧
      out = (List.range n).map fun i => x.readHeader (pos + elfPhdrSize * i)) ∨
    (res = -1 ∧ ∃ i < n, ¬ x.Loads (pos + elfPhdrSize * i) ∧ ¬ x.Overruns (pos + elfPhdrSize * i) ∧
      ∀ j < i, x.Loads (pos + elfPhdrSize * j))

section Loop

variable {x : StoredFile M} {n pos : ℕ}

/-- A statement about the headers in front of one, from the first one on. -/
theorem forall_lt_behind {P : ℕ → Prop} {i : ℕ} (h0 : P pos)
    (h : ∀ j < i, P (pos + elfPhdrSize + elfPhdrSize * j)) :
      ∀ j < i + 1, P (pos + elfPhdrSize * j) := by
  intro j hj
  cases j with
  | zero => exact h0
  | succ j =>
    rw [Nat.mul_succ, Nat.add_comm _ elfPhdrSize, ← Nat.add_assoc]
    exact h j (Nat.lt_of_succ_lt_succ hj)

theorem at_behind (i : ℕ) : pos + elfPhdrSize + elfPhdrSize * i = pos + elfPhdrSize * (i + 1) := by
  ring

/-- Behind a header that loads the loop goes on. -/
theorem LoopOutcome.behind {out : Option (ℤ × List ReadHeader)} (hload : x.Loads pos)
    (h : x.LoopOutcome n (pos + elfPhdrSize) out) :
    x.LoopOutcome (n + 1) pos (behindHeader (x.readHeader pos) out) := by
  cases out with
  | none =>
    obtain ⟨i, hi, hover, hbefore⟩ := h
    rw [at_behind] at hover
    exact ⟨i + 1, Nat.succ_lt_succ hi, hover, forall_lt_behind hload hbefore⟩
  | some r =>
    obtain ⟨res, out⟩ := r
    rcases h with ⟨rfl, hall, rfl⟩ | ⟨rfl, i, hi, hnot, hover, hbefore⟩
    · refine Or.inl ⟨rfl, forall_lt_behind hload hall, ?_⟩
      rw [List.range_succ_eq_map, List.map_cons, List.map_map]
      refine congrArg₂ List.cons rfl (List.map_congr_left fun i _ => ?_)
      rw [at_behind]
      rfl
    · rw [at_behind] at hnot hover
      exact Or.inr ⟨rfl, i + 1, Nat.succ_lt_succ hi, hnot, hover, forall_lt_behind hload hbefore⟩

/-- At a header that does not load the loop ends. -/
theorem LoopOutcome.fails (hnot : ¬ x.Loads pos) (hover : ¬ x.Overruns pos) :
    x.LoopOutcome (n + 1) pos (some (-1, [])) :=
  Or.inr ⟨rfl, 0, Nat.succ_pos n, hnot, hover, fun j hj => absurd hj (Nat.not_lt_zero j)⟩

/-- **The loop over the headers of a stored file.** -/
theorem reader_loop {slot : ℕ} {fd : ℤ} {hfd : fdSlot fd = some slot}
    {out : Option (ℤ × List ReadHeader)} (h : (x.reader hfd E).Loop n pos out) :
    x.LoopOutcome n pos out := by
  -- by induction on the run of the loop, one case for each way on from a header
  induction h with
  | finished pos => exact Or.inl ⟨rfl, fun i hi => absurd hi (Nat.not_lt_zero i), rfl⟩
  | noHeader hr hcount =>
    have hnone := fun h => hcount ((reads_phdr hr).1.mpr h)
    exact LoopOutcome.fails (fun h => hnone h.1) fun h => hnone h.1
  | @skipped n pos b r out hr hcount htype _ ih =>
    have hp := (reads_phdr hr).1.mp hcount
    obtain ⟨hphdr, rfl⟩ := (reads_phdr hr).2 hp
    rw [hphdr] at htype ⊢
    have hread : x.readHeader pos = (x.phdrAt pos, []) := by
      unfold readHeader
      rw [if_neg htype]
    rw [← hread]
    exact ih.behind ⟨hp, fun h => absurd h htype⟩
  | @overrun n pos b c r seg v hr hcount htype hseg hlong =>
    have hp := (reads_phdr hr).1.mp hcount
    obtain ⟨hphdr, rfl⟩ := (reads_phdr hr).2 hp
    rw [hphdr] at htype hseg hlong
    rw [(reads_segment hseg).1] at hlong
    exact ⟨0, Nat.succ_pos n, ⟨hp, htype, hlong⟩, fun j hj => absurd hj (Nat.not_lt_zero j)⟩
  | @noSegment n pos b c r seg v hr hcount htype hseg hfits hfail =>
    have hp := (reads_phdr hr).1.mp hcount
    obtain ⟨hphdr, rfl⟩ := (reads_phdr hr).2 hp
    rw [hphdr] at htype hseg hfits
    obtain ⟨hbytes, hcount', -⟩ := reads_segment hseg
    rw [hbytes] at hfits
    exact LoopOutcome.fails (fun h => hfail (hcount'.mpr (h.2 htype).1))
      fun h => absurd hfits (Nat.not_le.mpr h.2.2)
  | @loaded n pos b c d r seg v out hr hcount htype hseg hfits hone hd _ ih =>
    have hp := (reads_phdr hr).1.mp hcount
    obtain ⟨hphdr, rfl⟩ := (reads_phdr hr).2 hp
    rw [hphdr] at htype hseg hfits ⊢
    obtain ⟨hbytes, hcount', hv⟩ := reads_segment hseg
    -- the position is back at the next header
    obtain rfl := seeks_back hv hp hd
    rw [hbytes] at hfits ⊢
    have hread : x.readHeader pos = (x.phdrAt pos, x.segmentOut pos) := by
      unfold readHeader
      rw [if_pos htype]
    rw [← hread]
    exact ih.behind ⟨hp, fun _ => ⟨hcount'.mp hone, hfits⟩⟩

end Loop

/-! ### Loading -/

end StoredFile

/-- The name that `elf_load` copies fits into the block of the new process. -/
def NameKept (M : Machine H D) (filename : CString) (s : Kernel H D) : Prop :=
  ∀ file t, elfOpen M filename s = .ok (some file, t) → NewNameFits M filename t

/-- A name of less than 94 characters fits into the structure. -/
theorem NameKept.of_short {filename : CString} {s : Kernel H D} (h : filename.length < 94) :
    NameKept M filename s := fun _ _ _ => NewNameFits.of_short h

namespace StoredFile

section Loading

variable {x : StoredFile M} {s t u : Kernel H D} {filename : CString} {proc : ℕ}
  {segments : List ElfSegment}

/-- **Opening a stored file as an ELF file.** -/
theorem Found.elfOpen_wp (hE : ∀ e, e.AllocFails → E e) (h : x.Found filename s)
    {Q : Option (ℤ × ElfEhdr) → Kernel H D → Prop} (hbad : ¬ x.HasEhdr → ∀ t, Q none t)
    (hok : ∀ (slot : ℕ) t, x.HasEhdr → fdSlot ((slot : ℤ) + 1) = some slot →
      x.OpenAt slot t elfEhdrSize → Extends M FsKind s t → Q (some ((slot : ℤ) + 1, x.ehdr)) t) :
    wp E (elfOpen M filename) Q s := by
  change wp E (fopen M filename [0x72] >>= fun fd => if fd < 0 then pure none
    else elfHeader M fd) _ s
  rw [wp_bind]
  refine h.fopen_wp hE fun slot t own new hslot hgrow hat => ?_
  have hfd := fdSlot_of_slot (freeSlot_spec hslot).1
  have hneg : ¬ ((slot : ℤ) + 1 < 0) := by omega
  have hext : Extends M FsKind s t :=
    ⟨hgrow.arena, hgrow.frame, fun a ha => by rw [hgrow.live]; exact List.mem_append_right _ ha⟩
  rw [if_neg hneg]
  -- the header is the first one of the file
  refine elfHeader_wp (R := x.reader hfd E) hat (fun r b u hr hno => ?_)
    fun r b u hr hone hvalid hmoves hat' => ?_
  · refine hbad (fun hhas => hno ?_) u
    have hone := (reads_iff hr).mpr ⟨by decide, by rw [Nat.zero_add]; exact hhas.1⟩
    refine ⟨hone, ?_⟩
    rw [(reads_eq hr (by rw [Nat.zero_add]; exact hhas.1)).1]
    exact hhas.2
  · have hlong := ((reads_iff hr).mp hone).2
    obtain ⟨hbytes, rfl⟩ := reads_eq hr hlong
    rw [Nat.zero_add] at hlong hat'
    have hhdr : ElfEhdr.decode r.2 = x.ehdr := by
      rw [hbytes]
      rfl
    rw [hhdr] at hvalid ⊢
    exact hok slot u ⟨hlong, hvalid⟩ hfd hat' (hext.trans hmoves.extends)

/-- **`elf_load` of a stored file up to its loop.** -/
theorem Found.elfLoadFront_wp (hE : ∀ e, e.AllocFails → E e) (h : x.Found filename s)
    (htail : ProcessListInv s ∨ E .clobbered) (hname : ¬ NameKept M filename s → E .overrun)
    {Q : ℤ ⊕ ℤ × ElfEhdr × ℕ → Kernel H D → Prop} (hbad : ¬ x.HasEhdr → ∀ t, Q (.inl (-1)) t)
    (hnull : x.HasEhdr → (∃ h h', M.heap.kmallocInt 96 false h = some (0, h')) →
      ∀ t, Q (.inl (-1)) t)
    (hok : ∀ (slot proc : ℕ) t, x.HasEhdr → fdSlot ((slot : ℤ) + 1) = some slot →
      x.OpenAt slot t x.tablePos → Extends M LoaderKind s t →
      (∃ dir W, HasSpace t proc dir W processMap) → (∀ a ∈ s.live, a.ptr ≠ proc) → proc ≠ 0 →
      Q (.inr (slot + 1, x.ehdr, proc)) t) :
    wp E (elfLoadFront M filename) Q s := by
  unfold elfLoadFront
  rw [wp_bind]
  refine wp_of_run (h.elfOpen_wp hE (fun hno t _ => hbad hno t)
    fun slot t hhas hfd hat hext hrun => ?_)
  have htail' : ProcessListInv t ∨ E .clobbered :=
    htail.imp_left fun h' => h'.frame h.sound.arena hext.frame (by simp)
  refine elfStart_wp (R := x.reader hfd E) hE hat htail'
    (fun hnot => hname fun hkept => hnot (hkept _ t hrun)) (fun hnone v => ?_) ?_
  · obtain ⟨h', hans⟩ := hnone
    exact hnull hhas ⟨_, h', hans⟩ v
  · intro proc b v hb hat'' hstep hS hnew h0 _
    have hword : x.ehdr.phoff < 4294967296 := le32_lt _ _
    have hb' : b = x.tablePos := by
      rw [show b = _ from hb, ofInt32_asInt32, u32_of_lt hword]
      rfl
    subst hb'
    exact hok slot proc v hhas hfd hat'' ((hext.mono fun _ h => Or.inl h).trans hstep) hS
      (fun a ha => hnew a (hext.live a ha)) h0

/-- The headers of the file, with the bytes of their segments. -/
def readHeaders (x : StoredFile M) : List ReadHeader :=
  (List.range x.ehdr.phnum).map fun i => x.readHeader (x.tablePos + elfPhdrSize * i)

theorem readHeaders_fst : x.readHeaders.map Prod.fst =
    (List.range x.ehdr.phnum).map fun i => x.phdrAt (x.tablePos + elfPhdrSize * i) :=
  List.map_map

/-- **`elf_load` of a stored file.** -/
theorem Found.elfLoad_wp (hE : ∀ e, e.AllocFails → E e) (hstops : NullStops M E)
    (h : x.Found filename s) (htail : ProcessListInv s ∨ E .clobbered)
    (hname : ¬ NameKept M filename s → E .overrun)
    {Q : ℤ × ℕ × List ElfSegment → Kernel H D → Prop} (hbad : ¬ x.HasEhdr → ∀ t, Q (-1, 0, []) t)
    (hnull : x.HasEhdr → (∃ h h', M.heap.kmallocInt 96 false h = some (0, h')) →
      ∀ t, Q (-1, 0, []) t)
    (hover : x.LoopOutcome x.ehdr.phnum x.tablePos none → E .overrun)
    (hfail : ∀ res segments out t, x.LoopOutcome x.ehdr.phnum x.tablePos (some (res, out)) →
      res ≠ 0 → Q (res, 0, segments) t)
    (hok : ∀ proc u segments t, x.HasEhdr → proc ≠ 0 →
      (∀ i < x.ehdr.phnum, x.Loads (x.tablePos + elfPhdrSize * i)) →
      ProcessLoaded (M := M) u t proc segments x.readHeaders → Q (0, proc, segments) t) :
    wp E (elfLoad M filename) Q s := by
  rw [elfLoad_eq, wp_bind]
  refine h.elfLoadFront_wp hE htail hname (fun hno t => hbad hno t)
    (fun hhas hnone t => hnull hhas hnone t) fun slot proc t hhas hfd hat _ hS _ h0 => ?_
  refine elfLoadBack_wp (R := x.reader hfd E) hE hstops hat hS
    (fun hloop => hover (reader_loop hloop))
    (fun res segments out u hloop hres => hfail res segments out u (reader_loop hloop) hres)
    fun segments out u hloop hloaded => ?_
  rcases reader_loop hloop with ⟨-, hall, rfl⟩ | ⟨hres, -⟩
  · exact hok proc t segments u hhas h0 hall hloaded
  · exact absurd hres (by decide)

/-- What a successful `elf_load` has gone through. -/
theorem Found.loaded (h : x.Found filename s)
    (hrun : elfLoad M filename s = .ok ((0, proc, segments), t)) :
    (∀ i < x.ehdr.phnum, x.Loads (x.tablePos + elfPhdrSize * i)) ∧
      ∃ u, List.Forall₂ (Loaded u t) segments x.readHeaders := by
  have hneg : (0 : ℤ) ≠ -1 := by decide
  refine (h.elfLoad_wp (E := fun _ => True) (Q := fun r t => r.1 = 0 →
    (∀ i < x.ehdr.phnum, x.Loads (x.tablePos + elfPhdrSize * i)) ∧
      ∃ u, List.Forall₂ (Loaded u t) r.2.2 x.readHeaders) (fun _ _ => trivial)
    (fun _ _ _ _ _ => trivial) (.inr trivial) (fun _ => trivial) (fun _ _ h0 => absurd h0.symm hneg)
    (fun _ _ _ h0 => absurd h0.symm hneg) (fun _ => trivial)
      (fun _ _ _ _ _ hres h0 => absurd h0 hres)
    fun proc u segments t _ _ hall hloaded _ => ⟨hall, u, hloaded.loaded⟩).ok hrun rfl

/-- The `i`-th header that was gone through. -/
theorem getElem?_readHeaders (hall : List.Forall₂ (Loaded u t) segments x.readHeaders) :
    segments.length = x.ehdr.phnum ∧ ∀ i seg, segments[i]? = some seg →
      i < x.ehdr.phnum ∧ Loaded u t seg (x.readHeader (x.tablePos + elfPhdrSize * i)) := by
  have hlen : x.readHeaders.length = x.ehdr.phnum := by
    unfold readHeaders
    rw [List.length_map, List.length_range]
  refine ⟨hall.length_eq.trans hlen, fun i seg hseg => ?_⟩
  obtain ⟨hi, rfl⟩ := List.getElem?_eq_some_iff.mp hseg
  have hi' : i < x.ehdr.phnum := by
    rw [← hlen, ← hall.length_eq]
    exact hi
  refine ⟨hi', ?_⟩
  have hat := hall.get hi (hlen.symm ▸ hi')
  simp only [readHeaders, List.get_eq_getElem, List.getElem_map, List.getElem_range] at hat
  exact hat

end Loading

end StoredFile

/-! ### Small ELF files -/

/-- The bytes of an ELF header. -/
def ehdrBytes (phoff phnum : ℕ) : List UInt8 :=
  [0x7F, 0x45, 0x4C, 0x46, 1] ++ List.replicate 23 0 ++ wordBytes phoff ++ List.replicate 12 0 ++
    [UInt8.ofNat phnum, 0] ++ List.replicate 6 0

/-- The bytes of a program header. -/
def phdrBytes (phdr : ElfPhdr) : List UInt8 :=
  wordBytes phdr.type ++ wordBytes phdr.offset ++ wordBytes phdr.vaddr ++ List.replicate 4 0 ++
    wordBytes phdr.filesz ++ wordBytes phdr.memsz ++ List.replicate 8 0

/-- The kernel with its own heap and one file. -/
def elfMachine (file : List UInt8) : Machine LowHeap Unit where
  heap := lowKheap
  ata := imageAta (singleFileImage file)
  imageEnd := 0x10000
  fuel := 65536

/-- Its first state. -/
def elfBoot : Kernel LowHeap Unit := Kernel.boot (LowHeap.init 0x10000 (by decide)) ()

theorem elfBoot_sound (file : List UInt8) :
    FsSound (elfMachine file) (fun _ _ => True) elfBoot :=
  FsSound.boot _ _ _

/-- The path of its file. -/
def elfPath : CString := pathOf 0 [[0x41]]

/-- The result of loading the file, unless the kernel stops. -/
def elfResult (file : List UInt8) : Option ℤ :=
  (elfLoad (elfMachine file) elfPath elfBoot).toOption.map fun r => r.1.1

theorem elfResult_run {file : List UInt8} {res : ℤ} (h : elfResult file = some res) :
    ∃ proc segments t, elfLoad (elfMachine file) elfPath elfBoot =
      .ok ((res, proc, segments), t) := by
  unfold elfResult at h
  cases hrun : elfLoad (elfMachine file) elfPath elfBoot with
  | error e =>
    rw [hrun] at h
    cases h
  | ok r =>
    obtain ⟨⟨res', proc, segments⟩, t⟩ := r
    rw [hrun] at h
    cases h
    exact ⟨proc, segments, t, rfl⟩

/-- The file as a stored file. -/
def elfFile (file : List UInt8) (h : 0 < file.length ∧ file.length ≤ 512) :
    StoredFile (elfMachine file) :=
  StoredFile.small rfl h

theorem elfFile_bytes (file : List UInt8) (h : 0 < file.length ∧ file.length ≤ 512) :
    (elfFile file h).bytes = file :=
  StoredFile.small_bytes _ _

theorem elfFile_found {file : List UInt8} (h : 0 < file.length ∧ file.length ≤ 512)
    (hlookup : (fopenLookup (elfMachine file) elfPath [0x72] ()).toOption =
      some (.inr (0, singleFileItem file.length))) :
    (elfFile file h).Found elfPath elfBoot :=
  StoredFile.small_found _ _ _ hlookup

end VibeKernel
