import VibeKernel.Loader.ElfRoom

/-!
# Decoding an ELF file

A file that `elf_load` has loaded is decoded if the headers are those of the table at `e_phoff` and
the memory of each segment is what its header says. The loader reads all that it looks for, but it
looks at no result of `fseek`: an offset behind the end of the file leaves the position where it
was, and the next bytes are taken instead. `elfLoad_decodes_iff` shows that this is the only way to
load a file that is not decoded, as long as the loader stays in the blocks that it has asked for. It
does so, and returns, if the file says so and the heap has room (`LoadsInPlace`).
-/

namespace VibeKernel

open Verif

variable {H D : Type} {M : Machine H D}

namespace StoredFile

/-- A program header is that of the table at the position, and if it has a segment, its memory
starts with the bytes of the file that the header names and is zero behind them. -/
structure DecodesHeader (x : StoredFile M) (t : Kernel H D) (pos : ℕ)
    (seg : ElfSegment) : Prop where
  inFile : pos + elfPhdrSize ≤ x.bytes.length
  header : seg.phdr = ElfPhdr.decode ((x.bytes.drop pos).take elfPhdrSize)
  segment : seg.phdr.type = ptLoad → seg.phdr.offset + seg.phdr.filesz ≤ x.bytes.length ∧
    ∃ cells, t.store seg.phys = some (.bytes seg.phdr.memsz cells) ∧
      (∀ k < seg.phdr.filesz, cells k = x.bytes.getD (seg.phdr.offset + k) 0) ∧
      ∀ k, seg.phdr.filesz ≤ k → k < seg.phdr.memsz → cells k = 0

/-- All headers of the table at `e_phoff` are decoded. -/
def Decodes (x : StoredFile M) (t : Kernel H D) (segments : List ElfSegment) : Prop :=
  segments.length = x.ehdr.phnum ∧
    ∀ i seg, segments[i]? = some seg → x.DecodesHeader t (x.ehdr.phoff + elfPhdrSize * i) seg

/-- The offsets of the table and of the segments lie inside the file. -/
def OffsetsInside (x : StoredFile M) : Prop :=
  ∀ i < x.ehdr.phnum, x.ehdr.phoff ≤ x.bytes.length ∧
    ((x.phdrAt (x.ehdr.phoff + elfPhdrSize * i)).type = ptLoad →
      (x.phdrAt (x.ehdr.phoff + elfPhdrSize * i)).offset ≤ x.bytes.length)

section Decoding

variable {x : StoredFile M} {s t u : Kernel H D} {filename : CString} {proc : ℕ}
  {segments : List ElfSegment}

/-- A segment whose offset lies inside the file is read from there. -/
theorem segmentOut_eq {pos : ℕ} (hseg : x.HasSegment pos)
    (hoffset : (x.phdrAt pos).offset ≤ x.bytes.length) :
    (x.phdrAt pos).offset + (x.phdrAt pos).filesz ≤ x.bytes.length ∧
      x.segmentOut pos = (x.bytes.drop (x.phdrAt pos).offset).take (x.phdrAt pos).filesz := by
  have hpos : x.segmentPos pos = (x.phdrAt pos).offset := seekTo_inside hoffset
  have hsmall := x.bytes_small
  have hend := hseg.2
  rw [hpos] at hend
  refine ⟨hend, ?_⟩
  unfold segmentOut
  rw [hpos, x.out_eq (by omega)]

/-- A file that is loaded is decoded exactly if the offsets of its table and of its segments lie
inside the file. -/
theorem Found.decodes_iff (h : x.Found filename s)
    (hrun : elfLoad M filename s = .ok ((0, proc, segments), t)) :
    x.Decodes t segments ↔ x.OffsetsInside := by
  -- all headers of the loop have loaded
  obtain ⟨hloads, u, hall⟩ := h.loaded hrun
  obtain ⟨hlen, hget⟩ := getElem?_readHeaders hall
  constructor
  · rintro ⟨-, hdec⟩ i hi
    obtain ⟨seg, hseg⟩ : ∃ seg, segments[i]? = some seg :=
      ⟨_, List.getElem?_eq_getElem (hlen.symm ▸ hi)⟩
    have hd := hdec i seg hseg
    have hin := hd.inFile
    refine ⟨by omega, fun htype => ?_⟩
    have hphdr : seg.phdr = x.phdrAt (x.ehdr.phoff + elfPhdrSize * i) := hd.header
    rw [← hphdr] at htype ⊢
    exact (Nat.le_add_right _ _).trans (hd.segment htype).1
  · intro hin
    refine ⟨hlen, fun i seg hseg => ?_⟩
    obtain ⟨hi, hphdr, hmem⟩ := hget i seg hseg
    obtain ⟨hphoff, hoffset⟩ := hin i hi
    -- with offsets inside the file every seek goes where it is told to
    have htable : x.tablePos = x.ehdr.phoff := seekTo_inside hphoff
    obtain ⟨hhas, hsegment⟩ := htable ▸ hloads i hi
    rw [htable] at hphdr hmem
    set pos := x.ehdr.phoff + elfPhdrSize * i with hpos
    have hheader : seg.phdr = x.phdrAt pos := hphdr
    refine ⟨hhas, hheader, fun htype => ?_⟩
    rw [hheader] at htype ⊢
    obtain ⟨hinFile, -⟩ := hsegment htype
    obtain ⟨hend, hout⟩ := segmentOut_eq hinFile (hoffset htype)
    obtain ⟨hmemory, -⟩ := hmem htype
    have hread : (x.readHeader pos).2 = x.segmentOut pos := if_pos htype
    rw [hread, hout] at hmemory
    -- the bytes were read into the block of the segment
    have hfits : (x.phdrAt pos).filesz ≤ (x.phdrAt pos).memsz := by
      have hle : _ ≤ (x.phdrAt pos).memsz := hmemory.fits
      rw [List.length_take, List.length_drop] at hle
      omega
    have hpositive := hinFile.1
    obtain ⟨-, -, hstore⟩ := hmemory.block (by
      change (x.phdrAt pos).memsz ≠ 0
      omega)
    refine ⟨hend, _, hstore, fun k hk => ?_, fun k hk _ => ?_⟩
    · rw [List.getD_eq_getElem?_getD, List.getElem?_take_of_lt hk, List.getElem?_drop,
        ← List.getD_eq_getElem?_getD]
    · refine List.getD_eq_default _ _ ?_
      rw [List.length_take]
      exact (min_le_left _ _).trans hk

/-- **Decoding soundness.** A load that stays in its blocks returns, and a file that is loaded is
decoded exactly if the offsets of its table and of its segments lie inside the file. -/
theorem elfLoad_decodes_iff (h : x.Found filename s) :
    (LoadsInPlace x filename s → ∃ r t, elfLoad M filename s = .ok (r, t)) ∧
      ∀ proc segments t, elfLoad M filename s = .ok ((0, proc, segments), t) →
        (x.Decodes t segments ↔ x.OffsetsInside) :=
  ⟨fun hin => hin.returns, fun _ _ _ hrun => h.decodes_iff hrun⟩

end Decoding

end StoredFile

/-! ### Two files -/

/-- A file with one segment: four bytes, in a block of eight. -/
def decodedFile : List UInt8 :=
  ehdrBytes 52 1 ++ phdrBytes ⟨ptLoad, 84, 0x400000, 4, 8⟩ ++ [1, 2, 3, 4]

/-- A file whose table starts behind its end. -/
def lostFile : List UInt8 := ehdrBytes 1000 1 ++ phdrBytes ⟨0, 0, 0, 0, 0⟩

theorem decodedFile_small : 0 < decodedFile.length ∧ decodedFile.length ≤ 512 := by decide +kernel

/-- The only header of the file. -/
theorem decodedFile_headers : (elfFile decodedFile decodedFile_small).readHeaders.map Prod.fst =
    [⟨ptLoad, 84, 0x400000, 4, 8⟩] := by
  rw [StoredFile.readHeaders_fst]
  unfold StoredFile.tablePos StoredFile.seekTo StoredFile.phdrAt StoredFile.ehdr
  rw [elfFile_bytes]
  decide +kernel

theorem decodedFile_inPlace :
    LoadsInPlace (elfFile decodedFile decodedFile_small) elfPath elfBoot :=
  elfFile_inPlace _ (by decide +kernel) decodedFile_headers (by decide) (by decide +kernel)

/-- The load of a well-formed file stays in its blocks, and its segment is what the file says. -/
theorem elfLoad_decodes_iff_one_segment :
    LoadsInPlace (elfFile decodedFile decodedFile_small) elfPath elfBoot ∧
    ∃ proc segments t, elfLoad (elfMachine decodedFile) elfPath elfBoot =
        .ok ((0, proc, segments), t) ∧
          (elfFile decodedFile decodedFile_small).Decodes t segments := by
  have hres : elfResult decodedFile = some 0 := by decide +kernel
  obtain ⟨proc, segments, t, hrun⟩ := elfResult_run hres
  have hfound := @elfFile_found decodedFile (by decide +kernel) (by decide +kernel)
  refine ⟨decodedFile_inPlace, proc, segments, t, hrun,
    ((StoredFile.elfLoad_decodes_iff hfound).2 _ _ _ hrun).mpr ?_⟩
  unfold StoredFile.OffsetsInside StoredFile.phdrAt StoredFile.ehdr
  rw [elfFile_bytes]
  decide +kernel

/-- **A file that is loaded but not decoded.** Its table of one header is said to start at byte 1000
of 84, and the bytes behind the ELF header are taken for it. -/
theorem elfLoad_not_decoded :
    ∃ proc segments t, elfLoad (elfMachine lostFile) elfPath elfBoot =
        .ok ((0, proc, segments), t) ∧
          ¬ (elfFile lostFile (by decide +kernel)).Decodes t segments := by
  have hres : elfResult lostFile = some 0 := by decide +kernel
  obtain ⟨proc, segments, t, hrun⟩ := elfResult_run hres
  refine ⟨proc, segments, t, hrun, ?_⟩
  rintro ⟨hlen, hdec⟩
  have hehdr : (elfFile lostFile (by decide +kernel)).ehdr.phnum = 1 ∧
      (elfFile lostFile (by decide +kernel)).ehdr.phoff = 1000 := by
    unfold StoredFile.ehdr
    rw [elfFile_bytes]
    decide +kernel
  rw [hehdr.1] at hlen
  have hin := (hdec 0 _ (List.getElem?_eq_getElem (by omega))).inFile
  rw [hehdr.2, elfFile_bytes] at hin
  exact absurd hin (by decide)

end VibeKernel
