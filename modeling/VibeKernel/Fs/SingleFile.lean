import VibeKernel.Fs.Volume

/-!
# A volume with one file

For every byte string of up to 197 sectors an image of a FAT16 volume whose root directory holds one
file, named `A`, with that content. It shows that the conditions on volumes and chains can be met,
and it is the disk of the concrete runs in the other modules.

Layout: boot sector, one sector of allocation table, one sector of root directory, then one sector
for each cluster of the file, numbered from 2 on.
-/

namespace VibeKernel

open Verif

/-- The same image on both drives, never failing. -/
def imageAta (img : ℕ → UInt8) : Ata Unit where
  readSector _ _ lba := (some fun i => img (512 * lba + i), ())

theorem imageAta_holds (img : ℕ → UInt8) (drive : ℕ) :
    SectorsHold (imageAta img) drive 268435456 img := by
  intro d lba hlba
  refine ⟨fun i => img (512 * lba + i), (), ?_, fun i _ => rfl⟩
  change (some fun i => img (512 * (lba % 268435456) + i), ()) = _
  rw [Nat.mod_eq_of_lt hlba]

theorem imageAta_readable (img : ℕ → UInt8) (drive : ℕ) {sectors : ℕ} (h : sectors ≤ 8388608) :
    Readable (imageAta img) drive sectors img where
  small := h
  read d lba hlba := imageAta_holds img drive d lba (by omega)

/-- The boot sector: 200 sectors in clusters of one, one copy of a one-sector table, 16 root
entries. -/
def singleFileBoot : ℕ → UInt8
  | 12 => 0x02
  | 13 => 1
  | 14 => 1
  | 16 => 1
  | 17 => 16
  | 19 => 200
  | 22 => 1
  | 38 => 0x29
  | 510 => 0x55
  | 511 => 0xAA
  | _ => 0

/-- What the boot sector says. -/
def singleFileBpb : FatBootSector where
  bytesPerSector := 512
  sectorsPerCluster := 1
  reservedSectors := 1
  fatCopies := 1
  rootDirEntries := 16
  totalSectors := 200
  fatSectors := 1
  sectorsBig := 0
  signature := 0x29
  bootSignature := 0xAA55

/-- The table entry of a cluster, for a file of `n` bytes. -/
def singleFileLink (n cluster : ℕ) : ℕ :=
  if 512 * (cluster - 1) < n then cluster + 1 else 0xFFFF

/-- The root directory entry of a file of `n` bytes. -/
def singleFileEntry (n : ℕ) : List UInt8 :=
  0x41 :: List.replicate 10 0x20 ++ 0x20 :: List.replicate 14 0 ++ [2, 0] ++
    [UInt8.ofNat (n % 256), UInt8.ofNat (n / 256 % 256), UInt8.ofNat (n / 65536 % 256),
      UInt8.ofNat (n / 16777216)]

/-- The directory item of a file of `n` bytes. -/
def singleFileItem (n : ℕ) : FatDirectoryItem where
  filename := 0x41 :: List.replicate 7 0x20
  ext := List.replicate 3 0x20
  attrib := 0x20
  low16BitsFirstCluster := 2
  filesize := n

/-- The image of the volume. -/
def singleFileImage (file : List UInt8) (a : ℕ) : UInt8 :=
  if a < 512 then singleFileBoot a
  else if a < 1024 then
    if a % 2 = 0 then UInt8.ofNat (singleFileLink file.length ((a - 512) / 2) % 256)
    else UInt8.ofNat (singleFileLink file.length ((a - 512) / 2) / 256)
  else if a < 1536 then (singleFileEntry file.length).getD (a - 1024) 0
  else file.getD (a - 1536) 0

/-- The clusters of a file of `n` bytes. -/
def singleFileChain (n : ℕ) : List ℕ := (List.range ((n + 511) / 512)).map (· + 2)

section SingleFile

variable {file : List UInt8}

/-- The boot sector is found by its fields. -/
theorem singleFile_boot :
    FatBootSector.decode (slice (singleFileImage file) 0 512) = singleFileBpb := by
  have hslice : slice (singleFileImage file) 0 512 = slice singleFileBoot 0 512 := by
    refine slice_congr fun i hi => ?_
    unfold singleFileImage
    rw [Nat.zero_add, if_pos hi]
  rw [hslice]
  decide +kernel

theorem singleFile_entry {n : ℕ} (hn : n < 4294967296) :
    FatDirectoryItem.decode (singleFileEntry n) = singleFileItem n := by
  have hsize : le32 (singleFileEntry n) 28 = n := by
    change ((UInt8.ofNat (n % 256)).toNat + 256 * (UInt8.ofNat (n / 256 % 256)).toNat) +
      65536 * ((UInt8.ofNat (n / 65536 % 256)).toNat +
        256 * (UInt8.ofNat (n / 16777216)).toNat) = n
    simp only [UInt8.toNat_ofNat']
    omega
  unfold FatDirectoryItem.decode
  rw [hsize]
  rfl

theorem singleFile_fatEntry {c : ℕ} (hc : c < 256) :
    singleFileBpb.fatEntry (singleFileImage file) c = singleFileLink file.length c := by
  have hword : singleFileLink file.length c < 65536 := by
    unfold singleFileLink
    split <;> omega
  have hlow : singleFileImage file (512 + 2 * c) =
      UInt8.ofNat (singleFileLink file.length c % 256) := by
    unfold singleFileImage
    rw [if_neg (by omega), if_pos (by omega), if_pos (by omega),
      show (512 + 2 * c - 512) / 2 = c by omega]
  have hhigh : singleFileImage file (512 + 2 * c + 1) =
      UInt8.ofNat (singleFileLink file.length c / 256) := by
    unfold singleFileImage
    rw [if_neg (by omega), if_pos (by omega), if_neg (by omega),
      show (512 + 2 * c + 1 - 512) / 2 = c by omega]
  change (singleFileImage file (512 + 2 * c)).toNat +
    256 * (singleFileImage file (512 + 2 * c + 1)).toNat = _
  rw [hlow, hhigh]
  simp only [UInt8.toNat_ofNat']
  omega

/-- The drive holds an accepted volume. -/
theorem singleFile_volume (drive : ℕ) :
    Volume (imageAta (singleFileImage file)) drive (singleFileImage file) singleFileBpb where
  boot := singleFile_boot
  accepted := by decide
  readable := imageAta_readable _ drive (by decide)

theorem singleFileChain_getElem? {n i c : ℕ} (h : (singleFileChain n)[i]? = some c) :
    c = i + 2 ∧ i < (n + 511) / 512 := by
  unfold singleFileChain at h
  rw [List.getElem?_map] at h
  obtain ⟨j, hj, rfl⟩ := Option.map_eq_some_iff.mp h
  obtain ⟨hlt, hget⟩ := List.getElem?_eq_some_iff.mp hj
  rw [List.getElem_range] at hget
  rw [List.length_range] at hlt
  exact ⟨by rw [hget], hlt⟩

/-- The clusters of the file form a chain of its item. -/
theorem singleFile_chain (hfile : file.length ≤ 100864) :
    FileChain singleFileBpb (singleFileImage file) (singleFileItem file.length)
      (singleFileChain file.length) where
  size := by
    change file.length < 2147483648
    omega
  first := by
    intro c hc
    rw [List.head?_eq_getElem?] at hc
    exact (singleFileChain_getElem? hc).1
  linked := by
    intro i c c' hc hc'
    obtain ⟨rfl, -⟩ := singleFileChain_getElem? hc
    obtain ⟨rfl, hlt⟩ := singleFileChain_getElem? hc'
    rw [singleFile_fatEntry (by omega)]
    unfold singleFileLink
    rw [if_pos (by omega)]
  inside := by
    intro c hc
    obtain ⟨i, hi⟩ := List.mem_iff_getElem?.mp hc
    obtain ⟨rfl, hlt⟩ := singleFileChain_getElem? hi
    refine ⟨by omega, by omega, ?_⟩
    change 3 + (i + 2 - 2) * 1 + 1 ≤ 200
    omega
  long := by
    change file.length ≤ (singleFileChain file.length).length * 512
    rw [singleFileChain, List.length_map, List.length_range]
    omega

/-- The content of the file is the byte string the volume was made from. -/
theorem singleFile_content (hfile : file.length ≤ 100864) :
    fileContent singleFileBpb (singleFileImage file) (singleFileItem file.length)
      (singleFileChain file.length) = file := by
  rw [(singleFile_chain hfile).content_eq (singleFile_volume 0)]
  refine List.ext_getElem? fun i => ?_
  change (slice _ 0 file.length)[i]? = file[i]?
  rcases lt_or_ge i file.length with hi | hi
  · -- cluster `i / 512 + 2` starts at byte `512 * (i / 512)` of the data area
    have hk : ((singleFileChain file.length).map singleFileBpb.clusterPos).getD (i / 512) 0 =
        1536 + 512 * (i / 512) := by
      unfold singleFileChain
      rw [List.map_map, List.getD_eq_getElem?_getD, List.getElem?_map,
        List.getElem?_range (by omega)]
      change 512 * (3 + (i / 512 + 2 - 2) * 1) = _
      omega
    have hcell : fileCell singleFileBpb (singleFileImage file) (singleFileChain file.length) i =
        file[i] := by
      unfold fileCell
      rw [show singleFileBpb.clusterSize = 512 from rfl, hk,
        show 1536 + 512 * (i / 512) + i % 512 = 1536 + i by omega]
      unfold singleFileImage
      rw [if_neg (by omega), if_neg (by omega), if_neg (by omega), Nat.add_sub_cancel_left]
      exact List.getD_eq_getElem _ _ hi
    rw [slice_getElem? _ hi, Nat.zero_add, hcell, List.getElem?_eq_getElem hi]
  · rw [List.getElem?_eq_none (by rw [slice_length]; exact hi), List.getElem?_eq_none hi]

end SingleFile

end VibeKernel
