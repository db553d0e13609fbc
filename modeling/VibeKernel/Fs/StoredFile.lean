import VibeKernel.Fs.ClosedFile
import VibeKernel.Fs.PathResolution

/-!
# A stored file and its descriptor

A `StoredFile` is a file with a closed chain on a volume. `OpenAt slot s pos` says that a slot of
the descriptor table holds it at a position. Reading, seeking and telling are then what they would
be on the list of its bytes, whatever the other parts of the kernel did in between
(`OpenAt.keepsFs`).
-/

namespace VibeKernel

open Verif

variable {H D : Type}

/-- A file on a volume of a drive, whose chain of clusters ends. -/
structure StoredFile (M : Machine H D) where
  drive : ℕ
  img : ℕ → UInt8
  bpb : FatBootSector
  item : FatDirectoryItem
  chain : List ℕ
  mark : ℕ
  volume : Volume M.ata drive img bpb
  boot : 0 < bpb.sectors
  closed : ClosedChain bpb img item chain mark

namespace StoredFile

variable {M : Machine H D}

/-- The bytes of the file. -/
def bytes (x : StoredFile M) : List UInt8 := fileContent x.bpb x.img x.item x.chain

/-- The bytes of the clusters of the file. -/
def clusters (x : StoredFile M) : List UInt8 := clusterBytes x.bpb x.img x.chain

/-- The mounts of the drive are those of the volume. -/
def Mounts (x : StoredFile M) (i : ℕ) (bpb : FatBootSector) : Prop := i = x.drive → bpb = x.bpb

/-- What a read of `n` bytes at `pos` delivers. -/
def out (x : StoredFile M) (pos n : ℕ) : List UInt8 := readOut x.bytes x.clusters pos n

/-- A descriptor of the file at a position. -/
abbrev At (x : StoredFile M) (desc : FatFileDescriptor) (pos : ℕ) : Prop :=
  AtPos x.bpb x.item (clustersFrom x.bpb x.img x.item) x.chain.length desc pos

/-- The file is open in a slot, at a position. -/
structure OpenAt (x : StoredFile M) (slot : ℕ) (s : Kernel H D) (pos : ℕ) : Prop where
  sound : FsSound M x.Mounts s
  file : ∃ f, s.openFile slot = some (x.drive, f) ∧ x.At f pos

/-- The path leads to the file, and there is a slot for it. -/
structure Found (x : StoredFile M) (path : CString) (s : Kernel H D) : Prop where
  sound : FsSound M x.Mounts s
  slot : ∃ slot, freeSlot s.fs = some slot
  short : ¬ PathTooLong path
  lookup : fopenLookup M path [0x72] s.drives = .ok (.inr (x.drive, x.item))

variable {x : StoredFile M} {E : Stop → Prop} {s t : Kernel H D} {slot pos n : ℕ} {fd : ℤ}

theorem bytes_length (x : StoredFile M) : x.bytes.length = x.item.filesize :=
  x.closed.content_length x.volume

theorem bytes_small (x : StoredFile M) : x.bytes.length < 4294967296 := by
  rw [bytes_length]
  exact x.closed.small

theorem out_length_le (x : StoredFile M) (pos n : ℕ) : (x.out pos n).length ≤ n :=
  readOut_length_le _ _ _ _

/-- A read inside the address range delivers bytes of the file. -/
theorem out_eq (x : StoredFile M) (h : pos + n < 4294967296) :
    x.out pos n = (x.bytes.drop pos).take n := by
  unfold out readOut
  rw [if_pos h]

theorem clusters_small (x : StoredFile M) : x.clusters.length < 4294967295 := by
  have hroom := x.closed.room x.volume
  unfold clusters
  rw [clusterBytes_eq x.volume, slice_length]
  omega

/-- **A read delivers all it is asked for** exactly if it ends inside the file. One that wraps
around runs out of clusters first. -/
theorem out_full_iff (x : StoredFile M) (hpos : pos ≤ x.bytes.length) :
    (x.out pos n).length = n ↔ pos + n ≤ x.bytes.length := by
  have hsmall := x.bytes_small
  have hclusters := x.clusters_small
  by_cases hwrap : pos + n < 4294967296
  · rw [x.out_eq hwrap, List.length_take, List.length_drop]
    omega
  · unfold out readOut
    rw [if_neg hwrap, List.length_take, List.length_drop]
    omega

/-- Steps of the other parts of the kernel leave the file open. -/
theorem OpenAt.keepsFs (h : x.OpenAt slot s pos) (hK : KeepsFs s t) (hA : ArenaInv M t) :
    x.OpenAt slot t pos := by
  obtain ⟨hinv, hfiles⟩ := hK.inv h.sound.inv
  exact ⟨⟨hA, hinv⟩, by rw [hfiles]; exact h.file⟩

theorem OpenAt.inside (h : x.OpenAt slot s pos) : pos ≤ x.bytes.length := by
  obtain ⟨f, -, hat⟩ := h.file
  rw [bytes_length]
  exact hat.inside

/-- The file is open, at a position or not. -/
def IsOpen (x : StoredFile M) (slot : ℕ) (s : Kernel H D) : Prop :=
  FsSound M x.Mounts s ∧ ∃ f, s.openFile slot = some (x.drive, f)

theorem OpenAt.isOpen (h : x.OpenAt slot s pos) : x.IsOpen slot s := by
  obtain ⟨f, hfile, -⟩ := h.file
  exact ⟨h.sound, f, hfile⟩

theorem IsOpen.keepsFs (h : x.IsOpen slot s) (hK : KeepsFs s t) (hA : ArenaInv M t) :
    x.IsOpen slot t := by
  obtain ⟨hinv, hfiles⟩ := hK.inv h.1.inv
  exact ⟨⟨hA, hinv⟩, by rw [hfiles]; exact h.2⟩

/-- A call on the descriptor has moved the file. -/
theorem openAt_of_moved {f : FatFileDescriptor} (h : FileMoved M x.Mounts s t slot x.drive f)
    (hat : x.At f pos) : x.OpenAt slot t pos :=
  ⟨⟨h.arena, h.inv⟩, f, by rw [h.files, Function.update_self], hat⟩

theorem isOpen_of_moved {f : FatFileDescriptor} (h : FileMoved M x.Mounts s t slot x.drive f) :
    x.IsOpen slot t :=
  ⟨⟨h.arena, h.inv⟩, f, by rw [h.files, Function.update_self]⟩

/-! ### Calls -/

/-- A step of the file system that leaves the blocks, the table and the other files alone. -/
structure Moves (x : StoredFile M) (slot : ℕ) (s t : Kernel H D) : Prop where
  isOpen : x.IsOpen slot t
  live : t.live = s.live
  frame : Frame FsKind s t
  fs : t.fs = s.fs
  drives : M.ata.Fixed → t.drives = s.drives

theorem moves_of_moved {f : FatFileDescriptor} (h : FileMoved M x.Mounts s t slot x.drive f) :
    x.Moves slot s t :=
  ⟨isOpen_of_moved h, h.live, h.frame, h.fs, h.drives⟩

/-- **`fread`** of one item. -/
theorem fread_wp (hfd : fdSlot fd = some slot) (h : x.OpenAt slot s pos) (hn : n < 4294967296)
    {Q : ℤ × List UInt8 → Kernel H D → Prop}
    (hQ : ∀ t, x.Moves slot s t →
      (pos + n < 4294967296 → x.OpenAt slot t (pos + (x.out pos n).length)) →
      Q (asInt32 ((x.out pos n).length / n), x.out pos n) t) :
    wp E (fread M n 1 fd) Q s := by
  obtain ⟨f, hopen, hat⟩ := h.file
  refine VibeKernel.fread_wp h.sound.arena h.sound.inv (fun hnone => ?_)
    fun slot' i g b hslot hfile hb => ?_
  · rw [Kernel.entry_of_slot hfd, hopen] at hnone
    cases hnone
  rw [hfd] at hslot
  cases hslot
  rw [hopen] at hfile
  cases hfile
  obtain rfl := hb rfl
  obtain ⟨f', stream', d', hread, hat', -⟩ :=
    @fat16Read_closed _ _ _ _ _ _ _ _ x.volume x.closed _ _ _ hat hn ⟨0, x.drive⟩ rfl s.drives
  rw [hread]
  refine ⟨fun e he => (by cases he), fun res g y hok t hmoved => ?_⟩
  cases hok
  exact hQ t (moves_of_moved hmoved) fun hwrap => openAt_of_moved hmoved (hat' hwrap)

/-- Where the file is after `fseek` to an offset from its start: there, if that is in the file. -/
def seekTo (x : StoredFile M) (o pos : ℕ) : ℕ := if o ≤ x.bytes.length then o else pos

/-- **`fseek`** to an offset from the start. -/
theorem fseek_wp (hfd : fdSlot fd = some slot) (h : x.OpenAt slot s pos) {v : ℤ}
    {Q : ℤ → Kernel H D → Prop}
    (hQ : ∀ res t, x.Moves slot s t → x.OpenAt slot t (x.seekTo (ofInt32 v) pos) → Q res t) :
    wp E (fseek fd v .set) Q s := by
  obtain ⟨f, hopen, hat⟩ := h.file
  refine VibeKernel.fseek_wp h.sound.arena h.sound.inv (fun hnone => ?_)
    fun slot' i g hslot hfile t hmoved => ?_
  · rw [Kernel.entry_of_slot hfd, hopen] at hnone
    cases hnone
  rw [hfd] at hslot
  cases hslot
  rw [hopen] at hfile
  cases hfile
  refine hQ _ t (moves_of_moved hmoved) (openAt_of_moved hmoved ?_)
  unfold fat16Seek seekTo
  dsimp only
  rw [hat.item_eq, bytes_length]
  by_cases hin : ofInt32 v ≤ x.item.filesize
  · rw [if_neg (Nat.not_lt.mpr hin), if_pos hin]
    have hcache := hat.cache
    unfold CacheValid at hcache
    rw [hat.item_eq] at hcache
    exact ⟨rfl, rfl, hin, hcache⟩
  · rw [if_pos (Nat.lt_of_not_le hin), if_neg hin]
    exact hat

/-- **`ftell`.** -/
theorem ftell_wp (hfd : fdSlot fd = some slot) (h : x.OpenAt slot s pos)
    {Q : ℤ → Kernel H D → Prop} (hQ : Q (asInt32 pos) s) : wp E (ftell fd : KM H D ℤ) Q s := by
  obtain ⟨f, hopen, hat⟩ := h.file
  refine VibeKernel.ftell_wp h.sound.inv (fun hnone => ?_) fun slot' i g hslot hfile => ?_
  · rw [Kernel.entry_of_slot hfd, hopen] at hnone
    cases hnone
  rw [hfd] at hslot
  cases hslot
  rw [hopen] at hfile
  cases hfile
  unfold fat16Tell
  rw [hat.pos_eq]
  exact hQ

/-- **`fclose`.** -/
theorem fclose_wp (hfd : fdSlot fd = some slot) (h : x.IsOpen slot s) {Q : ℤ → Kernel H D → Prop}
    (hQ : ∀ t, FileClosed M x.Mounts s t slot → Q 0 t) : wp E (fclose M fd) Q s := by
  obtain ⟨hsound, f, hopen⟩ := h
  refine VibeKernel.fclose_wp hsound.arena hsound.inv (fun hnone => ?_)
    fun slot' i g hslot hfile t hclosed => ?_
  · rw [Kernel.entry_of_slot hfd, hopen] at hnone
    cases hnone
  rw [hfd] at hslot
  cases hslot
  exact hQ t hclosed

/-- **`fopen`** of a path that leads to the file. -/
theorem Found.fopen_wp (hE : ∀ e, e.AllocFails → E e) {path : CString} (h : x.Found path s)
    {Q : ℤ → Kernel H D → Prop}
    (hQ : ∀ slot t own new, freeSlot s.fs = some slot → FsGrows M s t (own ++ new) →
      x.OpenAt slot t 0 → Q (slot + 1) t) :
    wp E (fopen M path [0x72]) Q s := by
  obtain ⟨slot, hslot⟩ := h.slot
  refine VibeKernel.fopen_wp hE h.sound.arena h.sound.inv (fun i b hboot hi => ?_) _ _
    (fun hlong => absurd hlong h.short) fun res t hpost => ?_
  · -- the boot sector of the drive is that of the volume
    subst hi
    have hread := bootSector_boot x.volume x.boot s.drives
    rw [hread] at hboot
    cases hboot
    rfl
  obtain ⟨own, new, hgrow, -, hout⟩ := hpost.outcome
  rw [h.lookup] at hout
  unfold OpenOutcome at hout
  dsimp only at hout
  rw [hslot] at hout
  obtain ⟨rfl, -, hfiles⟩ := hout
  refine hQ slot t own new hslot hgrow ⟨⟨hgrow.arena, hpost.inv⟩, _,
    by rw [hfiles, Function.update_self], ?_⟩
  exact AtPos.fresh ((x.closed.layout x.volume).cut rfl (x.closed.long.trans (Nat.le_succ _)))

/-! ### A small file -/

section Small

variable {M : Machine H Unit} {file : List UInt8}

/-- A file that fits into one cluster, alone on its volume. -/
def small (hM : M.ata = imageAta (singleFileImage file)) (h : 0 < file.length ∧ file.length ≤ 512) :
    StoredFile M where
  drive := 0
  img := singleFileImage file
  bpb := singleFileBpb
  item := singleFileItem file.length
  chain := [2]
  mark := 0xFFFF
  volume := hM ▸ singleFile_volume 0
  boot := by decide
  closed :=
    { small := by
        change file.length < 4294967296
        omega
      walk := by
        have hlink : singleFileBpb.fatEntry (singleFileImage file) 2 = 0xFFFF := by
          rw [singleFile_fatEntry (by norm_num)]
          exact if_neg (by omega)
        exact ⟨rfl, hlink⟩
      ended := by decide
      inside := by
        intro c hc
        rw [List.mem_singleton.mp hc]
        exact ⟨by decide, by decide, by decide⟩
      front := by decide
      long := by
        change file.length ≤ 1 * 512
        omega }

variable (hM : M.ata = imageAta (singleFileImage file)) (h : 0 < file.length ∧ file.length ≤ 512)

theorem small_bytes : (small hM h).bytes = file := by
  have hchain : singleFileChain file.length = [2] := by
    unfold singleFileChain
    rw [show (file.length + 511) / 512 = 1 by omega]
    rfl
  have hcontent := @singleFile_content file (by omega)
  rw [hchain] at hcontent
  exact hcontent

/-- The path `0:/A` leads to the small file. -/
theorem small_found (h₀ : H)
    (hlookup : (fopenLookup M (pathOf 0 [[0x41]]) [0x72] ()).toOption =
      some (.inr (0, singleFileItem file.length))) :
    (small hM h).Found (pathOf 0 [[0x41]]) (Kernel.boot h₀ ()) where
  sound := FsSound.boot _ _ _
  slot := freeSlot_of_zero ⟨0, by norm_num, rfl⟩
  short := by
    refine not_pathTooLong (Nat.zero_le 1) fun p hp => ?_
    rw [List.mem_singleton.mp hp]
    exact ⟨by decide, by decide, by decide, by decide⟩
  lookup := by
    change fopenLookup M _ _ () = _
    cases hl : fopenLookup M (pathOf 0 [[0x41]]) [0x72] () with
    | error e =>
      rw [hl] at hlookup
      cases hlookup
    | ok r =>
      rw [hl] at hlookup
      cases hlookup
      rfl

end Small

end StoredFile

end VibeKernel
