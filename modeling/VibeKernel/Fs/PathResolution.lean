import VibeKernel.Fs.Directory
import VibeKernel.Fs.Leaks
import VibeKernel.Fs.OpenRoom
import VibeKernel.Kernel.HeapRoom

/-!
# Opening a file by its path

On a volume with finite directories a path `d:/c1/.../cn` leads from the root directory through the
subdirectories `c1` to `c(n-1)` to the file `cn` (`Resolves`), or nowhere. `fopen_resolves` shows
that `fopen` returns if the heap has room for its blocks, that it succeeds in just these cases, and
that the descriptor then holds the entry the path leads to.
-/

namespace VibeKernel

open Verif

variable {H D : Type}

/-- A part of a path. -/
structure IsPart (part : CString) : Prop where
  nonempty : part ≠ []
  no_nul : (0 : UInt8) ∉ part
  no_slash : (0x2F : UInt8) ∉ part
  short : part.length < 256

/-- The path `d:/c1/.../cn`. -/
def pathOf (drive : ℕ) (parts : List CString) : CString :=
  UInt8.ofNat (0x30 + drive) :: 0x3A :: 0x2F :: [0x2F].intercalate parts

section Path

theorem pathParserGetDriveNo_pathOf {drive : ℕ} (hdrive : drive ≤ 1) (parts : List CString) :
    pathParserGetDriveNo (pathOf drive parts) = some (drive, [0x2F].intercalate parts) := by
  obtain rfl | rfl : drive = 0 ∨ drive = 1 := by omega
  · rfl
  · rfl

theorem partChars_append {part rest : CString} (h : IsPart part) :
    partChars (part ++ 0x2F :: rest) = part := by
  unfold partChars
  rw [List.takeWhile_append_of_pos, List.takeWhile_cons_of_neg (by decide), List.append_nil]
  intro c hc
  refine decide_eq_true ⟨?_, ?_⟩
  · rintro rfl
    exact h.no_nul hc
  · rintro rfl
    exact h.no_slash hc

theorem partChars_self {part : CString} (h : IsPart part) : partChars part = part := by
  unfold partChars
  rw [List.takeWhile_eq_self_iff]
  intro c hc
  refine decide_eq_true ⟨?_, ?_⟩
  · rintro rfl
    exact h.no_nul hc
  · rintro rfl
    exact h.no_slash hc

/-- The parser splits a path into the parts it is made of. -/
theorem pathParts_intercalate : ∀ {n : ℕ} {parts : List CString}, (∀ p ∈ parts, IsPart p) →
    ([0x2F].intercalate parts).length < n → pathParts n ([0x2F].intercalate parts) = parts := by
  intro n
  induction n with
  | zero => exact fun _ h => absurd h (Nat.not_lt_zero _)
  | succ n ih =>
    intro parts hparts hlen
    rw [pathParts]
    cases parts with
    | nil => rfl
    | cons part rest =>
      have hpart := hparts part List.mem_cons_self
      have hpos : 0 < part.length := List.length_pos_iff.mpr hpart.nonempty
      cases rest with
      | nil =>
        rw [List.intercalate_singleton] at hlen ⊢
        rw [partChars_self hpart, if_neg hpart.nonempty]
        -- nothing is left
        have hrest : partRest part = [] := by
          unfold partRest
          rw [partChars_self hpart, List.drop_length]
          rfl
        rw [hrest]
        cases n with
        | zero => rfl
        | succ n => rfl
      | cons next rest =>
        rw [List.intercalate_cons_cons, List.append_assoc, List.singleton_append] at hlen ⊢
        rw [partChars_append hpart, if_neg hpart.nonempty]
        have hrest : partRest (part ++ 0x2F :: [0x2F].intercalate (next :: rest)) =
            [0x2F].intercalate (next :: rest) := by
          unfold partRest
          rw [partChars_append hpart, List.drop_left]
          rfl
        rw [List.length_append, List.length_cons] at hlen
        rw [hrest, ih (fun p hp => hparts p (List.mem_cons_of_mem _ hp)) (by omega)]

/-- No part of such a path is too long for its buffer. -/
theorem not_pathTooLong {drive : ℕ} (hdrive : drive ≤ 1) {parts : List CString}
    (hparts : ∀ p ∈ parts, IsPart p) : ¬ PathTooLong (pathOf drive parts) := by
  rintro ⟨i, rest, hget, p, hp, hlong⟩
  rw [pathParserGetDriveNo_pathOf hdrive] at hget
  cases hget
  rw [pathParts_intercalate hparts (Nat.lt_succ_self _)] at hp
  exact absurd (hparts p hp).short (Nat.not_lt.mpr hlong)

/-- A mode string that starts with `r`. -/
theorem fsParseMode_read {mode : CString} (h : mode.head? = some 0x72) :
    fsParseMode mode = .read := by
  cases mode with
  | nil => cases h
  | cons c rest =>
    cases h
    rfl

end Path

/-! ### Opening -/

section Open

variable {M : Machine H D} {drive : ℕ} {img : ℕ → UInt8} {bpb : FatBootSector}
  {B : ℕ → FatBootSector → Prop}

/-- Mounting finds the boot sector of the volume. -/
theorem bootSector_boot (hV : Volume M.ata drive img bpb) (hboot : 0 < bpb.sectors) (d : D) :
    bootSector M drive d = .inr bpb := by
  obtain ⟨stream', d', hread, -⟩ := diskstreamRead_spec hV.readable ⟨0, drive⟩ rfl
    (show 0 + 512 ≤ 512 * bpb.sectors by omega) d
  unfold bootSector
  rw [hread]
  dsimp only
  rw [if_neg (not_not_intro rfl), hV.boot, hV.accepted]

theorem bootSector_volume (hV : RootedVolume M.ata drive img bpb) (d : D) :
    bootSector M drive d = .inr bpb := bootSector_boot hV.volume hV.boot d

/-- **What `fopen` finds** under a path is what the path resolves to. -/
theorem fopenLookup_spec (hV : DirectoryVolume M.ata drive img bpb) (hdrive : drive ≤ 1)
    (hfuel : 65518 < M.fuel) {parts : List CString} (hne : parts ≠ [])
    (hparts : ∀ p ∈ parts, IsPart p) {mode : CString} (hmode : mode.head? = some 0x72) (d : D) :
    ∃ r, fopenLookup M (pathOf drive parts) mode d = .ok r ∧
      (∀ x, r = .inr x → x.1 = drive ∧ Resolves bpb img 0 parts x.2) ∧
      ∀ item, Resolves bpb img 0 parts item → r = .inr (drive, item) := by
  unfold fopenLookup
  rw [pathParserGetDriveNo_pathOf hdrive]
  dsimp only
  rw [pathParts_intercalate hparts (Nat.lt_succ_self _)]
  cases parts with
  | nil => exact absurd rfl hne
  | cons part rest =>
    unfold lookupParts
    dsimp only
    -- the drive, the boot sector and the mode are accepted
    rw [if_neg (by omega), bootSector_volume hV.toRootedVolume d, fsParseMode_read hmode]
    dsimp only
    rw [if_neg (by decide), if_neg (not_not_intro rfl)]
    have hstream : (afterBoot M drive d).1.diskId = drive :=
      (diskstreamRead_keeps (A := M.ata) ⟨0, drive⟩ 512 d).diskId
    -- the search answers the entry that the path resolves to
    obtain ⟨found, stream', d', hfind, hspec⟩ := fat16Find_spec hV hfuel rest 0 part
      (afterBoot M drive d).2 (fun p hp => (hparts p hp).no_nul) IsDirectory.root hstream
    rw [hfind]
    cases found with
    | none =>
      refine ⟨_, rfl, fun x h => (by cases h), fun item hres => ?_⟩
      cases ((hspec item).mp hres).1
    | some item =>
      dsimp only
      by_cases hsub : item.IsSubdirectory
      · rw [if_pos hsub]
        refine ⟨_, rfl, fun x h => (by cases h), fun item' hres => ?_⟩
        obtain ⟨⟨⟩, hfile⟩ := (hspec item').mp hres
        exact absurd hsub hfile
      · rw [if_neg hsub]
        refine ⟨_, rfl, fun x h => ?_, fun item' hres => ?_⟩
        · cases h
          exact ⟨rfl, (hspec item).mpr ⟨rfl, hsub⟩⟩
        · obtain ⟨⟨⟩, -⟩ := (hspec item').mp hres
          rfl

/-- **A file of the root directory** is found under its name, wherever the other directories
lead. -/
theorem fopenLookup_root (hV : RootedVolume M.ata drive img bpb) (hdrive : drive ≤ 1)
    {part : CString} (hpart : IsPart part) {e : DirectoryEntry}
    (hfind : DirectoryEntry.find
      (entriesAt img (512 * bpb.rootDirectorySector) bpb.rootDirEntries) part = some e)
    (hfile : ¬ (FatDirectoryItem.decode e).IsSubdirectory) {mode : CString}
    (hmode : mode.head? = some 0x72) (d : D) :
    fopenLookup M (pathOf drive [part]) mode d = .ok (.inr (drive, FatDirectoryItem.decode e)) := by
  have hparts : ∀ p ∈ [part], IsPart p := fun p hp => (List.mem_singleton.mp hp) ▸ hpart
  have hstream : (afterBoot M drive d).1.diskId = drive :=
    (diskstreamRead_keeps (A := M.ata) ⟨0, drive⟩ 512 d).diskId
  obtain ⟨answer, stream', d', hget, -, hans⟩ := @fat16GetDirectoryEntry_spec _ _ _ _ _ _ hV
    hpart.no_nul M.fuel 0 (fun h => absurd rfl h) _ DirectoryOf.root _ hstream
      (afterBoot M drive d).2
  rw [hfind] at hans
  unfold fopenLookup
  rw [pathParserGetDriveNo_pathOf hdrive]
  dsimp only
  rw [pathParts_intercalate hparts (Nat.lt_succ_self _)]
  unfold lookupParts
  dsimp only
  rw [if_neg (by omega), bootSector_volume hV d, fsParseMode_read hmode]
  dsimp only
  rw [if_neg (by decide), if_neg (not_not_intro rfl), fat16Find, hget]
  cases answer with
  | inl code => cases hans
  | inr item =>
    cases hans
    dsimp only
    rw [if_neg hfile]

/-- Opening a file that the search finds, with a free slot. -/
theorem fopen_wp_found (hB : ∀ d i bpb, bootSector M i d = .inr bpb → B i bpb) {s : Kernel H D}
    (hS : FsSound M B s) {slot : ℕ} (hfree : freeSlot s.fs = some slot) {path mode : CString}
    (hpath : ¬ PathTooLong path) {i : ℕ} {item : FatDirectoryItem}
    (hlookup : fopenLookup M path mode s.drives = .ok (.inr (i, item))) :
    wp Stop.AllocFails (fun s => fsStep M s (.fopen path mode))
      (fun out t => FsSound M B t ∧ out.result = slot + 1 ∧
        t.openFile slot = some (i, FatFileDescriptor.fresh item)) s := by
  change wp _ (_ <$> fopen M path mode) _ s
  rw [wp_map]
  refine fopen_wp (E := Stop.AllocFails) (fun e he => he) hS.arena hS.inv (hB s.drives) _ _
    (fun h => absurd h hpath) fun res t hpost => ?_
  obtain ⟨own, new, hgrow, -, hout⟩ := hpost.outcome
  rw [hlookup] at hout
  unfold OpenOutcome at hout
  dsimp only at hout
  rw [hfree] at hout
  obtain ⟨rfl, -, hfiles⟩ := hout
  exact ⟨⟨hgrow.arena, hpost.inv⟩, rfl, by rw [hfiles, Function.update_self]⟩

/-- What `fopen` does with a path on a volume: with room in the heap it returns, it succeeds exactly
if the path leads to a file, and the descriptor holds the entry of that file. -/
structure OpensResolved (M : Machine H D) (s : Kernel H D) (drive : ℕ) (path mode : CString)
    (resolves : FatDirectoryItem → Prop) : Prop where
  /-- The search ends. -/
  ends : ∃ r, fopenLookup M path mode s.drives = .ok r
  returns : RoomFor M (fopenRequests path) s → ∃ out t, fsStep M s (.fopen path mode) = .ok (out, t)
  stops : ∀ e, fsStep M s (.fopen path mode) = .error e → e.AllocFails
  succeeds : ∀ out t, fsStep M s (.fopen path mode) = .ok (out, t) →
    (0 < out.result ↔ ∃ item, resolves item)
  holds : ∀ out t item, fsStep M s (.fopen path mode) = .ok (out, t) → resolves item →
    ∃ slot : ℕ, out.result = slot + 1 ∧
      t.openFile slot = some (drive, FatFileDescriptor.fresh item)

theorem fopen_wp_resolves (hV : DirectoryVolume M.ata drive img bpb) (hdrive : drive ≤ 1)
    (hfuel : 65518 < M.fuel) {s : Kernel H D} (hS : FsSound M (fun _ _ => True) s) {slot : ℕ}
    (hfree : freeSlot s.fs = some slot) {parts : List CString} (hne : parts ≠ [])
    (hparts : ∀ p ∈ parts, IsPart p) {mode : CString} (hmode : mode.head? = some 0x72) :
    wp Stop.AllocFails (fun s => fsStep M s (.fopen (pathOf drive parts) mode))
      (fun out t => (0 < out.result ↔ ∃ item, Resolves bpb img 0 parts item) ∧
        ∀ item, Resolves bpb img 0 parts item → out.result = slot + 1 ∧
          t.openFile slot = some (drive, FatFileDescriptor.fresh item)) s := by
  change wp _ (_ <$> fopen M (pathOf drive parts) mode) _ s
  rw [wp_map]
  obtain ⟨r, hlookup, hfound, hres⟩ := fopenLookup_spec hV hdrive hfuel hne hparts hmode s.drives
  refine fopen_wp (E := Stop.AllocFails) (fun e he => he) hS.arena hS.inv
    (fun _ _ _ => trivial) _ _ (fun h => absurd h (not_pathTooLong hdrive hparts))
      fun res t hpost => ?_
  obtain ⟨own, new, -, -, hout⟩ := hpost.outcome
  rw [hlookup] at hout
  unfold OpenOutcome at hout
  cases r with
  | inl code =>
    obtain ⟨rfl, -, -⟩ := hout
    have hneg := fopenLookup_neg hlookup
    refine ⟨iff_of_false (not_lt.mpr hneg.le) ?_, fun item h => ?_⟩
    · rintro ⟨item, h⟩
      cases hres item h
    · cases hres item h
  | inr x =>
    obtain ⟨i, item⟩ := x
    obtain ⟨rfl, hitem⟩ := hfound _ rfl
    dsimp only at hout
    rw [hfree] at hout
    obtain ⟨rfl, -, hfiles⟩ := hout
    refine ⟨iff_of_true (show (0 : ℤ) < slot + 1 by omega) ⟨item, hitem⟩, fun item' h => ⟨rfl, ?_⟩⟩
    cases hres item' h
    rw [hfiles, Function.update_self]

/-- **Path resolution.** In every state that calls can reach, with a free slot, on a volume with
finite directories. -/
theorem fopen_resolves (hV : DirectoryVolume M.ata drive img bpb) (hdrive : drive ≤ 1)
    (hfuel : 65518 < M.fuel) (h : H) (d : D) (before : List FsCall) (outs : List FsOut)
    (s : Kernel H D) (hr : runList (fsStep M) (Kernel.boot h d) before = .ok (outs, s))
    (hfree : ∃ slot < 512, s.fs.fileDescriptors slot = 0) (parts : List CString) (hne : parts ≠ [])
    (hparts : ∀ p ∈ parts, IsPart p) (mode : CString) (hmode : mode.head? = some 0x72) :
    OpensResolved M s drive (pathOf drive parts) mode (Resolves bpb img 0 parts) := by
  have hS := runList_sound (fun _ _ _ _ => trivial) (FsSound.boot M h d) hr
  obtain ⟨slot, hslot⟩ := freeSlot_of_zero hfree
  have hwp := fopen_wp_resolves hV hdrive hfuel hS hslot hne hparts hmode
  obtain ⟨r, hlookup, -, -⟩ := fopenLookup_spec hV hdrive hfuel hne hparts hmode s.drives
  exact
    { ends := ⟨r, hlookup⟩
      returns := fopen_returns hS.arena hS.inv (fun _ _ _ => trivial)
        (not_pathTooLong hdrive hparts)
        ⟨r, hlookup⟩
      stops := fun e he => hwp.error he
      succeeds := fun out t ht => (hwp.ok ht).1
      holds := fun out t item ht hitem => ⟨slot, (hwp.ok ht).2 item hitem⟩ }

end Open

/-- The root directory is the only directory of a volume with one file. -/
theorem singleFile_directoryVolume :
    DirectoryVolume (imageAta (singleFileImage [0x42])) 0 (singleFileImage [0x42])
      singleFileBpb where
  volume := singleFile_volume 0
  boot := by decide
  root := by decide
  finite := by
    have hlive : ∀ e ∈ DirectoryEntry.live (entriesAt (singleFileImage [0x42]) 1024 16),
        ¬ (FatDirectoryItem.decode e).IsSubdirectory := by decide +kernel
    have hroot : ∀ cluster, IsDirectory singleFileBpb (singleFileImage [0x42]) cluster →
        cluster = 0 := by
      intro cluster hdir
      induction hdir with
      | root => rfl
      | sub _ hes he hsub ih =>
        subst ih
        cases hes with
        | root => exact absurd hsub (hlive _ he)
        | sub h0 => exact absurd rfl h0
    intro cluster hdir
    rw [hroot cluster hdir]
    exact ⟨_, DirectoryOf.root⟩

/-- The path `0:/a` leads to the file `A`. -/
theorem singleFile_resolves :
    Resolves singleFileBpb (singleFileImage [0x42]) 0 [[0x61]] (singleFileItem 1) := by
  have hfind : DirectoryEntry.find (entriesAt (singleFileImage [0x42]) 1024 16) [0x61] =
      some (singleFileEntry 1) := by decide +kernel
  rw [← singleFile_entry (by norm_num)]
  refine Resolves.file DirectoryOf.root hfind ?_
  decide +kernel

/-- `fopen("0:/a", "r")` in the first state returns the descriptor `1`, which holds the entry of
`A`. -/
theorem fopen_resolves_singleFile :
    ∃ out t, fsStep (singleFileMachine [0x42]) (Kernel.boot (KHeap.init 0x10000) ())
        (.fopen (pathOf 0 [[0x61]]) [0x72]) = .ok (out, t) ∧ out.result = 1 ∧
      t.openFile 0 = some (0, FatFileDescriptor.fresh (singleFileItem 1)) := by
  have hpart : ∀ p ∈ [([0x61] : CString)], IsPart p := by
    intro p hp
    rw [List.mem_singleton.mp hp]
    exact ⟨by decide, by decide, by decide, by decide⟩
  have hopens := fopen_resolves (M := singleFileMachine [0x42]) singleFile_directoryVolume
    (Nat.zero_le _) (by decide) (KHeap.init 0x10000) () [] [] _ rfl ⟨0, by norm_num, rfl⟩ [[0x61]]
    (by decide) hpart [0x72] rfl
  obtain ⟨out, t, hrun⟩ := hopens.returns
    (RoomFor.boot kheapView rfl (by decide +kernel) (by decide +kernel) ())
  obtain ⟨slot, hres, hfile⟩ := hopens.holds out t _ hrun singleFile_resolves
  have hone : (fsStep (singleFileMachine [0x42]) (Kernel.boot (KHeap.init 0x10000) ())
      (.fopen (pathOf 0 [[0x61]]) [0x72])).toOption.map (fun r => r.1.result) = some 1 := by
    decide +kernel
  rw [hrun] at hone
  have hout : out.result = 1 := Option.some.inj hone
  obtain rfl : slot = 0 := by omega
  exact ⟨out, t, hrun, hout, hfile⟩

end VibeKernel
