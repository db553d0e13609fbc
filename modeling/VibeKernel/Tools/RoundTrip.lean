import VibeKernel.Fs.FileCursor
import VibeKernel.Fs.PathResolution
import VibeKernel.Tools.InjectedImage

/-!
# The kernel reads what the script wrote

The script and the file system are two programs that share nothing but the format. On the image that
`inject` leaves, the root directory has the new entry behind entries with other names, so the search
of the kernel finds it; the entry names the first of the clusters that were taken, the allocation
table links them, and so the content of the file is the data. `inject_roundTrip` puts this together:
opening the file under its name, in any letter case, and reading it delivers the data.
-/

namespace VibeKernel

open Verif

variable {H D : Type}

/-! ### Reading an open file -/

/-- The bytes that a list of reads asks for. -/
def bytesAsked (reads : List (UInt32 × UInt32)) : ℕ :=
  (reads.map fun r => r.1.toNat * r.2.toNat).sum

/-- The call that reads from a descriptor. -/
def readCall (fd : Int32) (r : UInt32 × UInt32) : FsCall := .fread r.1 r.2 fd

section Reading

variable {M : Machine H D} {B : ℕ → FatBootSector → Prop} {drive slot : ℕ} {img : ℕ → UInt8}
  {bpb : FatBootSector} {item : FatDirectoryItem} {chain : List ℕ} {fd : Int32}

/-- A slot holds a file of the volume, at a position. -/
structure ReadsAt (M : Machine H D) (B : ℕ → FatBootSector → Prop) (drive slot : ℕ)
    (bpb : FatBootSector) (item : FatDirectoryItem) (chain : List ℕ) (s : Kernel H D) (pos : ℕ) :
    Prop where
  sound : FsSound M B s
  file : ∃ f, s.openFile slot = some (drive, f) ∧ AtChainPos bpb item chain f pos

/-- **One read** delivers what is left of the content, up to what was asked for. -/
theorem fsStep_fread_spec (hV : Volume M.ata drive img bpb) (hC : FileChain bpb img item chain)
    (hB : ∀ b, B drive b → b = bpb) (hfd : fdSlot fd.toInt = some slot) {s : Kernel H D} {pos : ℕ}
    (hR : ReadsAt M B drive slot bpb item chain s pos) {r : UInt32 × UInt32}
    (hrange : pos + r.1.toNat * r.2.toNat < 4294967296) :
    ∃ out t, fsStep M s (readCall fd r) = .ok (out, t) ∧
      out.bytes = Cursor.readBytes (fileContent bpb img item chain) pos r.1.toNat r.2.toNat ∧
      ReadsAt M B drive slot bpb item chain t (pos + out.bytes.length) := by
  obtain ⟨f, hopen, hat⟩ := hR.file
  have hwp : wp (fun _ => False) (fun s => fsStep M s (readCall fd r)) (fun out t =>
      out.bytes = Cursor.readBytes (fileContent bpb img item chain) pos r.1.toNat r.2.toNat ∧
        ReadsAt M B drive slot bpb item chain t (pos + out.bytes.length)) s := by
    change wp _ (_ <$> fread M r.1.toNat r.2.toNat fd.toInt) _ s
    rw [wp_map]
    refine fread_wp hR.sound.arena hR.sound.inv (fun hnone => ?_)
      fun slot' i g b hslot hfile hb => ?_
    · rw [Kernel.entry_of_slot hfd, hopen] at hnone
      cases hnone
    rw [hfd] at hslot
    cases hslot
    rw [hopen] at hfile
    cases hfile
    obtain rfl := hB b hb
    obtain ⟨f', stream', d', hread, hat', -⟩ :=
      @fat16Read_spec _ _ _ _ _ _ _ hV hC _ _ hat _ _ hrange ⟨0, drive⟩ rfl s.drives
    rw [hread]
    refine ⟨fun e he => (by cases he), fun res g x hok t hmoved => ?_⟩
    cases hok
    exact ⟨rfl, ⟨hmoved.arena, hmoved.inv⟩, f', by rw [hmoved.files, Function.update_self], hat'⟩
  exact hwp.total

/-- **Reading on.** Any sequence of reads delivers what is left of the content, up to what they ask
for together. -/
theorem runList_freads (hV : Volume M.ata drive img bpb) (hC : FileChain bpb img item chain)
    (hB : ∀ b, B drive b → b = bpb) (hfd : fdSlot fd.toInt = some slot) :
    ∀ (reads : List (UInt32 × UInt32)) {s : Kernel H D} {pos : ℕ},
      ReadsAt M B drive slot bpb item chain s pos →
      (∀ r ∈ reads, item.filesize + r.1.toNat * r.2.toNat < 4294967296) →
      ∃ outs t, runList (fsStep M) s (reads.map (readCall fd)) = .ok (outs, t) ∧
        outs.flatMap FsOut.bytes =
          ((fileContent bpb img item chain).drop pos).take (bytesAsked reads) := by
  intro reads
  induction reads with
  | nil => exact fun _ _ => ⟨[], _, rfl, by simp [bytesAsked]⟩
  | cons r reads ih =>
    intro s pos hR hsmall
    obtain ⟨f, -, hat⟩ := hR.file
    have hr := hsmall r List.mem_cons_self
    have hpos := hat.inside
    obtain ⟨out, t, hstep, hbytes, hRt⟩ := fsStep_fread_spec hV hC hB hfd hR (r := r) (by omega)
    obtain ⟨outs, u, hrun, hrest⟩ := ih hRt fun r' h => hsmall r' (List.mem_cons_of_mem _ h)
    refine ⟨out :: outs, u, runList_cons_ok.mpr ⟨out, t, outs, hstep, hrun, rfl⟩, ?_⟩
    have hasked : bytesAsked (r :: reads) = r.1.toNat * r.2.toNat + bytesAsked reads := rfl
    rw [List.flatMap_cons, hrest, hasked, List.take_add, hbytes]
    unfold Cursor.readBytes
    -- behind a read that came back short nothing is left
    congr 2
    rw [List.drop_drop, List.length_take, List.length_drop]
    rcases Nat.le_total (r.1.toNat * r.2.toNat)
      ((fileContent bpb img item chain).length - pos) with h | h
    · rw [min_eq_left h]
    · rw [min_eq_right h, List.drop_eq_nil_of_le (by omega), List.drop_eq_nil_of_le (by omega)]

end Reading

/-! ### The file in the image -/

section Image

variable {img img' : ℕ → UInt8} {bpb : FatBootSector} {data name : List UInt8} {clusters : List ℕ}
  {idx : ℕ}

theorem isEnd_slice (img : ℕ → UInt8) (pos : ℕ) :
    DirectoryEntry.IsEnd (slice img pos 32) ↔ img pos = 0x00 := by
  unfold DirectoryEntry.IsEnd
  rw [byteAt_slice (by norm_num), Nat.add_zero]
  exact ⟨fun h => UInt8.toNat_inj.mp h, fun h => by rw [h]; rfl⟩

/-- The entry is the first one in the root directory with the name of the file. -/
theorem Injected.find (hI : Injected img img' bpb data name clusters idx)
    (hC : CanTake img bpb data.length name) (hname : IsTargetName name)
    (hsize : data.length < 4294967296) (hfirst : clusters.getD 0 0 < 65536) {part : CString}
    (hpart : SameName part name) :
    DirectoryEntry.find (entriesAt img' (512 * bpb.rootDirectorySector) bpb.rootDirEntries) part =
      some (injectEntry name (clusters.getD 0 0) data.length) := by
  obtain ⟨hentryName, hend, hdel⟩ := injectEntry_named hname hfirst hsize
  obtain ⟨rest, hrest⟩ : ∃ rest, bpb.rootDirEntries = idx + (rest + 1) :=
    ⟨bpb.rootDirEntries - idx - 1, by have := hI.idx_lt; omega⟩
  rw [hrest, entriesAt_add, entriesAt_succ, hI.entry]
  refine DirectoryEntry.find_append (fun e he => ?_) hend hdel ?_
  · -- the entries in front are those of the old image
    obtain ⟨j, hj, rfl⟩ := List.mem_map.mp he
    rw [List.mem_range] at hj
    rw [hI.before j hj]
    refine ⟨fun h => (hI.live j hj).1 ((isEnd_slice _ _).mp h), fun h => ?_⟩
    refine hC.fresh j (hj.trans hI.idx_lt) (fun i hi => hI.live i (lt_of_le_of_lt hi hj)) ?_
    exact h.trans hpart
  · unfold SameName at hpart ⊢
    rw [hentryName, hpart, List.map_map]
    exact List.map_congr_left fun c _ => toupper_toupper c

/-- The clusters are a chain of the new entry. -/
theorem Injected.chain (hI : Injected img img' bpb data name clusters idx)
    (hcs : 0 < bpb.clusterSize) (hsize : data.length < 2147483648)
    (hfirst : clusters.getD 0 0 < 65536) :
    FileChain bpb img'
      (FatDirectoryItem.decode (injectEntry name (clusters.getD 0 0) data.length)) clusters := by
  rw [decode_injectEntry hfirst (by omega)]
  exact
    { size := hsize
      first := by
        intro c hc
        rw [List.head?_eq_getElem?] at hc
        rw [List.getD_eq_getElem?_getD, hc]
        rfl
      linked := by
        intro i c c' hc hc'
        have hlt := (List.getElem?_eq_some_iff.mp hc').1
        have h := hI.linked i hlt
        rw [List.getD_eq_getElem?_getD, List.getD_eq_getElem?_getD, hc, hc'] at h
        exact h
      inside := hI.taken.inside
      long := by
        rw [hI.taken.length]
        have h := Nat.lt_div_mul_add (a := data.length + bpb.clusterSize - 1) hcs
        change data.length ≤ _
        omega }

/-- **The content of the new file is the data.** -/
theorem Injected.content {A : Ata D} {drive : ℕ} (hI : Injected img img' bpb data name clusters idx)
    (hV : Volume A drive img' bpb) (hsize : data.length < 2147483648)
    (hfirst : clusters.getD 0 0 < 65536) :
    fileContent bpb img'
      (FatDirectoryItem.decode (injectEntry name (clusters.getD 0 0) data.length)) clusters =
        data := by
  have hcs := hV.clusterSize_pos
  have hC := hI.chain hcs hsize hfirst
  have hfilesize : (FatDirectoryItem.decode
      (injectEntry name (clusters.getD 0 0) data.length)).filesize = data.length := by
    rw [decode_injectEntry hfirst (by omega)]
  rw [hC.content_eq hV, hfilesize]
  refine List.ext_getElem (slice_length _ _ _) fun i hi hi' => ?_
  rw [slice_length] at hi
  have hget := slice_getElem? (fileCell bpb img' clusters) (a := 0) hi
  rw [List.getElem?_eq_getElem (by rw [slice_length]; exact hi), Option.some.injEq,
    Nat.zero_add] at hget
  rw [hget]
  unfold fileCell
  -- byte `i` is in cluster `i / clusterSize`
  have hlong := hC.long
  rw [hfilesize] at hlong
  have hk : i / bpb.clusterSize < clusters.length :=
    Nat.div_lt_of_lt_mul (by rw [Nat.mul_comm]; exact lt_of_lt_of_le hi hlong)
  have hsplit := Nat.div_add_mod' i bpb.clusterSize
  have hfill := hI.filled (i / bpb.clusterSize) (i % bpb.clusterSize) hk (Nat.mod_lt _ hcs)
    (by omega)
  have hpos : (clusters.map bpb.clusterPos).getD (i / bpb.clusterSize) 0 =
      bpb.clusterPos (clusters.getD (i / bpb.clusterSize) 0) := by
    rw [List.getD_eq_getElem?_getD, List.getD_eq_getElem?_getD, List.getElem?_map,
      List.getElem?_eq_getElem hk]
    rfl
  rw [hpos, hfill]
  congr 1

/-- A file name is a part of a path, in any letter case. -/
theorem IsTargetName.isPart {part : CString} (hname : IsTargetName name)
    (hpart : SameName part name) : IsPart part := by
  obtain ⟨base, ext, -, -, hpos, hlen, hlen', hbase, hext, hmap⟩ := hname.parts
  have hup : part.map toupper = base ++ if ext = [] then [] else 0x2E :: ext := hpart.trans hmap
  have hlength := congrArg List.length hup
  rw [List.length_map, List.length_append] at hlength
  have hextLen : (if ext = [] then [] else 0x2E :: ext).length ≤ 4 := by
    split
    · exact Nat.zero_le _
    · rw [List.length_cons]
      omega
  -- no character of the name is `NUL` or a slash
  have hmem : ∀ c ∈ part, toupper c ≠ 0 ∧ toupper c ≠ 0x2F := by
    intro c hc
    have h : toupper c ∈ part.map toupper := List.mem_map_of_mem hc
    rw [hup, List.mem_append] at h
    rcases h with h | h
    · exact ⟨(hbase _ h).no_nul, (hbase _ h).no_slash⟩
    · split at h
      · cases h
      · rcases List.mem_cons.mp h with h | h
        · rw [h]
          decide
        · exact ⟨(hext _ h).no_nul, (hext _ h).no_slash⟩
  exact
    { nonempty := by
        rintro rfl
        rw [List.length_nil] at hlength
        omega
      no_nul := fun h => (hmem 0 h).1 rfl
      no_slash := fun h => (hmem 0x2F h).2 rfl
      short := by omega }

end Image

/-! ### The round trip -/

/-- `fopen` returns if the heap has room for its blocks, it succeeds with the first free slot, and
any sequence of reads from the new descriptor delivers the data, up to what they ask for
together. -/
structure Delivers (M : Machine H D) (s : Kernel H D) (path mode : CString) (data : List UInt8) :
    Prop where
  /-- The search ends. -/
  ends : ∃ r, fopenLookup M path mode s.drives = .ok r
  returns : RoomFor M (fopenRequests path) s → ∃ out t, fsStep M s (.fopen path mode) = .ok (out, t)
  stops : ∀ e, fsStep M s (.fopen path mode) = .error e → e.AllocFails
  opens : ∀ out t, fsStep M s (.fopen path mode) = .ok (out, t) →
    ∃ slot, freeSlot s.fs = some slot ∧ out.result = slot + 1
  reads : ∀ out t fd reads, fsStep M s (.fopen path mode) = .ok (out, t) →
    fd.toInt = out.result → (∀ r ∈ reads, data.length + r.1.toNat * r.2.toNat < 4294967296) →
    ∃ outs u, runList (fsStep M) t (reads.map (readCall fd)) = .ok (outs, u) ∧
      outs.flatMap FsOut.bytes = data.take (bytesAsked reads)

/-- On a drive with the new image the file is delivered. -/
theorem Injected.delivers {img img' : ℕ → UInt8} {bpb : FatBootSector} {data name : List UInt8}
    {clusters : List ℕ} {idx : ℕ} (hI : Injected img img' bpb data name clusters idx)
    (hC : CanTake img bpb data.length name) (hname : IsTargetName name) (hdata : data ≠ [])
    (hsize : data.length < 2147483648) {M : Machine H D} {drive : ℕ} (hdrive : drive ≤ 1)
    (hread : Readable M.ata drive bpb.sectors img') {h : H} {d : D} {before : List FsCall}
    {outs : List FsOut} {s : Kernel H D}
    (hr : runList (fsStep M) (Kernel.boot h d) before = .ok (outs, s))
    (hfree : ∃ slot < 512, s.fs.fileDescriptors slot = 0) {part : CString}
    (hpart : SameName part name) {mode : CString} (hmode : mode.head? = some 0x72) :
    Delivers M s (pathOf drive [part]) mode data := by
  have hV : Volume M.ata drive img' bpb := ⟨hI.boot, hC.accepted, hread⟩
  -- the first cluster is in the volume, and so is what lies in front of it
  obtain ⟨h2, hmax, hend⟩ : bpb.HasCluster (clusters.getD 0 0) :=
    hI.taken.inside _ (hI.taken.getD_mem (clustersNeeded_pos hdata hV.clusterSize_pos))
  have hRV : RootedVolume M.ata drive img' bpb :=
    { volume := hV
      boot := by
        have := (FatBootSector.accepted_iff.mp hC.accepted).2.2.2
        omega
      root := by omega }
  have hfirst : clusters.getD 0 0 < 65536 := by omega
  have hIsPart := hname.isPart hpart
  have hfind := hI.find hC hname (by omega) hfirst hpart
  have hfile : ¬ (FatDirectoryItem.decode
      (injectEntry name (clusters.getD 0 0) data.length)).IsSubdirectory := by
    rw [decode_injectEntry hfirst (by omega)]
    show ¬ (0x20 &&& fatFileSubdirectory ≠ 0)
    decide
  have hlookup := fopenLookup_root hRV hdrive hIsPart hfind hfile hmode s.drives
  have hB : ∀ d i b, bootSector M i d = .inr b → i = drive → b = bpb := by
    rintro d i b hb rfl
    rw [bootSector_volume hRV d] at hb
    cases hb
    rfl
  have hS := runList_sound (B := fun i b => i = drive → b = bpb) hB (FsSound.boot M h d) hr
  obtain ⟨slot, hslot⟩ := freeSlot_of_zero hfree
  have hnotLong : ¬ PathTooLong (pathOf drive [part]) :=
    not_pathTooLong hdrive fun p hp => (List.mem_singleton.mp hp) ▸ hIsPart
  have hwp := fopen_wp_found hB hS hslot hnotLong hlookup
  have hchain := hI.chain hV.clusterSize_pos hsize hfirst
  exact
    { ends := ⟨_, hlookup⟩
      returns := fopen_returns hS.arena hS.inv (hB s.drives) hnotLong ⟨_, hlookup⟩
      stops := fun e he => hwp.error he
      opens := fun out t ht => ⟨slot, hslot, (hwp.ok ht).2.1⟩
      reads := by
        intro out t fd reads ht hfd hsmall
        obtain ⟨hSt, hres, hopen⟩ := hwp.ok ht
        have hfdSlot : fdSlot fd.toInt = some slot :=
          fdSlot_eq_some.mpr ⟨hfd.trans hres, (freeSlot_spec hslot).1⟩
        obtain ⟨outs, u, hrun, hbytes⟩ :=
          runList_freads hV hchain (fun b hb => hb rfl) hfdSlot reads
          ⟨hSt, _, hopen, AtPos.fresh (hchain.layout hV)⟩ fun r hmem => by
            rw [decode_injectEntry hfirst (by omega)]
            exact hsmall r hmem
        rw [hI.content hV hsize hfirst, List.drop_zero] at hbytes
        exact ⟨outs, u, hrun, hbytes⟩ }

/-- **The round trip.** The script writes the file into every image that can take it, and the kernel
then opens it on a drive with the new image, in any letter case and after any calls that leave a
free slot, and reads the data from it. -/
theorem inject_roundTrip (img : ℕ → UInt8) (bpb : FatBootSector) (data name : List UInt8)
    (hC : CanTake img bpb data.length name) (hname : IsTargetName name) (hdata : data ≠ [])
    (hsize : data.length < 2147483648) :
    ∃ img', inject img data name = some img' ∧
      ∀ (H D : Type) (M : Machine H D) (drive : ℕ) (h : H) (d : D) (before : List FsCall)
        (outs : List FsOut) (s : Kernel H D) (part mode : CString), drive ≤ 1 →
        Readable M.ata drive bpb.sectors img' →
        runList (fsStep M) (Kernel.boot h d) before = .ok (outs, s) →
        (∃ slot < 512, s.fs.fileDescriptors slot = 0) → SameName part name →
        mode.head? = some 0x72 → Delivers M s (pathOf drive [part]) mode data := by
  obtain ⟨img', clusters, idx, hinject, hI⟩ := inject_spec hC hdata
  exact ⟨img', hinject,
    fun H D M drive h d before outs s part mode hdrive hread hr hfree hpart hmode =>
    hI.delivers hC hname hdata hsize hdrive hread hr hfree hpart hmode⟩

/-- A volume without files. -/
def emptyImage (a : ℕ) : UInt8 := if a < 512 then singleFileBoot a else 0

theorem emptyImage_boot : FatBootSector.decode (slice emptyImage 0 512) = singleFileBpb := by
  have hslice : slice emptyImage 0 512 = slice singleFileBoot 0 512 := by
    refine slice_congr fun i hi => ?_
    unfold emptyImage
    rw [Nat.zero_add, if_pos hi]
  rw [hslice]
  decide +kernel

/-- The empty volume can take a file of one byte. -/
theorem emptyImage_canTake : CanTake emptyImage singleFileBpb 1 [0x62] where
  boot := emptyImage_boot
  accepted := by decide
  small := by decide
  reserved := by decide
  copies := by decide
  wholeSectors := by decide
  clusters := by
    refine ⟨{2}, by decide, fun c hc => ?_⟩
    rw [Finset.mem_singleton.mp hc]
    exact ⟨⟨by decide, by decide, by decide⟩, by decide, by decide +kernel⟩
  entry := ⟨0, by decide, Or.inl rfl⟩
  fresh := fun i _ hlive => absurd rfl (hlive 0 (Nat.zero_le i)).1

/-- The file `b` with the byte `0x42` is written into the empty volume; `fopen("0:/B", "r")` returns
the descriptor `1`, and reading a byte from it delivers `0x42`. -/
theorem inject_roundTrip_empty :
    ∃ img' out t outs u, inject emptyImage [0x42] [0x62] = some img' ∧
      fsStep ⟨kheap, imageAta img', 0x10000, 65536⟩ (Kernel.boot (KHeap.init 0x10000) ())
        (.fopen (pathOf 0 [[0x42]]) [0x72]) = .ok (out, t) ∧ out.result = 1 ∧
      runList (fsStep ⟨kheap, imageAta img', 0x10000, 65536⟩) t [readCall 1 (1, 1)] =
        .ok (outs, u) ∧ outs.flatMap FsOut.bytes = [0x42] := by
  have hname : IsTargetName [0x62] := .base (by decide) (by decide) fun c hc => by
    rw [List.mem_singleton.mp hc]
    exact ⟨by decide, by decide, by decide, by decide, by decide⟩
  obtain ⟨img', hinject, h⟩ := inject_roundTrip emptyImage singleFileBpb [0x42] [0x62]
    emptyImage_canTake hname (by decide) (by decide)
  have hD := h KHeap Unit ⟨kheap, imageAta img', 0x10000, 65536⟩ 0 (KHeap.init 0x10000) () [] [] _
    [0x42] [0x72] (by decide) (imageAta_readable img' 0 (by decide)) rfl ⟨0, by decide, rfl⟩ rfl rfl
  have hspace : 0 < 0x10000 ∧
      0x10000 + roomNeeded (fopenRequests (pathOf 0 [[0x42]])) ≤ identityTop := by decide +kernel
  have hpages : PagesFit (fopenRequests (pathOf 0 [[0x42]])) (0x10000 % 4096) := by decide +kernel
  obtain ⟨out, t, hrun⟩ := hD.returns (RoomFor.boot kheapView rfl hspace hpages ())
  obtain ⟨slot, hfree, hres⟩ := hD.opens out t hrun
  have hslot : freeSlot (Kernel.boot (KHeap.init 0x10000) ()).fs = some 0 := by decide +kernel
  rw [hslot] at hfree
  cases hfree
  have hone : out.result = 1 := by
    rw [hres]
    decide
  obtain ⟨outs, u, hreads, hbytes⟩ := hD.reads out t 1 [(1, 1)] hrun (by rw [hone]; decide)
    fun r hr => by
      rw [List.mem_singleton.mp hr]
      decide
  exact ⟨img', out, t, outs, u, hinject, hrun, hone, hreads, hbytes⟩

end VibeKernel
