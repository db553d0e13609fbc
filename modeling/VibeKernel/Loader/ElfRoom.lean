import VibeKernel.Fs.OpenRoom
import VibeKernel.Kernel.HeapRoom
import VibeKernel.Loader.SegmentWrites
import VibeKernel.Memory.PagingRoom

/-!
# Loading an ELF file with room in the heap

`elf_load` asks the allocator for what `fopen` asks for, then for the structure of the process and
its page directory, and then, for each `PT_LOAD` header, for the block of the segment and the tables
of its pages (`StoredFile.elfRequests`). `LoadsInPlace` says that the allocator has room for these
requests and that all that the loader copies stays in its blocks. Under this condition `elf_load`
returns (`LoadsInPlace.returns`).

Each step of the loader that the specifications in `Loader/ElfLoad.lean` describe is gone through a
second time, for what it costs. The tables that a step finds are those of the map that the directory
stands for, so the two descriptions go hand in hand (`wp.and_completed`).
-/

namespace VibeKernel

open Verif

variable {H D : Type}

/-! ### What is asked for -/

/-- What a new process with its address space asks the allocator for. -/
def processRequests : List Request := ⟨96, false⟩ :: newDirectoryRequests

/-- The page at offset `b` takes a table of its own: it lies behind the identity map, and it is the
first page that is mapped or the first one of its table. -/
def NeedsTable (virt b : ℕ) : Prop :=
  virt % 4096 = 0 ∧ identityTop ≤ u32 (virt + b) ∧ (b = 0 ∨ u32 (virt + b) % 4194304 = 0)

instance (virt b : ℕ) : Decidable (NeedsTable virt b) := inferInstanceAs (Decidable (_ ∧ _))

/-- What mapping `n` pages from the offset `b` on asks the allocator for. -/
def pageRequests (virt : ℕ) : ℕ → ℕ → List Request
  | _, 0 => []
  | b, n + 1 => (if NeedsTable virt b then [tableRequest] else []) ++ pageRequests virt (b + 4096) n

/-- What a program header asks the allocator for. -/
def ElfPhdr.requests (phdr : ElfPhdr) : List Request :=
  if phdr.type = ptLoad then ⟨phdr.memsz, true⟩ :: pageRequests phdr.vaddr 0 phdr.pages else []

namespace StoredFile

variable {M : Machine H D}

/-- What the loop over `n` program headers asks the allocator for. -/
def headerRequests (x : StoredFile M) : ℕ → ℕ → List Request
  | _, 0 => []
  | pos, n + 1 => (x.phdrAt pos).requests ++ x.headerRequests (pos + elfPhdrSize) n

/-- What `elf_load` asks the allocator for. -/
def elfRequests (x : StoredFile M) (filename : CString) : List Request :=
  fopenRequests filename ++
    (processRequests ++ (x.readHeaders.map Prod.fst).flatMap ElfPhdr.requests)

/-- The requests of the loop are those of its headers. -/
theorem headerRequests_eq (x : StoredFile M) : ∀ n pos, x.headerRequests pos n =
    ((List.range n).map fun i => x.phdrAt (pos + elfPhdrSize * i)).flatMap ElfPhdr.requests := by
  intro n
  induction n with
  | zero => exact fun _ => rfl
  | succ n ih =>
    intro pos
    rw [headerRequests, ih, List.range_succ_eq_map, List.map_cons, List.map_map,
      List.flatMap_cons]
    refine congrArg (_ ++ ·) (congrArg _ (List.map_congr_left fun i _ => ?_))
    rw [at_behind]
    rfl

end StoredFile

/-! ### The process -/

section Process

variable {M : Machine H D} {E : Stop → Prop} {s : Kernel H D} {rs : List Request} {proc : ℕ}
  {filename : CString}

theorem modifyProcess_spends (hE : E .clobbered) {f : (ℕ → UInt8) → ℕ → UInt8} :
    Spends M.room E (modifyProcess proc f) [] := by
  unfold modifyProcess
  exact (readObj_spends hE _).bind_free fun _ => writeObj_spends hE

theorem processLink_spends (hE : E .clobbered) : Spends M.room E (processLink proc) [] := by
  unfold processLink
  refine Spends.bind_gets fun s => Spends.ite (fun _ => ?_) fun _ => ?_
  · exact modify_spends (by exact fun _ => ⟨rfl, rfl⟩)
  · refine (modifyProcess_spends hE).bind_free fun _ => ?_
    exact modify_spends (by exact fun _ => ⟨rfl, rfl⟩)

theorem processAlloc_spends (hE : E .clobbered) :
    Spends M.room E (processAlloc M) [⟨96, false⟩] := by
  unfold processAlloc processGetFreeSlot
  refine kmallocInt_spends.bind_last fun p => Spends.ite (fun _ => Spends.pure _ _) fun _ => ?_
  refine (writeObj_spends hE).bind_free fun _ => ?_
  refine Spends.bind_free ?_ fun id => ?_
  · exact (modify_spends (by exact fun _ => ⟨rfl, rfl⟩)).bind_free fun _ =>
      Spends.bind_gets fun _ => Spends.pure _ _
  · refine (modifyProcess_spends hE).bind_free fun _ => ?_
    exact (processLink_spends hE).bind_free fun _ => Spends.pure _ _

theorem processSetName_spends (hE : E .clobbered) (hover : E .overrun) :
    Spends M.room E (processSetName M proc filename) [] := by
  unfold processSetName
  exact Spends.bind_gets fun s =>
    Spends.ite (fun _ => modifyProcess_spends hE) fun _ => Spends.stop hover _

theorem newPagingChunk_spends (hE : E .clobbered) (flags : ℕ) :
    Spends M.room E (newPagingChunk M proc flags) newDirectoryRequests := by
  unfold newPagingChunk
  exact (pagingNew4gb_spends hE flags).bind_last fun _ => modifyProcess_spends hE

/-- A page that the map of a directory knows has a table. -/
theorem DirRefines.table_present {dir virt : ℕ} {W m : ℕ → ℕ} (hR : DirRefines s dir W m)
    (hvirt : virt < 4294967296) (hm : m (virt / 4096) ≠ 0) :
    W (virt >>> 22) &&& 0xFFFFF000 ≠ 0 := by
  rw [(walk_index virt).1]
  have hi : virt / 4096 / 1024 < 1024 := by omega
  have hW : W (virt / 4096 / 1024) ≠ 0 := by
    intro hzero
    have hempty := hR.empty _ hi hzero (virt / 4096 % 1024) (Nat.mod_lt _ (by norm_num))
    rw [Nat.div_add_mod] at hempty
    exact hm hempty
  obtain ⟨hlt, -, hbase, -, -⟩ := hR.table _ hi hW
  rw [and_pageBase hlt]
  exact hbase

/-- The map has an entry for every page of the identity map. -/
def LowMapped (m : ℕ → ℕ) : Prop := ∀ page < 16384, m page ≠ 0

theorem LowMapped.update {m : ℕ → ℕ} (h : LowMapped m) (page v : ℕ) :
    LowMapped (Function.update m page (v ||| 7)) := by
  intro q hq
  by_cases hqp : q = page
  · rw [hqp, Function.update_self]
    exact Nat.ne_of_gt (lt_of_lt_of_le (by norm_num) Nat.right_le_or)
  · rw [Function.update_of_ne hqp]
    exact h q hq

theorem identityMap_low : LowMapped (identityMap (pagingIsPresent ||| pagingIsWriteable)) := by
  intro page hpage
  unfold identityMap
  rw [if_pos hpage]
  exact Nat.ne_of_gt (lt_of_lt_of_le (by decide) Nat.right_le_or)

theorem processMap_low : LowMapped processMap := identityMap_low.update 0xB8 0xB8000

/-- The VGA page has its table. -/
theorem mapVga_room (hE : E .clobbered) {dir : ℕ} {W m : ℕ → ℕ} (hS : HasSpace s proc dir W m)
    (hlow : LowMapped m) (hroom : RoomFor M rs s) :
    wp E (mapVga M proc) (fun _ t => RoomFor M rs t) s := by
  unfold mapVga
  rw [wp_bind]
  refine processDirectory_wp hS
    (wp_seq (pagingSet_present hE hS.refines.directory (fun _ => ?_) hroom)
    fun _ t ht => ht)
  exact hS.refines.table_present (by norm_num) (hlow _ (by norm_num))

/-- **A new process** takes its structure and its directory. -/
theorem elfNewProcess_room (hA : ArenaInv M s) (hroom : RoomFor M (processRequests ++ rs) s) :
    wp Unforced (elfNewProcess M filename) (fun _ t => RoomFor M rs t) s := by
  have hrest : RoomFor M (newDirectoryRequests ++ rs) s := RoomFor.skip hroom
  unfold elfNewProcess
  have halloc : wp Unforced (processAlloc M) (fun r t => RoomFor M (newDirectoryRequests ++ rs) t ∧
      (r.1 < 0 ∨ ProcessMade M s t r.2)) s := by
    refine (processAlloc_spends unforced_clobbered _ s hroom).and_completed ?_
    exact processAlloc_wp (fun _ _ => trivial) hA (.inr trivial) (fun _ _ => .inl (by norm_num))
      fun proc t hmade => .inr hmade
  refine wp_seq halloc fun r t ht => ?_
  obtain ⟨res, proc⟩ := r
  obtain ⟨ht, hmade⟩ := ht
  dsimp only at hmade ⊢
  by_cases hneg : res < 0
  · rw [if_pos hneg]
    exact RoomFor.skips ht
  rw [if_neg hneg]
  replace hmade := hmade.resolve_left hneg
  obtain ⟨x, hx⟩ := hmade.process
  have hname : wp Unforced (processSetName M proc filename) (fun _ u =>
      RoomFor M (newDirectoryRequests ++ rs) u ∧ ∃ y, u = t.put proc (.process y)) t := by
    refine (processSetName_spends unforced_clobbered unforced_overrun
      (newDirectoryRequests ++ rs) t ht).and_completed ?_
    exact processSetName_wp hmade.step.arena hx (fun _ => trivial) fun y => ⟨y, rfl⟩
  refine wp_seq hname fun _ u hu => ?_
  obtain ⟨hu, y, rfl⟩ := hu
  have hnamed : Extends M (· = .process) t (t.put proc (.process y)) :=
    Extends.overwrite hmade.step.arena hx rfl rfl
  have hspace : wp Unforced (newPagingChunk M proc (pagingIsPresent ||| pagingIsWriteable))
      (fun _ v => RoomFor M rs v ∧ ∃ dir W,
        HasSpace v proc dir W (identityMap (pagingIsPresent ||| pagingIsWriteable)))
      (t.put proc (.process y)) := by
    refine (newPagingChunk_spends unforced_clobbered _ _ _ hu).and_completed ?_
    exact newPagingChunk_wp (fun _ _ => trivial) hnamed.arena ⟨y, Kernel.put_store_self⟩ (by decide)
      (by decide) fun v dir W _ hS _ => ⟨dir, W, hS⟩
  refine wp_seq hspace fun _ v hv => ?_
  obtain ⟨hv, dir, W, hS⟩ := hv
  exact wp_seq (mapVga_room unforced_clobbered hS identityMap_low hv) fun _ w hw => hw

end Process

/-! ### Pages -/

section Pages

variable {M : Machine H D} {rs : List Request} {proc dir virt phys : ℕ}

/-- A page that takes no table of its own has one, if its predecessor was mapped. -/
theorem mapped_of_not_needsTable {m : ℕ → ℕ} {b : ℕ} (hlow : LowMapped m)
    (halign : virt % 4096 = 0) (hb : b % 4096 = 0)
    (hprev : b ≠ 0 → m (u32 (virt + (b - 4096)) / 4096) ≠ 0) (hneeds : ¬ NeedsTable virt b) :
    m (u32 (virt + b) / 4096) ≠ 0 ∨ u32 (virt + b) / 4096 / 1024 =
      u32 (virt + (b - 4096)) / 4096 / 1024 ∧ m (u32 (virt + (b - 4096)) / 4096) ≠ 0 := by
  by_cases htop : identityTop ≤ u32 (virt + b)
  · have hmiddle : ¬ (b = 0 ∨ u32 (virt + b) % 4194304 = 0) := fun h => hneeds ⟨halign, htop, h⟩
    rw [not_or] at hmiddle
    refine .inr ⟨?_, hprev hmiddle.1⟩
    have hmiddle' := hmiddle.2
    have hb0 := hmiddle.1
    simp only [u32_eq] at hmiddle' ⊢
    omega
  · refine .inl (hlow _ ?_)
    unfold identityTop at htop
    omega

/-- Setting the entry of a page takes the table that it needs. -/
theorem setUserPage_room {s : Kernel H D} {b : ℕ} {W m : ℕ → ℕ} (hS : HasSpace s proc dir W m)
    (hlow : LowMapped m) (hb : b % 4096 = 0)
    (hprev : b ≠ 0 → virt % 4096 = 0 → m (u32 (virt + (b - 4096)) / 4096) ≠ 0) {val : ℕ}
    (hroom : RoomFor M ((if NeedsTable virt b then [tableRequest] else []) ++ rs) s) :
    wp Unforced (pagingSet M dir (u32 (virt + b)) val) (fun _ t => RoomFor M rs t) s := by
  by_cases hneeds : NeedsTable virt b
  · rw [if_pos hneeds] at hroom
    exact pagingSet_spends unforced_clobbered rs s hroom
  · rw [if_neg hneeds] at hroom
    refine pagingSet_present unforced_clobbered hS.refines.directory (fun halign => ?_) hroom
    have halign' : virt % 4096 = 0 := by
      rw [u32_eq] at halign
      omega
    rcases mapped_of_not_needsTable hlow halign' hb (fun h => hprev h halign') hneeds
      with hm | ⟨hsame, hm⟩
    · exact hS.refines.table_present (u32_lt _) hm
    · -- the table is that of the page in front
      have htable := hS.refines.table_present (u32_lt _) hm
      rw [(walk_index _).1] at htable ⊢
      rw [hsame]
      exact htable

/-- Giving pages to the user keeps the low pages mapped. -/
theorem LowMapped.userMap : ∀ {n b : ℕ} {m : ℕ → ℕ}, LowMapped m →
    LowMapped (VibeKernel.userMap virt phys m b n) := by
  intro n
  induction n with
  | zero => exact fun h => h
  | succ n ih =>
    intro b m h
    rw [VibeKernel.userMap]
    split
    · exact ih (h.update _ _)
    · exact h

/-- **Mapping pages** takes the tables that are missing. -/
theorem mapUserPages_room : ∀ (n b : ℕ) (s : Kernel H D) (W m : ℕ → ℕ), ArenaInv M s →
    HasSpace s proc dir W m → LowMapped m → b % 4096 = 0 →
    (b ≠ 0 → virt % 4096 = 0 → m (u32 (virt + (b - 4096)) / 4096) ≠ 0) →
    RoomFor M (pageRequests virt b n ++ rs) s →
    wp Unforced (mapUserPages M proc virt phys b n) (fun _ t => RoomFor M rs t) s := by
  intro n
  induction n with
  | zero => exact fun b s W m _ _ _ _ _ hroom => hroom
  | succ n ih =>
    intro b s W m hA hS hlow hb hprev hroom
    rw [pageRequests, List.append_assoc] at hroom
    rw [mapUserPages, wp_bind]
    refine processDirectory_wp hS ?_
    rw [userFlags]
    -- the page is set in the map, unless it is not aligned and none is
    have hset : wp Unforced (pagingSet M dir (u32 (virt + b)) (u32 (phys + b) ||| 7)) (fun _ t =>
        RoomFor M (pageRequests virt (b + 4096) n ++ rs) t ∧ ArenaInv M t ∧
          ∃ W' m', HasSpace t proc dir W' m' ∧ LowMapped m' ∧
            (virt % 4096 = 0 → m' (u32 (virt + b) / 4096) ≠ 0)) s := by
      refine (setUserPage_room hS hlow hb hprev hroom).and_completed ?_
      have halign : u32 (virt + b) % 4096 = virt % 4096 := by
        rw [u32_eq]
        omega
      refine pagingSet_wp (fun _ _ => trivial) hA hS.refines (u32_lt _) (fun hodd => ?_)
        fun _ t W' hA' hR hst _ => ?_
      · exact ⟨hA, W, m, hS, hlow, fun h => absurd (halign.trans h) hodd⟩
      · refine ⟨hA', W', _, hS.paging hA hst hR, hlow.update _ _, fun _ => ?_⟩
        rw [Function.update_self]
        exact Nat.ne_of_gt (lt_of_lt_of_le (by norm_num) Nat.right_le_or)
    refine wp_seq hset fun _ t ht => ?_
    obtain ⟨ht, hA', W', m', hS', hlow', hthis⟩ := ht
    refine ih (b + 4096) t W' m' hA' hS' hlow' (by omega) (fun _ halign => ?_) ht
    rw [Nat.add_sub_cancel]
    exact hthis halign

end Pages

/-! ### Segments -/

section Segments

variable {M : Machine H D} {rs : List Request} {fd : ℤ} {proc : ℕ} {phdr : ElfPhdr}

theorem elfSegmentBlock_spends {memsz : ℕ} :
    Spends M.room Unforced (elfSegmentBlock M memsz) [⟨memsz, true⟩] := by
  unfold elfSegmentBlock
  refine kmallocInt_spends.bind_last fun p => Spends.ite (fun _ => Spends.pure _ _) fun _ => ?_
  refine Spends.ite (fun _ => Spends.stop unforced_overrun _) fun _ => ?_
  exact (writeObj_spends unforced_clobbered).bind_free fun _ => Spends.pure _ _

/-- The block of a segment lies in the identity-mapped memory. -/
theorem elfSegmentBlock_answers {memsz : ℕ} :
    Exec.Answers (elfSegmentBlock M memsz) fun p => p < 4294967296 := by
  intro s p t hrun
  have hwp : wp (fun _ => True) (elfSegmentBlock M memsz) (fun p _ => p < 4294967296) s := by
    unfold elfSegmentBlock
    rw [wp_bind]
    have hbound : ∀ p u, p < 4294967296 → wp (fun _ => True)
        (if memsz = 0 then pure p
          else if p = 0 then Exec.stop .overrun
          else do
            clearBlock p memsz
            pure p : KM H D ℕ) (fun p _ => p < 4294967296) u := by
      intro p u hp
      split
      · exact hp
      · split
        · trivial
        · exact wp_seq (wp_true _ _) fun _ _ _ => hp
    refine kmallocInt_wp (fun _ _ => trivial) (fun h => hbound _ _ (by norm_num))
      fun p h _ _ htop => hbound p _ ?_
    unfold identityTop at htop
    omega
  exact hwp.ok hrun

/-- Reading a segment takes its block. -/
theorem elfReadSegment_spends :
    Spends M.room Unforced (elfReadSegment M fd phdr) [⟨phdr.memsz, true⟩] := by
  unfold elfReadSegment
  change Spends M.room Unforced _ ([⟨phdr.memsz, true⟩] ++ [])
  refine elfSegmentBlock_spends.bind_answer elfSegmentBlock_answers fun p hp => ?_
  refine (ftell_spends unforced_clobbered).bind_free fun pos => ?_
  refine (fseek_spends unforced_clobbered).bind_free fun _ => ?_
  refine (fread_spends unforced_clobbered unforced_divideError).bind_free fun r => ?_
  obtain ⟨n, bytes⟩ := r
  refine (writeBytes_spends unforced_clobbered unforced_overrun bytes).bind_free fun _ => ?_
  refine Spends.ite (fun _ => ?_) fun _ => ?_
  · exact (kfree_spends hp).bind_free fun _ => Spends.pure _ _
  · exact (fseek_spends unforced_clobbered).bind_free fun _ => Spends.pure _ _

end Segments

/-! ### The loop over the headers of a stored file -/

namespace StoredFile

section Loop

variable {M : Machine H D} {x : StoredFile M} {rs : List Request} {slot proc dir pos : ℕ} {fd : ℤ}
  {s : Kernel H D}

/-- The state behind a header that the loop has gone through. -/
def Behind (x : StoredFile M) (slot proc dir pos : ℕ) (s : Kernel H D) : Prop :=
  x.OpenAt slot s pos ∧ ∃ W m, HasSpace s proc dir W m ∧ LowMapped m

/-- **A segment** takes its block and the tables of its pages. -/
theorem elfLoadSegment_room (hfd : fdSlot fd = some slot)
    (hat : x.Behind slot proc dir (pos + elfPhdrSize) s)
    (hroom : RoomFor M (⟨(x.phdrAt pos).memsz, true⟩ ::
      pageRequests (x.phdrAt pos).vaddr 0 (x.phdrAt pos).pages ++ rs) s) :
    wp Unforced (elfLoadSegment M fd proc (x.phdrAt pos)) (fun r t => RoomFor M rs t ∧
      (r.1 = 0 → x.Behind slot proc dir (pos + elfPhdrSize) t)) s := by
  obtain ⟨hopen, W, m, hS, hlow⟩ := hat
  have hA := hopen.sound.arena
  have hfilesz : (x.phdrAt pos).filesz < 4294967296 := (ElfPhdr.decode_bounds _).2.2.1
  have hneg : (-1 : ℤ) ≠ 0 := by decide
  rw [elfLoadSegment_eq]
  -- the bytes are read, and the position behind the header is found again
  have hread : wp Unforced (elfReadSegment M fd (x.phdrAt pos)) (fun r t =>
      RoomFor M (pageRequests (x.phdrAt pos).vaddr 0 (x.phdrAt pos).pages ++ rs) t ∧
        (r.1 = 0 → x.OpenAt slot t (pos + elfPhdrSize) ∧ Extends M FsKind s t)) s := by
    refine (elfReadSegment_spends _ s hroom).and_completed ?_
    refine elfReadSegment_wp (R := x.reader hfd fun _ => True) (fun _ _ => trivial)
      (fun _ _ _ _ _ => trivial) hopen hfilesz (fun _ _ _ _ _ => trivial)
      (fun _ _ _ _ _ _ _ _ _ _ h => absurd h hneg) ?_
    intro r v c d p t hseg _ _ hd hopen' hext _ _ _
    obtain rfl := seeks_back (reads_segment hseg).2.2 hopen.inside hd
    exact ⟨hopen', hext⟩
  refine wp_seq hread fun r t ht => ?_
  obtain ⟨ht, hok⟩ := ht
  by_cases hres : r.1 ≠ 0
  · rw [if_pos hres]
    exact ⟨RoomFor.skips ht, fun h => absurd h hres⟩
  rw [if_neg hres]
  obtain ⟨hopen', hext⟩ := hok (not_not.mp hres)
  have hS' := hS.frame hA hext.frame (by simp) (by simp)
  have hpages : wp Unforced (mapUserPages M proc (x.phdrAt pos).vaddr r.2 0 (x.phdrAt pos).pages)
      (fun _ u => RoomFor M rs u ∧ x.Behind slot proc dir (pos + elfPhdrSize) u) t := by
    refine (mapUserPages_room _ 0 t W m hext.arena hS' hlow rfl (fun h => absurd rfl h)
      ht).and_completed
      ?_
    refine mapUserPages_wp (fun _ _ => trivial) _ 0 t W m _ rfl hext.arena hS'
      fun u W' hAu hSu hst _ => ?_
    exact ⟨hopen'.keepsFs (hst.frame.keepsFs hext.arena (by simp)) hAu, W', _, hSu, hlow.userMap⟩
  exact wp_seq hpages fun _ u hu => ⟨hu.1, fun _ => hu.2⟩

/-- **The loop** takes what the headers ask for. -/
theorem elfSegments_room (hfd : fdSlot fd = some slot) : ∀ (n pos : ℕ) (s : Kernel H D),
    x.Behind slot proc dir pos s → RoomFor M (x.headerRequests pos n ++ rs) s →
    wp Unforced (elfSegments M fd proc n) (fun _ t => RoomFor M rs t) s := by
  intro n
  induction n with
  | zero => exact fun pos s _ hroom => hroom
  | succ n ih =>
    intro pos s hat hroom
    rw [headerRequests, List.append_assoc] at hroom
    obtain ⟨hopen, W, m, hS, hlow⟩ := hat
    have hA := hopen.sound.arena
    rw [elfSegments]
    -- reading a header asks for nothing
    have hphdr : wp Unforced (fread M elfPhdrSize 1 fd) (fun r t =>
        RoomFor M ((x.phdrAt pos).requests ++ (x.headerRequests (pos + elfPhdrSize) n ++ rs)) t ∧
          (r.1 = 1 → ElfPhdr.decode r.2 = x.phdrAt pos ∧
            x.Behind slot proc dir (pos + elfPhdrSize) t)) s := by
      refine (fread_spends unforced_clobbered unforced_divideError _ s hroom).and_completed ?_
      refine (x.reader hfd fun _ => True).fread_wp hopen (by decide)
        fun r b t hr hmoves _ hat' hone => ?_
      obtain ⟨hheader, rfl⟩ := (reads_phdr hr).2 ((reads_phdr hr).1.mp hone)
      exact ⟨hheader, hat' hone, W, m, hS.frame hA hmoves.frame (by simp) (by simp), hlow⟩
    refine wp_seq hphdr fun r t ht => ?_
    obtain ⟨count, bytes⟩ := r
    obtain ⟨ht, hok⟩ := ht
    dsimp only at hok ⊢
    by_cases hcount : count ≠ 1
    · rw [if_pos hcount]
      exact RoomFor.skips (RoomFor.skips ht)
    rw [if_neg hcount]
    obtain ⟨hheader, hbehind⟩ := hok (not_not.mp hcount)
    rw [hheader]
    -- the header asks for its segment and its tables
    have hsegment : wp Unforced (elfSegment M fd proc (x.phdrAt pos)) (fun r u =>
        RoomFor M (x.headerRequests (pos + elfPhdrSize) n ++ rs) u ∧
          (r.1 = 0 → x.Behind slot proc dir (pos + elfPhdrSize) u)) t := by
      unfold elfSegment
      unfold ElfPhdr.requests at ht
      by_cases htype : (x.phdrAt pos).type = ptLoad
      · rw [if_pos htype] at ht ⊢
        exact elfLoadSegment_room hfd hbehind ht
      · rw [if_neg htype] at ht ⊢
        exact ⟨ht, fun _ => hbehind⟩
    refine wp_seq hsegment fun out u hu => ?_
    obtain ⟨res, phys⟩ := out
    obtain ⟨hu, hok'⟩ := hu
    dsimp only at hok' ⊢
    by_cases hres : res ≠ 0
    · rw [if_pos hres]
      exact RoomFor.skips hu
    rw [if_neg hres]
    exact wp_seq (ih _ u (hok' (not_not.mp hres)) hu) fun _ v hv => hv

end Loop

/-! ### The function -/

section Load

variable {M : Machine H D} {x : StoredFile M} {rs : List Request} {filename : CString}
  {s : Kernel H D}

theorem elfHeader_spends {fd : ℤ} {t : Kernel H D} (ht : RoomFor M rs t) :
    wp Unforced (elfHeader M fd) (fun r u => r.isSome → RoomFor M rs u) t := by
  unfold elfHeader
  refine wp_seq (fread_spends unforced_clobbered unforced_divideError rs t ht) fun r u hu => ?_
  obtain ⟨count, bytes⟩ := r
  dsimp only
  split
  · exact fun _ => hu
  · exact wp_seq (fclose_unforced u) fun _ _ _ => nofun

/-- Opening the file takes what `fopen` takes. -/
theorem Found.elfOpen_room (h : x.Found filename s)
    (hroom : RoomFor M (fopenRequests filename ++ rs) s) :
    wp Unforced (elfOpen M filename) (fun r t => r.isSome → RoomFor M rs t) s := by
  change wp Unforced (fopen M filename [0x72] >>= fun fd =>
    if fd < 0 then pure none else elfHeader M fd) _ s
  refine wp_seq (fopen_room h.sound.arena h.sound.inv (fun i b hboot hi => ?_) ⟨_, h.lookup⟩ hroom)
    fun fd t ht => ?_
  · -- the boot sector of the drive is that of the volume
    subst hi
    rw [bootSector_boot x.volume x.boot s.drives] at hboot
    cases hboot
    rfl
  · split
    · exact nofun
    · exact elfHeader_spends ht

/-- Up to its loop `elf_load` takes the blocks of `fopen` and those of the process. -/
theorem Found.elfLoadFront_room (h : x.Found filename s)
    (hroom : RoomFor M (fopenRequests filename ++ (processRequests ++ rs)) s) :
    wp Unforced (elfLoadFront M filename) (fun r t => r.isRight → RoomFor M rs t) s := by
  unfold elfLoadFront
  have hopen : wp Unforced (elfOpen M filename) (fun r t =>
      (r.isSome → RoomFor M (processRequests ++ rs) t) ∧ (r.isSome → ArenaInv M t)) s := by
    refine (h.elfOpen_room hroom).and_completed ?_
    exact h.elfOpen_wp (fun _ _ => trivial) (fun _ _ => nofun) fun _ _ _ _ _ hext _ => hext.arena
  refine wp_seq hopen fun file t ht => ?_
  cases file with
  | none => exact nofun
  | some file =>
    obtain ⟨fd, header⟩ := file
    unfold elfStart
    refine wp_seq (elfNewProcess_room (ht.2 rfl) (ht.1 rfl)) fun made u hu => ?_
    obtain ⟨res, proc⟩ := made
    dsimp only
    split
    · exact wp_seq (fclose_unforced u) fun _ _ _ => nofun
    · exact wp_seq (fseek_spends unforced_clobbered rs u hu) fun _ v hv _ => hv

/-- **What `elf_load` costs.** -/
theorem Found.elfLoad_room (h : x.Found filename s) (hroom : RoomFor M (x.elfRequests filename) s) :
    wp Unforced (elfLoad M filename) (fun _ _ => True) s := by
  unfold elfRequests at hroom
  rw [readHeaders_fst, ← headerRequests_eq] at hroom
  rw [elfLoad_eq]
  have hfront : wp Unforced (elfLoadFront M filename) (fun r t =>
      (r.isRight → RoomFor M (x.headerRequests x.tablePos x.ehdr.phnum) t) ∧
        ∀ fd header proc, r = .inr (fd, header, proc) → header = x.ehdr ∧
          ∃ slot dir, fdSlot fd = some slot ∧ x.Behind slot proc dir x.tablePos t) s := by
    refine (h.elfLoadFront_room hroom).and_completed ?_
    refine h.elfLoadFront_wp (fun _ _ => trivial) (.inr trivial) (fun _ => trivial)
      (fun _ _ => nofun) (fun _ _ _ => nofun) ?_
    rintro slot proc t - hfd hat - ⟨dir, W, hS⟩ - - fd header proc' heq
    cases heq
    exact ⟨rfl, slot, dir, hfd, hat, W, processMap, hS, processMap_low⟩
  refine wp_seq hfront fun r t ht => ?_
  rcases r with res | ⟨fd, header, proc⟩
  · trivial
  obtain ⟨hroom', hstart⟩ := ht
  obtain ⟨rfl, slot, dir, hfd, hbehind⟩ := hstart fd header proc rfl
  have hrest := hroom' rfl
  rw [← List.append_nil (x.headerRequests _ _)] at hrest
  unfold elfLoadBack
  refine wp_seq (elfSegments_room hfd _ _ t hbehind hrest) fun out u _ => ?_
  obtain ⟨res, segments⟩ := out
  dsimp only
  split
  · exact wp_seq (fclose_unforced u) fun _ _ _ => trivial
  · refine wp_seq (modifyProcess_spends (M := M) unforced_clobbered [] u trivial) fun _ v _ => ?_
    exact wp_seq (fclose_unforced v) fun _ _ _ => trivial

end Load

end StoredFile

/-! ### Loads that stay in their blocks -/

/-- The allocator answers `NULL` to empty requests only. -/
def NeverNull (M : Machine H D) : Prop :=
  ∀ n align h h', n ≠ 0 → M.heap.kmallocInt n align h ≠ some (0, h')

/-- The allocator of the kernel has this property. -/
theorem lowKheap_neverNull {M : Machine LowHeap D} (hheap : M.heap = lowKheap) : NeverNull M := by
  intro n align h h' hn hans
  rw [hheap] at hans
  exact hn (lowKheap_null hans)

/-- The path leads to the file, and what `elf_load` stores for it stays in the blocks that it has
asked for: the name of the process, and the bytes of each segment up to the first header that does
not load. The allocator has room for these blocks, none of them lies over a block that is in use,
and the list of processes ends in a process. -/
structure LoadsInPlace {M : Machine H D} (x : StoredFile M) (filename : CString)
    (s : Kernel H D) : Prop where
  found : x.Found filename s
  name : NameKept M filename s
  segments : x.SegmentsFit
  list : ProcessListInv s
  never : NeverNull M
  room : RoomFor M (x.elfRequests filename) s

/-- **A load that stays in its blocks returns.** -/
theorem LoadsInPlace.returns {M : Machine H D} {x : StoredFile M} {filename : CString}
    {s : Kernel H D} (h : LoadsInPlace x filename s) :
      ∃ r t, elfLoad M filename s = .ok (r, t) := by
  have hstops : wp Stop.AllocFails (elfLoad M filename) (fun _ _ => True) s := by
    refine h.found.elfLoad_wp (fun _ he => he) (fun n k k' hn hans => ?_) (.inl h.list)
      (fun hnot => absurd h.name hnot) (fun _ _ => trivial) (fun _ _ _ => trivial)
      (fun hover => absurd hover h.segments.not_overruns) (fun _ _ _ _ _ _ => trivial)
      fun _ _ _ _ _ _ _ _ => trivial
    exact absurd hans (h.never n true k k' hn)
  obtain ⟨r, t, hrun, -⟩ := hstops.total_of_and (h.found.elfLoad_room h.room) fun _ he hne => hne he
  exact ⟨r, t, hrun⟩

/-! ### Small ELF files -/

/-- Segments fit if no header names more bytes of the file than of memory. -/
theorem StoredFile.SegmentsFit.of_sizes {M : Machine H D} {x : StoredFile M}
    (h : ∀ phdr ∈ x.readHeaders.map Prod.fst, phdr.filesz ≤ phdr.memsz) : x.SegmentsFit := by
  rintro i hi - ⟨-, -, hlong⟩
  refine absurd ((x.out_length_le _ _).trans (h _ ?_)) (Nat.not_le.mpr hlong)
  rw [StoredFile.readHeaders_fst]
  exact List.mem_map.mpr ⟨i, List.mem_range.mpr hi, rfl⟩

/-- Loading a small file from the first state of the kernel. -/
theorem elfFile_inPlace {file : List UInt8} {phdrs : List ElfPhdr}
    (h : 0 < file.length ∧ file.length ≤ 512)
    (hlookup : (fopenLookup (elfMachine file) elfPath [0x72] ()).toOption =
      some (.inr (0, singleFileItem file.length)))
    (hheaders : (elfFile file h).readHeaders.map Prod.fst = phdrs)
    (hsizes : ∀ phdr ∈ phdrs, phdr.filesz ≤ phdr.memsz)
    (hfits : 0x10000 + roomNeeded (fopenRequests elfPath ++
      (processRequests ++ phdrs.flatMap ElfPhdr.requests)) ≤ identityTop ∧
      PagesFit (fopenRequests elfPath ++ (processRequests ++ phdrs.flatMap ElfPhdr.requests)) 0) :
    LoadsInPlace (elfFile file h) elfPath elfBoot where
  found := elfFile_found h hlookup
  name := NameKept.of_short (by decide)
  segments := StoredFile.SegmentsFit.of_sizes (hheaders ▸ hsizes)
  list hhead := absurd rfl hhead
  never := lowKheap_neverNull rfl
  room := by
    have hend : (elfMachine file).imageEnd = 0x10000 := rfl
    unfold StoredFile.elfRequests
    rw [hheaders]
    refine RoomFor.boot lowKheapView rfl ⟨?_, ?_⟩ ?_ ()
    · rw [hend]
      norm_num
    · rw [hend]
      exact hfits.1
    · rw [hend]
      exact hfits.2

end VibeKernel
