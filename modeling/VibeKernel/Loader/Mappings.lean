import VibeKernel.Loader.Decoding
import VibeKernel.Loader.ProcessName
import VibeKernel.Task.UserCopy

/-!
# What a loaded process has mapped

`mapSegments` is the map of a loaded process, as a function of the headers that the loader has gone
through. A `PT_LOAD` header whose address is aligned gives its pages to the user, over whatever the
map held there, and one whose address is not aligned maps nothing (`mapSegments_user`,
`mapSegments_miss`).

Two properties follow, for every file on any disk: when a segment is found where its header says
(`elfLoad_maps_iff`), and when the pages of the kernel stay what they were (`elfLoad_kernel_iff`).
Both are about loads that stay in the blocks they have asked for, as those of `LoadsInPlace` do;
what a load leaves that writes over a table of its own directory is another matter.
-/

namespace VibeKernel

open Verif

variable {H D : Type} {M : Machine H D}

/-! ### Pages -/

/-- The page holds a byte of the segment. -/
def ElfPhdr.HasPage (phdr : ElfPhdr) (page : ℕ) : Prop :=
  ∃ o < phdr.memsz, u32 (phdr.vaddr + o) / 4096 = page

/-- The loader maps the page for the header. -/
def ElfPhdr.Maps (phdr : ElfPhdr) (page : ℕ) : Prop :=
  phdr.type = ptLoad ∧ phdr.vaddr % 4096 = 0 ∧ phdr.HasPage page

section Pages

variable {m : ℕ → ℕ} {page : ℕ} {x : ElfSegment} {phdr : ElfPhdr}

/-- The pages of an aligned segment, by number. -/
theorem ElfPhdr.hasPage_iff (halign : phdr.vaddr % 4096 = 0) :
    phdr.HasPage page ↔ ∃ j < phdr.pages, u32 (phdr.vaddr + 0 + 4096 * j) / 4096 = page := by
  unfold ElfPhdr.HasPage ElfPhdr.pages
  simp only [u32_eq]
  constructor
  · rintro ⟨o, ho, rfl⟩
    exact ⟨o / 4096, by omega, by omega⟩
  · rintro ⟨j, hj, rfl⟩
    exact ⟨4096 * j, by omega, by rw [Nat.add_zero]⟩

/-- A header that does not map the page leaves its entry alone. -/
theorem mapSegment_miss (h : ¬ x.phdr.Maps page) : mapSegment m x page = m page := by
  unfold mapSegment
  split
  · rename_i htype
    refine userMap_miss fun halign j hj heq => h ⟨htype, halign, ?_⟩
    exact (ElfPhdr.hasPage_iff halign).mpr ⟨j, hj, heq⟩
  · rfl

/-- A header that maps the page gives it the entry of a page of its block, whatever it had. -/
theorem mapSegment_hit (hmemsz : x.phdr.memsz < 4294967296) (h : x.phdr.Maps page) (m : ℕ → ℕ) :
    ∃ j < x.phdr.pages, u32 (x.phdr.vaddr + 0 + 4096 * j) / 4096 = page ∧
      mapSegment m x page = u32 (x.phys + 0 + 4096 * j) ||| 7 := by
  obtain ⟨htype, halign, hpage⟩ := h
  obtain ⟨j, hj, rfl⟩ := (ElfPhdr.hasPage_iff halign).mp hpage
  have hpages : x.phdr.pages ≤ 1048576 := by
    unfold ElfPhdr.pages
    omega
  refine ⟨j, hj, rfl, ?_⟩
  unfold mapSegment
  rw [if_pos htype, userMap_hit halign rfl hpages hj]

/-- A header that maps the page gives it to the user. -/
theorem mapSegment_user (hmemsz : x.phdr.memsz < 4294967296) (h : x.phdr.Maps page) {bit : ℕ}
    (hbit : bit < 3) : (mapSegment m x page).testBit bit = true := by
  obtain ⟨j, -, -, heq⟩ := mapSegment_hit hmemsz h m
  have hseven : Nat.testBit 7 bit = true := by interval_cases bit <;> rfl
  rw [heq, Nat.testBit_lor, hseven, Bool.or_true]

/-- Headers that do not map the page leave its entry alone. -/
theorem mapSegments_miss : ∀ {segments : List ElfSegment} {m : ℕ → ℕ},
    (∀ x ∈ segments, ¬ x.phdr.Maps page) → mapSegments m segments page = m page := by
  intro segments
  induction segments with
  | nil => exact fun _ => rfl
  | cons x segments ih =>
    intro m h
    change mapSegments (mapSegment m x) segments page = m page
    rw [ih fun y hy => h y (List.mem_cons_of_mem _ hy), mapSegment_miss (h x List.mem_cons_self)]

/-- A page that is the user's stays the user's, and one that a header maps becomes it. -/
theorem mapSegments_user {bit : ℕ} (hbit : bit < 3) : ∀ {segments : List ElfSegment} {m : ℕ → ℕ},
    (∀ x ∈ segments, x.phdr.memsz < 4294967296) →
    ((m page).testBit bit = true ∨ ∃ x ∈ segments, x.phdr.Maps page) →
      (mapSegments m segments page).testBit bit = true := by
  intro segments
  induction segments with
  | nil =>
    rintro m - (h | ⟨x, hx, -⟩)
    · exact h
    · cases hx
  | cons x segments ih =>
    intro m hsize h
    have hrest : ∀ y ∈ segments, y.phdr.memsz < 4294967296 := fun y hy =>
      hsize y (List.mem_cons_of_mem _ hy)
    change (mapSegments (mapSegment m x) segments page).testBit bit = true
    by_cases hx : x.phdr.Maps page
    · exact ih hrest (.inl (mapSegment_user (hsize x List.mem_cons_self) hx hbit))
    · refine ih hrest ?_
      rw [mapSegment_miss hx]
      refine h.imp_right fun hex => ?_
      obtain ⟨y, hy, hmaps⟩ := hex
      rcases List.mem_cons.mp hy with rfl | hy
      · exact absurd hmaps hx
      · exact ⟨y, hy, hmaps⟩

/-- A page that no other header maps has the entry that this one gives it. -/
theorem mapSegments_own {segments : List ElfSegment} {i : ℕ} (hx : segments[i]? = some x)
    (hown : ∀ j y, segments[j]? = some y → j ≠ i → ¬ y.phdr.Maps page) :
    ∃ m', m' page = m page ∧ mapSegments m segments page = mapSegment m' x page := by
  obtain ⟨hi, rfl⟩ := List.getElem?_eq_some_iff.mp hx
  -- the headers in front of it and behind it do not map the page
  have hbefore : ∀ y ∈ segments.take i, ¬ y.phdr.Maps page := by
    intro y hy
    obtain ⟨j, hj⟩ := List.mem_iff_getElem?.mp hy
    rw [List.getElem?_take] at hj
    split at hj
    · exact hown j y hj (by omega)
    · cases hj
  have hbehind : ∀ y ∈ segments.drop (i + 1), ¬ y.phdr.Maps page := by
    intro y hy
    obtain ⟨j, hj⟩ := List.mem_iff_getElem?.mp hy
    rw [List.getElem?_drop] at hj
    exact hown _ y hj (by omega)
  refine ⟨mapSegments m (segments.take i), mapSegments_miss hbefore, ?_⟩
  have hsplit : mapSegments m segments =
      mapSegments (mapSegment (mapSegments m (segments.take i)) segments[i])
        (segments.drop (i + 1)) := by
    conv_lhs => rw [← List.take_append_drop i segments, ← List.getElem_cons_drop hi]
    exact List.foldl_append
  rw [hsplit, mapSegments_miss hbehind]

end Pages

/-! ### Loaded processes -/

/-- What is known of a header that a loaded process has gone through. -/
structure LoadedHeader (t : Kernel H D) (x : ElfSegment) : Prop where
  vaddr : x.phdr.vaddr < 4294967296
  memsz : x.phdr.memsz < 4294967296
  memory : x.phdr.type = ptLoad → ∃ bytes, SegmentInMemory t x.phdr x.phys bytes

/-- The fields of the headers that the loop goes through are words. -/
theorem FileReader.Loop.words {E : Stop → Prop} {fd : ℤ} {σ : Type}
    {R : FileReader M fd E σ} {n : ℕ}
    {a : σ} {out : Option (ℤ × List ReadHeader)} (h : R.Loop n a out) :
    ∀ r, out = some r → ∀ x ∈ r.2, x.1.vaddr < 4294967296 ∧ x.1.memsz < 4294967296 := by
  have hcons : ∀ (b bytes : List UInt8) (out : Option (ℤ × List ReadHeader)),
      (∀ r, out = some r → ∀ x ∈ r.2, x.1.vaddr < 4294967296 ∧ x.1.memsz < 4294967296) →
      ∀ r, behindHeader (ElfPhdr.decode b, bytes) out = some r →
        ∀ x ∈ r.2, x.1.vaddr < 4294967296 ∧ x.1.memsz < 4294967296 := by
    intro b bytes out ih r hr
    obtain ⟨r', hr', rfl⟩ := Option.map_eq_some_iff.mp hr
    obtain ⟨-, hvaddr, -, hmemsz⟩ := ElfPhdr.decode_bounds b
    exact List.forall_mem_cons.mpr ⟨⟨hvaddr, hmemsz⟩, ih r' hr'⟩
  induction h with
  | finished => exact fun r hr x hx => by cases hr; cases hx
  | noHeader => exact fun r hr x hx => by cases hr; cases hx
  | skipped _ _ _ _ ih => exact hcons _ _ _ ih
  | overrun => exact fun r hr => by cases hr
  | noSegment => exact fun r hr x hx => by cases hr; cases hx
  | loaded _ _ _ _ _ _ _ _ ih => exact hcons _ _ _ ih

section Loaded

/-- The headers that were gone through are those that were read. -/
theorem loaded_headers {s t : Kernel H D} {segments : List ElfSegment} {out : List ReadHeader}
    (h : List.Forall₂ (Loaded s t) segments out) :
    segments.map ElfSegment.phdr = out.map Prod.fst := by
  induction h with
  | nil => rfl
  | cons hx _ ih => rw [List.map_cons, List.map_cons, hx.1, ih]

variable {s t : Kernel H D} {filename : CString} {proc dir : ℕ} {segments : List ElfSegment}

/-- **What a successful `elf_load` leaves**, whatever is on the disks. -/
theorem elfLoad_loaded (hS : FsSound M (fun _ _ => True) s)
    (hrun : elfLoad M filename s = .ok ((0, proc, segments), t)) :
    ArenaInv M t ∧ (∃ dir W, HasSpace t proc dir W (mapSegments processMap segments)) ∧
      ∀ x ∈ segments, LoadedHeader t x := by
  have hneg : (0 : ℤ) ≠ -1 := by decide
  have hspec : wp (fun _ => True) (elfLoad M filename) (fun r t => r.1 = 0 → ArenaInv M t ∧
      (∃ dir W, HasSpace t r.2.1 dir W (mapSegments processMap r.2.2)) ∧
        ∀ x ∈ r.2.2, LoadedHeader t x) s := by
    rw [elfLoad_eq, wp_bind]
    unfold elfLoadFront
    rw [wp_bind]
    change wp _ (fopen M filename [0x72] >>= fun fd => if fd < 0 then pure none
      else elfHeader M fd) _ s
    rw [wp_bind]
    refine (fopen_sound hS filename [0x72]).mono fun fd s₁ hS₁ => ?_
    by_cases hfd : fd < 0
    · rw [if_pos hfd]
      exact fun h => absurd h.symm hneg
    rw [if_neg hfd]
    -- nothing is known of the bytes that are read
    refine elfHeader_wp (R := anyReader M fd) hS₁ (a := ()) (fun _ _ _ _ _ h => absurd h.symm hneg)
      fun r b s₂ _ _ _ _ hS₂ => ?_
    refine elfStart_wp (R := anyReader M fd) (fun _ _ => trivial) hS₂ (.inr trivial)
      (fun _ => trivial)
      (fun _ _ h => absurd h.symm hneg) fun proc b s₃ _ hS₃ _ hspace _ _ _ => ?_
    refine elfLoadBack_wp (R := anyReader M fd) (fun _ _ => trivial) (fun _ _ _ _ _ => trivial) hS₃
      hspace (fun _ => trivial) (fun _ _ _ _ _ hres h => absurd h hres)
      fun segments out u hloop hloaded _ => ⟨hloaded.arena, hloaded.space, fun x hx => ?_⟩
    obtain ⟨i, hi, rfl⟩ := List.mem_iff_getElem.mp hx
    have hi' : i < out.length := hloaded.loaded.length_eq ▸ hi
    have hat := hloaded.loaded.get hi hi'
    obtain ⟨hvaddr, hmemsz⟩ := hloop.words _ rfl _ (List.getElem_mem hi')
    obtain ⟨hphdr, hmem⟩ := hat
    rw [List.get_eq_getElem, List.get_eq_getElem] at hphdr hmem
    refine ⟨by rw [hphdr]; exact hvaddr, by rw [hphdr]; exact hmemsz, fun htype => ?_⟩
    rw [hphdr] at htype ⊢
    exact ⟨_, (hmem htype).1⟩
  exact hspec.ok hrun rfl

theorem HasSpace.processDirectory_eq {W m : ℕ → ℕ} (hS : HasSpace t proc dir W m) {dir' : ℕ}
    (hdir : processDirectory proc t = .ok (dir', t)) : dir' = dir :=
  (processDirectory_wp (E := fun _ => True) (Q := fun d _ => d = dir) hS rfl).ok hdir

theorem HasSpace.processDirectory_run {W m : ℕ → ℕ} (hS : HasSpace t proc dir W m) :
    processDirectory proc t = .ok (dir, t) := by
  obtain ⟨x, hx, hchunk⟩ := hS.process
  unfold processDirectory
  have hproc : readObj Obj.asProcess proc t = .ok (x, t) := by
    unfold readObj
    rw [hx]
    rfl
  have hread : readObj Obj.asChunk (wordAt x processPagingChunkOffset) t = .ok (dir, t) := by
    unfold readObj
    rw [hchunk]
    rfl
  change (readObj Obj.asProcess proc t).bind _ = _
  rw [hproc]
  exact hread

/-- The directory of a loaded process. -/
theorem elfLoad_directory (hS : FsSound M (fun _ _ => True) s)
    (hrun : elfLoad M filename s = .ok ((0, proc, segments), t))
    (hdir : processDirectory proc t = .ok (dir, t)) :
    ∃ W, DirRefines t dir W (mapSegments processMap segments) := by
  obtain ⟨-, ⟨dir', W, hspace⟩, -⟩ := elfLoad_loaded hS hrun
  rw [hspace.processDirectory_eq hdir]
  exact ⟨W, hspace.refines⟩

/-! ### The pages of the user -/

/-- The map of a new process outside of the VGA page. -/
theorem processMap_of_ne {page : ℕ} (h : page ≠ 0xB8) :
    processMap page = identityMap (pagingIsPresent ||| pagingIsWriteable) page :=
  Function.update_of_ne h _ _

theorem processMap_vga {bit : ℕ} (hbit : bit < 3) : (processMap 0xB8).testBit bit = true := by
  unfold processMap
  rw [Function.update_self]
  interval_cases bit <;> rfl

/-- The identity map gives nothing to the user. -/
theorem identityMap_user (page : ℕ) :
    (identityMap (pagingIsPresent ||| pagingIsWriteable) page).testBit 2 = false := by
  unfold identityMap
  split
  · rw [testBit_or_flags (Nat.mul_mod_left page 4096) (by norm_num)]
    rfl
  · exact Nat.zero_testBit 2

/-- **The pages of the user** are the VGA page and those that a `PT_LOAD` header maps. -/
theorem elfLoad_user_iff (hS : FsSound M (fun _ _ => True) s)
    (hrun : elfLoad M filename s = .ok ((0, proc, segments), t))
    (hdir : processDirectory proc t = .ok (dir, t)) {virt : ℕ} (hvirt : virt < 4294967296) :
    t.grants dir virt 2 = true ↔
      virt / 4096 = 0xB8 ∨ ∃ x ∈ segments, x.phdr.Maps (virt / 4096) := by
  obtain ⟨W, hR⟩ := elfLoad_directory hS hrun hdir
  obtain ⟨-, -, hloaded⟩ := elfLoad_loaded hS hrun
  rw [hR.grants_eq hvirt (by norm_num)]
  constructor
  · intro huser
    by_contra hno
    rw [not_or] at hno
    obtain ⟨hvga, hmaps⟩ := hno
    have hmiss : ∀ x ∈ segments, ¬ x.phdr.Maps (virt / 4096) := fun x hx h => hmaps ⟨x, hx, h⟩
    rw [mapSegments_miss hmiss, processMap_of_ne hvga, identityMap_user] at huser
    cases huser
  · intro h
    refine mapSegments_user (by norm_num) (fun x hx => (hloaded x hx).memsz)
      (h.imp_left fun hvga => ?_)
    rw [hvga]
    exact processMap_vga (by norm_num)

end Loaded

/-! ### Where the segments are found -/

/-- Every byte of the segment is found at its address, and the user may go there: the byte of the
block that was allocated for the segment. -/
def MappedToBlock (t : Kernel H D) (dir : ℕ) (x : ElfSegment) : Prop :=
  ∀ o < x.phdr.memsz, ⟨x.phys, x.phdr.memsz⟩ ∈ t.live ∧
    t.physical dir (u32 (x.phdr.vaddr + o)) = some (x.phys + o) ∧
    t.grants dir (u32 (x.phdr.vaddr + o)) 2 = true

/-- The pages of a header are neither those of another `PT_LOAD` header nor the VGA page. -/
def PagesApart (segments : List ElfSegment) (i : ℕ) (x : ElfSegment) : Prop :=
  ∀ page, x.phdr.HasPage page → page ≠ 0xB8 ∧
    ∀ j y, segments[j]? = some y → j ≠ i → y.phdr.type = ptLoad → ¬ y.phdr.HasPage page

section Maps

variable {s t : Kernel H D} {filename : CString} {proc dir i : ℕ} {segments : List ElfSegment}
  {x : ElfSegment}

/-- A header whose address is not aligned gives its first byte to nobody. -/
theorem not_mappedToBlock (hS : FsSound M (fun _ _ => True) s)
    (hrun : elfLoad M filename s = .ok ((0, proc, segments), t))
    (hdir : processDirectory proc t = .ok (dir, t)) (hx : segments[i]? = some x)
    (hapart : PagesApart segments i x) (hmemsz : x.phdr.memsz ≠ 0)
    (hodd : x.phdr.vaddr % 4096 ≠ 0) : ¬ MappedToBlock t dir x := by
  intro hmapped
  obtain ⟨-, -, huser⟩ := hmapped 0 (Nat.pos_of_ne_zero hmemsz)
  obtain ⟨hvga, hothers⟩ := hapart _ ⟨0, Nat.pos_of_ne_zero hmemsz, rfl⟩
  rcases (elfLoad_user_iff hS hrun hdir (u32_lt _)).mp huser with h | ⟨y, hy, htype, halign, hpage⟩
  · exact hvga h
  · obtain ⟨j, hj⟩ := List.mem_iff_getElem?.mp hy
    by_cases hji : j = i
    · rw [hji, hx] at hj
      cases hj
      exact hodd halign
    · exact hothers j y hj hji htype hpage

/-- A segment whose pages are its own is found where its header says exactly if it is empty or its
address is that of a page. -/
theorem mappedToBlock_iff (hS : FsSound M (fun _ _ => True) s)
    (hrun : elfLoad M filename s = .ok ((0, proc, segments), t))
    (hdir : processDirectory proc t = .ok (dir, t)) (hx : segments[i]? = some x)
    (htype : x.phdr.type = ptLoad) (hapart : PagesApart segments i x) :
    MappedToBlock t dir x ↔ x.phdr.memsz = 0 ∨ x.phdr.vaddr % 4096 = 0 := by
  constructor
  · intro hmapped
    by_contra hno
    rw [not_or] at hno
    exact not_mappedToBlock hS hrun hdir hx hapart hno.1 hno.2 hmapped
  · intro hcond o ho
    have halign : x.phdr.vaddr % 4096 = 0 :=
      hcond.resolve_left (Nat.ne_of_gt (Nat.zero_lt_of_lt ho))
    obtain ⟨W, hR⟩ := elfLoad_directory hS hrun hdir
    obtain ⟨hA, -, hloaded⟩ := elfLoad_loaded hS hrun
    obtain ⟨hvaddr, hmemsz, hmemory⟩ := hloaded x (List.mem_of_getElem? hx)
    obtain ⟨bytes, hmem⟩ := hmemory htype
    obtain ⟨hphys, hlive, -⟩ := hmem.block (Nat.ne_of_gt (Nat.zero_lt_of_lt ho))
    have hhigh : x.phys + x.phdr.memsz ≤ identityTop := hA.high _ hlive
    unfold identityTop at hhigh
    set virt := u32 (x.phdr.vaddr + o) with hvirt
    have hlt : virt < 4294967296 := u32_lt _
    have hpage : x.phdr.HasPage (virt / 4096) := ⟨o, ho, rfl⟩
    have hmaps : x.phdr.Maps (virt / 4096) := ⟨htype, halign, hpage⟩
    -- the entry of the page is that of page `o / 4096` of the block
    obtain ⟨m', -, hentry⟩ := @mapSegments_own processMap (virt / 4096) x segments i hx
      fun j y hj hji hy => (hapart _ hpage).2 j y hj hji hy.1 hy.2.2
    obtain ⟨j, hj, hjpage, hhit⟩ := mapSegment_hit hmemsz hmaps m'
    rw [hhit] at hentry
    have hjo : j = o / 4096 := by
      unfold ElfPhdr.pages at hj
      rw [hvirt] at hjpage
      simp only [u32_eq] at hjpage
      omega
    have hframe : u32 (x.phys + 0 + 4096 * j) = x.phys + 4096 * j := by
      rw [u32_of_lt (by omega), Nat.add_zero]
    rw [hframe] at hentry
    have hseven : ∀ bit < 3, (x.phys + 4096 * j ||| 7).testBit bit = true := by
      intro bit hbit
      have h7 : Nat.testBit 7 bit = true := by interval_cases bit <;> rfl
      rw [Nat.testBit_lor, h7, Bool.or_true]
    have hoffset : virt % 4096 = o % 4096 := by
      rw [hvirt]
      simp only [u32_eq]
      omega
    refine ⟨hlive, ?_, ?_⟩
    · unfold Kernel.physical
      rw [hR.grants_eq hlt (by norm_num), hR.walk_eq hlt, hentry, if_pos (hseven 0 (by norm_num)),
        pageBase_or_flags (by omega) (by omega) (by norm_num), hoffset, hjo]
      congr 1
      omega
    · rw [hR.grants_eq hlt (by norm_num), hentry]
      exact hseven 2 (by norm_num)

/-- **Mapping soundness.** A load that stays in its blocks returns. In every load that returns `0`,
a segment whose pages are its own is found where its header says exactly if it is empty or its
address is that of a page. -/
theorem elfLoad_maps_iff (hS : FsSound M (fun _ _ => True) s) :
    (∀ x : StoredFile M, LoadsInPlace x filename s → ∃ r t, elfLoad M filename s = .ok (r, t)) ∧
      ∀ proc segments t, elfLoad M filename s = .ok ((0, proc, segments), t) →
        ∃ dir, processDirectory proc t = .ok (dir, t) ∧ ∀ i seg, segments[i]? = some seg →
          seg.phdr.type = ptLoad → PagesApart segments i seg →
          (MappedToBlock t dir seg ↔ seg.phdr.memsz = 0 ∨ seg.phdr.vaddr % 4096 = 0) := by
  refine ⟨fun x h => h.returns, fun proc segments t hrun => ?_⟩
  obtain ⟨-, ⟨dir, W, hspace⟩, -⟩ := elfLoad_loaded hS hrun
  have hdir := hspace.processDirectory_run
  exact ⟨dir, hdir, fun i seg hx htype hapart => mappedToBlock_iff hS hrun hdir hx htype hapart⟩

end Maps

/-! ### The pages of the kernel -/

/-- The page holds a byte of the kernel image or of a live block, or of the header of one. -/
def KernelPage (M : Machine H D) (s : Kernel H D) (page : ℕ) : Prop :=
  ∃ b, b / 4096 = page ∧ (0x1000 ≤ b ∧ b < M.imageEnd ∨
    ∃ a ∈ s.live, a.span.start ≤ b ∧ b < a.span.stop)

/-- The pages that were the kernel's in the first state are mapped in the second one as a new
directory maps them: to themselves, and not for the user. -/
def KernelKept (M : Machine H D) (s t : Kernel H D) (dir : ℕ) : Prop :=
  ∀ virt, KernelPage M s (virt / 4096) →
    t.walk dir virt = virt / 4096 * 4096 ||| pagingIsPresent ||| pagingIsWriteable ∧
    t.physical dir virt = some virt ∧ t.grants dir virt 2 = false

section KernelPages

variable {s t : Kernel H D} {filename : CString} {proc dir : ℕ} {segments : List ElfSegment}

/-- The pages of the kernel lie in the identity-mapped memory, once there is a process. -/
theorem KernelPage.lt {W m : ℕ → ℕ} (hAs : ArenaInv M s) (hAt : ArenaInv M t)
    (hS : HasSpace t proc dir W m) {page : ℕ} (h : KernelPage M s page) : page < 16384 := by
  have htop : M.imageEnd ≤ identityTop := by
    obtain ⟨x, hx, -⟩ := hS.process
    obtain ⟨a, ha, -, -⟩ := hAt.stored proc _ hx
    have hlow := hAt.low a ha
    have hhigh := hAt.high a ha
    omega
  obtain ⟨b, rfl, hb⟩ := h
  have hlt : b < identityTop := by
    rcases hb with ⟨-, hb⟩ | ⟨a, ha, -, hb⟩
    · exact hb.trans_le htop
    · have hlow := hAs.low a ha
      have hhigh := hAs.high a ha
      simp only [Span.stop, Allocation.span] at hb
      omega
  unfold identityTop at hlt
  omega

/-- The pages of the kernel stay what they were exactly if none of them is the VGA page or one that
a `PT_LOAD` header maps. -/
theorem kernelKept_iff (hS : FsSound M (fun _ _ => True) s)
    (hrun : elfLoad M filename s = .ok ((0, proc, segments), t))
    (hdir : processDirectory proc t = .ok (dir, t)) :
    KernelKept M s t dir ↔
      ∀ page, KernelPage M s page → page ≠ 0xB8 ∧ ∀ x ∈ segments, ¬ x.phdr.Maps page := by
  obtain ⟨W, hR⟩ := elfLoad_directory hS hrun hdir
  obtain ⟨hA, ⟨dir', W', hspace⟩, -⟩ := elfLoad_loaded hS hrun
  refine ⟨fun hkept page hpage => ?_, fun hcond virt hpage => ?_⟩
  · have hlt := hpage.lt hS.arena hA hspace
    have hdiv : 4096 * page / 4096 = page := Nat.mul_div_cancel_left page (by norm_num)
    obtain ⟨-, -, huser⟩ := hkept (4096 * page) (by rw [hdiv]; exact hpage)
    have hno := mt (elfLoad_user_iff hS hrun hdir (by omega : 4096 * page < 4294967296)).mpr
      (by rw [huser]; decide)
    rw [hdiv, not_or] at hno
    exact ⟨hno.1, fun x hx hmaps => hno.2 ⟨x, hx, hmaps⟩⟩
  · have hlt := hpage.lt hS.arena hA hspace
    obtain ⟨hvga, hmiss⟩ := hcond _ hpage
    have hvirt : virt < 4294967296 := by omega
    have hentry : t.walk dir virt = virt / 4096 * 4096 |||
        (pagingIsPresent ||| pagingIsWriteable) := by
      rw [hR.walk_eq hvirt, mapSegments_miss hmiss, processMap_of_ne hvga]
      unfold identityMap
      rw [if_pos hlt]
    have haligned : virt / 4096 * 4096 % 4096 = 0 := Nat.mul_mod_left _ _
    have hgrants : ∀ bit < 3, t.grants dir virt bit =
        (pagingIsPresent ||| pagingIsWriteable).testBit bit := by
      intro bit hbit
      rw [hR.grants_eq hvirt hbit, ← hR.walk_eq hvirt, hentry,
        testBit_or_flags haligned (by omega)]
    refine ⟨by rw [hentry, Nat.lor_assoc], ?_, hgrants 2 (by norm_num)⟩
    unfold Kernel.physical
    rw [hgrants 0 (by norm_num), if_pos (by decide), hentry,
      pageBase_or_flags haligned (by omega) (by decide)]
    congr 1
    omega

/-- **The pages of the kernel.** A load that stays in its blocks returns. In every load that returns
`0` they stay what they were exactly if none of them is the VGA page or one that a `PT_LOAD` header
maps. The headers are those of the file. -/
theorem elfLoad_kernel_iff (hS : FsSound M (fun _ _ => True) s) :
    (∀ x : StoredFile M, LoadsInPlace x filename s → ∃ r t, elfLoad M filename s = .ok (r, t)) ∧
      ∀ proc segments t, elfLoad M filename s = .ok ((0, proc, segments), t) →
        (∃ dir, processDirectory proc t = .ok (dir, t) ∧ (KernelKept M s t dir ↔
          ∀ page, KernelPage M s page → page ≠ 0xB8 ∧ ∀ x ∈ segments, ¬ x.phdr.Maps page)) ∧
        ∀ x : StoredFile M, x.Found filename s →
          segments.map ElfSegment.phdr = x.readHeaders.map Prod.fst := by
  refine ⟨fun x h => h.returns, fun proc segments t hrun => ⟨?_, fun x hx => ?_⟩⟩
  · obtain ⟨-, ⟨dir, W, hspace⟩, -⟩ := elfLoad_loaded hS hrun
    have hdir := hspace.processDirectory_run
    exact ⟨dir, hdir, kernelKept_iff hS hrun hdir⟩
  · obtain ⟨-, u, hall⟩ := hx.loaded hrun
    exact loaded_headers hall

end KernelPages

/-! ### Three files -/

/-- A file whose segment is at an address that is not that of a page. -/
def unalignedFile : List UInt8 :=
  ehdrBytes 52 1 ++ phdrBytes ⟨ptLoad, 84, 0x400010, 4, 8⟩ ++ [1, 2, 3, 4]

/-- A file whose segment is at an address of the kernel image. -/
def intrudingFile : List UInt8 :=
  ehdrBytes 52 1 ++ phdrBytes ⟨ptLoad, 84, 0x2000, 4, 8⟩ ++ [1, 2, 3, 4]

/-- A successful run on a file with one header. -/
theorem elfResult_directory {file : List UInt8} {phdr : ElfPhdr}
    (h : 0 < file.length ∧ file.length ≤ 512)
    (hlookup : (fopenLookup (elfMachine file) elfPath [0x72] ()).toOption =
      some (.inr (0, singleFileItem file.length)))
    (hheaders : (elfFile file h).readHeaders.map Prod.fst = [phdr])
    (hres : elfResult file = some 0) :
    ∃ proc phys t dir,
      elfLoad (elfMachine file) elfPath elfBoot = .ok ((0, proc, [⟨phdr, phys⟩]), t) ∧
      processDirectory proc t = .ok (dir, t) := by
  obtain ⟨proc, segments, t, hrun⟩ := elfResult_run hres
  obtain ⟨-, ⟨dir, W, hspace⟩, -⟩ := elfLoad_loaded (FsSound.boot _ _ _) hrun
  obtain ⟨-, u, hall⟩ := (elfFile_found h hlookup).loaded hrun
  have hmap := (loaded_headers hall).trans hheaders
  obtain ⟨x, rfl, hx⟩ := List.map_eq_singleton_iff.mp hmap
  cases x
  cases hx
  exact ⟨proc, _, t, dir, hrun, hspace.processDirectory_run⟩

/-- A header alone has its pages for itself. -/
theorem pagesApart_alone {x : ElfSegment} (h : ∀ page, x.phdr.HasPage page → page ≠ 0xB8) :
    PagesApart [x] 0 x := by
  refine fun page hpage => ⟨h page hpage, fun j y hj hne => ?_⟩
  have hlt := (List.getElem?_eq_some_iff.mp hj).1
  rw [List.length_singleton] at hlt
  omega

theorem decodedFile_run : ∃ proc phys t dir,
    elfLoad (elfMachine decodedFile) elfPath elfBoot =
      .ok ((0, proc, [⟨⟨ptLoad, 84, 0x400000, 4, 8⟩, phys⟩]), t) ∧
    processDirectory proc t = .ok (dir, t) := by
  exact elfResult_directory (by decide +kernel) (by decide +kernel) decodedFile_headers
    (by decide +kernel)

/-- The load of a well-formed file stays in its blocks, and the segment is found at its address. -/
theorem elfLoad_maps_iff_aligned :
    LoadsInPlace (elfFile decodedFile decodedFile_small) elfPath elfBoot ∧ ∃ proc phys t dir,
    elfLoad (elfMachine decodedFile) elfPath elfBoot =
      .ok ((0, proc, [⟨⟨ptLoad, 84, 0x400000, 4, 8⟩, phys⟩]), t) ∧
    processDirectory proc t = .ok (dir, t) ∧
    MappedToBlock t dir ⟨⟨ptLoad, 84, 0x400000, 4, 8⟩, phys⟩ := by
  obtain ⟨proc, phys, t, -, hrun, -⟩ := decodedFile_run
  obtain ⟨dir, hdir, hmaps⟩ := (elfLoad_maps_iff (elfBoot_sound _)).2 _ _ _ hrun
  refine ⟨decodedFile_inPlace, proc, phys, t, dir, hrun, hdir, ?_⟩
  refine (hmaps 0 _ rfl rfl (pagesApart_alone ?_)).mpr (.inr (by norm_num))
  rintro page ⟨o, ho, rfl⟩
  have ho' : o < 8 := ho
  simp only [u32_eq]
  omega

/-- **A segment that is not mapped.** Its file is loaded, and the user gets nothing of it. -/
theorem elfLoad_not_mapped : ∃ proc phys t dir,
    elfLoad (elfMachine unalignedFile) elfPath elfBoot =
      .ok ((0, proc, [⟨⟨ptLoad, 84, 0x400010, 4, 8⟩, phys⟩]), t) ∧
    processDirectory proc t = .ok (dir, t) ∧
    PagesApart [⟨⟨ptLoad, 84, 0x400010, 4, 8⟩, phys⟩] 0 ⟨⟨ptLoad, 84, 0x400010, 4, 8⟩, phys⟩ ∧
    ¬ MappedToBlock t dir ⟨⟨ptLoad, 84, 0x400010, 4, 8⟩, phys⟩ := by
  obtain ⟨proc, phys, t, dir, hrun, hdir⟩ := @elfResult_directory unalignedFile
    ⟨ptLoad, 84, 0x400010, 4, 8⟩ (by decide +kernel) (by decide +kernel)
    (by
      rw [StoredFile.readHeaders_fst]
      unfold StoredFile.tablePos StoredFile.seekTo StoredFile.phdrAt StoredFile.ehdr
      rw [elfFile_bytes]
      decide +kernel) (by decide +kernel)
  have hapart : PagesApart [⟨⟨ptLoad, 84, 0x400010, 4, 8⟩, phys⟩] 0
      ⟨⟨ptLoad, 84, 0x400010, 4, 8⟩, phys⟩ := by
    refine pagesApart_alone ?_
    rintro page ⟨o, ho, rfl⟩
    have ho' : o < 8 := ho
    simp only [u32_eq]
    omega
  exact ⟨proc, phys, t, dir, hrun, hdir, hapart,
    not_mappedToBlock (FsSound.boot _ _ _) hrun hdir rfl hapart (by norm_num) (by norm_num)⟩

/-- A file whose segment is behind the memory of the kernel leaves the pages of the kernel alone. -/
theorem elfLoad_kernel_iff_aligned :
    LoadsInPlace (elfFile decodedFile decodedFile_small) elfPath elfBoot ∧ ∃ proc phys t dir,
    elfLoad (elfMachine decodedFile) elfPath elfBoot =
      .ok ((0, proc, [⟨⟨ptLoad, 84, 0x400000, 4, 8⟩, phys⟩]), t) ∧
    processDirectory proc t = .ok (dir, t) ∧
    KernelKept (elfMachine decodedFile) elfBoot t dir := by
  obtain ⟨proc, phys, t, -, hrun, -⟩ := decodedFile_run
  obtain ⟨⟨dir, hdir, hkept⟩, -⟩ := (elfLoad_kernel_iff (elfBoot_sound _)).2 _ _ _ hrun
  refine ⟨decodedFile_inPlace, proc, phys, t, dir, hrun, hdir, hkept.mpr fun page hpage => ?_⟩
  obtain ⟨b, rfl, ⟨-, hb⟩ | ⟨a, ha, -⟩⟩ := hpage
  · have hb' : b < 0x10000 := hb
    refine ⟨by omega, fun x hx hmaps => ?_⟩
    obtain rfl := List.mem_singleton.mp hx
    obtain ⟨-, -, o, ho, heq⟩ := hmaps
    have ho' : o < 8 := ho
    simp only [u32_eq] at heq
    omega
  · cases ha

/-- **A page of the kernel that the user gets.** The file names an address in the kernel image. -/
theorem elfLoad_kernel_not_kept : ∃ proc phys t dir,
    elfLoad (elfMachine intrudingFile) elfPath elfBoot =
      .ok ((0, proc, [⟨⟨ptLoad, 84, 0x2000, 4, 8⟩, phys⟩]), t) ∧
    processDirectory proc t = .ok (dir, t) ∧
    ¬ KernelKept (elfMachine intrudingFile) elfBoot t dir := by
  obtain ⟨proc, phys, t, dir, hrun, hdir⟩ := @elfResult_directory intrudingFile
    ⟨ptLoad, 84, 0x2000, 4, 8⟩ (by decide +kernel) (by decide +kernel)
    (by
      rw [StoredFile.readHeaders_fst]
      unfold StoredFile.tablePos StoredFile.seekTo StoredFile.phdrAt StoredFile.ehdr
      rw [elfFile_bytes]
      decide +kernel) (by decide +kernel)
  refine ⟨proc, phys, t, dir, hrun, hdir, fun hkept => ?_⟩
  -- page 2 is the user's
  obtain ⟨-, -, huser⟩ := hkept 0x2000 ⟨0x2000, rfl, .inl ⟨by norm_num, by decide⟩⟩
  have hmaps : ElfPhdr.Maps ⟨ptLoad, 84, 0x2000, 4, 8⟩ (0x2000 / 4096) :=
    ⟨rfl, by norm_num, 0, by norm_num, by norm_num [u32_eq]⟩
  rw [(elfLoad_user_iff (FsSound.boot _ _ _) hrun hdir (by norm_num)).mpr
    (.inr ⟨_, List.mem_singleton_self _, hmaps⟩)] at huser
  cases huser

end VibeKernel
