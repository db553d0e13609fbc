import VibeKernel.Kernel.Room

/-!
# The path parser

`src/fs/path_parser.c`: a path `d:/c1/.../cn` becomes a root structure with the number of the drive
and the list of its parts. Each part takes a structure and a buffer of 256 bytes, into which its
characters are copied without a check; a part that does not fit into the block of its buffer stops
the computation. The parts end at the first empty one.

Nothing but the parser touches its blocks, so what they hold stays with the pointers in a
`PathRoot`.
-/

namespace VibeKernel

open Verif

variable {H D : Type}

/-- `struct path_part` at `ptr`, whose string is the buffer at `strPtr`. -/
structure PathPart where
  ptr : ℕ
  strPtr : ℕ
  part : CString
  deriving DecidableEq, Repr

/-- `struct path_root` at `ptr`. -/
structure PathRoot where
  ptr : ℕ
  driveNo : ℕ
  parts : List PathPart
  deriving DecidableEq, Repr

/-- `path_parser_get_drive_no`: the drive number and the path behind `d:/`. -/
def pathParserGetDriveNo (path : CString) : Option (ℕ × CString) :=
  if isdigit path.at0 = true ∧ path.getD 1 0 = 0x3A ∧ path.getD 2 0 = 0x2F then
    some (path.at0.toNat - 0x30, path.drop 3)
  else none

/-- The characters of the part a path starts with. -/
def partChars (path : CString) : CString := path.takeWhile fun c => decide (c ≠ 0 ∧ c ≠ 0x2F)

/-- The path behind its first part and the `/` that ends it. -/
def partRest (path : CString) : CString :=
  let rest : CString := path.drop (partChars path).length
  if rest.at0 = 0x2F then rest.tail else rest

/-- `path_parser_get_next_part`: the buffer with its string, unless the part is empty, and the path
behind it. -/
def pathParserGetNextPart (M : Machine H D) (path : CString) :
    KM H D (Option (ℕ × CString) × CString) := do
  let result ← kmallocUnchecked M 256 false
  if partChars path = [] then do
    kfree M result
    pure (none, partRest path)
  else do
    let s ← Exec.gets id
    if FitsBlock M s result 256 ((partChars path).length + 1) then
      pure (some (result, partChars path), partRest path)
    else Exec.stop .overrun

/-- The loop of `path_parser_parse`. Each round but the last takes at least one character. -/
def pathParserParts (M : Machine H D) : ℕ → CString → KM H D (List PathPart)
  | 0, _ => Exec.stop .diverges
  | n + 1, path => do
    let (part, rest) ← pathParserGetNextPart M path
    match part with
    | none => pure []
    | some (strPtr, chars) => do
      let ptr ← kmallocUnchecked M 8 false
      let parts ← pathParserParts M n rest
      pure (⟨ptr, strPtr, chars⟩ :: parts)

/-- `path_parser_parse`. -/
def pathParserParse (M : Machine H D) (path : CString) : KM H D (Option PathRoot) :=
  match pathParserGetDriveNo path with
  | none => pure none
  | some (driveNo, rest) => do
    let ptr ← kmallocUnchecked M 8 false
    let parts ← pathParserParts M (rest.length + 1) rest
    pure (some ⟨ptr, driveNo, parts⟩)

/-- The loop of `path_parser_free`. -/
def pathParserFreeParts (M : Machine H D) : List PathPart → KM H D Unit
  | [] => pure ()
  | part :: rest => do
    kfree M part.strPtr
    kfree M part.ptr
    pathParserFreeParts M rest

/-- `path_parser_free`. -/
def pathParserFree (M : Machine H D) (root : PathRoot) : KM H D Unit := do
  pathParserFreeParts M root.parts
  kfree M root.ptr

/-! ### What a path means -/

/-- The parts of the path behind `d:/`, up to the first empty one. -/
def pathParts : ℕ → CString → List CString
  | 0, _ => []
  | n + 1, path => if partChars path = [] then [] else partChars path :: pathParts n (partRest path)

/-- The path has a part that does not fit into the 256 bytes of its buffer. -/
def PathTooLong (path : CString) : Prop :=
  ∃ i rest, pathParserGetDriveNo path = some (i, rest) ∧
    ∃ p ∈ pathParts (rest.length + 1) rest, 256 ≤ p.length

/-- The blocks of parsed parts, the latest first. -/
def partBlocks : List PathPart → List Allocation
  | [] => []
  | part :: rest => partBlocks rest ++ [⟨part.ptr, 8⟩, ⟨part.strPtr, 256⟩]

/-- The addresses of parsed parts in the order in which they are freed. -/
def partPtrs : List PathPart → List ℕ
  | [] => []
  | part :: rest => part.strPtr :: part.ptr :: partPtrs rest

/-- The blocks of a parsed path, the latest first. -/
def PathRoot.blocks (root : PathRoot) : List Allocation := partBlocks root.parts ++ [⟨root.ptr, 8⟩]

/-- The addresses of a parsed path in the order in which they are freed. -/
def PathRoot.ptrs (root : PathRoot) : List ℕ := partPtrs root.parts ++ [root.ptr]

theorem mem_partPtrs {p : ℕ} {parts : List PathPart} :
    p ∈ partPtrs parts ↔ p ∈ (partBlocks parts).map Allocation.ptr := by
  induction parts with
  | nil => rfl
  | cons part rest ih =>
    rw [partPtrs, partBlocks, List.mem_cons, List.mem_cons, ih, List.map_append, List.mem_append]
    simp only [List.map_cons, List.map_nil, List.mem_cons, List.not_mem_nil, or_false]
    tauto

theorem PathRoot.mem_ptrs {p : ℕ} {root : PathRoot} :
    p ∈ root.ptrs ↔ p ∈ root.blocks.map Allocation.ptr := by
  unfold PathRoot.ptrs PathRoot.blocks
  rw [List.mem_append, List.map_append, List.mem_append, mem_partPtrs]
  rfl

theorem partRest_length {path : CString} (h : partChars path ≠ []) :
    (partRest path).length < path.length := by
  have hpos : 0 < (partChars path).length := List.length_pos_iff.mpr h
  have hle : (partChars path).length ≤ path.length :=
    (List.takeWhile_prefix _).length_le
  have hdrop : (path.drop (partChars path).length).length < path.length := by
    rw [List.length_drop]
    omega
  unfold partRest
  dsimp only
  split
  · exact lt_of_le_of_lt (by rw [List.length_tail]; exact Nat.sub_le _ _) hdrop
  · exact hdrop

/-! ### Specifications -/

section Specs

variable {M : Machine H D} {E : Stop → Prop} {s : Kernel H D}

/-- A part takes a buffer, which stays allocated unless the part is empty. -/
theorem pathParserGetNextPart_wp (hE : ∀ e, e.AllocFails → E e) (hA : ArenaInv M s)
    {path : CString} (hover : 256 ≤ (partChars path).length → E .overrun)
    {Q : Option (ℕ × CString) × CString → Kernel H D → Prop}
    (hempty : partChars path = [] → ∀ h, Q (none, partRest path) { s with heap := h })
    (hpart : partChars path ≠ [] → ∀ p h, p ≠ 0 →
      ArenaInv M (s.withBlock h p 256) →
      Q (some (p, partChars path), partRest path) (s.withBlock h p 256)) :
    wp E (pathParserGetNextPart M path) Q s := by
  unfold pathParserGetNextPart
  rw [wp_bind]
  refine kmallocUnchecked_wp hE fun p h hp hU htop => ?_
  by_cases hnil : partChars path = []
  · rw [if_pos hnil, wp_bind]
    refine kfree_wp (fun h0 => absurd h0 hp) fun _ => ?_
    rw [wp_pure, Kernel.freed_alloc hA hU]
    exact hempty hnil _
  rw [if_neg hnil, wp_bind, wp_gets]
  dsimp only [id]
  by_cases hfits : FitsBlock M (s.withBlock h p 256) p 256 ((partChars path).length + 1)
  · rw [if_pos hfits]
    exact hpart hnil p h hp (hA.withBlock hU htop h)
  · rw [if_neg hfits]
    exact hover (Nat.le_of_not_lt (mt FitsBlock.of_le hfits))

/-- The loop parses the parts of the path and allocates two blocks for each. -/
theorem pathParserParts_wp (hE : ∀ e, e.AllocFails → E e) :
    ∀ (n : ℕ) {path : CString} {s : Kernel H D} {Q : List PathPart → Kernel H D → Prop},
      ((∃ p ∈ pathParts n path, 256 ≤ p.length) → E .overrun) → path.length < n → ArenaInv M s →
      (∀ parts h, parts.map PathPart.part = pathParts n path → (∀ p ∈ partPtrs parts, p ≠ 0) →
        ArenaInv M (s.alloc h (partBlocks parts)) → Q parts (s.alloc h (partBlocks parts))) →
      wp E (pathParserParts M n path) Q s := by
  intro n
  induction n with
  | zero => exact fun _ hlen => absurd hlen (Nat.not_lt_zero _)
  | succ n ih =>
    intro path s Q hover hlen hA hQ
    rw [pathParts] at hover
    rw [pathParserParts, wp_bind]
    refine pathParserGetNextPart_wp hE hA (fun hlong => hover ?_) (fun hnil h => ?_)
      fun hne p h hp hA₁ => ?_
    · have hne : partChars path ≠ [] := by
        intro hnil
        rw [hnil, List.length_nil] at hlong
        omega
      rw [if_neg hne]
      exact ⟨_, List.mem_cons_self, hlong⟩
    · dsimp only
      rw [wp_pure]
      refine hQ [] h ?_ (by simp [partPtrs]) ⟨hA.low, hA.high, hA.apart, hA.stored⟩
      rw [pathParts, if_pos hnil]
      rfl
    · dsimp only
      rw [wp_bind]
      refine kmallocUnchecked_wp hE fun q h₂ hq hU htop => ?_
      rw [wp_bind]
      have hA₂ := hA₁.withBlock hU htop h₂
      have hrest : (partRest path).length < n := by
        have := partRest_length hne
        omega
      rw [if_neg hne] at hover
      refine ih (fun ⟨q, hq, hlong⟩ => hover ⟨q, List.mem_cons_of_mem _ hq, hlong⟩) hrest hA₂
        fun parts h₃ hparts hptrs hA₃ => ?_
      rw [wp_pure]
      -- the blocks of this part lie behind those of the rest
      have hstate : ((s.withBlock h p 256).withBlock h₂ q 8).alloc h₃ (partBlocks parts) =
          s.alloc h₃ (partBlocks (⟨q, p, partChars path⟩ :: parts)) := by
        unfold Kernel.alloc Kernel.withBlock
        dsimp only [partBlocks]
        rw [List.append_assoc]
        rfl
      rw [hstate] at hA₃ ⊢
      refine hQ _ h₃ ?_ ?_ hA₃
      · rw [pathParts, if_neg hne, List.map_cons, hparts]
      · intro r hr
        rw [partPtrs, List.mem_cons, List.mem_cons] at hr
        rcases hr with rfl | rfl | hr
        · exact hp
        · exact hq
        · exact hptrs r hr

/-- **Parsing** a path allocates the blocks of the parsed path and does nothing else. -/
theorem pathParserParse_wp (hE : ∀ e, e.AllocFails → E e) (hA : ArenaInv M s) {path : CString}
    (hover : PathTooLong path → E .overrun) {Q : Option PathRoot → Kernel H D → Prop}
    (hbad : pathParserGetDriveNo path = none → Q none s)
    (hroot : ∀ driveNo rest, pathParserGetDriveNo path = some (driveNo, rest) → ∀ root h,
      root.driveNo = driveNo → root.parts.map PathPart.part = pathParts (rest.length + 1) rest →
      (∀ p ∈ root.ptrs, p ≠ 0) → ArenaInv M (s.alloc h root.blocks) →
      Q (some root) (s.alloc h root.blocks)) :
    wp E (pathParserParse M path) Q s := by
  unfold pathParserParse
  cases hdrive : pathParserGetDriveNo path with
  | none => exact hbad hdrive
  | some r =>
    obtain ⟨driveNo, rest⟩ := r
    dsimp only
    rw [wp_bind]
    refine kmallocUnchecked_wp hE fun p h hp hU htop => ?_
    rw [wp_bind]
    refine pathParserParts_wp hE _ (fun hlong => hover ⟨driveNo, rest, hdrive, hlong⟩)
      (Nat.lt_succ_self _) (hA.withBlock hU htop h)
      fun parts h₂ hparts hptrs hA₂ => ?_
    rw [wp_pure]
    have hstate : (s.withBlock h p 8).alloc h₂ (partBlocks parts) =
        s.alloc h₂ (PathRoot.blocks ⟨p, driveNo, parts⟩) := by
      unfold Kernel.alloc Kernel.withBlock PathRoot.blocks
      dsimp only
      rw [List.append_assoc]
      rfl
    rw [hstate] at hA₂ ⊢
    refine hroot driveNo rest hdrive ⟨p, driveNo, parts⟩ h₂ rfl hparts ?_ hA₂
    intro r hr
    unfold PathRoot.ptrs at hr
    rcases List.mem_append.mp hr with hr | hr
    · exact hptrs r hr
    · rw [List.mem_singleton.mp hr]
      exact hp

theorem pathParserFreeParts_wp : ∀ (parts : List PathPart) {s : Kernel H D}
    {Q : Unit → Kernel H D → Prop}, (∀ p ∈ partPtrs parts, p ≠ 0) →
      Q () (s.freedAll M (partPtrs parts)) → wp E (pathParserFreeParts M parts) Q s := by
  intro parts
  induction parts with
  | nil => exact fun _ hQ => hQ
  | cons part rest ih =>
    intro s Q hptrs hQ
    have hstr : part.strPtr ≠ 0 := hptrs _ List.mem_cons_self
    have hptr : part.ptr ≠ 0 := hptrs _ (List.mem_cons_of_mem _ List.mem_cons_self)
    rw [pathParserFreeParts, wp_bind]
    refine kfree_wp (fun h => absurd h hstr) fun _ => ?_
    rw [wp_bind]
    refine kfree_wp (fun h => absurd h hptr) fun _ => ?_
    exact ih (fun p hp => hptrs p (List.mem_cons_of_mem _ (List.mem_cons_of_mem _ hp))) hQ

/-- **Freeing** a parsed path frees its blocks. -/
theorem pathParserFree_wp {root : PathRoot} {Q : Unit → Kernel H D → Prop}
    (hptrs : ∀ p ∈ root.ptrs, p ≠ 0) (hQ : Q () (s.freedAll M root.ptrs)) :
    wp E (pathParserFree M root) Q s := by
  unfold pathParserFree
  rw [wp_bind]
  refine pathParserFreeParts_wp root.parts (fun p hp => hptrs p (List.mem_append_left _ hp)) ?_
  refine kfree_wp (fun h => absurd h (hptrs _ ?_)) fun _ => ?_
  · exact List.mem_append_right _ (List.mem_singleton.mpr rfl)
  · have hlast : s.freedAll M root.ptrs =
        (s.freedAll M (partPtrs root.parts)).freed M root.ptr := by
      unfold Kernel.freedAll PathRoot.ptrs
      rw [List.foldl_append]
      rfl
    rw [← hlast]
    exact hQ

end Specs

/-! ### What parsing costs -/

/-- What the loop asks the allocator for: a buffer and a structure for each part, and the buffer of
the empty part that ends it. -/
def partRequests : List CString → List Request
  | [] => [⟨256, false⟩]
  | _ :: parts => ⟨256, false⟩ :: ⟨8, false⟩ :: partRequests parts

/-- What `path_parser_parse` asks the allocator for. -/
def pathRequests (path : CString) : List Request :=
  match pathParserGetDriveNo path with
  | none => []
  | some (_, rest) => ⟨8, false⟩ :: partRequests (pathParts (rest.length + 1) rest)

section Cost

variable {M : Machine H D} {E : Stop → Prop}

theorem pathParserParts_spends (hover : E .overrun) : ∀ (n : ℕ) {path : CString}, path.length < n →
    Spends M.room E (pathParserParts M n path) (partRequests (pathParts n path)) := by
  intro n
  induction n with
  | zero => exact fun hlen => absurd hlen (Nat.not_lt_zero _)
  | succ n ih =>
    intro path hlen
    rw [pathParserParts, pathParts]
    unfold pathParserGetNextPart
    by_cases hnil : partChars path = []
    · -- the empty part ends the loop
      simp only [if_pos hnil, bind_assoc, pure_bind]
      change Spends M.room E _ ([⟨256, false⟩] ++ [])
      refine (kmallocUnchecked_spends (by norm_num)).bind_answer kmallocUnchecked_answers
        fun p hp => ?_
      exact (kfree_spends hp).bind_free fun _ => Spends.pure _ _
    · simp only [if_neg hnil, bind_assoc]
      have hrest : (partRest path).length < n := by
        have := partRest_length hnil
        omega
      change Spends M.room E _ ([⟨256, false⟩] ++ ([⟨8, false⟩] ++ _))
      refine (kmallocUnchecked_spends (by norm_num)).bind fun p => Spends.bind_gets fun s => ?_
      by_cases hfits : FitsBlock M s p 256 ((partChars path).length + 1)
      · simp only [if_pos hfits, pure_bind]
        refine (kmallocUnchecked_spends (by norm_num)).bind fun q => ?_
        exact (ih hrest).bind_last fun _ => Spends.pure _ _
      · simp only [if_neg hfits]
        exact Spends.stop_bind hover _

/-- **What parsing a path costs.** -/
theorem pathParserParse_spends (hover : E .overrun) (path : CString) :
    Spends M.room E (pathParserParse M path) (pathRequests path) := by
  unfold pathParserParse pathRequests
  cases pathParserGetDriveNo path with
  | none => exact Spends.pure _ _
  | some r =>
    obtain ⟨driveNo, rest⟩ := r
    dsimp only
    change Spends M.room E _ ([⟨8, false⟩] ++ _)
    refine (kmallocUnchecked_spends (by norm_num)).bind fun ptr => ?_
    exact (pathParserParts_spends hover _ (Nat.lt_succ_self _)).bind_last fun _ => Spends.pure _ _

theorem pathParserFreeParts_spends :
    ∀ parts : List PathPart, (∀ p ∈ partPtrs parts, p < 4294967296) →
    Spends M.room E (pathParserFreeParts M parts) [] := by
  intro parts
  induction parts with
  | nil => exact fun _ => Spends.pure _ _
  | cons part rest ih =>
    intro h
    rw [partPtrs, List.forall_mem_cons, List.forall_mem_cons] at h
    exact (kfree_spends h.1).bind_free fun _ => (kfree_spends h.2.1).bind_free fun _ => ih h.2.2

/-- Freeing a path costs nothing. -/
theorem pathParserFree_spends {root : PathRoot} (h : ∀ p ∈ root.ptrs, p < 4294967296) :
    Spends M.room E (pathParserFree M root) [] := by
  unfold PathRoot.ptrs at h
  refine (pathParserFreeParts_spends root.parts fun p hp =>
    h p (List.mem_append_left _ hp)).bind_free
    fun _ => kfree_spends (h _ (List.mem_append_right _ (List.mem_singleton.mpr rfl)))

end Cost

end VibeKernel
