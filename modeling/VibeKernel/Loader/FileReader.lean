import VibeKernel.Fs.StoredFile
import VibeKernel.Task.Process

/-!
# What a loader knows of its file

The loaders read a file through a descriptor, between steps of other parts of the kernel. What they
rely on is the same whether the disk is arbitrary or the bytes of the file are known: no call on the
descriptor touches anything but the file system, and no other step touches the file.

A `FileReader` is that interface. Its positions `σ` say what is known of the file, and its relations
what a call may answer at a position. `anyReader` knows nothing, on any disk; `StoredFile.reader` is
at a byte of a stored file and knows what it reads.
-/

namespace VibeKernel

open Verif

variable {H D : Type}

/-- The stored bytes have changed at most inside the file system, which has freed no block. -/
structure FsMoves (M : Machine H D) (s t : Kernel H D) : Prop where
  arena : ArenaInv M t
  frame : Frame FsKind s t
  live : t.live = s.live

/-- A descriptor `fd` as its reader sees it, in computations that may stop for the reasons in
`E`. -/
structure FileReader (M : Machine H D) (fd : ℤ) (E : Stop → Prop) (σ : Type) where
  /-- The descriptor is at a position. -/
  At : σ → Kernel H D → Prop
  /-- The descriptor can be closed. -/
  Open : Kernel H D → Prop
  /-- A read of one item of a size may answer this, and lead there if it succeeds. -/
  Reads : σ → ℕ → ℤ × List UInt8 → σ → Prop
  /-- A seek to an offset from the start may lead there. -/
  Seeks : σ → ℤ → σ → Prop
  /-- `ftell` may answer this. -/
  Tells : σ → ℤ → Prop
  open_of_at : ∀ {a s}, At a s → Open s
  arena : ∀ {s}, Open s → ArenaInv M s
  at_keep : ∀ {a s t}, At a s → KeepsFs s t → ArenaInv M t → At a t
  open_keep : ∀ {s t}, Open s → KeepsFs s t → ArenaInv M t → Open t
  fread_wp : ∀ {a s n} {Q : ℤ × List UInt8 → Kernel H D → Prop}, At a s → n < 4294967296 →
    (∀ r b t, Reads a n r b → FsMoves M s t → Open t → (r.1 = 1 → At b t) → Q r t) →
    wp E (fread M n 1 fd) Q s
  fseek_wp : ∀ {a s v} {Q : ℤ → Kernel H D → Prop}, At a s →
    (∀ res b t, Seeks a v b → FsMoves M s t → At b t → Q res t) → wp E (fseek fd v .set) Q s
  ftell_wp : ∀ {a s} {Q : ℤ → Kernel H D → Prop}, At a s → (∀ v, Tells a v → Q v s) →
    wp E (ftell fd : KM H D ℤ) Q s
  fclose_wp : ∀ {s} {Q : ℤ → Kernel H D → Prop}, Open s →
    (∀ res t, ArenaInv M t → Frame FsKind s t → Q res t) → wp E (fclose M fd) Q s

theorem FsMoves.refl {M : Machine H D} {s : Kernel H D} (hA : ArenaInv M s) : FsMoves M s s :=
  ⟨hA, Frame.refl _ s, rfl⟩

/-- Where nothing lies, the file system puts nothing, since it allocates nothing. -/
theorem FsMoves.store_none {M : Machine H D} {s t : Kernel H D} (h : FsMoves M s t) {p : ℕ}
    (hnone : s.store p = none) : t.store p = none := by
  by_contra hne
  obtain ⟨o, ho⟩ := Option.ne_none_iff_exists'.mp hne
  obtain ⟨a, ha, rfl, -⟩ := h.arena.stored p o ho
  rw [h.live] at ha
  have hkept := (h.frame.blocks a ha (by rw [hnone]; simp)).2
  rw [ho, hnone] at hkept
  cases hkept

/-- A step of the file system frees nothing. -/
theorem FsMoves.extends {M : Machine H D} {s t : Kernel H D} (h : FsMoves M s t) :
    Extends M FsKind s t :=
  ⟨h.arena, h.frame, fun a ha => by rw [h.live]; exact ha⟩

/-- The file system stays sound under the steps of other parts of the kernel. -/
theorem FsSound.keep {M : Machine H D} {B : ℕ → FatBootSector → Prop} {s t : Kernel H D}
    (h : FsSound M B s) (hK : KeepsFs s t) (hA : ArenaInv M t) : FsSound M B t :=
  ⟨hA, (hK.inv h.inv).1⟩

/-- Nothing is known of the file, or of the disks. -/
def anyReader (M : Machine H D) (fd : ℤ) : FileReader M fd (fun _ => True) Unit where
  At _ s := FsSound M (fun _ _ => True) s
  Open s := FsSound M (fun _ _ => True) s
  Reads _ _ _ _ := True
  Seeks _ _ _ := True
  Tells _ _ := True
  open_of_at h := h
  arena h := h.arena
  at_keep h hK hA := h.keep hK hA
  open_keep h hK hA := h.keep hK hA
  fread_wp h _ hQ := by
    refine VibeKernel.fread_wp h.arena h.inv (fun _ => ?_) fun _ _ _ _ _ _ _ =>
      ⟨fun _ _ => trivial, fun r _ _ _ t hmoved => ?_⟩
    · exact hQ _ () _ trivial (FsMoves.refl h.arena) h fun _ => h
    · have hsound : FsSound M (fun _ _ => True) t := ⟨hmoved.arena, hmoved.inv⟩
      exact hQ r () t trivial ⟨hmoved.arena, hmoved.frame, hmoved.live⟩ hsound fun _ => hsound
  fseek_wp h hQ := by
    refine VibeKernel.fseek_wp h.arena h.inv (fun _ => ?_) fun _ _ _ _ _ t hmoved => ?_
    · exact hQ _ () _ trivial (FsMoves.refl h.arena) h
    · exact hQ _ () t trivial ⟨hmoved.arena, hmoved.frame, hmoved.live⟩ ⟨hmoved.arena, hmoved.inv⟩
  ftell_wp h hQ := VibeKernel.ftell_wp h.inv (fun _ => hQ _ trivial) fun _ _ _ _ _ => hQ _ trivial
  fclose_wp h hQ := VibeKernel.fclose_wp h.arena h.inv (fun _ => hQ _ _ h.arena (Frame.refl _ _))
    fun _ _ _ _ _ t hclosed => hQ _ t hclosed.arena hclosed.frame

namespace StoredFile

variable {M : Machine H D} {x : StoredFile M} {slot : ℕ} {fd : ℤ} {s t : Kernel H D}

theorem Moves.fsMoves (h : x.Moves slot s t) : FsMoves M s t := ⟨h.isOpen.1.arena, h.frame, h.live⟩

/-- The position is a byte of a stored file. -/
def reader (x : StoredFile M) (hfd : fdSlot fd = some slot) (E : Stop → Prop) :
    FileReader M fd E ℕ where
  At pos s := x.OpenAt slot s pos
  Open s := x.IsOpen slot s
  Reads pos n r pos' := r = (asInt32 ((x.out pos n).length / n), x.out pos n) ∧
    pos ≤ x.bytes.length ∧ pos' = pos + (x.out pos n).length
  Seeks pos v pos' := pos' = x.seekTo (ofInt32 v) pos
  Tells pos v := v = asInt32 pos
  open_of_at h := h.isOpen
  arena h := h.1.arena
  at_keep h hK hA := h.keepsFs hK hA
  open_keep h hK hA := h.keepsFs hK hA
  fread_wp {pos} {s} {n} Q h hn hQ := by
    refine StoredFile.fread_wp hfd h hn fun t hmoves hat => ?_
    refine hQ _ _ t ⟨rfl, h.inside, rfl⟩ hmoves.fsMoves hmoves.isOpen fun hone => hat ?_
    -- a read that succeeds ends inside the file
    have hfull := (readCount_eq_one (x.out_length_le pos n)).mp hone
    have hend := (x.out_full_iff h.inside).mp hfull.2
    exact lt_of_le_of_lt hend x.bytes_small
  fseek_wp h hQ := StoredFile.fseek_wp hfd h fun res t hmoves hat =>
    hQ res _ t rfl hmoves.fsMoves hat
  ftell_wp h hQ := StoredFile.ftell_wp hfd h (hQ _ rfl)
  fclose_wp h hQ := StoredFile.fclose_wp hfd h fun t hclosed => hQ _ t hclosed.arena hclosed.frame

end StoredFile

end VibeKernel
