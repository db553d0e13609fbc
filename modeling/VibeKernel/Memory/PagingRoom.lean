import VibeKernel.Kernel.Room
import VibeKernel.Memory.Paging

/-!
# What page directories cost

A new directory takes the page of the directory, those of its 16 tables, and the chunk
(`newDirectoryRequests`). Setting an entry takes a page if the table of the entry is missing, and
nothing if it is there (`pagingSet_present`).
-/

namespace VibeKernel

open Verif

variable {H D : Type}

/-- What a table asks the allocator for. -/
def tableRequest : Request := ⟨4096, true⟩

/-- What `paging_new_4gb` asks the allocator for. -/
def newDirectoryRequests : List Request := List.replicate 17 tableRequest ++ [⟨4, false⟩]

section Cost

variable {M : Machine H D} {E : Stop → Prop} {s : Kernel H D} {rs : List Request} {dir virt val : ℕ}

theorem pagingIdentity_spends (hE : E .clobbered) (flags : ℕ) : ∀ n i : ℕ,
    Spends M.room E (pagingIdentity M flags dir i n) (List.replicate n tableRequest) := by
  intro n
  induction n with
  | zero => exact fun _ => Spends.pure _ _
  | succ n ih =>
    intro i
    rw [pagingIdentity, List.replicate_succ]
    change Spends M.room E _ ([tableRequest] ++ _)
    refine (newObj_spends (o := .table (identityTable flags i)) hE (Nat.succ_pos _)).bind fun p =>
      ?_
    refine (readObj_spends hE _).bind_free fun words => ?_
    exact (writeObj_spends hE).bind_free fun _ => ih (i + 1)

/-- **A new directory.** -/
theorem pagingNew4gb_spends (hE : E .clobbered) (flags : ℕ) :
    Spends M.room E (pagingNew4gb M flags) newDirectoryRequests := by
  unfold pagingNew4gb newDirectoryRequests
  rw [List.replicate_succ, List.cons_append]
  change Spends M.room E _ ([tableRequest] ++ (List.replicate 16 tableRequest ++ [⟨4, false⟩]))
  refine (newObj_spends (o := .table fun _ => 0) hE (Nat.succ_pos _)).bind fun p => ?_
  refine (pagingIdentity_spends hE flags 16 0).bind fun _ => ?_
  exact newObj_spends (o := .chunk p) hE (Nat.succ_pos _)

/-- The part of `paging_set` behind the search for the table. -/
theorem setEntry_spends (hE : E .clobbered) {table : ℕ} {f : (ℕ → ℕ) → ℕ → ℕ} :
    Spends M.room E (do
      let entries ← readObj Obj.asTable table
      writeObj table (.table (f entries))
      pure (0 : ℤ)) [] :=
  (readObj_spends hE _).bind_free fun _ => (writeObj_spends hE).bind_free fun _ => Spends.pure _ _

theorem pagingTable_spends (hE : E .clobbered) (i : ℕ) :
    Spends M.room E (pagingTable M dir i) [tableRequest] := by
  unfold pagingTable
  refine (readObj_spends hE _).bind_free fun words => ?_
  dsimp only
  refine Spends.ite (fun _ => ?_) fun _ => Spends.pure _ _
  refine (newObj_spends (o := .table fun _ => 0) hE (Nat.succ_pos _)).bind_last fun table => ?_
  exact (writeObj_spends hE).bind_free fun _ => Spends.pure _ _

/-- **Setting an entry** takes at most a table. -/
theorem pagingSet_spends (hE : E .clobbered) :
    Spends M.room E (pagingSet M dir virt val) [tableRequest] := by
  unfold pagingSet
  refine Spends.ite (fun _ => Spends.pure _ _) fun _ => ?_
  exact (pagingTable_spends hE _).bind_last fun table => setEntry_spends hE

/-- Setting an entry whose table is there takes nothing. -/
theorem pagingSet_present (hE : E .clobbered) {W : ℕ → ℕ} (hdir : s.store dir = some (.table W))
    (hW : virt % 4096 = 0 → W (virt >>> 22) &&& 0xFFFFF000 ≠ 0) (hroom : RoomFor M rs s) :
    wp E (pagingSet M dir virt val) (fun _ t => RoomFor M rs t) s := by
  unfold pagingSet
  by_cases halign : virt % 4096 ≠ 0
  · rw [if_pos halign]
    exact hroom
  · rw [if_neg halign]
    dsimp only
    have htable : wp E (pagingTable M dir (virt >>> 22)) (fun _ t => RoomFor M rs t) s := by
      unfold pagingTable
      rw [wp_bind]
      refine readObj_wp hdir rfl ?_
      dsimp only
      rw [if_neg (hW (not_not.mp halign))]
      exact hroom
    exact wp_seq htable fun table t ht => setEntry_spends hE rs t ht

end Cost

end VibeKernel
