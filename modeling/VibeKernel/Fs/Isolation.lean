import VibeKernel.Fs.FileOps
import VibeKernel.Fs.SingleFile
import VibeKernel.Lib.Run

/-!
# Isolation of open files

All files of a disk share one stream, and every `fopen` mounts the disk again and replaces its
private data. Still the operations on one descriptor answer as if nothing else happened:
`entryStep` says what a call on a descriptor answers, from the entry of that descriptor alone, and
`fsStep_fd_wp` that the kernel does so and leaves the other entries as they are. The unwinding rule
lifts this to runs.
-/

namespace VibeKernel

open Verif

variable {H D : Type}

/-- The descriptor that a call works on. -/
def FsCall.fd? : FsCall → Option ℤ
  | .fread _ _ fd => some fd.toInt
  | .fseek fd _ _ => some fd.toInt
  | .ftell fd => some fd.toInt
  | .fstat fd => some fd.toInt
  | .fclose fd => some fd.toInt
  | .fopen _ _ => none
  | .fsList _ => none

/-- The boot sector of a disk that can be mounted. -/
def diskBoot (M : Machine H D) (d : D) (i : ℕ) : FatBootSector :=
  match bootSector M i d with
  | .inl _ => FatBootSector.decode []
  | .inr bpb => bpb

/-- What a call on a descriptor answers, and the entry it leaves, by the entry it finds. -/
def entryStep (M : Machine H D) (d : D) (entry : Option (ℕ × FatFileDescriptor)) (c : FsCall) :
    Except Stop (FsOut × Option (ℕ × FatFileDescriptor)) :=
  match entry with
  | none => .ok (FsOut.ofResult (-1), none)
  | some (i, f) =>
    match c with
    | .fread size nmemb _ =>
      match fat16Read M.ata (diskBoot M d i) size.toNat nmemb.toNat f ⟨0, i⟩ d with
      | .error e => .error e
      | .ok ((res, bytes), f, _) => .ok (⟨res, bytes, none, []⟩, some (i, f))
    | .fseek _ offset whence =>
      .ok (FsOut.ofResult (fat16Seek f offset.toInt whence).1,
        some (i, (fat16Seek f offset.toInt whence).2))
    | .ftell _ => .ok (FsOut.ofResult (fat16Tell f), some (i, f))
    | .fstat _ => .ok (⟨0, [], some (fat16Stat f), []⟩, some (i, f))
    | .fclose _ => .ok (FsOut.ofResult 0, none)
    | .fopen _ _ => .ok (FsOut.ofResult (-1), some (i, f))
    | .fsList _ => .ok (FsOut.ofResult (-1), some (i, f))

/-- A state between two calls, on drives with the contents `d`. -/
structure FsState (M : Machine H D) (d : D) (s : Kernel H D) : Prop where
  arena : ArenaInv M s
  inv : FsInv (fun i bpb => bootSector M i d = .inr bpb) s
  drives : s.drives = d

/-- The call has a path with a part that does not fit into its buffer: it has 256 characters or
more. -/
def FsCall.LongPart : FsCall → Prop
  | .fopen path _ | .fsList path => PathTooLong path
  | _ => False

/-- The call reads items of size zero. -/
def FsCall.EmptyItems : FsCall → Prop
  | .fread size _ _ => size = 0
  | _ => False

/-- Why a call may stop: an allocation fails, a directory or the free list goes around in a circle,
a part of its path does not fit into its buffer, or it divides by the size of its items. -/
def FsStop (c : FsCall) (e : Stop) : Prop :=
  e.AllocFails ∨ (e = .overrun ∧ c.LongPart) ∨ (e = .divideError ∧ c.EmptyItems)

section Steps

variable {M : Machine H D} {d : D} {s t : Kernel H D} {fd : ℤ}

/-- A closed entry answers `-1` and stays closed. -/
theorem entryStep_closed {e e' : Option (ℕ × FatFileDescriptor)} {c : FsCall} {out : FsOut}
    (he : e = none) (h : entryStep M d e c = .ok (out, e')) :
    out = FsOut.ofResult (-1) ∧ e' = none := by
  subst he
  cases h
  exact ⟨rfl, rfl⟩

theorem entryStep_fclose {e e' : Option (ℕ × FatFileDescriptor)} {fd : Int32} {out : FsOut}
    (h : entryStep M d e (.fclose fd) = .ok (out, e')) : e' = none := by
  cases e <;> cases h <;> rfl

theorem FsState.boot (M : Machine H D) (h : H) (d : D) : FsState M d (Kernel.boot h d) :=
  ⟨ArenaInv.boot h d, FsInv.boot h d, rfl⟩

theorem diskBoot_eq {i : ℕ} {bpb : FatBootSector} (h : bootSector M i d = .inr bpb) :
    diskBoot M d i = bpb := by
  unfold diskBoot
  rw [h]

/-- Two descriptors do not name the same slot. -/
theorem Kernel.entry_update {slot : ℕ} {e : Option (ℕ × FatFileDescriptor)}
    (hslot : fdSlot fd = some slot) (h : t.openFile = Function.update s.openFile slot e) :
    t.entry fd = e ∧ ∀ fd', fd' ≠ fd → t.entry fd' = s.entry fd' := by
  constructor
  · rw [Kernel.entry_of_slot hslot, h, Function.update_self]
  · intro fd' hne
    unfold Kernel.entry
    rw [h]
    cases hslot' : fdSlot fd' with
    | none => rfl
    | some slot' =>
      refine Function.update_of_ne ?_ _ _
      rintro rfl
      exact hne ((fdSlot_eq_some.mp hslot').1.trans (fdSlot_eq_some.mp hslot).1.symm)

theorem Kernel.entry_congr (h : t.openFile = s.openFile) (fd : ℤ) : t.entry fd = s.entry fd := by
  unfold Kernel.entry
  rw [h]

/-- What a call on the descriptor `fd` leaves. -/
structure EntryPost (M : Machine H D) (d : D) (s : Kernel H D) (fd : ℤ)
    (r : Except Stop (FsOut × Option (ℕ × FatFileDescriptor))) (out : FsOut) (t : Kernel H D) :
    Prop where
  answer : r = .ok (out, t.entry fd)
  state : FsState M d t
  others : ∀ fd', fd' ≠ fd → t.entry fd' = s.entry fd'

/-- On a closed descriptor a call answers `-1`. -/
theorem EntryPost.of_closed (hS : FsState M d s) {c : FsCall} (h : s.entry fd = none) :
    EntryPost M d s fd (entryStep M d (s.entry fd) c) (FsOut.ofResult (-1)) s :=
  ⟨by rw [h]; rfl, hS, fun _ _ => rfl⟩

theorem EntryPost.of_moved (hF : M.ata.Fixed) (hS : FsState M d s) {slot i : ℕ} {out : FsOut}
    {f : FatFileDescriptor} (hslot : fdSlot fd = some slot)
    (h : FileMoved M (fun i bpb => bootSector M i d = .inr bpb) s t slot i f) :
    EntryPost M d s fd (.ok (out, some (i, f))) out t := by
  obtain ⟨hself, hothers⟩ := Kernel.entry_update hslot h.files
  exact ⟨by rw [hself], ⟨h.arena, h.inv, (h.drives hF).trans hS.drives⟩, hothers⟩

/-- **A call on a descriptor** answers by the entry of the descriptor and leaves the other entries
alone. -/
theorem fsStep_fd_wp (hF : M.ata.Fixed) (hS : FsState M d s) {c : FsCall} (hc : c.fd? = some fd) :
    wp (fun e => entryStep M d (s.entry fd) c = .error e) (fun s => fsStep M s c)
      (EntryPost M d s fd (entryStep M d (s.entry fd) c)) s := by
  have hclosed : s.entry fd = none →
      EntryPost M d s fd (entryStep M d (s.entry fd) c) (FsOut.ofResult (-1)) s :=
    fun h => EntryPost.of_closed hS h
  -- the entry of an open descriptor
  have hopen : ∀ {slot i : ℕ} {f : FatFileDescriptor}, fdSlot fd = some slot →
      s.openFile slot = some (i, f) → s.entry fd = some (i, f) := fun hslot h =>
    (Kernel.entry_of_slot hslot).trans h
  cases c with
  | fopen path mode => cases hc
  | fsList path => cases hc
  | fread size nmemb fd =>
    cases hc
    change wp _ (_ <$> fread M size.toNat nmemb.toNat fd.toInt) _ s
    rw [wp_map]
    refine fread_wp hS.arena hS.inv hclosed fun slot i f bpb hslot hfile hboot => ?_
    rw [hopen hslot hfile, ← diskBoot_eq hboot, hS.drives]
    unfold entryStep
    dsimp only
    refine ⟨fun e he => by rw [he], fun res f' x hread t hmoved => ?_⟩
    rw [hread]
    exact EntryPost.of_moved hF hS hslot hmoved
  | fseek fd offset whence =>
    cases hc
    change wp _ (_ <$> fseek fd.toInt offset.toInt whence) _ s
    rw [wp_map]
    refine fseek_wp hS.arena hS.inv hclosed fun slot i f hslot hfile t hmoved => ?_
    rw [hopen hslot hfile]
    exact EntryPost.of_moved hF hS hslot hmoved
  | ftell fd =>
    cases hc
    change wp _ (_ <$> ftell fd.toInt) _ s
    rw [wp_map]
    refine ftell_wp hS.inv hclosed fun slot i f hslot hfile => ?_
    have he := hopen hslot hfile
    exact ⟨by rw [he]; rfl, hS, fun _ _ => rfl⟩
  | fstat fd =>
    cases hc
    change wp _ (_ <$> fstat fd.toInt) _ s
    rw [wp_map]
    refine fstat_wp hS.inv hclosed fun slot i f hslot hfile => ?_
    have he := hopen hslot hfile
    exact ⟨by rw [he]; rfl, hS, fun _ _ => rfl⟩
  | fclose fd =>
    cases hc
    change wp _ (_ <$> fclose M fd.toInt) _ s
    rw [wp_map]
    refine fclose_wp hS.arena hS.inv hclosed fun slot i f hslot hfile t hcl => ?_
    obtain ⟨hself, hothers⟩ := Kernel.entry_update hslot hcl.files
    exact ⟨by rw [hopen hslot hfile, hself]; rfl,
      ⟨hcl.arena, hcl.inv, hcl.drives.trans hS.drives⟩, hothers⟩

/-! ### Opening and listing -/

/-- The code of a failed lookup is negative. -/
theorem lookupParts_neg {i : ℕ} {parts : List CString} {modeStr : CString} {code : ℤ}
    (h : lookupParts M i parts modeStr d = .ok (.inl code)) : code < 0 := by
  unfold lookupParts at h
  cases parts with
  | nil =>
    cases h
    decide
  | cons part rest =>
    dsimp only at h
    by_cases hi : i > 1
    · rw [if_pos hi] at h
      cases h
      decide
    rw [if_neg hi] at h
    cases hboot : bootSector M i d with
    | inl _ =>
      rw [hboot] at h
      cases h
      decide
    | inr bpb =>
      rw [hboot] at h
      dsimp only at h
      split_ifs at h
      · cases h
        decide
      · cases h
        decide
      · split at h
        · cases h
        · cases h
          decide
        · split_ifs at h
          · cases h
            decide
          · cases h

theorem fopenLookup_neg {path modeStr : CString} {code : ℤ}
    (h : fopenLookup M path modeStr d = .ok (.inl code)) : code < 0 := by
  unfold fopenLookup at h
  split at h
  · cases h
    decide
  · exact lookupParts_neg h

/-- `fopen` answers a negative code and changes no entry, or it fills a free slot. -/
structure OpenPost (M : Machine H D) (d : D) (s : Kernel H D) (out : FsOut) (t : Kernel H D) :
    Prop where
  state : FsState M d t
  answer : out.result < 0 ∨ ∃ slot < maxFileDescriptors, out.result = slot + 1 ∧
    s.fs.fileDescriptors slot = 0 ∧ t.fs.fileDescriptors slot ≠ 0
  others : ∀ fd, out.result ≠ fd → t.entry fd = s.entry fd

/-- **`fopen`** opens a free slot and leaves the other entries alone. -/
theorem fsStep_fopen_wp (hF : M.ata.Fixed) (hS : FsState M d s) (path modeStr : CString) :
    wp (FsStop (.fopen path modeStr)) (fun s => fsStep M s (.fopen path modeStr))
      (OpenPost M d s) s := by
  change wp _ (_ <$> fopen M path modeStr) _ s
  rw [wp_map]
  refine fopen_wp (E := FsStop (.fopen path modeStr)) (fun e he => Or.inl he) hS.arena hS.inv
    (fun i bpb h => by rw [hS.drives] at h; exact h) path modeStr
    (fun hlong => Or.inr (Or.inl ⟨rfl, hlong⟩)) fun res t hpost => ?_
  obtain ⟨hIt, own, new, hgrow, -, hout⟩ := hpost
  have hSt : FsState M d t := ⟨hgrow.arena, hIt, (hgrow.drives hF).trans hS.drives⟩
  rw [hS.drives] at hout
  unfold OpenOutcome at hout
  cases hlookup : fopenLookup M path modeStr d with
  | error e =>
    rw [hlookup] at hout
    exact hout.elim
  | ok r =>
    rw [hlookup] at hout
    cases r with
    | inl code =>
      obtain ⟨rfl, -, hsame⟩ := hout
      exact ⟨hSt, Or.inl (fopenLookup_neg hlookup), fun fd _ => Kernel.entry_congr hsame.files fd⟩
    | inr x =>
      obtain ⟨i, item⟩ := x
      dsimp only at hout
      cases hfree : freeSlot s.fs with
      | none =>
        rw [hfree] at hout
        obtain ⟨rfl, -, hsame⟩ := hout
        exact ⟨hSt, Or.inl (by decide), fun fd _ => Kernel.entry_congr hsame.files fd⟩
      | some slot =>
        rw [hfree] at hout
        obtain ⟨rfl, ⟨p, q, -, hp, hslots, -⟩, hfiles⟩ := hout
        obtain ⟨hlt, hzero⟩ := freeSlot_spec hfree
        refine ⟨hSt, Or.inr ⟨slot, hlt, rfl, hzero, ?_⟩, fun fd hfd => ?_⟩
        · rw [hslots, Function.update_self]
          exact hp
        · exact (Kernel.entry_update (fdSlot_of_slot hlt) hfiles).2 fd (Ne.symm hfd)

/-- **`fs_list`** leaves all entries alone. -/
theorem fsStep_fsList_wp (hF : M.ata.Fixed) (hS : FsState M d s) (path : CString) :
    wp (FsStop (.fsList path)) (fun s => fsStep M s (.fsList path))
      (fun _ t => FsState M d t ∧ ∀ fd, t.entry fd = s.entry fd) s := by
  change wp _ (_ <$> fsList M path) _ s
  rw [wp_map]
  refine fsList_wp (E := FsStop (.fsList path)) (fun e he => Or.inl he) hS.arena hS.inv
    (fun i bpb h => by rw [hS.drives] at h; exact h) path
    (fun hlong => Or.inr (Or.inl ⟨rfl, hlong⟩)) fun res text t hpost => ?_
  obtain ⟨hIt, own, new, hgrow, -, -, -, hsame⟩ := hpost
  exact ⟨⟨hgrow.arena, hIt, (hgrow.drives hF).trans hS.drives⟩,
    fun fd => Kernel.entry_congr hsame.files fd⟩

theorem entryStep_stop {e : Option (ℕ × FatFileDescriptor)} {c : FsCall} {x : Stop}
    (h : entryStep M d e c = .error x) : FsStop c x := by
  cases e with
  | none => cases h
  | some r =>
    obtain ⟨i, f⟩ := r
    cases c with
    | fread size nmemb fd =>
      refine Or.inr (Or.inr ?_)
      unfold entryStep at h
      dsimp only at h
      cases hr : fat16Read M.ata (diskBoot M d i) size.toNat nmemb.toNat f ⟨0, i⟩ d with
      | ok r =>
        rw [hr] at h
        cases h
      | error e' =>
        rw [hr] at h
        cases h
        obtain ⟨hdiv, hsize⟩ := fat16Read_error hr
        exact ⟨hdiv, UInt32.toNat_inj.mp hsize⟩
    | _ => cases h

/-- **The step lemma.** A call keeps the state between calls, or stops. -/
theorem fsStep_wp (hF : M.ata.Fixed) (hS : FsState M d s) (c : FsCall) :
    wp (FsStop c) (fun s => fsStep M s c) (fun _ t => FsState M d t) s := by
  cases hc : c.fd? with
  | some fd =>
    have h := fsStep_fd_wp hF hS hc
    unfold wp at h ⊢
    dsimp only at h ⊢
    cases hr : fsStep M s c with
    | error e =>
      rw [hr] at h
      exact entryStep_stop h
    | ok r =>
      rw [hr] at h
      exact h.state
  | none =>
    cases c with
    | fopen path modeStr => exact (fsStep_fopen_wp hF hS path modeStr).mono fun _ _ h => h.state
    | fsList path => exact (fsStep_fsList_wp hF hS path).mono fun _ _ h => h.1
    | _ => cases hc

end Steps

/-! ### Runs -/

/-- The call works on the descriptor `fd`. -/
def FsCall.On (fd : ℤ) (c : FsCall) : Prop := c.fd? = some fd

instance (fd : ℤ) : DecidablePred (FsCall.On fd) := fun c =>
  inferInstanceAs (Decidable (c.fd? = some fd))

/-- The call is not an `fopen` that answers `fd`. -/
def NotOpened (M : Machine H D) (fd : ℤ) (s : Kernel H D) (c : FsCall) : Prop :=
  ∀ path modeStr out t, c = .fopen path modeStr → fsStep M s c = .ok (out, t) → out.result ≠ fd

/-- The descriptor table of the state `s`, in all runs of calls from it. -/
structure Isolated (M : Machine H D) (s : Kernel H D) : Prop where
  /-- `fopen` answers a negative code or a descriptor that was not open and is open now. -/
  opens : ∀ path modeStr out t, fsStep M s (.fopen path modeStr) = .ok (out, t) →
    out.result < 0 ∨ ∃ slot : ℕ, slot < 512 ∧ out.result = slot + 1 ∧
      s.fs.fileDescriptors slot = 0 ∧ t.fs.fileDescriptors slot ≠ 0
  /-- As long as no `fopen` answers `fd` again, the calls on `fd` answer as if there were no
  others. -/
  own : ∀ fd calls outs t, runList (fsStep M) s calls = .ok (outs, t) →
    Meets (fsStep M) (NotOpened M fd) s calls →
    ∃ u, runList (fsStep M) s (calls.filter (FsCall.On fd)) =
      .ok (ownOutputs (FsCall.On fd) calls outs, u)
  /-- After `fclose` every call on the descriptor answers `-1`, until `fopen` answers it again. -/
  closed : ∀ fd out t calls, fsStep M s (.fclose fd) = .ok (out, t) →
    Meets (fsStep M) (NotOpened M fd.toInt) t calls →
    Meets (fsStep M) (fun s c => c.On fd.toInt →
      ∃ u, fsStep M s c = .ok (FsOut.ofResult (-1), u)) t calls
  /-- A run stops for no other reason than those of `FsStop`, at one of its calls. -/
  stops : ∀ calls e, runList (fsStep M) s calls = .error e → ∃ c ∈ calls, FsStop c e

section Runs

variable {M : Machine H D} {d : D} {s : Kernel H D}

/-- The entry of `fd` is what the calls on `fd` see. -/
theorem fsStep_own (hF : M.ata.Fixed) {fd : ℤ} (s : Kernel H D) (c : FsCall) (hS : FsState M d s)
    (hc : c.On fd) :
    (∃ e, fsStep M s c = .error e ∧ entryStep M d (s.entry fd) c = .error e) ∨
      ∃ out t, fsStep M s c = .ok (out, t) ∧ entryStep M d (s.entry fd) c = .ok (out, t.entry fd) ∧
        FsState M d t := by
  have h := fsStep_fd_wp hF hS hc
  unfold wp at h
  dsimp only at h
  cases hr : fsStep M s c with
  | error e =>
    rw [hr] at h
    exact Or.inl ⟨e, rfl, h⟩
  | ok r =>
    obtain ⟨out, t⟩ := r
    rw [hr] at h
    exact Or.inr ⟨out, t, rfl, h.answer, h.state⟩

/-- No other call changes it, unless it opens `fd`. -/
theorem fsStep_other (hF : M.ata.Fixed) {fd : ℤ} (s : Kernel H D) (c : FsCall) (out : FsOut)
    (t : Kernel H D) (hS : FsState M d s) (hc : ¬ c.On fd) (hopen : NotOpened M fd s c)
    (hr : fsStep M s c = .ok (out, t)) : FsState M d t ∧ t.entry fd = s.entry fd := by
  cases hfd : c.fd? with
  | some fd' =>
    have h := (fsStep_fd_wp hF hS hfd).ok hr
    exact ⟨h.state, h.others fd fun heq => hc (by rw [heq]; exact hfd)⟩
  | none =>
    cases c with
    | fopen path modeStr =>
      have h := (fsStep_fopen_wp hF hS path modeStr).ok hr
      exact ⟨h.state, h.others fd (hopen path modeStr out t rfl hr)⟩
    | fsList path =>
      have h := (fsStep_fsList_wp hF hS path).ok hr
      exact ⟨h.1, h.2 fd⟩
    | _ => cases hfd

/-- In every state between two calls the descriptors are isolated. -/
theorem FsState.isolated (hF : M.ata.Fixed) (hS : FsState M d s) : Isolated M s where
  opens path modeStr out t h := ((fsStep_fopen_wp hF hS path modeStr).ok h).answer
  own fd calls outs t hr hm := runList_filter (fsStep_own hF) (fsStep_other hF) hS hm hr
  closed fd out t calls hclose hm := by
    have hpost := (fsStep_fd_wp hF hS (c := .fclose fd) rfl).ok hclose
    have hnone : t.entry fd.toInt = none :=
      entryStep_fclose hpost.answer
    refine @meets_of_invariant _ _ _ _ _ _ (fun s => FsState M d s ∧ s.entry fd.toInt = none) _
      ?_ ?_ _ _ ⟨hpost.state, hnone⟩ hm
    · intro s c out t ⟨hS, he⟩ hopen hr
      by_cases hc : c.On fd.toInt
      · have h := (fsStep_fd_wp hF hS hc).ok hr
        exact ⟨h.state, (entryStep_closed he h.answer).2⟩
      · obtain ⟨hSt, het⟩ := fsStep_other hF s c out t hS hc hopen hr
        exact ⟨hSt, het.trans he⟩
    · intro s c ⟨hS, he⟩ _ hc
      rcases fsStep_own hF s c hS hc with ⟨e, -, herr⟩ | ⟨out, t, hr, hans, -⟩
      · rw [he] at herr
        cases herr
      · rw [(entryStep_closed he hans).1] at hr
        exact ⟨t, hr⟩
  stops calls e h := by
    refine @runList_stops _ _ _ _ _ (FsState M d) _ (fun s c hS => ?_) _ _ _ hS h
    have hstep := fsStep_wp hF hS c
    unfold wp at hstep
    dsimp only at hstep
    cases hr : fsStep M s c with
    | error e =>
      rw [hr] at hstep
      exact Or.inl ⟨e, rfl, hstep⟩
    | ok r =>
      rw [hr] at hstep
      exact Or.inr ⟨r.1, r.2, rfl, hstep⟩

/-- **Open files are isolated.** On drives with fixed contents, after every run of calls. -/
theorem fs_isolated (hF : M.ata.Fixed) (h : H) (d : D) (calls : List FsCall) (outs : List FsOut)
    (s : Kernel H D) (hr : runList (fsStep M) (Kernel.boot h d) calls = .ok (outs, s)) :
    Isolated M s := by
  have hS : FsState M d s := by
    refine @runList_invariant _ _ _ _ _ _ (FsState M d) (fun s c out t hS _ hstep => ?_)
      _ _ _ _ (FsState.boot M h d) (meets_true _ calls) hr
    exact (fsStep_wp hF hS c).ok hstep
  exact hS.isolated hF

end Runs

/-- The kernel with a volume that holds one file, `A`, on both drives. -/
def singleFileMachine (file : List UInt8) : Machine KHeap Unit where
  heap := kheap
  ata := imageAta (singleFileImage file)
  imageEnd := 0x10000
  fuel := 65536

/-- The kernel after opening `0:/A` and `0:/a`, reading from both and closing the second. -/
theorem fs_isolated_run :
    let M := singleFileMachine (slice UInt8.ofNat 0 600)
    ∃ s, runList (fsStep M) (Kernel.boot (KHeap.init 0x10000) ())
        [.fopen [0x30, 0x3A, 0x2F, 0x41] [0x72], .fopen [0x30, 0x3A, 0x2F, 0x61] [0x72],
          .fread 1 3 1, .fread 1 2 2, .fclose 2, .ftell 1] =
      .ok ([⟨1, [], none, []⟩, ⟨2, [], none, []⟩, ⟨3, [0, 1, 2], none, []⟩,
        ⟨2, [0, 1], none, []⟩, ⟨0, [], none, []⟩, ⟨3, [], none, []⟩], s) ∧ Isolated M s := by
  intro M
  have houts : ((runList (fsStep M) (Kernel.boot (KHeap.init 0x10000) ())
      [.fopen [0x30, 0x3A, 0x2F, 0x41] [0x72], .fopen [0x30, 0x3A, 0x2F, 0x61] [0x72],
        .fread 1 3 1, .fread 1 2 2, .fclose 2, .ftell 1]).toOption.map Prod.fst) =
      some [⟨1, [], none, []⟩, ⟨2, [], none, []⟩, ⟨3, [0, 1, 2], none, []⟩,
        ⟨2, [0, 1], none, []⟩, ⟨0, [], none, []⟩, ⟨3, [], none, []⟩] := by decide +kernel
  cases hr : runList (fsStep M) (Kernel.boot (KHeap.init 0x10000) ())
      [.fopen [0x30, 0x3A, 0x2F, 0x41] [0x72], .fopen [0x30, 0x3A, 0x2F, 0x61] [0x72],
        .fread 1 3 1, .fread 1 2 2, .fclose 2, .ftell 1] with
  | error e =>
    rw [hr] at houts
    cases houts
  | ok r =>
    obtain ⟨outs, s⟩ := r
    rw [hr] at houts
    cases houts
    exact ⟨s, rfl, fs_isolated (fun _ _ _ => rfl) _ _ _ _ s hr⟩

end VibeKernel
