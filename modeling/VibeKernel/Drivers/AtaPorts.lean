import VibeKernel.Drivers.StreamSlices

/-!
# The drives behind their ports

`ata_read_sector` of `src/drivers/ata.c`, down to `src/drivers/ports.c`. The ports are a parameter,
and so is what is behind them: an `AtaChannel` says what the two drives of the primary channel make
of the accesses, in the terms of the PIO protocol. A command keeps the channel busy for some reads
of the status register, and then the data may still be late; how long is up to the drives, and a
command may also end with an error.

`ataReadSector_iff` says exactly when a read succeeds within the time that the driver waits for it,
and that it then gives the sector and leaves the channel idle. For drives that always answer in time
the driver is an `Ata` (`AtaChannel.ata`), so that all that is proved about streams and files on an
`Ata` holds for the driver and the channel.
-/

namespace VibeKernel

open Verif

variable {S : Type}

/-! ### The driver -/

/-- `ports.c`: the ports of the machine, over the state of what is behind them. -/
structure IoPorts (S : Type) where
  portByteIn : ℕ → S → UInt8 × S
  portByteOut : ℕ → UInt8 → S → S
  portWordIn : ℕ → S → UInt16 × S

/-- `ATA_PRIMARY_DATA`. -/
def ataPrimaryData : ℕ := 0x1F0

/-- `ATA_PRIMARY_COMMAND`. -/
def ataPrimaryCommand : ℕ := 0x1F7

/-- `ATA_PRIMARY_STATUS`. -/
def ataPrimaryStatus : ℕ := 0x1F7

/-- `ATA_CMD_READ_PIO`. -/
def ataCmdReadPio : UInt8 := 0x20

/-- `ATA_STATUS_BSY`. -/
def ataStatusBsy : UInt8 := 0x80

/-- `ATA_STATUS_DRQ`. -/
def ataStatusDrq : UInt8 := 0x08

/-- `ATA_STATUS_ERR`. -/
def ataStatusErr : UInt8 := 0x01

/-- The registers that a command is written with. -/
inductive TaskReg
  | secCount
  | lbaLow
  | lbaMid
  | lbaHigh
  | driveSel
  deriving DecidableEq, Repr

/-- `ATA_PRIMARY_SEC_COUNT` and so on. -/
def TaskReg.port : TaskReg → ℕ
  | .secCount => 0x1F2
  | .lbaLow => 0x1F3
  | .lbaMid => 0x1F4
  | .lbaHigh => 0x1F5
  | .driveSel => 0x1F6

namespace IoPorts

variable (P : IoPorts S)

/-- `ata_get_status`. -/
def ataGetStatus (s : S) : UInt8 × S := P.portByteIn ataPrimaryStatus s

/-- `ata_io_wait`. -/
def ataIoWait (s : S) : S :=
  let s := (P.ataGetStatus s).2
  let s := (P.ataGetStatus s).2
  let s := (P.ataGetStatus s).2
  (P.ataGetStatus s).2

/-- `ata_wait_for`. -/
def ataWaitFor (mask value : UInt8) : ℕ → S → ℤ × S
  | 0, s => (-2, s)
  | timeout + 1, s =>
    let status := P.ataGetStatus s
    if status.1 &&& mask = value then (0, status.2)
    else if status.1 &&& ataStatusErr ≠ 0 then (-1, status.2)
    else ataWaitFor mask value timeout (P.ataIoWait status.2)

/-- `ata_wait_bsy`, for at most `fuel` reads of the status. -/
def ataWaitBsy : ℕ → S → Option S
  | 0, _ => none
  | fuel + 1, s =>
    let status := P.ataGetStatus s
    if status.1 &&& ataStatusBsy ≠ 0 then ataWaitBsy fuel status.2 else some status.2

/-- `ata_read_sector`: the registers are written. -/
def ataAddress (drive lba : ℕ) (s : S) : S :=
  let driveBit : UInt8 := if drive = 0 then 0x00 else 0x10
  let select := (0xE0 : UInt8) ||| driveBit ||| (UInt8.ofNat (lba >>> 24) &&& 0x0F)
  let s := P.portByteOut TaskReg.driveSel.port select s
  let s := P.portByteOut TaskReg.secCount.port 1 s
  let s := P.portByteOut TaskReg.lbaLow.port (UInt8.ofNat lba) s
  let s := P.portByteOut TaskReg.lbaMid.port (UInt8.ofNat (lba >>> 8)) s
  P.portByteOut TaskReg.lbaHigh.port (UInt8.ofNat (lba >>> 16)) s

/-- `ata_read_sector`: the command is written. -/
def ataCommand (drive lba : ℕ) (s : S) : S :=
  P.portByteOut ataPrimaryCommand ataCmdReadPio (P.ataAddress drive lba s)

/-- `ata_read_sector`: the loop that stores the words. -/
def ataReadWords : ℕ → S → List UInt16 × S
  | 0, s => ([], s)
  | n + 1, s =>
    let word := P.portWordIn ataPrimaryData s
    let rest := ataReadWords n word.2
    (word.1 :: rest.1, rest.2)

/-- `ata_read_sector` from the command on: the result and the words that are stored. -/
def ataReadSectorFrom (s : S) : (ℤ × List UInt16) × S :=
  let busy := P.ataWaitFor ataStatusBsy 0 10000 (P.ataIoWait s)
  if busy.1 < 0 then ((-1, []), busy.2)
  else
    let data := P.ataWaitFor ataStatusDrq ataStatusDrq 10000 busy.2
    if data.1 < 0 then ((-2, []), data.2)
    else
      let words := P.ataReadWords 256 data.2
      ((0, words.1), words.2)

/-- `ata_read_sector`, `none` if it is still in `ata_wait_bsy` after `fuel` reads of the status. -/
def ataReadSector (fuel drive lba : ℕ) (s : S) : Option ((ℤ × List UInt16) × S) :=
  (P.ataWaitBsy fuel s).map fun s => P.ataReadSectorFrom (P.ataCommand drive lba s)

/-! ### Reads of the status -/

/-- The state after some reads of the status. -/
def afterReads (n : ℕ) (s : S) : S := (fun s => (P.ataGetStatus s).2)^[n] s

/-- The status after some reads of it. -/
def statusAfter (n : ℕ) (s : S) : UInt8 := (P.ataGetStatus (P.afterReads n s)).1

variable {P}

theorem afterReads_add (m n : ℕ) (s : S) :
    P.afterReads n (P.afterReads m s) = P.afterReads (m + n) s := by
  unfold afterReads
  rw [Nat.add_comm, Function.iterate_add_apply]

theorem statusAfter_add (m n : ℕ) (s : S) :
    P.statusAfter n (P.afterReads m s) = P.statusAfter (m + n) s := by
  unfold statusAfter
  rw [afterReads_add]

/-- One round of `ata_wait_for` reads the status five times. -/
theorem ataIoWait_status (s : S) : P.ataIoWait (P.ataGetStatus s).2 = P.afterReads 5 s := rfl

/-- The status is not the one `ata_wait_for` waits for, and no error. -/
def KeepsWaiting (mask value status : UInt8) : Prop :=
  status &&& mask ≠ value ∧ status &&& ataStatusErr = 0

variable {mask value : UInt8}

theorem ataWaitFor_wait {n : ℕ} {s : S} (h : KeepsWaiting mask value (P.statusAfter 0 s)) :
    P.ataWaitFor mask value (n + 1) s = P.ataWaitFor mask value n (P.afterReads 5 s) := by
  obtain ⟨hmask, herr⟩ := h
  change (P.ataGetStatus s).1 &&& mask ≠ value at hmask
  change (P.ataGetStatus s).1 &&& ataStatusErr = 0 at herr
  rw [ataWaitFor]
  rw [if_neg hmask, if_neg (not_not.mpr herr), ataIoWait_status]

/-- Rounds of waiting lead to the round in which something happens. -/
theorem ataWaitFor_rounds : ∀ {k n : ℕ} {s : S}, k ≤ n →
    (∀ i < k, KeepsWaiting mask value (P.statusAfter (5 * i) s)) →
    P.ataWaitFor mask value n s = P.ataWaitFor mask value (n - k) (P.afterReads (5 * k) s)
  | 0, _, _, _, _ => rfl
  | k + 1, n, s, hk, hwait => by
    obtain ⟨n, rfl⟩ : ∃ m, n = m + 1 := ⟨n - 1, by omega⟩
    rw [ataWaitFor_wait (hwait 0 (Nat.succ_pos k)), Nat.add_sub_add_right]
    have hrest := @ataWaitFor_rounds k n (P.afterReads 5 s) (by omega) fun i hi => by
      have hnext := hwait (i + 1) (by omega)
      rwa [Nat.mul_succ, Nat.add_comm, ← statusAfter_add] at hnext
    rw [hrest, afterReads_add, Nat.mul_succ, Nat.add_comm]

/-- **`ata_wait_for` succeeds.** -/
theorem ataWaitFor_ok {k n : ℕ} {s : S} (hk : k < n)
    (hwait : ∀ i < k, KeepsWaiting mask value (P.statusAfter (5 * i) s))
    (hok : P.statusAfter (5 * k) s &&& mask = value) :
    P.ataWaitFor mask value n s = (0, P.afterReads (5 * k + 1) s) := by
  rw [ataWaitFor_rounds hk.le hwait]
  obtain ⟨m, hm⟩ : ∃ m, n - k = m + 1 := ⟨n - k - 1, by omega⟩
  rw [hm, ataWaitFor]
  rw [if_pos (show (P.ataGetStatus (P.afterReads (5 * k) s)).1 &&& mask = value from hok),
    ← afterReads_add]
  rfl

/-- **`ata_wait_for` finds an error.** -/
theorem ataWaitFor_err {k n : ℕ} {s : S} (hk : k < n)
    (hwait : ∀ i < k, KeepsWaiting mask value (P.statusAfter (5 * i) s))
    (hmask : P.statusAfter (5 * k) s &&& mask ≠ value)
    (herr : P.statusAfter (5 * k) s &&& ataStatusErr ≠ 0) :
    P.ataWaitFor mask value n s = (-1, P.afterReads (5 * k + 1) s) := by
  rw [ataWaitFor_rounds hk.le hwait]
  obtain ⟨m, hm⟩ : ∃ m, n - k = m + 1 := ⟨n - k - 1, by omega⟩
  rw [hm, ataWaitFor]
  rw [if_neg (show (P.ataGetStatus (P.afterReads (5 * k) s)).1 &&& mask ≠ value from hmask),
    if_pos (show (P.ataGetStatus (P.afterReads (5 * k) s)).1 &&& ataStatusErr ≠ 0 from herr),
    ← afterReads_add]
  rfl

/-- **`ata_wait_for` runs out of time.** -/
theorem ataWaitFor_timeout {n : ℕ} {s : S}
    (hwait : ∀ i < n, KeepsWaiting mask value (P.statusAfter (5 * i) s)) :
    P.ataWaitFor mask value n s = (-2, P.afterReads (5 * n) s) := by
  rw [ataWaitFor_rounds (le_refl n) hwait, Nat.sub_self]
  rfl

end IoPorts

/-! ### The channel -/

/-- The registers that a command has been written with. -/
abbrev TaskFile := TaskReg → UInt8

namespace TaskFile

/-- The selected drive. -/
def drive (f : TaskFile) : Bool := f .driveSel &&& 0x10 ≠ 0

/-- The registers hold a sector number. -/
def IsLba (f : TaskFile) : Prop := f .driveSel &&& 0x40 ≠ 0

/-- The sector number of 28 bits. -/
def number (f : TaskFile) : ℕ :=
  (f .driveSel &&& 0x0F).toNat * 16777216 + (f .lbaHigh).toNat * 65536 + (f .lbaMid).toNat * 256 +
    (f .lbaLow).toNat

end TaskFile

/-- What the channel is doing: nothing, or it executes a command that reads a sector. It is busy for
the next `busy` reads of the status, after that the data are not there for `late` reads, and the
answer are the words that have not been read yet, or an error. -/
inductive AtaPhase
  | ready
  | command (busy late : ℕ) (answer : Option (List UInt16))

namespace AtaPhase

/-- The status is read. -/
def tick : AtaPhase → AtaPhase
  | .ready => .ready
  | .command (busy + 1) late answer => .command busy late answer
  | .command 0 late answer => .command 0 (late - 1) answer

/-- `BSY`. -/
def bsy : AtaPhase → Prop
  | .command (_ + 1) _ _ => True
  | _ => False

/-- `DRQ`. -/
def drq : AtaPhase → Prop
  | .command 0 0 (some _) => True
  | _ => False

/-- `ERR`. -/
def err : AtaPhase → Prop
  | .command 0 _ none => True
  | _ => False

/-- No command is executed, and no data are left. -/
def Idle : AtaPhase → Prop
  | .ready => True
  | .command 0 _ none => True
  | _ => False

theorem Idle.not_bsy {p : AtaPhase} (h : p.Idle) : ¬ p.bsy := by
  cases p with
  | ready => exact id
  | command busy late answer =>
    cases busy with
    | zero => exact id
    | succ busy => exact fun _ => h

theorem not_drq_error {late : ℕ} : ¬ (AtaPhase.command 0 late none).drq := by
  cases late with
  | zero => exact id
  | succ late => exact id

theorem Idle.tick {p : AtaPhase} (h : p.Idle) : p.tick.Idle := by
  cases p with
  | ready => exact h
  | command busy late answer =>
    cases busy with
    | zero =>
      cases answer with
      | none => trivial
      | some ws => exact h.elim
    | succ busy => exact h.elim

/-- Time runs for the busy drive first, and for the data then. -/
theorem tick_iterate (busy late : ℕ) (answer : Option (List UInt16)) (n : ℕ) :
    AtaPhase.tick^[n] (.command busy late answer) =
      .command (busy - n) (late - (n - busy)) answer := by
  induction n generalizing busy late with
  | zero => rw [Nat.sub_zero, Nat.zero_sub, Nat.sub_zero]; rfl
  | succ n ih =>
    rw [Function.iterate_succ_apply]
    cases busy with
    | zero =>
      change AtaPhase.tick^[n] (.command 0 (late - 1) answer) = _
      rw [ih]
      congr 1 <;> omega
    | succ busy =>
      change AtaPhase.tick^[n] (.command busy late answer) = _
      rw [ih]
      congr 1 <;> omega

end AtaPhase

/-- What the drives of a channel make of the accesses to its ports, in the terms of the PIO
protocol. Nothing is said about accesses that the protocol does not allow, about the error flag of a
channel that is not executing a command, or about how long a command takes. -/
structure AtaChannel (P : IoPorts S) where
  /-- The registers. -/
  file : S → TaskFile
  phase : S → AtaPhase
  /-- The words of a sector of a drive. -/
  disk : S → Bool → ℕ → List UInt16
  disk_length : ∀ s drive n, (disk s drive n).length = 256
  /-- Reading the status. -/
  status : ∀ s, phase (P.ataGetStatus s).2 = (phase s).tick ∧ disk (P.ataGetStatus s).2 = disk s ∧
    ((P.ataGetStatus s).1 &&& ataStatusBsy ≠ 0 ↔ (phase s).bsy) ∧
    ((P.ataGetStatus s).1 &&& ataStatusDrq = ataStatusDrq ↔ (phase s).drq)
  /-- The error flag, while a command is executed. A drive that is busy does not show it yet. -/
  error : ∀ s busy late answer, phase s = .command busy late answer →
    ((P.ataGetStatus s).1 &&& ataStatusErr ≠ 0 ↔ (phase s).err)
  /-- Writing a register of an idle channel. -/
  write : ∀ s (r : TaskReg) v, (phase s).Idle →
    file (P.portByteOut r.port v s) = Function.update (file s) r v ∧
      (phase (P.portByteOut r.port v s)).Idle ∧ disk (P.portByteOut r.port v s) = disk s
  /-- Writing the command to read one sector to an idle channel. -/
  read : ∀ s, (phase s).Idle → (file s).IsLba → file s .secCount = 1 →
    disk (P.portByteOut ataPrimaryCommand ataCmdReadPio s) = disk s ∧
      ∃ busy late answer, phase (P.portByteOut ataPrimaryCommand ataCmdReadPio s) =
          .command busy late answer ∧
        (answer = none ∨ answer = some (disk s (file s).drive (file s).number))
  /-- Reading a word of data. -/
  data : ∀ s w ws, phase s = .command 0 0 (some (w :: ws)) →
    (P.portWordIn ataPrimaryData s).1 = w ∧ disk (P.portWordIn ataPrimaryData s).2 = disk s ∧
      phase (P.portWordIn ataPrimaryData s).2 = if ws = [] then .ready else .command 0 0 (some ws)

namespace AtaChannel

variable {P : IoPorts S} {C : AtaChannel P} {s t : S} {drive lba busy late : ℕ}
  {answer : Option (List UInt16)}

theorem phase_afterReads (n : ℕ) (s : S) :
    C.phase (P.afterReads n s) = AtaPhase.tick^[n] (C.phase s) ∧
    C.disk (P.afterReads n s) = C.disk s := by
  induction n with
  | zero => exact ⟨rfl, rfl⟩
  | succ n ih =>
    obtain ⟨hphase, hdisk, -⟩ := C.status (P.afterReads n s)
    have hnext : P.afterReads (n + 1) s = (P.ataGetStatus (P.afterReads n s)).2 :=
      Function.iterate_succ_apply' _ _ _
    rw [hnext, hphase, hdisk, ih.1, ih.2, Function.iterate_succ_apply']
    exact ⟨rfl, rfl⟩

/-- The phase of a command after some reads of the status, and what the next one shows. -/
theorem phase_command (h : C.phase s = .command busy late answer) (n : ℕ) :
    C.phase (P.afterReads n s) = .command (busy - n) (late - (n - busy)) answer := by
  rw [(phase_afterReads n s).1, h, AtaPhase.tick_iterate]

/-- `ata_wait_bsy` of an idle channel. -/
theorem ataWaitBsy_idle (h : (C.phase s).Idle) (fuel : ℕ) :
    ∃ t, P.ataWaitBsy (fuel + 1) s = some t ∧ (C.phase t).Idle ∧ C.disk t = C.disk s := by
  obtain ⟨hphase, hdisk, hbsy, -⟩ := C.status s
  refine ⟨(P.ataGetStatus s).2, ?_, ?_, hdisk⟩
  · rw [IoPorts.ataWaitBsy]
    exact if_neg fun hb => h.not_bsy (hbsy.mp hb)
  · rw [hphase]
    exact h.tick

/-! ### Addressing a sector -/

/-- The bits of a byte. -/
theorem select_bits (x : UInt8) (bit : Bool) :
    let v := (0xE0 : UInt8) ||| (if bit then 0x10 else 0x00) ||| (x &&& 0x0F)
    v &&& 0x40 ≠ 0 ∧ (v &&& 0x10 ≠ 0 ↔ bit = true) ∧ (v &&& 0x0F).toNat = x.toNat % 16 := by
  have hall : ∀ n < 256, ∀ bit : Bool,
      let v := (0xE0 : UInt8) ||| (if bit then 0x10 else 0x00) ||| (UInt8.ofNat n &&& 0x0F)
      v &&& 0x40 ≠ 0 ∧ (v &&& 0x10 ≠ 0 ↔ bit = true) ∧ (v &&& 0x0F).toNat = n % 16 := by
    decide +kernel
  have h := hall x.toNat x.toNat_lt bit
  rwa [UInt8.ofNat_toNat] at h

/-- The registers address the sector, but for the upper four bits of its number. -/
theorem ataAddress_spec (h : (C.phase s).Idle) (drive lba : ℕ) :
    (C.phase (P.ataAddress drive lba s)).Idle ∧ C.disk (P.ataAddress drive lba s) = C.disk s ∧
      (C.file (P.ataAddress drive lba s)).IsLba ∧ C.file (P.ataAddress drive lba s) .secCount = 1 ∧
      (C.file (P.ataAddress drive lba s)).drive = decide (drive ≠ 0) ∧
      (C.file (P.ataAddress drive lba s)).number = lba % 268435456 := by
  set v := (0xE0 : UInt8) ||| (if drive = 0 then (0x00 : UInt8) else 0x10) |||
    (UInt8.ofNat (lba >>> 24) &&& 0x0F) with hv
  -- the five registers one after the other
  obtain ⟨hf₁, hp₁, hd₁⟩ := C.write s .driveSel v h
  set s₁ := P.portByteOut TaskReg.driveSel.port v s
  obtain ⟨hf₂, hp₂, hd₂⟩ := C.write s₁ .secCount 1 hp₁
  set s₂ := P.portByteOut TaskReg.secCount.port 1 s₁
  obtain ⟨hf₃, hp₃, hd₃⟩ := C.write s₂ .lbaLow (UInt8.ofNat lba) hp₂
  set s₃ := P.portByteOut TaskReg.lbaLow.port (UInt8.ofNat lba) s₂
  obtain ⟨hf₄, hp₄, hd₄⟩ := C.write s₃ .lbaMid (UInt8.ofNat (lba >>> 8)) hp₃
  set s₄ := P.portByteOut TaskReg.lbaMid.port (UInt8.ofNat (lba >>> 8)) s₃
  obtain ⟨hf₅, hp₅, hd₅⟩ := C.write s₄ .lbaHigh (UInt8.ofNat (lba >>> 16)) hp₄
  have haddress : P.ataAddress drive lba s = P.portByteOut TaskReg.lbaHigh.port
      (UInt8.ofNat (lba >>> 16)) s₄ := rfl
  rw [haddress]
  -- and what is in each of them in the end
  have hfile : C.file (P.portByteOut TaskReg.lbaHigh.port (UInt8.ofNat (lba >>> 16)) s₄) =
      Function.update (Function.update (Function.update (Function.update (Function.update (C.file s)
        .driveSel v) .secCount 1) .lbaLow (UInt8.ofNat lba)) .lbaMid (UInt8.ofNat (lba >>> 8)))
        .lbaHigh (UInt8.ofNat (lba >>> 16)) := by
    rw [hf₅, hf₄, hf₃, hf₂, hf₁]
  have hbits := select_bits (UInt8.ofNat (lba >>> 24)) (decide (drive ≠ 0))
  have hbit : (if decide (drive ≠ 0) = true then (0x10 : UInt8) else 0x00) =
      if drive = 0 then (0x00 : UInt8) else 0x10 := by
    by_cases h0 : drive = 0 <;> simp [h0]
  rw [hbit] at hbits
  obtain ⟨hlba, hdrive, hhead⟩ := hbits
  refine ⟨hp₅, by rw [hd₅, hd₄, hd₃, hd₂, hd₁], ?_, ?_, ?_, ?_⟩
  · unfold TaskFile.IsLba
    rw [hfile]
    exact hlba
  · rw [hfile]
    rfl
  · unfold TaskFile.drive
    rw [hfile]
    exact Bool.eq_iff_iff.mpr (decide_eq_true_iff.trans hdrive)
  · unfold TaskFile.number
    rw [hfile]
    change (v &&& 0x0F).toNat * 16777216 + (UInt8.ofNat (lba >>> 16)).toNat * 65536 +
      (UInt8.ofNat (lba >>> 8)).toNat * 256 + (UInt8.ofNat lba).toNat = _
    rw [hhead]
    simp only [UInt8.toNat_ofNat', Nat.shiftRight_eq_div_pow]
    omega

/-! ### Waiting -/

/-- The answer to a command comes while the driver waits for it. The driver looks at the status with
every fifth read, 10000 times while the channel is busy and 10000 times until there are data. -/
def InTime (busy late : ℕ) : Prop := busy < 50000 ∧ late ≤ 50000 - busy % 5

instance (busy late : ℕ) : Decidable (InTime busy late) := inferInstanceAs (Decidable (_ ∧ _))

/-- A busy channel shows `BSY` and no error. -/
theorem busy_waits (h : C.phase s = .command busy late answer) {n : ℕ} (hn : n < busy) :
    IoPorts.KeepsWaiting ataStatusBsy 0 (P.statusAfter n s) := by
  have hphase := phase_command h n
  obtain ⟨m, hm⟩ : ∃ m, busy - n = m + 1 := ⟨busy - n - 1, by omega⟩
  rw [hm] at hphase
  obtain ⟨-, -, hbsy, -⟩ := C.status (P.afterReads n s)
  have herr := C.error _ _ _ _ hphase
  rw [hphase] at hbsy herr
  exact ⟨hbsy.mpr trivial, not_not.mp fun hne => (herr.mp hne).elim⟩

/-- A channel that is not busy any more does not show `BSY`. -/
theorem not_busy (h : C.phase s = .command busy late answer) {n : ℕ} (hn : busy ≤ n) :
    P.statusAfter n s &&& ataStatusBsy = 0 := by
  have hphase := phase_command h n
  rw [Nat.sub_eq_zero_of_le hn] at hphase
  obtain ⟨-, -, hbsy, -⟩ := C.status (P.afterReads n s)
  rw [hphase] at hbsy
  exact not_not.mp fun hne => (hbsy.mp hne).elim

/-- A channel whose data are late shows neither data nor an error. -/
theorem late_waits {ws : List UInt16} (h : C.phase s = .command 0 late (some ws)) {n : ℕ}
    (hn : n < late) :
    IoPorts.KeepsWaiting ataStatusDrq ataStatusDrq (P.statusAfter n s) := by
  have hphase := phase_command h n
  obtain ⟨m, hm⟩ : ∃ m, late - (n - 0) = m + 1 := ⟨late - n - 1, by omega⟩
  rw [Nat.zero_sub, hm] at hphase
  obtain ⟨-, -, -, hdrq⟩ := C.status (P.afterReads n s)
  have herr := C.error _ _ _ _ hphase
  rw [hphase] at hdrq herr
  exact ⟨fun heq => hdrq.mp heq, not_not.mp fun hne => (herr.mp hne).elim⟩

/-- **Waiting while the channel is busy.** -/
theorem wait_busy (h : C.phase s = .command busy late answer) :
    (50000 ≤ busy → ∃ t, P.ataWaitFor ataStatusBsy 0 10000 (P.ataIoWait s) = (-2, t) ∧
      C.disk t = C.disk s) ∧
    (busy < 50000 → ∃ t, P.ataWaitFor ataStatusBsy 0 10000 (P.ataIoWait s) = (0, t) ∧
      C.disk t = C.disk s ∧ C.phase t = .command 0 (late - (5 - busy % 5)) answer) := by
  have hwait : P.ataIoWait s = P.afterReads 4 s := rfl
  have hround : ∀ i, 4 + 5 * i < busy →
      IoPorts.KeepsWaiting ataStatusBsy 0 (P.statusAfter (5 * i) (P.afterReads 4 s)) :=
        fun i hi => by
    rw [IoPorts.statusAfter_add]
    exact busy_waits h hi
  rw [hwait]
  constructor
  · intro hlong
    refine ⟨P.afterReads (5 * 10000) (P.afterReads 4 s),
      IoPorts.ataWaitFor_timeout fun i hi => hround i (by omega), ?_⟩
    rw [(phase_afterReads _ _).2, (phase_afterReads _ _).2]
  · intro hshort
    -- the first look at the status that finds it not busy
    have hok : P.statusAfter (5 * (busy / 5)) (P.afterReads 4 s) &&& ataStatusBsy = 0 := by
      rw [IoPorts.statusAfter_add]
      exact not_busy h (by omega)
    refine ⟨P.afterReads (5 * (busy / 5) + 1) (P.afterReads 4 s),
      IoPorts.ataWaitFor_ok (by omega) (fun i hi => hround i (by omega)) hok, ?_, ?_⟩
    · rw [(phase_afterReads _ _).2, (phase_afterReads _ _).2]
    · rw [IoPorts.afterReads_add, phase_command h]
      congr 1 <;> omega

/-- **Waiting for data.** -/
theorem wait_data {ws : List UInt16} (h : C.phase s = .command 0 late (some ws)) :
    (49995 < late → ∃ t, P.ataWaitFor ataStatusDrq ataStatusDrq 10000 s = (-2, t) ∧
      C.disk t = C.disk s) ∧
    (late ≤ 49995 → ∃ t, P.ataWaitFor ataStatusDrq ataStatusDrq 10000 s = (0, t) ∧
      C.disk t = C.disk s ∧ C.phase t = .command 0 0 (some ws)) := by
  constructor
  · intro hlong
    exact ⟨_, IoPorts.ataWaitFor_timeout fun i hi => late_waits h (by omega),
      (phase_afterReads _ _).2⟩
  · intro hshort
    have hdrq : P.statusAfter (5 * ((late + 4) / 5)) s &&& ataStatusDrq = ataStatusDrq := by
      have hphase := phase_command h (5 * ((late + 4) / 5))
      have hzero : late - (5 * ((late + 4) / 5) - 0) = 0 := by omega
      rw [Nat.zero_sub, hzero] at hphase
      obtain ⟨-, -, -, hdrq⟩ := C.status (P.afterReads (5 * ((late + 4) / 5)) s)
      rw [hphase] at hdrq
      exact hdrq.mpr trivial
    refine ⟨_, IoPorts.ataWaitFor_ok (by omega) (fun i hi => late_waits h (by omega)) hdrq,
      (phase_afterReads _ _).2, ?_⟩
    rw [phase_command h]
    congr 1 <;> omega

/-- **An error** is found at the first look for data. -/
theorem wait_error (h : C.phase s = .command 0 late none) :
    ∃ t, P.ataWaitFor ataStatusDrq ataStatusDrq 10000 s = (-1, t) ∧ C.disk t = C.disk s ∧
      (C.phase t).Idle := by
  obtain ⟨hphase, hdisk, -, hdrq⟩ := C.status s
  have herr := C.error _ _ _ _ h
  rw [h] at hdrq herr hphase
  refine ⟨P.afterReads 1 s, @IoPorts.ataWaitFor_err _ _ _ _ 0 _ _ (by decide) (fun i hi => absurd hi
    (Nat.not_lt_zero i)) (fun heq => AtaPhase.not_drq_error (hdrq.mp heq))
      (herr.mpr trivial), hdisk, ?_⟩
  change (C.phase (P.ataGetStatus s).2).Idle
  rw [hphase]
  trivial

/-- **The words** are read one after the other, and then the channel is ready. -/
theorem read_words : ∀ {ws : List UInt16} {s : S} {w : UInt16},
    C.phase s = .command 0 0 (some (w :: ws)) →
      ∃ t, P.ataReadWords (ws.length + 1) s = (w :: ws, t) ∧ C.disk t = C.disk s ∧
      C.phase t = .ready
  | [], s, w, h => by
    obtain ⟨hw, hdisk, hphase⟩ := C.data s w [] h
    refine ⟨(P.portWordIn ataPrimaryData s).2, ?_, hdisk, hphase.trans (if_pos rfl)⟩
    change ([(P.portWordIn ataPrimaryData s).1], _) = ([w], _)
    rw [hw]
    rfl
  | w' :: ws, s, w, h => by
    obtain ⟨hw, hdisk, hphase⟩ := C.data s w (w' :: ws) h
    rw [if_neg (List.cons_ne_nil w' ws)] at hphase
    obtain ⟨t, hrest, hdisk', hready⟩ := read_words hphase
    refine ⟨t, ?_, hdisk'.trans hdisk, hready⟩
    rw [List.length_cons, IoPorts.ataReadWords, hrest, hw]

/-- What `ata_read_sector` has done when it returns. -/
structure ReadOutcome (C : AtaChannel P) (s t : S) (busy late : ℕ) (answer : Option (List UInt16))
    (res : ℤ) (words : List UInt16) : Prop where
  succeeds : res = 0 ↔ answer ≠ none ∧ InTime busy late
  stored : res = 0 → answer = some words
  untouched : res ≠ 0 → words = []
  disk : C.disk t = C.disk s
  /-- Only a command that takes too long is left behind. -/
  idle : res = 0 ∨ (answer = none ∧ busy < 50000) → (C.phase t).Idle

/-- **From the command on.** -/
theorem ataReadSectorFrom_spec (h : C.phase s = .command busy late answer)
    (hlen : ∀ ws, answer = some ws → ws.length = 256) :
    ∃ res words t, P.ataReadSectorFrom s = ((res, words), t) ∧
      ReadOutcome C s t busy late answer res words := by
  -- a read that fails with nothing stored
  have hfails : ∀ {res : ℤ} {t : S}, res < 0 → C.disk t = C.disk s →
      ¬ (answer ≠ none ∧ InTime busy late) → (answer = none → busy < 50000 → (C.phase t).Idle) →
      ReadOutcome C s t busy late answer res [] := by
    intro res t hres hdisk hnot hidle
    refine ⟨iff_of_false (by omega) hnot, fun h0 => absurd h0 (by omega), fun _ => rfl, hdisk, ?_⟩
    rintro (h0 | ⟨hnone, hshort⟩)
    · exact absurd h0 (by omega)
    · exact hidle hnone hshort
  have htimeout : (-2 : ℤ) < 0 := by decide
  have herror : (-1 : ℤ) < 0 := by decide
  have hfine : ¬ (0 : ℤ) < 0 := by decide
  unfold IoPorts.ataReadSectorFrom
  by_cases hbusy : busy < 50000
  swap
  · obtain ⟨t, hwait, hdisk⟩ := (wait_busy h).1 (by omega)
    rw [hwait]
    exact ⟨-1, [], t, if_pos htimeout, hfails herror hdisk (fun hin => hbusy hin.2.1)
      fun _ hshort => absurd hshort hbusy⟩
  obtain ⟨t, hwait, hdisk, hphase⟩ := (wait_busy h).2 hbusy
  rw [hwait]
  dsimp only
  rw [if_neg hfine]
  cases answer with
  | none =>
    obtain ⟨u, hwait', hdisk', hidle⟩ := wait_error hphase
    rw [hwait']
    exact ⟨-2, [], u, if_pos herror, hfails htimeout (hdisk'.trans hdisk)
      (fun hin => hin.1 rfl) fun _ _ => hidle⟩
  | some ws =>
    by_cases hlate : late - (5 - busy % 5) ≤ 49995
    swap
    · obtain ⟨u, hdata, hdisk'⟩ := (wait_data hphase).1 (by omega)
      rw [hdata]
      refine ⟨-2, [], u, if_pos htimeout, hfails htimeout (hdisk'.trans hdisk) (fun hin => hlate ?_)
        fun hnone => nomatch hnone⟩
      have hin' := hin.2.2
      omega
    · obtain ⟨u, hdata, hdisk', hphase'⟩ := (wait_data hphase).2 hlate
      rw [hdata]
      dsimp only
      rw [if_neg hfine]
      have hlength := hlen ws rfl
      obtain ⟨w, ws', rfl⟩ : ∃ w ws', ws = w :: ws' := by
        cases ws with
        | nil => cases hlength
        | cons w ws' => exact ⟨w, ws', rfl⟩
      obtain ⟨v, hwords, hdisk'', hready⟩ := read_words hphase'
      rw [List.length_cons] at hlength
      rw [hlength] at hwords
      rw [hwords]
      refine ⟨0, w :: ws', v, rfl,
        ⟨iff_of_true rfl ⟨Option.some_ne_none _, hbusy, ?_⟩, fun _ => rfl,
        fun hne => absurd rfl hne, hdisk''.trans (hdisk'.trans hdisk), fun _ => ?_⟩⟩
      · omega
      · rw [hready]
        trivial

/-- **When a sector is read.** On an idle channel `ata_read_sector` returns. It returns `0` exactly
if the drive answers the command with the sector, and not too late; then the words stored are those
of the sector whose number is the lower 28 bits of `lba`. Otherwise nothing is stored. The disks are
unchanged, and the channel is idle again unless the drive has taken too long. -/
theorem ataReadSector_iff (h : (C.phase s).Idle) (fuel drive lba : ℕ) :
    ∃ s' busy late answer res words t, P.ataWaitBsy (fuel + 1) s = some s' ∧
      C.phase (P.ataCommand drive lba s') = .command busy late answer ∧
      P.ataReadSector (fuel + 1) drive lba s = some ((res, words), t) ∧
      (res = 0 ↔ answer ≠ none ∧ InTime busy late) ∧
      (res = 0 → words = C.disk s (decide (drive ≠ 0)) (lba % 268435456)) ∧ (res ≠ 0 → words = []) ∧
      C.disk t = C.disk s ∧ (res = 0 ∨ (answer = none ∧ busy < 50000) → (C.phase t).Idle) := by
  obtain ⟨s', hbsy, hidle, hdisk⟩ := ataWaitBsy_idle h fuel
  obtain ⟨hidle₂, hdisk₂, hlba, hcount, hdrive, hnumber⟩ := ataAddress_spec hidle drive lba
  obtain ⟨hdisk₃, busy, late, answer, hphase, hanswer⟩ := C.read _ hidle₂ hlba hcount
  rw [hdrive, hnumber, hdisk₂, hdisk] at hanswer
  have hlen : ∀ ws, answer = some ws → ws.length = 256 := by
    rintro ws rfl
    rw [Option.some.inj (hanswer.resolve_left (Option.some_ne_none ws))]
    exact C.disk_length _ _ _
  obtain ⟨res, words, t, hrun, hout⟩ := ataReadSectorFrom_spec hphase hlen
  refine ⟨s', busy, late, answer, res, words, t, hbsy, hphase, ?_, hout.succeeds, fun h0 => ?_,
    hout.untouched, ?_, hout.idle⟩
  · unfold IoPorts.ataReadSector
    rw [hbsy]
    exact congrArg some hrun
  · have hsome := hout.stored h0
    rw [hsome] at hanswer
    exact Option.some.inj (hanswer.resolve_left (Option.some_ne_none words))
  · rw [hout.disk]
    exact hdisk₃.trans (hdisk₂.trans hdisk)

/-! ### The driver as an `Ata` -/

/-- The drives always answer in time. -/
def Prompt (C : AtaChannel P) : Prop :=
  ∀ s drive lba busy late answer, (C.phase s).Idle →
    C.phase (P.ataCommand drive lba s) = .command busy late answer →
      busy < 50000 ∧ (answer ≠ none → InTime busy late)

/-- A channel that is idle, with these disks. -/
def IdleChannel (C : AtaChannel P) (disk : Bool → ℕ → List UInt16) : Type :=
  {s : S // (C.phase s).Idle ∧ C.disk s = disk}

/-- The driver uses the lower 28 bits of the sector number, and of the number of the drive only
whether it is zero. -/
theorem ataReadSector_address (P : IoPorts S) (fuel drive lba : ℕ) (s : S) :
    P.ataReadSector fuel (if drive = 0 then 0 else 1) (lba % 268435456) s =
      P.ataReadSector fuel drive lba s := by
  have hbit : (if (if drive = 0 then 0 else 1) = 0 then (0x00 : UInt8) else 0x10) =
      if drive = 0 then (0x00 : UInt8) else 0x10 := by
    by_cases h0 : drive = 0 <;> simp [h0]
  have hbyte : ∀ k, k ≤ 20 → UInt8.ofNat ((lba % 268435456) >>> k) = UInt8.ofNat (lba >>> k) := by
    intro k hk
    apply UInt8.toNat.inj
    rw [UInt8.toNat_ofNat', UInt8.toNat_ofNat', Nat.shiftRight_eq_div_pow,
      Nat.shiftRight_eq_div_pow]
    have hpow : (268435456 : ℕ) = 2 ^ k * (2 ^ 8 * 2 ^ (20 - k)) := by
      rw [← pow_add, ← pow_add]
      have hsum : k + (8 + (20 - k)) = 28 := by omega
      rw [hsum]
      norm_num
    rw [hpow, Nat.mod_mul_right_div_self, Nat.mod_mul_right_mod]
  have hlow : UInt8.ofNat (lba % 268435456) = UInt8.ofNat lba := hbyte 0 (by decide)
  have hhigh : UInt8.ofNat ((lba % 268435456) >>> 24) &&& (0x0F : UInt8) =
      UInt8.ofNat (lba >>> 24) &&& (0x0F : UInt8) := by
    have hmod : ∀ n, UInt8.ofNat (n % 16) &&& (0x0F : UInt8) =
        UInt8.ofNat n &&& (0x0F : UInt8) := by
      intro n
      apply UInt8.toNat.inj
      rw [UInt8.toNat_and, UInt8.toNat_and, UInt8.toNat_ofNat', UInt8.toNat_ofNat']
      change (n % 16 % 256) &&& (2 ^ 4 - 1) = (n % 256) &&& (2 ^ 4 - 1)
      rw [Nat.and_two_pow_sub_one_eq_mod, Nat.and_two_pow_sub_one_eq_mod]
      omega
    have hdiv : (lba % 268435456) >>> 24 = (lba >>> 24) % 16 := by
      rw [Nat.shiftRight_eq_div_pow, Nat.shiftRight_eq_div_pow]
      omega
    rw [hdiv, hmod]
  unfold IoPorts.ataReadSector IoPorts.ataCommand IoPorts.ataAddress
  rw [hbit, hhigh, hlow, hbyte 8 (by decide), hbyte 16 (by decide)]

/-- A prompt channel is idle again after each read. -/
theorem prompt_read (hC : C.Prompt) {disk : Bool → ℕ → List UInt16} (d : C.IdleChannel disk)
    (drive lba : ℕ) : ∃ r, P.ataReadSector 1 drive lba d.1 = some r ∧
      ((C.phase r.2).Idle ∧ C.disk r.2 = disk) ∧
      (r.1.1 = 0 → r.1.2 = disk (decide (drive ≠ 0)) (lba % 268435456)) := by
  obtain ⟨s, hidle, hdisk⟩ := d
  obtain ⟨s', busy, late, answer, res, words, t, hbsy, hphase, hrun, hiff, hwords, -,
      hkept, hafter⟩ :=
    ataReadSector_iff hidle 0 drive lba
  obtain ⟨s'', hbsy', hidle', -⟩ := ataWaitBsy_idle hidle 0
  obtain rfl := Option.some.inj (hbsy.symm.trans hbsy')
  have hprompt := hC s' drive lba busy late answer hidle' hphase
  refine ⟨((res, words), t), hrun, ⟨hafter ?_, hkept.trans hdisk⟩, fun h0 => ?_⟩
  · by_cases hnone : answer = none
    · exact Or.inr ⟨hnone, hprompt.1⟩
    · exact Or.inl (hiff.mpr ⟨hnone, hprompt.2 hnone⟩)
  · rw [← hdisk]
    exact hwords h0

/-- `(char*) buffer`: the bytes of the words, the low one first. -/
def sectorBytes (words : List UInt16) : Sector := fun i =>
  UInt8.ofNat ((words[i / 2]?.getD 0).toNat >>> (8 * (i % 2)))

/-- The driver of a prompt channel. -/
def ata (C : AtaChannel P) (hC : C.Prompt) (disk : Bool → ℕ → List UInt16) :
    Ata (C.IdleChannel disk) where
  readSector d drive lba :=
    have hsome : (P.ataReadSector 1 drive lba d.1).isSome := by
      obtain ⟨r, hr, -⟩ := prompt_read hC d drive lba
      rw [hr]
      rfl
    let r := (P.ataReadSector 1 drive lba d.1).get hsome
    (if r.1.1 = 0 then some (sectorBytes r.1.2) else none, ⟨r.2, by
      obtain ⟨r', hr', hidle, -⟩ := prompt_read hC d drive lba
      have heq : r = r' := Option.get_of_eq_some hsome hr'
      rw [heq]
      exact hidle⟩)

/-- The bytes of a disk. -/
def diskBytes (disk : ℕ → List UInt16) (a : ℕ) : UInt8 := sectorBytes (disk (a / 512)) (a % 512)

/-- **The driver refines the abstract drives.** On a prompt channel, `ata_read_sector` computes what
the abstract drives answer, and these hold the bytes of the disks. If in addition no command ends
with an error, every sector can be read. -/
theorem ata_refines (hC : C.Prompt) (disk : Bool → ℕ → List UInt16) (drive : ℕ) :
    (∀ (lba : ℕ) (d : C.IdleChannel disk), ∃ res words d',
      P.ataReadSector 1 drive lba d.1 = some ((res, words), d'.1) ∧
      VibeKernel.ataReadSector (C.ata hC disk) drive lba d =
        (if res = 0 then some (sectorBytes words) else none, d')) ∧
    (C.ata hC disk).Holds drive (diskBytes (disk (decide (drive ≠ 0)))) ∧
    ((∀ s drive lba busy late, (C.phase s).Idle →
        C.phase (P.ataCommand drive lba s) ≠ .command busy late none) →
      SectorsHold (C.ata hC disk) drive 268435456 (diskBytes (disk (decide (drive ≠ 0))))) := by
  have hstep : ∀ (lba : ℕ) (d : C.IdleChannel disk), ∃ res words d',
      P.ataReadSector 1 drive lba d.1 = some ((res, words), d'.1) ∧
      VibeKernel.ataReadSector (C.ata hC disk) drive lba d =
        (if res = 0 then some (sectorBytes words) else none, d') := by
    intro lba d
    obtain ⟨r, hr, hidle, -⟩ := prompt_read hC d drive lba
    refine ⟨r.1.1, r.1.2, ⟨r.2, hidle⟩, hr, ?_⟩
    unfold VibeKernel.ataReadSector ata
    dsimp only
    have hget : ∀ h,
        (P.ataReadSector 1 (if drive = 0 then 0 else 1) (lba % 268435456) d.1).get h = r := fun h =>
      Option.get_of_eq_some h ((ataReadSector_address P 1 drive lba d.1).trans hr)
    refine Prod.ext ?_ (Subtype.ext ?_)
    · dsimp only
      rw [hget]
    · exact congrArg Prod.snd (hget _)
  -- a sector that is read has the words of the disk
  have hbytes : ∀ {lba : ℕ} {d d' : C.IdleChannel disk} {res : ℤ} {words : List UInt16},
      lba < 268435456 → P.ataReadSector 1 drive lba d.1 = some ((res, words), d'.1) → res = 0 →
      ∀ i < 512, sectorBytes words i = diskBytes (disk (decide (drive ≠ 0))) (512 * lba + i) := by
    intro lba d d' res words hlba hrun h0 i hi
    obtain ⟨r, hr, -, hwords⟩ := prompt_read hC d drive lba
    cases hrun.symm.trans hr
    have hsector : words = disk (decide (drive ≠ 0)) (lba % 268435456) := hwords h0
    unfold diskBytes
    rw [hsector, Nat.mod_eq_of_lt hlba, Nat.mul_add_div (by norm_num), Nat.div_eq_of_lt hi,
      Nat.add_zero, Nat.mul_add_mod, Nat.mod_eq_of_lt hi]
  refine ⟨hstep, ?_, ?_⟩
  · intro d lba buffer d' hlba hread i hi
    obtain ⟨res, words, d'', hrun, hata⟩ := hstep lba d
    rw [hata] at hread
    obtain ⟨hbuffer, -⟩ := Prod.mk.inj hread
    split_ifs at hbuffer with h0
    rw [← Option.some.inj hbuffer]
    exact hbytes hlba hrun h0 i hi
  · intro hfaultless d lba hlba
    obtain ⟨res, words, d', hrun, hata⟩ := hstep lba d
    -- without errors the read succeeds
    obtain ⟨s', busy, late, answer, res', words', t, hbsy, hphase, hrun', hiff, -⟩ :=
      ataReadSector_iff d.2.1 0 drive lba
    cases hrun.symm.trans hrun'
    obtain ⟨s'', hbsy', hidle', -⟩ := ataWaitBsy_idle d.2.1 0
    obtain rfl := Option.some.inj (hbsy.symm.trans hbsy')
    have hsome : answer ≠ none := by
      rintro rfl
      exact hfaultless s' drive lba busy late hidle' hphase
    have h0 : res = 0 := hiff.mpr ⟨hsome, (hC s' drive lba busy late answer hidle' hphase).2 hsome⟩
    refine ⟨sectorBytes words, d', ?_, hbytes hlba hrun h0⟩
    rw [hata, if_pos h0]

end AtaChannel

/-! ### Drives to try it on -/

/-- Drives that are busy for three reads of the status and late for two. They cannot read sector 7,
and every other sector counts up from its number. -/
structure SteadyDrives where
  file : TaskFile
  phase : AtaPhase

namespace SteadyDrives

/-- The words of a sector. -/
def words (n : ℕ) : List UInt16 := (List.range 256).map fun i => UInt16.ofNat (n + i)

/-- The status register. -/
def status : AtaPhase → UInt8
  | .ready => 0x40
  | .command (_ + 1) _ _ => 0x80
  | .command 0 _ none => 0x41
  | .command 0 0 (some _) => 0x48
  | .command 0 (_ + 1) (some _) => 0x40

/-- The command is executed. -/
def start (d : SteadyDrives) : SteadyDrives :=
  { d with phase := .command 3 2 (if d.file.number = 7 then none else some (words d.file.number)) }

/-- A word is handed over. -/
def pop : AtaPhase → UInt16 × AtaPhase
  | .command 0 0 (some (w :: ws)) => (w, if ws = [] then .ready else .command 0 0 (some ws))
  | p => (0, p)

/-- The register at a port. -/
def regAt (port : ℕ) : Option TaskReg :=
  [TaskReg.secCount, .lbaLow, .lbaMid, .lbaHigh, .driveSel].find? fun r => r.port = port

/-- The ports. -/
def ports : IoPorts SteadyDrives where
  portByteIn port d :=
    if port = ataPrimaryStatus then (status d.phase, { d with phase := d.phase.tick }) else (0, d)
  portByteOut port v d :=
    if port = ataPrimaryCommand then (if v = ataCmdReadPio then d.start else d)
    else { d with file := ((regAt port).map fun r => Function.update d.file r v).getD d.file }
  portWordIn _ d := ((pop d.phase).1, { d with phase := (pop d.phase).2 })

/-- The flags of the status. -/
theorem status_flags (p : AtaPhase) : (status p &&& ataStatusBsy ≠ 0 ↔ p.bsy) ∧
    (status p &&& ataStatusDrq = ataStatusDrq ↔ p.drq) ∧
    (p ≠ .ready → (status p &&& ataStatusErr ≠ 0 ↔ p.err)) := by
  cases p with
  | ready =>
    change ((0x40 : UInt8) &&& ataStatusBsy ≠ 0 ↔ False) ∧
      ((0x40 : UInt8) &&& ataStatusDrq = ataStatusDrq ↔ False) ∧ _
    exact ⟨by decide, by decide, fun h => absurd rfl h⟩
  | command busy late answer =>
    cases busy with
    | succ busy =>
      change ((0x80 : UInt8) &&& ataStatusBsy ≠ 0 ↔ True) ∧
        ((0x80 : UInt8) &&& ataStatusDrq = ataStatusDrq ↔ False) ∧
        (_ → ((0x80 : UInt8) &&& ataStatusErr ≠ 0 ↔ False))
      exact ⟨by decide, by decide, fun _ => by decide⟩
    | zero =>
      -- the data are there or late, and an error has no data
      cases answer with
      | none =>
        have hdrq : (AtaPhase.command 0 late none).drq ↔ False :=
          iff_false_intro AtaPhase.not_drq_error
        rw [hdrq]
        change ((0x41 : UInt8) &&& ataStatusBsy ≠ 0 ↔ False) ∧
          ((0x41 : UInt8) &&& ataStatusDrq = ataStatusDrq ↔ False) ∧
          (_ → ((0x41 : UInt8) &&& ataStatusErr ≠ 0 ↔ True))
        exact ⟨by decide, by decide, fun _ => by decide⟩
      | some ws =>
        cases late with
        | zero =>
          change ((0x48 : UInt8) &&& ataStatusBsy ≠ 0 ↔ False) ∧
            ((0x48 : UInt8) &&& ataStatusDrq = ataStatusDrq ↔ True) ∧
            (_ → ((0x48 : UInt8) &&& ataStatusErr ≠ 0 ↔ False))
          exact ⟨by decide, by decide, fun _ => by decide⟩
        | succ late =>
          change ((0x40 : UInt8) &&& ataStatusBsy ≠ 0 ↔ False) ∧
            ((0x40 : UInt8) &&& ataStatusDrq = ataStatusDrq ↔ False) ∧
            (_ → ((0x40 : UInt8) &&& ataStatusErr ≠ 0 ↔ False))
          exact ⟨by decide, by decide, fun _ => by decide⟩

/-- Each register is written through its port. -/
theorem write_reg (d : SteadyDrives) (r : TaskReg) (v : UInt8) :
    ports.portByteOut r.port v d = { d with file := Function.update d.file r v } := by
  cases r <;> rfl

/-- The channel. -/
def channel : AtaChannel ports where
  file := SteadyDrives.file
  phase := SteadyDrives.phase
  disk _ _ := words
  disk_length _ _ n := by simp [words]
  status d := ⟨rfl, rfl, (status_flags d.phase).1, (status_flags d.phase).2.1⟩
  error d _ _ _ h := (status_flags d.phase).2.2 (by rw [h]; exact AtaPhase.noConfusion)
  write d r v h := by
    rw [write_reg]
    exact ⟨rfl, h, rfl⟩
  read d _ _ _ := by
    refine ⟨rfl, 3, 2, _, rfl, ?_⟩
    split_ifs
    · exact Or.inl rfl
    · exact Or.inr rfl
  data d w ws h := by
    change (pop d.phase).1 = w ∧ _ ∧ (pop d.phase).2 = _
    rw [h]
    exact ⟨rfl, rfl, rfl⟩

/-- The drives when the machine is turned on. -/
def off : SteadyDrives := ⟨fun _ => 0, .ready⟩

/-- What a command starts. -/
theorem command_phase (d : SteadyDrives) (h : d.phase.Idle) (drive lba : ℕ) :
    channel.phase (ports.ataCommand drive lba d) = .command 3 2
      (if lba % 268435456 = 7 then none else some (words (lba % 268435456))) := by
  obtain ⟨-, -, -, -, -, hnumber⟩ := @AtaChannel.ataAddress_spec _ _ channel d h drive lba
  rw [← hnumber]
  rfl

/-- They always answer in time. -/
theorem prompt : channel.Prompt := by
  intro d drive lba busy late answer hidle hphase
  obtain ⟨rfl, rfl, -⟩ := AtaPhase.command.inj (hphase.symm.trans (command_phase d hidle drive lba))
  exact ⟨by norm_num, fun _ => by decide⟩

end SteadyDrives

/-- The second drive reads sector 5 and, being given more than 28 bits, sector 7 is an error. -/
theorem AtaChannel.ataReadSector_iff_steady :
    (∃ t, SteadyDrives.ports.ataReadSector 1 1 5 SteadyDrives.off =
      some ((0, SteadyDrives.words 5), t)) ∧
      ∃ res t, SteadyDrives.ports.ataReadSector 1 0 268435463 SteadyDrives.off =
        some ((res, []), t) ∧ res ≠ 0 ∧ t.phase.Idle := by
  constructor
  · obtain ⟨s', busy, late, answer, res, words, t, hbsy, hphase, hrun, hiff, hwords, -⟩ :=
      @AtaChannel.ataReadSector_iff _ _ SteadyDrives.channel SteadyDrives.off trivial 0 1 5
    obtain rfl := Option.some.inj hbsy
    rw [SteadyDrives.command_phase (SteadyDrives.ports.ataGetStatus SteadyDrives.off).2 trivial,
      if_neg (by decide)] at hphase
    obtain ⟨rfl, rfl, rfl⟩ := AtaPhase.command.inj hphase
    have h0 : res = 0 := hiff.mpr ⟨Option.some_ne_none _, by decide⟩
    refine ⟨t, ?_⟩
    rw [hrun, h0, hwords h0]
    rfl
  · obtain ⟨s', busy, late, answer, res, words, t, hbsy, hphase, hrun, hiff, -, hnone, -, hidle⟩ :=
      @AtaChannel.ataReadSector_iff _ _ SteadyDrives.channel SteadyDrives.off trivial 0 0 268435463
    obtain rfl := Option.some.inj hbsy
    rw [SteadyDrives.command_phase (SteadyDrives.ports.ataGetStatus SteadyDrives.off).2 trivial,
      if_pos (by decide)] at hphase
    obtain ⟨rfl, rfl, rfl⟩ := AtaPhase.command.inj hphase
    have hres : res ≠ 0 := fun h0 => (hiff.mp h0).1 rfl
    refine ⟨res, t, ?_, hres, hidle (Or.inr ⟨rfl, by decide⟩)⟩
    rw [hrun, hnone hres]

/-- The bytes of the disks can be read through the driver of the steady drives. -/
theorem AtaChannel.ata_refines_steady :
    (SteadyDrives.channel.ata SteadyDrives.prompt (fun _ => SteadyDrives.words)).Holds 1
      (AtaChannel.diskBytes SteadyDrives.words) :=
  (AtaChannel.ata_refines SteadyDrives.prompt (fun _ => SteadyDrives.words) 1).2.1

end VibeKernel
