import VibeKernel.Fs.Directory
import VibeKernel.Lib.Writes

/-!
# Short names

A directory entry has the name of its file in two padded fields. `fat16_get_full_relative_filename`
puts the name together in a buffer of 13 bytes, which `strncasecmp` compares with the name that is
looked for.

`nameWrites` are the writes to the buffer, in the order of the source. They stay in it, and leave
the name in it, with a `NUL` behind (`slice_nameWrites`). So the comparison of 13 characters is one
of whole names (`name_matches`).

Both fields are read up to their first space. This is what the padding calls for, but in the middle
of a name a space hides what is behind it: `shortNames_differ_iff` says which names are told apart.
-/

namespace VibeKernel

open Verif

/-! ### The buffer -/

/-- `fat16_to_proper_string`: the writes at `*out`, and where `*out` points to afterwards. -/
def properStringWrites : ℕ → List UInt8 → List (Write UInt8) × ℕ
  | out, [] => ([], out)
  | out, c :: cs =>
    if c = 0x00 ∨ c = 0x20 then ([], out)
    else
      let rest := properStringWrites (out + 1) cs
      (⟨out, [c]⟩ :: rest.1, rest.2)

/-- `fat16_get_full_relative_filename`, with a buffer of `maxLen` bytes at `out`. -/
def nameWrites (item : FatDirectoryItem) (out maxLen : ℕ) : List (Write UInt8) :=
  let base := properStringWrites out item.filename
  ⟨out, List.replicate maxLen 0⟩ :: base.1 ++
    if item.ext.headD 0 ≠ 0x00 ∧ item.ext.headD 0 ≠ 0x20 then
      ⟨base.2, [0x2E]⟩ :: (properStringWrites (base.2 + 1) item.ext).1
    else []

/-- The string in a buffer. -/
def bufferString (buffer : List UInt8) : CString := buffer.takeWhile fun c => decide (c ≠ 0x00)

/-- The name that is read from the two fields. -/
def shortName (base ext : List UInt8) : CString := if ext = [] then base else base ++ 0x2E :: ext

section Buffer

variable {field : List UInt8} {item : FatDirectoryItem} {out n : ℕ}

theorem fat16ToProperString_cons (c : UInt8) (cs : List UInt8) :
    fat16ToProperString (c :: cs) =
      if c = 0x00 ∨ c = 0x20 then [] else c :: fat16ToProperString cs := by
  unfold fat16ToProperString
  rw [List.takeWhile_cons]
  by_cases hc : c = 0x00 ∨ c = 0x20
  · rw [if_pos hc, decide_eq_false (not_and_or.mpr (hc.imp not_not.mpr not_not.mpr))]
    rfl
  · rw [if_neg hc, decide_eq_true (not_or.mp hc), if_pos rfl]

/-- The bytes are written one behind the other. -/
theorem properStringWrites_spec : ∀ {field : List UInt8} {out : ℕ},
    (properStringWrites out field).2 = out + (fat16ToProperString field).length ∧
      ∀ f : ℕ → UInt8, applyWrites f (properStringWrites out field).1 =
        applyWrite f ⟨out, fat16ToProperString field⟩
  | [], out => ⟨rfl, fun f => (applyWrite_nil f out).symm⟩
  | c :: cs, out => by
    obtain ⟨hptr, hrest⟩ := @properStringWrites_spec cs (out + 1)
    rw [properStringWrites, fat16ToProperString_cons]
    split_ifs with hc
    · exact ⟨rfl, fun f => (applyWrite_nil f out).symm⟩
    · refine ⟨?_, fun f => ?_⟩
      · rw [List.length_cons]
        dsimp only
        omega
      · change applyWrites (applyWrite f ⟨out, [c]⟩) (properStringWrites (out + 1) cs).1 = _
        rw [hrest]
        exact applyWrite_append f out [c] (fat16ToProperString cs)

/-- The writes stay behind where `*out` points to. -/
theorem properStringWrites_within : ∀ {field : List UInt8} {out : ℕ},
    ∀ w ∈ (properStringWrites out field).1, w.span.Within ⟨out, field.length⟩
  | [], _, _, hw => absurd hw List.not_mem_nil
  | c :: cs, out, w, hw => by
    rw [properStringWrites] at hw
    split_ifs at hw
    · exact absurd hw List.not_mem_nil
    · rcases List.mem_cons.mp hw with rfl | hw
      · refine ⟨le_refl _, ?_⟩
        change out + 1 ≤ out + (cs.length + 1)
        omega
      · refine (properStringWrites_within w hw).trans ⟨Nat.le_succ _, ?_⟩
        change out + 1 + cs.length ≤ out + (cs.length + 1)
        omega

theorem fat16ToProperString_length_le (field : List UInt8) :
    (fat16ToProperString field).length ≤ field.length :=
  (List.takeWhile_prefix _).length_le

/-- A name and its `NUL` are not longer than the buffer. -/
theorem fullRelativeFilename_length_lt (hbase : item.filename.length = 8)
    (hext : item.ext.length = 3) :
    (fat16GetFullRelativeFilename item).length < 13 := by
  have hle := fat16ToProperString_length_le item.filename
  have hle' := fat16ToProperString_length_le item.ext
  unfold fat16GetFullRelativeFilename
  rw [List.length_append]
  split_ifs
  · rw [List.length_cons]
    omega
  · rw [List.length_nil]
    omega

/-- **The buffer is not overrun.** -/
theorem nameWrites_within (hbase : item.filename.length = 8) (hext : item.ext.length = 3) :
    ∀ w ∈ nameWrites item out 13, w.span.Within ⟨out, 13⟩ := by
  have hptr := (@properStringWrites_spec item.filename out).1
  have hle := fat16ToProperString_length_le item.filename
  intro w hw
  unfold nameWrites at hw
  dsimp only at hw
  rw [List.cons_append] at hw
  rcases List.mem_cons.mp hw with rfl | hw
  · exact ⟨le_refl _, le_refl _⟩
  rcases List.mem_append.mp hw with hw | hw
  · refine (properStringWrites_within w hw).trans ⟨le_refl _, ?_⟩
    change out + item.filename.length ≤ out + 13
    omega
  · split_ifs at hw
    · rcases List.mem_cons.mp hw with rfl | hw
      · refine ⟨?_, ?_⟩
        · change out ≤ (properStringWrites out item.filename).2
          omega
        · change (properStringWrites out item.filename).2 + 1 ≤ out + 13
          omega
      · refine (properStringWrites_within w hw).trans ⟨?_, ?_⟩
        · change out ≤ (properStringWrites out item.filename).2 + 1
          omega
        · change (properStringWrites out item.filename).2 + 1 + item.ext.length ≤ out + 13
          omega
    · exact absurd hw List.not_mem_nil

/-- **The buffer holds the name** and the rest of the zeros it was filled with. -/
theorem slice_nameWrites (hbase : item.filename.length = 8) (hext : item.ext.length = 3)
    (f : ℕ → UInt8) : slice (applyWrites f (nameWrites item out 13)) out 13 =
      fat16GetFullRelativeFilename item ++
        List.replicate (13 - (fat16GetFullRelativeFilename item).length) 0 := by
  have hlen := (fullRelativeFilename_length_lt hbase hext).le
  -- all the writes are one
  have hall : applyWrites f (nameWrites item out 13) = applyWrites f [⟨out,
      fat16GetFullRelativeFilename item ++
        List.replicate (13 - (fat16GetFullRelativeFilename item).length) 0⟩] := by
    have hname : applyWrites f (nameWrites item out 13) =
        applyWrite (applyWrite f ⟨out, List.replicate 13 0⟩) ⟨out,
          fat16GetFullRelativeFilename item⟩ := by
      obtain ⟨hptr, hwrites⟩ := @properStringWrites_spec item.filename out
      unfold nameWrites fat16GetFullRelativeFilename
      dsimp only
      rw [List.cons_append, applyWrites_cons, applyWrites_append, hwrites, hptr]
      split_ifs
      · rw [applyWrites_cons, (@properStringWrites_spec item.ext _).2, applyWrite_append,
          show out + (fat16ToProperString item.filename).length + 1 =
            out + (fat16ToProperString item.filename ++ [0x2E]).length by
              rw [List.length_append, List.length_singleton, Nat.add_assoc],
          applyWrite_append, List.append_assoc]
        rfl
      · rw [List.append_nil]
        rfl
    rw [hname, applyWrite_over, List.drop_replicate]
    rfl
  have hslice := @slice_applyWrites _ [⟨out, fat16GetFullRelativeFilename item ++
    List.replicate (13 - (fat16GetFullRelativeFilename item).length) 0⟩] f _
      (List.pairwise_singleton _ _)
    List.mem_cons_self
  dsimp only at hslice
  rw [List.length_append, List.length_replicate, Nat.add_sub_cancel' hlen] at hslice
  rw [hall, hslice]

end Buffer

/-! ### Whole names -/

/-- The bytes `run`, which are neither `NUL` nor spaces, and padding behind them. -/
structure PaddedField (field run : List UInt8) : Prop where
  plain : ∀ c ∈ run, c ≠ 0x00 ∧ c ≠ 0x20
  padded : ∃ pad, field = run ++ pad ∧ ∀ c ∈ pad, c = 0x00 ∨ c = 0x20

section Match

variable {field run base ext : List UInt8} {item : FatDirectoryItem}

theorem PaddedField.properString (h : PaddedField field run) : fat16ToProperString field = run := by
  obtain ⟨pad, rfl, hpad⟩ := h.padded
  unfold fat16ToProperString
  rw [List.takeWhile_append_of_pos fun c hc => decide_eq_true (h.plain c hc)]
  cases pad with
  | nil => exact List.append_nil run
  | cons c pad =>
    have hc := hpad c List.mem_cons_self
    rw [List.takeWhile_cons, decide_eq_false (not_and_or.mpr (hc.imp not_not.mpr not_not.mpr))]
    exact List.append_nil run

/-- The first byte of the field says whether there is something in it. -/
theorem properString_eq_nil (field : List UInt8) :
    (field.headD 0 ≠ 0x00 ∧ field.headD 0 ≠ 0x20) ↔ fat16ToProperString field ≠ [] := by
  cases field with
  | nil => exact iff_of_false (fun h => h.1 rfl) fun h => h rfl
  | cons c cs =>
    rw [fat16ToProperString_cons, List.headD_cons, ← not_or]
    split_ifs with hc
    · exact iff_of_false (not_not.mpr hc) fun h => h rfl
    · exact iff_of_true hc (List.cons_ne_nil _ _)

/-- The name is put together from what is in front of the first space of each field. -/
theorem fullRelativeFilename_eq (item : FatDirectoryItem) : fat16GetFullRelativeFilename item =
    shortName (fat16ToProperString item.filename) (fat16ToProperString item.ext) := by
  unfold fat16GetFullRelativeFilename shortName
  by_cases hext : fat16ToProperString item.ext = []
  · rw [if_pos hext, if_neg fun h => (properString_eq_nil _).mp h hext, List.append_nil]
  · rw [if_neg hext, if_pos ((properString_eq_nil _).mpr hext)]

theorem shortName_no_nul (item : FatDirectoryItem) :
    (0 : UInt8) ∉ fat16GetFullRelativeFilename item := by
  rw [fullRelativeFilename_eq]
  unfold shortName
  split_ifs
  · exact fat16ToProperString_ne
  · rw [List.mem_append, List.mem_cons]
    rintro (h | h | h)
    · exact fat16ToProperString_ne h
    · cases h
    · exact fat16ToProperString_ne h

theorem bufferString_append_zeros {s : CString} (hs : (0 : UInt8) ∉ s) (n : ℕ) :
    bufferString (s ++ List.replicate n 0) = s := by
  have hplain : ∀ c ∈ s, decide (c ≠ 0x00) = true := fun c hc => decide_eq_true fun h => hs (h ▸ hc)
  unfold bufferString
  rw [List.takeWhile_append_of_pos hplain]
  cases n with
  | zero => exact List.append_nil s
  | succ n => exact List.append_nil s

/-- **Names are compared as a whole.** For an entry whose fields are padded, the name is put
together in the 13 bytes of the buffer, with a `NUL` behind it, and 13 characters of it are those of
another name exactly if the two are the same but for the case of letters. -/
theorem name_matches (hbase : PaddedField item.filename base) (hext : PaddedField item.ext ext)
    (hlen : item.filename.length = 8) (hlen' : item.ext.length = 3) (f : ℕ → UInt8) (out : ℕ) :
    (∀ w ∈ nameWrites item out 13, w.span.Within ⟨out, 13⟩) ∧
      (∃ zeros, 0 < zeros ∧ slice (applyWrites f (nameWrites item out 13)) out 13 =
        shortName base ext ++ List.replicate zeros 0) ∧
      ∀ name : CString, (0 : UInt8) ∉ name →
        (strncasecmp 13 (bufferString (slice (applyWrites f (nameWrites item out 13)) out 13))
            name = 0 ↔ SameName (shortName base ext) name) ∧
        (strncasecmp 13 (bufferString (slice (applyWrites f (nameWrites item out 13)) out 13))
            name = 0 → name.length = (shortName base ext).length) := by
  have hname : fat16GetFullRelativeFilename item = shortName base ext := by
    rw [fullRelativeFilename_eq, hbase.properString, hext.properString]
  have hnul : (0 : UInt8) ∉ shortName base ext := hname ▸ shortName_no_nul item
  have hshort : (shortName base ext).length < 13 :=
    hname ▸ fullRelativeFilename_length_lt hlen hlen'
  have hslice := @slice_nameWrites _ out hlen hlen' f
  rw [hname] at hslice
  refine ⟨nameWrites_within hlen hlen', ⟨_, Nat.sub_pos_of_lt hshort, hslice⟩, fun name hn => ?_⟩
  rw [hslice, bufferString_append_zeros hnul]
  have hiff := strncasecmp_eq_zero_iff hshort hnul hn
  refine ⟨hiff, fun h => ?_⟩
  have hmap := congrArg List.length (hiff.mp h)
  rw [List.length_map, List.length_map] at hmap
  exact hmap.symm

/-- The entry of `A.B`. -/
theorem name_matches_ab :
    (∀ w ∈ nameWrites ⟨0x41 :: List.replicate 7 0x20, [0x42, 0x20, 0x20], 0x20, 2, 1⟩ 100 13,
        w.span.Within ⟨100, 13⟩) ∧
      (∃ zeros, 0 < zeros ∧ slice (applyWrites (fun _ => 0xFF)
          (nameWrites ⟨0x41 :: List.replicate 7 0x20, [0x42, 0x20, 0x20], 0x20, 2, 1⟩ 100 13))
          100 13 = shortName [0x41] [0x42] ++ List.replicate zeros 0) ∧
      strncasecmp 13 (bufferString (slice (applyWrites (fun _ => 0xFF)
          (nameWrites ⟨0x41 :: List.replicate 7 0x20, [0x42, 0x20, 0x20], 0x20, 2, 1⟩ 100 13))
          100 13)) [0x61, 0x2E, 0x62] = 0 := by
  have h := @name_matches [0x41] [0x42]
    ⟨0x41 :: List.replicate 7 0x20, [0x42, 0x20, 0x20], 0x20, 2, 1⟩
    ⟨by decide +kernel, List.replicate 7 0x20, rfl, by decide +kernel⟩
    ⟨by decide +kernel, [0x20, 0x20], rfl, by decide +kernel⟩ rfl rfl (fun _ => 0xFF) 100
  exact ⟨h.1, h.2.1, (h.2.2 [0x61, 0x2E, 0x62] (by decide +kernel)).1.mpr (by decide +kernel)⟩

end Match

/-! ### Telling names apart -/

/-- The name fields of a directory entry: the first byte is that of a name, and there is no `NUL`
and no dot in them. Where a field is shorter than its name, spaces follow. -/
structure LegalName (item : FatDirectoryItem) : Prop where
  filename_length : item.filename.length = 8
  ext_length : item.ext.length = 3
  first : item.filename.headD 0 ≠ 0x00 ∧ item.filename.headD 0 ≠ 0x20 ∧ item.filename.headD 0 ≠ 0xE5
  chars : ∀ c ∈ item.filename ++ item.ext, c ≠ 0x00 ∧ c ≠ 0x2E

/-- Two fields differ, and at the first difference no space has come yet. -/
def DifferInFront (a b : List UInt8) : Prop :=
  ∃ i : ℕ, a[i]? ≠ b[i]? ∧ ∀ j < i, a[j]? = b[j]? ∧ a[j]? ≠ some 0x20

/-- There are no small letters in the name fields. -/
def UpperCase (item : FatDirectoryItem) : Prop :=
  ∀ c ∈ item.filename ++ item.ext, ¬ (0x61 ≤ c ∧ c ≤ 0x7A)

/-- The strings for the two entries are different, and no name is that of both. -/
structure ToldApart (x y : FatDirectoryItem) : Prop where
  strings : fat16GetFullRelativeFilename x ≠ fat16GetFullRelativeFilename y
  lookup : ∀ name : CString, (0 : UInt8) ∉ name →
    ¬ (strncasecmp 13 (fat16GetFullRelativeFilename x) name = 0 ∧
      strncasecmp 13 (fat16GetFullRelativeFilename y) name = 0)

section Apart

variable {a b : List UInt8} {x y : FatDirectoryItem}

/-- What is read of two fields is different exactly if they differ in front of the first space. -/
theorem properString_ne_iff : ∀ {a b : List UInt8}, a.length = b.length → (0 : UInt8) ∉ a →
    (0 : UInt8) ∉ b → (fat16ToProperString a ≠ fat16ToProperString b ↔ DifferInFront a b)
  | [], [], _, _, _ => iff_of_false (fun h => h rfl) fun ⟨_, h, _⟩ => h rfl
  | c :: a, d :: b, hlen, ha, hb => by
    have hc : c ≠ 0 := fun h => ha (h ▸ List.mem_cons_self)
    have hd : d ≠ 0 := fun h => hb (h ▸ List.mem_cons_self)
    have ih := @properString_ne_iff a b (Nat.succ.inj hlen) (fun h => ha (List.mem_cons_of_mem _ h))
      fun h => hb (List.mem_cons_of_mem _ h)
    have hcons : ∀ {e : UInt8} (es : List UInt8), e ≠ 0 →
        fat16ToProperString (e :: es) = if e = 0x20 then [] else e :: fat16ToProperString es := by
      intro e es he
      rw [fat16ToProperString_cons]
      exact if_congr (or_iff_right he) rfl rfl
    rw [hcons a hc, hcons b hd]
    by_cases hcd : c = d
    · subst hcd
      by_cases hspace : c = 0x20
      · -- nothing of both is read
        rw [if_pos hspace, if_pos hspace]
        refine iff_of_false (fun h => h rfl) ?_
        rintro ⟨i, hne, hfront⟩
        cases i with
        | zero => exact hne rfl
        | succ i => exact (hfront 0 (Nat.succ_pos i)).2 (by rw [List.getElem?_cons_zero, hspace])
      · rw [if_neg hspace, if_neg hspace, Ne, List.cons.injEq, and_iff_right rfl, ← Ne, ih]
        constructor
        · rintro ⟨i, hne, hfront⟩
          refine ⟨i + 1, hne, fun j hj => ?_⟩
          cases j with
          | zero => exact ⟨rfl, fun h => hspace (Option.some.inj h)⟩
          | succ j => exact hfront j (Nat.lt_of_succ_lt_succ hj)
        · rintro ⟨i, hne, hfront⟩
          cases i with
          | zero => exact absurd rfl hne
          | succ i => exact ⟨i, hne, fun j hj => hfront (j + 1) (Nat.succ_lt_succ hj)⟩
    · refine iff_of_true ?_ ⟨0, fun h => hcd (Option.some.inj h),
        fun j hj => absurd hj (Nat.not_lt_zero j)⟩
      split_ifs with h h'
      · exact absurd (h.trans h'.symm) hcd
      · exact (List.cons_ne_nil _ _).symm
      · exact List.cons_ne_nil _ _
      · exact fun heq => hcd (List.cons.inj heq).1

/-- The two parts of a name are found again, since there is no dot in the first. -/
theorem shortName_inj {base base' ext ext' : List UInt8} (hbase : (0x2E : UInt8) ∉ base)
    (hbase' : (0x2E : UInt8) ∉ base') :
    shortName base ext = shortName base' ext' ↔ base = base' ∧ ext = ext' := by
  refine ⟨fun h => ?_, fun h => by rw [h.1, h.2]⟩
  have hsplit : ∀ {base ext : List UInt8}, (0x2E : UInt8) ∉ base →
      (shortName base ext).takeWhile (fun c => decide (c ≠ 0x2E)) = base ∧
        ((shortName base ext).dropWhile fun c => decide (c ≠ 0x2E)).drop 1 = ext := by
    intro base ext hb
    have hall : ∀ c ∈ base, decide (c ≠ 0x2E) = true :=
      fun c hc => decide_eq_true fun h => hb (h ▸ hc)
    unfold shortName
    split_ifs with hnil
    · rw [List.takeWhile_eq_self_iff.mpr hall, List.dropWhile_eq_nil_iff.mpr hall, hnil]
      exact ⟨rfl, rfl⟩
    · rw [List.takeWhile_append_of_pos hall, List.dropWhile_append_of_pos hall]
      exact ⟨List.append_nil base, rfl⟩
  obtain ⟨hb, he⟩ := @hsplit base ext hbase
  obtain ⟨hb', he'⟩ := @hsplit base' ext' hbase'
  rw [h] at hb he
  exact ⟨hb.symm.trans hb', he.symm.trans he'⟩

theorem properString_subset (field : List UInt8) : fat16ToProperString field ⊆ field :=
  (List.takeWhile_prefix _).subset

/-- The strings for two entries are different exactly if one of the fields differs in front of the
first space. -/
theorem LegalName.ne_iff (hx : LegalName x) (hy : LegalName y) :
    fat16GetFullRelativeFilename x ≠ fat16GetFullRelativeFilename y ↔
      DifferInFront x.filename y.filename ∨ DifferInFront x.ext y.ext := by
  have hno : ∀ {z : FatDirectoryItem}, LegalName z → (0 : UInt8) ∉ z.filename ∧
      (0 : UInt8) ∉ z.ext ∧ (0x2E : UInt8) ∉ fat16ToProperString z.filename := fun h =>
    ⟨fun h0 => (h.chars 0 (List.mem_append_left _ h0)).1 rfl,
      fun h0 => (h.chars 0 (List.mem_append_right _ h0)).1 rfl,
      fun h0 => (h.chars _ (List.mem_append_left _ (properString_subset _ h0))).2 rfl⟩
  obtain ⟨hx₁, hx₂, hx₃⟩ := hno hx
  obtain ⟨hy₁, hy₂, hy₃⟩ := hno hy
  rw [fullRelativeFilename_eq, fullRelativeFilename_eq, Ne, shortName_inj hx₃ hy₃, not_and_or]
  exact or_congr (properString_ne_iff (hx.filename_length.trans hy.filename_length.symm) hx₁ hy₁)
    (properString_ne_iff (hx.ext_length.trans hy.ext_length.symm) hx₂ hy₂)

/-- A name in capitals is not changed by `toupper`. -/
theorem UpperCase.toupper_name (h : UpperCase x) :
    (fat16GetFullRelativeFilename x).map toupper = fat16GetFullRelativeFilename x := by
  have hupper : ∀ c ∈ fat16GetFullRelativeFilename x, toupper c = c := by
    have hsmall : ∀ {c : UInt8}, c ∈ x.filename ++ x.ext → toupper c = c :=
      fun hc => if_neg (h _ hc)
    intro c hc
    rw [fullRelativeFilename_eq] at hc
    unfold shortName at hc
    split_ifs at hc
    · exact hsmall (List.mem_append_left _ (properString_subset _ hc))
    · rcases List.mem_append.mp hc with hc | hc
      · exact hsmall (List.mem_append_left _ (properString_subset _ hc))
      · rcases List.mem_cons.mp hc with rfl | hc
        · rfl
        · exact hsmall (List.mem_append_right _ (properString_subset _ hc))
  rw [List.map_congr_left hupper, List.map_id']

/-- **Which names are told apart.** Two entries have different strings exactly if one of their
fields differs in front of its first space. If the names are in capitals, no name is found for both
just then. -/
theorem shortNames_differ_iff (hx : LegalName x) (hy : LegalName y) :
    (fat16GetFullRelativeFilename x ≠ fat16GetFullRelativeFilename y ↔
      DifferInFront x.filename y.filename ∨ DifferInFront x.ext y.ext) ∧
    (UpperCase x → UpperCase y →
      (ToldApart x y ↔ DifferInFront x.filename y.filename ∨ DifferInFront x.ext y.ext)) := by
  have hne := hx.ne_iff hy
  refine ⟨hne, fun hux huy => ⟨fun h => hne.mp h.strings, fun h => ⟨hne.mpr h, ?_⟩⟩⟩
  rintro name hname ⟨hmx, hmy⟩
  have hsx : SameName _ name := (strncasecmp_eq_zero_iff (fullRelativeFilename_length_lt
    hx.filename_length hx.ext_length)
    (shortName_no_nul x) hname).mp hmx
  have hsy : SameName _ name := (strncasecmp_eq_zero_iff (fullRelativeFilename_length_lt
    hy.filename_length hy.ext_length)
    (shortName_no_nul y) hname).mp hmy
  refine hne.mpr h ?_
  calc fat16GetFullRelativeFilename x = (fat16GetFullRelativeFilename x).map toupper :=
        hux.toupper_name.symm
    _ = name.map toupper := hsx
    _ = (fat16GetFullRelativeFilename y).map toupper := hsy.symm
    _ = fat16GetFullRelativeFilename y := huy.toupper_name

/-- The entries of `A.B` and `A.C`. -/
theorem shortNames_differ_ab_ac :
    ToldApart ⟨0x41 :: List.replicate 7 0x20, [0x42, 0x20, 0x20], 0x20, 2, 1⟩
      ⟨0x41 :: List.replicate 7 0x20, [0x43, 0x20, 0x20], 0x20, 3, 1⟩ := by
  have h := @shortNames_differ_iff ⟨0x41 :: List.replicate 7 0x20, [0x42, 0x20, 0x20], 0x20, 2, 1⟩
    ⟨0x41 :: List.replicate 7 0x20, [0x43, 0x20, 0x20], 0x20, 3, 1⟩ ⟨rfl, rfl, by decide +kernel,
      by decide +kernel⟩
    ⟨rfl, rfl, by decide +kernel, by decide +kernel⟩
  refine (h.2 (by unfold UpperCase; decide +kernel) (by unfold UpperCase; decide +kernel)).mpr
    (Or.inr ⟨0, by decide +kernel, ?_⟩)
  exact fun j hj => absurd hj (Nat.not_lt_zero j)

/-- `A B` and `A C` are two names of a directory. Both are read as `A`, and who looks for `A` finds
the one that comes first. -/
theorem shortNames_confused :
    (LegalName ⟨[0x41, 0x20, 0x42] ++ List.replicate 5 0x20, List.replicate 3 0x20, 0x20, 2, 1⟩ ∧
      LegalName ⟨[0x41, 0x20, 0x43] ++ List.replicate 5 0x20, List.replicate 3 0x20, 0x20, 3, 1⟩) ∧
    [0x41, 0x20, 0x42] ++ List.replicate 5 (0x20 : UInt8) ≠ [0x41, 0x20, 0x43] ++
    List.replicate 5 0x20 ∧ fat16GetFullRelativeFilename
        ⟨[0x41, 0x20, 0x42] ++ List.replicate 5 0x20, List.replicate 3 0x20, 0x20, 2, 1⟩ = [0x41] ∧
    fat16GetFullRelativeFilename
        ⟨[0x41, 0x20, 0x43] ++ List.replicate 5 0x20, List.replicate 3 0x20, 0x20, 3, 1⟩ = [0x41] :=
  ⟨⟨⟨rfl, rfl, by decide +kernel, by decide +kernel⟩, ⟨rfl, rfl, by decide +kernel,
    by decide +kernel⟩⟩, by decide +kernel, by decide +kernel, by decide +kernel⟩

end Apart

end VibeKernel
