import Mathlib.Data.List.TakeWhile
import VibeKernel.Fs.PathParser
import VibeKernel.Fs.SingleFile

/-!
# What the path parser keeps of a path

A path `d:/text` names the non-empty components of `text`, the pieces between its slashes. The
parser stops at the first empty piece, because it reports an empty piece with the same `NULL` as the
end of the path. So its parts are the pieces in front of the first empty one
(`pathParts_eq_splitOn`), and these are all the components iff nothing but slashes follows the first
empty piece.

Each part is copied into the block that the allocator gives for 256 bytes, and that is at least as
large. A component that does not fit into it is not kept: what follows it runs into the blocks
behind.
-/

namespace VibeKernel

open Verif

variable {H D : Type} {M : Machine H D}

/-- The pieces between the slashes of the text behind `d:/`. -/
def pathPieces (path : CString) : List CString := (path.drop 3).splitOn 0x2F

/-- The components a path names. -/
def pathComponents (path : CString) : List CString := (pathPieces path).filter fun p => p ≠ []

/-- No component follows an empty piece. -/
def EmptyPiecesLast (path : CString) : Prop :=
  ∀ p ∈ (pathPieces path).dropWhile fun p => p ≠ [], p = []

instance (path : CString) : Decidable (EmptyPiecesLast path) :=
  inferInstanceAs (Decidable (∀ _ ∈ _, _))

/-! ### Prefix and selection -/

/-- The longest prefix in `p` has all elements in `p` iff no later element is in `p`. -/
theorem takeWhile_eq_filter_iff {α : Type} (p : α → Bool) (l : List α) :
    l.takeWhile p = l.filter p ↔ ∀ x ∈ l.dropWhile p, ¬ p x := by
  have hsplit : l.filter p = l.takeWhile p ++ (l.dropWhile p).filter p := by
    calc l.filter p = (l.takeWhile p ++ l.dropWhile p).filter p := by
          rw [List.takeWhile_append_dropWhile]
      _ = l.takeWhile p ++ (l.dropWhile p).filter p := by
          rw [List.filter_append, List.filter_eq_self.mpr fun x hx => List.mem_takeWhile_imp hx]
  rw [hsplit, List.self_eq_append_right, List.filter_eq_nil_iff]

/-! ### The parser and the pieces -/

/-- A text is its first part, and behind it nothing or a slash and the rest. -/
theorem partChars_cases {text : CString} (hnul : 0 ∉ text) :
    (text = partChars text ∧ partRest text = []) ∨
      text = partChars text ++ 0x2F :: partRest text := by
  have hsplit : text = partChars text ++
      text.dropWhile fun c => decide (c ≠ 0 ∧ c ≠ 0x2F) :=
    List.takeWhile_append_dropWhile.symm
  have hdrop : text.drop (partChars text).length =
      text.dropWhile fun c => decide (c ≠ 0 ∧ c ≠ 0x2F) := by
    calc text.drop (partChars text).length
        = (partChars text ++ text.dropWhile fun c => decide (c ≠ 0 ∧ c ≠ 0x2F)).drop
            (partChars text).length := congrArg _ hsplit
      _ = _ := List.drop_left
  unfold partRest
  rw [hdrop]
  cases hrest : text.dropWhile fun c => decide (c ≠ 0 ∧ c ≠ 0x2F) with
  | nil =>
    rw [hrest, List.append_nil] at hsplit
    exact .inl ⟨hsplit, rfl⟩
  | cons c rest =>
    -- the character that ends the part is a slash, since the text has no `NUL`
    have hc : c = 0x2F := by
      have hstop := List.head?_dropWhile_not (fun c => decide (c ≠ 0 ∧ c ≠ 0x2F)) text
      rw [hrest] at hstop
      have hmem : c ∈ text := by
        rw [hsplit, hrest]
        exact List.mem_append_right _ List.mem_cons_self
      have hne : c ≠ 0 := fun h => hnul (h ▸ hmem)
      by_contra hslash
      simp [hne, hslash] at hstop
    rw [hrest, hc] at hsplit
    refine .inr ?_
    rw [hc]
    exact hsplit

/-- The characters of a part contain no slash. -/
theorem partChars_no_slash (text : CString) : 0x2F ∉ partChars text := by
  intro h
  have := List.mem_takeWhile_imp h
  simp at this

/-- **The parts are the pieces in front of the first empty one.** -/
theorem pathParts_eq_splitOn : ∀ {n : ℕ} {text : CString}, 0 ∉ text → text.length < n →
    pathParts n text = (text.splitOn 0x2F).takeWhile fun p => p ≠ [] := by
  intro n
  induction n with
  | zero => exact fun _ hlen => absurd hlen (Nat.not_lt_zero _)
  | succ n ih =>
    intro text hnul hlen
    rw [pathParts]
    rcases partChars_cases hnul with ⟨htext, hrest⟩ | htext
    · -- the text is one piece
      have hsplit : text.splitOn 0x2F = [partChars text] := by
        rw [← htext]
        exact List.splitOn_eq_singleton (htext ▸ partChars_no_slash text)
      rw [hsplit, hrest]
      by_cases hnil : partChars text = []
      · rw [if_pos hnil, hnil]
        rfl
      · rw [if_neg hnil, List.takeWhile_cons_of_pos (by simpa using hnil)]
        cases n <;> rfl
    · have hsplit : text.splitOn 0x2F = partChars text :: (partRest text).splitOn 0x2F := by
        conv_lhs => rw [htext]
        exact List.splitOn_append_cons_self_of_not_mem (partChars_no_slash text) _
      rw [hsplit]
      by_cases hnil : partChars text = []
      · rw [if_pos hnil, List.takeWhile_cons_of_neg (by simp [hnil])]
      · rw [if_neg hnil, List.takeWhile_cons_of_pos (by simpa using hnil)]
        have hmem : 0 ∉ partRest text := by
          intro h
          refine hnul ?_
          rw [htext]
          exact List.mem_append_right _ (List.mem_cons_of_mem _ h)
        rw [ih hmem (by have := partRest_length hnil; omega)]

/-- The parts the loop of the parser makes, in whatever state; only a part that does not fit into
its buffer overruns it. -/
theorem pathParserParts_parts {E : Stop → Prop} (hE : ∀ e, e ≠ .overrun → E e) :
    ∀ (n : ℕ) (text : CString) (s : Kernel H D),
      ((∃ p ∈ pathParts n text, 256 ≤ p.length) → E .overrun) →
      wp E (pathParserParts M n text)
        (fun parts _ => parts.map PathPart.part = pathParts n text) s := by
  have hfails : ∀ e : Stop, e.AllocFails → E e := by
    rintro e (rfl | rfl | rfl) <;> exact hE _ fun h => by cases h
  intro n
  induction n with
  | zero => exact fun _ _ _ => hE _ fun h => by cases h
  | succ n ih =>
    intro text s hover
    rw [pathParserParts, wp_bind]
    unfold pathParserGetNextPart
    rw [wp_bind]
    refine kmallocUnchecked_wp hfails fun p h _ _ _ => ?_
    rw [pathParts] at hover ⊢
    by_cases hnil : partChars text = []
    · rw [if_pos hnil, if_pos hnil, wp_bind]
      refine kfree_wp (fun _ => rfl) fun _ => rfl
    rw [if_neg hnil] at hover
    rw [if_neg hnil, if_neg hnil, wp_bind, wp_gets]
    dsimp only [id]
    split
    case isFalse hfits =>
      exact hover ⟨_, List.mem_cons_self, Nat.le_of_not_lt (mt FitsBlock.of_le hfits)⟩
    case isTrue hfits =>
      rw [wp_pure]
      dsimp only
      rw [wp_bind]
      refine kmallocUnchecked_wp hfails fun q h₂ _ _ _ => ?_
      rw [wp_bind]
      have hrest : (∃ r ∈ pathParts n (partRest text), 256 ≤ r.length) → E .overrun := by
        rintro ⟨r, hr, hbig⟩
        exact hover ⟨r, List.mem_cons_of_mem _ hr, hbig⟩
      refine (ih (partRest text) _ hrest).mono fun parts t hparts => ?_
      rw [wp_pure, List.map_cons, hparts]

/-- Parsing overruns no buffer if all parts fit into theirs. -/
theorem pathParserParse_no_overrun {path : CString} (hshort : ¬ PathTooLong path)
    (s : Kernel H D) : pathParserParse M path s ≠ .error .overrun := by
  have hfails : ∀ e : Stop, e.AllocFails → e ≠ .overrun := by
    rintro e (rfl | rfl | rfl) <;> exact fun h => by cases h
  have hspec : wp (· ≠ .overrun) (pathParserParse M path) (fun _ _ => True) s := by
    unfold pathParserParse
    cases hdrive : pathParserGetDriveNo path with
    | none => trivial
    | some r =>
      obtain ⟨driveNo, rest⟩ := r
      dsimp only
      rw [wp_bind]
      refine kmallocUnchecked_wp hfails fun p h _ _ _ => ?_
      rw [wp_bind]
      exact (pathParserParts_parts (fun _ h => h) _ _ _ fun hlong =>
        absurd ⟨driveNo, rest, hdrive, hlong⟩ hshort).mono fun _ _ _ => trivial
  exact fun h => hspec.error h rfl

/-- The parts of a parsed path. -/
theorem pathParserParse_parts {path : CString} (hnul : 0 ∉ path) {s t : Kernel H D}
    {root : PathRoot} (hrun : pathParserParse M path s = .ok (some root, t)) :
    root.parts.map PathPart.part = (pathPieces path).takeWhile fun p => p ≠ [] := by
  have hspec : wp (fun _ => True) (pathParserParse M path)
      (fun r _ => ∀ root, r = some root → root.parts.map PathPart.part =
        (pathPieces path).takeWhile fun p => p ≠ []) s := by
    unfold pathParserParse
    cases hdrive : pathParserGetDriveNo path with
    | none => exact fun _ h => by cases h
    | some r =>
      obtain ⟨driveNo, rest⟩ := r
      dsimp only
      rw [wp_bind]
      refine kmallocUnchecked_wp (fun _ _ => trivial) fun p h _ _ _ => ?_
      rw [wp_bind]
      refine (pathParserParts_parts (fun _ _ => trivial) (rest.length + 1) rest _
        fun _ => trivial).mono fun parts t hparts => ?_
      rw [wp_pure]
      rintro root ⟨⟩
      have hrest : rest = path.drop 3 := by
        unfold pathParserGetDriveNo at hdrive
        split_ifs at hdrive
        cases hdrive
        rfl
      have hmem : 0 ∉ rest := fun h => hnul (List.mem_of_mem_drop (hrest ▸ h))
      dsimp only
      rw [hparts, pathParts_eq_splitOn hmem (Nat.lt_succ_self _), hrest]
      rfl
  exact hspec.ok hrun root rfl

/-! ### What fits -/

/-- Every part fits into the block that it is copied into. -/
def PartsFit (M : Machine H D) : List CString → Kernel H D → Prop
  | [] => fun _ => True
  | part :: parts => fun s => ∀ result s₁, kmallocUnchecked M 256 false s = .ok (result, s₁) →
      FitsBlock M s₁ result 256 (part.length + 1) ∧
        ∀ ptr s₂, kmallocUnchecked M 8 false s₁ = .ok (ptr, s₂) → PartsFit M parts s₂

/-- Every component of the path fits into the block that it is copied into. -/
def ComponentsFit (M : Machine H D) (path : CString) (s : Kernel H D) : Prop :=
  ∀ ptr t, kmallocUnchecked M 8 false s = .ok (ptr, t) → PartsFit M (pathComponents path) t

/-- Parts of up to 255 characters fit. -/
theorem PartsFit.of_short : ∀ {parts : List CString} {s : Kernel H D},
    (∀ p ∈ parts, p.length < 256) → PartsFit M parts s := by
  intro parts
  induction parts with
  | nil => exact fun _ => trivial
  | cons part parts ih =>
    exact fun h _ _ _ => ⟨.of_le (h part List.mem_cons_self),
      fun _ _ _ => ih fun p hp => h p (List.mem_cons_of_mem _ hp)⟩

theorem kmallocUnchecked_no_overrun {n : ℕ} {align : Bool} {s : Kernel H D} :
    kmallocUnchecked M n align s ≠ .error .overrun := by
  have hspec : wp (· ≠ .overrun) (kmallocUnchecked M n align) (fun _ _ => True) s := by
    refine kmallocUnchecked_wp ?_ fun _ _ _ _ _ => trivial
    rintro e (rfl | rfl | rfl) <;> exact fun h => by cases h
  exact fun h => hspec.error h rfl

/-- **The loop overruns a buffer iff a part does not fit.** -/
theorem pathParserParts_overrun_iff : ∀ (n : ℕ) (text : CString) (s : Kernel H D),
    pathParserParts M n text s = .error .overrun ↔ ¬ PartsFit M (pathParts n text) s := by
  intro n
  induction n with
  | zero => exact fun _ _ => ⟨fun h => (by cases h), fun h => absurd trivial h⟩
  | succ n ih =>
    intro text s
    rw [pathParserParts, pathParts]
    unfold pathParserGetNextPart
    simp only [bind_assoc]
    rw [Exec.bind_apply]
    cases hbuf : kmallocUnchecked M 256 false s with
    | error e =>
      -- without a buffer nothing is copied
      have hne : e ≠ .overrun := fun h => kmallocUnchecked_no_overrun (h ▸ hbuf)
      refine ⟨fun h => absurd (by cases h; rfl) hne, fun h => absurd ?_ h⟩
      split
      · trivial
      · intro result s₁ hrun
        rw [hbuf] at hrun
        cases hrun
    | ok r =>
      obtain ⟨result, s₁⟩ := r
      dsimp only
      by_cases hnil : partChars text = []
      · rw [if_pos hnil, if_pos hnil]
        exact ⟨fun h => (by cases h), fun h => absurd trivial h⟩
      rw [if_neg hnil, if_neg hnil]
      have hfit : PartsFit M (partChars text :: pathParts n (partRest text)) s ↔
          FitsBlock M s₁ result 256 ((partChars text).length + 1) ∧
            ∀ ptr s₂, kmallocUnchecked M 8 false s₁ = .ok (ptr, s₂) →
              PartsFit M (pathParts n (partRest text)) s₂ := by
        refine ⟨fun h => h result s₁ hbuf, fun h result' s' hrun => ?_⟩
        rw [hbuf] at hrun
        cases hrun
        exact h
      rw [hfit, bind_assoc, Exec.bind_of_ok (show Exec.gets id s₁ = .ok (s₁, s₁) from rfl)]
      by_cases hfits : FitsBlock M s₁ result 256 ((partChars text).length + 1)
      · simp only [if_pos hfits, pure_bind]
        rw [Exec.bind_apply]
        cases hptr : kmallocUnchecked M 8 false s₁ with
        | error e =>
          have hne : e ≠ .overrun := fun h => kmallocUnchecked_no_overrun (h ▸ hptr)
          refine ⟨fun h => absurd (by cases h; rfl) hne, fun h => absurd ⟨hfits, ?_⟩ h⟩
          exact fun _ _ he => by cases he
        | ok r =>
          obtain ⟨ptr, s₂⟩ := r
          have hrest : (∀ ptr' t, (.ok (ptr, s₂) : Except Stop _) = .ok (ptr', t) →
              PartsFit M (pathParts n (partRest text)) t) ↔
                PartsFit M (pathParts n (partRest text)) s₂ :=
            ⟨fun h => h ptr s₂ rfl, fun h _ _ he => by cases he; exact h⟩
          dsimp only
          rw [hrest, and_iff_right hfits, ← ih, Exec.bind_apply]
          cases pathParserParts M n (partRest text) s₂ with
          | error e => exact Iff.rfl
          | ok r => exact ⟨fun h => (by cases h), fun h => (by cases h)⟩
      · simp only [if_neg hfits]
        exact ⟨fun _ h => hfits h.1, fun _ => rfl⟩

/-! ### What is lost -/

/-- The parser accepts the path: it answers with a root, or stops because a part runs over the block
of its buffer. -/
def Accepts (M : Machine H D) (path : CString) (s : Kernel H D) : Prop :=
  (∃ root t, pathParserParse M path s = .ok (some root, t)) ∨
    pathParserParse M path s = .error .overrun

/-- The parser answers with a root whose parts are the components of the path. -/
def KeepsComponents (M : Machine H D) (path : CString) (s : Kernel H D) : Prop :=
  ∃ root t, pathParserParse M path s = .ok (some root, t) ∧
    root.parts.map PathPart.part = pathComponents path

/-- With room for its blocks a path that starts with a drive is accepted. -/
theorem Accepts.of_room {path : CString} {s : Kernel H D} (hroom : RoomFor M (pathRequests path) s)
    (hdrive : (pathParserGetDriveNo path).isSome) : Accepts M path s := by
  have hstop : wp (· = .overrun) (pathParserParse M path) (fun r _ => r.isSome) s := by
    have hanswer : wp (fun _ => True) (pathParserParse M path) (fun r _ => r.isSome) s := by
      obtain ⟨⟨driveNo, rest⟩, hsome⟩ := Option.isSome_iff_exists.mp hdrive
      unfold pathParserParse
      rw [hsome]
      exact wp_seq (wp_true _ _) fun _ _ _ => wp_seq (wp_true _ _) fun _ _ _ => rfl
    refine wp_of_ok hanswer fun e he => ?_
    have hspends := pathParserParse_spends (E := (· = .overrun)) rfl path [] s
      (by rw [List.append_nil]; exact hroom)
    exact hspends.error he
  cases hrun : pathParserParse M path s with
  | error e => exact .inr (by rw [hrun, hstop.error hrun])
  | ok r =>
    obtain ⟨root, hroot⟩ := Option.isSome_iff_exists.mp (hstop.ok hrun)
    exact .inl ⟨root, r.2, by rw [hrun, ← hroot]⟩

/-- The parts of a path whose empty pieces come last are its components. -/
theorem pathParts_eq_components {path rest : CString} {driveNo : ℕ} (hnul : 0 ∉ path)
    (hdrive : pathParserGetDriveNo path = some (driveNo, rest)) (hlast : EmptyPiecesLast path) :
    pathParts (rest.length + 1) rest = pathComponents path := by
  have hrest : rest = path.drop 3 := by
    unfold pathParserGetDriveNo at hdrive
    split_ifs at hdrive
    cases hdrive
    rfl
  have hmem : 0 ∉ rest := fun h => hnul (List.mem_of_mem_drop (hrest ▸ h))
  rw [pathParts_eq_splitOn hmem (Nat.lt_succ_self _), hrest]
  unfold pathComponents pathPieces
  refine (takeWhile_eq_filter_iff _ _).mpr fun p hp => ?_
  simpa using hlast p hp

/-- Parsing overruns a buffer iff a component does not fit, if the empty pieces come last. -/
theorem pathParserParse_overrun_iff {path rest : CString} {driveNo : ℕ} {s : Kernel H D}
    (hnul : 0 ∉ path) (hdrive : pathParserGetDriveNo path = some (driveNo, rest))
    (hlast : EmptyPiecesLast path) :
    pathParserParse M path s = .error .overrun ↔ ¬ ComponentsFit M path s := by
  have hparts := pathParts_eq_components hnul hdrive hlast
  unfold pathParserParse ComponentsFit
  rw [hdrive]
  dsimp only
  rw [Exec.bind_apply]
  cases hptr : kmallocUnchecked M 8 false s with
  | error e =>
    have hne : e ≠ .overrun := fun h => kmallocUnchecked_no_overrun (h ▸ hptr)
    exact ⟨fun h => absurd (by cases h; rfl) hne, fun h => absurd nofun h⟩
  | ok r =>
    obtain ⟨ptr, t⟩ := r
    have hrest : (∀ ptr' u, (.ok (ptr, t) : Except Stop _) = .ok (ptr', u) →
        PartsFit M (pathComponents path) u) ↔ PartsFit M (pathComponents path) t :=
      ⟨fun h => h ptr t rfl, fun h _ _ he => by cases he; exact h⟩
    dsimp only
    rw [hrest, ← hparts, ← pathParserParts_overrun_iff, Exec.bind_apply]
    cases pathParserParts M (rest.length + 1) rest t with
    | error e => exact ⟨fun h => by cases h; rfl, fun h => by cases h; rfl⟩
    | ok r => exact ⟨nofun, nofun⟩

/-- The parts of an accepted path are its components iff no component follows an empty piece. -/
theorem pathParserParse_parts_iff {path : CString} (hnul : 0 ∉ path) {s t : Kernel H D}
    {root : PathRoot} (hrun : pathParserParse M path s = .ok (some root, t)) :
    root.parts.map PathPart.part = pathComponents path ↔ EmptyPiecesLast path := by
  rw [pathParserParse_parts hnul hrun]
  unfold pathComponents EmptyPiecesLast
  rw [takeWhile_eq_filter_iff]
  simp only [ne_eq, decide_not, Bool.not_eq_true', decide_eq_false_iff_not, not_not]

/-- **An accepted path keeps its components iff no component follows an empty piece and all of them
fit into their blocks**, as components of up to 255 characters do. Two paths that keep their
components, and have different ones, never parse to the same parts. -/
theorem pathParserParse_keeps_iff {path : CString} (hnul : 0 ∉ path) {s : Kernel H D}
    (hacc : Accepts M path s) :
    (KeepsComponents M path s ↔ EmptyPiecesLast path ∧ ComponentsFit M path s) ∧
      ((∀ p ∈ pathComponents path, p.length < 256) → ComponentsFit M path s) ∧
      (EmptyPiecesLast path → ComponentsFit M path s →
        ∀ path' s' root t root' t', 0 ∉ path' → EmptyPiecesLast path' →
          pathComponents path ≠ pathComponents path' →
          pathParserParse M path s = .ok (some root, t) →
          pathParserParse M path' s' = .ok (some root', t') →
          root.parts.map PathPart.part ≠ root'.parts.map PathPart.part) := by
  refine ⟨⟨?_, ?_⟩, fun hshort _ _ _ => .of_short hshort, ?_⟩
  · rintro ⟨root, t, hrun, hparts⟩
    have hlast := (pathParserParse_parts_iff hnul hrun).mp hparts
    refine ⟨hlast, ?_⟩
    cases hdrive : pathParserGetDriveNo path with
    | none =>
      unfold pathParserParse at hrun
      rw [hdrive] at hrun
      cases hrun
    | some r =>
      by_contra hfit
      rw [(pathParserParse_overrun_iff hnul hdrive hlast).mpr hfit] at hrun
      cases hrun
  · rintro ⟨hlast, hfit⟩
    rcases hacc with ⟨root, t, hrun⟩ | hover
    · exact ⟨root, t, hrun, (pathParserParse_parts_iff hnul hrun).mpr hlast⟩
    · -- all components fit, so nothing is overrun
      cases hdrive : pathParserGetDriveNo path with
      | none =>
        unfold pathParserParse at hover
        rw [hdrive] at hover
        cases hover
      | some r => exact absurd hfit ((pathParserParse_overrun_iff hnul hdrive hlast).mp hover)
  · intro hlast _ path' s' root t root' t' hnul' hlast' hne hrun hrun'
    rw [(pathParserParse_parts_iff hnul hrun).mpr hlast,
      (pathParserParse_parts_iff hnul' hrun').mpr hlast']
    exact hne

/-- A machine to parse paths on. -/
def parserMachine : Machine KHeap Unit where
  heap := kheap
  ata := imageAta fun _ => 0
  imageEnd := 0x10000
  fuel := 65536

/-- What the parser makes of a path in the first state of the kernel. -/
def parsedParts (path : CString) : Option (List CString) :=
  ((pathParserParse parserMachine path (Kernel.boot (KHeap.init 0x10000) ())).toOption.bind
    Prod.fst).map fun root => root.parts.map PathPart.part

theorem accepts_of_parsed {path : CString} (h : (parsedParts path).isSome) :
    Accepts parserMachine path (Kernel.boot (KHeap.init 0x10000) ()) := by
  unfold parsedParts at h
  cases hr : pathParserParse parserMachine path (Kernel.boot (KHeap.init 0x10000) ()) with
  | error e =>
    rw [hr] at h
    cases h
  | ok r =>
    obtain ⟨root, t⟩ := r
    cases root with
    | none =>
      rw [hr] at h
      cases h
    | some root => exact .inl ⟨root, t, hr⟩

/-- `0:/a/b//` parses to `a` and `b`, its two components. -/
theorem pathParserParse_keeps_iff_slashes :
    let path : CString := [0x30, 0x3A, 0x2F, 0x61, 0x2F, 0x62, 0x2F, 0x2F]
    parsedParts path = some [[0x61], [0x62]] ∧ pathComponents path = [[0x61], [0x62]] ∧
      KeepsComponents parserMachine path (Kernel.boot (KHeap.init 0x10000) ()) := by
  intro path
  obtain ⟨hiff, hshort, -⟩ := @pathParserParse_keeps_iff _ _ parserMachine path (by decide) _
    (accepts_of_parsed (by decide +kernel))
  exact ⟨by decide +kernel, by decide, hiff.mpr ⟨by decide, hshort (by decide)⟩⟩

/-- A component of 300 characters runs over its buffer, behind which nothing is allocated yet. -/
example : parsedParts ([0x30, 0x3A, 0x2F] ++ List.replicate 300 0x61) = none := by
  decide +kernel

/-- **A component is lost** behind a double slash: `0:/a//b` parses to the parts of `0:/a`. -/
theorem pathParserParse_loses :
    let path : CString := [0x30, 0x3A, 0x2F, 0x61, 0x2F, 0x2F, 0x62]
    parsedParts path = some [[0x61]] ∧ pathComponents path = [[0x61], [0x62]] ∧
      parsedParts [0x30, 0x3A, 0x2F, 0x61] = some [[0x61]] := by
  decide +kernel

end VibeKernel
