import VibeKernel.Drivers.Keyboard
import VibeKernel.Kernel.LineEditor

/-!
# The shell

The loop of `main` in `src/kernel/kernel.c`, from the prompt to `command_run` and back, with the
handlers of the commands that `main` registers. It takes its characters from `keyboard_getc`, and
the interrupt handler of the keyboard may run between any two of its steps. What `process_load`,
`task_new` and `fs_list` do is left open: each step of `main` is given their outcome. A call may
also not return at all, as `fs_list` does not from a directory whose chain is a circle.

The abstract shell is a fold over characters: a newline finishes a line, every other character edits
it, and a finished line runs the command that its first word names. `shell_session` says that the
kernel is this shell on the characters that the keyboard buffer accepted. What it has run is never
more than the lines among them, in their order. By its own steps it comes to sleep in `hlt`, has
then run all lines among the characters that it has read, and shows the unfinished one before the
cursor. It has read all of them, but for those of interrupts between the test of `keyboard_getc` and
its `hlt`: these are read only when another key ends the `hlt`. It does not come to sleep only where
a handler does not return: `run` has started a task, or a function behind `run` or `ls` has not come
back.
-/

namespace VibeKernel

open Verif

/-! ### The commands -/

/-- A string literal. -/
def cstr (s : String) : CString := s.toList.map fun c => UInt8.ofNat c.toNat

/-- The handlers that `main` registers. -/
inductive Handler
  | help
  | cls
  | version
  | echo
  | print
  | run
  | ls
  deriving DecidableEq, Repr

/-- A command with its description. -/
structure Registered where
  command : Command Handler
  description : CString

/-- The calls of `command_register` in `main`. -/
def registrations : List Registered :=
  [⟨⟨cstr "help", .help, by decide⟩, cstr "Display this help message"⟩,
    ⟨⟨cstr "cls", .cls, by decide⟩, cstr "Clear the screen"⟩,
    ⟨⟨cstr "version", .version, by decide⟩, cstr "Display kernel version"⟩,
    ⟨⟨cstr "echo", .echo, by decide⟩, cstr "Print arguments to the screen"⟩,
    ⟨⟨cstr "print", .print, by decide⟩, cstr "Display text on the screen"⟩,
    ⟨⟨cstr "run", .run, by decide⟩, cstr "Execute a binary or ELF file"⟩,
    ⟨⟨cstr "ls", .ls, by decide⟩, cstr "List directory contents"⟩]

/-- `commands` after the registrations. -/
def kernelCommands : List (Command Handler) :=
  (registrations.map Registered.command).foldl commandRegister []

/-- How a call of another subsystem ends. -/
inductive CallEnd
  /-- It returns with an error. -/
  | fails
  /-- It returns, and has done its work. -/
  | succeeds
  /-- It does not return. -/
  | stays
  deriving DecidableEq, Repr

/-- What the functions behind `run` and `ls` do. -/
structure Outcome where
  /-- `process_load`, which fails with a negative number. -/
  loaded : CallEnd
  /-- `task_new`, which fails with `NULL`. -/
  created : CallEnd
  /-- The strings that `fs_list` prints. -/
  listing : List CString
  /-- `fs_list`, which fails with a number that is not zero. -/
  listed : CallEnd
  deriving DecidableEq, Repr

/-- The loop of `echo_handler` and of `print_handler`, over `argv` from 1 on. -/
def printArgs (argv : List CString) : List ScreenCall :=
  (List.range argv.length).tail.flatMap (fun i =>
    .printString (argv.getD i []) :: if i + 1 < argv.length then [.printString (cstr " ")]
      else []) ++
  [.printString (cstr "\n")]

/-- `help_handler`. -/
def helpHandler : List ScreenCall :=
  .printString (cstr "Available commands:\n") :: registrations.flatMap fun r =>
    [.printString (cstr "  "), .printString r.command.name, .printString (cstr " - "),
      .printString r.description, .printString (cstr "\n")]

/-- `cls_handler`. -/
def clsHandler : List ScreenCall := [.clearScreen]

/-- `version_handler`. -/
def versionHandler : List ScreenCall := [.printString (cstr "VibeKernel-x86 v0.1.0\n")]

/-- `echo_handler`. -/
def echoHandler (argv : List CString) : List ScreenCall := printArgs argv

/-- `print_handler`. -/
def printHandler (argv : List CString) : List ScreenCall := printArgs argv

/-- `run_handler`, and whether it returns. -/
def runHandler (outcome : Outcome) (argv : List CString) : List ScreenCall × Bool :=
  if argv.length < 2 then ([.printString (cstr "Usage: run <filename>\n")], true)
  else
    match outcome.loaded with
    | .stays => ([], false)
    | .fails =>
      ([.printString (cstr "Failed to load process: "), .printString (argv.getD 1 []),
        .printString (cstr "\n")], true)
    | .succeeds =>
      match outcome.created with
      | .stays => ([], false)
      | .fails => ([.printString (cstr "Failed to create task\n")], true)
      -- `task_switch` leaves the kernel
      | .succeeds =>
        ([.printString (cstr "Starting process: "), .printString (argv.getD 1 []),
          .printString (cstr "\n")], false)

/-- `ls_handler`, and whether it returns. -/
def lsHandler (outcome : Outcome) (argv : List CString) : List ScreenCall × Bool :=
  let path := if 1 < argv.length then argv.getD 1 [] else cstr "0:/"
  let listing := outcome.listing.map .printString
  match outcome.listed with
  | .stays => (listing, false)
  | .fails =>
    (listing ++ [.printString (cstr "ls: Failed to list directory: "), .printString path,
      .printString (cstr "\n")], true)
  | .succeeds => (listing, true)

/-- What a handler does to the screen, and whether it returns. -/
def Handler.calls (outcome : Outcome) (argv : List CString) : Handler → List ScreenCall × Bool
  | .help => (helpHandler, true)
  | .cls => (clsHandler, true)
  | .version => (versionHandler, true)
  | .echo => (echoHandler argv, true)
  | .print => (printHandler argv, true)
  | .run => runHandler outcome argv
  | .ls => lsHandler outcome argv

/-! ### The loop of main -/

/-- Where `main` is. -/
inductive ShellAt
  /-- At the prompt. -/
  | prompt
  /-- In the loop over the characters of a line, or in `keyboard_getc`. -/
  | reading
  /-- At `command_run`. -/
  | running
  /-- A handler does not return: a task was started, or a call in it does not come back. -/
  | away
  deriving DecidableEq, Repr

/-- The keyboard, the variables of the loop with the screen, where `main` is, and whether it sleeps
in the `hlt` of `keyboard_getc`. -/
structure Shell where
  keyboard : Keyboard
  line : LineState
  pos : ShellAt
  asleep : Bool

/-- `main` in front of its loop, with a screen. -/
def Shell.boot (screen : Screen) : Shell where
  keyboard := .boot
  line := ⟨fun _ => 0, 0, screen⟩
  pos := .prompt
  asleep := false

/-- What a run of `command_run` does that can be seen: a handler is called with strings, or one is
printed. -/
inductive Ran
  | call (handler : Handler) (argv : List CString)
  | print (text : CString)
  deriving DecidableEq, Repr

/-- The events of `command_run`, with the strings that its handler finds. -/
def CommandRun.ran (fuel : ℕ) (r : CommandRun Handler) : Option (List Ran) :=
  r.events.mapM fun
    | .call handler _ argv => (argv.mapM (stringAt r.mem fuel)).map (.call handler)
    | .print text => some (.print text)

/-- The screen after calls. -/
def Screen.calls (s : Screen) (calls : List ScreenCall) : Screen :=
  calls.foldl (fun s call => s.after (call.events s)) s

/-- What is seen of an event is done. The answer is whether `main` goes on. -/
def Ran.exec (outcome : Outcome) (s : Screen) : Ran → Screen × Bool
  | .call handler argv => (s.calls (handler.calls outcome argv).1, (handler.calls outcome argv).2)
  | .print text => (s.calls [.printString text], true)

/-- One event after the other. -/
def execAll (outcome : Outcome) (s : Screen) : List Ran → Screen × Bool
  | [] => (s, true)
  | r :: rs => if (r.exec outcome s).2 then execAll outcome (r.exec outcome s).1 rs
      else r.exec outcome s

/-- The rest of the body of the inner loop, when `keyboard_getc` has returned a character. -/
def Shell.received (s : Shell) : KeyOut → Shell
  | .returned c =>
    if c = 0x0A then { s with line := endLine s.line, pos := .running }
    else { s with line := lineKey s.line c }
  | _ => s

/-- `hlt` ends with an interrupt, and `main` goes on behind it. -/
def Shell.wake (s : Shell) : Shell :=
  if s.asleep = true then { s with keyboard := { s.keyboard with getc := .test }, asleep := false }
    else s

/-- What may happen next: an interrupt of the keyboard, or a step of `main`. -/
inductive ShellEvent
  | interrupt (scancode : UInt8)
  | main (outcome : Outcome)
  deriving DecidableEq, Repr

/-- What a step shows: what happens to a character, or what a line runs. -/
inductive ShellOut
  | key (out : KeyOut)
  | ran (rs : List Ran)
  deriving DecidableEq, Repr

/-- One event. The size of `cmd_buf` is enough for the loops over its string. -/
def shellStep (s : Shell) : ShellEvent → Except Unit (ShellOut × Shell)
  | .interrupt scancode =>
    let r := keyboardHandler s.keyboard scancode
    .ok (.key r.1, Shell.wake { s with keyboard := r.2 })
  | .main outcome =>
    match s.pos with
    | .prompt => .ok (.ran [], { s with line := startLine s.line.screen, pos := .reading })
    | .reading =>
      -- `hlt` stops the processor, and `main` does not leave it by a step of its own
      if s.keyboard.getc = .hlt then .ok (.key .silent, { s with asleep := true })
      else
        match keyboardStep s.keyboard (if s.keyboard.getc = .outside then .call else .next) with
        | .error e => .error e
        | .ok (out, k) => .ok (.key out, Shell.received { s with keyboard := k } out)
    | .running =>
      match commandRun kernelCommands cmdBufSize s.line.cmdBuf 0 with
      | none => .error ()
      | some r =>
        match r.ran cmdBufSize with
        | none => .error ()
        | some rs =>
          let e := execAll outcome s.line.screen rs
          .ok (.ran rs, { s with
            line := { s.line with cmdBuf := r.mem, screen := e.1 }
            pos := if e.2 then .prompt else .away })
    | .away => .error ()

/-- What happened to characters. -/
def keyOuts (os : List ShellOut) : List KeyOut :=
  os.filterMap fun
    | .key out => some out
    | .ran _ => none

/-- What lines have run. -/
def ranAll (os : List ShellOut) : List Ran :=
  os.flatMap fun
    | .key _ => []
    | .ran rs => rs

/-- The characters that went into the keyboard buffer. -/
def typedChars (os : List ShellOut) : List UInt8 := acceptedChars (keyOuts os)

/-! ### The purpose of the shell -/

/-- The words of a line. -/
def lineWords (line : CString) : List CString := words (· = 0x20) line

/-- What a line runs: the first ten words are the arguments, and the first of them names the
command. -/
def lineRuns (commands : List (Command Handler)) (line : CString) : List Ran :=
  match (lineWords line).take maxArgs with
  | [] => []
  | name :: args =>
    match commands.find? fun c => decide (c.name = name) with
    | some c => [.call c.handler (name :: args)]
    | none => [.print unknownCommand, .print name, .print [0x0A]]

/-- The abstract shell: the lines that were finished, and the one that is edited. -/
structure Session where
  lines : List CString
  held : CString

/-- A character. -/
def Session.key (t : Session) (c : UInt8) : Session :=
  if c = 0x0A then ⟨t.lines ++ [t.held], []⟩ else ⟨t.lines, editKey t.held c⟩

/-- The session that characters make. -/
def session (keys : List UInt8) : Session := keys.foldl Session.key ⟨[], []⟩

/-- What the lines of a session run. -/
def Session.runs (t : Session) : List Ran := t.lines.flatMap (lineRuns kernelCommands)

/-- The calls of handlers from which `main` does not come back: `run` has started a task, or a
function behind `run` or `ls` does not return. -/
def Outcome.Leaves (outcome : Outcome) (argv : List CString) : Handler → Prop
  | .run =>
    2 ≤ argv.length ∧
      (outcome.loaded = .stays ∨ (outcome.loaded = .succeeds ∧ outcome.created ≠ .fails))
  | .ls => outcome.listed = .stays
  | _ => False

/-- `main` is at the `hlt` of `keyboard_getc`: it has found the ring empty. -/
def Shell.AtHlt (s : Shell) : Prop := s.pos = .reading ∧ s.keyboard.getc = .hlt

instance (s : Shell) : Decidable s.AtHlt := inferInstanceAs (Decidable (_ ∧ _))

/-- The cells before the cursor show a line. -/
def Screen.ShowsHeld (s : Screen) (held : CString) : Prop :=
  ∀ i (h : i < held.length),
    s.memory (videoAddress + s.cursorOffset - 2 * (held.length - i : ℕ)) = held[i]

/-! ### A line is run -/

section Lines

variable {commands : List (Command Handler)} {mem : ℕ → UInt8} {a fuel : ℕ} {line : CString}

theorem isBlank_eq (line : CString) : IsBlank line = Blank (fun c => decide (c = 0x20)) line := by
  funext k
  unfold IsBlank Blank
  refine propext ⟨fun h => ⟨_, h, rfl⟩, ?_⟩
  rintro ⟨x, hx, h⟩
  rw [hx, of_decide_eq_true h]

/-- The fields that `command_run` finds are the words of the line. -/
theorem fields_lineWords {ts : List (ℕ × ℕ)} (h : FieldsFrom (IsBlank line) line.length 0 ts) :
    ts.map (fieldText line) = lineWords line := by
  rw [isBlank_eq] at h
  exact h.words_eq (Or.inl rfl)

theorem mapM_some {α β : Type} {f : α → Option β} {g : α → β} :
    ∀ {l : List α}, (∀ x ∈ l, f x = some (g x)) → l.mapM f = some (l.map g)
  | [], _ => rfl
  | x :: l, h => by
    rw [List.mapM_cons, h x List.mem_cons_self,
      mapM_some fun y hy => h y (List.mem_cons_of_mem _ hy)]
    rfl

/-- A handler finds the words of the line at its arguments. -/
theorem RunsLine.argv_words {mem : ℕ → UInt8} {ts : List (ℕ × ℕ)} {r : CommandRun Handler}
    (h : RunsLine commands mem a line ts r) (hfuel : line.length < fuel) :
    r.argv.mapM (stringAt r.mem fuel) = some ((ts.take maxArgs).map (fieldText line)) := by
  rw [h.argv, List.mapM_map]
  refine mapM_some fun t ht => (h.strings t ht).stringAt_eq ?_
  have hin := ((h.fields.mem_iff t).mp (List.mem_of_mem_take ht)).1.inside
  rw [fieldText_length hin]
  omega

/-- What is seen of a run. -/
theorem RunsLine.ran {mem : ℕ → UInt8} {ts : List (ℕ × ℕ)} {r : CommandRun Handler}
    (h : RunsLine commands mem a line ts r) (hfuel : line.length < fuel) :
    r.ran fuel = some (lineRuns commands line) := by
  have hwords : (lineWords line).take maxArgs = (ts.take maxArgs).map (fieldText line) := by
    rw [← fields_lineWords h.fields, List.map_take]
  unfold lineRuns CommandRun.ran
  rw [hwords]
  cases hts : ts with
  | nil =>
    rw [h.none hts]
    rfl
  | cons t us =>
    have hargs := h.argv_words hfuel
    rw [hts] at hargs
    change _ = some (match fieldText line t :: (us.take (maxArgs - 1)).map (fieldText line) with
      | [] => []
      | name :: args => _)
    cases hfind : commands.find? fun c => decide (c.name = fieldText line t) with
    | some c =>
      rw [h.call t c (by rw [hts]; rfl) hfind]
      simp only [List.mapM_cons, hargs]
      rfl
    | none =>
      have hnone : ∀ c ∈ commands, c.name ≠ fieldText line t := fun c hc => by
        simpa using List.find?_eq_none.mp hfind c hc
      rw [h.unknown t (by rw [hts]; rfl) hnone]
      rfl

/-- **What `command_run` does with a line.** -/
theorem commandRun_ran (hline : HoldsString mem a line) (hfuel : line.length < fuel) :
    ∃ r, commandRun commands fuel mem a = some r ∧ r.ran fuel = some (lineRuns commands line) := by
  obtain ⟨ts, r, hr, hruns⟩ := hline.commandRun_runs hfuel commands
  exact ⟨r, hr, hruns.ran hfuel⟩

end Lines

/-! ### The cursor -/

section Cursor

variable {s : Screen} {pos : ℕ} {attr c : UInt8}

theorem printString_at : ∀ {message : CString} {s : Screen} {pos : ℕ}, s.At pos →
    ∃ pos', (s.after (printString message s)).At pos'
  | [], _, pos, hs => ⟨pos, hs⟩
  | c :: cs, s, pos, hs => by
    rw [printString_cons]
    exact printString_at (printChar_moves (by decide) hs)

/-- The calls that the handlers make: they clear the screen, or print at the cursor. -/
def ScreenCall.Flows : ScreenCall → Prop
  | .clearScreen | .printString _ => True
  | _ => False

theorem Screen.calls_at : ∀ {calls : List ScreenCall} {s : Screen} {pos : ℕ}, s.At pos →
    (∀ call ∈ calls, call.Flows) → ∃ pos', (s.calls calls).At pos'
  | [], _, pos, hs, _ => ⟨pos, hs⟩
  | call :: calls, s, pos, hs, hflow => by
    have hcall := hflow call List.mem_cons_self
    have hstep : ∃ pos', (s.after (call.events s)).At pos' := by
      cases call with
      | clearScreen => exact ⟨0, clearScreen_at s⟩
      | printString message => exact printString_at hs
      | printSetColour color => exact hcall.elim
      | printAt message col row => exact hcall.elim
    obtain ⟨pos', hpos'⟩ := hstep
    change ∃ pos', ((s.after (call.events s)).calls calls).At pos'
    exact Screen.calls_at hpos' fun d hd => hflow d (List.mem_cons_of_mem _ hd)

theorem printArgs_flows {argv : List CString} {call : ScreenCall} (h : call ∈ printArgs argv) :
    call.Flows := by
  unfold printArgs at h
  rcases List.mem_append.mp h with h | h
  · obtain ⟨i, -, hi⟩ := List.mem_flatMap.mp h
    rcases List.mem_cons.mp hi with rfl | hi
    · trivial
    · split_ifs at hi
      · rw [List.mem_singleton.mp hi]
        trivial
      · exact absurd hi List.not_mem_nil
  · rw [List.mem_singleton.mp h]
    trivial

/-- No handler puts the cursor elsewhere. -/
theorem Handler.calls_flow (handler : Handler) (outcome : Outcome) (argv : List CString)
    {call : ScreenCall} (h : call ∈ (handler.calls outcome argv).1) : call.Flows := by
  cases handler with
  | help =>
    change call ∈ helpHandler at h
    unfold helpHandler at h
    rcases List.mem_cons.mp h with rfl | h
    · trivial
    · obtain ⟨r, -, hr⟩ := List.mem_flatMap.mp h
      simp only [List.mem_cons, List.not_mem_nil, or_false] at hr
      rcases hr with rfl | rfl | rfl | rfl | rfl <;> trivial
  | cls =>
    rw [List.mem_singleton.mp h]
    trivial
  | version =>
    rw [List.mem_singleton.mp h]
    trivial
  | echo => exact printArgs_flows h
  | print => exact printArgs_flows h
  | run =>
    change call ∈ (runHandler outcome argv).1 at h
    unfold runHandler at h
    -- the usage, a failed load, or what comes behind a load
    split_ifs at h
    · rw [List.mem_singleton.mp h]
      trivial
    cases hloaded : outcome.loaded <;> rw [hloaded] at h
    case fails =>
      simp only [List.mem_cons, List.not_mem_nil, or_false] at h
      rcases h with rfl | rfl | rfl <;> trivial
    case stays => exact absurd h List.not_mem_nil
    cases hcreated : outcome.created <;> rw [hcreated] at h <;>
      simp only [List.mem_cons, List.not_mem_nil, or_false] at h
    · rw [h]
      trivial
    · rcases h with rfl | rfl | rfl <;> trivial
  | ls =>
    change call ∈ (lsHandler outcome argv).1 at h
    unfold lsHandler at h
    dsimp only at h
    generalize (if 1 < argv.length then argv.getD 1 [] else cstr "0:/") = path at h
    have hlisting : call ∈ outcome.listing.map .printString → call.Flows := fun hcall => by
      obtain ⟨text, -, rfl⟩ := List.mem_map.mp hcall
      trivial
    -- the listing, and the message of a failed one
    cases hlisted : outcome.listed <;> rw [hlisted] at h
    · rcases List.mem_append.mp h with h | h
      · exact hlisting h
      · simp only [List.mem_cons, List.not_mem_nil, or_false] at h
        rcases h with rfl | rfl | rfl <;> trivial
    · exact hlisting h
    · exact hlisting h

/-- **Which handlers do not return.** -/
theorem Handler.calls_leaves (handler : Handler) (outcome : Outcome) (argv : List CString) :
    (handler.calls outcome argv).2 = false ↔ outcome.Leaves argv handler := by
  cases handler with
  | run =>
    unfold Handler.calls runHandler Outcome.Leaves
    dsimp only
    by_cases hargc : argv.length < 2
    · rw [if_pos hargc]
      exact iff_of_false (by simp) fun h => absurd h.1 (by omega)
    rw [if_neg hargc]
    have hargc' : 2 ≤ argv.length := by omega
    cases outcome.loaded <;> cases outcome.created <;> simp [hargc']
  | ls =>
    unfold Handler.calls lsHandler Outcome.Leaves
    dsimp only
    cases outcome.listed <;> simp
  | _ => exact iff_of_false (by simp [Handler.calls]) id

theorem Ran.exec_at (outcome : Outcome) (hs : s.At pos) (r : Ran) :
    ∃ pos', (r.exec outcome s).1.At pos' := by
  cases r with
  | call handler argv => exact Screen.calls_at hs fun d hd => handler.calls_flow outcome argv hd
  | print text =>
    refine Screen.calls_at hs fun d hd => ?_
    rw [List.mem_singleton.mp hd]
    trivial

theorem execAll_at (outcome : Outcome) : ∀ {rs : List Ran} {s : Screen} {pos : ℕ}, s.At pos →
    ∃ pos', (execAll outcome s rs).1.At pos'
  | [], _, pos, hs => ⟨pos, hs⟩
  | r :: rs, s, pos, hs => by
    obtain ⟨pos', hpos'⟩ := r.exec_at outcome hs
    rw [execAll]
    split_ifs
    · exact execAll_at outcome hpos'
    · exact ⟨pos', hpos'⟩

/-- `main` does not go on if a handler does not return. -/
theorem execAll_stops (outcome : Outcome) : ∀ {rs : List Ran} {s : Screen},
    (execAll outcome s rs).2 = false →
      ∃ handler argv, Ran.call handler argv ∈ rs ∧ outcome.Leaves argv handler
  | r :: rs, s, h => by
    rw [execAll] at h
    split_ifs at h with hr
    · obtain ⟨handler, argv, hmem, hleaves⟩ := execAll_stops outcome h
      exact ⟨handler, argv, List.mem_cons_of_mem _ hmem, hleaves⟩
    · cases r with
      | call handler argv =>
        exact ⟨handler, argv, List.mem_cons_self, (handler.calls_leaves outcome argv).mp h⟩
      | print text => exact absurd rfl hr

end Cursor

/-! ### The abstract shell -/

section Session

variable {keys : List UInt8} {c : UInt8}

@[simp] theorem session_concat : session (keys ++ [c]) = (session keys).key c := by
  unfold session
  rw [List.foldl_concat]

theorem Session.key_newline (t : Session) : t.key 0x0A = ⟨t.lines ++ [t.held], []⟩ := rfl

theorem Session.key_other (t : Session) (h : c ≠ 0x0A) :
    t.key c = ⟨t.lines, editKey t.held c⟩ := if_neg h

/-- More characters run more. -/
theorem session_runs_grow (more : List UInt8) :
    (session keys).runs <+: (session (keys ++ more)).runs := by
  induction more using List.reverseRecOn with
  | nil => rw [List.append_nil]
  | append_singleton more c ih =>
    rw [← List.append_assoc, session_concat]
    refine ih.trans ?_
    by_cases h : c = 0x0A
    · subst h
      rw [Session.key_newline]
      unfold Session.runs
      rw [List.flatMap_append]
      exact List.prefix_append _ _
    · rw [Session.key_other _ h]
      exact List.prefix_rfl

end Session

/-! ### The keyboard and main -/

section Keys

variable {k t : Keyboard} {out : KeyOut}

theorem addToBuffer_getc (k : Keyboard) (c : UInt8) : (addToBuffer k c).2.getc = k.getc := by
  unfold addToBuffer
  dsimp only
  split_ifs <;> rfl

theorem addToBuffer_out (k : Keyboard) (c : UInt8) :
    (addToBuffer k c).1 = .accepted c ∨ (addToBuffer k c).1 = .dropped c := by
  unfold addToBuffer
  dsimp only
  split_ifs
  · exact Or.inl rfl
  · exact Or.inr rfl

/-- An interrupt returns no character, and accepts none that is `NUL`. -/
theorem keyboardHandler_out (k : Keyboard) (scancode : UInt8) :
    (keyboardHandler k scancode).2.getc = k.getc ∧
      (∀ c, (keyboardHandler k scancode).1 ≠ .returned c) ∧
      (keyboardHandler k scancode).1 ≠ .accepted 0 := by
  have hquiet : ∀ {t : Keyboard}, t.getc = k.getc →
      ((KeyOut.silent, t).2.getc = k.getc ∧ (∀ c, (KeyOut.silent, t).1 ≠ .returned c) ∧
        (KeyOut.silent, t).1 ≠ .accepted 0) := fun ht => ⟨ht, by simp, by simp⟩
  have hadd : ∀ {c : UInt8}, c ≠ 0 → ((addToBuffer k c).2.getc = k.getc ∧
      (∀ d, (addToBuffer k c).1 ≠ .returned d) ∧ (addToBuffer k c).1 ≠ .accepted 0) := by
    intro c hc
    refine ⟨addToBuffer_getc k c, fun d => ?_, ?_⟩
    · rcases addToBuffer_out k c with h | h <;> rw [h] <;> simp
    · rcases addToBuffer_out k c with h | h <;> rw [h] <;> simp [hc]
  unfold keyboardHandler
  dsimp only
  split_ifs with h₁ h₂ h₃ h₄ h₅ h₆ h₆
  · exact hquiet rfl
  · exact hquiet rfl
  · exact hquiet rfl
  · exact hadd h₆
  · exact hquiet rfl
  · exact hadd h₆
  · exact hquiet rfl
  · exact hquiet rfl

/-- `main` accepts no character, and one that is returned to it ends the call. -/
theorem keyboardGetc_out (h : keyboardGetc k = .ok (out, t)) :
    (∀ c, out ≠ .accepted c) ∧ ∀ c, out = .returned c → t.getc = .outside := by
  unfold keyboardGetc at h
  cases hat : k.getc <;> rw [hat] at h <;> cases h <;> simp

/-- The test leads to the `hlt` if the ring is empty. -/
theorem keyboardGetc_hlt (h : keyboardGetc k = .ok (out, t)) (ht : t.getc = .hlt) :
    k.bufferHead = k.bufferTail ∧ t = { k with getc := .hlt } := by
  unfold keyboardGetc at h
  cases hat : k.getc with
  | test =>
    rw [hat] at h
    cases h
    dsimp only at ht
    split_ifs at ht with heq
    exact ⟨heq, by rw [if_pos heq]⟩
  | _ =>
    rw [hat] at h
    cases h <;> cases ht

end Keys

/-! ### The invariant -/

/-- The characters that `keyboard_getc` has returned to `main`. -/
def readChars (os : List ShellOut) : List UInt8 := returnedChars (keyOuts os)

/-- The shell after steps with the outputs `os`. -/
structure Shell.Inv (os : List ShellOut) (s : Shell) : Prop where
  keyboard : s.keyboard.Inv (keyOuts os)
  string : 0 ∉ typedChars os
  cursor : ∃ pos, s.line.screen.At pos
  outside : s.pos ≠ .reading → s.keyboard.getc = .outside ∧ (session (readChars os)).held = []
  done : s.pos ≠ .running → ranAll os = (session (readChars os)).runs
  reading : s.pos = .reading → ∃ s₀ keys, 0 ≤ s₀.cursorOffset ∧ LineInv s₀ keys s.line ∧
    edited keys = (session (readChars os)).held
  running : s.pos = .running → ∃ lines line, (session (readChars os)).lines = lines ++ [line] ∧
    ranAll os = lines.flatMap (lineRuns kernelCommands) ∧ HoldsString s.line.cmdBuf 0 line ∧
    line.length < cmdBufSize
  asleep : s.asleep = true → s.AtHlt

section Outputs

variable {os : List ShellOut} {out : KeyOut} {rs : List Ran}

@[simp] theorem keyOuts_key : keyOuts (os ++ [.key out]) = keyOuts os ++ [out] :=
  List.filterMap_append

@[simp] theorem keyOuts_ran : keyOuts (os ++ [.ran rs]) = keyOuts os :=
  List.filterMap_append.trans (List.append_nil _)

@[simp] theorem ranAll_key : ranAll (os ++ [.key out]) = ranAll os :=
  List.flatMap_append.trans (List.append_nil _)

@[simp] theorem ranAll_ran : ranAll (os ++ [.ran rs]) = ranAll os ++ rs :=
  List.flatMap_append.trans (congrArg _ (List.append_nil _))

theorem ranAll_cons {o : ShellOut} : ranAll (o :: os) = ranAll [o] ++ ranAll os := by
  cases o with
  | key out => rfl
  | ran rs => exact congrArg (· ++ ranAll os) (List.append_nil rs).symm

@[simp] theorem typedChars_ran : typedChars (os ++ [.ran rs]) = typedChars os :=
  congrArg acceptedChars keyOuts_ran

@[simp] theorem readChars_ran : readChars (os ++ [.ran rs]) = readChars os :=
  congrArg returnedChars keyOuts_ran

/-- An output that returns no character. -/
theorem readChars_quiet (h : ∀ c, out ≠ .returned c) :
    readChars (os ++ [.key out]) = readChars os := by
  have hnone : returnedChars [out] = [] := by
    cases out with
    | returned c => exact absurd rfl (h c)
    | _ => rfl
  unfold readChars
  rw [keyOuts_key, returnedChars_append, hnone, List.append_nil]

theorem readChars_returned {c : UInt8} :
    readChars (os ++ [.key (.returned c)]) = readChars os ++ [c] := by
  unfold readChars
  rw [keyOuts_key, returnedChars_append]
  rfl

/-- What is accepted with an output that does not accept `NUL`. -/
theorem typedChars_key (h : out ≠ .accepted 0) (h0 : 0 ∉ typedChars os) :
    0 ∉ typedChars (os ++ [.key out]) := by
  unfold typedChars at h0 ⊢
  rw [keyOuts_key, acceptedChars_append, List.mem_append]
  refine fun hm => hm.elim h0 fun hm => ?_
  cases out with
  | accepted c =>
    have hc : c ≠ 0 := fun hc => h (by rw [hc])
    exact hc (List.mem_singleton.mp hm).symm
  | _ => exact absurd hm List.not_mem_nil

end Outputs

section Steps

variable {os : List ShellOut} {s t : Shell} {out : ShellOut}

/-- The end of a line is put behind its last character. -/
theorem LineInv.endLine {s₀ : Screen} {keys : List UInt8} {l : LineState} (h : LineInv s₀ keys l) :
    HoldsString (endLine l).cmdBuf 0 (edited keys) := by
  unfold VibeKernel.endLine LineState.print
  dsimp only
  rw [h.idx]
  constructor
  · intro i hi
    rw [Nat.zero_add, Function.update_of_ne (ne_of_lt hi)]
    exact h.buf i hi
  · rw [Nat.zero_add, Function.update_self]
  · exact h.string

/-- A line is printed at the cursor. -/
theorem LineState.print_at {l : LineState} {pos : ℕ} (h : l.screen.At pos) (message : CString) :
    ∃ pos', (l.print message).screen.At pos' := printString_at h

theorem lineKey_at {l : LineState} {pos : ℕ} (h : l.screen.At pos) (c : UInt8) :
    ∃ pos', (lineKey l c).screen.At pos' := by
  unfold lineKey
  split_ifs
  · exact LineState.print_at h _
  · exact ⟨pos, h⟩
  · exact LineState.print_at h _
  · exact LineState.print_at h _
  · exact ⟨pos, h⟩

/-- The keyboard does not see that `hlt` ends. -/
theorem Keyboard.Inv.wake {outs : List KeyOut} {k : Keyboard} (h : k.Inv outs)
    (hgetc : k.getc = .hlt) :
    Keyboard.Inv outs { k with getc := .test } where
  head_lt := h.head_lt
  tail_lt := h.tail_lt
  chars := by
    have hchars := h.chars
    unfold Keyboard.inTransit at hchars ⊢
    rwa [hgetc] at hchars
  count := h.count
  reading := nofun
  advancing := nofun

theorem Shell.wake_of_awake (h : s.asleep = false) : s.wake = s := by
  unfold Shell.wake
  rw [if_neg (by simp [h])]

theorem Shell.wake_of_asleep (h : s.asleep = true) :
    s.wake = { s with keyboard := { s.keyboard with getc := .test }, asleep := false } := if_pos h

/-- **`hlt` ends.** -/
theorem Shell.Inv.wake (h : s.Inv os) : s.wake.Inv os := by
  by_cases hasleep : s.asleep = true
  · obtain ⟨hpos, hgetc⟩ := h.asleep hasleep
    rw [Shell.wake_of_asleep hasleep]
    refine ⟨h.keyboard.wake hgetc, h.string, h.cursor, fun hp => absurd hpos hp,
      fun hp => h.done hp, fun hp => h.reading hp, fun hp => ?_, nofun⟩
    exact absurd (hpos.symm.trans hp) (by decide)
  · rwa [Shell.wake_of_awake (by simpa using hasleep)]

/-- **The handler.** -/
theorem Shell.Inv.handles (h : s.Inv os) (scancode : UInt8) :
    Shell.Inv (os ++ [.key (keyboardHandler s.keyboard scancode).1])
      { s with keyboard := (keyboardHandler s.keyboard scancode).2 } := by
  obtain ⟨hgetc, hreturn, haccept⟩ := keyboardHandler_out s.keyboard scancode
  have hread := @readChars_quiet os _ hreturn
  refine ⟨?_, typedChars_key haccept h.string, h.cursor, fun hpos => ?_, fun hpos => ?_,
    fun hpos => ?_, fun hpos => ?_, fun hasleep => ?_⟩
  · rw [keyOuts_key]
    exact keyboardHandler_inv h.keyboard scancode
  · rw [hread, hgetc]
    exact h.outside hpos
  · rw [hread, ranAll_key]
    exact h.done hpos
  · rw [hread]
    exact h.reading hpos
  · rw [hread, ranAll_key]
    exact h.running hpos
  · exact ⟨(h.asleep hasleep).1, hgetc.trans (h.asleep hasleep).2⟩

/-- Away from `hlt` the processor is awake. -/
theorem Shell.Inv.awake (h : s.Inv os) (hpos : s.pos ≠ .reading) : s.asleep ≠ true := fun hasleep =>
  hpos (h.asleep hasleep).1

/-- **The prompt.** -/
theorem Shell.Inv.prompt (h : s.Inv os) (hpos : s.pos = .prompt) :
    Shell.Inv (os ++ [.ran []]) { s with line := startLine s.line.screen, pos := .reading } := by
  obtain ⟨pos, hat⟩ := h.cursor
  have hne : s.pos ≠ .reading := by simp [hpos]
  refine ⟨?_, ?_, ?_, fun hp => absurd rfl hp, fun _ => ?_, fun _ => ?_, nofun,
    fun hasleep => absurd hasleep (h.awake hne)⟩
  · rw [keyOuts_ran]
    exact h.keyboard
  · rw [typedChars_ran]
    exact h.string
  · exact LineState.print_at hat _
  · rw [ranAll_ran, List.append_nil, readChars_ran]
    exact h.done (by simp [hpos])
  · rw [readChars_ran, (h.outside hne).2]
    have hnonneg : 0 ≤ s.line.screen.cursorOffset := by
      rw [show s.line.screen.cursorOffset = 2 * (pos : ℤ) from hat]
      omega
    exact ⟨_, [], startLine_cursor hnonneg, startLine_inv _, rfl⟩

/-- **A statement of `keyboard_getc`** that does not return to `main`. -/
theorem Shell.Inv.waits (h : s.Inv os) (hpos : s.pos = .reading) {o : KeyOut} {k : Keyboard}
    {asleep : Bool}
    (hk : k.Inv (keyOuts os ++ [o])) (haccept : ∀ c, o ≠ .accepted c)
    (hreturn : ∀ c, o ≠ .returned c)
    (hasleep : asleep = true → k.getc = .hlt) :
    Shell.Inv (os ++ [.key o]) { s with keyboard := k, asleep := asleep } := by
  have hread := @readChars_quiet os _ hreturn
  have hrun : s.pos ≠ .running := by simp [hpos]
  refine ⟨by rwa [keyOuts_key], typedChars_key (haccept 0) h.string, h.cursor,
    fun hp => absurd hpos hp, fun _ => ?_, fun _ => ?_, fun hp => absurd hp hrun,
    fun ha => ⟨hpos, hasleep ha⟩⟩
  · rw [hread, ranAll_key]
    exact h.done hrun
  · rw [hread]
    exact h.reading hpos

/-- **A character for `main`.** -/
theorem Shell.Inv.receives (h : s.Inv os) (hpos : s.pos = .reading) {c : UInt8} {k : Keyboard}
    (hk : k.Inv (keyOuts os ++ [.returned c])) (hgetc : k.getc = .outside)
    (hawake : s.asleep ≠ true) :
    Shell.Inv (os ++ [.key (.returned c)])
      (Shell.received { s with keyboard := k } (.returned c)) := by
  obtain ⟨pos, hat⟩ := h.cursor
  obtain ⟨s₀, keys, hs₀, hline, hheld⟩ := h.reading hpos
  have hdone := h.done (by simp [hpos])
  have hstring : 0 ∉ typedChars (os ++ [.key (.returned c)]) := typedChars_key (by simp) h.string
  -- what is returned was accepted
  have h0 : c ≠ 0 := by
    rintro rfl
    refine hstring ?_
    unfold typedChars
    rw [keyOuts_key, hk.chars, returnedChars_append]
    simp [returnedChars]
  have hkeyboard : k.Inv (keyOuts (os ++ [.key (.returned c)])) := by rwa [keyOuts_key]
  unfold Shell.received
  dsimp only
  split_ifs with hn
  · subst hn
    refine ⟨hkeyboard, hstring, LineState.print_at hat _, fun _ => ⟨hgetc, ?_⟩,
      fun hp => absurd rfl hp, nofun, fun _ => ?_, fun ha => absurd ha hawake⟩
    · rw [readChars_returned, session_concat, Session.key_newline]
    · refine ⟨(session (readChars os)).lines, edited keys, ?_, ?_, hline.endLine,
        Nat.lt_succ_of_le hline.short⟩
      · rw [readChars_returned, session_concat, Session.key_newline, hheld]
      · rw [ranAll_key]
        exact hdone
  · refine ⟨hkeyboard, hstring, lineKey_at hat c, fun hp => absurd hpos hp,
      fun _ => ?_, fun _ => ?_, fun hp => ?_, fun ha => absurd ha hawake⟩
    · rw [readChars_returned, session_concat, Session.key_other _ hn, ranAll_key]
      exact hdone
    · refine ⟨s₀, keys ++ [c], hs₀, hline.key hs₀ h0 hn, ?_⟩
      rw [readChars_returned, session_concat, Session.key_other _ hn, edited_concat, hheld]
    · exact absurd (hpos.symm.trans hp) (by decide)

/-- **A line is run.** -/
theorem Shell.Inv.runs (h : s.Inv os) (hpos : s.pos = .running) (outcome : Outcome) :
    ∃ rs mem, (∃ r, commandRun kernelCommands cmdBufSize s.line.cmdBuf 0 = some r ∧
        r.ran cmdBufSize = some rs ∧ r.mem = mem) ∧
      Shell.Inv (os ++ [.ran rs]) { s with
        line := { s.line with cmdBuf := mem, screen := (execAll outcome s.line.screen rs).1 }
        pos := if (execAll outcome s.line.screen rs).2 then .prompt else .away } := by
  obtain ⟨lines, line, hlines, hran, hstring, hshort⟩ := h.running hpos
  obtain ⟨pos, hat⟩ := h.cursor
  obtain ⟨hgetc, hheld⟩ := h.outside (by simp [hpos])
  obtain ⟨r, hrun, hr⟩ := @commandRun_ran kernelCommands _ _ _ _ hstring hshort
  refine ⟨_, _, ⟨r, hrun, hr, rfl⟩, ?_⟩
  have hdone : ranAll (os ++ [.ran (lineRuns kernelCommands line)]) =
      (session (readChars os)).runs := by
    unfold Session.runs
    rw [ranAll_ran, hran, hlines, List.flatMap_append]
    exact congrArg _ (List.append_nil _).symm
  refine ⟨?_, ?_, execAll_at outcome hat, fun _ => ?_, fun _ => ?_, fun hp => ?_, fun hp => ?_,
    fun ha => absurd ha (h.awake (by simp [hpos]))⟩
  · rw [keyOuts_ran]
    exact h.keyboard
  · rw [typedChars_ran]
    exact h.string
  · rw [readChars_ran]
    exact ⟨hgetc, hheld⟩
  · rw [readChars_ran]
    exact hdone
  · dsimp only at hp
    split_ifs at hp
  · dsimp only at hp
    split_ifs at hp

/-- What a step of `main` does while it reads. -/
theorem shellStep_reading (hpos : s.pos = .reading) (hgetc : s.keyboard.getc ≠ .hlt)
    (outcome : Outcome) {o : KeyOut} {k : Keyboard}
    (hk : keyboardStep s.keyboard (if s.keyboard.getc = .outside then .call
      else .next) = .ok (o, k)) :
    shellStep s (.main outcome) = .ok (.key o, Shell.received { s with keyboard := k } o) := by
  unfold shellStep
  simp only [hpos, hk, if_neg hgetc]

/-- **`hlt`.** -/
theorem shellStep_hlt (h : s.AtHlt) (outcome : Outcome) :
    shellStep s (.main outcome) = .ok (.key .silent, { s with asleep := true }) := by
  unfold shellStep
  simp only [h.1, if_pos h.2]

/-- A statement of `keyboard_getc` is possible as long as `main` reads, and accepts no character. -/
theorem keyboardMain_out (k : Keyboard) :
    ∃ o t, keyboardStep k (if k.getc = .outside then .call else .next) = .ok (o, t) ∧
      (∀ c, o ≠ .accepted c) ∧ ∀ c, o = .returned c → t.getc = .outside := by
  by_cases hgetc : k.getc = .outside
  · rw [if_pos hgetc]
    unfold keyboardStep
    dsimp only
    rw [if_pos hgetc]
    exact ⟨_, _, rfl, by simp, by simp⟩
  · rw [if_neg hgetc]
    have hok : ∃ r, keyboardGetc k = .ok r := by
      unfold keyboardGetc
      cases hat : k.getc with
      | outside => exact absurd hat hgetc
      | _ => exact ⟨_, rfl⟩
    obtain ⟨⟨o, t⟩, hr⟩ := hok
    exact ⟨o, t, hr, keyboardGetc_out hr⟩

/-- **One step.** -/
theorem Shell.Inv.step (h : s.Inv os) {i : ShellEvent} (hstep : shellStep s i = .ok (out, t)) :
    t.Inv (os ++ [out]) := by
  cases i with
  | interrupt scancode =>
    cases hstep
    exact (h.handles scancode).wake
  | main outcome =>
    cases hpos : s.pos with
    | prompt =>
      unfold shellStep at hstep
      rw [hpos] at hstep
      cases hstep
      exact h.prompt hpos
    | reading =>
      by_cases hgetc : s.keyboard.getc = .hlt
      · rw [shellStep_hlt ⟨hpos, hgetc⟩] at hstep
        cases hstep
        have hk := h.keyboard.silent rfl rfl rfl rfl h.keyboard.reading h.keyboard.advancing
        exact h.waits hpos hk (by simp) (by simp) fun _ => hgetc
      obtain ⟨o, k, hk, haccept, hreturn⟩ := keyboardMain_out s.keyboard
      rw [shellStep_reading hpos hgetc outcome hk] at hstep
      cases hstep
      have hinv := keyboardStep_inv h.keyboard hk
      -- a statement of `keyboard_getc` other than the `hlt`
      have hawake : s.asleep ≠ true := fun ha => hgetc (h.asleep ha).2
      cases o with
      | returned c => exact h.receives hpos hinv (hreturn c rfl) hawake
      | silent => exact h.waits hpos hinv haccept (by simp) fun ha => absurd ha hawake
      | accepted c => exact absurd rfl (haccept c)
      | dropped c => exact h.waits hpos hinv haccept (by simp) fun ha => absurd ha hawake
      | released => exact h.waits hpos hinv haccept (by simp) fun ha => absurd ha hawake
    | running =>
      obtain ⟨rs, mem, ⟨r, hrun, hr, hmem⟩, hinv⟩ := h.runs hpos outcome
      unfold shellStep at hstep
      simp only [hpos, hrun, hr, hmem] at hstep
      cases hstep
      exact hinv
    | away =>
      unfold shellStep at hstep
      rw [hpos] at hstep
      cases hstep

/-- **How `main` gets away**: by a line whose handler does not return. -/
theorem Shell.Inv.leaves (h : s.Inv os) {i : ShellEvent} (hstep : shellStep s i = .ok (out, t))
    (hs : s.pos ≠ .away) (ht : t.pos = .away) : ∃ outcome handler argv, i = .main outcome ∧
      Ran.call handler argv ∈ ranAll [out] ∧ outcome.Leaves argv handler := by
  cases i with
  | interrupt scancode =>
    cases hstep
    have hpos : (Shell.wake { s with keyboard := (keyboardHandler s.keyboard scancode).2 }).pos =
        s.pos := by
      unfold Shell.wake
      split_ifs <;> rfl
    -- an interrupt leaves `main` where it is
    exact absurd (hpos.symm.trans ht) hs
  | main outcome =>
    cases hpos : s.pos with
    | prompt =>
      unfold shellStep at hstep
      rw [hpos] at hstep
      cases hstep
      cases ht
    | reading =>
      by_cases hgetc : s.keyboard.getc = .hlt
      · rw [shellStep_hlt ⟨hpos, hgetc⟩] at hstep
        cases hstep
        exact absurd ht hs
      obtain ⟨o, k, hk, -⟩ := keyboardMain_out s.keyboard
      rw [shellStep_reading hpos hgetc outcome hk] at hstep
      cases hstep
      -- a character that is received leaves `main` in its loop, or at the end of a line
      have hreceived : (Shell.received { s with keyboard := k } o).pos = s.pos ∨
          (Shell.received { s with keyboard := k } o).pos = .running := by
        unfold Shell.received
        split
        · split_ifs
          · exact Or.inr rfl
          · exact Or.inl rfl
        · exact Or.inl rfl
      rw [ht, hpos] at hreceived
      exact absurd hreceived (by decide)
    | running =>
      obtain ⟨rs, mem, ⟨r, hrun, hr, -⟩, -⟩ := h.runs hpos outcome
      unfold shellStep at hstep
      simp only [hpos, hrun, hr] at hstep
      cases hstep
      dsimp only at ht
      split_ifs at ht with hreturns
      -- a handler in the line has not returned
      obtain ⟨handler, argv, hcall, hleaves⟩ :=
        execAll_stops outcome (Bool.not_eq_true _ ▸ hreturns)
      exact ⟨outcome, handler, argv, rfl, List.mem_append_left _ hcall, hleaves⟩
    | away => exact absurd hpos hs

/-- The same over a run. -/
theorem Shell.Inv.left {is : List ShellEvent} {os' : List ShellOut} (h : s.Inv os)
    (hr : runList shellStep s is = .ok (os', t)) (hs : s.pos ≠ .away) (ht : t.pos = .away) :
    ∃ outcome handler argv, .main outcome ∈ is ∧ Ran.call handler argv ∈ ranAll os' ∧
      outcome.Leaves argv handler := by
  induction is generalizing s os os' with
  | nil =>
    cases hr
    exact absurd ht hs
  | cons i is ih =>
    obtain ⟨out, u, os₁, hstep, hrest, rfl⟩ := runList_cons_ok.mp hr
    by_cases hu : u.pos = .away
    · obtain ⟨outcome, handler, argv, rfl, hcall, hleaves⟩ := h.leaves hstep hs hu
      refine ⟨outcome, handler, argv, List.mem_cons_self, ?_, hleaves⟩
      rw [ranAll_cons]
      exact List.mem_append_left _ hcall
    · obtain ⟨outcome, handler, argv, hmem, hcall, hleaves⟩ := ih (h.step hstep) hrest hu
      refine ⟨outcome, handler, argv, List.mem_cons_of_mem _ hmem, ?_, hleaves⟩
      rw [ranAll_cons]
      exact List.mem_append_right _ hcall

theorem Shell.boot_inv {screen : Screen} (h : ∃ pos, screen.At pos) :
    (Shell.boot screen).Inv [] where
  keyboard := Keyboard.boot_inv
  string := List.not_mem_nil
  cursor := h
  outside _ := ⟨rfl, rfl⟩
  done _ := rfl
  reading hpos := nomatch hpos
  running hpos := nomatch hpos
  asleep hasleep := nomatch hasleep

end Steps

/-! ### Catching up -/

section CatchUp

variable {os : List ShellOut} {s : Shell}

/-- What is left to do before `main` waits for a key: each character in the buffer takes a round of
`keyboard_getc` and perhaps one through `command_run` and the prompt. -/
def Shell.work (s : Shell) : ℕ :=
  10 * s.keyboard.held.length +
    match s.pos with
    | .running => 9
    | .prompt => 8
    | .away => 0
    | .reading =>
      match s.keyboard.getc with
      | .hlt => if s.asleep = true then 0 else 1
      | .outside => 7
      | .test => 6
      | .read => 5
      | .advance _ => 4
      | .ret _ => 12

/-- **A step of `main` gets closer.** -/
theorem Shell.Inv.progress (h : s.Inv os) (hawake : s.asleep ≠ true) (haway : s.pos ≠ .away)
    (outcome : Outcome) : ∃ out t, shellStep s (.main outcome) = .ok (out, t) ∧
      t.work < s.work := by
  cases hpos : s.pos with
  | prompt =>
    -- a line is begun, outside of `keyboard_getc`
    have hgetc := (h.outside (by simp [hpos])).1
    refine ⟨_, _, by unfold shellStep; rw [hpos], ?_⟩
    unfold Shell.work
    simp only [hpos, hgetc]
    exact Nat.add_lt_add_left (by decide) _
  | reading =>
    -- one case for each statement of `keyboard_getc`
    cases hgetc : s.keyboard.getc with
    | outside =>
      have hk : keyboardStep s.keyboard (if s.keyboard.getc = .outside then .call else .next) =
          .ok (.silent, { s.keyboard with getc := .test }) := by
        rw [if_pos hgetc]
        exact if_pos hgetc
      refine ⟨_, _, shellStep_reading hpos (by simp [hgetc]) outcome hk, ?_⟩
      unfold Shell.work
      simp only [Shell.received, hpos, hgetc]
      exact Nat.add_lt_add_left (by decide) _
    | test =>
      have hk : keyboardStep s.keyboard (if s.keyboard.getc = .outside then .call else .next) =
          .ok (.silent, { s.keyboard with
            getc := if s.keyboard.bufferHead = s.keyboard.bufferTail then .hlt else .read }) := by
        rw [if_neg (by simp [hgetc])]
        unfold keyboardStep keyboardGetc
        simp only [hgetc]
      refine ⟨_, _, shellStep_reading hpos (by simp [hgetc]) outcome hk, ?_⟩
      unfold Shell.work
      simp only [Shell.received, hpos, hgetc]
      refine Nat.add_lt_add_left ?_ _
      split_ifs <;> simp
    | hlt =>
      -- `main` is awake, and goes to sleep
      refine ⟨_, _, shellStep_hlt ⟨hpos, hgetc⟩ outcome, ?_⟩
      unfold Shell.work
      simp only [hpos, hgetc, if_neg hawake]
      exact Nat.add_lt_add_left (by decide) _
    | read =>
      have hk : keyboardStep s.keyboard (if s.keyboard.getc = .outside then .call else .next) =
          .ok (.silent, { s.keyboard with
            getc := .advance (s.keyboard.keyboardBuffer s.keyboard.bufferTail) }) := by
        rw [if_neg (by simp [hgetc])]
        unfold keyboardStep keyboardGetc
        simp only [hgetc]
      refine ⟨_, _, shellStep_reading hpos (by simp [hgetc]) outcome hk, ?_⟩
      unfold Shell.work
      simp only [Shell.received, hpos, hgetc]
      exact Nat.add_lt_add_left (by decide) _
    | advance c =>
      have hk : keyboardStep s.keyboard (if s.keyboard.getc = .outside then .call else .next) =
          .ok (.released, { s.keyboard with
            bufferTail := (s.keyboard.bufferTail + 1) % bufferSize, getc := .ret c }) := by
        rw [if_neg (by simp [hgetc])]
        unfold keyboardStep keyboardGetc
        simp only [hgetc]
      refine ⟨_, _, shellStep_reading hpos (by simp [hgetc]) outcome hk, ?_⟩
      -- one character fewer in the ring
      have hheld : s.keyboard.held = s.keyboard.keyboardBuffer s.keyboard.bufferTail ::
          Keyboard.held { s.keyboard with
            bufferTail := (s.keyboard.bufferTail + 1) % bufferSize, getc := .ret c } :=
        ringHeld_front h.keyboard.head_lt h.keyboard.tail_lt (h.keyboard.advancing c hgetc).1
      unfold Shell.work
      simp only [Shell.received, hpos, hgetc]
      rw [hheld, List.length_cons, Nat.mul_succ, Nat.add_assoc]
      exact Nat.add_lt_add_left (by decide) _
    | ret c =>
      -- the character edits the line, or ends it
      have hk : keyboardStep s.keyboard (if s.keyboard.getc = .outside then .call else .next) =
          .ok (.returned c, { s.keyboard with getc := .outside }) := by
        rw [if_neg (by simp [hgetc])]
        unfold keyboardStep keyboardGetc
        simp only [hgetc]
      refine ⟨_, _, shellStep_reading hpos (by simp [hgetc]) outcome hk, ?_⟩
      unfold Shell.received
      dsimp only
      split_ifs <;> unfold Shell.work <;> simp only [hpos, hgetc] <;>
        exact Nat.add_lt_add_left (by decide) _
  | running =>
    -- the line is run, and `main` is at the prompt again or away
    obtain ⟨rs, mem, ⟨r, hrun, hr, -⟩, -⟩ := h.runs hpos outcome
    refine ⟨_, _, by unfold shellStep; simp only [hpos, hrun, hr]; rfl, ?_⟩
    unfold Shell.work
    simp only [hpos]
    refine Nat.add_lt_add_left ?_ _
    split_ifs
    · exact Nat.lt_succ_self 8
    · exact Nat.succ_pos 8
  | away => exact absurd hpos haway

/-- No step of `main` accepts a character. -/
theorem main_typed {outcome : Outcome} {out : ShellOut} {t : Shell}
    (h : shellStep s (.main outcome) = .ok (out, t)) :
      typedChars (os ++ [out]) = typedChars os := by
  cases hpos : s.pos with
  | prompt =>
    unfold shellStep at h
    rw [hpos] at h
    cases h
    exact typedChars_ran
  | reading =>
    by_cases hgetc : s.keyboard.getc = .hlt
    · rw [shellStep_hlt ⟨hpos, hgetc⟩] at h
      cases h
      unfold typedChars
      rw [keyOuts_key, acceptedChars_append]
      exact List.append_nil _
    obtain ⟨o, k, hk, haccept, -⟩ := keyboardMain_out s.keyboard
    rw [shellStep_reading hpos hgetc outcome hk] at h
    cases h
    have hnone : acceptedChars [o] = [] := by
      cases o with
      | accepted c => exact absurd rfl (haccept c)
      | _ => rfl
    unfold typedChars
    rw [keyOuts_key, acceptedChars_append, hnone, List.append_nil]
  | running =>
    unfold shellStep at h
    rw [hpos] at h
    dsimp only at h
    split at h
    · cases h
    · split at h
      · cases h
      · cases h
        exact typedChars_ran
  | away =>
    unfold shellStep at h
    rw [hpos] at h
    cases h

/-- `main` gets to the `hlt` only when the ring is empty. -/
theorem atHlt_of_main {outcome : Outcome} {out : ShellOut} {t : Shell} (h : s.Inv os)
    (hhlt : ¬ s.AtHlt)
    (hstep : shellStep s (.main outcome) = .ok (out, t)) (ht : t.AtHlt) : t.keyboard.held = [] := by
  have hpos : s.pos = .reading := by
    cases hpos : s.pos with
    | reading => rfl
    | prompt =>
      unfold shellStep at hstep
      rw [hpos] at hstep
      cases hstep
      have hgetc := (h.outside (by simp [hpos])).1
      exact absurd (hgetc.symm.trans ht.2) (by decide)
    | running =>
      obtain ⟨rs, mem, ⟨r, hrun, hr, -⟩, -⟩ := h.runs hpos outcome
      have hgetc := (h.outside (by simp [hpos])).1
      unfold shellStep at hstep
      simp only [hpos, hrun, hr] at hstep
      cases hstep
      exact absurd (hgetc.symm.trans ht.2) (by decide)
    | away =>
      unfold shellStep at hstep
      rw [hpos] at hstep
      cases hstep
  have hne : s.keyboard.getc ≠ .hlt := fun hgetc => hhlt ⟨hpos, hgetc⟩
  obtain ⟨o, k, hk, -, -⟩ := keyboardMain_out s.keyboard
  rw [shellStep_reading hpos hne outcome hk] at hstep
  cases hstep
  have hkeyboard : ∀ o, (Shell.received { s with keyboard := k } o).keyboard = k := by
    intro o
    unfold Shell.received
    cases o with
    | returned c => dsimp only; split_ifs <;> rfl
    | _ => rfl
  have hgetc : k.getc = .hlt := by
    rw [← hkeyboard o]
    exact ht.2
  rw [hkeyboard]
  -- only the test leads to `hlt`
  by_cases hout : s.keyboard.getc = .outside
  · rw [if_pos hout] at hk
    unfold keyboardStep at hk
    dsimp only at hk
    rw [if_pos hout] at hk
    cases hk
    cases hgetc
  · rw [if_neg hout] at hk
    -- and it does only from an empty ring
    obtain ⟨heq, rfl⟩ := keyboardGetc_hlt hk hgetc
    unfold Keyboard.held
    rw [heq]
    exact ringHeld_empty h.keyboard.tail_lt

/-- **`main` comes to sleep**, or does not come back from a handler. The ring is empty then, unless
`main` was at the `hlt`: it holds what it held there. -/
theorem Shell.Inv.catchUp (h : s.Inv os) (outcomes : ℕ → Outcome) :
    ∃ n os' t, runList shellStep s ((List.range n).map fun i => .main (outcomes i)) = .ok (os', t) ∧
      t.Inv (os ++ os') ∧ typedChars (os ++ os') = typedChars os ∧
      ((t.asleep = true ∧ (t.keyboard.held = [] ∨ (s.AtHlt ∧ t.keyboard.held = s.keyboard.held))) ∨
        t.pos = .away) := by
  induction hw : s.work using Nat.strong_induction_on generalizing s os outcomes with
  | _ w ih =>
    by_cases hasleep : s.asleep = true
    · exact ⟨0, [], s, rfl, by rwa [List.append_nil], by rw [List.append_nil],
        Or.inl ⟨hasleep, Or.inr ⟨h.asleep hasleep, rfl⟩⟩⟩
    by_cases haway : s.pos = .away
    · exact ⟨0, [], s, rfl, by rwa [List.append_nil], by rw [List.append_nil], Or.inr haway⟩
    obtain ⟨out, t, hstep, hlt⟩ := h.progress hasleep haway (outcomes 0)
    obtain ⟨n, os', u, hrun, hinv, htyped, hu⟩ := ih t.work (hw ▸ hlt) (h.step hstep)
      (fun i => outcomes (i + 1)) rfl
    rw [main_typed hstep] at htyped
    rw [List.append_assoc] at hinv htyped
    refine ⟨n + 1, out :: os', u, ?_, hinv, htyped, hu.imp_left fun ⟨hu, hheld⟩ => ⟨hu, ?_⟩⟩
    · rw [List.range_succ_eq_map, List.map_cons, List.map_map]
      exact runList_cons_ok.mpr ⟨out, t, os', hstep, hrun, rfl⟩
    -- what the ring holds at the `hlt`
    rcases hheld with hempty | ⟨ht, heq⟩
    · exact Or.inl hempty
    · by_cases hhlt : s.AtHlt
      · rw [shellStep_hlt hhlt] at hstep
        cases hstep
        exact Or.inr ⟨hhlt, heq⟩
      · exact Or.inl (heq.trans (atHlt_of_main h hhlt hstep ht))

end CatchUp

/-! ### Sessions -/

section Sessions

variable {os : List ShellOut} {s : Shell}

/-- The line that is edited is on the screen. -/
theorem LineInv.showsHeld {s₀ : Screen} {keys : List UInt8} {l : LineState}
    (h : LineInv s₀ keys l) :
    l.screen.ShowsHeld (edited keys) := by
  intro i hi
  have haddr : videoAddress + l.screen.cursorOffset - 2 * ((edited keys).length - i : ℕ) =
      cellAddr s₀ i := by
    rw [h.shows.cursor]
    unfold cellAddr
    omega
  rw [haddr]
  exact h.shows.cells i hi

/-- What was returned is a part of what was accepted. -/
theorem Shell.Inv.read_prefix (h : s.Inv os) : ∃ more, typedChars os = readChars os ++ more := by
  refine ⟨s.keyboard.inTransit ++ s.keyboard.held, ?_⟩
  rw [← List.append_assoc]
  exact h.keyboard.chars

/-- What has run. -/
theorem Shell.Inv.ran_prefix (h : s.Inv os) : ranAll os <+: (session (readChars os)).runs := by
  by_cases hpos : s.pos = .running
  · obtain ⟨lines, line, hlines, hran, -⟩ := h.running hpos
    unfold Session.runs
    rw [hran, hlines, List.flatMap_append]
    exact List.prefix_append _ _
  · rw [h.done hpos]

/-- A sleeping shell has read all that is not in the ring. -/
theorem Shell.Inv.asleep_read (h : s.Inv os) (hasleep : s.asleep = true) :
    typedChars os = readChars os ++ s.keyboard.held := by
  have hchars := h.keyboard.chars
  unfold Keyboard.inTransit at hchars
  rwa [(h.asleep hasleep).2, List.append_nil] at hchars

/-- A sleeping shell has run all lines that it has read, and shows the one that is edited. -/
theorem Shell.Inv.asleep_runs (h : s.Inv os) (hasleep : s.asleep = true) :
    ranAll os = (session (readChars os)).runs ∧
      s.line.screen.ShowsHeld (session (readChars os)).held := by
  have hpos := (h.asleep hasleep).1
  refine ⟨h.done (by simp [hpos]), ?_⟩
  obtain ⟨s₀, keys, -, hline, hheld⟩ := h.reading hpos
  rw [← hheld]
  exact hline.showsHeld

/-- **A session.** In any interleaving of interrupts with the steps of `main`, what has run is a
beginning of what the abstract shell runs on the characters that the buffer accepted. From any state
`main` comes by its own steps to sleep, unless a handler does not return. It has then run all lines
of the characters that it has read, and the cells before the cursor hold the unfinished line. It has
left no character in the ring, but for those that were there when it was at the `hlt` already. -/
theorem shell_session {screen : Screen} (hscreen : ∃ pos, screen.At pos) {is : List ShellEvent}
    (hr : runList shellStep (Shell.boot screen) is = .ok (os, s)) :
    ranAll os <+: (session (typedChars os)).runs ∧
      ∀ outcomes : ℕ → Outcome, ∃ n os' t,
        runList shellStep s ((List.range n).map fun i => .main (outcomes i)) = .ok (os', t) ∧
          ((t.asleep = true ∧ ∃ read left, typedChars os = read ++ left ∧ t.keyboard.held = left ∧
            ranAll (os ++ os') = (session read).runs ∧ t.line.screen.ShowsHeld (session read).held ∧
            (left = [] ∨ (s.AtHlt ∧ left = s.keyboard.held))) ∨
          t.pos = .away ∧ ∃ outcome handler argv, (.main outcome ∈ is ∨ ∃ i, outcome = outcomes i) ∧
            Ran.call handler argv ∈ ranAll (os ++ os') ∧ outcome.Leaves argv handler) := by
  have hinv : s.Inv os := by
    have h := @runList_history _ _ _ _ shellStep (fun os s => s.Inv os)
      (fun os s i o t hI hs => hI.step hs) _ _ _ _ _ (Shell.boot_inv hscreen) hr
    rwa [List.nil_append] at h
  refine ⟨?_, fun outcomes => ?_⟩
  · obtain ⟨more, hmore⟩ := hinv.read_prefix
    rw [hmore]
    exact hinv.ran_prefix.trans (session_runs_grow more)
  · obtain ⟨n, os', t, hrun, ht, htyped, hend⟩ := hinv.catchUp outcomes
    refine ⟨n, os', t, hrun, ?_⟩
    rcases hend with ⟨hasleep, hheld⟩ | haway
    · have hread := ht.asleep_read hasleep
      rw [htyped] at hread
      obtain ⟨hran, hshown⟩ := ht.asleep_runs hasleep
      exact Or.inl ⟨hasleep, _, _, hread, rfl, hran, hshown, hheld⟩
    · obtain ⟨outcome, handler, argv, hmem, hcall, hleaves⟩ := (Shell.boot_inv hscreen).left
        (runList_append hr hrun) nofun haway
      refine Or.inr ⟨haway, outcome, handler, argv, (List.mem_append.mp hmem).imp_right fun h => ?_,
        hcall, hleaves⟩
      obtain ⟨i, -, hi⟩ := List.mem_map.mp h
      cases hi
      exact ⟨i, rfl⟩

end Sessions

/-- An outcome with which every handler returns. -/
def notFound : Outcome := ⟨.fails, .fails, [], .fails⟩

/-- `run a` is typed, the last two keys of it while `main` is at the first, and the newline when
`main` has found the ring empty. -/
def runTyped : List ShellEvent :=
  [.main notFound, .interrupt 0x13, .interrupt 0x16, .main notFound, .main notFound, .main notFound,
    .interrupt 0x31, .interrupt 0x39, .interrupt 0x1E] ++ List.replicate 24 (.main notFound) ++
    [.interrupt 0x1C]

/-- The newline stays in the ring while `main` sleeps. -/
theorem shell_session_run :
    ∃ os s, runList shellStep (Shell.boot (Screen.boot fun _ => 0)) runTyped = .ok (os, s) ∧
      (session (typedChars os)).runs = [.call .run [cstr "run", cstr "a"]] ∧ s.AtHlt ∧
      s.keyboard.held = [0x0A] ∧ s.asleep = false ∧
      ranAll os <+: (session (typedChars os)).runs ∧
      ∀ outcomes : ℕ → Outcome, ∃ n os' t,
        runList shellStep s ((List.range n).map fun i => .main (outcomes i)) = .ok (os', t) ∧
          ((t.asleep = true ∧ ∃ read left, typedChars os = read ++ left ∧ t.keyboard.held = left ∧
            ranAll (os ++ os') = (session read).runs ∧ t.line.screen.ShowsHeld (session read).held ∧
            (left = [] ∨ (s.AtHlt ∧ left = s.keyboard.held))) ∨
          t.pos = .away ∧ ∃ outcome handler argv, (.main outcome ∈ runTyped ∨
            ∃ i, outcome = outcomes i) ∧
            Ran.call handler argv ∈ ranAll (os ++ os') ∧ outcome.Leaves argv handler) := by
  have hout : ((runList shellStep (Shell.boot (Screen.boot fun _ => 0)) runTyped).toOption.map
      fun r => ((session (typedChars r.1)).runs, decide r.2.AtHlt, r.2.keyboard.held, r.2.asleep)) =
        some ([.call .run [cstr "run", cstr "a"]], true, [0x0A], false) := by
    decide +kernel
  cases hr : runList shellStep (Shell.boot (Screen.boot fun _ => 0)) runTyped with
  | error e =>
    rw [hr] at hout
    cases hout
  | ok r =>
    obtain ⟨os, s⟩ := r
    rw [hr] at hout
    have hval := Option.some.inj hout
    simp only [Prod.mk.injEq, decide_eq_true_eq] at hval
    obtain ⟨hruns, hhlt, hheld, hasleep⟩ := hval
    have hboot : ∃ pos, (Screen.boot fun _ => 0).At pos := ⟨0, rfl⟩
    exact ⟨os, s, rfl, hruns, hhlt, hheld, hasleep, shell_session hboot hr⟩

end VibeKernel
