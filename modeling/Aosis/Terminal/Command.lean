import Aosis.Libc.Str
import Aosis.Terminal.Kshell
import Aosis.Terminal.Print
import Mathlib.Data.List.DropRight

/-!
# Commands

`command_run` of `kernel/terminal/kshell.c` removes the white space at the end of the line, compares
the line with the names in `commands`, and calls the command or prints a message.

* `stripLaw_iff`: the first loop has no bound of its own, so it stays in the line if and only if the
  line has a character that is not white space.
* `commandRun_ok`: then the command with the name of the line runs, if zeros follow the line.
* `commandRun_of_run`: no statement of the loop puts a zero after the line; that zeros are there is
  the invariant `LineInv` of the keys.
-/

namespace Aosis.Terminal

open Aosis.Interrupt Aosis.Lib Aosis.Libc

/-! ### `shell.h` -/

/-- The functions that the table of commands points to. -/
inductive ShellFn where
  | help | clear | exit | demo | amogus | printTick | reboot
  deriving DecidableEq

/-- `struct shell_command`. -/
structure ShellCommand where
  name : String
  msg : String
  cmd : ShellFn
  deriving DecidableEq

/-! ### The source -/

/-- `commands`. -/
def commands : List ShellCommand :=
  [⟨"help", "prints this message", .help⟩, ⟨"clear", "clears the screen", .clear⟩,
    ⟨"exit", "exit the console", .exit⟩, ⟨"demo", "run a demo", .demo⟩, ⟨"amogus", "sus", .amogus⟩,
    ⟨"tick", "print timer tick", .printTick⟩, ⟨"reboot", "reboot computer", .reboot⟩]

/-- `amogus`. -/
def amogus : String := "   ###            \n" ++ "  ##--            \n" ++ "==##---         ==\n" ++
  "==##---      $  ==\n" ++ "==#####      $  ==\n" ++ "==#####    #####==\n" ++
  "  ## ##    ## ##  \n" ++ "  ## ##    ## ##  \n"

/-- What a command uses: the array that `cmd` points to, the screen, the bytes sent to ports, the
timer and `run_cmd`.  `accesses` records the places of the array that the first loop reads and
writes. -/
structure CommandState where
  cmd : Vector (BitVec 8) 1024
  accesses : List Nat
  tty : Tty
  ports : List (Nat × Nat)
  tick : Word
  runCmd : Option ShellFn

/-- A call that changes the screen only. -/
def onTty (f : Tty → Tty) : Kern CommandState Unit := modify fun s => { s with tty := f s.tty }

/-- `tty_printstr`, for a string literal. -/
def ttyPrintstr (str : String) : Kern CommandState Unit :=
  onTty (Print.ttyPrintstr ttyPutc (cstring (ascii str)))

/-- The loop of `cmd_help`. -/
def cmdHelpLoop : List ShellCommand → Kern CommandState Unit
  | [] => pure ()
  | command :: commands => do
    onTty (ttyPutc 9)
    ttyPrintstr command.name
    ttyPrintstr "\t"
    ttyPrintstr command.msg
    onTty (ttyPutc 10)
    cmdHelpLoop commands

/-- The commands.  `cmd_exit` ends in a loop without an exit. -/
def ShellFn.call : ShellFn → Kern CommandState Bool
  | .help => do
    cmdHelpLoop commands
    return true
  | .clear => do
    onTty ttyClear
    return true
  | .exit => do
    ttyPrintstr "    done!\n"
    throw .diverge
  | .demo => do
    ttyPrintstr "demo\n"
    return true
  | .amogus => do
    ttyPrintstr Terminal.amogus
    return true
  | .printTick => do
    let tick := (← get).tick
    onTty fun tty =>
      (Print.kprintf ttyPutc (fun _ => []) (cstring (ascii "Tick: %u\n")) (fun _ => tick) tty).2
    return true
  | .reboot => do
    modify fun s => { s with ports := s.ports ++ [(0x64, 0xFE)] }
    return true

/-- `cmd[i]`. -/
def readCmd (i : Nat) : Kern CommandState (BitVec 8) := fun s =>
  if h : i < 1024 then .ok s.cmd[i] { s with accesses := s.accesses ++ [i] }
  else .error .outOfBounds s

/-- `cmd[i] = c`. -/
def writeCmd (i : Nat) (c : BitVec 8) : Kern CommandState Unit := fun s =>
  if h : i < 1024 then .ok () { s with cmd := s.cmd.set i c, accesses := s.accesses ++ [i] }
  else .error .outOfBounds s

/-- The first loop of `command_run`, with the value of `len` that it leaves.  When `len` is zero it
reads the byte before the array. -/
def commandStrip : Nat → Kern CommandState Nat
  | 0 => throw .outOfBounds
  | len + 1 => do
    let c ← readCmd len
    if isspace c.toNat = 0 then
      writeCmd len 0
      commandStrip len
    else return len + 1

/-- The loop of `command_run` that looks for the name. -/
def commandFind : List ShellCommand → Kern CommandState Unit
  | [] => pure ()
  | command :: commands => fun s =>
    match strcmp (cstring (ascii command.name)) s.cmd.toList with
    | .error e => .error e s
    | .ok r =>
      if r = 0 then .ok () { s with runCmd := some command.cmd } else commandFind commands s

/-- The end of `command_run`: the call of `run_cmd`, or the message. -/
def commandFinish (len : Nat) : Kern CommandState Unit := fun s =>
  match s.runCmd with
  | some f =>
    (do
      let _ ← f.call
      return () : Kern CommandState Unit) s
  | none =>
    (do
      ttyPrintstr "Unknown command '"
      onTty (ttyWrite (s.cmd.toList.take len))
      ttyPrintstr "'\n" : Kern CommandState Unit) s

/-- `command_run`. -/
def commandRun (len : Nat) : Kern CommandState Unit := do
  let len ← commandStrip len
  modify fun s => { s with runCmd := none }
  commandFind commands
  commandFinish len

/-! ### The first loop -/

/-- The character is not white space. -/
def Inked (c : BitVec 8) : Prop := isspace c.toNat ≠ 0

instance (c : BitVec 8) : Decidable (Inked c) := inferInstanceAs (Decidable (_ ≠ _))

/-- The line without the white space at its end. -/
def stripped (line : List (BitVec 8)) : List (BitVec 8) := line.rdropWhile fun c => ¬ Inked c

section Strip

variable {line : List (BitVec 8)} {c : BitVec 8} {s : CommandState} {len : Nat}

theorem stripped_concat : stripped (line ++ [c]) = if Inked c then line ++ [c] else stripped line := by
  rw [stripped, List.rdropWhile_concat]
  by_cases hc : Inked c <;> simp [hc, stripped]

theorem readCmd_ok (h : len < 1024) :
    readCmd len s = .ok s.cmd[len] { s with accesses := s.accesses ++ [len] } := dif_pos h

theorem writeCmd_ok (h : len < 1024) : writeCmd len c s =
    .ok () { s with cmd := s.cmd.set len c, accesses := s.accesses ++ [len] } := dif_pos h

/-- **The loop on a line with a character that is not white space.**  It returns the length of the
line without the white space at its end, and has put zeros in the place of that. -/
theorem commandStrip_ok : ∀ {len : Nat} {s : CommandState}, len ≤ 1024 →
    (∃ c ∈ s.cmd.toList.take len, Inked c) →
    ∃ cmd accesses, commandStrip len s = .ok (stripped (s.cmd.toList.take len)).length
        { s with cmd := cmd, accesses := s.accesses ++ accesses } ∧
      (∀ i ∈ accesses, i < len) ∧
      ∃ n, cmd.toList = stripped (s.cmd.toList.take len) ++ List.replicate n 0 ++
        s.cmd.toList.drop len := by
  intro len
  induction len with
  | zero => intro s _ h; simp at h
  | succ len ih =>
    intro s hlen hink
    have hlt : len < 1024 := hlen
    rw [commandStrip, Kern.bind_ok (readCmd_ok hlt), take_toList_succ s.cmd hlt, stripped_concat]
    by_cases hc : Inked s.cmd[len]
    · rw [if_neg hc, if_pos hc]
      refine ⟨s.cmd, [len], ?_, by simp, 0, ?_⟩
      · simp [pure, EStateM.pure, hlt.le]
      · rw [List.replicate_zero, List.append_nil, ← take_toList_succ s.cmd hlt, List.take_append_drop]
    · rw [if_pos (not_not.mp hc), if_neg hc, Kern.bind_ok (writeCmd_ok hlt)]
      have htake := take_toList_set s.cmd 0 hlt
      have hdrop : (s.cmd.set len 0).toList.drop len = 0 :: s.cmd.toList.drop (len + 1) := by
        rw [Vector.toList_set, List.drop_eq_getElem_cons (by simpa using hlt)]
        simp [List.drop_set]
      obtain ⟨cmd, accesses, hstrip, hacc, n, hcmd⟩ := ih
        (s := { s with cmd := s.cmd.set len 0, accesses := s.accesses ++ [len] ++ [len] }) hlt.le (by
          rw [htake]
          obtain ⟨c, hmem, hic⟩ := hink
          rw [take_toList_succ s.cmd hlt, List.mem_append, List.mem_singleton] at hmem
          rcases hmem with hmem | rfl
          · exact ⟨c, hmem, hic⟩
          · exact absurd hic hc)
      simp only [htake] at hstrip hcmd
      refine ⟨cmd, [len, len] ++ accesses, ?_, ?_, n + 1, ?_⟩
      · rw [hstrip, List.append_assoc s.accesses, List.append_assoc s.accesses]
        rfl
      · intro i hi
        rw [List.mem_append] at hi
        rcases hi with hi | hi
        · simp only [List.mem_cons, List.not_mem_nil, or_false, or_self] at hi
          omega
        · exact (hacc i hi).trans (Nat.lt_succ_self len)
      · rw [hcmd, hdrop, List.replicate_succ']
        simp

/-- **The loop on a line of white space** goes on to the byte before the array. -/
theorem commandStrip_error : ∀ {len : Nat} {s : CommandState}, len ≤ 1024 →
    (∀ c ∈ s.cmd.toList.take len, ¬ Inked c) → ∃ s', commandStrip len s = .error .outOfBounds s' := by
  intro len
  induction len with
  | zero => intro s _ _; exact ⟨s, rfl⟩
  | succ len ih =>
    intro s hlen hblank
    have hlt : len < 1024 := hlen
    rw [take_toList_succ s.cmd hlt] at hblank
    have hc := hblank s.cmd[len] (by simp)
    rw [commandStrip, Kern.bind_ok (readCmd_ok hlt), if_pos (not_not.mp hc),
      Kern.bind_ok (writeCmd_ok hlt)]
    refine ih hlt.le fun c hmem => hblank c ?_
    rw [take_toList_set s.cmd 0 hlt] at hmem
    exact List.mem_append_left _ hmem

end Strip

/-- On the line the first loop ends, reads and writes only places of the line, and leaves the length
of the line without the white space at its end. -/
def StripLaw (l : CmdLine) : Prop :=
  ∀ s : CommandState, s.cmd = l.cmd → s.accesses = [] →
    ∃ s', commandStrip l.cmdLen s = .ok (stripped l.text).length s' ∧ ∀ i ∈ s'.accesses, i < l.cmdLen

/-- **When the first loop stays in the line.**  For every content of the array and every length this
is so if and only if the line has a character that is not white space. -/
theorem stripLaw_iff (l : CmdLine) : StripLaw l ↔ ∃ c ∈ l.text, Inked c := by
  constructor
  · intro h
    by_contra hblank
    simp only [not_exists, not_and] at hblank
    obtain ⟨s', hstrip, -⟩ := h ⟨l.cmd, [], ttyStatic, [], 0, none⟩ rfl rfl
    obtain ⟨s'', herror⟩ := commandStrip_error
      (s := ⟨l.cmd, [], ttyStatic, [], 0, none⟩) l.len_le hblank
    rw [herror] at hstrip
    cases hstrip
  · intro hink s hcmd haccesses
    rw [CmdLine.text, ← hcmd] at hink ⊢
    obtain ⟨cmd, accesses, hstrip, hacc, -⟩ := commandStrip_ok l.len_le hink
    refine ⟨_, hstrip, ?_⟩
    rw [haccesses]
    exact hacc

/-- Enter on the empty line reads `cmd[-1]`. -/
theorem not_stripLaw_empty :
    (∃ s, kshellKey ⟨{}, keyEnter⟩ ⟨keyboard, ttyStatic, CmdLine.empty, .halt⟩ = .ok (some []) s) ∧
      ¬ StripLaw CmdLine.empty := by
  refine ⟨⟨_, rfl⟩, ?_⟩
  intro h
  obtain ⟨s', hstrip, -⟩ := h ⟨CmdLine.empty.cmd, [], ttyStatic, [], 0, none⟩ rfl rfl
  cases hstrip

/-! ### The search -/

/-- The command whose name is the line. -/
def lookup (line : List (BitVec 8)) : Option ShellFn :=
  (commands.find? fun command => ascii command.name = line).map ShellCommand.cmd

/-- What `command_run` does after the search: it calls the command that was found, or prints the
message with the line. -/
def respond (line : List (BitVec 8)) : Option ShellFn → Kern CommandState Unit
  | some f => do
    let _ ← f.call
    return ()
  | none => do
    ttyPrintstr "Unknown command '"
    onTty (ttyWrite line)
    ttyPrintstr "'\n"

theorem commands_name : ∀ command ∈ commands,
    0 ∉ ascii command.name ∧ (ascii command.name).length < 1024 := by decide

theorem commands_distinct : ∀ a ∈ commands, ∀ b ∈ commands,
    (a.cmd = b.cmd ↔ ascii a.name = ascii b.name) := by decide

section Search

variable {line : List (BitVec 8)} {s : CommandState} {len : Nat}

/-- **The command that is found is the one with the name of the line.** -/
theorem lookup_eq_some_iff {command : ShellCommand} (h : command ∈ commands) :
    lookup line = some command.cmd ↔ ascii command.name = line := by
  rw [lookup, Option.map_eq_some_iff]
  constructor
  · intro ⟨found, hfind, hcmd⟩
    have hname : ascii found.name = line := by simpa using List.find?_some hfind
    rw [← hname]
    exact ((commands_distinct _ (List.mem_of_find?_eq_some hfind) _ h).mp hcmd).symm
  · intro hname
    cases hfind : commands.find? fun command => ascii command.name = line with
    | none =>
      have hne := List.find?_eq_none.mp hfind command h
      exact absurd (decide_eq_true hname) hne
    | some found =>
      have hfound : ascii found.name = line := by simpa using List.find?_some hfind
      exact ⟨found, rfl, (commands_distinct _ (List.mem_of_find?_eq_some hfind) _ h).mpr
        (hfound.trans hname.symm)⟩

theorem lookup_eq_none_iff : lookup line = none ↔
    ∀ command ∈ commands, ascii command.name ≠ line := by
  simp [lookup]

theorem commandFind_ok (hline : 0 ∉ line) {n : Nat} (hcmd : s.cmd.toList = line ++ List.replicate n 0) :
    ∀ {cs : List ShellCommand}, cs ⊆ commands → commandFind cs s = .ok () { s with
      runCmd := ((cs.find? fun command => ascii command.name = line).map ShellCommand.cmd).or
        s.runCmd } := by
  intro cs
  induction cs with
  | nil => intro _; rfl
  | cons command cs ih =>
    intro hsub
    rw [List.cons_subset] at hsub
    obtain ⟨hzero, hlen⟩ := commands_name command hsub.1
    have hlen' : (ascii command.name).length < s.cmd.toList.length := by simpa using hlen
    obtain ⟨r, hr, hiff⟩ := strcmp_eq_zero_iff hzero hlen'
    rw [hcmd, List.length_append, List.length_replicate] at hlen'
    rw [hcmd, cstring_isPrefix_iff hzero hline hlen'] at hiff
    dsimp only [commandFind]
    rw [hr]
    by_cases hname : ascii command.name = line
    · simp [hname, hiff.mpr hname]
    · have hr0 : ¬ r = 0 := fun h0 => hname (hiff.mp h0)
      simpa [List.find?_cons, hname, hr0] using ih hsub.2

/-- **`command_run` on a line that zeros follow**, with a character that is not white space: the
line without the white space at its end decides. -/
theorem commandRun_ok (hlen : len ≤ 1024) (hink : ∃ c ∈ s.cmd.toList.take len, Inked c)
    (hzero : 0 ∉ s.cmd.toList.take len) {n : Nat} (hrest : s.cmd.toList.drop len = List.replicate n 0)
    (hline : line = stripped (s.cmd.toList.take len)) :
    ∃ cmd accesses, commandRun len s = respond line (lookup line) { s with
      cmd := cmd
      accesses := s.accesses ++ accesses
      runCmd := lookup line } := by
  obtain ⟨cmd, accesses, hstrip, -, m, hcmd⟩ := commandStrip_ok hlen hink
  rw [← hline] at hstrip hcmd
  rw [hrest, List.append_assoc, ← List.replicate_add] at hcmd
  have hnonzero : 0 ∉ line := by
    intro hmem
    rw [hline] at hmem
    exact hzero ((List.rdropWhile_prefix _ _).mem hmem)
  refine ⟨cmd, accesses, ?_⟩
  rw [commandRun, Kern.bind_ok hstrip, Kern.bind_ok (Kern.modify_ok _ _),
    Kern.bind_ok (commandFind_ok hnonzero hcmd (List.Subset.refl commands)), Option.or_none,
    ← lookup, commandFinish]
  cases lookup line with
  | some f => rfl
  | none =>
    have htake : cmd.toList.take line.length = line := by rw [hcmd, List.take_left']; rfl
    dsimp only
    rw [htake]
    rfl

end Search

/-! ### The line of the shell -/

/-- A key that the loop handles, in the order in which it handles them; keys may come in between, and
`command_run` may leave any screen. -/
inductive KeyStep : Shell → Key → Shell → Prop
  | edit {s s' : Shell} {k : Key} (kb : Keyboard)
      (h : kshellKey k { s with keyboard := kb } = .ok none s') : KeyStep s k s'
  | enter {s s' : Shell} {k : Key} {line : List (BitVec 8)} (kb : Keyboard) (tty : Tty)
      (h : kshellKey k { s with keyboard := kb } = .ok (some line) s') :
      KeyStep s k (kshellPrompt tty s')

/-- The shell before the loop. -/
def kshellInit (tty : Tty) : Shell := ⟨keyboard, tty, CmdLine.empty, .halt⟩

/-- The line is in the array, and only zeros follow it. -/
structure LineInv (line : List (BitVec 8)) (l : CmdLine) : Prop where
  text : l.text = line
  rest : l.cmd.toList.drop l.cmdLen = List.replicate (1024 - l.cmdLen) 0
  nonzero : 0 ∉ line

namespace LineInv

variable {line : List (BitVec 8)} {l : CmdLine} {c : BitVec 8}

theorem empty : LineInv [] CmdLine.empty where
  text := CmdLine.text_empty
  rest := by
    show (Vector.replicate 1024 0).toList.drop 0 = List.replicate (1024 - 0) 0
    rw [List.drop_zero, Vector.toList_replicate, Nat.sub_zero]
  nonzero := List.not_mem_nil

theorem removeLast (h : LineInv line l) (hlen : 0 < l.cmdLen) :
    LineInv line.dropLast (l.removeLast hlen) where
  text := by rw [CmdLine.text_removeLast, h.text]
  rest := by
    have hle := l.len_le
    have hcell : l.cmdLen - 1 < (l.cmd.toList.set (l.cmdLen - 1) 0).length := by simp; omega
    have hnext : l.cmdLen - 1 + 1 = l.cmdLen := by omega
    have hn : 1024 - (l.cmdLen - 1) = 1024 - l.cmdLen + 1 := by omega
    simp only [CmdLine.removeLast, Vector.toList_set]
    rw [List.drop_eq_getElem_cons hcell, List.getElem_set_self, List.drop_set_of_lt (by omega), hnext,
      h.rest, hn, List.replicate_succ]
  nonzero hmem := h.nonzero ((List.dropLast_prefix line).mem hmem)

theorem append (h : LineInv line l) (hlen : l.cmdLen < 1024) (hc : c ≠ 0) :
    LineInv (line ++ [c]) (l.append c hlen) where
  text := by rw [CmdLine.text_append, h.text]
  rest := by
    have hn : 1024 - (l.cmdLen + 1) = 1024 - l.cmdLen - 1 := by omega
    simp only [CmdLine.append, Vector.toList_set]
    rw [List.drop_set_of_lt (Nat.lt_add_one l.cmdLen), ← List.drop_drop, h.rest, List.drop_replicate,
      hn]
  nonzero := by
    rw [List.mem_append, List.mem_singleton, not_or]
    exact ⟨h.nonzero, Ne.symm hc⟩

end LineInv

section Run

variable {s s' : Shell} {k : Key} {keys : List Key} {tty : Tty}

theorem ofNat_ne_zero_of_accepted {key : Nat} (h : Accepted key) : BitVec.ofNat 8 key ≠ 0 := by
  have hrange : 9 ≤ key ∧ key ≤ 126 := by
    rcases h with h | h
    · rw [isprint] at h
      split at h <;> omega
    · rw [isspace] at h
      split at h <;> omega
  intro hzero
  have hmod : key % 256 = 0 := by simpa using congrArg BitVec.toNat hzero
  omega

/-- **One key keeps the zeros after the line.** -/
theorem KeyStep.lineInv (hs : KeyStep s k s') (hi : LineInv (typed keys).2 s.line) :
    LineInv (typed (keys ++ [k])).2 s'.line := by
  rw [typed_append]
  cases hs with
  | edit kb h =>
    have hedit : k.key ≠ keyEnter → (typeKey (typed keys) k).2 = editKey (typed keys).2 k.key := by
      intro henter
      rw [typeKey, if_neg henter]
    rcases kshellKey_cases h with ⟨hlen, hkey, -, -, hremove, -, -⟩ | ⟨-, hout, -⟩ |
      ⟨hlen, henter, hacc, -, rfl⟩ | ⟨henter, hsame, -, rfl⟩
    · rw [hedit (by rw [hkey]; decide), hkey, editKey_backspace, hremove]
      exact hi.removeLast hlen
    · cases hout
    · rw [hedit henter, editKey_accepted hacc (by rw [← hi.text, CmdLine.text_length]; exact hlen)]
      exact hi.append hlen (ofNat_ne_zero_of_accepted hacc)
    · rw [hedit henter, ← hi.text, hsame, hi.text]
      exact hi
  | enter kb tty h =>
    rcases kshellKey_cases h with ⟨-, -, hout, -⟩ | ⟨henter, -, -⟩ | ⟨-, -, -, hout, -⟩ |
      ⟨-, -, hout, -⟩
    · cases hout
    · rw [typeKey, if_pos henter]
      exact LineInv.empty
    · cases hout
    · cases hout

theorem lineInv_of_run (h : Run KeyStep (kshellInit tty) keys s) :
    LineInv (typed keys).2 s.line := by
  induction h with
  | nil => exact LineInv.empty
  | snoc _ hs ih => exact hs.lineInv ih

/-- **The commands are exact.**  After every sequence of keys, when Enter is handled and the line has
a character that is not white space, `command_run` runs the command whose name is the line without
the white space at its end, and prints the message with this line if there is none. -/
theorem commandRun_of_run (h : Run KeyStep (kshellInit tty) keys s) {kb : Keyboard}
    {line : List (BitVec 8)} (henter : kshellKey k { s with keyboard := kb } = .ok (some line) s')
    (hink : ∃ c ∈ (typed keys).2, Inked c) {t : CommandState} (ht : t.cmd = s'.line.cmd) :
    line = (typed keys).2 ∧ ∃ cmd accesses found,
      (∀ command ∈ commands, found = some command.cmd ↔ ascii command.name = stripped line) ∧
      (found = none ↔ ∀ command ∈ commands, ascii command.name ≠ stripped line) ∧
      commandRun s'.line.cmdLen t = respond (stripped line) found
        { t with cmd := cmd, accesses := t.accesses ++ accesses, runCmd := found } := by
  have hi := lineInv_of_run h
  rcases kshellKey_cases henter with ⟨-, -, hout, -⟩ | ⟨-, hout, rfl⟩ | ⟨-, -, -, hout, -⟩ |
    ⟨-, -, hout, -⟩
  · cases hout
  · cases hout
    have htext : t.cmd.toList.take s.line.cmdLen = (typed keys).2 := by rw [ht]; exact hi.text
    refine ⟨hi.text, ?_⟩
    have hline : stripped s.line.text = stripped (t.cmd.toList.take s.line.cmdLen) := by
      rw [htext, hi.text]
    obtain ⟨cmd, accesses, hrun⟩ := commandRun_ok s.line.len_le (by rwa [htext])
      (by rw [htext]; exact hi.nonzero) (by rw [ht]; exact hi.rest) hline
    exact ⟨cmd, accesses, _, fun command hmem => lookup_eq_some_iff hmem, lookup_eq_none_iff, hrun⟩
  · cases hout
  · cases hout

theorem exists_run_chars (tty : Tty) (chars : List Keycode) (hacc : ∀ c ∈ chars, Accepted c)
    (hne : keyEnter ∉ chars) (hlen : chars.length ≤ 1024) :
    ∃ s, Run KeyStep (kshellInit tty) (chars.map fun c => ⟨{}, c⟩) s ∧
      s.line.text = chars.map (BitVec.ofNat 8) := by
  induction chars using List.reverseRecOn with
  | nil => exact ⟨_, .nil, CmdLine.text_empty⟩
  | append_singleton chars c ih =>
    rw [List.length_append, List.length_singleton] at hlen
    rw [List.mem_append, List.mem_singleton, not_or] at hne
    obtain ⟨s, hrun, htext⟩ := ih (fun d hd => hacc d (List.mem_append_left _ hd)) hne.1 (by omega)
    have hc := hacc c (by simp)
    have hroom : s.line.cmdLen < 1024 := by
      rw [← CmdLine.text_length, htext, List.length_map]
      exact hlen
    have hstep := kshellKey_append (k := ⟨{}, c⟩) { s with keyboard := s.keyboard } hc
      (Ne.symm hne.2) hroom
    refine ⟨_, by rw [List.map_append]; exact hrun.snoc (.edit _ hstep), ?_⟩
    rw [CmdLine.text_append, htext, List.map_append]
    rfl

end Run

/-- The line `tick` with a blank after it. -/
theorem commandRun_tick : ∃ s s' cmd, Run KeyStep (kshellInit ttyStatic)
      ([116, 105, 99, 107, 32].map fun c => ⟨{}, c⟩) s ∧
    kshellKey ⟨{}, keyEnter⟩ { s with keyboard := keyboard } = .ok (some (ascii "tick ")) s' ∧
      commandRun s'.line.cmdLen ⟨s'.line.cmd, [], ttyStatic, [], 0, none⟩ =
        respond (ascii "tick") (some .printTick) cmd := by
  obtain ⟨s, hrun, htext⟩ := exists_run_chars ttyStatic [116, 105, 99, 107, 32] (by decide)
    (by decide) (by decide)
  have henter : kshellKey ⟨{}, keyEnter⟩ { s with keyboard := keyboard } =
      .ok (some (ascii "tick ")) { s with
        keyboard := keyboard
        tty := ttyPutc 10 s.tty
        pc := .command } := by
    rw [kshellKey, dif_neg (fun h => absurd h.1 (by decide)), if_pos rfl, htext]
    rfl
  obtain ⟨-, cmd, accesses, found, hfound, -, hcommand⟩ := commandRun_of_run hrun henter
    ⟨116, by decide, by decide⟩ (t := ⟨s.line.cmd, [], ttyStatic, [], 0, none⟩) rfl
  have htick := (hfound ⟨"tick", "print timer tick", .printTick⟩ (by decide)).mpr (by decide)
  rw [htick] at hcommand
  exact ⟨s, _, _, hrun, henter, hcommand⟩

end Aosis.Terminal
