import Aosis.Interrupt.KeyboardLine
import Aosis.Terminal.Command

/-!
# From the keys to the commands

The whole way of a line: the keyboard makes bytes, its interrupt brings them to `isr_key_press`, the
decoded keys wait in the queue, the loop of `kshell` edits the line, and `command_run` looks for the
command and runs it.  Interrupts of all devices come in between, and other tasks print.

* `Console.Step.machine_code`: the loop of the shell is code outside the handlers, so a run of the
  console is a run of the machine.
* `Inv.drop`: the branch of Backspace drops a key, which does no harm when the line would ignore it,
  such as the zero that the release of a key leaves.
* `Console.law_of_run`: the commands that run are those of the lines that were typed, in their order.
-/

namespace Aosis.Terminal

open Aosis.Interrupt Aosis.Lib Aosis.Lib.Pic8259

/-! ### A key that the line ignores -/

/-- A key that neither edits the line nor ends it. -/
def Ignored (k : Keycode) : Prop := k ≠ keyEnter ∧ k ≠ keyBackspace ∧ ¬ Accepted k

instance (k : Keycode) : Decidable (Ignored k) := inferInstanceAs (Decidable (_ ∧ _))

section Ignored

variable {s : Sys} {q handled : List Key} {k d : Key}

theorem typeKey_ignored (hd : Ignored d.key) (text : List (List (BitVec 8)) × List (BitVec 8)) :
    typeKey text d = text := by
  rw [typeKey, if_neg hd.1, editKey, if_neg hd.2.1, if_neg fun h => hd.2.2 h.1]

/-- **The branch of Backspace** when the key that it drops is one that the line ignores. -/
theorem Inv.drop (hi : Inv s (d :: q) handled) (hpc : s.shell.pc = .key k) (hkey : k.key = keyBackspace)
    (hlen : 0 < s.shell.line.cmdLen) (hd : Ignored d.key) {line : Option (List (BitVec 8))}
    {shell : Shell} (h : kshellKey k s.shell = .ok line shell) :
    Inv ⟨shell, s.keys, s.lines ++ line.toList⟩ q (handled ++ [k] ++ [d]) := by
  have hkeys := hi.keys
  have hline := hi.line (by rw [hpc]; exact Pc.noConfusion)
  rw [Shell.pending, hpc, List.append_cons] at hkeys
  have htyped : typed (handled ++ [k] ++ [d]) = ((typed handled).1, s.shell.line.text.dropLast) := by
    rw [typed_append, typeKey_ignored hd, typed_append, typeKey, if_neg (by rw [hkey]; decide), hkey,
      editKey_backspace, hline]
  rcases kshellKey_cases h with ⟨_, -, rfl, ⟨_, hget⟩, hremove, -, hhalt⟩ | ⟨henter, -, -⟩ |
    ⟨_, -, hacc, -, -⟩ | ⟨-, hsame, -, -⟩
  · obtain ⟨kb, hget', hin⟩ := hi.inOrder.getKey hi.count false
    rw [hget] at hget'
    cases hget'
    refine ⟨hin, ?_, hi.count, ?_, fun _ => ?_, fun hc => ?_⟩
    · rw [Shell.pending, hhalt, List.append_assoc _ [d]]
      exact hkeys
    · rw [htyped, Option.toList_none, List.append_nil, hi.lines]
    · rw [htyped, hremove, CmdLine.text_removeLast]
    · rw [hhalt] at hc
      exact Pc.noConfusion hc
  · rw [hkey] at henter
    exact absurd henter (by decide)
  · exact absurd hkey hacc.ne_backspace
  · -- the line has a character to remove
    rw [hkey, editKey_backspace] at hsame
    have hshort := congrArg List.length hsame
    rw [List.length_dropLast, CmdLine.text_length] at hshort
    omega

theorem Inv.withTty (hi : Inv s q handled) (tty : Tty) :
    Inv { s with shell := { s.shell with tty := tty } } q handled :=
  ⟨hi.inOrder, hi.keys, hi.count, hi.lines, hi.line, hi.command⟩

end Ignored

/-! ### The keys of the bytes -/

/-- The key that the handler puts into the queue for a byte, if it does. -/
def keyOf (st : KbState) (b : BitVec 8) : List Key :=
  if Queues st b then [⟨st, decodeScancode st b⟩] else []

/-- The keys that the handler puts into the queue for the bytes. -/
def keysOf : KbState → List (BitVec 8) → List Key
  | _, [] => []
  | st, b :: bytes => keyOf st b ++ keysOf (st.next b) bytes

theorem keysOf_append (more : List (BitVec 8)) : ∀ (bytes : List (BitVec 8)) (st : KbState),
    keysOf st (bytes ++ more) = keysOf st bytes ++ keysOf (bytes.foldl KbState.next st) more := by
  intro bytes
  induction bytes with
  | nil => intro st; rfl
  | cons b bytes ih =>
    intro st
    rw [List.cons_append, keysOf, keysOf, ih, List.append_assoc, List.foldl_cons]

theorem keysOf_concat (bytes : List (BitVec 8)) (b : BitVec 8) (st : KbState) :
    keysOf st (bytes ++ [b]) = keysOf st bytes ++ keyOf (bytes.foldl KbState.next st) b := by
  rw [keysOf_append, keysOf, keysOf, List.append_nil]

/-- The lines that the bytes of the keyboard make: the complete ones, and the one that is begun. -/
def linesOf (bytes : List (BitVec 8)) : List (List (BitVec 8)) × List (BitVec 8) :=
  typed (keysOf {} bytes)

/-- The command of a line. -/
def commandOf (line : List (BitVec 8)) : Option ShellFn := lookup (stripped line)

theorem linesOf_isPrefix (bytes more : List (BitVec 8)) :
    (linesOf bytes).1 <+: (linesOf (bytes ++ more)).1 := by
  rw [linesOf, linesOf, keysOf_append]
  exact typed_isPrefix _ _

/-! ### The line -/

theorem lineInv_kshellKey {k : Key} {shell shell' : Shell} {out : Option (List (BitVec 8))}
    (hl : LineInv shell.line.text shell.line) (h : kshellKey k shell = .ok out shell') :
    LineInv shell'.line.text shell'.line := by
  rcases kshellKey_cases h with ⟨hlen, -, -, -, hremove, -, -⟩ | ⟨-, -, rfl⟩ | ⟨hlen, -, hacc, -, rfl⟩ |
    ⟨-, -, -, rfl⟩
  · rw [hremove, CmdLine.text_removeLast]
    exact hl.removeLast hlen
  · exact hl
  · dsimp only
    rw [CmdLine.text_append]
    exact hl.append hlen (ofNat_ne_zero_of_accepted hacc)
  · exact hl

theorem pc_kshellKey {k : Key} {shell shell' : Shell} {out : Option (List (BitVec 8))}
    (h : kshellKey k shell = .ok out shell') :
    out = none ∧ shell'.pc = .halt ∨ out = some shell'.line.text ∧ shell'.pc = .command := by
  rcases kshellKey_cases h with ⟨-, -, rfl, -, -, -, hpc⟩ | ⟨-, rfl, rfl⟩ | ⟨-, -, -, rfl, rfl⟩ |
    ⟨-, -, rfl, rfl⟩
  · exact .inl ⟨rfl, hpc⟩
  · exact .inr ⟨rfl, rfl⟩
  · exact .inl ⟨rfl, rfl⟩
  · exact .inl ⟨rfl, rfl⟩

/-! ### What a command leaves -/

section Commands

variable {t t' : CommandState}

theorem keeps_onTty (f : Tty → Tty) : Kern.Keeps CommandState.runCmd (onTty f) :=
  Kern.keeps_modify fun _ => rfl

theorem keeps_cmdHelpLoop (commands : List ShellCommand) :
    Kern.Keeps CommandState.runCmd (cmdHelpLoop commands) := by
  induction commands with
  | nil => exact Kern.keeps_pure ()
  | cons command commands ih =>
    exact (keeps_onTty _).bind fun _ => (keeps_onTty _).bind fun _ => (keeps_onTty _).bind fun _ =>
      (keeps_onTty _).bind fun _ => (keeps_onTty _).bind fun _ => ih

theorem keeps_call (f : ShellFn) : Kern.Keeps CommandState.runCmd f.call := by
  cases f with
  | help => exact (keeps_cmdHelpLoop _).bind fun _ => Kern.keeps_pure true
  | clear => exact (keeps_onTty _).bind fun _ => Kern.keeps_pure true
  | exit =>
    intro t a t' h
    obtain ⟨_, _, -, hthrow⟩ := Kern.of_bind_eq_ok h
    cases hthrow
  | demo => exact (keeps_onTty _).bind fun _ => Kern.keeps_pure true
  | amogus => exact (keeps_onTty _).bind fun _ => Kern.keeps_pure true
  | printTick =>
    intro t a t' h
    cases h
    rfl
  | reboot =>
    intro t a t' h
    cases h
    rfl

theorem keeps_respond (line : List (BitVec 8)) (found : Option ShellFn) :
    Kern.Keeps CommandState.runCmd (respond line found) := by
  cases found with
  | some f => exact (keeps_call f).bind fun _ => Kern.keeps_pure ()
  | none => exact (keeps_onTty _).bind fun _ => (keeps_onTty _).bind fun _ => keeps_onTty _

/-- **The command that `command_run` has run** when it returns is the one of the line, if the line is in
the array and zeros follow it. -/
theorem runCmd_commandRun {l : CmdLine} (hl : LineInv l.text l) (ht : t.cmd = l.cmd)
    (h : commandRun l.cmdLen t = .ok () t') : t'.runCmd = commandOf l.text := by
  have htext : t.cmd.toList.take l.cmdLen = l.text := by
    rw [ht]
    rfl
  have hink : ∃ c ∈ l.text, Inked c := by
    by_contra hblank
    simp only [not_exists, not_and] at hblank
    obtain ⟨s, herror⟩ := commandStrip_error l.len_le (by rw [htext]; exact hblank)
    obtain ⟨_, _, hstrip, -⟩ := Kern.of_bind_eq_ok h
    rw [herror] at hstrip
    cases hstrip
  obtain ⟨cmd, accesses, hrun⟩ := commandRun_ok l.len_le (by rwa [htext])
    (by rw [htext]; exact hl.nonzero) (by rw [ht]; exact hl.rest) (congrArg stripped htext.symm)
  rw [h] at hrun
  exact keeps_respond _ _ _ _ _ hrun.symm

end Commands

/-! ### The system -/

/-- The machine, the variables of `kshell`, the lines that `command_run` got and the commands that it has
run when it returned, where `none` stands for the message about an unknown command. -/
structure Console where
  sys : Dispatch.Sys
  line : CmdLine
  pc : Pc
  lines : List (List (BitVec 8))
  ran : List (Option ShellFn)

namespace Console

/-- The queue and the screen are those of the machine. -/
def shell (c : Console) : Shell := ⟨c.sys.isr.keyboard, c.sys.isr.tty, c.line, c.pc⟩

/-- The loop of `kshell` has gone on. -/
def withShell (c : Console) (shell : Shell) : Console :=
  { c with
    sys := { c.sys with isr := { c.sys.isr with keyboard := shell.keyboard, tty := shell.tty } }
    line := shell.line
    pc := shell.pc }

/-- What `command_run` starts with; `cmd_print_tick` asks `pic_get_tick`. -/
def command (c : Console) : CommandState :=
  ⟨c.line.cmd, [], c.sys.isr.tty, [], picGetTick c.sys.timer, none⟩

/-- The start of the loop, when `interrupt_init` has returned and nothing was typed. -/
def init (sym : Symbols) (int : IntState) (timer : Timer) (tty : Tty) (data : BitVec 8) : Console :=
  ⟨Dispatch.Sys.init sym int timer tty data, CmdLine.empty, .halt, [], []⟩

/-- What can happen. -/
inductive Event where
  | machine (e : Dispatch.Event)
  | screen (tty : Tty)
  | poll
  | handle
  | ret

/-- The steps of the console.  The loop of the shell goes on while no handler runs. -/
inductive Step (sym : Symbols) : Console → Event → Console → Prop
  | machine {c : Console} {e : Dispatch.Event} {sys : Dispatch.Sys} (hcode : e ≠ .code)
      (h : Dispatch.Step sym c.sys e sys) : Step sym c (.machine e) { c with sys := sys }
  /-- Another task prints. -/
  | screen {c : Console} (tty : Tty) (hcode : c.sys.pc = .code) :
      Step sym c (.screen tty) (c.withShell { c.shell with tty := tty })
  | poll {c : Console} {shell : Shell} (hcode : c.sys.pc = .code) (hpc : c.pc = .halt)
      (h : kshellPoll c.shell = .ok () shell) : Step sym c .poll (c.withShell shell)
  | handle {c : Console} {k : Key} {line : Option (List (BitVec 8))} {shell : Shell}
      (hcode : c.sys.pc = .code) (hpc : c.pc = .key k) (h : kshellKey k c.shell = .ok line shell) :
      Step sym c .handle { c.withShell shell with lines := c.lines ++ line.toList }
  /-- `command_run` returns, and the prompt is printed. -/
  | ret {c : Console} {t : CommandState} (hcode : c.sys.pc = .code) (hpc : c.pc = .command)
      (h : commandRun c.line.cmdLen c.command = .ok () t) :
      Step sym c .ret { c.withShell (kshellPrompt t.tty c.shell) with ran := c.ran ++ [t.runCmd] }

/-- Fewer than 4096 keys were put into the queue before; the keyboard's interrupt finds its handler; and
when the branch of Backspace drops a key, it is one that the line would ignore. -/
def Careful (c : Console) : Event → Prop
  | .machine .isrKeyPress => (keysOf {} c.sys.handled).length < 4096
  | .machine .irqHandler => c.sys.pc.line = some (.master 1) → c.sys.int.idtHandlers 33 ≠ none
  | .handle => ∀ k d kb, c.pc = .key k → k.key = keyBackspace → 0 < c.line.cmdLen →
      kbGetKey true c.sys.isr.keyboard = .ok (true, some d) kb → Ignored d.key
  | _ => True

/-- The keyboard has sent everything, the queue is empty, and the loop waits. -/
def Idle (sym : Symbols) (c : Console) : Prop :=
  c.sys.pc = .code ∧ c.sys.pending (.master 1) = false ∧ (∀ s, ¬ Dispatch.Step sym c.sys .load s) ∧
    c.sys.isr.keyboard.len = 0 ∧ c.pc = .halt

/-! ### The invariant -/

/-- The invariants of the machine and of the line editor; and the commands that were run are those of the
lines, but for the line that `command_run` has at hand. -/
structure Inv (sym : Symbols) (c : Console) : Prop where
  core : Dispatch.Core sym c.sys
  keyLine : Dispatch.KeyLine c.sys
  found : ¬ c.sys.Lost
  editor : ∃ q handled, Terminal.Inv ⟨c.shell, keysOf {} c.sys.handled, c.lines⟩ q handled
  line : LineInv c.line.text c.line
  ran : c.pc ≠ .command → c.ran = c.lines.map commandOf
  running : c.pc = .command → ∃ lines, c.lines = lines ++ [c.line.text] ∧ c.ran = lines.map commandOf

section Steps

variable {sym : Symbols} {c c' : Console} {e : Event}

/-- The loop of the shell is code outside the handlers. -/
theorem Step.machine_code (sym : Symbols) (shell : Shell) (hcode : c.sys.pc = .code) :
    Dispatch.Step sym c.sys .code (c.withShell shell).sys := .code _ _ hcode

theorem Inv.machine (hi : Inv sym c) {e : Dispatch.Event} {sys : Dispatch.Sys} (hcode : e ≠ .code)
    (hcareful : Careful c (.machine e)) (h : Dispatch.Step sym c.sys e sys) :
    Inv sym { c with sys := sys } := by
  refine ⟨hi.core.step h, hi.keyLine.step hi.core h, fun hlost => ?_, ?_, hi.line, hi.ran, hi.running⟩
  · rcases hi.core.of_lost h hlost with hold | ⟨rfl, hline, hnone⟩
    · exact hi.found hold
    · exact hcareful hline hnone
  · obtain ⟨q, handled, hedit⟩ := hi.editor
    cases h with
    | code => exact absurd rfl hcode
    | @isrKeyPress scancode isr hpc hcall =>
      obtain ⟨-, hadd, hsame⟩ := isrKeyPress_spec hcall
      rw [hi.keyLine.kbState] at hadd hsame
      dsimp only
      rw [keysOf_concat, keyOf]
      by_cases hq : Queues (c.sys.handled.foldl KbState.next {}) scancode
      · rw [if_pos hq]
        exact ⟨_, _, (hedit.press hcareful (hadd hq)).withTty isr.tty⟩
      · rw [if_neg hq, List.append_nil]
        refine ⟨q, handled, ?_⟩
        show Terminal.Inv ⟨⟨isr.keyboard, isr.tty, c.line, c.pc⟩, _, _⟩ q handled
        rw [hsame hq]
        exact hedit.withTty isr.tty
    | picCallback => exact ⟨q, handled, hedit.withTty _⟩
    | _ => exact ⟨q, handled, hedit⟩

theorem Inv.poll (hi : Inv sym c) {shell : Shell} (hcode : c.sys.pc = .code) (hpc : c.pc = .halt)
    (h : kshellPoll c.shell = .ok () shell) : Inv sym (c.withShell shell) := by
  have hstep := Step.machine_code sym shell hcode
  obtain ⟨q, handled, hedit⟩ := hi.editor
  obtain ⟨q', hpoll⟩ := hedit.poll hpc h
  have hsame : shell.line = c.line ∧ shell.pc ≠ .command := by
    rw [kshellPoll] at h
    split at h
    · cases h
    · next k kb hget =>
      cases h
      exact ⟨rfl, by cases k <;> exact Pc.noConfusion⟩
  have hran := hi.ran (by rw [hpc]; exact Pc.noConfusion)
  refine ⟨hi.core.step hstep, hi.keyLine.step hi.core hstep, hi.found, ⟨q', handled, hpoll⟩, ?_,
    fun _ => hran, fun hc => absurd hc hsame.2⟩
  show LineInv shell.line.text shell.line
  rw [hsame.1]
  exact hi.line

theorem Inv.handle (hi : Inv sym c) {k : Key} {line : Option (List (BitVec 8))} {shell : Shell}
    (hcareful : Careful c .handle) (hcode : c.sys.pc = .code) (hpc : c.pc = .key k)
    (h : kshellKey k c.shell = .ok line shell) :
    Inv sym { c.withShell shell with lines := c.lines ++ line.toList } := by
  have hstep := Step.machine_code sym shell hcode
  obtain ⟨q, handled, hedit⟩ := hi.editor
  have hran := hi.ran (by rw [hpc]; exact Pc.noConfusion)
  refine ⟨hi.core.step hstep, hi.keyLine.step hi.core hstep, hi.found, ?_,
    lineInv_kshellKey hi.line h, fun hne => ?_, fun hcommand => ?_⟩
  · by_cases hback : k.key = keyBackspace ∧ 0 < c.line.cmdLen
    · cases q with
      | nil => exact ⟨_, _, hedit.handle hpc (fun _ _ => hedit.inOrder.len_eq) h⟩
      | cons d q =>
        obtain ⟨kb, hget, -⟩ := hedit.inOrder.getKey hedit.count true
        have hd := hcareful k d kb hpc hback.1 hback.2 hget
        exact ⟨_, _, hedit.drop hpc hback.1 hback.2 hd h⟩
    · exact ⟨_, _, hedit.handle hpc (fun hkey hlen => absurd ⟨hkey, hlen⟩ hback) h⟩
  · rcases pc_kshellKey h with ⟨rfl, -⟩ | ⟨-, hcommand⟩
    · rw [Option.toList_none, List.append_nil]
      exact hran
    · exact absurd hcommand hne
  · rcases pc_kshellKey h with ⟨-, hhalt⟩ | ⟨rfl, -⟩
    · exact Pc.noConfusion (hhalt.symm.trans hcommand)
    · exact ⟨c.lines, rfl, hran⟩

theorem Inv.ret (hi : Inv sym c) {t : CommandState} (hcode : c.sys.pc = .code) (hpc : c.pc = .command)
    (h : commandRun c.line.cmdLen c.command = .ok () t) :
    Inv sym { c.withShell (kshellPrompt t.tty c.shell) with ran := c.ran ++ [t.runCmd] } := by
  obtain ⟨q, handled, hedit⟩ := hi.editor
  obtain ⟨lines, hlines, hran⟩ := hi.running hpc
  have hprompt : Terminal.Inv ⟨kshellPrompt t.tty c.shell, keysOf {} c.sys.handled, c.lines⟩ q handled :=
    hedit.ret t.tty hpc
  have hempty : (kshellPrompt t.tty c.shell).line = CmdLine.empty := rfl
  have hhalt : (kshellPrompt t.tty c.shell).pc = .halt := rfl
  -- what the prompt leaves on the screen does not matter
  generalize kshellPrompt t.tty c.shell = shell at hprompt hempty hhalt ⊢
  have hstep := Step.machine_code sym shell hcode
  refine ⟨hi.core.step hstep, hi.keyLine.step hi.core hstep, hi.found, ⟨q, handled, hprompt⟩, ?_,
    fun _ => ?_, fun hc => Pc.noConfusion (hhalt.symm.trans hc)⟩
  · show LineInv shell.line.text shell.line
    rw [hempty]
    exact LineInv.empty
  · show c.ran ++ [t.runCmd] = c.lines.map commandOf
    rw [hlines, List.map_append, ← hran, runCmd_commandRun hi.line rfl h]
    rfl

/-- **Every careful step keeps the invariant.** -/
theorem Inv.step (hi : Inv sym c) (hs : Within (Step sym) Careful c e c') : Inv sym c' := by
  obtain ⟨hcareful, hstep⟩ := hs
  cases hstep with
  | machine hcode h => exact hi.machine hcode hcareful h
  | screen tty hcode =>
    have hstep := Step.machine_code sym { c.shell with tty := tty } hcode
    obtain ⟨q, handled, hedit⟩ := hi.editor
    exact ⟨hi.core.step hstep, hi.keyLine.step hi.core hstep, hi.found,
      ⟨q, handled, hedit.withTty tty⟩, hi.line, hi.ran, hi.running⟩
  | poll hcode hpc h => exact hi.poll hcode hpc h
  | handle hcode hpc h => exact hi.handle hcareful hcode hpc h
  | ret hcode hpc h => exact hi.ret hcode hpc h

theorem Inv.init (sym : Symbols) (int : IntState) (timer : Timer) (tty : Tty) (data : BitVec 8) :
    Inv sym (init sym int timer tty data) :=
  ⟨Dispatch.Core.init sym int timer tty data, Dispatch.KeyLine.init sym int timer tty data,
    List.not_mem_nil, ⟨[], [], Terminal.Inv.init tty⟩, LineInv.empty, fun _ => rfl,
    fun hc => Pc.noConfusion hc⟩

end Steps

/-! ### The law -/

/-- **What is typed is run.**  `command_run` gets the lines that the bytes of the keyboard make, and
runs the commands of these lines, in their order; when the console is idle, it has run all of them;
and when it is not, outside of the handlers and of `command_run`, it can go on. -/
structure Law (sym : Symbols) (c : Console) : Prop where
  lines : c.lines <+: (linesOf c.sys.typed).1
  ran : c.ran <+: (linesOf c.sys.typed).1.map commandOf
  idle : c.Idle sym → c.lines = (linesOf c.sys.typed).1 ∧
    c.ran = (linesOf c.sys.typed).1.map commandOf
  next : c.sys.pc = .code → c.pc ≠ .command → ¬ c.Idle sym → ∃ c',
    c.sys.isr.keyboard.len ≠ 0 ∧ Step sym c .poll c' ∨ Step sym c .handle c' ∨
      Step sym c (.machine .take) c' ∨ Step sym c (.machine .load) c'

section Law

variable {sym : Symbols} {c : Console} {events : List Event} {int : IntState} {timer : Timer} {tty : Tty}
  {data : BitVec 8}

theorem kshellKey_ok {shell : Shell} {n : Nat} {q : List Key} (hin : InOrder n shell.keyboard q)
    (hn : n ≤ 4096) (k : Key) : ∃ out shell', kshellKey k shell = .ok out shell' := by
  obtain ⟨kb, hget, -⟩ := hin.getKey hn false
  rw [kshellKey, hget]
  split_ifs <;> exact ⟨_, _, rfl⟩

theorem Inv.next (hi : Inv sym c) (hcode : c.sys.pc = .code) (hcommand : c.pc ≠ .command)
    (hidle : ¬ c.Idle sym) : ∃ c', c.sys.isr.keyboard.len ≠ 0 ∧ Step sym c .poll c' ∨
      Step sym c .handle c' ∨ Step sym c (.machine .take) c' ∨ Step sym c (.machine .load) c' := by
  obtain ⟨q, handled, hedit⟩ := hi.editor
  cases hpc : c.pc with
  | command => exact absurd hpc hcommand
  | key k =>
    obtain ⟨_, _, hkey⟩ := kshellKey_ok hedit.inOrder hedit.count k
    exact ⟨_, .inr (.inl (.handle hcode hpc hkey))⟩
  | halt =>
    by_cases hpend : c.sys.pending (.master 1) = true
    · obtain ⟨_, _, _, -, -, htake, -⟩ := hi.core.exists_take hcode hpend
      exact ⟨_, .inr (.inr (.inl (.machine Dispatch.Event.noConfusion htake)))⟩
    · by_cases hload : ∃ s, Dispatch.Step sym c.sys .load s
      · obtain ⟨_, hload⟩ := hload
        exact ⟨_, .inr (.inr (.inr (.machine Dispatch.Event.noConfusion hload)))⟩
      · obtain ⟨kb, hget, -⟩ := hedit.inOrder.getKey hedit.count true
        have hpoll : ∃ shell, kshellPoll c.shell = .ok () shell := by
          rw [kshellPoll, hget]
          exact ⟨_, rfl⟩
        obtain ⟨_, hpoll⟩ := hpoll
        refine ⟨_, .inl ⟨fun hlen => hidle ?_, .poll hcode hpc hpoll⟩⟩
        exact ⟨hcode, by simpa using hpend, not_exists.mp hload, hlen, hpc⟩

theorem Inv.law (hi : Inv sym c) : Law sym c := by
  obtain ⟨q, handled, hedit⟩ := hi.editor
  have hlaw := hedit.lineLaw
  have hlines : c.lines <+: (linesOf c.sys.typed).1 := by
    refine hlaw.1.trans ?_
    rw [hi.keyLine.order, List.append_assoc, List.append_assoc]
    exact linesOf_isPrefix _ _
  have hran : c.ran <+: c.lines.map commandOf := by
    by_cases hpc : c.pc = .command
    · obtain ⟨lines, hl, hr⟩ := hi.running hpc
      rw [hl, hr, List.map_append]
      exact List.prefix_append _ _
    · rw [hi.ran hpc]
  refine ⟨hlines, hran.trans (hlines.map commandOf), fun ⟨hcode, hpend, hload, hlen, hpc⟩ => ?_, hi.next⟩
  have hall := (hi.keyLine.rest hcode hpend hload).mpr hi.found
  have heq : c.lines = (linesOf c.sys.typed).1 := by
    rw [← hall]
    refine hlaw.2 ⟨hlen, fun k hk => ?_⟩
    exact Pc.noConfusion (hpc.symm.trans hk)
  exact ⟨heq, by rw [hi.ran (by rw [hpc]; exact Pc.noConfusion), heq]⟩

/-- **From the keys to the commands**, in every state of every careful run after `interrupt_init`. -/
theorem law_of_run (h : Run (Within (Step sym) Careful) (init sym int timer tty data) events c) :
    Law sym c :=
  (h.invariant (I := Inv sym) (fun hi hs => hi.step hs) (Inv.init sym int timer tty data)).law

theorem run_machine {C : Dispatch.Sys → Dispatch.Event → Prop} {es : List Dispatch.Event}
    {s : Dispatch.Sys} (h : Run (Within (Dispatch.Step sym) C) c.sys es s)
    (hC : ∀ {s e}, C s e → e ≠ .code ∧ ∀ c : Console, c.sys = s → Careful c (.machine e)) :
    Run (Within (Step sym) Careful) c (es.map .machine) { c with sys := s } := by
  induction h with
  | nil => exact .nil
  | snoc h hs ih =>
    obtain ⟨hcode, hcareful⟩ := hC hs.1
    rw [List.map_append]
    exact ih.snoc ⟨hcareful _ rfl, .machine hcode hs.2⟩

theorem careful_of_attended {handled : List (BitVec 8)} (hlt : (keysOf {} handled).length < 4096)
    {s : Dispatch.Sys} {e : Dispatch.Event} (h : Dispatch.Attended handled s e) :
    e ≠ .code ∧ ∀ c : Console, c.sys = s → Careful c (.machine e) := by
  obtain ⟨hcode, hinstalled, hhandled⟩ := h
  refine ⟨hcode, fun c hc => ?_⟩
  cases e with
  | irqHandler => exact fun _ => hc ▸ hinstalled
  | isrKeyPress =>
    show (keysOf {} c.sys.handled).length < 4096
    rwa [hc, hhandled rfl]
  | _ => trivial

end Law

/-! ### A line -/

/-- A key is pressed, and the loop handles it. -/
def typeEvents (b : BitVec 8) : List Event :=
  (Dispatch.keyEvents b).map .machine ++ [.poll, .handle]

/-- The keyboard can be used, and the loop has taken every key from the queue. -/
structure Free (sym : Symbols) (c : Console) : Prop where
  inv : Inv sym c
  ready : Dispatch.Ready sym c.sys
  taken : InOrder (keysOf {} c.sys.handled).length c.sys.isr.keyboard []

section Free

variable {sym : Symbols} {c : Console}

theorem Free.exists_taken (hf : Free sym c) (hhalt : c.pc = .halt)
    (hlt : (keysOf {} c.sys.handled).length < 4096) {b : BitVec 8} {st : KbState}
    (hst : c.sys.handled.foldl KbState.next {} = st) (hq : Queues st b) : ∃ c',
      Run (Within (Step sym) Careful) c ((Dispatch.keyEvents b).map .machine ++ [.poll]) c' ∧
        Free sym c' ∧ c'.pc = .key ⟨st, decodeScancode st b⟩ ∧ c'.line = c.line ∧
        c'.lines = c.lines ∧ c'.ran = c.ran ∧ c'.sys.handled = c.sys.handled ++ [b] := by
  obtain ⟨isr, hcall⟩ := isrKeyPress_ok b (hf.taken.tail_eq ▸ hlt)
  obtain ⟨s, hrun, hready, hhandled, rfl⟩ := hf.ready.exists_handled hcall
  have hmachine := run_machine hrun fun h => careful_of_attended hlt h
  have hstate := hf.inv.keyLine.kbState.trans hst
  obtain ⟨-, hadd, -⟩ := isrKeyPress_spec hcall
  rw [hstate] at hadd
  obtain ⟨kb, hadd', hin⟩ := hf.taken.add hlt st (decodeScancode st b)
  rw [hadd hq] at hadd'
  cases hadd'
  obtain ⟨kb, hpoll, htaken⟩ := poll_eq (s := { c with sys := s }.shell) hin hlt
  have hstep : Within (Step sym) Careful { c with sys := s } .poll _ :=
    ⟨trivial, .poll hready.code hhalt hpoll⟩
  have hrun' := hmachine.snoc hstep
  have hinv := hrun'.invariant (I := Inv sym) (fun hi hs => hi.step hs) hf.inv
  refine ⟨_, hrun', ⟨hinv, hready.code_step _ _, ?_⟩, rfl, rfl, rfl, rfl, hhandled⟩
  show InOrder (keysOf {} s.handled).length kb []
  rw [hhandled, keysOf_concat, hst, keyOf, if_pos hq, List.length_append]
  exact htaken

theorem Free.handle (hf : Free sym c) {k : Key} (hpc : c.pc = .key k) (hback : k.key ≠ keyBackspace)
    {line : Option (List (BitVec 8))} {shell : Shell} (h : kshellKey k c.shell = .ok line shell) :
    Within (Step sym) Careful c .handle { c.withShell shell with lines := c.lines ++ line.toList } ∧
      Free sym { c.withShell shell with lines := c.lines ++ line.toList } := by
  have hstep : Within (Step sym) Careful c .handle
      { c.withShell shell with lines := c.lines ++ line.toList } := by
    refine ⟨fun k' _ _ hk' hkey => ?_, .handle hf.ready.code hpc h⟩
    rw [hpc] at hk'
    cases hk'
    exact absurd hkey hback
  have hkeyboard : shell.keyboard = c.sys.isr.keyboard := by
    rcases kshellKey_cases h with ⟨-, hkey, -⟩ | ⟨-, -, rfl⟩ | ⟨-, -, -, -, rfl⟩ | ⟨-, -, -, rfl⟩
    · exact absurd hkey hback
    · rfl
    · rfl
    · rfl
  refine ⟨hstep, hf.inv.step hstep, hf.ready.code_step _ _, ?_⟩
  show InOrder (keysOf {} c.sys.handled).length shell.keyboard []
  rw [hkeyboard]
  exact hf.taken

/-- **A character is typed.** -/
theorem Free.exists_character (hf : Free sym c) (hhalt : c.pc = .halt)
    (hlt : (keysOf {} c.sys.handled).length < 4096) {b : BitVec 8} {st : KbState}
    (hst : c.sys.handled.foldl KbState.next {} = st) (hq : Queues st b)
    (hacc : Accepted (decodeScancode st b)) (henter : decodeScancode st b ≠ keyEnter)
    (hroom : c.line.cmdLen < 1024) : ∃ c',
      Run (Within (Step sym) Careful) c (typeEvents b) c' ∧ Free sym c' ∧ c'.pc = .halt ∧
        c'.line.text = c.line.text ++ [BitVec.ofNat 8 (decodeScancode st b)] ∧
        c'.lines = c.lines ∧ c'.ran = c.ran ∧ c'.sys.handled = c.sys.handled ++ [b] := by
  obtain ⟨c', hrun, hf', hpc, hline, hlines, hran, hhandled⟩ := hf.exists_taken hhalt hlt hst hq
  rw [← hline] at hroom ⊢
  have hkey := kshellKey_append (k := ⟨st, decodeScancode st b⟩) c'.shell hacc henter hroom
  obtain ⟨hstep, hf''⟩ := hf'.handle hpc hacc.ne_backspace hkey
  refine ⟨_, ?_, hf'', rfl, CmdLine.text_append c'.line _ hroom, ?_, hran, hhandled⟩
  · have h := hrun.snoc hstep
    rwa [List.append_assoc] at h
  · exact (List.append_nil _).trans hlines

/-- **Enter is typed** after a line that is no command, and `command_run` returns. -/
theorem Free.exists_enter (hf : Free sym c) (hhalt : c.pc = .halt)
    (hlt : (keysOf {} c.sys.handled).length < 4096) {b : BitVec 8} {st : KbState}
    (hst : c.sys.handled.foldl KbState.next {} = st) (hq : Queues st b)
    (henter : decodeScancode st b = keyEnter) (hink : ∃ ch ∈ c.line.text, Inked ch)
    (hnone : commandOf c.line.text = none) : ∃ c',
      Run (Within (Step sym) Careful) c (typeEvents b ++ [.ret]) c' ∧
        c'.lines = c.lines ++ [c.line.text] ∧ c'.ran = c.ran ++ [none] ∧
        c'.sys.handled = c.sys.handled ++ [b] := by
  obtain ⟨c', hrun, hf', hpc, hline, hlines, hran, hhandled⟩ := hf.exists_taken hhalt hlt hst hq
  rw [← hline] at hink hnone ⊢
  rw [henter] at hpc
  have hne : keyEnter ≠ keyBackspace := by decide
  let shell : Shell := { c'.shell with tty := ttyPutc 10 c'.shell.tty, pc := .command }
  have hkey : kshellKey ⟨st, keyEnter⟩ c'.shell = .ok (some c'.line.text) shell := by
    rw [kshellKey, dif_neg fun h => hne h.1, if_pos rfl]
    rfl
  obtain ⟨hstep, hf''⟩ := hf'.handle hpc hne hkey
  -- `command_run` prints the message
  have hi := hf'.inv.line
  have hcommand := commandRun_ok (s := (c'.withShell shell).command) c'.line.len_le hink hi.nonzero
    hi.rest (rfl : stripped c'.line.text = _)
  have hlookup : lookup (stripped c'.line.text) = none := hnone
  rw [hlookup] at hcommand
  obtain ⟨_, _, hcommand⟩ := hcommand
  obtain ⟨t, hret⟩ : ∃ t, commandRun c'.line.cmdLen (c'.withShell shell).command = .ok () t :=
    ⟨_, hcommand⟩
  have hreturn : Within (Step sym) Careful { c'.withShell shell with
      lines := c'.lines ++ (some c'.line.text).toList } .ret _ :=
    ⟨trivial, .ret hf'.ready.code rfl hret⟩
  have h := (hrun.snoc hstep).snoc hreturn
  rw [List.append_assoc _ [Event.poll]] at h
  refine ⟨_, h, congrArg (· ++ [c'.line.text]) hlines, ?_, hhandled⟩
  show c'.ran ++ [t.runCmd] = _
  rw [(runCmd_commandRun hi rfl hret).trans hnone, hran]

theorem Free.init (sym : Symbols) (int : IntState) (timer : Timer) (tty : Tty) (data : BitVec 8) :
    ∃ c, Run (Within (Step sym) Careful) (init sym int timer tty data) [.machine .keyboardInit] c ∧
      Free sym c ∧ c.pc = .halt ∧ c.line = CmdLine.empty ∧ c.lines = [] ∧ c.ran = [] ∧
        c.sys.handled = [] := by
  have hstep : Within (Step sym) Careful (Console.init sym int timer tty data)
      (.machine .keyboardInit) _ :=
    ⟨trivial, .machine Dispatch.Event.noConfusion (.keyboardInit rfl)⟩
  exact ⟨_, .single hstep, ⟨(Inv.init sym int timer tty data).step hstep,
    Dispatch.Ready.init sym int timer tty data, inOrder_keyboard⟩, rfl, rfl, rfl, rfl, rfl⟩

end Free

/-- The keys of `a` and Enter are pressed, and `command_run` gets the line. -/
theorem law_key_a : ∃ c, Run (Within (Step Dispatch.stubs) Careful)
    (init Dispatch.stubs Dispatch.freshInt Dispatch.freshTimer ttyStatic 0)
    (.machine .keyboardInit :: (typeEvents 0x1E ++ (typeEvents 0x1C ++ [.ret]))) c ∧
      c.sys.handled = [0x1E, 0x1C] ∧ c.lines = [[97]] ∧ c.ran = [none] ∧ Law Dispatch.stubs c := by
  obtain ⟨c₀, hrun₀, hf₀, hhalt₀, hline₀, hlines₀, hran₀, hhandled₀⟩ :=
    Free.init Dispatch.stubs Dispatch.freshInt Dispatch.freshTimer ttyStatic 0
  obtain ⟨c₁, hrun₁, hf₁, hhalt₁, htext₁, hlines₁, hran₁, hhandled₁⟩ := hf₀.exists_character (b := 0x1E)
    hhalt₀ (by rw [hhandled₀]; decide) (by rw [hhandled₀]) (by decide) (by decide) (by decide)
    (by rw [hline₀]; decide)
  rw [hline₀, CmdLine.text_empty] at htext₁
  rw [hhandled₀] at hhandled₁
  obtain ⟨c₂, hrun₂, hlines₂, hran₂, hhandled₂⟩ := hf₁.exists_enter (b := 0x1C) hhalt₁
    (by rw [hhandled₁]; decide) (by rw [hhandled₁]) (by decide) (by decide)
    (by rw [htext₁]; decide) (by rw [htext₁]; decide)
  have hrun := hrun₀.trans (hrun₁.trans hrun₂)
  refine ⟨c₂, hrun, by rw [hhandled₂, hhandled₁]; rfl, ?_, ?_, law_of_run hrun⟩
  · rw [hlines₂, hlines₁, hlines₀, htext₁]
    rfl
  · rw [hran₂, hran₁, hran₀]
    rfl

end Console

end Aosis.Terminal
