import Aosis.Interrupt.Keyboard
import Aosis.Lib.Run
import Aosis.Terminal.Tty

/-!
# The line editor of the shell

The loop of `kshell` in `kernel/terminal/kshell.c` takes keys from the keyboard queue and edits the
line that it gives to `command_run` at an Enter.  Keys arrive from the keyboard interrupt at any
moment, also between the statement that takes a key and the branch that handles it, so the
system makes its steps one by one: a key arrives (`press`), the loop looks for a key (`poll`), it
handles the key it has (`handle`), or `command_run` returns (`ret`).

`typed` is the text that the keys make: the lines ended by Enter and the line begun.

The branch of Backspace calls `kb_get_key` once more and drops the key it gets.  `Spares` says
that no key is there to be dropped, and `lineLaw_of_run` that the lines are right in every run in
which this is so.
-/

namespace Aosis.Terminal

open Aosis.Interrupt Aosis.Lib

/-! ### The source -/

/-- `isprint`: zero for a printable character. -/
def isprint (c : Nat) : Nat := if 32 ≤ c ∧ c ≤ 126 then 0 else 1

/-- `isspace`: zero for a white space character. -/
def isspace (c : Nat) : Nat :=
  if c = 12 ∨ c = 10 ∨ c = 13 ∨ c = 9 ∨ c = 11 ∨ c = 32 then 0 else 1

/-- `KEY_BACKSPACE`. -/
def keyBackspace : Keycode := 8

/-- `KEY_ENTER`. -/
def keyEnter : Keycode := 10

/-- The array `cmd` and the variable `cmd_len`. -/
structure CmdLine where
  cmd : Vector (BitVec 8) 1024
  cmdLen : Nat
  len_le : cmdLen ≤ 1024

namespace CmdLine

/-- The line that `command_run(cmd, cmd_len)` gets. -/
def text (l : CmdLine) : List (BitVec 8) := l.cmd.toList.take l.cmdLen

/-- `cmd` and `cmd_len` at the start and after `memset(cmd, '\0', sizeof(cmd))`. -/
def empty : CmdLine := ⟨Vector.replicate 1024 0, 0, Nat.zero_le _⟩

/-- `cmd[cmd_len-1] = '\0'; cmd_len--`. -/
def removeLast (l : CmdLine) (h : 0 < l.cmdLen) : CmdLine where
  cmd := l.cmd.set (l.cmdLen - 1) 0 (by have := l.len_le; omega)
  cmdLen := l.cmdLen - 1
  len_le := by have := l.len_le; omega

/-- `cmd[cmd_len] = k.key; cmd_len++`. -/
def append (l : CmdLine) (c : BitVec 8) (h : l.cmdLen < 1024) : CmdLine where
  cmd := l.cmd.set l.cmdLen c
  cmdLen := l.cmdLen + 1
  len_le := h

end CmdLine

/-- Where the loop of `kshell` is. -/
inductive Pc where
  /-- Before `kb_get_key(&k)`. -/
  | halt
  /-- Before the branches, with a key in `k`. -/
  | key (k : Key)
  /-- In `command_run`. -/
  | command

/-- The queue, the screen and the variables of `kshell`. -/
structure Shell where
  keyboard : Keyboard
  tty : Tty
  line : CmdLine
  pc : Pc

/-- The start of the loop: `kb_get_key(&k)`. -/
def kshellPoll : Kern Shell Unit := fun s =>
  match kbGetKey true s.keyboard with
  | .error e kb => .error e { s with keyboard := kb }
  | .ok (_, k) kb => .ok () { s with keyboard := kb, pc := k.elim .halt .key }

/-- The branches of the loop.  The result is the line that goes to `command_run`, if one does. -/
def kshellKey (k : Key) : Kern Shell (Option (List (BitVec 8))) := fun s =>
  if h : k.key = keyBackspace ∧ 0 < s.line.cmdLen then
    match kbGetKey false s.keyboard with
    | .error e kb => .error e { s with keyboard := kb }
    | .ok _ kb => .ok none { s with
        keyboard := kb
        line := s.line.removeLast h.2
        tty := ttyDeleteprev s.tty
        pc := .halt }
  else if k.key = keyEnter then
    .ok (some s.line.text) { s with tty := ttyPutc 10 s.tty, pc := .command }
  else if isprint k.key = 0 ∨ isspace k.key = 0 then
    if h : s.line.cmdLen < 1024 then
      let c := BitVec.ofNat 8 k.key
      .ok none { s with line := s.line.append c h, tty := ttyPutc c s.tty, pc := .halt }
    else .ok none { s with pc := .halt }
  else .ok none { s with pc := .halt }

/-- What follows `command_run`, which leaves the screen `tty`: the buffer is cleared and
`command_start` prints the prompt. -/
def kshellPrompt (tty : Tty) (s : Shell) : Shell :=
  { s with line := CmdLine.empty, tty := ttyWrite [36, 62, 32] tty, pc := .halt }

/-! ### Runs -/

/-- The shell with the keys that have arrived and the lines that `command_run` got. -/
structure Sys where
  shell : Shell
  keys : List Key
  lines : List (List (BitVec 8))

/-- What can happen. -/
inductive Event where
  | press (kb_state : KbState) (key : Keycode)
  | poll
  | handle
  | ret (tty : Tty)

/-- The steps of the system. -/
inductive Step : Sys → Event → Sys → Prop
  | press {s : Sys} {kb_state : KbState} {key : Keycode} {kb : Keyboard}
      (h : addKey kb_state key s.shell.keyboard = .ok () kb) :
      Step s (.press kb_state key)
        ⟨{ s.shell with keyboard := kb }, s.keys ++ [⟨kb_state, key⟩], s.lines⟩
  | poll {s : Sys} {shell : Shell} (hpc : s.shell.pc = .halt)
      (h : kshellPoll s.shell = .ok () shell) : Step s .poll ⟨shell, s.keys, s.lines⟩
  | handle {s : Sys} {k : Key} {line : Option (List (BitVec 8))} {shell : Shell}
      (hpc : s.shell.pc = .key k) (h : kshellKey k s.shell = .ok line shell) :
      Step s .handle ⟨shell, s.keys, s.lines ++ line.toList⟩
  | ret {s : Sys} (tty : Tty) (hpc : s.shell.pc = .command) :
      Step s (.ret tty) ⟨kshellPrompt tty s.shell, s.keys, s.lines⟩

/-- The start of the loop, with no key pressed yet. -/
def Sys.init (tty : Tty) : Sys := ⟨⟨keyboard, tty, CmdLine.empty, .halt⟩, [], []⟩

/-! ### The text that the keys make -/

/-- A key that goes into the line. -/
def Accepted (k : Keycode) : Prop := isprint k = 0 ∨ isspace k = 0

instance (k : Keycode) : Decidable (Accepted k) := inferInstanceAs (Decidable (_ ∨ _))

/-- One key other than Enter: Backspace removes the last character, and a character is appended
while there is room. -/
def editKey (line : List (BitVec 8)) (k : Keycode) : List (BitVec 8) :=
  if k = keyBackspace then line.dropLast
  else if Accepted k ∧ line.length < 1024 then line ++ [BitVec.ofNat 8 k]
  else line

/-- One key, with the lines that are complete. -/
def typeKey (text : List (List (BitVec 8)) × List (BitVec 8)) (k : Key) :
    List (List (BitVec 8)) × List (BitVec 8) :=
  if k.key = keyEnter then (text.1 ++ [text.2], []) else (text.1, editKey text.2 k.key)

/-- The complete lines and the line that is begun. -/
def typed (keys : List Key) : List (List (BitVec 8)) × List (BitVec 8) :=
  keys.foldl typeKey ([], [])

/-- Every key that arrived was handled. -/
def Sys.Idle (s : Sys) : Prop := s.shell.keyboard.len = 0 ∧ ∀ k, s.shell.pc ≠ .key k

/-- The lines that `command_run` got are the first lines of the text, and all of them when every
key was handled. -/
def LineLaw (s : Sys) : Prop :=
  s.lines <+: (typed s.keys).1 ∧ (s.Idle → s.lines = (typed s.keys).1)

/-- The queue has not come to the end of its array, and the branch of Backspace finds no further
key. -/
def Spares (s : Sys) : Event → Prop
  | .press _ _ => s.keys.length < 4096
  | .handle => ∀ k, s.shell.pc = .key k → k.key = keyBackspace → 0 < s.shell.line.cmdLen →
      s.shell.keyboard.len = 0
  | .poll => True
  | .ret _ => True

/-! ### The line -/

namespace CmdLine

variable (l : CmdLine) (c : BitVec 8)

theorem text_length : l.text.length = l.cmdLen := by
  have := l.len_le
  simp [text, this]

theorem text_empty : empty.text = [] := rfl

theorem text_append (h : l.cmdLen < 1024) : (l.append c h).text = l.text ++ [c] := by
  have hset : (l.cmd.toList.set l.cmdLen c)[l.cmdLen]? = some c :=
    List.getElem?_set_self (by simpa using h)
  simp [text, append, Vector.toList_set, List.take_add_one, List.take_set_of_le, hset]

theorem text_removeLast (h : 0 < l.cmdLen) : (l.removeLast h).text = l.text.dropLast := by
  have hlen := l.text_length
  rw [List.dropLast_eq_take, hlen]
  simp [text, removeLast, Vector.toList_set, List.take_set_of_le, List.take_take]

end CmdLine

/-! ### One key -/

section Keys

variable {k : Key} {shell shell' : Shell} {out : Option (List (BitVec 8))}

theorem editKey_backspace (line : List (BitVec 8)) : editKey line keyBackspace = line.dropLast :=
  if_pos rfl

theorem Accepted.ne_backspace {key : Keycode} (h : Accepted key) : key ≠ keyBackspace := by
  intro hkey
  rw [hkey] at h
  exact absurd h (by decide)

theorem editKey_accepted {line : List (BitVec 8)} {key : Keycode} (h : Accepted key)
    (hlen : line.length < 1024) : editKey line key = line ++ [BitVec.ofNat 8 key] := by
  rw [editKey, if_neg h.ne_backspace, if_pos ⟨h, hlen⟩]

theorem kshellKey_append (shell : Shell) (h : Accepted k.key) (henter : k.key ≠ keyEnter)
    (hlen : shell.line.cmdLen < 1024) : kshellKey k shell = .ok none { shell with
      line := shell.line.append (BitVec.ofNat 8 k.key) hlen
      tty := ttyPutc (BitVec.ofNat 8 k.key) shell.tty
      pc := .halt } := by
  have hacc : isprint k.key = 0 ∨ isspace k.key = 0 := h
  rw [kshellKey, dif_neg fun hback => h.ne_backspace hback.1, if_neg henter, if_pos hacc]
  exact dif_pos hlen

/-- **What the branches of the loop do** to the queue, the line and the screen. -/
theorem kshellKey_cases (h : kshellKey k shell = .ok out shell') :
    (∃ hlen : 0 < shell.line.cmdLen, k.key = keyBackspace ∧ out = none ∧
      (∃ a, kbGetKey false shell.keyboard = .ok a shell'.keyboard) ∧
      shell'.line = shell.line.removeLast hlen ∧ shell'.tty = ttyDeleteprev shell.tty ∧
      shell'.pc = .halt) ∨
    (k.key = keyEnter ∧ out = some shell.line.text ∧
      shell' = { shell with tty := ttyPutc 10 shell.tty, pc := .command }) ∨
    (∃ hlen : shell.line.cmdLen < 1024, k.key ≠ keyEnter ∧ Accepted k.key ∧ out = none ∧
      shell' = { shell with
        line := shell.line.append (BitVec.ofNat 8 k.key) hlen
        tty := ttyPutc (BitVec.ofNat 8 k.key) shell.tty
        pc := .halt }) ∨
    (k.key ≠ keyEnter ∧ editKey shell.line.text k.key = shell.line.text ∧ out = none ∧
      shell' = { shell with pc := .halt }) := by
  have hlen := shell.line.text_length
  rw [kshellKey] at h
  split at h
  · next hback =>
    split at h
    · cases h
    · next hget =>
      cases h
      exact Or.inl ⟨hback.2, hback.1, rfl, ⟨_, hget⟩, rfl, rfl, rfl⟩
  · next hback =>
    split at h
    · next henter =>
      cases h
      exact Or.inr (Or.inl ⟨henter, rfl, rfl⟩)
    · next henter =>
      -- a Backspace that comes here finds no character
      have hempty : k.key = keyBackspace → shell.line.text = [] := by
        intro hk
        have h0 : ¬ 0 < shell.line.cmdLen := fun hpos => hback ⟨hk, hpos⟩
        exact List.eq_nil_of_length_eq_zero (by omega)
      have hsame : ¬ (Accepted k.key ∧ shell.line.cmdLen < 1024) →
          editKey shell.line.text k.key = shell.line.text := by
        intro hno
        rw [editKey, hlen, if_neg hno]
        split
        · next hk => rw [hempty hk, List.dropLast_nil]
        · rfl
      split at h
      · next hacc =>
        split at h
        · next hroom =>
          cases h
          exact Or.inr (Or.inr (Or.inl ⟨hroom, henter, hacc, rfl, rfl⟩))
        · next hroom =>
          cases h
          exact Or.inr (Or.inr (Or.inr ⟨henter, hsame fun h => hroom h.2, rfl, rfl⟩))
      · next hacc =>
        cases h
        exact Or.inr (Or.inr (Or.inr ⟨henter, hsame fun h => hacc h.1, rfl, rfl⟩))

end Keys

/-! ### One step -/

theorem typed_append (keys : List Key) (k : Key) : typed (keys ++ [k]) = typeKey (typed keys) k := by
  simp only [typed, List.foldl_append, List.foldl_cons, List.foldl_nil]

theorem typed_isPrefix (keys more : List Key) : (typed keys).1 <+: (typed (keys ++ more)).1 := by
  induction more using List.reverseRecOn with
  | nil => simp only [List.append_nil, List.prefix_rfl]
  | append_singleton more k ih =>
    rw [← List.append_assoc, typed_append, typeKey]
    split
    · exact ih.trans (List.prefix_append _ _)
    · exact ih

/-- The keys that are not handled yet: the one that the loop has taken, and those in the queue. -/
def Shell.pending (shell : Shell) (q : List Key) : List Key :=
  match shell.pc with
  | .key k => k :: q
  | .halt => q
  | .command => q

/-- The queue is in order, and what was handled made the lines and the line begun. -/
structure Inv (s : Sys) (q handled : List Key) : Prop where
  inOrder : InOrder s.keys.length s.shell.keyboard q
  keys : s.keys = handled ++ s.shell.pending q
  count : s.keys.length ≤ 4096
  lines : s.lines = (typed handled).1
  line : s.shell.pc ≠ .command → s.shell.line.text = (typed handled).2
  command : s.shell.pc = .command → (typed handled).2 = []

section Steps

variable {s : Sys} {q handled : List Key}

theorem Inv.press (hi : Inv s q handled) (hlt : s.keys.length < 4096) {kb_state : KbState}
    {key : Keycode} {kb : Keyboard} (h : addKey kb_state key s.shell.keyboard = .ok () kb) :
    Inv ⟨{ s.shell with keyboard := kb }, s.keys ++ [⟨kb_state, key⟩], s.lines⟩
      (q ++ [⟨kb_state, key⟩]) handled := by
  have hlen : q.length < 4096 := by
    have := hi.inOrder.head_add
    omega
  obtain ⟨kb', hadd, hin⟩ := hi.inOrder.add hlt kb_state key
  rw [h] at hadd
  cases hadd
  rw [Bounded.add, if_pos hlen] at hin
  refine ⟨by rw [List.length_append]; exact hin, ?_, by rw [List.length_append]; exact hlt,
    hi.lines, hi.line, hi.command⟩
  have hkeys := hi.keys
  dsimp only
  rw [hkeys, Shell.pending, Shell.pending, List.append_assoc]
  cases s.shell.pc <;> rfl

theorem Inv.poll (hi : Inv s q handled) (hpc : s.shell.pc = .halt) {shell : Shell}
    (h : kshellPoll s.shell = .ok () shell) : ∃ q', Inv ⟨shell, s.keys, s.lines⟩ q' handled := by
  obtain ⟨kb, hget, hin⟩ := hi.inOrder.getKey hi.count true
  rw [kshellPoll, hget] at h
  cases h
  have hkeys := hi.keys
  have hline := hi.line (by rw [hpc]; exact Pc.noConfusion)
  rw [Shell.pending, hpc] at hkeys
  cases q with
  | nil =>
    exact ⟨[], hin, hkeys, hi.count, hi.lines, fun _ => hline, fun hc => Pc.noConfusion hc⟩
  | cons k q =>
    exact ⟨q, hin, hkeys, hi.count, hi.lines, fun _ => hline, fun hc => Pc.noConfusion hc⟩

/-- **The branches edit the line** as the rule for the key says, when the branch of Backspace finds
no further key. -/
theorem Inv.handle (hi : Inv s q handled) {k : Key} (hpc : s.shell.pc = .key k)
    (hspare : k.key = keyBackspace → 0 < s.shell.line.cmdLen → s.shell.keyboard.len = 0)
    {line : Option (List (BitVec 8))} {shell : Shell}
    (h : kshellKey k s.shell = .ok line shell) :
    Inv ⟨shell, s.keys, s.lines ++ line.toList⟩ q (handled ++ [k]) := by
  have hkeys := hi.keys
  have hline := hi.line (by rw [hpc]; exact Pc.noConfusion)
  rw [Shell.pending, hpc, List.append_cons] at hkeys
  -- a key other than Enter edits the line
  have hedit : k.key ≠ keyEnter → typed (handled ++ [k]) =
      ((typed handled).1, editKey s.shell.line.text k.key) := by
    intro henter
    rw [typed_append, typeKey, if_neg henter, hline]
  rcases kshellKey_cases h with ⟨hlen, hkey, rfl, ⟨_, hget⟩, hremove, -, hhalt⟩ |
    ⟨henter, rfl, rfl⟩ | ⟨hlen, henter, hacc, rfl, rfl⟩ | ⟨henter, hsame, rfl, rfl⟩
  · -- the queue is empty, so the second `kb_get_key` takes nothing
    have hq : q = [] := by
      have := hi.inOrder.len_eq
      rw [hspare hkey hlen] at this
      exact List.eq_nil_of_length_eq_zero this.symm
    subst hq
    obtain ⟨kb, hget', hin⟩ := hi.inOrder.getKey hi.count false
    rw [hget] at hget'
    cases hget'
    have htyped := hedit (by rw [hkey]; decide)
    rw [hkey, editKey_backspace] at htyped
    refine ⟨hin, ?_, hi.count, ?_, ?_, ?_⟩
    · rw [Shell.pending, hhalt]
      exact hkeys
    · rw [htyped, Option.toList_none, List.append_nil, hi.lines]
    · intro _
      rw [htyped, hremove, CmdLine.text_removeLast]
    · intro hc
      rw [hhalt] at hc
      exact Pc.noConfusion hc
  · have htyped : typed (handled ++ [k]) = ((typed handled).1 ++ [(typed handled).2], []) := by
      rw [typed_append, typeKey, if_pos henter]
    refine ⟨hi.inOrder, hkeys, hi.count, ?_, fun hc => absurd rfl hc, ?_⟩
    · rw [htyped, hi.lines, hline]
      rfl
    · intro _
      rw [htyped]
  · have htyped := hedit henter
    rw [editKey_accepted hacc (by rwa [CmdLine.text_length])] at htyped
    refine ⟨hi.inOrder, hkeys, hi.count, ?_, ?_, fun hc => Pc.noConfusion hc⟩
    · rw [htyped, Option.toList_none, List.append_nil, hi.lines]
    · intro _
      rw [htyped, CmdLine.text_append]
  · have htyped := hedit henter
    rw [hsame] at htyped
    refine ⟨hi.inOrder, hkeys, hi.count, ?_, ?_, fun hc => Pc.noConfusion hc⟩
    · rw [htyped, Option.toList_none, List.append_nil, hi.lines]
    · intro _
      rw [htyped]

theorem Inv.ret (hi : Inv s q handled) (tty : Tty) (hpc : s.shell.pc = .command) :
    Inv ⟨kshellPrompt tty s.shell, s.keys, s.lines⟩ q handled := by
  have hkeys := hi.keys
  rw [Shell.pending, hpc] at hkeys
  refine ⟨hi.inOrder, hkeys, hi.count, hi.lines, ?_, fun hc => Pc.noConfusion hc⟩
  intro _
  exact CmdLine.text_empty.trans (hi.command hpc).symm

/-- **A step that drops no key keeps the invariant.** -/
theorem Inv.step (hi : Inv s q handled) {event : Event} {s' : Sys}
    (hs : Within Step Spares s event s') : ∃ q' handled', Inv s' q' handled' := by
  obtain ⟨hspares, hstep⟩ := hs
  cases hstep with
  | press h => exact ⟨_, _, hi.press hspares h⟩
  | poll hpc h =>
    obtain ⟨q', hi'⟩ := hi.poll hpc h
    exact ⟨q', handled, hi'⟩
  | handle hpc h => exact ⟨_, _, hi.handle hpc (hspares _ hpc) h⟩
  | ret tty hpc => exact ⟨_, _, hi.ret tty hpc⟩

theorem Inv.init (tty : Tty) : Inv (.init tty) [] [] :=
  ⟨inOrder_keyboard, rfl, Nat.zero_le _, rfl, fun _ => rfl, fun hc => Pc.noConfusion hc⟩

theorem Inv.lineLaw (hi : Inv s q handled) : LineLaw s := by
  refine ⟨?_, ?_⟩
  · rw [hi.lines, hi.keys]
    exact typed_isPrefix handled _
  · intro ⟨hlen, hpc⟩
    have hq : q = [] := by
      have := hi.inOrder.len_eq
      rw [hlen] at this
      exact List.eq_nil_of_length_eq_zero this.symm
    have hpending : s.shell.pending q = [] := by
      rw [Shell.pending, hq]
      cases hc : s.shell.pc with
      | halt => rfl
      | key k => exact absurd hc (hpc k)
      | command => rfl
    rw [hi.lines, hi.keys, hpending, List.append_nil]

end Steps

/-- **When no keystroke is lost.**  In every run in which fewer than 4096 keys came before each
key, and the branch of Backspace never finds a further key, the lines are right. -/
theorem lineLaw_of_run {tty : Tty} {events : List Event} {s : Sys}
    (h : Run (Within Step Spares) (.init tty) events s) : LineLaw s := by
  obtain ⟨_, _, hi⟩ := h.invariant (I := fun s => ∃ q handled, Inv s q handled)
    (fun ⟨_, _, hi⟩ hs => hi.step hs) ⟨_, _, Inv.init tty⟩
  exact hi.lineLaw

/-! ### A dropped key -/

/-- The system after the keys were pressed, before the loop takes any of them. -/
theorem run_press (tty : Tty) (keys : List Key) (hlt : keys.length < 4096) :
    ∃ kb, InOrder keys.length kb keys ∧
      Run Step (.init tty) (keys.map fun k => .press k.state k.key)
        ⟨⟨kb, tty, CmdLine.empty, .halt⟩, keys, []⟩ := by
  induction keys using List.reverseRecOn with
  | nil => exact ⟨keyboard, inOrder_keyboard, .nil⟩
  | append_singleton keys k ih =>
    rw [List.length_append, List.length_singleton] at hlt
    obtain ⟨kb, hin, hrun⟩ := ih (by omega)
    obtain ⟨kb', hadd, hin'⟩ := hin.add (by omega) k.state k.key
    rw [Bounded.add, if_pos (by omega)] at hin'
    refine ⟨kb', by rw [List.length_append]; exact hin', ?_⟩
    rw [List.map_append]
    exact hrun.snoc (.press hadd)

theorem poll_eq {s : Shell} {n : Nat} {k : Key} {q : List Key} (hin : InOrder n s.keyboard (k :: q))
    (hn : n ≤ 4096) :
    ∃ kb, kshellPoll s = .ok () { s with keyboard := kb, pc := .key k } ∧ InOrder n kb q := by
  obtain ⟨kb, hget, hin'⟩ := hin.getKey hn true
  refine ⟨kb, ?_, hin'⟩
  rw [kshellPoll, hget]
  rfl

/-- `a` and Backspace, each handled before the next key comes. -/
theorem lineLaw_backspace :
    ∃ s, s.keys = [⟨{}, 97⟩, ⟨{}, keyBackspace⟩] ∧ s.shell.line.text = [] ∧ LineLaw s := by
  obtain ⟨kb, hadd, hin⟩ := inOrder_keyboard.add (by decide) {} 97
  obtain ⟨kb₁, hpoll₁, hin₁⟩ := poll_eq (s := ⟨kb, ttyStatic, CmdLine.empty, .halt⟩) hin (by decide)
  have hkey₁ : kshellKey ⟨{}, 97⟩ ⟨kb₁, ttyStatic, CmdLine.empty, .key ⟨{}, 97⟩⟩ =
      .ok none ⟨kb₁, ttyPutc 97 ttyStatic, CmdLine.empty.append 97 (by decide), .halt⟩ := rfl
  obtain ⟨kb₂, hadd₂, hin₂⟩ := hin₁.add (by decide) {} keyBackspace
  obtain ⟨kb₃, hpoll₃, hin₃⟩ := poll_eq (s := ⟨kb₂, ttyPutc 97 ttyStatic,
    CmdLine.empty.append 97 (by decide), .halt⟩) hin₂ (by decide)
  obtain ⟨kb₄, hget, hin₄⟩ := hin₃.getKey (by decide) false
  have hkey₂ : kshellKey ⟨{}, keyBackspace⟩ ⟨kb₃, ttyPutc 97 ttyStatic,
      CmdLine.empty.append 97 (by decide), .key ⟨{}, keyBackspace⟩⟩ =
      .ok none ⟨kb₄, ttyDeleteprev (ttyPutc 97 ttyStatic),
        (CmdLine.empty.append 97 (by decide)).removeLast (by decide), .halt⟩ := by
    rw [kshellKey, dif_pos ⟨rfl, Nat.succ_pos 0⟩, hget]
  let s₁ : Sys := ⟨⟨kb, ttyStatic, CmdLine.empty, .halt⟩, [⟨{}, 97⟩], []⟩
  let s₂ : Sys := { s₁ with shell := ⟨kb₁, ttyStatic, CmdLine.empty, .key ⟨{}, 97⟩⟩ }
  let s₃ : Sys := { s₁ with shell :=
    ⟨kb₁, ttyPutc 97 ttyStatic, CmdLine.empty.append 97 (by decide), .halt⟩ }
  let s₄ : Sys := ⟨{ s₃.shell with keyboard := kb₂ }, [⟨{}, 97⟩, ⟨{}, keyBackspace⟩], []⟩
  let s₅ : Sys := { s₄ with shell :=
    { s₃.shell with keyboard := kb₃, pc := .key ⟨{}, keyBackspace⟩ } }
  let s₆ : Sys := { s₄ with shell := ⟨kb₄, ttyDeleteprev (ttyPutc 97 ttyStatic),
    (CmdLine.empty.append 97 (by decide)).removeLast (by decide), .halt⟩ }
  have hstep₁ := Step.handle (s := s₂) rfl hkey₁
  have hstep₂ := Step.handle (s := s₅) rfl hkey₂
  have h₁ : Within Step Spares (.init ttyStatic) (.press {} 97) s₁ :=
    ⟨show 0 < 4096 by decide, .press hadd⟩
  have h₂ : Within Step Spares s₁ .poll s₂ := ⟨trivial, .poll rfl hpoll₁⟩
  have h₃ : Within Step Spares s₂ .handle s₃ :=
    ⟨fun _ hk hb _ => (by cases hk; cases hb), hstep₁⟩
  have h₄ : Within Step Spares s₃ (.press {} keyBackspace) s₄ :=
    ⟨show 1 < 4096 by decide, .press hadd₂⟩
  have h₅ : Within Step Spares s₄ .poll s₅ := ⟨trivial, .poll rfl hpoll₃⟩
  have h₆ : Within Step Spares s₅ .handle s₆ := ⟨fun _ _ _ _ => hin₃.len_eq, hstep₂⟩
  refine ⟨s₆, rfl, ?_, lineLaw_of_run (.cons h₁ (.cons h₂ (.cons h₃ (.cons h₄
    (.cons h₅ (.single h₆))))))⟩
  show ((CmdLine.empty.append 97 (by decide)).removeLast (by decide)).text = []
  rw [CmdLine.text_removeLast, CmdLine.text_append, CmdLine.text_empty]
  rfl

/-- `a`, Backspace, `b` and Enter. -/
def burst : List Key := [⟨{}, 97⟩, ⟨{}, keyBackspace⟩, ⟨{}, 98⟩, ⟨{}, keyEnter⟩]

/-- The keys come before the loop takes the first of them: the branch of Backspace drops `b`, and
Enter gives an empty line instead of the line `b`. -/
theorem not_lineLaw_burst :
    ∃ s, Run Step (.init ttyStatic) ((burst.map fun k => .press k.state k.key) ++
        [.poll, .handle, .poll, .handle, .poll, .handle]) s ∧
      s.keys = burst ∧ s.lines = [[]] ∧ ¬ LineLaw s := by
  obtain ⟨kb, hin, hrun⟩ := run_press ttyStatic burst (by decide)
  -- `a`
  obtain ⟨kb₁, hpoll₁, hin₁⟩ := poll_eq (s := ⟨kb, ttyStatic, CmdLine.empty, .halt⟩) hin (by decide)
  have hkey₁ : kshellKey ⟨{}, 97⟩ ⟨kb₁, ttyStatic, CmdLine.empty, .key ⟨{}, 97⟩⟩ =
      .ok none ⟨kb₁, ttyPutc 97 ttyStatic, CmdLine.empty.append 97 (by decide), .halt⟩ := rfl
  -- Backspace, which drops `b`
  obtain ⟨kb₂, hpoll₂, hin₂⟩ := poll_eq (s := ⟨kb₁, ttyPutc 97 ttyStatic,
    CmdLine.empty.append 97 (by decide), .halt⟩) hin₁ (by decide)
  obtain ⟨kb₃, hget, hin₃⟩ := hin₂.getKey (by decide) false
  have hkey₂ : kshellKey ⟨{}, keyBackspace⟩ ⟨kb₂, ttyPutc 97 ttyStatic,
      CmdLine.empty.append 97 (by decide), .key ⟨{}, keyBackspace⟩⟩ =
      .ok none ⟨kb₃, ttyDeleteprev (ttyPutc 97 ttyStatic),
        (CmdLine.empty.append 97 (by decide)).removeLast (by decide), .halt⟩ := by
    rw [kshellKey, dif_pos ⟨rfl, Nat.succ_pos 0⟩, hget]
  -- Enter
  obtain ⟨kb₄, hpoll₄, _⟩ := poll_eq (s := ⟨kb₃, ttyDeleteprev (ttyPutc 97 ttyStatic),
    (CmdLine.empty.append 97 (by decide)).removeLast (by decide), .halt⟩) hin₃ (by decide)
  have htext : ((CmdLine.empty.append 97 (by decide)).removeLast (by decide)).text = [] := by
    rw [CmdLine.text_removeLast, CmdLine.text_append, CmdLine.text_empty]
    rfl
  refine ⟨_, hrun.trans (.cons (.poll rfl hpoll₁) (.cons (.handle rfl hkey₁)
    (.cons (.poll rfl hpoll₂) (.cons (.handle rfl hkey₂) (.cons (.poll rfl hpoll₄)
      (.single (.handle rfl rfl))))))), rfl, ?_, ?_⟩
  · exact congrArg (fun line => [line]) htext
  · intro hlaw
    have hpre := hlaw.1
    have hlines : (typed burst).1 = [[98]] := by decide
    dsimp only at hpre
    rw [hlines] at hpre
    have hfirst := (List.cons_prefix_cons.mp hpre).1
    rw [htext] at hfirst
    cases hfirst

end Aosis.Terminal
