import Mathlib.Data.BitVec
import Mathlib.Data.Fin.Basic
import Mathlib.Logic.Function.Basic

/-!
# The 8259A interrupt controller

Two chips pass the requests of fifteen lines to the processor, one at a time.  A chip remembers the
edges on its lines (`irr`), the interrupts that the processor has taken and not ended (`isr`) and the
lines that are masked (`imr`).  It passes on the request of highest priority that is not masked, unless
an interrupt of the same or a higher priority is in service; line 0 has the highest priority.  The
output of the slave is line 2 of the master.

* `programmed_resting`: what the initialization words leave, whatever the chips did before.
* `acknowledge_resting`, `exists_acknowledge`: when nothing is in service, the processor gets the
  pending line of highest priority.
* `resting_of_serving`: the commands that end one interrupt bring the chips to rest.

The chips are edge triggered and in the mode for the 8086, where an interrupt is a vector.  Rotating
priorities, the special mask and polling are left out.
-/

namespace Aosis.Lib.Pic8259

/-! ### One chip -/

/-- A chip has eight lines. -/
scoped instance neZero_lines : NeZero 8 := ⟨by decide⟩

/-- What the next byte at the data port is. -/
inductive Expects where
  | icw2 | icw3 | icw4 | mask
  deriving DecidableEq

/-- The registers of a chip. -/
structure Chip where
  irr : Fin 8 → Bool
  isr : Fin 8 → Bool
  imr : Fin 8 → Bool
  icw1 : BitVec 8
  icw2 : BitVec 8
  icw3 : BitVec 8
  icw4 : BitVec 8
  expects : Expects

namespace Chip

/-- An edge on a line. -/
def raise (c : Chip) (i : Fin 8) : Chip := { c with irr := Function.update c.irr i true }

/-- The request may be passed on. -/
def passes (c : Chip) (i : Fin 8) : Bool :=
  c.irr i && !c.imr i && decide (∀ j ≤ i, c.isr j = false)

/-- The request that the chip passes on, once it is initialized. -/
def request (c : Chip) : Option (Fin 8) :=
  if c.expects = .mask ∧ c.icw4.getLsbD 0 then Fin.find? c.passes else none

/-- The processor takes the interrupt; with automatic ends it is not in service afterwards. -/
def serve (c : Chip) (i : Fin 8) : Chip where
  __ := c
  irr := Function.update c.irr i false
  isr := Function.update c.isr i (!c.icw4.getLsbD 1)

/-- The end of the interrupt of highest priority. -/
def eoi (c : Chip) : Chip :=
  match Fin.find? c.isr with
  | some i => { c with isr := Function.update c.isr i false }
  | none => c

/-- A byte at the command port: an initialization word, or a command. -/
def command (c : Chip) (b : BitVec 8) : Chip :=
  if b.getLsbD 4 then
    { c with
      irr := fun _ => false, isr := fun _ => false, imr := fun _ => false
      icw1 := b, icw4 := 0, expects := .icw2 }
  else if b.getLsbD 3 then c
  else if b >>> 5 = 1 then c.eoi
  else if b >>> 5 = 3 then
    { c with isr := Function.update c.isr (Fin.ofNat 8 (b.toNat % 8)) false }
  else c

/-- A byte at the data port: the next initialization word, or the mask. -/
def data (c : Chip) (b : BitVec 8) : Chip :=
  let last : Expects := if c.icw1.getLsbD 0 then .icw4 else .mask
  match c.expects with
  | .icw2 => { c with icw2 := b, expects := if c.icw1.getLsbD 1 then last else .icw3 }
  | .icw3 => { c with icw3 := b, expects := last }
  | .icw4 => { c with icw4 := b, expects := .mask }
  | .mask => { c with imr := fun i => b.getLsbD i }

/-- The vector of a line. -/
def vector (c : Chip) (i : Fin 8) : BitVec 8 := c.icw2 &&& 0xF8 ||| BitVec.ofNat 8 i.val

end Chip

/-! ### Two chips -/

/-- A line of one of the chips. -/
inductive Line where
  | master (i : Fin 8)
  | slave (i : Fin 8)
  deriving DecidableEq

/-- The place of a line in the order of priorities; the lines of the slave come at line 2 of the
master. -/
def Line.rank : Line → Nat
  | .master i => if i ≤ 2 then i.val else i.val + 7
  | .slave j => 2 + j.val

/-- The chips. -/
structure Pair where
  master : Chip
  slave : Chip

namespace Pair

/-- An edge on a line. -/
def raise (p : Pair) : Line → Pair
  | .master i => { p with master := p.master.raise i }
  | .slave j => { p with slave := p.slave.raise j }

/-- The requests that the chips remember. -/
def pending (p : Pair) : Line → Bool
  | .master i => p.master.irr i
  | .slave j => p.slave.irr j

/-- The interrupts in service. -/
def inService (p : Pair) : Line → Bool
  | .master i => p.master.isr i
  | .slave j => p.slave.isr j

/-- The lines that are masked. -/
def masked (p : Pair) : Line → Bool
  | .master i => p.master.imr i
  | .slave j => p.slave.imr j

/-- The master with the output of the slave on its line 2. -/
def wired (p : Pair) : Chip :=
  { p.master with irr := Function.update p.master.irr 2 p.slave.request.isSome }

/-- The processor takes an interrupt: it gets the vector of the line, from the slave when the master
has passed on the request of line 2 and names the slave that is connected there. -/
def acknowledge (p : Pair) : Option (Line × Pair) :=
  match p.wired.request with
  | none => none
  | some i =>
    if i = 2 then
      if p.master.icw3.getLsbD 2 ∧ p.slave.icw3 = 2 then
        p.slave.request.map fun j => (.slave j, ⟨p.master.serve 2, p.slave.serve j⟩)
      else none
    else some (.master i, { p with master := p.master.serve i })

/-- The vector of a line. -/
def vector (p : Pair) : Line → BitVec 8
  | .master i => p.master.vector i
  | .slave j => p.slave.vector j

/-- A byte at a port of the PC. -/
def outb (p : Pair) (port data : Nat) : Pair :=
  let b := BitVec.ofNat 8 data
  if port = 0x20 then { p with master := p.master.command b }
  else if port = 0x21 then { p with master := p.master.data b }
  else if port = 0xA0 then { p with slave := p.slave.command b }
  else if port = 0xA1 then { p with slave := p.slave.data b }
  else p

/-- Some bytes at ports, in their order. -/
def outbs (p : Pair) (bytes : List (Nat × Nat)) : Pair := bytes.foldl (fun p b => p.outb b.1 b.2) p

end Pair

/-! ### At rest -/

/-- A chip that is initialized, with nothing masked and nothing in service. -/
def Chip.resting (icw2 icw3 : BitVec 8) (irr : Fin 8 → Bool) : Chip where
  irr := irr
  isr := fun _ => false
  imr := fun _ => false
  icw1 := 0x11
  icw2 := icw2
  icw3 := icw3
  icw4 := 0x01
  expects := .mask

/-- The same chip, with one interrupt in service. -/
def Chip.serving (icw2 icw3 : BitVec 8) (irr : Fin 8 → Bool) (i : Fin 8) : Chip :=
  { Chip.resting icw2 icw3 irr with isr := Function.update (fun _ => false) i true }

/-- The chips with these vectors at rest, and the lines that are pending. -/
def resting (first second : BitVec 8) (pending : Line → Bool) : Pair where
  master := .resting first 0x04 fun i => pending (.master i)
  slave := .resting second 0x02 fun j => pending (.slave j)

/-- The chips with one interrupt in service. -/
def serving (first second : BitVec 8) (pending : Line → Bool) : Line → Pair
  | .master i =>
    { resting first second pending with
      master := .serving first 0x04 (fun i => pending (.master i)) i }
  | .slave j =>
    { master := .serving first 0x04 (fun i => pending (.master i)) 2
      slave := .serving second 0x02 (fun j => pending (.slave j)) j }

section Chip

variable {icw2 icw3 : BitVec 8} {irr : Fin 8 → Bool} {i : Fin 8}

theorem Chip.isr_serving :
    (Chip.serving icw2 icw3 irr i).isr = Function.update (fun _ => false) i true := rfl

theorem Chip.eoi_resting : (Chip.resting icw2 icw3 irr).eoi = .resting icw2 icw3 irr := by
  have hnone : Fin.find? (Chip.resting icw2 icw3 irr).isr = none :=
    Fin.find?_eq_none_iff.mpr fun _ => rfl
  rw [Chip.eoi, hnone]

theorem Chip.eoi_serving : (Chip.serving icw2 icw3 irr i).eoi = .resting icw2 icw3 irr := by
  have hsome : Fin.find? (Chip.serving icw2 icw3 irr i).isr = some i := by
    refine Fin.find?_eq_some_iff.mpr ⟨?_, fun j hj => ?_⟩
    · rw [Chip.isr_serving, Function.update_self]
    · rw [Chip.isr_serving, Function.update_of_ne (ne_of_lt hj)]
  rw [Chip.eoi, hsome]
  simp only [Chip.serving, Chip.resting, Function.update_idem]
  rw [Function.update_eq_self_iff.mpr rfl]

theorem Chip.serve_resting : (Chip.resting icw2 icw3 irr).serve i =
    .serving icw2 icw3 (Function.update irr i false) i := by
  simp [Chip.serve, Chip.serving, Chip.resting]

theorem Chip.request_resting : (Chip.resting icw2 icw3 irr).request = Fin.find? irr := by
  have hpasses : (Chip.resting icw2 icw3 irr).passes = irr := by
    funext i
    simp [Chip.passes, Chip.resting]
  rw [Chip.request, if_pos ⟨rfl, by simp [Chip.resting]⟩, hpasses]

end Chip

/-- The initialization words of both chips, in the order in which they are sent, and the masks. -/
def initWords (first second : Nat) : List (Nat × Nat) :=
  [(0x20, 0x11), (0xA0, 0x11), (0x21, first), (0xA1, second), (0x21, 0x04), (0xA1, 0x02),
    (0x21, 0x01), (0xA1, 0x01), (0x21, 0x00), (0xA1, 0x00)]

/-- **After the initialization words the chips are at rest**, whatever they did before. -/
theorem programmed_resting (p : Pair) (first second : Nat) : p.outbs (initWords first second) =
    resting (BitVec.ofNat 8 first) (BitVec.ofNat 8 second) fun _ => false := by
  simp only [Pair.outbs, initWords, List.foldl_cons, List.foldl_nil, Pair.outb]
  simp [Chip.command, Chip.data, resting, Chip.resting]

/-! ### One interrupt -/

section Pair

variable {first second : BitVec 8} {pending : Line → Bool} {l l' : Line} {p : Pair}

theorem pending_resting : (resting first second pending).pending = pending := by
  funext l
  cases l <;> rfl

theorem pending_serving (l : Line) : (serving first second pending l).pending = pending := by
  funext l'
  cases l <;> cases l' <;> rfl

theorem inService_resting (l : Line) : (resting first second pending).inService l = false ∧
    (resting first second pending).masked l = false := by
  cases l <;> exact ⟨rfl, rfl⟩

theorem update_master (pending : Line → Bool) (i : Fin 8) (b : Bool) :
    (fun j => Function.update pending (.master i) b (.master j)) =
      Function.update (fun j => pending (.master j)) i b ∧
    (fun j => Function.update pending (.master i) b (.slave j)) = fun j => pending (.slave j) := by
  refine ⟨?_, ?_⟩ <;> funext j <;> simp [Function.update_apply]

theorem update_slave (pending : Line → Bool) (i : Fin 8) (b : Bool) :
    (fun j => Function.update pending (.slave i) b (.slave j)) =
      Function.update (fun j => pending (.slave j)) i b ∧
    (fun j => Function.update pending (.slave i) b (.master j)) = fun j => pending (.master j) := by
  refine ⟨?_, ?_⟩ <;> funext j <;> simp [Function.update_apply]

theorem raise_resting (l : Line) : (resting first second pending).raise l =
    resting first second (Function.update pending l true) := by
  cases l with
  | master i =>
    obtain ⟨hmaster, hslave⟩ := update_master pending i true
    rw [resting, resting, hmaster, hslave]
    rfl
  | slave i =>
    obtain ⟨hslave, hmaster⟩ := update_slave pending i true
    rw [resting, resting, hmaster, hslave]
    rfl

theorem raise_serving (l l' : Line) : (serving first second pending l).raise l' =
    serving first second (Function.update pending l' true) l := by
  cases l' with
  | master i =>
    obtain ⟨hmaster, hslave⟩ := update_master pending i true
    cases l with
    | master j =>
      rw [serving, serving, resting, resting, hmaster, hslave]
      rfl
    | slave j =>
      rw [serving, serving, hmaster, hslave]
      rfl
  | slave i =>
    obtain ⟨hslave, hmaster⟩ := update_slave pending i true
    cases l with
    | master j =>
      rw [serving, serving, resting, resting, hmaster, hslave]
      rfl
    | slave j =>
      rw [serving, serving, hmaster, hslave]
      rfl

/-- The master passes on the first of its lines, with the slave's output on line 2. -/
theorem request_wired : (resting first second pending).wired.request =
    Fin.find? (Function.update (fun i => pending (.master i)) 2
      (Fin.find? fun j => pending (.slave j)).isSome) := by
  have hwired : (resting first second pending).wired = .resting first 0x04
      (Function.update (fun i => pending (.master i)) 2
        (Fin.find? fun j => pending (.slave j)).isSome) := by
    rw [Pair.wired, resting, Chip.request_resting]
    rfl
  rw [hwired, Chip.request_resting]

/-- Interrupts of the master's lines 0 and 1 come before those of the slave, the others after
them. -/
theorem rank_master (i : Fin 8) : (i < 2 → (Line.master i).rank = i.val) ∧
    (2 < i → (Line.master i).rank = i.val + 7) := by
  rw [Line.rank]
  refine ⟨fun h => if_pos (le_of_lt h), fun h => if_neg (not_le_of_gt h)⟩

/-- **The processor gets the pending line of highest priority**, and its interrupt is in service. -/
theorem acknowledge_resting (hcascade : pending (.master 2) = false)
    (h : (resting first second pending).acknowledge = some (l, p)) :
    pending l = true ∧ (∀ l', pending l' = true → l.rank ≤ l'.rank) ∧
      p = serving first second (Function.update pending l false) l := by
  rw [Pair.acknowledge, request_wired] at h
  split at h
  · cases h
  next i hi =>
  obtain ⟨hset, hfirst⟩ := Fin.find?_eq_some_iff.mp hi
  by_cases h2 : i = 2
  · -- the request comes from the slave
    subst h2
    rw [if_pos rfl, if_pos ⟨by simp [resting, Chip.resting], rfl⟩, Option.map_eq_some_iff] at h
    obtain ⟨j, hj, heq⟩ := h
    rw [resting, Chip.request_resting] at hj
    obtain ⟨hpending, hmin⟩ := Fin.find?_eq_some_iff.mp hj
    obtain ⟨rfl, rfl⟩ := Prod.mk.inj heq
    refine ⟨hpending, fun l' hl' => ?_, ?_⟩
    · cases l' with
      | master i' =>
        have hne : i' ≠ 2 := fun hi' => by simp [hi', hcascade] at hl'
        rcases lt_or_gt_of_ne hne with hlt | hgt
        · have := hfirst i' hlt
          rw [Function.update_of_ne hne] at this
          exact absurd hl' (by simp [this])
        · rw [(rank_master i').2 hgt, Line.rank]
          have : (2 : Fin 8).val = 2 := rfl
          omega
      | slave j' =>
        have hle : j ≤ j' := not_lt.mp fun hlt => by simp [hmin j' hlt] at hl'
        simp only [Line.rank]
        omega
    · obtain ⟨hslave, hmaster⟩ := update_slave pending j false
      have hsame : Function.update (fun i => pending (.master i)) 2 false =
          fun i => pending (.master i) := Function.update_eq_self_iff.mpr hcascade.symm
      rw [serving, hslave, hmaster, resting, Chip.serve_resting, Chip.serve_resting, hsame]
  · rw [if_neg h2] at h
    obtain ⟨rfl, rfl⟩ := Prod.mk.inj (Option.some.inj h)
    rw [Function.update_of_ne h2] at hset
    refine ⟨hset, fun l' hl' => ?_, ?_⟩
    · cases l' with
      | master i' =>
        have hne : i' ≠ 2 := fun hi' => by simp [hi', hcascade] at hl'
        have hle : i ≤ i' := not_lt.mp fun hlt => by
          have := hfirst i' hlt
          rw [Function.update_of_ne hne] at this
          simp [this] at hl'
        simp only [Line.rank]
        split <;> split <;> omega
      | slave j =>
        -- the slave's output would be set
        have hsome : (Fin.find? fun j => pending (.slave j)).isSome = true := by
          rw [Fin.isSome_find?_iff]
          exact ⟨j, hl'⟩
        have hlt : i < 2 := by
          refine lt_of_le_of_ne (not_lt.mp fun hlt => ?_) h2
          have := hfirst 2 hlt
          rw [Function.update_self, hsome] at this
          cases this
        rw [(rank_master i).1 hlt, Line.rank]
        have : (2 : Fin 8).val = 2 := rfl
        omega
    · obtain ⟨hmaster, hslave⟩ := update_master pending i false
      rw [serving, hmaster, resting, resting, hslave, Chip.serve_resting]

/-- **When a line is pending, the processor gets one.** -/
theorem exists_acknowledge (hl : pending l = true) (hne : l ≠ .master 2) :
    ∃ l' p, (resting first second pending).acknowledge = some (l', p) := by
  have hsome : (Fin.find? (Function.update (fun i => pending (.master i)) 2
      (Fin.find? fun j => pending (.slave j)).isSome)).isSome = true := by
    rw [Fin.isSome_find?_iff]
    cases l with
    | master i =>
      have hi : i ≠ 2 := fun hi => hne (by rw [hi])
      exact ⟨i, by rw [Function.update_of_ne hi]; exact hl⟩
    | slave j =>
      exact ⟨2, by rw [Function.update_self, Fin.isSome_find?_iff]; exact ⟨j, hl⟩⟩
  obtain ⟨i, hi⟩ := Option.isSome_iff_exists.mp hsome
  rw [Pair.acknowledge, request_wired, hi]
  dsimp only
  by_cases h2 : i = 2
  · obtain ⟨hset, -⟩ := Fin.find?_eq_some_iff.mp hi
    rw [h2, Function.update_self] at hset
    obtain ⟨j, hj⟩ := Option.isSome_iff_exists.mp hset
    have hslave : (resting first second pending).slave.request = some j := by
      rw [resting, Chip.request_resting, hj]
    rw [if_pos h2, if_pos ⟨by simp [resting, Chip.resting], rfl⟩, hslave]
    exact ⟨_, _, rfl⟩
  · rw [if_neg h2]
    exact ⟨_, _, rfl⟩

/-! ### The end of an interrupt -/

/-- The commands that end an interrupt on the line: the slave's first, then the master's. -/
def endWords : Line → List (Nat × Nat)
  | .master _ => [(0x20, 0x20)]
  | .slave _ => [(0xA0, 0x20), (0x20, 0x20)]

theorem outbs_endWords (p : Pair) (l : Line) : p.outbs (endWords l) =
    match l with
    | .master _ => { p with master := p.master.eoi }
    | .slave _ => { master := p.master.eoi, slave := p.slave.eoi } := by
  have heoi : ∀ c : Chip, c.command 0x20#8 = c.eoi := fun c => by simp [Chip.command]
  cases l <;> simp [Pair.outbs, endWords, Pair.outb, heoi]

/-- **The end of the interrupt brings the chips to rest.** -/
theorem resting_of_serving (l : Line) :
    (serving first second pending l).outbs (endWords l) = resting first second pending := by
  rw [outbs_endWords]
  cases l with
  | master i => rw [serving, Chip.eoi_serving, resting]
  | slave j => rw [serving, Chip.eoi_serving, Chip.eoi_serving, resting]

theorem resting_of_resting (l : Line) :
    (resting first second pending).outbs (endWords l) = resting first second pending := by
  rw [outbs_endWords]
  cases l with
  | master i => rw [resting, Chip.eoi_resting]
  | slave j => rw [resting, Chip.eoi_resting, Chip.eoi_resting]

end Pair

end Aosis.Lib.Pic8259
