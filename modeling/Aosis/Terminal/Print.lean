import Aosis.Common.Word

/-!
# Printing strings and numbers

The functions of `kernel/terminal/tty.c` that only call `tty_putc`, for an arbitrary `tty_putc`:
`tty_write`, `tty_printstr`, `tty_printint`, `tty_printhex` and `kprintf`.

* `kprintf_eq` and the lemmas before it: each of them writes a list of characters that does not depend
  on `tty_putc`; that of `kprintf` is made of the pieces of its format.
* `kprintf_invariant` and the lemmas before it: what `tty_putc` keeps is kept by all of them.

A string in memory is the list of its bytes; it ends at the first zero byte, or at the end of the
list.  The arguments of `kprintf` are the words on the stack after the format, and `strAt` is the
string at an address.
-/

namespace Aosis.Terminal.Print

section Print

variable {σ : Type} (putc : BitVec 8 → σ → σ)

/-- `tty_write`, with the bytes that it reads. -/
def ttyWrite (str : List (BitVec 8)) (s : σ) : σ := str.foldl (fun s c => putc c s) s

/-- `tty_printstr`. -/
def ttyPrintstr : List (BitVec 8) → σ → σ
  | [], s => s
  | c :: str, s => if c = 0 then s else ttyPrintstr str (putc c s)

/-- The first loop of `tty_printint`: the digits in `s[0]` to `s[i - 1]`. -/
def ttyPrintintDigits (num : Nat) : List (BitVec 8) :=
  if num = 0 then [] else BitVec.ofNat 8 (num % 10) :: ttyPrintintDigits (num / 10)

/-- `tty_printint`.  The second loop goes through the digits from the last one on. -/
def ttyPrintint (num : Word) (s : σ) : σ :=
  if num = 0 then putc 48 s
  else (ttyPrintintDigits num.toNat).reverse.foldl (fun s d => putc (48 + d) s) s

/-- The array `hex`. -/
def hex : List (BitVec 8) :=
  [48, 49, 50, 51, 52, 53, 54, 55, 56, 57, 97, 98, 99, 100, 101, 102]

/-- The loop of `tty_printhex`, with `n` turns to go. -/
def ttyPrinthexLoop : Nat → Word → σ → σ
  | 0, _, s => s
  | n + 1, num, s =>
    let c := ((num &&& 0xF0000000) >>> 28) &&& 0x0F
    ttyPrinthexLoop n (num <<< 4) (putc (hex.getD c.toNat 0) s)

/-- `tty_printhex`. -/
def ttyPrinthex (num : Word) (s : σ) : σ :=
  if num = 0 then putc 48 s else ttyPrinthexLoop putc 8 num s

/-- The loop of `kprintf` from the character `i` of the format on: the arguments that are left, the
variables `fmt_flag` and `printed`, and the result with the screen. -/
def kprintfLoop (strAt : Word → List (BitVec 8)) : List (BitVec 8) → (Nat → Word) → Bool → Nat →
    Nat → σ → Nat × σ
  | [], _, _, printed, i, s => (u32 (printed + i), s)
  | c :: format, args, fmt_flag, printed, i, s =>
    if c = 0 then (u32 (printed + i), s)
    else if fmt_flag then
      -- an unknown letter prints nothing
      if c = 37 then kprintfLoop strAt format args false (printed + 1) (i + 1) (putc 37 s)
      else if c = 100 ∨ c = 117 ∨ c = 105 then
        kprintfLoop strAt format (fun n => args (n + 1)) false printed (i + 1)
          (ttyPrintint putc (args 0) s)
      else if c = 120 ∨ c = 88 then
        kprintfLoop strAt format (fun n => args (n + 1)) false printed (i + 1)
          (ttyPrinthex putc (args 0) s)
      else if c = 115 then
        kprintfLoop strAt format (fun n => args (n + 1)) false printed (i + 1)
          (ttyPrintstr putc (strAt (args 0)) s)
      else kprintfLoop strAt format args false printed (i + 1) s
    else if c = 37 then kprintfLoop strAt format args true printed (i + 1) s
    else kprintfLoop strAt format args false printed (i + 1) (putc c s)

/-- `kprintf`. -/
def kprintf (strAt : Word → List (BitVec 8)) (format : List (BitVec 8)) (args : Nat → Word)
    (s : σ) : Nat × σ := kprintfLoop putc strAt format args false 0 0 s

end Print

/-! ### What is written -/

/-- The characters of `tty_printstr`. -/
def strChars (str : List (BitVec 8)) : List (BitVec 8) := str.takeWhile (· != 0)

/-- The characters of `tty_printint`. -/
def intChars (num : Word) : List (BitVec 8) :=
  if num = 0 then [48] else (ttyPrintintDigits num.toNat).reverse.map (48 + ·)

/-- The characters of the loop of `tty_printhex`. -/
def hexLoopChars : Nat → Word → List (BitVec 8)
  | 0, _ => []
  | n + 1, num => hex.getD (((num &&& 0xF0000000) >>> 28) &&& 0x0F).toNat 0 :: hexLoopChars n (num <<< 4)

/-- The characters of `tty_printhex`. -/
def hexChars (num : Word) : List (BitVec 8) := if num = 0 then [48] else hexLoopChars 8 num

/-- A piece of the format: a character, a directive with its argument, or the percent sign at the
end. -/
inductive Piece where
  | char (c : BitVec 8)
  | percent
  | int (num : Word)
  | hex (num : Word)
  | str (s : List (BitVec 8))
  | unknown
  | trailing

/-- The characters that a piece puts on the screen. -/
def Piece.chars : Piece → List (BitVec 8)
  | .char c => [c]
  | .percent => [37]
  | .int num => intChars num
  | .hex num => hexChars num
  | .str s => strChars s
  | .unknown => []
  | .trailing => []

/-- The characters of the format in a piece. -/
def Piece.length : Piece → Nat
  | .char _ => 1
  | .trailing => 1
  | _ => 2

/-- What a piece adds to `printed`. -/
def Piece.printed : Piece → Nat
  | .percent => 1
  | _ => 0

/-- The pieces of the format, when `fmt_flag` says whether a percent sign came before it. -/
def pieces (strAt : Word → List (BitVec 8)) : List (BitVec 8) → (Nat → Word) → Bool → List Piece
  | [], _, fmt_flag => if fmt_flag then [.trailing] else []
  | c :: format, args, fmt_flag =>
    if c = 0 then if fmt_flag then [.trailing] else []
    else if fmt_flag then
      if c = 37 then .percent :: pieces strAt format args false
      else if c = 100 ∨ c = 117 ∨ c = 105 then
        .int (args 0) :: pieces strAt format (fun n => args (n + 1)) false
      else if c = 120 ∨ c = 88 then
        .hex (args 0) :: pieces strAt format (fun n => args (n + 1)) false
      else if c = 115 then
        .str (strAt (args 0)) :: pieces strAt format (fun n => args (n + 1)) false
      else .unknown :: pieces strAt format args false
    else if c = 37 then pieces strAt format args true
    else .char c :: pieces strAt format args false

section Written

variable {σ : Type} (putc : BitVec 8 → σ → σ)

theorem ttyWrite_append (cs ds : List (BitVec 8)) (s : σ) :
    ttyWrite putc (cs ++ ds) s = ttyWrite putc ds (ttyWrite putc cs s) := List.foldl_append

theorem ttyPrintstr_eq (str : List (BitVec 8)) (s : σ) :
    ttyPrintstr putc str s = ttyWrite putc (strChars str) s := by
  induction str generalizing s with
  | nil => rfl
  | cons c str ih =>
    rw [ttyPrintstr, strChars, List.takeWhile_cons]
    by_cases hc : c = 0
    · simp [hc, ttyWrite]
    · rw [if_neg hc, if_pos (by simpa using hc), ih]
      rfl

theorem ttyPrintint_eq (num : Word) (s : σ) :
    ttyPrintint putc num s = ttyWrite putc (intChars num) s := by
  rw [ttyPrintint, intChars]
  by_cases hnum : num = 0
  · rw [if_pos hnum, if_pos hnum]
    rfl
  · rw [if_neg hnum, if_neg hnum, ttyWrite, List.foldl_map]

theorem ttyPrinthexLoop_eq (n : Nat) (num : Word) (s : σ) :
    ttyPrinthexLoop putc n num s = ttyWrite putc (hexLoopChars n num) s := by
  induction n generalizing num s with
  | zero => rfl
  | succ n ih =>
    rw [ttyPrinthexLoop, ih]
    rfl

theorem ttyPrinthex_eq (num : Word) (s : σ) :
    ttyPrinthex putc num s = ttyWrite putc (hexChars num) s := by
  rw [ttyPrinthex, hexChars]
  by_cases hnum : num = 0
  · rw [if_pos hnum, if_pos hnum]
    rfl
  · rw [if_neg hnum, if_neg hnum, ttyPrinthexLoop_eq]

/-- What the loop returns for the pieces that are left, when the ones before it took up `i` characters
of the format. -/
def returned (printed i : Nat) (ps : List Piece) : Nat :=
  u32 (printed + i + (ps.map fun p => p.length + p.printed).sum)

theorem returned_cons {printed i : Nat} {p : Piece} {ps : List Piece} :
    returned printed i (p :: ps) = returned (printed + p.printed) (i + p.length) ps := by
  rw [returned, returned, List.map_cons, List.sum_cons]
  congr 1
  omega

theorem returned_end (fmt_flag : Bool) (printed i : Nat) (s : σ) :
    (u32 (printed + (i + fmt_flag.toNat)), s) =
      (returned printed i (if fmt_flag then [.trailing] else []),
        ttyWrite putc ((if fmt_flag then [Piece.trailing] else []).flatMap Piece.chars) s) := by
  cases fmt_flag with
  | false => rfl
  | true =>
    rw [if_pos rfl, returned, Nat.add_assoc]
    rfl

/-- **The loop of `kprintf` goes through the pieces of the format.** -/
theorem kprintfLoop_eq (strAt : Word → List (BitVec 8)) (format : List (BitVec 8))
    (args : Nat → Word) (fmt_flag : Bool) (printed i : Nat) (s : σ) :
    kprintfLoop putc strAt format args fmt_flag printed (i + fmt_flag.toNat) s =
      (returned printed i (pieces strAt format args fmt_flag),
        ttyWrite putc ((pieces strAt format args fmt_flag).flatMap Piece.chars) s) := by
  induction format generalizing args fmt_flag printed i s with
  | nil => exact returned_end putc fmt_flag printed i s
  | cons c format ih =>
    rw [kprintfLoop, pieces]
    by_cases h0 : c = 0
    · rw [if_pos h0, if_pos h0]
      exact returned_end putc fmt_flag printed i s
    · rw [if_neg h0, if_neg h0]
      cases fmt_flag with
      | true =>
        -- the percent sign before this character belongs to the piece
        rw [if_pos rfl, if_pos rfl]
        split_ifs
        · rw [returned_cons, List.flatMap_cons, ttyWrite_append]
          exact ih args false (printed + 1) (i + 2) (putc 37 s)
        · rw [returned_cons, List.flatMap_cons, ttyWrite_append, ttyPrintint_eq]
          exact ih _ false printed (i + 2) _
        · rw [returned_cons, List.flatMap_cons, ttyWrite_append, ttyPrinthex_eq]
          exact ih _ false printed (i + 2) _
        · rw [returned_cons, List.flatMap_cons, ttyWrite_append, ttyPrintstr_eq]
          exact ih _ false printed (i + 2) _
        · rw [returned_cons, List.flatMap_cons, ttyWrite_append]
          exact ih args false printed (i + 2) s
      | false =>
        rw [if_neg Bool.false_ne_true, if_neg Bool.false_ne_true]
        split_ifs
        · exact ih args true printed i s
        · rw [returned_cons, List.flatMap_cons, ttyWrite_append]
          exact ih args false printed (i + 1) (putc c s)

theorem kprintf_eq (strAt : Word → List (BitVec 8)) (format : List (BitVec 8)) (args : Nat → Word)
    (s : σ) : kprintf putc strAt format args s =
      (returned 0 0 (pieces strAt format args false),
        ttyWrite putc ((pieces strAt format args false).flatMap Piece.chars) s) :=
  kprintfLoop_eq putc strAt format args false 0 0 s

end Written

/-! ### Invariants -/

section Invariant

variable {σ : Type} {putc : BitVec 8 → σ → σ} {I : σ → Prop}

theorem ttyWrite_invariant (hputc : ∀ c s, I s → I (putc c s)) (str : List (BitVec 8)) {s : σ}
    (h : I s) : I (ttyWrite putc str s) := by
  induction str generalizing s with
  | nil => exact h
  | cons c str ih => exact ih (hputc c s h)

theorem ttyWrite_rel {τ : Type} {putc' : BitVec 8 → τ → τ} {R : σ → τ → Prop}
    (hputc : ∀ c s t, R s t → R (putc c s) (putc' c t)) (str : List (BitVec 8)) {s : σ} {t : τ}
    (h : R s t) : R (ttyWrite putc str s) (ttyWrite putc' str t) := by
  induction str generalizing s t with
  | nil => exact h
  | cons c str ih => exact ih (hputc c s t h)

theorem ttyPrintstr_invariant (hputc : ∀ c s, I s → I (putc c s)) (str : List (BitVec 8)) {s : σ}
    (h : I s) : I (ttyPrintstr putc str s) := by
  rw [ttyPrintstr_eq]
  exact ttyWrite_invariant hputc _ h

theorem ttyPrintint_invariant (hputc : ∀ c s, I s → I (putc c s)) (num : Word) {s : σ} (h : I s) :
    I (ttyPrintint putc num s) := by
  rw [ttyPrintint_eq]
  exact ttyWrite_invariant hputc _ h

theorem ttyPrinthex_invariant (hputc : ∀ c s, I s → I (putc c s)) (num : Word) {s : σ} (h : I s) :
    I (ttyPrinthex putc num s) := by
  rw [ttyPrinthex_eq]
  exact ttyWrite_invariant hputc _ h

/-- **What `tty_putc` keeps, `kprintf` keeps.** -/
theorem kprintf_invariant (hputc : ∀ c s, I s → I (putc c s)) (strAt : Word → List (BitVec 8))
    (format : List (BitVec 8)) (args : Nat → Word) {s : σ} (h : I s) :
    I (kprintf putc strAt format args s).2 := by
  rw [kprintf_eq]
  exact ttyWrite_invariant hputc _ h

end Invariant

end Aosis.Terminal.Print
