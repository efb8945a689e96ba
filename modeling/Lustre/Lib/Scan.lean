/-
Module: Lustre.Lib.Scan
Purpose: Numbers in texts, as the C library scans and prints them.
Trusted boundary: none
Main exports: isSpace, digit?, value, scanNumber, Numeral, Stops, scanNumber_numeral
-/
import Mathlib.Data.List.TakeWhile
import Mathlib.Tactic.IntervalCases

namespace Scan

open List

/-! ### Scanning -/

/-- `isspace`. -/
def isSpace (c : Char) : Bool :=
  c = ' ' ∨ c = '\t' ∨ c = '\n' ∨ c = '\x0b' ∨ c = '\x0c' ∨ c = '\r'

/-- The value of a character below a base of at most sixteen. -/
def digit? (base : Nat) (c : Char) : Option Nat :=
  if c.toNat < 48 then none
  else if c.toNat < 58 ∧ c.toNat - 48 < base then some (c.toNat - 48)
  else if 65 ≤ c.toNat ∧ c.toNat < 71 ∧ c.toNat - 55 < base then some (c.toNat - 55)
  else if 97 ≤ c.toNat ∧ c.toNat < 103 ∧ c.toNat - 87 < base then some (c.toNat - 87)
  else none

/-- The character is a digit. -/
def isDigit (base : Nat) (c : Char) : Bool := (digit? base c).isSome

/-- The number that digits write. -/
def value (base : Nat) (digits : List Char) : Nat :=
  digits.foldl (fun sum c => base * sum + (digit? base c).getD 0) 0

/-- A sign in front, and the text behind it. -/
def sign : List Char → Bool × List Char
  | '-' :: text => (true, text)
  | '+' :: text => (false, text)
  | text => (false, text)

/-- A number with its sign. -/
def signed (negative : Bool) (n : Nat) : Int := if negative then -(n : Int) else n

/-- The digits in front, with the sign that was read, and the text behind them. -/
def scan (base : Nat) (negative : Bool) (text : List Char) : Option (Int × List Char) :=
  if text.takeWhile (isDigit base) = [] then none
  else some (signed negative (value base (text.takeWhile (isDigit base))),
    text.dropWhile (isDigit base))

/-- The text behind `0x`, if it is there. -/
def hexTail : List Char → List Char
  | '0' :: 'x' :: text => text
  | '0' :: 'X' :: text => text
  | text => text

/-- Hexadecimal digits may have `0x` in front. -/
def baseTail (base : Nat) (text : List Char) : List Char := if base = 16 then hexTail text else text

/-- A directive for a number: white space, a sign and digits.  A text that ends with `0x` has
no digits. -/
def scanNumber (base : Nat) (text : List Char) : Option (Int × List Char) :=
  let (negative, rest) := sign (text.dropWhile isSpace)
  scan base negative (baseTail base rest)

/-! ### Numerals -/

/-- The text of a sign, and whether it negates. -/
inductive SignText : List Char → Bool → Prop where
  | none : SignText [] false
  | plus : SignText ['+'] false
  | minus : SignText ['-'] true

/-- The text in front of hexadecimal digits. -/
inductive BaseText : Nat → List Char → Prop where
  | none {base : Nat} : BaseText base []
  | lower : BaseText 16 ['0', 'x']
  | upper : BaseText 16 ['0', 'X']

/-- A text that writes a number in a base. -/
structure Numeral (base : Nat) (text : List Char) (v : Int) : Prop where
  shape : ∃ space mark tag digits negative, text = space ++ (mark ++ (tag ++ digits)) ∧
    (∀ c ∈ space, isSpace c = true) ∧ SignText mark negative ∧ BaseText base tag ∧ digits ≠ [] ∧
    (∀ c ∈ digits, isDigit base c = true) ∧ v = signed negative (value base digits)

/-- No digit stands in front. -/
def NoDigit (base : Nat) (text : List Char) : Prop :=
  ∀ c rest, text = c :: rest → isDigit base c = false

/-- A numeral in front of the text ends there: no digit follows, nor an `x` behind a hexadecimal `0`. -/
structure Stops (base : Nat) (text : List Char) : Prop where
  digit : NoDigit base text
  tag : base = 16 → ∀ c rest, text = c :: rest → c ≠ 'x' ∧ c ≠ 'X'

theorem stops_nil (base : Nat) : Stops base [] :=
  ⟨fun _ _ same => (by cases same), fun _ _ _ same => (by cases same)⟩

variable {base : Nat} {c : Char}

theorem stops_cons (other : isDigit base c = false) (tag : c ≠ 'x' ∧ c ≠ 'X') (rest : List Char) :
    Stops base (c :: rest) := by
  constructor
  · rintro _ _ ⟨⟩
    exact other
  · rintro _ _ _ ⟨⟩
    exact tag

section

variable {α : Type} {p : α → Bool}

theorem takeWhile_append_stop {front rest : List α} (all : ∀ x ∈ front, p x = true)
    (stop : ∀ x tail, rest = x :: tail → p x = false) :
    (front ++ rest).takeWhile p = front ∧ (front ++ rest).dropWhile p = rest := by
  induction front with
  | nil =>
    cases rest with
    | nil => exact ⟨rfl, rfl⟩
    | cons x tail =>
      have other := stop x tail rfl
      simp [other]
  | cons x front ih => simp_all

theorem dropWhile_stop (text : List α) (x : α) (tail : List α)
    (rest : text.dropWhile p = x :: tail) : p x = false := by
  have stop := head?_dropWhile_not p text
  rw [rest] at stop
  simpa using stop

end

theorem digit?_eq_none_of_space (space : isSpace c = true) : digit? base c = none := by
  simp only [isSpace, decide_eq_true_eq] at space
  rcases space with rfl | rfl | rfl | rfl | rfl | rfl <;> rfl

/-- A digit is no space and no sign. -/
theorem isDigit_plain (digit : isDigit base c = true) : isSpace c = false ∧ c ≠ '-' ∧ c ≠ '+' := by
  refine ⟨?_, ?_, ?_⟩
  · by_contra space
    rw [Bool.not_eq_false] at space
    rw [isDigit, digit?_eq_none_of_space space] at digit
    cases digit
  · rintro rfl
    cases digit
  · rintro rfl
    cases digit

variable {text : List Char}

theorem sign_plain (plain : ∀ c rest, text = c :: rest → c ≠ '-' ∧ c ≠ '+') :
    sign text = (false, text) := by
  unfold sign
  split
  · exact absurd rfl (plain _ _ rfl).1
  · exact absurd rfl (plain _ _ rfl).2
  · rfl

variable {rest : List Char} {negative : Bool}

theorem text_of_sign (text : List Char) :
    ∃ mark, text = mark ++ (sign text).2 ∧ SignText mark (sign text).1 := by
  unfold sign
  split
  · exact ⟨['-'], rfl, .minus⟩
  · exact ⟨['+'], rfl, .plus⟩
  · exact ⟨[], rfl, .none⟩

variable {digits : List Char} {v : Int}

/-- What `scan` takes are digits, and no digit is left in front. -/
theorem digits_of_scan (scanned : scan base negative text = some (v, rest)) :
    ∃ digits, text = digits ++ rest ∧ digits ≠ [] ∧ (∀ c ∈ digits, isDigit base c = true) ∧
      v = signed negative (value base digits) ∧ NoDigit base rest := by
  unfold scan at scanned
  split at scanned
  · cases scanned
  · rename_i some
    cases scanned
    refine ⟨_, (takeWhile_append_dropWhile ..).symm, some, fun c mem => ?_, rfl, ?_⟩
    · exact mem_takeWhile_imp mem
    · intro c tail same
      exact dropWhile_stop text c tail same

/-- The tag of the base is passed over, and nothing else. -/
theorem baseTail_text {tag : List Char} (written : BaseText base tag) (some : digits ≠ [])
    (all : ∀ c ∈ digits, isDigit base c = true)
    (stop : base = 16 → digits = ['0'] → ∀ c tail, rest = c :: tail → c ≠ 'x' ∧ c ≠ 'X') :
    baseTail base (tag ++ (digits ++ rest)) = digits ++ rest := by
  cases written with
  | lower | upper => rfl
  | none =>
    rw [nil_append, baseTail]
    split
    swap
    · rfl
    -- a second character is a digit, or stands behind the numeral
    have second (c : Char) (tail : List Char) (same : digits ++ rest = '0' :: c :: tail) :
        c ≠ 'x' ∧ c ≠ 'X' := by
      cases digits with
      | nil => exact absurd rfl some
      | cons d digits =>
        cases digits with
        | nil => grind
        | cons e digits =>
          have digit := all c (by simp [(cons.inj (cons.inj same).2).1])
          constructor <;> rintro rfl <;> cases digit
    unfold hexTail
    split
    · rename_i tail same
      exact absurd rfl (second 'x' tail same).1
    · rename_i tail same
      exact absurd rfl (second 'X' tail same).2
    · rfl

/-- Behind the spaces of a numeral comes no space. -/
theorem numeral_head {mark tag : List Char} (signed : SignText mark negative)
    (tagged : BaseText base tag) (some : digits ≠ []) (all : ∀ c ∈ digits, isDigit base c = true)
    (rest : List Char) :
    (∀ c tail, mark ++ (tag ++ (digits ++ rest)) = c :: tail → isSpace c = false) ∧
      ∀ c tail, tag ++ (digits ++ rest) = c :: tail → c ≠ '-' ∧ c ≠ '+' := by
  have plain : ∀ c tail, tag ++ (digits ++ rest) = c :: tail → isSpace c = false ∧ c ≠ '-' ∧ c ≠ '+' := by
    intro c tail same
    cases tagged with
    | lower | upper =>
      cases same
      exact ⟨rfl, by decide, by decide⟩
    | none =>
      cases digits with
      | nil => exact absurd rfl some
      | cons d digits =>
        have first : d = c := (cons.inj same).1
        rw [← first]
        exact isDigit_plain (all d mem_cons_self)
  refine ⟨fun c tail same => ?_, fun c tail same => (plain c tail same).2⟩
  cases signed with
  | none => exact (plain c tail same).1
  | plus | minus =>
    cases same
    rfl

/-- Scanning reads a numeral in front of a text that does not continue it. -/
theorem scanNumber_numeral (numeral : Numeral base text v) (stop : Stops base rest) :
    scanNumber base (text ++ rest) = .some (v, rest) := by
  obtain ⟨space, mark, tag, digits, negative, rfl, spaces, signs, tagged, some, all, rfl⟩ := numeral.shape
  obtain ⟨noSpace, noSign⟩ := numeral_head signs tagged some all rest
  have split : space ++ (mark ++ (tag ++ digits)) ++ rest =
      space ++ (mark ++ (tag ++ (digits ++ rest))) := by
    simp only [append_assoc]
  have behind : (space ++ (mark ++ (tag ++ (digits ++ rest)))).dropWhile isSpace =
      mark ++ (tag ++ (digits ++ rest)) := (takeWhile_append_stop spaces noSpace).2
  have signed : sign (mark ++ (tag ++ (digits ++ rest))) = (negative, tag ++ (digits ++ rest)) := by
    cases signs with
    | none => exact sign_plain noSign
    | plus | minus => rfl
  rw [scanNumber, split, behind, signed]
  dsimp only
  rw [baseTail_text tagged some all fun sixteen _ => stop.tag sixteen]
  obtain ⟨front, behind⟩ := takeWhile_append_stop all stop.digit
  rw [scan, front, behind, if_neg some]

/-- What is passed over is a tag. -/
theorem text_of_baseTail (base : Nat) (text : List Char) :
    ∃ tag, text = tag ++ baseTail base text ∧ BaseText base tag := by
  unfold baseTail
  split
  · rename_i sixteen
    subst sixteen
    unfold hexTail
    split
    · exact ⟨['0', 'x'], rfl, .lower⟩
    · exact ⟨['0', 'X'], rfl, .upper⟩
    · exact ⟨[], rfl, .none⟩
  · exact ⟨[], rfl, .none⟩

theorem numeral_of_scanNumber (scanned : scanNumber base text = some (v, rest)) :
    ∃ front, text = front ++ rest ∧ Numeral base front v ∧ NoDigit base rest := by
  unfold scanNumber at scanned
  dsimp only at scanned
  obtain ⟨mark, markText, signs⟩ := text_of_sign (text.dropWhile isSpace)
  obtain ⟨tag, tagText, tagged⟩ := text_of_baseTail base (sign (text.dropWhile isSpace)).2
  obtain ⟨digits, digitText, some, all, number, stop⟩ := digits_of_scan scanned
  refine ⟨text.takeWhile isSpace ++ (mark ++ (tag ++ digits)), ?_,
    ⟨_, mark, tag, digits, _, rfl, ?_, signs, tagged, some, all, number⟩, stop⟩
  · grind [takeWhile_append_dropWhile, append_assoc]
  · exact fun c mem => mem_takeWhile_imp mem

theorem Numeral.unique {w : Int} (first : Numeral base text v) (second : Numeral base text w) :
    v = w := by
  have a := scanNumber_numeral first (stops_nil base)
  have b := scanNumber_numeral second (stops_nil base)
  rw [a] at b
  cases b
  rfl

theorem digit?_digitChar {k : Nat} (small : k < base) (hex : base ≤ 16) :
    digit? base k.digitChar = some k := by
  have bound : k < 16 := by omega
  interval_cases k <;> simp [digit?, Nat.digitChar] <;> omega

theorem isDigit_of_mem_toDigits {n : Nat} (low : 1 < base) (hex : base ≤ 16)
    (mem : c ∈ Nat.toDigits base n) : isDigit base c = true := by
  induction n using Nat.base_induction base low with
  | single m small =>
    rw [Nat.toDigits_of_lt_base small, mem_singleton] at mem
    rw [mem, isDigit, digit?_digitChar small hex]
    rfl
  | digit m k small positive ih =>
    rw [← Nat.toDigits_append_toDigits low positive small] at mem
    rcases mem_append.mp mem with before | last
    · exact ih before
    · rw [Nat.toDigits_of_lt_base small, mem_singleton] at last
      rw [last, isDigit, digit?_digitChar small hex]
      rfl

theorem value_toDigits (low : 1 < base) (hex : base ≤ 16) (n : Nat) :
    value base (Nat.toDigits base n) = n := by
  induction n using Nat.base_induction base low with
  | single m small =>
    rw [Nat.toDigits_of_lt_base small]
    simp [value, digit?_digitChar small hex]
  | digit m k small positive ih =>
    rw [← Nat.toDigits_append_toDigits low positive small, Nat.toDigits_of_lt_base small, value,
      foldl_append]
    rw [value] at ih
    rw [ih]
    simp [digit?_digitChar small hex]

theorem numeral_toDigits (low : 1 < base) (hex : base ≤ 16) (n : Nat) :
    Numeral base (Nat.toDigits base n) n := by
  refine ⟨[], [], [], Nat.toDigits base n, false, rfl, forall_mem_nil _, .none,
    .none, Nat.toDigits_ne_nil, fun c mem => isDigit_of_mem_toDigits low hex mem, ?_⟩
  rw [value_toDigits low hex]
  rfl

end Scan
